import Phy6212.Keyscan.Once

/-!
# The time a key is down

A key that is down counts 50 ms for each scan, but with more than two keys down `keyscan_task` goes
on without its delay.
-/

namespace Phy6212.Keyscan

open List Runs

/-! ## Delays -/

/-- The number of delays since the scan in which the key went down, when it is down and the
scan is one of this session. -/
def wentDown (pos : Pos) : List Note → Option Nat
  | [] => none
  | .woken :: _ => none
  | .scanned matrix :: earlier =>
    if matrix pos = true then
      if downFor [pos] earlier = 0 then some 0 else wentDown pos earlier
    else none
  | .delayed :: earlier => (wentDown pos earlier).map (· + 1)
  | _ :: earlier => wentDown pos earlier

theorem wentDown_scanned (pos : Pos) (matrix : Matrix) (earlier : List Note) :
    wentDown pos (.scanned matrix :: earlier) =
      if matrix pos = true then
        if downFor [pos] earlier = 0 then some 0 else wentDown pos earlier
      else none := rfl

/-- Behind the trace, the time of every key that is down is at most the time of the delays
since it went down, and no key is held before the hold time has passed. -/
def Elapsed (trace : List Note) (keys : Pos → KeyDef) : Prop :=
  ∀ pos delays, wentDown pos trace = some delays →
    (keys pos).holdTimeMs ≤ delays * 50 ∧ ((keys pos).state = .hold → holdTime ≤ delays * 50)

/-- The keys have their times at every moment of a round, from its scan on. -/
def OnTime (s : Watched) : Input → Prop
  | .wake => True
  | .scan matrix outcome =>
    ∀ done rest, (s.task.round matrix outcome).1 = .scanned matrix :: done ++ rest →
      Elapsed (done.reverse ++ .scanned matrix :: s.trace)
        (kscanReadKeycode matrix s.task.scanner).2.keys

/-- The last scan found more than two keys, so it was not followed by a delay. -/
def Hurried (trace : List Note) : Prop :=
  ∃ matrix, lastScan trace = some matrix ∧ 2 < (counted matrix).length

/-- A scan behind a hurried one finds no key down that went down in this session and still
counts its time. -/
def Paced (s : Watched) : Input → Prop
  | .wake => True
  | .scan matrix _ => Hurried s.trace → ∀ pos, matrix pos = true →
      (s.task.scanner.keys pos).state = .down → wentDown pos s.trace = none

/-! ## The end of a round -/

variable {trace : List Note} {s : Watched} (n : Nat) (matrix : Matrix) (outcome : Outcome)
  (t : Task)

theorem round_ends :
    2 < (counted matrix).length ∧ (t.round matrix outcome).1 = [.scanned matrix] ∧
        (t.round matrix outcome).2.scanning = t.scanning ∨
      (counted matrix).length ≤ 2 ∧ ∃ told,
        (told = [] ∨ ∃ msg delivered, told = [Note.sent msg delivered]) ∧
        ((t.round matrix outcome).1 = .scanned matrix :: (told ++ [.left]) ∧
            (t.round matrix outcome).2.scanning = false ∨
          (t.round matrix outcome).1 = .scanned matrix :: (told ++ [.delayed])) := by
  have count := (kscanReadKeycode_counted matrix t.scanner).1
  rw [← count]
  unfold Task.round
  dsimp only
  split
  · next none_ =>
    rw [none_]
    refine .inr ⟨by decide, ?_⟩
    split
    · refine ⟨[.sent ⟨.releaseAll, t.param⟩ outcome.queued], .inr ⟨_, _, rfl⟩, ?_⟩
      split
      · exact .inl ⟨rfl, rfl⟩
      · exact .inr rfl
    · exact ⟨[], .inl rfl, .inl ⟨rfl, rfl⟩⟩
  by_cases many : 2 < (kscanReadKeycode matrix t.scanner).1
  · have quiet : keyMsg (kscanReadKeycode matrix t.scanner).1
        (kscanReadKeycode matrix t.scanner).2 = none := by
      have other1 : (kscanReadKeycode matrix t.scanner).1 ≠ 1 := by
        intro one
        rw [one] at many
        exact absurd many (by decide)
      have other2 : (kscanReadKeycode matrix t.scanner).1 ≠ 2 := by
        intro two
        rw [two] at many
        exact absurd many (by decide)
      rw [keyMsg, if_neg other1, if_neg other2]
    refine .inl ⟨many, ?_, ?_⟩
    · simp only [Task.tell, quiet, if_pos many, append_nil]
    · simp only [Task.tell, quiet]
  · refine .inr ⟨Nat.le_of_not_lt many, ?_⟩
    rw [if_neg many]
    unfold Task.tell
    split
    · next msg filled =>
      split
      · exact ⟨[.sent msg outcome.queued], .inr ⟨_, _, rfl⟩, .inr rfl⟩
      · exact ⟨[], .inl rfl, .inr rfl⟩
    · exact ⟨[], .inl rfl, .inr rfl⟩

def Note.Quiet : Note → Prop
  | .woken => False
  | .scanned _ => False
  | _ => True

theorem round_starts :
    ∃ rest, (t.round matrix outcome).1 = .scanned matrix :: rest ∧ ∀ note ∈ rest, note.Quiet := by
  rcases round_ends matrix outcome t with ⟨-, notes, -⟩ | ⟨-, told, sent, ends⟩
  · refine ⟨[], notes, ?_⟩
    intro note member
    cases member
  have quiet : ∀ last : Note, last.Quiet → ∀ note ∈ told ++ [last], note.Quiet := by
    intro last quiet note member
    rcases mem_append.mp member with first | second
    · rcases sent with rfl | ⟨msg, delivered, rfl⟩
      · cases first
      · rw [mem_singleton.mp first]
        trivial
    · rw [mem_singleton.mp second]
      exact quiet
  rcases ends with ⟨notes, -⟩ | notes
  · exact ⟨told ++ [.left], notes, quiet .left trivial⟩
  · exact ⟨told ++ [.delayed], notes, quiet .delayed trivial⟩

/-! ## Scans in a row and delays -/

def Enough (trace : List Note) : Prop :=
  ∀ pos delays, wentDown pos trace = some delays → min (downFor [pos] trace) 62 ≤ delays + 1

theorem downFor_ne_zero {pos : Pos} (trace : List Note) {delays : Nat}
    (went : wentDown pos trace = some delays) : downFor [pos] trace ≠ 0 := by
  induction trace generalizing delays with
  | nil => cases went
  | cons note earlier ih =>
    cases note with
    | woken => cases went
    | scanned matrix =>
      rw [wentDown_scanned] at went
      split at went
      · next reads =>
        rw [downFor_scanned, if_pos reads]
        exact Nat.succ_ne_zero _
      · cases went
    | delayed =>
      obtain ⟨before, went, -⟩ := Option.map_eq_some_iff.mp went
      exact ih went
    | sent msg delivered => exact ih went
    | left => exact ih went

theorem elapsed_iff_enough {keys : Pos → KeyDef}
    (fit : ∀ pos, KeyFits (downFor [pos] trace) (keys pos)) : Elapsed trace keys ↔ Enough trace := by
  have one : ∀ pos delays, wentDown pos trace = some delays →
      ((keys pos).holdTimeMs ≤ delays * 50 ∧ ((keys pos).state = .hold → holdTime ≤ delays * 50) ↔
        min (downFor [pos] trace) 62 ≤ delays + 1) := by
    intro pos delays went
    have fits := fit pos
    rw [KeyFits, if_neg (downFor_ne_zero trace went)] at fits
    unfold intervalTime at fits
    unfold holdTime
    split at fits
    · obtain ⟨state, time⟩ := fits
      rw [state, time]
      constructor
      · rintro ⟨passed, -⟩
        omega
      · intro enough
        exact ⟨by omega, fun held => by cases held⟩
    constructor
    · rintro ⟨passed, -⟩
      omega
    · intro enough
      exact ⟨by omega, fun _ => by omega⟩
  constructor
  · intro elapsed pos delays went
    exact (one pos delays went).mp (elapsed pos delays went)
  · intro enough pos delays went
    exact (one pos delays went).mpr (enough pos delays went)

theorem quiet_induction {motive : List Note → Prop} (start : motive trace)
    (step : ∀ note earlier, Note.Quiet note → motive earlier → motive (note :: earlier))
    (done : List Note) : (∀ note ∈ done, note.Quiet) → motive (done ++ trace) := by
  induction done with
  | nil =>
    intro _
    exact start
  | cons note done ih =>
    intro quiet
    apply step note _ (quiet note mem_cons_self)
    exact ih fun other member => quiet other (mem_cons_of_mem _ member)

theorem downFor_quiet (pos : Pos) (trace done : List Note) :
    (∀ note ∈ done, note.Quiet) → downFor [pos] (done ++ trace) = downFor [pos] trace := by
  apply quiet_induction (motive := fun after => downFor [pos] after = downFor [pos] trace) rfl
  intro note earlier quiet before
  cases note with
  | woken => exact quiet.elim
  | scanned matrix => exact quiet.elim
  | sent msg delivered => exact before
  | left => exact before
  | delayed => exact before

theorem Enough.quiet (enough : Enough trace) (done : List Note) :
    (∀ note ∈ done, note.Quiet) → Enough (done ++ trace) := by
  apply quiet_induction enough
  intro note earlier quiet before
  cases note with
  | woken => exact quiet.elim
  | scanned matrix => exact quiet.elim
  | sent msg delivered => exact before
  | left => exact before
  | delayed =>
    intro pos delays went
    obtain ⟨fewer, earlier, rfl⟩ := Option.map_eq_some_iff.mp went
    exact Nat.le_succ_of_le (before pos fewer earlier)

theorem onTime_iff (fit : KeysFit s) (matrix : Matrix) (outcome : Outcome) :
    OnTime s (.scan matrix outcome) ↔ Enough (.scanned matrix :: s.trace) := by
  obtain ⟨notes, starts, quiet⟩ := round_starts matrix outcome s.task
  have fits := elapsed_iff_enough (fit.scan matrix)
  constructor
  · intro onTime
    exact fits.mp (onTime [] notes starts)
  intro enough done rest split
  rw [starts, cons_append] at split
  have quietly : ∀ note ∈ done.reverse, note.Quiet := by
    intro note member
    apply quiet note
    rw [(List.cons.inj split).2]
    exact mem_append_left rest (mem_reverse.mp member)
  apply (elapsed_iff_enough _).mpr (enough.quiet done.reverse quietly)
  intro pos
  rw [downFor_quiet pos _ done.reverse quietly]
  exact fit.scan matrix pos

/-! ## Runs -/

/-- What is known of scans and delays before a round, when the rounds so far have been on
time. -/
structure Tallied (trace : List Note) (scanning : Bool) : Prop where
  few : ∀ pos delays, wentDown pos trace = some delays →
    delays ≤ downFor [pos] trace ∧ (Hurried trace → delays + 1 ≤ downFor [pos] trace)
  enough : Enough trace
  waited : scanning = true → ¬ Hurried trace → ∀ pos delays, wentDown pos trace = some delays →
    min (downFor [pos] trace) 62 ≤ delays

variable {matrix : Matrix} {scanning : Bool}

theorem Tallied.scanned_few (tallied : Tallied trace scanning) {pos : Pos} {delays : Nat}
    (went : wentDown pos (.scanned matrix :: trace) = some delays) :
    delays + 1 ≤ downFor [pos] (.scanned matrix :: trace) := by
  rw [wentDown_scanned] at went
  split at went
  · next reads =>
    rw [downFor_scanned, if_pos reads, Nat.add_le_add_iff_right]
    split at went
    · cases went
      exact Nat.zero_le _
    · exact (tallied.few pos delays went).1
  · cases went

theorem Tallied.enough_iff (tallied : Tallied trace true) (matrix : Matrix) :
    Enough (.scanned matrix :: trace) ↔
      (Hurried trace → ∀ pos, matrix pos = true →
        downFor [pos] trace ≠ 0 ∧ downFor [pos] trace ≤ 61 → wentDown pos trace = none) := by
  have went_of : ∀ pos, matrix pos = true → downFor [pos] trace ≠ 0 →
      wentDown pos (.scanned matrix :: trace) = wentDown pos trace := by
    intro pos reads before
    rw [wentDown_scanned, if_pos reads, if_neg before]
  constructor
  · rintro enough hurried pos reads ⟨before, few⟩
    cases went : wentDown pos trace with
    | none => rfl
    | some delays =>
      have step := enough pos delays ((went_of pos reads before).trans went)
      have bound := (tallied.few pos delays went).2 hurried
      rw [downFor_scanned, if_pos reads] at step
      omega
  intro paced pos delays went
  have reads : matrix pos = true := by
    rw [wentDown_scanned] at went
    split at went
    · assumption
    · cases went
  rw [downFor_scanned, if_pos reads]
  by_cases before : downFor [pos] trace = 0
  · omega
  rw [went_of pos reads before] at went
  by_cases hurried : Hurried trace
  · have enough := tallied.enough pos delays went
    have many : ¬ downFor [pos] trace ≤ 61 := by
      intro few
      rw [paced hurried pos reads ⟨before, few⟩] at went
      cases went
    omega
  · have waited := tallied.waited rfl hurried pos delays went
    omega

theorem paced_iff (fit : KeysFit s) (tallied : Tallied s.trace true) (matrix : Matrix)
    (outcome : Outcome) : OnTime s (.scan matrix outcome) ↔ Paced s (.scan matrix outcome) := by
  rw [onTime_iff fit, tallied.enough_iff, Paced]
  simp only [(fit _).down_iff]

theorem Tallied.of_none (none_ : ∀ pos, wentDown pos trace = none) (scanning : Bool) :
    Tallied trace scanning := by
  have never : ∀ pos delays, wentDown pos trace ≠ some delays := by
    intro pos delays went
    rw [none_] at went
    cases went
  refine ⟨?_, ?_, ?_⟩
  · intro pos delays went
    exact absurd went (never pos delays)
  · intro pos delays went
    exact absurd went (never pos delays)
  · intro _ _ pos delays went
    exact absurd went (never pos delays)

theorem told_between {told : List Note}
    (sent : told = [] ∨ ∃ msg delivered, told = [Note.sent msg delivered]) (matrix : Matrix)
    (last : Note) (trace : List Note) :
    ∃ behind, (Note.scanned matrix :: (told ++ [last])).reverse ++ trace = last :: behind ∧
      (∀ pos, wentDown pos behind = wentDown pos (.scanned matrix :: trace)) ∧
      (∀ pos, downFor [pos] behind = downFor [pos] (.scanned matrix :: trace)) ∧
      lastScan behind = some matrix := by
  rcases sent with rfl | ⟨msg, delivered, rfl⟩
  · exact ⟨.scanned matrix :: trace, rfl, fun _ => rfl, fun _ => rfl, rfl⟩
  · exact ⟨.sent msg delivered :: .scanned matrix :: trace, rfl, fun _ => rfl, fun _ => rfl, rfl⟩

theorem Tallied.round (tallied : Tallied s.trace true) (outcome : Outcome)
    (enough : Enough (.scanned matrix :: s.trace)) :
    Tallied ((s.task.round matrix outcome).1.reverse ++ s.trace)
      (s.task.round matrix outcome).2.scanning := by
  have few : ∀ pos delays, wentDown pos _ = some delays →
      delays + 1 ≤ downFor [pos] (.scanned matrix :: s.trace) := fun _ _ => tallied.scanned_few
  rcases round_ends matrix outcome s.task with ⟨many, notes, -⟩ | ⟨two, told, sent, ends⟩
  · rw [notes]
    refine ⟨fun pos delays went => ?_, enough, fun _ calm => ?_⟩
    · have bound := few pos delays went
      exact ⟨Nat.le_of_succ_le bound, fun _ => bound⟩
    · exact absurd ⟨matrix, rfl, many⟩ calm
  have calm : ∀ {behind : List Note}, lastScan behind = some matrix → ¬ Hurried behind := by
    rintro behind scanned ⟨last, same, many⟩
    cases scanned.symm.trans same
    exact absurd many (Nat.not_lt_of_le two)
  rcases ends with ⟨notes, out⟩ | notes
  · obtain ⟨behind, trace, went_eq, row_eq, scanned⟩ := told_between sent matrix .left s.trace
    rw [notes, trace, out]
    refine ⟨fun pos delays went => ⟨?_, fun hurried => ?_⟩, fun pos delays went => ?_, ?_⟩
    · exact Nat.le_of_succ_le (row_eq pos ▸ few pos delays (went_eq pos ▸ went))
    · exact absurd hurried (calm scanned)
    · exact row_eq pos ▸ enough pos delays (went_eq pos ▸ went)
    · intro on
      cases on
  obtain ⟨behind, trace, went_eq, row_eq, scanned⟩ := told_between sent matrix .delayed s.trace
  rw [notes, trace]
  -- the delay is counted, and the scan before it is not a hurried one
  have delayed : ∀ pos delays, wentDown pos (.delayed :: behind) = some delays →
      delays ≤ downFor [pos] behind ∧ min (downFor [pos] behind) 62 ≤ delays := by
    intro pos delays went
    obtain ⟨before, earlier, rfl⟩ := Option.map_eq_some_iff.mp went
    rw [went_eq] at earlier
    rw [row_eq]
    exact ⟨few pos before earlier, enough pos before earlier⟩
  refine ⟨fun pos delays went => ⟨(delayed pos delays went).1, fun hurried => ?_⟩,
    fun pos delays went => ?_, fun _ _ pos delays went => (delayed pos delays went).2⟩
  · exact absurd hurried (calm scanned)
  · exact Nat.le_succ_of_le (delayed pos delays went).2

structure Running (s : Watched) : Prop where
  fit : KeysFit s
  tallied : Tallied s.trace s.task.scanning

theorem Running.step {s' : Watched} {input : Input} (running : Running s) (paced : Paced s input)
    (ok : s.step input = .ok s') : Running s' := by
  refine ⟨running.fit.step ok, ?_⟩
  rcases step_cases ok with ⟨rfl, -, rfl⟩ | ⟨matrix, outcome, rfl, scanning, rfl⟩
  · exact Tallied.of_none (fun _ => rfl) true
  have tallied := running.tallied
  rw [scanning] at tallied
  apply tallied.round outcome
  exact (onTime_iff running.fit matrix outcome).mp
    ((paced_iff running.fit tallied matrix outcome).mpr paced)

/-- **The times of the keys** are right at every moment of a run exactly when no key counts a
step right behind a scan with more than two keys. -/
theorem elapsed_iff (inputs : List Input) :
    Along Watched.step OnTime Watched.initial inputs ↔
      Along Watched.step Paced Watched.initial inputs := by
  apply along_iff Running
  · intro s input s' running ok
    rcases step_cases ok with ⟨rfl, -, -⟩ | ⟨matrix, outcome, rfl, scanning, -⟩
    · exact Iff.rfl
    · have tallied := running.tallied
      rw [scanning] at tallied
      exact paced_iff running.fit tallied matrix outcome
  · intro s input s' running paced ok
    exact running.step paced ok
  · exact ⟨fun _ => rfl, Tallied.of_none (fun _ => rfl) false⟩

/-! ## Three keys -/

def threeDown : Matrix := reading [(0, 0), (0, 1), (0, 2)]

theorem round_threeDown :
    (t.round threeDown outcome).1 = [.scanned threeDown] ∧
      (t.round threeDown outcome).2.scanning = t.scanning := by
  have many : 2 < (counted threeDown).length := by decide
  rcases round_ends threeDown outcome t with ⟨-, notes, same⟩ | ⟨two, -⟩
  · exact ⟨notes, same⟩
  · exact absurd many (Nat.not_lt_of_le two)

def hurriedInputs (n : Nat) : List Input := .wake :: replicate n (.scan threeDown delivered)

def hurriedTrace (n : Nat) : List Note := replicate n (.scanned threeDown) ++ [.woken]

theorem hurriedInputs_succ :
    hurriedInputs (n + 1) = hurriedInputs n ++ [.scan threeDown delivered] := by
  rw [hurriedInputs, replicate_succ']
  rfl

theorem hurried_run :
    ∃ s, (hurriedInputs n).foldlM Watched.step Watched.initial = .ok s ∧
      s.task.scanning = true ∧ s.trace = hurriedTrace n := by
  induction n with
  | zero => exact ⟨_, rfl, rfl, rfl⟩
  | succ n ih =>
    obtain ⟨s, ran, scanning, trace⟩ := ih
    obtain ⟨notes, same⟩ := round_threeDown delivered s.task
    refine ⟨⟨(s.task.round threeDown delivered).2,
      (s.task.round threeDown delivered).1.reverse ++ s.trace⟩, ?_, ?_, ?_⟩
    · rw [hurriedInputs_succ, foldlM_append, ran]
      show [Input.scan threeDown delivered].foldlM Watched.step s = _
      rw [foldlM_cons, Watched.step, if_pos scanning]
      rfl
    · exact same.trans scanning
    · rw [notes, trace]
      rfl

theorem downFor_hurriedTrace : downFor [(0, 0)] (hurriedTrace n) = n := by
  induction n with
  | zero => rfl
  | succ n ih =>
    have first : hurriedTrace (n + 1) = .scanned threeDown :: hurriedTrace n := rfl
    rw [first, downFor_scanned, if_pos (by decide), ih]

theorem wentDown_hurriedTrace : wentDown (0, 0) (hurriedTrace (n + 1)) = some 0 := by
  induction n with
  | zero => rfl
  | succ n ih =>
    have first : hurriedTrace (n + 2) = .scanned threeDown :: hurriedTrace (n + 1) := rfl
    rw [first, wentDown_scanned, if_pos (by decide), if_neg (by rw [downFor_hurriedTrace]; omega), ih]

/-- **Held without a delay**: with three keys down, the 62nd scan finds a key held, and the
task has not waited at all. -/
theorem held_without_delay :
    ¬ Along Watched.step OnTime Watched.initial (hurriedInputs 62) ∧
      ∃ s, (hurriedInputs 62).foldlM Watched.step Watched.initial = .ok s ∧
        (s.task.scanner.keys (0, 0)).state = .hold ∧ .delayed ∉ s.trace := by
  constructor
  · intro along
    obtain ⟨s, ran, scanning, trace⟩ := hurried_run 61
    have run : Reaches Watched.step _ Watched.initial s :=
      reaches_foldlM (fun _ _ _ => trivial) ran
    have fit := keysFit_reached run
    have onTime := along.action ran (by rw [Watched.step, if_pos scanning])
    have enough := (onTime_iff fit threeDown delivered).mp onTime (0, 0) 0
    rw [trace] at enough
    have bound := enough (wentDown_hurriedTrace 61)
    exact absurd bound (by decide)
  obtain ⟨s, ran, scanning, trace⟩ := hurried_run 62
  have run : Reaches Watched.step _ Watched.initial s :=
    reaches_foldlM (fun _ _ _ => trivial) ran
  have fit := keysFit_reached run
  refine ⟨s, ran, ?_, ?_⟩
  · rw [(fit (0, 0)).hold_iff, trace, downFor_hurriedTrace]
    decide
  · rw [trace]
    simp [hurriedTrace]

end Phy6212.Keyscan
