import Phy6212.Keyscan.Dispatch
import Phy6212.Runs.Trace

/-!
# What the host sees of the keys

A key that has been reported should stay reported until it is released (`HeldUntilUp`), with one
release at the end (`ReleasedOnce`).
-/

namespace Phy6212.Keyscan

open List Gap Runs

/-! ## What the host may see -/

def Shows (matrix : Matrix) (vk : Vk) : Prop :=
  ∃ pos, matrix pos = true ∧ getOneKey (scanCode pos) = vk

/-- A release that comes after the report of a key comes after a scan in which this key is
no longer down. -/
def HeldUntilUp (s : System) : Prop :=
  s.reports.Pairwise fun r r' => r.data ≠ noCode → r'.data = noCode →
    ∃ j matrix, r.post.stamp ≤ j ∧ j < r'.seen ∧ s.scans[j]? = some matrix ∧
      ¬ Shows matrix r.post.msg.param

def Over (s : System) (session : Nat) : Prop := session < s.session ∨ s.task.scanning = false

instance (s : System) (session : Nat) : Decidable (Over s session) :=
  inferInstanceAs (Decidable (_ ∨ _))

/-- Once its session is over and the messages of the session have been handled, the report
of a key has been followed by exactly one release. -/
def ReleasedOnce (s : System) : Prop :=
  ∀ before r after, s.reports = before ++ r :: after → r.data ≠ noCode →
    Over s r.post.session → (∀ post ∈ s.queue, post.session ≠ r.post.session) →
      after.countP (fun r' => r'.post.session = r.post.session ∧ r'.data = noCode) = 1

/-- At the next scan the key has been down for longer than the hold time. -/
def RunsOut (key : KeyDef) : Prop := key.state = .down ∧ holdTime < key.holdTimeMs + intervalTime

instance (key : KeyDef) : Decidable (RunsOut key) := inferInstanceAs (Decidable (_ ∧ _))

/-- The device stays connected, and after a press a scan that counts no keys finds none, and
finds no key down that has been so for longer than the hold time. -/
def Gentle (s : System) : Action → Prop
  | .scan matrix => s.task.isVkPressed = true →
      (CountsAsNone matrix → NoKey matrix) ∧
        ∀ pos, matrix pos = true → ¬ RunsOut (s.task.scanner.keys pos)
  | .wake => StaysLinked s .wake
  | .handle answers len => StaysLinked s (.handle answers len)
  | .event answers len event => StaysLinked s (.event answers len event)

/-! ## The messages -/

def Posted.IsPress (post : Posted) : Prop := post.msg.subtype = .pressed

instance (post : Posted) : Decidable post.IsPress := inferInstanceAs (Decidable (_ = _))

def System.posted (s : System) : List Posted := s.handled ++ s.queue

def releases (session : Nat) (posts : List Posted) : Nat :=
  posts.countP fun post => post.session = session ∧ ¬ post.IsPress

def ClearScan (scans : List Matrix) (i k : Nat) : Prop :=
  ∃ j matrix, i ≤ j ∧ j < k ∧ scans[j]? = some matrix ∧ NoKey matrix

variable {s s' : System} {matrix : Matrix} {pos : Pos} {key : KeyDef} {scans : List Matrix}
  {data : PressKeyData} {more : List Matrix}

theorem ClearScan.extend {i k k' : Nat} (clear : ClearScan scans i k) (later : k ≤ k') :
    ClearScan (scans ++ more) i k' := by
  obtain ⟨j, matrix, low, high, found, none_⟩ := clear
  refine ⟨j, matrix, low, by omega, ?_, none_⟩
  rw [getElem?_append_left (List.getElem?_eq_some_iff.mp found).1, found]

theorem clearScan_last {i : Nat} (before : i ≤ scans.length) (none_ : NoKey matrix) :
    ClearScan (scans ++ [matrix]) i (scans.length + 1) :=
  ⟨scans.length, matrix, before, Nat.lt_succ_self _, getElem?_concat_length, none_⟩

/-- The messages of a system that has been gentle. -/
structure Messages (s : System) : Prop where
  stamps : ∀ p ∈ s.posted, p.stamp ≤ s.scans.length ∧ p.session ≤ s.session
  kept : s.posted.Pairwise fun p q => p.IsPress → ¬ q.IsPress → ClearScan s.scans p.stamp q.stamp
  cleared : ∀ p ∈ s.posted, p.IsPress →
    ClearScan s.scans p.stamp s.scans.length ∨ p.session = s.session ∧ s.task.scanning = true
  known : ∀ p ∈ s.posted, p.session = s.session → s.task.scanning = true →
    s.task.isVkPressed = true
  once : ∀ before p after, s.posted = before ++ p :: after → p.IsPress →
    releases p.session after = if Over s p.session then 1 else 0

theorem releases_concat (session : Nat) (posts : List Posted) (post : Posted) :
    releases session (posts ++ [post]) =
      releases session posts + if post.session = session ∧ ¬ post.IsPress then 1 else 0 := by
  unfold releases
  rw [countP_append, countP_singleton]
  simp only [decide_eq_true_eq]

theorem Messages.unchanged (messages : Messages s) (posted : s'.posted = s.posted)
    (session : s'.session = s.session) (scans : s'.scans = s.scans ++ more)
    (scanning : s'.task.scanning = s.task.scanning)
    (pressed : s'.task.isVkPressed = s.task.isVkPressed) : Messages s' := by
  obtain ⟨stamps, kept, cleared, known, once⟩ := messages
  have length : s.scans.length ≤ s'.scans.length := by simp [scans]
  constructor
  · intro p member
    rw [posted] at member
    exact ⟨(stamps p member).1.trans length, session ▸ (stamps p member).2⟩
  · rw [posted]
    refine kept.imp fun clear press release => ?_
    rw [scans]
    exact (clear press release).extend (Nat.le_refl _)
  · intro p member press
    rw [posted] at member
    rw [session, scanning]
    refine (cleared p member press).imp_left fun clear => ?_
    rw [scans] at length ⊢
    exact clear.extend length
  · rw [posted, session, scanning, pressed]
    exact known
  · intro before p after split press
    rw [posted] at split
    have same : Over s' p.session ↔ Over s p.session := by
      unfold Over
      rw [session, scanning]
    rw [once before p after split press]
    exact if_congr same.symm rfl rfl

theorem Messages.wake (messages : Messages s) (waiting : s.task.scanning = false)
    (posted : s'.posted = s.posted) (session : s'.session = s.session + 1)
    (scans : s'.scans = s.scans) : Messages s' := by
  obtain ⟨stamps, kept, cleared, known, once⟩ := messages
  constructor
  · intro p member
    rw [posted] at member
    rw [scans, session]
    exact ⟨(stamps p member).1, Nat.le_succ_of_le (stamps p member).2⟩
  · rw [posted, scans]
    exact kept
  · intro p member press
    rw [posted] at member
    rw [scans]
    refine .inl ((cleared p member press).resolve_right ?_)
    rintro ⟨-, scanning⟩
    rw [waiting] at scanning
    cases scanning
  · intro p member current
    rw [posted] at member
    have earlier := (stamps p member).2
    omega
  · intro before p after split press
    rw [posted] at split
    have earlier := (stamps p (by rw [split]; simp)).2
    rw [once before p after split press, if_pos (.inr waiting), if_pos (.inl (by omega))]

variable {post : Posted}

theorem Messages.ended (messages : Messages s) (on : s.task.scanning = true)
    (notPressed : s.task.isVkPressed = false) (posted : s'.posted = s.posted)
    (session : s'.session = s.session) (scans : s'.scans = s.scans ++ [matrix])
    (off : s'.task.scanning = false) : Messages s' := by
  obtain ⟨stamps, kept, cleared, known, once⟩ := messages
  have past : ∀ p ∈ s.posted, p.session ≠ s.session := by
    intro p member current
    have pressed := known p member current on
    rw [notPressed] at pressed
    cases pressed
  constructor
  · intro p member
    rw [posted] at member
    rw [scans, session, length_append]
    exact ⟨Nat.le_add_right_of_le (stamps p member).1, (stamps p member).2⟩
  · rw [posted, scans]
    exact kept.imp fun clear press release => (clear press release).extend (Nat.le_refl _)
  · intro p member press
    rw [posted] at member
    rw [scans, length_append]
    refine .inl (((cleared p member press).resolve_right ?_).extend (Nat.le_add_right _ _))
    exact fun current => past p member current.1
  · intro p member current scanning
    rw [off] at scanning
    cases scanning
  · intro before p after split press
    rw [posted] at split
    have member : p ∈ s.posted := by
      rw [split]
      simp
    have earlier := (stamps p member).2
    have differ := past p member
    rw [once before p after split press, if_pos (.inl (by omega)), if_pos (.inr off)]

theorem stamps_post (stamps : ∀ p ∈ s.posted, p.stamp ≤ s.scans.length ∧ p.session ≤ s.session)
    (stamp : post.stamp = s.scans.length + 1) (current : post.session = s.session) :
    ∀ p ∈ s.posted ++ [post],
      p.stamp ≤ (s.scans ++ [matrix]).length ∧ p.session ≤ s.session := by
  intro p member
  rw [length_append, length_singleton]
  rcases mem_append.mp member with old | new
  · exact ⟨Nat.le_succ_of_le (stamps p old).1, (stamps p old).2⟩
  · rw [mem_singleton.mp new]
    exact ⟨Nat.le_of_eq stamp, Nat.le_of_eq current⟩

theorem kept_post (kept : s.posted.Pairwise fun p q =>
      p.IsPress → ¬ q.IsPress → ClearScan s.scans p.stamp q.stamp)
    (last : ∀ p ∈ s.posted, p.IsPress → ¬ post.IsPress →
      ClearScan (s.scans ++ [matrix]) p.stamp post.stamp) :
    (s.posted ++ [post]).Pairwise fun p q =>
      p.IsPress → ¬ q.IsPress → ClearScan (s.scans ++ [matrix]) p.stamp q.stamp := by
  refine pairwise_append.mpr ⟨kept.imp fun clear press release =>
    (clear press release).extend (Nat.le_refl _), pairwise_singleton _ _, ?_⟩
  intro p member q new
  rw [mem_singleton.mp new]
  exact last p member

theorem Messages.told {matrix : Matrix} {post : Posted} (messages : Messages s)
    (on : s.task.scanning = true) (allowed : post.IsPress ∨ s.task.isVkPressed = false)
    (stamp : post.stamp = s.scans.length + 1) (current : post.session = s.session)
    (posted : s'.posted = s.posted ++ [post]) (session : s'.session = s.session)
    (scans : s'.scans = s.scans ++ [matrix]) (goes : s'.task.scanning = true)
    (pressed : s'.task.isVkPressed = true) : Messages s' := by
  obtain ⟨stamps, kept, cleared, known, once⟩ := messages
  have past : ¬ post.IsPress → ∀ p ∈ s.posted, p.session ≠ s.session := by
    intro hold p member same
    have pressed := known p member same on
    rw [allowed.resolve_left hold] at pressed
    cases pressed
  constructor
  · rw [posted, scans, session]
    exact stamps_post stamps stamp current
  · rw [posted, scans]
    refine kept_post kept fun p member press hold => ?_
    rw [stamp]
    refine ((cleared p member press).resolve_right ?_).extend (Nat.le_succ _)
    exact fun same => past hold p member same.1
  · intro p member press
    rw [posted, mem_append, mem_singleton] at member
    rw [session, scans, length_append]
    rcases member with old | rfl
    · exact (cleared p old press).imp (fun clear => clear.extend (Nat.le_add_right _ _))
        fun same => ⟨same.1, goes⟩
    · exact .inr ⟨current, goes⟩
  · exact fun _ _ _ _ => pressed
  · intro before p after split press
    rw [posted] at split
    have same : Over s' p.session ↔ Over s p.session := by
      unfold Over
      rw [session, goes, on]
    rcases append_singleton_split split with ⟨-, rfl, rfl⟩ | ⟨rest, old, rfl⟩
    · have running : ¬ Over s' post.session := by
        unfold Over
        rw [session, goes, current]
        simp
      rw [if_neg running]
      rfl
    have member : p ∈ s.posted := by
      rw [old]
      simp
    have other : ¬ (post.session = p.session ∧ ¬ post.IsPress) := by
      rintro ⟨sameSession, hold⟩
      exact past hold p member (sameSession.symm.trans current)
    rw [releases_concat, if_neg other, Nat.add_zero, once before p rest old press]
    exact if_congr same.symm rfl rfl

theorem Messages.released (messages : Messages s) (on : s.task.scanning = true)
    (none_ : NoKey matrix) (release : ¬ post.IsPress) (stamp : post.stamp = s.scans.length + 1)
    (current : post.session = s.session) (posted : s'.posted = s.posted ++ [post])
    (session : s'.session = s.session) (scans : s'.scans = s.scans ++ [matrix])
    (off : s'.task.scanning = false) : Messages s' := by
  obtain ⟨stamps, kept, cleared, known, once⟩ := messages
  constructor
  · rw [posted, scans, session]
    exact stamps_post stamps stamp current
  · rw [posted, scans]
    refine kept_post kept fun p member _ _ => ?_
    rw [stamp]
    exact clearScan_last (stamps p member).1 none_
  · intro p member press
    rw [posted, mem_append, mem_singleton] at member
    rw [scans, length_append]
    rcases member with old | rfl
    · exact .inl (clearScan_last (stamps p old).1 none_)
    · exact absurd press release
  · intro p member same scanning
    rw [off] at scanning
    cases scanning
  · intro before p after split press
    rw [posted] at split
    rw [if_pos (.inr off)]
    rcases append_singleton_split split with ⟨-, rfl, rfl⟩ | ⟨rest, old, rfl⟩
    · exact absurd press release
    have earlier := (stamps p (by rw [old]; simp)).2
    rw [releases_concat, once before p rest old press]
    rcases Nat.lt_or_eq_of_le earlier with past | same
    · rw [if_pos (.inl past), if_neg (by omega)]
    have running : ¬ Over s p.session := by
      unfold Over
      rw [on, same]
      simp
    rw [if_neg running, if_pos ⟨current.trans same.symm, release⟩]

/-! ## Runs -/

theorem runsOut_of_hold (changed : (nextKey true pos key).isChanged = true)
    (held : (nextKey true pos key).state = .hold) : RunsOut key := by
  unfold nextKey KeyDef.press at changed held
  cases state : key.state with
  | release => simp [state] at held
  | hold => simp [state] at changed
  | timeout => simp [state] at held
  | down =>
    simp only [state, if_true] at held
    by_cases out : holdTime < key.holdTimeMs + intervalTime
    · exact ⟨state, out⟩
    · rw [if_neg out] at held
      cases held

theorem step_scan (ok : s.step (.scan matrix) = .ok s') : s.task.scanning = true ∧ s' = { s with
        task := (s.task.round matrix delivered).2
        scans := s.scans ++ [matrix]
        queue := s.queue ++ (sentMsgs (s.task.round matrix delivered).1).map
          (⟨·, s.scans.length + 1, s.session⟩) } := by
  by_cases scanning : s.task.scanning = true
  · rw [System.step, if_pos scanning] at ok
    cases ok
    exact ⟨scanning, rfl⟩
  · rw [System.step, if_neg scanning] at ok
    cases ok

theorem Messages.scan (messages : Messages s) (gentle : Gentle s (.scan matrix))
    (ok : s.step (.scan matrix) = .ok s') : Messages s' := by
  obtain ⟨on, rfl⟩ := step_scan ok
  have round := round_cases matrix delivered s.task
  generalize (s.task.round matrix delivered).1 = notes at round ⊢
  generalize (s.task.round matrix delivered).2 = task at round ⊢
  cases round with
  | released counts pressed accepted off out =>
    have release : ¬ Posted.IsPress ⟨⟨.releaseAll, s.task.param⟩, s.scans.length + 1, s.session⟩ :=
      show ¬ KeyMsg.releaseAll = .pressed by decide
    exact messages.released on ((gentle pressed).1 counts) release rfl rfl
      (append_assoc ..).symm rfl rfl out
  | failed counts pressed refused on goes => cases refused
  | ended counts pressed off out =>
    exact messages.ended on pressed (by simp [System.posted, sentMsgs]) rfl rfl out
  | silent keys waits same goes =>
    refine messages.unchanged ?_ rfl rfl goes same
    rcases waits with rfl | rfl <;> simp [System.posted, sentMsgs]
  | @told _ msg wait keys waits filled some_ pressed goes =>
    have allowed : Posted.IsPress ⟨msg, s.scans.length + 1, s.session⟩ ∨
        s.task.isVkPressed = false := by
      rcases keyMsg_cases filled with press | ⟨-, pos, isDown, changed, held⟩
      · exact .inl press
      · refine .inr (Bool.eq_false_iff.mpr fun vkPressed => ?_)
        rw [kscanReadKeycode_keys, isDown] at changed held
        exact (gentle vkPressed).2 pos isDown (runsOut_of_hold changed held)
    have sent : sentMsgs (.scanned matrix :: .sent msg delivered.queued :: wait) = [msg] := by
      rcases waits with rfl | rfl <;> rfl
    rw [sent]
    exact messages.told on allowed rfl rfl (append_assoc ..).symm rfl rfl (goes.trans on) pressed

structure Orderly (s : System) : Prop where
  linked : Linked s.ble
  reported : s.reports.map (fun r => (r.post, r.data)) =
    s.handled.filterMap fun p => (reportOf p.msg).map (p, ·)
  seen : ∀ r ∈ s.reports, r.post.stamp ≤ r.seen
  messages : Messages s

theorem step_handle {rest : List Posted} (linked : Linked s.ble) (queue : s.queue = post :: rest)
    (answers : Answers) (len : Int) :
    ∃ ble, Linked ble ∧ s.step (.handle answers len) = .ok { s with
      ble := ble
      queue := rest
      handled := s.handled ++ [post]
      reports := s.reports ++ ((reportOf post.msg).map (⟨post, ·, s.scans.length⟩)).toList } := by
  obtain ⟨stays, report⟩ := onMsgKey_linked linked answers len post.msg
  refine ⟨_, stays, ?_⟩
  rw [← report, System.step, queue]

theorem Orderly.handle {answers : Answers} {len : Int} (orderly : Orderly s)
    (ok : s.step (.handle answers len) = .ok s') : Orderly s' := by
  obtain ⟨linked, reported, seen, messages⟩ := orderly
  cases queue : s.queue with
  | nil =>
    rw [System.step, queue] at ok
    cases ok
  | cons post rest =>
    obtain ⟨ble, stays, step⟩ := step_handle linked queue answers len
    rw [step, Except.ok.injEq] at ok
    subst ok
    refine ⟨stays, ?_, ?_, messages.unchanged ?_ rfl (append_nil s.scans).symm rfl rfl⟩
    · rw [map_append, filterMap_append, reported]
      cases answer : reportOf post.msg <;> simp [answer]
    · intro r member
      rcases mem_append.mp member with old | new
      · exact seen r old
      · obtain ⟨data, -, rfl⟩ := Option.map_eq_some_iff.mp (Option.mem_toList.mp new)
        exact (messages.stamps post (by simp [System.posted, queue])).1
    · simp [System.posted, queue]

theorem Orderly.step {action : Action} (orderly : Orderly s) (gentle : Gentle s action)
    (ok : s.step action = .ok s') : Orderly s' := by
  cases action with
  | scan matrix =>
    have messages := orderly.messages.scan gentle ok
    obtain ⟨-, rfl⟩ := step_scan ok
    exact ⟨orderly.linked, orderly.reported, orderly.seen, messages⟩
  | handle answers len => exact orderly.handle ok
  | wake =>
    by_cases scanning : s.task.scanning = true
    · rw [System.step, if_pos scanning] at ok
      cases ok
    rw [System.step, if_neg scanning] at ok
    cases ok
    exact ⟨orderly.linked, orderly.reported, orderly.seen,
      orderly.messages.wake (by simpa using scanning) rfl rfl rfl⟩
  | event answers len event =>
    cases ok
    exact ⟨gentle, orderly.reported, orderly.seen,
      orderly.messages.unchanged rfl rfl (append_nil s.scans).symm rfl rfl⟩

theorem orderly_initial {ble : Ble} (linked : Linked ble) : Orderly (System.initial ble) where
  linked := linked
  reported := rfl
  seen := fun r member => by cases member
  messages :=
    { stamps := fun p member => by cases member
      kept := List.Pairwise.nil
      cleared := fun p member => by cases member
      known := fun p member => by cases member
      once := fun before p after split => by simp [System.posted, System.initial] at split }

/-! ## What the host sees -/

theorem getHidKey_ne {vk : Vk} (found : getHidKey vk = some data) : data ≠ noCode := by
  cases vk <;> first | cases found; decide | cases found

theorem reportOf_release {msg : Msg} (report : reportOf msg = some data) :
    data = noCode ↔ msg.subtype ≠ .pressed := by
  unfold reportOf at report
  split at report
  · next press => exact iff_of_false (getHidKey_ne report) (fun other => other press)
  · next other =>
    cases report
    exact iff_of_true rfl other

theorem releasing_iff (p : Posted) (session : Nat) :
    (((reportOf p.msg).map (p, ·)).map fun r =>
        decide (r.1.session = session ∧ r.2 = noCode)).getD false = true ↔
      decide (p.session = session ∧ ¬ p.IsPress) = true := by
  cases report : reportOf p.msg with
  | none =>
    have press : p.IsPress := by
      unfold reportOf at report
      split at report
      · assumption
      · cases report
    simp [press]
  | some data =>
    simp only [Option.map_some, Option.getD_some, decide_eq_true_eq, reportOf_release report]
    rfl

theorem not_shows (none_ : NoKey matrix) (vk : Vk) : ¬ Shows matrix vk := by
  rintro ⟨pos, isDown, -⟩
  rw [none_] at isDown
  cases isDown

theorem Orderly.heldUntilUp (orderly : Orderly s) : HeldUntilUp s := by
  obtain ⟨linked, reported, seen, messages⟩ := orderly
  have handled := (pairwise_append.mp messages.kept).1
  have pairs : (s.reports.map fun r => (r.post, r.data)).Pairwise fun r r' =>
      r.2 ≠ noCode → r'.2 = noCode → ClearScan s.scans r.1.stamp r'.1.stamp := by
    rw [reported]
    refine List.Pairwise.filterMap _ ?_ handled
    intro p q clear r first r' second down release
    obtain ⟨data, fromP, rfl⟩ := Option.map_eq_some_iff.mp first
    obtain ⟨data', fromQ, rfl⟩ := Option.map_eq_some_iff.mp second
    exact clear (not_not.mp fun other => down ((reportOf_release fromP).mpr other))
      ((reportOf_release fromQ).mp release)
  refine (pairwise_map.mp pairs).imp_of_mem ?_
  intro r r' _ member clear down release
  obtain ⟨j, matrix, low, high, found, none_⟩ := clear down release
  exact ⟨j, matrix, low, high.trans_le (seen r' member), found, not_shows none_ _⟩

theorem Orderly.releasedOnce (orderly : Orderly s) : ReleasedOnce s := by
  obtain ⟨linked, reported, seen, messages⟩ := orderly
  intro before r after split down ended none_
  rw [split, map_append, map_cons] at reported
  obtain ⟨first, second, handled, -, fromSecond⟩ := filterMap_eq_append_iff.mp reported.symm
  obtain ⟨skipped, post, rest, parts, silent, fromPost, fromRest⟩ :=
    filterMap_eq_cons_iff.mp fromSecond
  obtain ⟨data, report, same⟩ := Option.map_eq_some_iff.mp fromPost
  obtain ⟨rfl, rfl⟩ := Prod.mk.inj same
  have press : r.post.IsPress := not_not.mp fun other => down ((reportOf_release report).mpr other)
  have posted : s.posted = (first ++ skipped) ++ r.post :: (rest ++ s.queue) := by
    simp [System.posted, handled, parts]
  have count := messages.once _ _ _ posted press
  have waiting : releases r.post.session s.queue = 0 :=
    countP_eq_zero.mpr fun post member => by simp [none_ post member]
  rw [if_pos ended, releases, countP_append, ← releases, ← releases, waiting, Nat.add_zero] at count
  calc after.countP _
      = (after.map fun r' => (r'.post, r'.data)).countP
          (fun r' => r'.1.session = r.post.session ∧ r'.2 = noCode) := by
        rw [countP_map]
        rfl
    _ = releases r.post.session rest := by
        rw [← fromRest, countP_filterMap]
        exact countP_congr fun p _ => releasing_iff p r.post.session
    _ = 1 := count

/-- **What the host sees is right** in every run that is gentle. -/
theorem reports_right {ble : Ble} (linked : Linked ble) {s : System}
    (run : Reaches System.step Gentle (System.initial ble) s) : HeldUntilUp s ∧ ReleasedOnce s := by
  have orderly : Orderly s := run.invariant (orderly_initial linked)
    fun _ _ _ orderly gentle ok => orderly.step gentle ok
  exact ⟨orderly.heldUntilUp, orderly.releasedOnce⟩

instance (s : System) (action : Action) : Decidable (Gentle s action) :=
  match action with
  | .scan _ => inferInstanceAs (Decidable (_ → _ ∧ ∀ _, _))
  | .wake => inferInstanceAs (Decidable True)
  | .handle _ _ => inferInstanceAs (Decidable True)
  | .event _ _ _ => inferInstanceAs (Decidable (Linked _))

def linkedBle : Ble := { Ble.initial with state := .connected, connHandle := 1 }

def typed : List Action :=
  [.wake, .scan (reading [(0, 0)]), .handle .success 0, .scan (reading []), .handle .success 0]

theorem reports_right_typed : ∃ s, Reaches System.step Gentle (System.initial linkedBle) s ∧
    s.reports.map (fun r => r.data) = [oneCode 0x66, noCode] ∧ HeldUntilUp s ∧ ReleasedOnce s := by
  have result : ((typed.foldlM (checked System.step Gentle) (System.initial linkedBle)).map fun s =>
      decide (s.reports.map (fun r => r.data) = [oneCode 0x66, noCode])) = some true := by
    decide +kernel
  obtain ⟨s, ok, reports⟩ := Option.map_eq_some_iff.mp result
  have run := reaches_checked ok
  exact ⟨s, run, of_decide_eq_true reports, reports_right (by decide) run⟩

/-! ## A key that is held -/

section

variable (single : counted matrix = [pos])

include single

theorem keyMsg_single (s : Scanner) : (kscanReadKeycode matrix s).1 = 1 ∧
      keyMsg (kscanReadKeycode matrix s).1 (kscanReadKeycode matrix s).2 =
        oneKeyMsg (nextKey true pos (s.keys pos)) := by
  obtain ⟨count, entries⟩ := kscanReadKeycode_counted matrix s
  have isDown : matrix pos = true := mem_of_mem_counted (single ▸ mem_singleton_self pos)
  rw [single] at count entries
  have one : (kscanReadKeycode matrix s).1 = 1 := Fin.ext count
  refine ⟨one, ?_⟩
  unfold keyMsg
  rw [if_pos one, entries 0 Nat.zero_lt_one, ← isDown, ← kscanReadKeycode_keys]
  rfl

theorem round_quiet (outcome : Outcome) {t : Task}
    (quiet : oneKeyMsg (nextKey true pos (t.scanner.keys pos)) = none) :
    t.round matrix outcome =
      ([.scanned matrix, .delayed], { t with scanner := (kscanReadKeycode matrix t.scanner).2 }) := by
  obtain ⟨one, filled⟩ := keyMsg_single single t.scanner
  rw [quiet] at filled
  unfold Task.round Task.tell
  simp only [filled]
  rw [one, if_neg (by decide), if_neg (by decide)]
  rfl

theorem round_told (outcome : Outcome) {t : Task} {msg : Msg}
    (told : oneKeyMsg (nextKey true pos (t.scanner.keys pos)) = some msg)
    (some_ : msg.param ≠ .null) :
    (t.round matrix outcome).1 = [.scanned matrix, .sent msg outcome.queued, .delayed] := by
  obtain ⟨one, filled⟩ := keyMsg_single single t.scanner
  rw [told] at filled
  unfold Task.round Task.tell
  simp only [filled, if_pos some_]
  rw [one, if_neg (by decide), if_neg (by decide)]
  rfl

end

theorem nextKey_down (down : key.state = .down) (short : key.holdTimeMs + intervalTime ≤ holdTime)
    (pos : Pos) :
    nextKey true pos key = ⟨false, scanCode pos, .down, key.holdTimeMs + intervalTime⟩ := by
  unfold nextKey KeyDef.press
  simp only [down, if_true]
  rw [if_neg (by omega)]
  simp

theorem nextKey_hold (runsOut : RunsOut key) (pos : Pos) :
    nextKey true pos key = ⟨true, scanCode pos, .hold, key.holdTimeMs + intervalTime⟩ := by
  obtain ⟨down, out⟩ := runsOut
  unfold nextKey KeyDef.press
  simp only [down, if_true]
  rw [if_pos (by omega)]
  simp

def firstKey : Matrix := reading [(0, 0)]

theorem counted_firstKey : counted firstKey = [(0, 0)] := by decide

/-- The first key has been reported, and it has been down in all scans, for a number of them
after the first. -/
structure Holding (n : Nat) (s : System) : Prop where
  linked : Linked s.ble
  scanning : s.task.scanning = true
  down : (s.task.scanner.keys (0, 0)).state = .down
  time : (s.task.scanner.keys (0, 0)).holdTimeMs = n * intervalTime
  handled : s.queue = []
  scans : ∀ matrix ∈ s.scans, matrix = firstKey
  reports : s.reports = [⟨⟨⟨.pressed, .key01⟩, 1, 1⟩, oneCode 0x66, 1⟩]

theorem step_of_scanning (scanning : s.task.scanning = true) (matrix : Matrix) :
    s.step (.scan matrix) = .ok { s with
      task := (s.task.round matrix delivered).2
      scans := s.scans ++ [matrix]
      queue := s.queue ++ (sentMsgs (s.task.round matrix delivered).1).map
        (⟨·, s.scans.length + 1, s.session⟩) } := by
  rw [System.step, if_pos scanning]

theorem Holding.next {n : Nat} (holding : Holding n s) (less : n < 60) :
    ∃ s', s.step (.scan firstKey) = .ok s' ∧ Holding (n + 1) s' := by
  have short : (s.task.scanner.keys (0, 0)).holdTimeMs + intervalTime ≤ holdTime := by
    rw [holding.time]
    unfold intervalTime holdTime
    omega
  have key := nextKey_down holding.down short (0, 0)
  have round := round_quiet counted_firstKey delivered (t := s.task) (by rw [key]; rfl)
  have scanned : (kscanReadKeycode firstKey s.task.scanner).2.keys (0, 0) =
      ⟨false, scanCode (0, 0), .down, (s.task.scanner.keys (0, 0)).holdTimeMs + intervalTime⟩ := by
    exact key
  refine ⟨_, step_of_scanning holding.scanning firstKey, ?_⟩
  rw [round]
  refine ⟨holding.linked, holding.scanning, ?_, ?_, ?_, ?_, holding.reports⟩
  · rw [scanned]
  · rw [scanned]
    simp only [holding.time]
    unfold intervalTime
    omega
  · rw [holding.handled]
    rfl
  · intro matrix member
    rcases mem_append.mp member with old | new
    · exact holding.scans matrix old
    · exact mem_singleton.mp new

theorem holding_reached (n : Nat) (most : n ≤ 60) :
    ∃ s, Reaches System.step StaysLinked (System.initial linkedBle) s ∧ Holding n s := by
  induction n with
  | zero =>
    have result : (([.wake, .scan firstKey, .handle .success 0].foldlM System.step
        (System.initial linkedBle)).toOption.map fun s =>
        decide (Linked s.ble ∧ s.task.scanning = true ∧
          (s.task.scanner.keys (0, 0)).state = .down ∧
          (s.task.scanner.keys (0, 0)).holdTimeMs = 0 * intervalTime ∧ s.queue = [] ∧
          s.scans = [firstKey] ∧
          s.reports = [⟨⟨⟨.pressed, .key01⟩, 1, 1⟩, oneCode 0x66, 1⟩])) = some true := by
      decide +kernel
    obtain ⟨s, found, checked⟩ := Option.map_eq_some_iff.mp result
    obtain ⟨linked, scanning, down, time, handled, scans, reports⟩ := of_decide_eq_true checked
    refine ⟨s, reaches_foldlM ?_ (ok_of_toOption found),
      linked, scanning, down, time, handled,
      fun matrix member => mem_singleton.mp (scans ▸ member), reports⟩
    intro action member s
    rcases member with _ | ⟨_, _ | ⟨_, _ | ⟨_, ⟨⟩⟩⟩⟩ <;> trivial
  | succ n ih =>
    obtain ⟨s, run, holding⟩ := ih (by omega)
    obtain ⟨s', ok, next⟩ := holding.next (by omega)
    have stays : StaysLinked s (.scan firstKey) := trivial
    exact ⟨s', run.tail stays ok, next⟩

theorem Holding.over (holding : Holding 60 s) :
    ∃ s' s'', s.step (.scan firstKey) = .ok s' ∧ s'.step (.handle .success 0) = .ok s'' ∧
      (∀ matrix ∈ s''.scans, matrix = firstKey) ∧
      ∃ release, release.data = noCode ∧
        s''.reports = [⟨⟨⟨.pressed, .key01⟩, 1, 1⟩, oneCode 0x66, 1⟩, release] := by
  have runsOut : RunsOut (s.task.scanner.keys (0, 0)) := by
    refine ⟨holding.down, ?_⟩
    rw [holding.time]
    decide
  have told : oneKeyMsg (nextKey true (0, 0) (s.task.scanner.keys (0, 0))) =
      some ⟨.hold, .key01⟩ := by
    rw [nextKey_hold runsOut]
    rfl
  have scan := step_of_scanning holding.scanning firstKey
  rw [round_told counted_firstKey delivered told (by decide), holding.handled] at scan
  obtain ⟨ble, -, handle⟩ := step_handle (s := { s with
      task := (s.task.round firstKey delivered).2
      scans := s.scans ++ [firstKey]
      queue := [⟨⟨.hold, .key01⟩, s.scans.length + 1, s.session⟩] }) holding.linked rfl .success 0
  refine ⟨_, _, scan, handle, ?_, ⟨⟨⟨.hold, .key01⟩, s.scans.length + 1, s.session⟩, noCode,
    (s.scans ++ [firstKey]).length⟩, rfl, ?_⟩
  · intro matrix member
    rcases mem_append.mp member with old | new
    · exact holding.scans matrix old
    · exact mem_singleton.mp new
  · rw [holding.reports]
    rfl

/-- A key that is held is reported as released, while every scan finds it down. -/
theorem held_key_released : ∃ s, Reaches System.step StaysLinked (System.initial linkedBle) s ∧
    ¬ (HeldUntilUp s ∧ ReleasedOnce s) := by
  obtain ⟨s, run, holding⟩ := holding_reached 60 (Nat.le_refl _)
  obtain ⟨s', s'', scan, handle, scans, release, isRelease, reports⟩ := holding.over
  have stays : StaysLinked s (.scan firstKey) := trivial
  have staysToo : StaysLinked s' (.handle .success 0) := trivial
  refine ⟨s'', (run.tail stays scan).tail staysToo handle, ?_⟩
  rintro ⟨untilUp, -⟩
  unfold HeldUntilUp at untilUp
  rw [reports] at untilUp
  obtain ⟨j, matrix, -, -, found, notShown⟩ :=
    rel_of_pairwise_cons untilUp (mem_singleton_self release)
      (show oneCode 0x66 ≠ noCode by decide) isRelease
  rw [scans matrix (mem_of_getElem? found)] at notShown
  exact notShown ⟨(0, 0), by decide, by decide⟩

end Phy6212.Keyscan
