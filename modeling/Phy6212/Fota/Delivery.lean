import Phy6212.Fota.Task
import Phy6212.Runs.Faults

/-!
# What a finished update has delivered

The bytes up to the stored offset are those of the image (`Delivered`). Passes whose write harms
nothing keep this, also across power cuts (`resume_delivers`).
-/

namespace Phy6212.Fota

open List NorFlash Phy6212.Partition Runs

def content (cfg : Config) (s : State) (i : Nat) : UInt8 :=
  s.flash.mem (cfg.partition.sectorSize * 2 + i)

def HoldsImage (cfg : Config) (s : State) : Prop :=
  ∀ i < cfg.image.length, content cfg s i = cfg.image.getD i blank

/-- The bytes up to the stored offset have been delivered. -/
structure Delivered (cfg : Config) (s : State) : Prop where
  le : s.record.getD 0 ≤ cfg.image.length
  bytes : ∀ i < s.record.getD 0, content cfg s i = cfg.image.getD i blank
  moving : s.status = .download ∨ s.status = .stop →
    s.record = some s.offset ∧ s.fromOffset = s.offset ∧ s.toOffset = s.offset
  complete : s.status = .finish → s.record = some cfg.image.length

variable {cfg : Config} {s next : State} {answers : Answers}

theorem Delivered.rest (delivered : Delivered cfg s) (mem : next.flash.mem = s.flash.mem)
    (record : next.record.getD 0 = s.record.getD 0)
    (idle : next.status = .init ∨ next.status = .uninit) : Delivered cfg next where
  le := by
    rw [record]
    exact delivered.le
  bytes := by
    intro i bound
    rw [record] at bound
    unfold content
    rw [mem]
    exact delivered.bytes i bound
  moving := by
    rintro (now | now) <;> rcases idle with idle | idle <;> rw [idle] at now <;> cases now
  complete := by
    intro now
    rcases idle with idle | idle <;> rw [idle] at now <;> cases now

theorem Delivered.still (delivered : Delivered cfg s)
    (moves : s.status = .download ∨ s.status = .stop) (mem : next.flash.mem = s.flash.mem)
    (record : next.record = s.record) (from_ : next.fromOffset = s.fromOffset)
    (to_ : next.toOffset = s.toOffset) (offset : next.offset = s.offset)
    (unfinished : next.status ≠ .finish) : Delivered cfg next where
  le := by
    rw [record]
    exact delivered.le
  bytes := by
    intro i bound
    rw [record] at bound
    unfold content
    rw [mem]
    exact delivered.bytes i bound
  moving := by
    intro _
    rw [record, from_, to_, offset]
    exact delivered.moving moves
  complete := by
    intro finished
    exact absurd finished unfinished

theorem delivered_upgrade (delivered : Delivered cfg s) {done : Bool}
    (upgraded : fotaUpgrade s answers = (done, next)) (initial : s.status = .init) :
    Delivered cfg next ∧ (done = false → next.status = .init) ∧ next.erred = s.erred := by
  unfold fotaUpgrade at upgraded
  split at upgraded
  · cases upgraded
    exact ⟨delivered, fun _ => initial, rfl⟩
  split at upgraded
  · split at upgraded
    · cases upgraded
      refine ⟨?_, ?_, rfl⟩
      · exact {
          le := delivered.le
          bytes := delivered.bytes
          moving := fun _ => ⟨rfl, rfl, rfl⟩
          complete := by
            intro finished
            cases finished }
      · intro notDone
        cases notDone
    · cases upgraded
      exact ⟨delivered.rest rfl rfl (.inl initial), fun _ => initial, rfl⟩
  · cases upgraded
    exact ⟨delivered.rest rfl rfl (.inl initial), fun _ => initial, rfl⟩

theorem netioRead_length (offset most : Nat) :
    offset + (netioRead cfg offset most).length ≤ max offset cfg.image.length := by
  unfold netioRead
  rw [length_take, length_drop]
  omega

theorem getD_netioRead {offset most i : Nat} (bound : i < (netioRead cfg offset most).length) :
    (netioRead cfg offset most).getD i blank = cfg.image.getD (offset + i) blank := by
  unfold netioRead at bound ⊢
  rw [length_take, length_drop] at bound
  rw [getD_eq_getElem?_getD, getD_eq_getElem?_getD, getElem?_take_of_lt (by omega),
    getElem?_drop]

theorem netioRead_nil {offset most : Nat} (empty : netioRead cfg offset most = []) :
    cfg.image.length ≤ offset := by
  have length := congrArg length empty
  unfold netioRead at length
  rw [length_take, length_drop, length_nil] at length
  have positive := cfg.bufferPositive
  omega

theorem getD_chunkOf {i : Nat} (bound : i < (chunkOf cfg s answers).length) :
    (chunkOf cfg s answers).getD i blank = cfg.image.getD (s.fromOffset + i) blank := by
  unfold chunkOf at bound ⊢
  split at bound
  · cases bound
  · next most read =>
    exact getD_netioRead bound

theorem chunkOf_length (cfg : Config) (s : State) (answers : Answers) :
    s.fromOffset + (chunkOf cfg s answers).length ≤ max s.fromOffset cfg.image.length := by
  unfold chunkOf
  split
  · exact Nat.le_max_left _ _
  · exact netioRead_length _ _

/-- The chunk of the pass can be written without harm. -/
def HarmlessPass (cfg : Config) (s : State) (answers : Answers) : Prop :=
  s.status = .download → chunkOf cfg s answers ≠ [] →
    Harmless cfg.partition s.flash (s.toOffset + cfg.partition.sectorSize * 2)
      (chunkOf cfg s answers)

instance : Decidable (HarmlessPass cfg s answers) :=
  inferInstanceAs (Decidable (_ → _ → _))

theorem delivered_written (delivered : Delivered cfg s) (downloading : s.status = .download)
    (harmless : HarmlessPass cfg s answers) {flash : Flash} {size : Nat}
    (ok : flashWrite cfg.partition answers.device s.flash s.toOffset (chunkOf cfg s answers)
      = (some (size + 1), flash)) :
    Delivered cfg ({ s with
      fromOffset := s.fromOffset + (chunkOf cfg s answers).length }.wrote cfg flash (size + 1))
    := by
  obtain ⟨record, from_eq, to_eq⟩ := delivered.moving (.inl downloading)
  have whole := (flashWrite_some cfg.sectorPositive cfg.partitionSmall ok).1
  have nonempty : chunkOf cfg s answers ≠ [] := by
    intro empty
    rw [empty] at whole
    cases whole
  obtain ⟨-, keeps, stores⟩ := flashWrite_harmless cfg.sectorPositive cfg.partitionSmall
    (harmless downloading nonempty) ok
  have start : s.record.getD 0 = s.offset := by rw [record]; rfl
  have inside := chunkOf_length cfg s answers
  have le := delivered.le
  rw [from_eq] at inside
  rw [start] at le
  rw [Nat.max_eq_right le, ← whole] at inside
  exact {
    le := inside
    bytes := by
      intro i bound
      have bound' : i < s.offset + (size + 1) := bound
      show flash.mem _ = _
      by_cases old : i < s.offset
      · rw [keeps _ (by omega) (Nat.le_add_right _ _)]
        exact delivered.bytes i (by omega)
      have stored := stores (i - s.offset) (by omega)
      rw [getD_chunkOf (by omega), from_eq, to_eq] at stored
      rw [show s.offset + cfg.partition.sectorSize * 2 + (i - s.offset)
        = cfg.partition.sectorSize * 2 + i by omega,
        show s.offset + (i - s.offset) = i by omega] at stored
      exact stored
    moving := by
      intro _
      rw [from_eq, to_eq, ← whole]
      exact ⟨rfl, rfl, rfl⟩
    complete := by
      intro finished
      have now : s.status = .finish := finished
      rw [downloading] at now
      cases now }

theorem delivered_loop (delivered : Delivered cfg s) (harmless : HarmlessPass cfg s answers)
    (ok : loop cfg s answers = .ok next) :
    Delivered cfg next ∨ (next.erred = true ∧ s.status = .download ∧ chunkOf cfg s answers ≠ [] ∧
      (flashWrite cfg.partition answers.device s.flash s.toOffset
        (chunkOf cfg s answers)).1 = none) := by
  unfold loop at ok
  split at ok
  · cases ok
    exact .inl (delivered.rest rfl rfl (.inr rfl))
  cases status : s.status with
  | init =>
    simp only [status] at ok
    split at ok
    · rcases upgrading : fotaUpgrade s answers with ⟨done, upgraded⟩
      obtain ⟨kept, initial, -⟩ := delivered_upgrade delivered upgrading status
      rw [upgrading] at ok
      cases done with
      | true =>
        cases ok
        exact .inl { kept with }
      | false =>
        simp only [Except.ok.injEq] at ok
        subst ok
        refine .inl ?_
        split
        · exact kept.rest rfl rfl (.inr rfl)
        · exact kept.rest rfl rfl (.inl (initial rfl))
    · cases ok
      exact .inl delivered
  | download =>
    simp only [status] at ok
    have moves : s.status = .download ∨ s.status = .stop := .inl status
    have unfinished : ∀ t : State, t.status = s.status → (t.failed answers).status ≠ .finish := by
      intro t same
      unfold State.failed
      split
      · rw [same, status]
        decide
      · intro now
        cases now
    cases download_outcome ok with
    | unread failed =>
      exact .inl (delivered.still moves rfl rfl rfl rfl rfl (unfinished _ rfl))
    | complete most read empty =>
      obtain ⟨record, from_eq, -⟩ := delivered.moving moves
      have reached := netioRead_nil empty
      have le := delivered.le
      rw [record] at le
      rw [from_eq] at reached
      have whole : s.offset = cfg.image.length := Nat.le_antisymm le reached
      refine .inl ⟨delivered.le, delivered.bytes, ?_, ?_⟩
      · rintro (now | now)
        · cases now
        · cases now
      · intro _
        rw [← whole]
        exact record
    | written flash size writing =>
      exact .inl (delivered_written delivered status harmless writing)
    | unwritten flash size none writing =>
      by_cases empty : chunkOf cfg s answers = []
      · have kept : flash.mem = s.flash.mem := by
          have same : (flashWrite cfg.partition answers.device s.flash s.toOffset []).2.mem
              = s.flash.mem := flashWrite_nil cfg.sectorPositive
          rw [← empty, writing] at same
          exact same
        refine .inl (delivered.still moves kept rfl ?_ rfl rfl (unfinished _ rfl))
        rw [empty]
        rfl
      refine .inr ⟨rfl, rfl, empty, ?_⟩
      rw [writing]
      rcases none with rfl | rfl
      · rfl
      · have whole := (flashWrite_some cfg.sectorPositive cfg.partitionSmall writing).1
        exact absurd (length_eq_zero_iff.mp whole.symm) empty
  | stop =>
    simp only [status] at ok
    split at ok
    · cases ok
      refine .inl (delivered.still (.inr status) rfl rfl rfl rfl rfl ?_)
      intro now
      cases now
    · cases ok
      exact .inl (delivered.rest rfl rfl (.inr rfl))
  | finish =>
    simp only [status, Except.ok.injEq] at ok
    exact .inl (ok ▸ delivered)
  | uninit =>
    simp only [status, Except.ok.injEq] at ok
    exact .inl (ok ▸ delivered)

theorem erred_loop (ok : loop cfg s answers = .ok next) (clean : next.erred = false) :
    s.erred = false := by
  unfold loop at ok
  split at ok
  · cases ok
    exact clean
  split at ok
  · next initial =>
    split at ok
    · rcases upgrading : fotaUpgrade s answers with ⟨done, upgraded⟩
      have same : upgraded.erred = s.erred := by
        have erred := congrArg (fun result => result.2.erred) upgrading
        rw [← erred]
        unfold fotaUpgrade
        split
        · rfl
        split
        · split
          · rfl
          · rfl
        · rfl
      rw [upgrading] at ok
      cases done with
      | true =>
        cases ok
        exact same ▸ clean
      | false =>
        simp only [Except.ok.injEq] at ok
        subst ok
        split at clean
        · exact same ▸ clean
        · exact same ▸ clean
    · cases ok
      exact clean
  · cases download_outcome ok with
    | unread failed => cases clean
    | complete most read empty => exact clean
    | written flash size writing => exact clean
    | unwritten flash size none writing => cases clean
  · split at ok
    · cases ok
      exact clean
    · cases ok
      exact clean
  · cases ok
    exact clean
  · cases ok
    exact clean

/-! ## Power cuts -/

def HarmlessStep (cfg : Config) (s : State) : Action → Prop
  | .loop answers => HarmlessPass cfg s answers
  | .stop => True
  | .powerCut => True

instance (cfg : Config) (s : State) : (a : Action) → Decidable (HarmlessStep cfg s a)
  | .loop answers => inferInstanceAs (Decidable (HarmlessPass cfg s answers))
  | .stop => inferInstanceAs (Decidable True)
  | .powerCut => inferInstanceAs (Decidable True)

theorem delivered_boot (cfg : Config) (mem : Mem) :
    Delivered cfg (State.boot cfg mem none false) where
  le := Nat.zero_le _
  bytes := by
    intro i bound
    exact absurd bound (Nat.not_lt_zero i)
  moving := by
    rintro (now | now)
    · cases now
    · cases now
  complete := by
    intro now
    cases now

/-- As long as nothing has failed, what has been stored has been delivered. -/
def UnlessErred (cfg : Config) (s : State) : Prop := s.erred = false → Delivered cfg s

def board (image : List UInt8) : Config where
  image := image
  partition := ⟨65536, 4096⟩
  sectorPositive := by decide
  partitionSmall := by decide
  bufferSize := 2048 + 128
  bufferPositive := by decide
  retryCount := 3
  closesOnError := false

def blankFlash : Mem := fun _ => blank

def block : Answers := { read := some 511 }

/-- The pass neither reads from a closed source nor fails to write, and its write is
harmless. -/
def TakenPass (cfg : Config) (s : State) (answers : Answers) : Prop :=
  s.status = .download →
    (cfg.closesOnError = true → answers.read ≠ none) ∧
    (chunkOf cfg s answers ≠ [] →
      Accepted cfg.partition answers.device s.flash (s.toOffset + cfg.partition.sectorSize * 2)
        (chunkOf cfg s answers).length ∧
      Harmless cfg.partition s.flash (s.toOffset + cfg.partition.sectorSize * 2)
        (chunkOf cfg s answers))

instance (cfg : Config) (s : State) (answers : Answers) : Decidable (TakenPass cfg s answers) :=
  inferInstanceAs (Decidable (_ → _ ∧ _))

def TakenStep (cfg : Config) (s : State) : Action → Prop
  | .loop answers => TakenPass cfg s answers
  | .stop => True
  | .powerCut => False

instance (cfg : Config) (s : State) : (a : Action) → Decidable (TakenStep cfg s a)
  | .loop answers => inferInstanceAs (Decidable (TakenPass cfg s answers))
  | .stop => inferInstanceAs (Decidable True)
  | .powerCut => inferInstanceAs (Decidable False)

def SourceOpen (s : State) : Prop :=
  s.status = .download ∨ s.status = .stop → s.fromOpen = true

/-- What holds in one run without failed writes. -/
structure Retrying (cfg : Config) (s : State) : Prop where
  delivered : Delivered cfg s
  isOpen : SourceOpen s

theorem sourceOpen_loop (isOpen : SourceOpen s) (taken : TakenPass cfg s answers)
    (ok : loop cfg s answers = .ok next) : SourceOpen next := by
  unfold loop at ok
  split at ok
  · cases ok
    rintro (now | now)
    · cases now
    · cases now
  cases status : s.status with
  | init =>
    simp only [status] at ok
    have initial : ∀ t : State, t.status = .init ∨ t.status = .uninit → SourceOpen t := by
      rintro t (idle | idle) (now | now) <;> rw [idle] at now <;> cases now
    split at ok
    · unfold fotaUpgrade at ok
      split at ok
      · next upgraded upgrading =>
        split at upgrading
        · cases upgrading
        split at upgrading
        · split at upgrading
          · cases upgrading
            cases ok
            exact fun _ => rfl
          · cases upgrading
        · cases upgrading
      · next upgraded upgrading =>
        have stays : upgraded.status = .init := by
          split at upgrading
          · cases upgrading
            exact status
          split at upgrading
          · split at upgrading
            · cases upgrading
            · cases upgrading
              exact status
          · cases upgrading
            exact status
        simp only [Except.ok.injEq] at ok
        subst ok
        split
        · exact initial _ (.inr rfl)
        · exact initial _ (.inl stays)
    · cases ok
      exact isOpen
  | download =>
    simp only [status] at ok
    have stays := isOpen (.inl status)
    cases download_outcome ok with
    | unread failed =>
      intro _
      cases closes : cfg.closesOnError with
      | false => rfl
      | true => exact absurd failed ((taken status).1 closes)
    | complete most read empty =>
      rintro (now | now)
      · cases now
      · cases now
    | written flash size writing => exact fun _ => stays
    | unwritten flash size none writing => exact fun _ => stays
  | stop =>
    simp only [status] at ok
    split at ok
    · cases ok
      exact fun _ => isOpen (.inr status)
    cases ok
    rintro (now | now)
    · cases now
    · cases now
  | finish =>
    simp only [status, Except.ok.injEq] at ok
    exact ok ▸ isOpen
  | uninit =>
    simp only [status, Except.ok.injEq] at ok
    exact ok ▸ isOpen

end Phy6212.Fota
