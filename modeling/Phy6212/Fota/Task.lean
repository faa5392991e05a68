import Phy6212.Fota.Flash

/-!
# The update task

`fota_task` copies an image to the flash chunk by chunk, and stores how far it has come.
-/

namespace Phy6212.Fota

open NorFlash Phy6212.Partition

/-- The image and the two ends. Some sources close their connection for good when a read
fails (`http_read` frees it), and a later read then uses a freed connection. -/
structure Config where
  image : List UInt8
  partition : LogicPartition
  sectorPositive : 0 < partition.sectorSize
  partitionSmall : partition.length < 2 ^ 32
  bufferSize : Nat
  bufferPositive : 0 < bufferSize
  retryCount : Int
  closesOnError : Bool

inductive Status where
  | uninit | init | download | stop | finish
  deriving DecidableEq, Repr

inductive Event where
  | version | fail | finish
  deriving DecidableEq, Repr

inductive Fault where
  | useAfterFree
  deriving DecidableEq, Repr

structure State where
  flash : Flash
  /-- `FOTA_FW_OFFSET_RECORD` in the key-value store -/
  record : Option Nat := none
  status : Status := .init
  running : Bool := false
  quit : Bool := false
  retry : Int
  fromOffset : Nat := 0
  fromOpen : Bool := false
  toOffset : Nat := 0
  offset : Nat := 0
  erred : Bool := false

/-- What the surroundings answer during one pass. The callback returns a value other than
0 for the events that it vetoes; a read returns at most `read + 1` bytes, or fails. -/
structure Answers where
  newVersion : Bool := true
  veto : Event → Bool := fun _ => false
  opens : Bool := true
  seeks : Bool := true
  read : Option Nat := some 0
  device : Device := {}

inductive Action where
  | loop (answers : Answers)
  | stop
  | powerCut

def State.boot (cfg : Config) (mem : Mem) (record : Option Nat) (erred : Bool) : State where
  flash := { mem := mem }
  record := record
  retry := cfg.retryCount
  erred := erred

def State.exit (s : State) : State := { s with running := false, status := .uninit }

/-- `fota_upgrade`: both ends are opened and sought to the stored offset. -/
def fotaUpgrade (s : State) (answers : Answers) : Bool × State :=
  if s.running ∨ s.status = .download then (false, s)
  else if answers.opens then
    let offset := s.record.getD 0
    if answers.seeks then
      (true, { s with
        quit := false, record := some offset, offset := offset, fromOffset := offset
        fromOpen := true, toOffset := offset, status := .download })
    else (false, { s with quit := false, record := some offset, offset := offset })
  else (false, { s with quit := false })

def netioRead (cfg : Config) (offset most : Nat) : List UInt8 :=
  (cfg.image.drop offset).take (min (most + 1) cfg.bufferSize)

def State.failed (s : State) (answers : Answers) : State :=
  { s with erred := true, status := if answers.veto .fail then s.status else .stop }

def State.wrote (s : State) (cfg : Config) (flash : Flash) (size : Nat) : State :=
  { s with
    flash := flash, toOffset := s.toOffset + size, offset := s.offset + size
    record := some (s.offset + size), retry := cfg.retryCount }

def download (cfg : Config) (s : State) (answers : Answers) : Except Fault State :=
  if s.fromOpen = false then .error .useAfterFree
  else match answers.read with
    | none => .ok ({ s with fromOpen := !cfg.closesOnError }.failed answers)
    | some most =>
      let chunk := netioRead cfg s.fromOffset most
      let s := { s with fromOffset := s.fromOffset + chunk.length }
      if chunk = [] ∧ answers.veto .finish = false then .ok { s with status := .finish }
      else match flashWrite cfg.partition answers.device s.flash s.toOffset chunk with
        | (some (size + 1), flash) => .ok (s.wrote cfg flash (size + 1))
        | (_, flash) => .ok ({ s with flash := flash }.failed answers)

def loop (cfg : Config) (s : State) (answers : Answers) : Except Fault State :=
  if s.quit then .ok s.exit
  else match s.status with
    | .init =>
      if answers.newVersion ∧ answers.veto .version = false then
        match fotaUpgrade s answers with
        | (true, s) => .ok { s with running := true }
        | (false, s) =>
          let s := { s with retry := s.retry - 1 }
          .ok (if s.retry < 0 then s.exit else s)
      else .ok s
    | .download => download cfg s answers
    | .stop =>
      if 0 < s.retry then .ok { s with retry := s.retry - 1, status := .download }
      else .ok s.exit
    | .finish => .ok s
    | .uninit => .ok s

def step (cfg : Config) (s : State) : Action → Except Fault State
  | .loop answers => loop cfg s answers
  | .stop => .ok { s with quit := true }
  | .powerCut => .ok (State.boot cfg s.flash.mem s.record s.erred)

def chunkOf (cfg : Config) (s : State) (answers : Answers) : List UInt8 :=
  match answers.read with
  | none => []
  | some most => netioRead cfg s.fromOffset most

inductive Outcome (cfg : Config) (s : State) (answers : Answers) : State → Prop where
  | unread (failed : answers.read = none) :
      Outcome cfg s answers ({ s with fromOpen := !cfg.closesOnError }.failed answers)
  | complete (most : Nat) (read : answers.read = some most)
      (empty : netioRead cfg s.fromOffset most = []) :
      Outcome cfg s answers { s with status := .finish }
  | written (flash : Flash) (size : Nat)
      (ok : flashWrite cfg.partition answers.device s.flash s.toOffset (chunkOf cfg s answers)
        = (some (size + 1), flash)) :
      Outcome cfg s answers ({ s with
        fromOffset := s.fromOffset + (chunkOf cfg s answers).length }.wrote cfg flash (size + 1))
  | unwritten (flash : Flash) (size : Option Nat) (none : size = none ∨ size = some 0)
      (bad : flashWrite cfg.partition answers.device s.flash s.toOffset (chunkOf cfg s answers)
        = (size, flash)) :
      Outcome cfg s answers ({ s with
        fromOffset := s.fromOffset + (chunkOf cfg s answers).length
        flash := flash }.failed answers)

theorem download_outcome {cfg : Config} {s next : State} {answers : Answers}
    (ok : download cfg s answers = .ok next) : Outcome cfg s answers next := by
  unfold download at ok
  split at ok
  · cases ok
  cases read : answers.read with
  | none =>
    simp only [read, Except.ok.injEq] at ok
    subst ok
    exact .unread read
  | some most =>
    simp only [read] at ok
    have chunk : netioRead cfg s.fromOffset most = chunkOf cfg s answers := by
      rw [chunkOf, read]
    split at ok
    · next finished =>
      simp only [Except.ok.injEq] at ok
      subst ok
      have same : s.fromOffset + (netioRead cfg s.fromOffset most).length
          = s.fromOffset := by
        rw [finished.1]
        rfl
      rw [same]
      exact .complete most read finished.1
    rw [chunk] at ok
    rcases writing : flashWrite cfg.partition answers.device s.flash s.toOffset
      _ with ⟨size, flash⟩
    rw [writing] at ok
    rcases size with _ | _ | size
    · cases ok
      exact .unwritten flash none (.inl rfl) writing
    · cases ok
      exact .unwritten flash _ (.inr rfl) writing
    · cases ok
      exact .written flash size writing

theorem download_ok (cfg : Config) {s : State} (answers : Answers) (isOpen : s.fromOpen = true) :
    ∃ next, download cfg s answers = .ok next := by
  unfold download
  rw [if_neg (by simp [isOpen])]
  split
  · exact ⟨_, rfl⟩
  simp only []
  split
  · exact ⟨_, rfl⟩
  · split
    · exact ⟨_, rfl⟩
    · exact ⟨_, rfl⟩

end Phy6212.Fota
