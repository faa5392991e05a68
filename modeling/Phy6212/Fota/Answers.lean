import Phy6212.Fota.Handover

/-!
# Which block a call of `serial_read` returns

`serial_read` does not look at its semaphore before it makes a request, so a signal that was left
behind is taken for the answer (`stale_signals`).
-/

namespace Phy6212.Fota.Serial

open CLib Runs

/-- A call is made when all is quiet, and a block is posted when a call waits for its signal. -/
def State.Orderly (s : State) : Action → Prop
  | .call _ _ => s.Quiet
  | .otapost (some _) => s.reader.isWaiting = true ∧ s.sem = 0
  | _ => True

instance (s : State) (action : Action) : Decidable (s.Orderly action) :=
  match action with
  | .call _ _ => inferInstanceAs (Decidable s.Quiet)
  | .otapost (some _) => inferInstanceAs (Decidable (s.reader.isWaiting = true ∧ s.sem = 0))
  | .otapost none => inferInstanceAs (Decidable True)
  | .read => inferInstanceAs (Decidable True)
  | .timeout => inferInstanceAs (Decidable True)
  | .arrive _ _ => inferInstanceAs (Decidable True)
  | .serve => inferInstanceAs (Decidable True)

theorem State.Consistent.step {s s' : State} {action : Action} (consistent : s.Consistent)
    (orderly : s.Orderly action) (ok : s.step action = .ok s') : s'.Consistent := by
  cases action with
  | call buffer length =>
    dsimp only [State.step] at ok
    split at ok
    · cases ok
      exact consistent.serialRead orderly buffer length
    · cases ok
  | read => exact consistent.read ok
  | timeout =>
    obtain ⟨server, reader, counted, settled⟩ := consistent
    dsimp only [State.step] at ok
    split at ok
    · cases ok
      exact ⟨server, trivial, counted, settled.answers, settled.calls⟩
    · cases ok
  | arrive bytes notice =>
    cases ok
    exact consistent.uartEvent bytes notice
  | otapost len =>
    dsimp only [State.step] at ok
    split at ok
    · next place =>
      cases ok
      cases len with
      | none => exact consistent.otapost_none place
      | some len => exact consistent.otapost_some place orderly.1 orderly.2
    · cases ok
  | serve => exact consistent.serve ok

theorem consistent_init (mem : Memory) : (State.init mem).Consistent := by
  refine ⟨trivial, trivial, ?_, ⟨[], .nil, .slnil⟩, ?_⟩
  · intro needed
    exact absurd rfl needed
  · intro r member
    cases member

def otapostLine : List UInt8 :=
  [0x41, 0x54, 0x2B, 0x4F, 0x54, 0x41, 0x50, 0x4F, 0x53, 0x54, 0x3D, 0x33, 0x0D]

def post : List Action :=
  [.arrive otapostLine true, .serve, .otapost (some 3), .serve, .serve, .serve, .serve]

def deliver : List Action :=
  [.arrive [7, 0xC2] true, .serve, .serve, .arrive [0x41] true, .serve, .serve, .serve, .serve]

def request : List Action := [.call 100 8, .read, .read]

def collect : List Action := [.read, .read, .read]

def answeredRun : List Action :=
  request ++ post ++ deliver ++ collect ++ request ++ [.serve] ++ post ++ deliver ++ collect

theorem State.Answered.exists_block {s : State} (answered : s.Answered) {r : Return}
    {before : List Return} (returned : s.returned = r :: before) :
    ∃ block ∈ s.blocks, r.call ≤ block.asked := by
  obtain ⟨answers, settles, among⟩ := answered
  rw [returned] at settles
  cases settles with
  | cons answer _ => exact ⟨_, among.subset List.mem_cons_self, answer.1⟩

def lateRun : List Action :=
  request ++ [.timeout, .read] ++ post ++ deliver ++ [.serve] ++ request ++ collect

/-- One more byte comes behind the block, when `pass_th_cb` has received the block but not yet
asked for the end of the pass-through mode. -/
def twiceRun : List Action :=
  request ++ post ++ [.arrive [7, 0xC2, 0x41] true, .serve, .serve, .arrive [0x0D] true] ++
    [.serve, .serve] ++ collect ++ [.serve, .serve, .serve, .serve] ++ request ++ collect

end Phy6212.Fota.Serial
