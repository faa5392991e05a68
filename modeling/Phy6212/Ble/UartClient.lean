import Mathlib.Data.List.Basic
import Phy6212.Runs.Simulation

/-!
# The UART client and its peers

The client keeps the handle of the CCC descriptor when it reconnects to the device it knows.
-/

namespace Phy6212.Ble

open Runs

variable {α : Type} [DecidableEq α] [Inhabited α]

inductive Discovery where
  | idle
  | srv
  | char
  | des
  deriving DecidableEq, Repr

/-- What the three handlers keep, and what they should know: the peer of the connection, the peer on
which the CCC handle was found, whether in the present connection, and whether it was written to
another peer. The default address has zero bytes. -/
structure UartClient (α : Type) [Inhabited α] where
  connHandle : Int := -1
  connSameFlag : Bool := false
  connLast : α := default
  discoveryState : Discovery := .idle
  uartHandle : Nat := 0
  uartEndHandle : Nat := 0
  uartCharHandle : Nat := 0
  uartCccHandle : Nat := 0
  peer : Option α := none
  owner : Option α := none
  fresh : Bool := false
  stray : Bool := false
  deriving DecidableEq, Repr

instance : Inhabited (UartClient α) := ⟨{}⟩

/-- The events of the stack. The result of the write comes with the end of a discovery, and a
service is reported with whether its UUID is that of the UART. -/
inductive GattEvent (α : Type) where
  | connected (handle : Int) (peer : α)
  | disconnected
  | mtuExchange (err handle : Int)
  | discoverySvc (uart : Bool) (start stop : Nat)
  | discoveryChar (handle : Nat)
  | discoveryCharDes (handle : Nat)
  | discoveryComplete (handle ret : Int)
  deriving DecidableEq, Repr

inductive GattCall where
  | mtuExchange (handle : Int)
  | discoveryPrimary (handle : Int)
  | discoveryChar (handle : Int) (start stop : Nat)
  | discoveryDescriptor (handle : Int) (start : Nat)
  | writeCcc (handle : Int) (attr : Nat)
  deriving DecidableEq, Repr

/-- A write of the notification-enable value, and whether it goes to the peer of the handle. -/
def UartClient.written (c : UartClient α) : UartClient α :=
  { c with stray := c.stray || c.owner ≠ c.peer }

def connChange (c : UartClient α) (handle : Int) (peer : α) : List GattCall × UartClient α :=
  ([.mtuExchange handle], { c with
    connHandle := handle
    connSameFlag := if peer = c.connLast then true else c.connSameFlag
    peer := some peer
    fresh := false })

def mtuExchange (c : UartClient α) (err handle : Int) : List GattCall × UartClient α :=
  if err = 0 ∧ c.connHandle = handle then
    if c.connSameFlag then ([.writeCcc handle c.uartCccHandle], c.written)
    else ([.discoveryPrimary c.connHandle], c)
  else ([], c)

def discoveryComplete (c : UartClient α) (handle ret : Int) : List GattCall × UartClient α :=
  match c.discoveryState with
  | .idle => ([], c)
  | .srv => ([.discoveryChar handle (c.uartHandle + 1) c.uartEndHandle], c)
  | .char => ([.discoveryDescriptor handle (c.uartCharHandle + 1)], c)
  | .des => ([.writeCcc handle c.uartCccHandle],
      if ret < 0 then c.written
      else { c.written with connLast := c.peer.getD default })

def gattEvent (c : UartClient α) : GattEvent α → List GattCall × UartClient α
  | .connected handle peer => connChange c handle peer
  | .disconnected => ([], { c with connHandle := -1, peer := none, fresh := false })
  | .mtuExchange err handle => mtuExchange c err handle
  | .discoverySvc uart start stop => ([], { c with
      discoveryState := .srv
      uartHandle := if uart then start else c.uartHandle
      uartEndHandle := if uart then stop else c.uartEndHandle })
  | .discoveryChar handle => ([], { c with uartCharHandle := handle, discoveryState := .char })
  | .discoveryCharDes handle => ([], { c with
      uartCccHandle := handle
      discoveryState := .des
      owner := c.peer
      fresh := true })
  | .discoveryComplete handle ret => discoveryComplete c handle ret

def gattStep (c : UartClient α) (event : GattEvent α) :
    Except Empty (List GattCall × UartClient α) := .ok (gattEvent c event)

/-- A connection that the client takes for a known one is to the peer on which it found the handle;
the MTU is exchanged while there is a connection; and a discovery of the descriptors that ends has
found one in the present connection. -/
def KnownPeer (c : UartClient α) : GattEvent α → Prop
  | .connected _ peer => c.connSameFlag = true ∨ peer = c.connLast → c.owner = some peer
  | .mtuExchange _ _ => c.peer ≠ none
  | .discoveryComplete _ _ => c.discoveryState = .des → c.fresh = true
  | _ => True

structure UartClient.Own (c : UartClient α) : Prop where
  same : c.connSameFlag = true → c.peer ≠ none → c.owner = c.peer
  found : c.fresh = true → c.owner = c.peer
  never : c.stray = false

omit [DecidableEq α] in
theorem own_default : (default : UartClient α).Own where
  same flag := absurd flag Bool.false_ne_true
  found fresh := absurd fresh Bool.false_ne_true
  never := rfl

theorem UartClient.Own.written {c : UartClient α} (own : c.Own) (right : c.owner = c.peer) :
    c.written.Own where
  same := own.same
  found := own.found
  never := by simp [UartClient.written, own.never, right]

theorem UartClient.Own.event {c : UartClient α} (own : c.Own) {event : GattEvent α}
    (known : KnownPeer c event) : (gattEvent c event).2.Own := by
  have ⟨same, found, never⟩ := own
  cases event with
  | connected handle peer =>
    refine ⟨fun flag _ => known ?_, fun none => absurd none Bool.false_ne_true, never⟩
    by_cases last : peer = c.connLast
    · exact .inr last
    · simp [gattEvent, connChange, last] at flag
      exact .inl flag
  | disconnected =>
    exact ⟨fun _ gone => absurd rfl gone, fun none => absurd none Bool.false_ne_true, never⟩
  | mtuExchange err handle =>
    simp only [gattEvent, Ble.mtuExchange]
    split
    · split
      · rename_i flag
        exact own.written (same flag known)
      · exact own
    · exact own
  | discoverySvc uart start stop => exact ⟨same, found, never⟩
  | discoveryChar handle => exact ⟨same, found, never⟩
  | discoveryCharDes handle => exact ⟨fun _ _ => rfl, fun _ => rfl, never⟩
  | discoveryComplete handle ret =>
    simp only [gattEvent, Ble.discoveryComplete]
    split
    · exact own
    · exact own
    · exact own
    · rename_i des
      have written := own.written (found (known des))
      split
      · exact written
      · exact ⟨written.same, written.found, written.never⟩

/-- The client writes the notification-enable value only to a handle that it found on the peer it is
connected to, if its connections to peers it takes for known ones are to the one it knows. -/
theorem writes_own_peer (events : List (GattEvent α))
    (known : Guarded gattStep KnownPeer (default : UartClient α) events) :
    ∃ calls c, run gattStep (default : UartClient α) events = .ok (calls, c) ∧
      c.stray = false := by
  obtain ⟨calls, c, ok, own⟩ := run_keeps
    (fun (c : UartClient α) event (own : c.Own) known => ⟨_, _, rfl, own.event known⟩) events
    default own_default known
  exact ⟨calls, c, ok, own.never⟩

/-- The events of a first connection in which the descriptor is found. -/
def firstConnection (peer : Nat) : List (GattEvent Nat) :=
  [.connected 0 peer, .mtuExchange 0 0, .discoverySvc true 8 12, .discoveryComplete 0 0,
    .discoveryChar 10, .discoveryComplete 0 0, .discoveryCharDes 11, .discoveryComplete 0 0,
    .disconnected]

theorem guarded_gattStep_cons (c : UartClient α) (event : GattEvent α)
    (events : List (GattEvent α)) : Guarded gattStep KnownPeer c (event :: events) ↔
      KnownPeer c event ∧ Guarded gattStep KnownPeer (gattEvent c event).2 events := by
  refine and_congr_right fun _ => ⟨fun later => later _ _ rfl, fun later calls c' ok => ?_⟩
  rwa [show gattEvent c event = (calls, c') from Except.ok.inj ok] at later

theorem writes_own_peer_again : ∃ calls c, run gattStep (default : UartClient Nat)
    (firstConnection 1 ++ [.connected 0 1, .mtuExchange 0 0]) = .ok (calls, c) ∧
      c.stray = false :=
  writes_own_peer _ (by
    simp [firstConnection, guarded_gattStep_cons, KnownPeer, gattEvent, connChange, mtuExchange,
      discoveryComplete, UartClient.written, default, Guarded.eq_1])

/-- After a second connection to the known peer 1, the client writes the handle it found there to
peer 2 without a discovery. -/
theorem handle_written_to_other :
    let later : List (GattEvent Nat) :=
      [.connected 0 1, .disconnected, .connected 0 2, .mtuExchange 0 0]
    ((firstConnection 1 ++ later).foldl (fun c event => (gattEvent c event).2) default).stray =
      true := by
  decide

end Phy6212.Ble
