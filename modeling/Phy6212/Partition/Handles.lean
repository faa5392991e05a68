import Phy6212.Device.Registry
import Phy6212.Partition.Manifest
import Phy6212.Runs.Simulation

/-!
# Opening and closing partitions

All users of a partition share one handle of the flash device, and `partition_close` forgets it also
when others use the partition.
-/

namespace Phy6212.Handles

open List Device Manifest Runs

def einval : Int := -22

def eflash : Name := [0x65, 0x66, 0x6c, 0x61, 0x73, 0x68]

/-- `hal_logic_partition_t`, as far as opening and closing read it. -/
structure LogicPartition where
  description : Name
  idx : Int
  eflashDev : Option Nat := none
  deriving DecidableEq, Repr

structure PartionArray where
  scnList : List LogicPartition
  few : scnList.length ≤ partitionsNum

def PartionArray.dev (array : PartionArray) (i : Nat) : Option Nat :=
  array.scnList[i]?.bind LogicPartition.eflashDev

def PartionArray.setDev (array : PartionArray) (i : Nat) (dev : Option Nat) : PartionArray where
  scnList := array.scnList.modify i fun scn => { scn with eflashDev := dev }
  few := by
    rw [length_modify]
    exact array.few

/-- The partitions and the devices. The users that have a partition open, with its number, are
kept for the statements. -/
structure State where
  array : PartionArray
  devices : List Slot
  opened : List (Nat × Nat) := []

def refOf (devices : List Slot) (d : Nat) : Nat := (devices.getD d {}).dev.ref

def State.ref (s : State) (d : Nat) : Nat := refOf s.devices d

/-- `partition_open`: the number of the partition. -/
def partitionOpen (s : State) (name : Name) (openRet : Int) : Int × State :=
  match s.array.scnList.findIdx? fun scn => scn.description = name with
  | none => (einval, s)
  | some i =>
    match s.array.scnList[i]? with
    | none => (einval, s)
    | some scn =>
      match scn.eflashDev with
      | some _ => (i, s)
      | none =>
        let (dev, devices) := deviceOpenId s.devices eflash scn.idx openRet
        (i, { s with array := s.array.setDev i dev, devices := devices })

inductive Fault where
  | nullDevice
  deriving DecidableEq, Repr

def State.IsPartition (s : State) (partition : Int) : Prop :=
  0 ≤ partition ∧ partition < s.array.scnList.length

instance (s : State) (partition : Int) : Decidable (s.IsPartition partition) :=
  inferInstanceAs (Decidable (_ ∧ _))

def partitionClose (s : State) (partition : Int) (closeRet : Int) : Except Fault State :=
  if s.IsPartition partition then
    match s.array.dev partition.toNat with
    | none => .error .nullDevice
    | some d => .ok { s with
        devices := (deviceClose s.devices d closeRet).2
        array := s.array.setDev partition.toNat none }
  else .ok s

/-! ## Calls of users -/

inductive Call where
  | open_ (user : Nat) (name : Name) (openRet : Int)
  | close (user : Nat) (partition : Int) (closeRet : Int)
  deriving DecidableEq, Repr

/-- A user has opened a partition when the call returns its number. -/
def perform (s : State) : Call → Except Fault (Int × State)
  | .open_ user name openRet =>
    match partitionOpen s name openRet with
    | (ret, s') =>
      .ok (ret, if 0 ≤ ret then { s' with opened := (user, ret.toNat) :: s'.opened } else s')
  | .close user partition closeRet =>
    match partitionClose s partition closeRet with
    | .error e => .error e
    | .ok s' =>
      .ok (0, if s.IsPartition partition
        then { s' with opened := s'.opened.erase (user, partition.toNat) } else s')

def holders (array : PartionArray) (d : Nat) : Nat :=
  array.scnList.countP fun scn => scn.eflashDev = some d

/-- Every partition that somebody has open has the handle of an open device, and a device is open
as often as partitions hold it. -/
structure Right (s : State) : Prop where
  valid : ∀ user i, (user, i) ∈ s.opened → ∃ d, s.array.dev i = some d ∧ 0 < s.ref d
  counted : ∀ d, s.ref d = holders s.array d

/-- Whoever closes a partition is its only user, and the device can be opened for a partition
that has no handle. -/
def Careful (s : State) : Call → Prop
  | .open_ _ name openRet =>
    ∀ i scn, s.array.scnList.findIdx? (fun scn => scn.description = name) = some i →
      s.array.scnList[i]? = some scn → scn.eflashDev = none →
        (deviceOpenId s.devices eflash scn.idx openRet).1 ≠ none
  | .close user partition _ =>
    s.IsPartition partition → (user, partition.toNat) ∈ s.opened ∧
      ∀ other, (other, partition.toNat) ∉ s.opened.erase (user, partition.toNat)

structure Fresh (s : State) : Prop where
  closed : ∀ scn ∈ s.array.scnList, scn.eflashDev = none
  idle : ∀ slot ∈ s.devices, slot.dev.ref = 0
  unused : s.opened = []

/-! ## Handles and counts -/

variable {α : Type}

theorem countP_modify (p : α → Bool) (f : α → α) {l : List α} {i : Nat} (inside : i < l.length) :
    (l.modify i f).countP p + (if p l[i] then 1 else 0) =
      l.countP p + if p (f l[i]) then 1 else 0 := by
  have split : l.countP p = (l.take i ++ l[i] :: l.drop (i + 1)).countP p := by
    rw [getElem_cons_drop, take_append_drop]
  rw [modify_eq_take_cons_drop inside, split, countP_append, countP_append,
    countP_cons, countP_cons]
  omega

variable {array : PartionArray} {i d : Nat}

theorem PartionArray.dev_setDev (array : PartionArray) (i j : Nat) (dev : Option Nat) :
    (array.setDev i dev).dev j =
      if i = j ∧ j < array.scnList.length then dev else array.dev j := by
  unfold PartionArray.dev PartionArray.setDev
  rcases Nat.lt_or_ge j array.scnList.length with inside | outside
  · by_cases same : i = j
    · simp [same, inside]
    · simp [same]
  · simp [Nat.not_lt.mpr outside]

theorem holders_setDev (inside : i < array.scnList.length) (dev : Option Nat) (d : Nat) :
    holders (array.setDev i dev) d + (if array.dev i = some d then 1 else 0) =
      holders array d + if dev = some d then 1 else 0 := by
  have counts := countP_modify (fun scn => decide (scn.eflashDev = some d))
    (fun scn : LogicPartition => { scn with eflashDev := dev }) inside
  have here : array.dev i = array.scnList[i].eflashDev := by
    unfold PartionArray.dev
    rw [getElem?_eq_getElem]
    rfl
  rw [here]
  simpa [holders, PartionArray.setDev] using counts

theorem holders_le (array : PartionArray) (d : Nat) : holders array d ≤ partitionsNum :=
  Nat.le_trans countP_le_length array.few

theorem inside_of_dev (held : array.dev i = some d) : i < array.scnList.length := by
  rcases Nat.lt_or_ge i array.scnList.length with inside | outside
  · exact inside
  · unfold PartionArray.dev at held
    rw [getElem?_eq_none outside] at held
    cases held

theorem holders_pos (held : array.dev i = some d) : 0 < holders array d := by
  have counts := holders_setDev (inside_of_dev held) none d
  rw [held, if_pos rfl, if_neg (by simp)] at counts
  omega

/-! ## Opening and closing the device -/

variable {devices devices' : List Slot} {name : Name} {id openRet closeRet : Int}

theorem findLoop_lt : ∀ (rest : List Slot) (i : Nat) (node : Option Nat),
    findLoop name id rest i node = some d → node = some d ∨ d < i + rest.length
  | [], _, _, found => Or.inl found
  | slot :: rest, i, node, found => by
    have later : ∀ node', node' = none ∨ node' = some i →
        findLoop name id rest (i + 1) node' = some d → d < i + (slot :: rest).length := by
      intro node' before found
      rw [length_cons]
      rcases findLoop_lt rest _ node' found with rfl | inside
      · rcases before with nothing | here
        · cases nothing
        · cases here
          omega
      · omega
    rw [findLoop] at found
    refine Or.inr ?_
    split at found
    · split at found
      · cases found
        rw [length_cons]
        omega
      · exact later _ (Or.inr rfl) found
    · exact later _ (Or.inl rfl) found

theorem deviceFind_lt (found : deviceFind devices name id = some d) : d < devices.length := by
  rcases findLoop_lt devices 0 none found with nothing | inside
  · cases nothing
  · omega

theorem refOf_modify (inside : d < devices.length) (f : Slot → Slot) (d' : Nat) :
    refOf (devices.modify d f) d' =
      if d = d' then (f (devices.getD d {})).dev.ref else refOf devices d' := by
  unfold refOf
  rw [getD_eq_getElem?_getD, getElem?_modify]
  by_cases same : d = d'
  · subst same
    rw [getElem?_eq_getElem inside, if_pos rfl, getD_eq_getElem?_getD,
      getElem?_eq_getElem inside]
    simp
  · simp [same]

theorem deviceOpenId_ref (opened : deviceOpenId devices name id openRet = (some d, devices'))
    (room : refOf devices d < 65535) (d' : Nat) :
    refOf devices' d' = refOf devices d' + if d = d' then 1 else 0 := by
  unfold deviceOpenId at opened
  cases found : deviceFind devices name id with
  | none => simp [found] at opened
  | some i =>
    simp only [found] at opened
    split at opened
    · simp at opened
    obtain ⟨same, rfl⟩ := Prod.mk.inj opened
    cases same
    rw [refOf_modify (deviceFind_lt found)]
    by_cases here : d = d'
    · subst here
      rw [if_pos rfl, if_pos rfl]
      exact Nat.mod_eq_of_lt (Nat.succ_lt_succ room)
    · rw [if_neg here, if_neg here, Nat.add_zero]

theorem deviceOpenId_none (refused : (deviceOpenId devices name id openRet).1 = none) :
    (deviceOpenId devices name id openRet).2 = devices := by
  unfold deviceOpenId at refused ⊢
  cases found : deviceFind devices name id with
  | none => rfl
  | some i =>
    simp only [found] at refused ⊢
    split at refused
    · rename_i failed
      rw [if_pos failed]
    · cases refused

theorem deviceClose_ref (counted : 0 < refOf devices d) (d' : Nat) :
    refOf (deviceClose devices d closeRet).2 d' + (if d = d' then 1 else 0) = refOf devices d' := by
  have inside : d < devices.length := by
    refine Nat.lt_of_not_le fun outside => ?_
    unfold refOf at counted
    rw [getD_eq_getElem?_getD, getElem?_eq_none outside] at counted
    exact Nat.lt_irrefl 0 counted
  have isOpen : 0 < (devices.getD d {}).dev.ref := counted
  simp only [deviceClose, if_pos isOpen]
  rw [refOf_modify inside]
  by_cases here : d = d'
  · subst here
    rw [if_pos rfl, if_pos rfl]
    exact Nat.sub_add_cancel counted
  · rw [if_neg here, if_neg here, Nat.add_zero]

/-! ## The calls one by one -/

def Counted (s : State) : Prop := ∀ d, refOf s.devices d = holders s.array d

def Held (s : State) : Prop := ∀ i, s.array.dev i ≠ none ↔ ∃ user, (user, i) ∈ s.opened

variable {s s' : State} {partition : Int} {call : Call} (user : Nat) (closeRet : Int)

theorem dev_of_getElem? {scn : LogicPartition} (found : array.scnList[i]? = some scn) :
    array.dev i = scn.eflashDev := by
  unfold PartionArray.dev
  rw [found]
  rfl

theorem partitionOpen_cases (s : State) (name : Name) (openRet : Int) :
    (s.array.scnList.findIdx? (fun scn => scn.description = name) = none ∧
      partitionOpen s name openRet = (einval, s)) ∨
    ∃ i scn, s.array.scnList.findIdx? (fun scn => scn.description = name) = some i ∧
      s.array.scnList[i]? = some scn ∧
      ((scn.eflashDev ≠ none ∧ partitionOpen s name openRet = ((i : Int), s)) ∨
        (scn.eflashDev = none ∧ partitionOpen s name openRet = ((i : Int), { s with
          array := s.array.setDev i (deviceOpenId s.devices eflash scn.idx openRet).1
          devices := (deviceOpenId s.devices eflash scn.idx openRet).2 }))) := by
  unfold partitionOpen
  cases search : s.array.scnList.findIdx? fun scn => scn.description = name with
  | none => exact Or.inl ⟨rfl, rfl⟩
  | some i =>
    obtain ⟨inside, -⟩ := findIdx?_eq_some_iff_getElem.mp search
    refine Or.inr ⟨i, s.array.scnList[i], rfl, getElem?_eq_getElem inside, ?_⟩
    simp only [getElem?_eq_getElem inside]
    cases handle : s.array.scnList[i].eflashDev with
    | some d => exact Or.inl ⟨Option.some_ne_none d, rfl⟩
    | none => exact Or.inr ⟨rfl, rfl⟩

theorem perform_open (found : partitionOpen s name openRet = ((i : Int), s')) :
    perform s (.open_ user name openRet) =
      .ok ((i : Int), { s' with opened := (user, i) :: s'.opened }) := by
  simp [perform, found]

theorem perform_missing (missing : partitionOpen s name openRet = (einval, s)) :
    perform s (.open_ user name openRet) = .ok (einval, s) := by
  simp [perform, missing, einval]

theorem perform_close (isPartition : s.IsPartition partition)
    (handle : s.array.dev partition.toNat = some d) :
    perform s (.close user partition closeRet) = .ok (0, { s with
      devices := (deviceClose s.devices d closeRet).2
      array := s.array.setDev partition.toNat none
      opened := s.opened.erase (user, partition.toNat) }) := by
  simp [perform, partitionClose, isPartition, handle]

theorem perform_close_invalid (invalid : ¬ s.IsPartition partition) :
    perform s (.close user partition closeRet) = .ok (0, s) := by
  simp [perform, partitionClose, invalid]

theorem perform_close_null (isPartition : s.IsPartition partition)
    (handle : s.array.dev partition.toNat = none) :
    perform s (.close user partition closeRet) = .error .nullDevice := by
  simp [perform, partitionClose, isPartition, handle]

theorem Counted.setDev (counted : Counted s) {dev : Option Nat}
    (inside : i < s.array.scnList.length)
    (moved : ∀ d, refOf devices d + (if s.array.dev i = some d then 1 else 0) =
      refOf s.devices d + if dev = some d then 1 else 0) (d : Nat) :
    refOf devices d = holders (s.array.setDev i dev) d := by
  have before := counted d
  have partitions := holders_setDev inside dev d
  have counts := moved d
  omega

theorem Counted.acquire (counted : Counted s) (name : Name) (id openRet : Int) (d : Nat) :
    refOf (deviceOpenId s.devices name id openRet).2 d =
      refOf s.devices d + if (deviceOpenId s.devices name id openRet).1 = some d then 1 else 0 := by
  cases result : (deviceOpenId s.devices name id openRet).1 with
  | none =>
    rw [deviceOpenId_none result, if_neg (Option.some_ne_none d).symm, Nat.add_zero]
  | some d' =>
    have room : refOf s.devices d' < 65535 := by
      rw [counted]
      exact Nat.lt_of_le_of_lt (holders_le s.array d') (by decide)
    rw [deviceOpenId_ref (Prod.ext result rfl) room d]
    simp only [Option.some.injEq]

theorem Counted.perform (counted : Counted s) {ret : Int} (ok : perform s call = .ok (ret, s')) :
    Counted s' := by
  cases call with
  | open_ user name openRet =>
    rcases partitionOpen_cases s name openRet with
      ⟨-, result⟩ | ⟨i, scn, -, found, ⟨-, result⟩ | ⟨closed, result⟩⟩
    · cases (perform_missing user result).symm.trans ok
      exact counted
    · cases (perform_open user result).symm.trans ok
      exact counted
    cases (perform_open user result).symm.trans ok
    refine counted.setDev (List.getElem?_eq_some_iff.mp found).1 fun d => ?_
    rw [counted.acquire, dev_of_getElem? found, closed, if_neg (Option.some_ne_none d).symm,
      Nat.add_zero]
  | close user partition closeRet =>
    by_cases isPartition : s.IsPartition partition
    · cases handle : s.array.dev partition.toNat with
      | none => cases (perform_close_null user closeRet isPartition handle).symm.trans ok
      | some d =>
        cases (perform_close user closeRet isPartition handle).symm.trans ok
        have isOpen : 0 < refOf s.devices d :=
          Nat.lt_of_lt_of_eq (holders_pos handle) (counted d).symm
        refine counted.setDev (inside_of_dev handle) fun d' => ?_
        rw [handle, if_neg (Option.some_ne_none d').symm, Nat.add_zero]
        simpa only [Option.some.injEq] using deviceClose_ref isOpen d'
    · cases (perform_close_invalid user closeRet isPartition).symm.trans ok
      exact counted

section

variable (held : Held s)

include held

theorem Held.join (handle : s.array.dev i ≠ none) (user : Nat) :
    Held { s with opened := (user, i) :: s.opened } := by
  intro j
  refine (held j).trans ⟨?_, ?_⟩
  · rintro ⟨other, member⟩
    exact ⟨other, mem_cons_of_mem _ member⟩
  rintro ⟨other, member⟩
  rcases mem_cons.mp member with here | there
  · cases here
    exact (held i).mp handle
  · exact ⟨other, there⟩

theorem Held.acquire {dev : Option Nat} (user : Nat) (devices : List Slot)
    (inside : i < s.array.scnList.length) (handle : dev ≠ none) :
    Held { s with
      array := s.array.setDev i dev, devices := devices, opened := (user, i) :: s.opened } := by
  intro j
  rw [PartionArray.dev_setDev]
  by_cases here : i = j
  · subst here
    rw [if_pos ⟨rfl, inside⟩]
    exact iff_of_true handle ⟨user, mem_cons_self⟩
  · rw [if_neg fun both => here both.1, held j]
    simp [Ne.symm here]

theorem Held.release {user : Nat} (devices : List Slot)
    (inside : i < s.array.scnList.length) (alone : ∀ other, (other, i) ∉ s.opened.erase (user, i)) :
    Held { s with
      devices := devices, array := s.array.setDev i none
      opened := s.opened.erase (user, i) } := by
  intro j
  rw [PartionArray.dev_setDev]
  by_cases here : i = j
  · subst here
    rw [if_pos ⟨rfl, inside⟩]
    exact iff_of_false (fun differs => differs rfl) fun ⟨other, member⟩ => alone other member
  · rw [if_neg fun both => here both.1, held j]
    refine exists_congr fun other => (mem_erase_of_ne ?_).symm
    exact fun same => here (Prod.mk.inj same).2.symm

theorem Held.careful (careful : Careful s call) :
    ∃ ret s', Handles.perform s call = .ok (ret, s') ∧ Held s' := by
  cases call with
  | open_ user name openRet =>
    rcases partitionOpen_cases s name openRet with
      ⟨-, result⟩ | ⟨i, scn, search, found, ⟨handle, result⟩ | ⟨closed, result⟩⟩
    · exact ⟨einval, s, perform_missing user result, held⟩
    · rw [← dev_of_getElem? found] at handle
      exact ⟨i, _, perform_open user result, held.join handle user⟩
    · have device := careful i scn search found closed
      have inside := (List.getElem?_eq_some_iff.mp found).1
      exact ⟨i, _, perform_open user result, held.acquire user _ inside device⟩
  | close user partition closeRet =>
    by_cases isPartition : s.IsPartition partition
    · obtain ⟨member, alone⟩ := careful isPartition
      obtain ⟨d, handle⟩ :=
        Option.ne_none_iff_exists'.mp ((held partition.toNat).mpr ⟨user, member⟩)
      exact ⟨0, _, perform_close user closeRet isPartition handle,
        held.release _ (inside_of_dev handle) alone⟩
    · exact ⟨0, s, perform_close_invalid user closeRet isPartition, held⟩

theorem Held.careful_of_right {ret : Int}
    (ok : Handles.perform s call = .ok (ret, s')) (right : Right s') : Careful s call := by
  cases call with
  | open_ user name openRet =>
    intro i scn search found closed refused
    rcases partitionOpen_cases s name openRet with
      ⟨missing, -⟩ | ⟨j, scn', search', found', way⟩
    · cases missing.symm.trans search
    cases search.symm.trans search'
    cases found.symm.trans found'
    rcases way with ⟨handle, -⟩ | ⟨-, result⟩
    · exact handle closed
    cases (perform_open user result).symm.trans ok
    obtain ⟨d, handle, -⟩ := right.valid user i mem_cons_self
    rw [refused, PartionArray.dev_setDev,
      if_pos ⟨rfl, (List.getElem?_eq_some_iff.mp found).1⟩] at handle
    cases handle
  | close user partition closeRet =>
    intro isPartition
    cases handle : s.array.dev partition.toNat with
    | none => cases (perform_close_null user closeRet isPartition handle).symm.trans ok
    | some d =>
      cases (perform_close user closeRet isPartition handle).symm.trans ok
      have alone : ∀ other, (other, partition.toNat) ∉
          s.opened.erase (user, partition.toNat) := by
        intro other member
        obtain ⟨d', kept, -⟩ := right.valid other partition.toNat member
        rw [PartionArray.dev_setDev, if_pos ⟨rfl, inside_of_dev handle⟩] at kept
        cases kept
      refine ⟨?_, alone⟩
      -- Somebody has the partition open, and it can only be the one who closes it.
      obtain ⟨owner, member⟩ := (held partition.toNat).mp (by rw [handle]; simp)
      by_contra absent
      rw [erase_of_not_mem absent] at alone
      exact alone owner member

end

theorem right_of_held (counted : Counted s) (held : Held s) : Right s where
  valid user i member := by
    obtain ⟨d, handle⟩ := Option.ne_none_iff_exists'.mp ((held i).mpr ⟨user, member⟩)
    exact ⟨d, handle, Nat.lt_of_lt_of_eq (holders_pos handle) (counted d).symm⟩
  counted := counted

/-! ## All calls -/

variable {calls : List Call}

theorem Fresh.counted (fresh : Fresh s) : Counted s := by
  intro d
  have nobody : holders s.array d = 0 := by
    refine countP_eq_zero.mpr fun scn member => ?_
    rw [fresh.closed scn member]
    simp
  rw [nobody, refOf, getD_eq_getElem?_getD]
  cases found : s.devices[d]? with
  | none => rfl
  | some slot => exact fresh.idle slot (mem_of_getElem? found)

theorem Fresh.held (fresh : Fresh s) : Held s := by
  intro i
  rw [fresh.unused]
  constructor
  · intro handle
    obtain ⟨d, held⟩ := Option.ne_none_iff_exists'.mp handle
    obtain ⟨scn, found, dev⟩ := Option.bind_eq_some_iff.mp held
    rw [fresh.closed scn (mem_of_getElem? found)] at dev
    cases dev
  · rintro ⟨user, member⟩
    cases member

/-- **The handles are right along a sequence of calls exactly when every call is careful**:
whoever closes a partition is its only user, and the device can be opened when a partition needs
it. -/
theorem handles_kept_iff (s : State) (fresh : Fresh s) (calls : List Call) :
    Upheld perform Right s calls ↔ Guarded perform Careful s calls := by
  apply upheld_iff_guarded fun s => Counted s ∧ Held s
  · rintro s ⟨counted, held⟩
    exact right_of_held counted held
  · rintro s call ⟨counted, held⟩ careful
    obtain ⟨ret, s', ok, next⟩ := held.careful careful
    exact ⟨ret, s', ok, counted.perform ok, next⟩
  · rintro s call ret s' ⟨-, held⟩ ok right
    exact held.careful_of_right ok right
  · exact ⟨fresh.counted, fresh.held⟩

def oneFlash : State where
  array := ⟨[⟨[0x6b, 0x76], 0, none⟩], by decide⟩
  devices := [⟨true, ⟨0, 0, some ⟨eflash⟩⟩⟩, {}, {}, {}]

theorem oneFlash_fresh : Fresh oneFlash where
  closed := by decide
  idle := by decide
  unused := rfl

theorem handles_kept_iff_oneFlash :
    Fresh oneFlash ∧
      (Upheld perform Right oneFlash [.open_ 1 [0x6b, 0x76] 0, .close 1 0 0] ↔
        Guarded perform Careful oneFlash [.open_ 1 [0x6b, 0x76] 0, .close 1 0 0]) :=
  ⟨oneFlash_fresh, handles_kept_iff oneFlash oneFlash_fresh _⟩

/-- Two users open the partition and the first one closes it: the second one has it open without
a handle, and closing it uses a device that is not there. -/
theorem shared_partition_loses_handle :
    ¬ Upheld perform Right oneFlash
        [.open_ 1 [0x6b, 0x76] 0, .open_ 2 [0x6b, 0x76] 0, .close 1 0 0] ∧
      ∃ rets s', run perform oneFlash
          [.open_ 1 [0x6b, 0x76] 0, .open_ 2 [0x6b, 0x76] 0, .close 1 0 0] = .ok (rets, s') ∧
        (2, 0) ∈ s'.opened ∧ s'.array.dev 0 = none ∧
        perform s' (.close 2 0 0) = .error .nullDevice := by
  constructor
  · rintro ⟨-, ret₁, s₁, first, -, ret₂, s₂, second, -, ret₃, s₃, third, right⟩
    cases first
    cases second
    cases third
    obtain ⟨d, handle, -⟩ := right.valid 2 0 (by decide)
    cases handle
  · exact ⟨[0, 0, 0], _, rfl, by decide, rfl, rfl⟩

end Phy6212.Handles
