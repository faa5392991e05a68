import Mathlib.Data.List.Forall2

/-!
# The table of devices

Drivers register their devices in a table of four slots. `device_find` returns the variable of its
loop, which behind a scan without a match is the device of the last slot; slots are taken in order,
so an unknown device is found exactly when the table is full (`deviceFind_eq`).
-/

namespace Phy6212.Device

open List

def maxDevCount : Nat := 4

def deviceMaxSize (devSize : Nat) : Nat := 128 + devSize

abbrev Name := List UInt8

structure Driver where
  name : Name
  deriving DecidableEq, Repr

/-- `dev_t`, without its lock. The id has eight bits, the open count sixteen. -/
structure Dev where
  id : Nat := 0
  ref : Nat := 0
  drv : Option Driver := none
  deriving DecidableEq, Repr

structure Slot where
  used : Bool := false
  dev : Dev := {}
  deriving DecidableEq, Repr

def emptyTable : List Slot := replicate maxDevCount {}

def idByte (id : Int) : Nat := (id % 256).toNat

/-- `device_new`: the slot that was taken, if any. -/
def deviceNew (devSize : Nat) (table : List Slot) (drv : Driver) (size : Nat) (id : Int)
    (mutexOk : Bool) : Option Nat × List Slot :=
  if deviceMaxSize devSize < size then (none, table)
  else match table.findIdx? fun slot => !slot.used with
    | none => (none, table)
    | some i =>
      let dev := { (table.getD i {}).dev with id := idByte id, drv := some drv }
      if mutexOk then (some i, table.set i ⟨true, dev⟩)
      else (none, table.set i ⟨false, dev⟩)

def Dev.matches (dev : Dev) (name : Name) (id : Int) : Bool :=
  dev.drv = some ⟨name⟩ ∧ (dev.id : Int) = id

/-- The loop of `device_find`: the slots ahead, the number of the first of them, and the
device that the last round has left. -/
def findLoop (name : Name) (id : Int) : List Slot → Nat → Option Nat → Option Nat
  | [], _, node => node
  | slot :: rest, i, _ =>
    if slot.used then
      if slot.dev.matches name id then some i else findLoop name id rest (i + 1) (some i)
    else findLoop name id rest (i + 1) none

def deviceFind (table : List Slot) (name : Name) (id : Int) : Option Nat :=
  findLoop name id table 0 none

/-- `driver_register`. Every driver of the repository takes its slot in `init` and does
nothing else that can fail. -/
def driverRegister (devSize : Nat) (table : List Slot) (drv : Driver) (idx : Int) (size : Nat)
    (mutexOk : Bool) : Int × List Slot :=
  if (deviceFind table drv.name idx).isSome then (-1, table)
  else match deviceNew devSize table drv size idx mutexOk with
    | (none, table) => (-1, table)
    | (some i, table) =>
      (0, table.modify i fun slot => { slot with dev := { slot.dev with id := idByte idx } })

/-- `device_open_id`: the device, if it could be opened. -/
def deviceOpenId (table : List Slot) (name : Name) (id : Int) (openRet : Int) :
    Option Nat × List Slot :=
  match deviceFind table name id with
  | none => (none, table)
  | some i =>
    let dev := (table.getD i {}).dev
    if dev.ref = 0 ∧ openRet ≠ 0 then (none, table)
    else (some i, table.modify i fun slot =>
      { slot with dev := { dev with ref := (dev.ref + 1) % 65536 } })

def ebadf : Int := -9

/-- `device_close`: the driver is asked when the last user closes the device, and only then the
result is not `-EBADF`. -/
def deviceClose (table : List Slot) (i : Nat) (closeRet : Int) : Int × List Slot :=
  let dev := (table.getD i {}).dev
  if 0 < dev.ref then
    (if dev.ref = 1 then closeRet else ebadf,
      table.modify i fun slot => { slot with dev := { dev with ref := dev.ref - 1 } })
  else (ebadf, table)

structure Registration where
  drv : Driver
  idx : Int
  size : Nat
  mutexOk : Bool
  deriving DecidableEq, Repr

structure Registry where
  table : List Slot
  registered : List (Name × Int)
  deriving DecidableEq, Repr

def Registry.init : Registry := ⟨emptyTable, []⟩

def Registry.register (devSize : Nat) (s : Registry) (r : Registration) : Registry :=
  let (ret, table) := driverRegister devSize s.table r.drv r.idx r.size r.mutexOk
  if ret = 0 then ⟨table, s.registered ++ [(r.drv.name, r.idx)]⟩ else ⟨table, s.registered⟩

def registerAll (devSize : Nat) (regs : List Registration) : Registry :=
  regs.foldl (Registry.register devSize) Registry.init

/-- The lookup is right: it returns the device that was registered under the name and the id,
or nothing when there is none. -/
def Registry.Right (s : Registry) (name : Name) (id : Int) : Prop :=
  match deviceFind s.table name id with
  | some i => s.registered[i]? = some (name, id)
  | none => (name, id) ∉ s.registered

def sameDevice (name : Name) (id : Int) (r : Name × Int) : Bool :=
  r.1 = name ∧ ((idByte r.2 : Nat) : Int) = id

/-- When the lookup is right: the first device with the name and the low bits of the id was
registered under the id itself; or there is none, and either the table has a free slot and
nothing is registered under the id, or the device asked for is in the last slot. -/
def Findable (registered : List (Name × Int)) (name : Name) (id : Int) : Prop :=
  match registered.find? (sameDevice name id) with
  | some r => r.2 = id
  | none =>
    if registered.length < maxDevCount then (name, id) ∉ registered
    else registered.getLast? = some (name, id)

def Slot.Holds (slot : Slot) (r : Name × Int) : Prop :=
  slot.used = true ∧ slot.dev.drv = some ⟨r.1⟩ ∧ slot.dev.id = idByte r.2

/-- The registered devices fill the first slots in order, and the others are free. -/
structure Filled (s : Registry) (taken free : List Slot) : Prop where
  split : s.table = taken ++ free
  size : s.table.length = maxDevCount
  holds : List.Forall₂ Slot.Holds taken s.registered
  unused : ∀ slot ∈ free, slot.used = false

variable {name : Name} {id : Int} {slot : Slot} {r : Name × Int}

theorem Slot.Holds.matches_eq (holds : slot.Holds r) :
    slot.dev.matches name id = sameDevice name id r := by
  obtain ⟨-, drv, byte⟩ := holds
  simp [Dev.matches, sameDevice, drv, byte]

theorem findLoop_free : ∀ {free : List Slot} (i : Nat) (node : Option Nat),
    (∀ slot ∈ free, slot.used = false) →
      findLoop name id free i node = if free = [] then node else none
  | [], _, _, _ => rfl
  | slot :: free, i, node, unused => by
    have first := unused slot mem_cons_self
    have rest := fun slot' member => unused slot' (mem_cons_of_mem slot member)
    rw [findLoop, first, if_neg Bool.false_ne_true, findLoop_free _ none rest, ite_self,
      if_neg (cons_ne_nil slot free)]

theorem findLoop_taken {free : List Slot} : ∀ {taken : List Slot} {registered : List (Name × Int)}
    (i : Nat) (node : Option Nat), List.Forall₂ Slot.Holds taken registered →
      findLoop name id (taken ++ free) i node =
        match registered.findIdx? (sameDevice name id) with
        | some k => some (i + k)
        | none => findLoop name id free (i + registered.length)
            (if registered = [] then node else some (i + registered.length - 1))
  | _, _, i, node, .nil => rfl
  | slot :: taken, r :: registered, i, node, .cons holds rest => by
    rw [cons_append, findLoop, holds.1, if_pos rfl, holds.matches_eq, findIdx?_cons]
    cases same : sameDevice name id r with
    | true => rfl
    | false =>
      simp only [Bool.false_eq_true, if_false]
      rw [findLoop_taken _ _ rest]
      cases found : registered.findIdx? _ with
      | some k =>
        simp only [Option.map_some]
        congr 1
        omega
      | none =>
        simp only [Option.map_none, length_cons, if_neg (cons_ne_nil r registered)]
        rw [Nat.add_right_comm, Nat.add_assoc]
        cases registered with
        | nil => rfl
        | cons r' registered => rw [if_neg (cons_ne_nil r' registered)]

variable {s : Registry} {taken free : List Slot}

section

variable (filled : Filled s taken free)

include filled

theorem Filled.length_taken : taken.length = s.registered.length :=
  filled.holds.length_eq

theorem Filled.length_le : s.registered.length + free.length = maxDevCount := by
  rw [← filled.length_taken, ← filled.size, filled.split, length_append]

/-- **What `device_find` returns**: the first device that matches, the last one of a full
table without a match, and nothing otherwise. -/
theorem deviceFind_eq :
    deviceFind s.table name id =
      match s.registered.findIdx? (sameDevice name id) with
      | some k => some k
      | none => if s.registered.length < maxDevCount then none else some (maxDevCount - 1) := by
  have total := filled.length_le
  rw [deviceFind, filled.split, findLoop_taken 0 none filled.holds]
  cases found : s.registered.findIdx? _ with
  | some k => simp only [Nat.zero_add]
  | none =>
    simp only [Nat.zero_add]
    rw [findLoop_free _ _ filled.unused]
    by_cases full : free = []
    · have all : s.registered.length = maxDevCount := by simpa [full] using total
      have some_taken : s.registered ≠ [] := by
        intro nothing
        rw [nothing] at all
        cases all
      rw [if_pos full, if_neg some_taken, all, if_neg (Nat.lt_irrefl _)]
    · have left : 0 < free.length := length_pos_of_ne_nil full
      rw [if_neg full, if_pos (by omega)]

end

variable {devSize : Nat}

theorem used_of_holds {registered : List (Name × Int)}
    (holds : List.Forall₂ Slot.Holds taken registered) : ∀ slot ∈ taken, slot.used = true := by
  induction holds with
  | nil =>
    intro slot member
    cases member
  | cons here rest used =>
    intro slot member
    rcases mem_cons.mp member with rfl | later
    · exact here.1
    · exact used slot later

theorem Filled.first_free (filled : Filled s taken free) :
    (s.table.findIdx? fun slot => !slot.used) = if free = [] then none else some taken.length := by
  have busy : (taken.findIdx? fun slot => !slot.used) = none := by
    rw [findIdx?_eq_none_iff]
    intro slot member
    rw [used_of_holds filled.holds slot member]
    rfl
  rw [filled.split, findIdx?_append, busy]
  cases free with
  | nil => rfl
  | cons slot free =>
    rw [if_neg (cons_ne_nil slot free), findIdx?_cons,
      filled.unused slot mem_cons_self]
    simp

theorem deviceNew_eq (filled : Filled s taken free) (drv : Driver) (size : Nat) (id : Int)
    (mutexOk : Bool) :
    deviceNew devSize s.table drv size id mutexOk =
      if deviceMaxSize devSize < size then (none, s.table)
      else match free with
        | [] => (none, s.table)
        | slot :: rest =>
          let dev := { slot.dev with id := idByte id, drv := some drv }
          if mutexOk then (some s.registered.length, taken ++ ⟨true, dev⟩ :: rest)
          else (none, taken ++ ⟨false, dev⟩ :: rest) := by
  unfold deviceNew
  rw [filled.first_free, ← filled.length_taken]
  cases free with
  | nil => rfl
  | cons slot rest =>
    simp only [filled.split]
    simp

theorem modify_length (f : Slot → Slot) (slot : Slot) :
    (taken ++ slot :: free).modify taken.length f = taken ++ f slot :: free := by
  induction taken with
  | nil => rfl
  | cons first taken ih => simp [ih]

theorem Filled.skip {slot' : Slot} (filled : Filled s taken (slot :: free))
    (unused : slot'.used = false) :
    Filled ⟨taken ++ slot' :: free, s.registered⟩ taken (slot' :: free) where
  split := rfl
  size := by
    have size := filled.size
    rw [filled.split] at size
    simpa using size
  holds := filled.holds
  unused := by
    intro x member
    rcases mem_cons.mp member with rfl | later
    · exact unused
    · exact filled.unused x (mem_cons_of_mem _ later)

theorem Filled.take {slot' : Slot} (filled : Filled s taken (slot :: free))
    (holds : slot'.Holds r) :
    Filled ⟨taken ++ slot' :: free, s.registered ++ [r]⟩ (taken ++ [slot']) free where
  split := by simp
  size := by
    have size := filled.size
    rw [filled.split] at size
    simpa using size
  holds := rel_append filled.holds (.cons holds .nil)
  unused := fun x member => filled.unused x (mem_cons_of_mem _ member)

theorem Filled.register (filled : Filled s taken free) (r : Registration) :
    ∃ taken' free', Filled (s.register devSize r) taken' free' := by
  unfold Registry.register driverRegister
  by_cases known : (deviceFind s.table r.drv.name r.idx).isSome
  · rw [if_pos known]
    exact ⟨taken, free, filled⟩
  rw [if_neg known, deviceNew_eq filled]
  by_cases large : deviceMaxSize devSize < r.size
  · rw [if_pos large]
    exact ⟨taken, free, filled⟩
  rw [if_neg large]
  cases free with
  | nil => exact ⟨taken, [], filled⟩
  | cons slot free =>
    cases locked : r.mutexOk with
    | false => exact ⟨taken, _, filled.skip rfl⟩
    | true =>
      simp only [if_true, ← filled.length_taken, modify_length]
      exact ⟨_, free, filled.take ⟨rfl, rfl, rfl⟩⟩

theorem filled_init : Filled Registry.init [] emptyTable where
  split := rfl
  size := rfl
  holds := .nil
  unused := by decide

theorem filled_registerAll (devSize : Nat) (regs : List Registration) :
    ∃ taken free, Filled (registerAll devSize regs) taken free := by
  have keeps : ∀ (regs : List Registration) (s : Registry), (∃ taken free, Filled s taken free) →
      ∃ taken free, Filled (regs.foldl (Registry.register devSize) s) taken free := by
    intro regs
    induction regs with
    | nil => exact fun s filled => filled
    | cons r regs rest =>
      rintro s ⟨taken, free, filled⟩
      exact rest _ (filled.register r)
  exact keeps regs Registry.init ⟨[], emptyTable, filled_init⟩

section

variable (filled : Filled s taken free)

include filled

theorem right_iff_findable : s.Right name id ↔ Findable s.registered name id := by
  have total := filled.length_le
  unfold Registry.Right Findable
  rw [deviceFind_eq filled]
  cases found : s.registered.findIdx? _ with
  | some k =>
    obtain ⟨within, same, before⟩ := findIdx?_eq_some_iff_getElem.mp found
    have first : s.registered.find? _ = some s.registered[k] :=
      find?_eq_some_iff_getElem.mpr ⟨same, k, within, rfl, fun j less => by
        simpa using before j less⟩
    have named : s.registered[k].1 = name := by
      simp only [sameDevice, decide_eq_true_eq] at same
      exact same.1
    simp only [first, getElem?_eq_getElem within, Option.some.injEq]
    constructor
    · intro equal
      rw [equal]
    · intro equal
      exact Prod.ext named equal
  | none =>
    have absent : s.registered.find? (sameDevice name id) = none := by
      rw [find?_eq_none]
      rw [findIdx?_eq_none_iff] at found
      intro r member
      rw [found r member]
      exact Bool.false_ne_true
    simp only [absent]
    by_cases room : s.registered.length < maxDevCount
    · rw [if_pos room, if_pos room]
    · have full : s.registered.length = maxDevCount := by omega
      rw [if_neg room, if_neg room, getLast?_eq_getElem?, full]

theorem open_fails_iff (unknown : (name, id) ∉ s.registered) :
    (∀ openRet, (deviceOpenId s.table name id openRet).1 = none) ↔
      Findable s.registered name id := by
  rw [← right_iff_findable filled]
  unfold Registry.Right deviceOpenId
  cases found : deviceFind s.table name id with
  | none => simpa using unknown
  | some i =>
    constructor
    · intro fails
      have opened := fails 0
      simp at opened
    · intro here
      exact absurd (mem_of_getElem? here) unknown

theorem driverRegister_new (r : Registration)
    (new : ∀ known ∈ s.registered, known.1 ≠ r.drv.name) (room : free ≠ [])
    (fits : r.size ≤ deviceMaxSize devSize) (locked : r.mutexOk = true) :
    (driverRegister devSize s.table r.drv r.idx r.size r.mutexOk).1 = 0 := by
  have total := filled.length_le
  have left : 0 < free.length := length_pos_of_ne_nil room
  have absent : s.registered.findIdx? (sameDevice r.drv.name r.idx) = none := by
    rw [findIdx?_eq_none_iff]
    intro known member
    simp [sameDevice, new known member]
  unfold driverRegister
  rw [deviceFind_eq filled, absent]
  simp only [if_pos (show s.registered.length < maxDevCount by omega)]
  rw [deviceNew_eq filled, if_neg (Nat.not_lt.mpr fits)]
  obtain ⟨slot, rest, rfl⟩ := exists_cons_of_ne_nil room
  rw [locked]
  rfl

end

/-- **What `device_find` gives after any sequence of registrations.** -/
theorem find_iff (devSize : Nat) (regs : List Registration) :
    (∀ name id, (registerAll devSize regs).Right name id ↔
      Findable (registerAll devSize regs).registered name id) ∧
    (∀ r : Registration, (∀ known ∈ (registerAll devSize regs).registered, known.1 ≠ r.drv.name) →
      (∃ slot ∈ (registerAll devSize regs).table, slot.used = false) →
      r.size ≤ deviceMaxSize devSize → r.mutexOk = true →
      (driverRegister devSize (registerAll devSize regs).table r.drv r.idx r.size r.mutexOk).1 = 0) ∧
    (∀ name id, (name, id) ∉ (registerAll devSize regs).registered →
      ((∀ openRet, (deviceOpenId (registerAll devSize regs).table name id openRet).1 = none) ↔
        Findable (registerAll devSize regs).registered name id)) := by
  obtain ⟨taken, free, filled⟩ := filled_registerAll devSize regs
  refine ⟨fun name id => right_iff_findable filled, fun r new room fits locked => ?_,
    fun name id unknown => open_fails_iff filled unknown⟩
  refine driverRegister_new filled r new ?_ fits locked
  rintro rfl
  obtain ⟨slot, member, unused⟩ := room
  rw [filled.split, append_nil] at member
  rw [used_of_holds filled.holds slot member] at unused
  cases unused

def fourDevices : List Registration :=
  [⟨⟨[117, 97, 114, 116]⟩, 0, 100, true⟩, ⟨⟨[117, 97, 114, 116]⟩, 1, 100, true⟩,
    ⟨⟨[101, 102, 108, 97, 115, 104]⟩, 0, 100, true⟩,
    ⟨⟨[108, 101, 100, 114, 103, 98]⟩, 0, 100, true⟩]

/-- **A full table finds devices that are not there**: `spi` 0 was never registered, and the
lookup and the open return the device `ledrgb` 0. -/
theorem full_table_finds_unknown :
    (registerAll 16 fourDevices).registered =
      fourDevices.map (fun r => (r.drv.name, r.idx)) ∧
    ([115, 112, 105], 0) ∉ (registerAll 16 fourDevices).registered ∧
    deviceFind (registerAll 16 fourDevices).table [115, 112, 105] 0 = some 3 ∧
    (deviceOpenId (registerAll 16 fourDevices).table [115, 112, 105] 0 0).1 = some 3 := by
  decide

end Phy6212.Device
