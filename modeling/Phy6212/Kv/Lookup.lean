import Phy6212.Kv.Lives

/-!
# Lookup

Names are compared by `keycmp`, which decides equality of keys (`keycmp_eq_zero_iff`).
-/

namespace Phy6212.Kv

open List NorFlash

structure CStr (s : Nat → UInt8) (text : List UInt8) : Prop where
  bytes : ∀ i (h : i < text.length), s i = text[i]
  nul : s text.length = 0
  nonzero : ∀ b ∈ text, b ≠ 0

variable {s : Nat → UInt8} {i : Nat} {text : List UInt8} {after before : List Entry}

theorem CStr.ne_zero_iff (str : CStr s text) (inside : i ≤ text.length) :
    s i ≠ 0 ↔ i < text.length := by
  constructor
  · intro byte
    rcases Nat.lt_or_eq_of_le inside with less | rfl
    · exact less
    · exact absurd str.nul byte
  · intro less
    rw [str.bytes i less]
    exact str.nonzero _ (getElem_mem less)

theorem sub_toNat_eq_zero {a b : UInt8} : (a.toNat : Int) - b.toNat = 0 ↔ a = b := by
  constructor
  · intro equal
    exact UInt8.toNat_inj.mp (by omega)
  · rintro rfl
    omega

theorem keycmpLoop_eq_zero_iff {d : Nat → UInt8} {a b : List UInt8} (first : CStr s a)
    (second : CStr d b) : ∀ (n i : Nat), i ≤ a.length → i ≤ b.length → b.length - i < n →
      (keycmpLoop s d i n = 0 ↔ a.drop i = b.drop i)
  | 0, _, _, _, bound => by omega
  | n + 1, i, inA, inB, bound => by
    rw [keycmpLoop]
    split
    · next both =>
      have lessA := (first.ne_zero_iff inA).mp both.1
      have lessB := (second.ne_zero_iff inB).mp (both.2 ▸ both.1)
      rw [keycmpLoop_eq_zero_iff first second n _ lessA lessB (by omega),
        drop_eq_getElem_cons lessA, drop_eq_getElem_cons lessB,
        ← first.bytes, ← second.bytes, both.2]
      simp
    · next differ =>
      rw [sub_toNat_eq_zero]
      constructor
      · intro same
        have zero : s i = 0 := by
          by_contra nonzero
          exact differ ⟨nonzero, same⟩
        have endA : ¬ i < a.length := fun less => (first.ne_zero_iff inA).mpr less zero
        have endB : ¬ i < b.length := fun less =>
          (second.ne_zero_iff inB).mpr less (same ▸ zero)
        rw [drop_eq_nil_of_le (by omega), drop_eq_nil_of_le (by omega)]
      intro same
      have lengths := congrArg length same
      simp only [length_drop] at lengths
      rcases Nat.lt_or_eq_of_le inA with lessA | rfl
      · have lessB : i < b.length := by omega
        rw [drop_eq_getElem_cons lessA, drop_eq_getElem_cons lessB] at same
        rw [first.bytes i lessA, second.bytes, (List.cons.inj same).1]
      · have lengthB : a.length = b.length := by omega
        rw [first.nul, lengthB, second.nul]

theorem keycmp_eq_zero_iff {d : Nat → UInt8} {a b : List UInt8} (first : CStr s a)
    (second : CStr d b) {n : Nat} (bound : b.length < n) : keycmp s d n = 0 ↔ a = b := by
  cases n with
  | zero => omega
  | succ n =>
    show keycmpLoop s d 0 _ = 0 ↔ a = b
    rw [keycmpLoop_eq_zero_iff first second _ 0 (by omega) (by omega) (by omega)]
    rfl

theorem readString_eq {rd : Nat → UInt8} {bound offset : Nat}
    (str : CStr (fun i => rd (offset + i)) text) (less : text.length < bound) :
    readString rd bound offset = text := by
  induction text generalizing bound offset with
  | nil =>
    obtain ⟨bound, rfl⟩ : ∃ b, bound = b + 1 := ⟨bound - 1, by omega⟩
    rw [readString, if_pos (by simpa using str.nul)]
  | cons c text ih =>
    obtain ⟨bound, rfl⟩ : ∃ b, bound = b + 1 := ⟨bound - 1, by omega⟩
    have head : rd offset = c := str.bytes 0 (Nat.succ_pos _)
    have rest : CStr (fun i => rd (offset + 1 + i)) text := by
      refine ⟨fun i h => ?_, ?_, fun b member => str.nonzero b (mem_cons_of_mem _ member)⟩
      · have := str.bytes (i + 1) (by simpa using h)
        rw [getElem_cons_succ] at this
        rw [← this, Nat.add_assoc, Nat.add_comm 1 i]
      · have := str.nul
        simp only [length_cons] at this
        rw [← this, Nat.add_assoc, Nat.add_comm 1]
    rw [readString, head, if_neg (str.nonzero c mem_cons_self), ih rest (by simpa using less)]

variable {count : Nat}

theorem readBytes_eq {rd : Nat → UInt8} {offset : Nat} {data : List UInt8}
    (within : count ≤ data.length) (bytes : ∀ i (h : i < data.length), rd (offset + i) = data[i]) :
    readBytes rd offset count = data.take count := by
  apply ext_getElem
  · simp only [readBytes, length_map, length_range, length_take]
    omega
  intro i short _
  simp only [readBytes, length_map, length_range] at short
  simp only [readBytes, getElem_map, getElem_range, getElem_take]
  exact bytes i (by omega)

theorem Key.bytes_inj {key key' : Key} : key.bytes = key'.bytes ↔ key = key' := by
  cases key
  cases key'
  simp

theorem Key.cstr (key : Key) : CStr (fun i => key.bytes.getD i 0) key.bytes := by
  refine ⟨fun i h => getD_eq_getElem _ _ h, ?_, key.nonzero⟩
  simp

theorem Placed.headOf {size : Nat} {kv : Kvset} {e : Entry}
    (placed : Placed size kv i (before ++ e :: after)) :
    CStr (kv.headOf (e.node i (logSize before))) e.key.bytes := by
  have stored := placed.stored
  exact ⟨stored.key, stored.nul, e.key.nonzero⟩

theorem Placed.valueOf {size : Nat} {kv : Kvset} {e : Entry}
    (placed : Placed size kv i (before ++ e :: after)) (short : count ≤ e.value.length) :
    readBytes (kv.valueOf (e.node i (logSize before))) 0 count = e.value.take count := by
  have stored := placed.stored
  refine readBytes_eq short fun j h => ?_
  rw [Nat.zero_add]
  exact stored.value j h

variable {g : Geometry} {kv : Kvset} {logs : Nat → List Entry} {off : Nat} {e : Entry}

theorem Rep.placed (rep : Rep g kv logs) (within : i < g.num) : Placed g.size kv i (logs i) :=
  rep.laid.placed within

theorem Rep.placed_split (rep : Rep g kv logs) (within : i < g.num) {log : List Entry}
    (log_eq : logs i = log) : Placed g.size kv i log :=
  rep.laid.placed_split within log_eq

theorem LaidOut.headOf (laid : LaidOut g kv logs) (lives : Lives g logs i off e) :
    CStr (kv.headOf (e.node i off)) e.key.bytes := by
  obtain ⟨within, _, before, after, equal, rfl⟩ := lives
  exact (laid.placed_split within equal).headOf

theorem LaidOut.valueOf (laid : LaidOut g kv logs) (lives : Lives g logs i off e)
    (short : count ≤ e.value.length) :
    readBytes (kv.valueOf (e.node i off)) 0 count = e.value.take count := by
  obtain ⟨within, _, before, after, equal, rfl⟩ := lives
  exact (laid.placed_split within equal).valueOf short

theorem Rep.search (rep : Rep g kv logs) (lives : Lives g logs i off e) (node : Kvnode) :
    kvblockSearch kv (kv.blocks i) off node = .ok (true, e.node i off) := by
  obtain ⟨within, _, before, after, equal, rfl⟩ := lives
  exact (rep.placed_split within equal).search_split node

theorem Entry.keyBound_eq (e : Entry) (b o : Nat) :
    (e.node b o).keyBound = (e.key.bytes.length + 4 : Nat) := by
  simp only [Kvnode.keyBound, Entry.node, rwFlagSize]
  omega

theorem Rep.cmpName (rep : Rep g kv logs) (lives : Lives g logs i off e) (key : Key) :
    kvnodeCmpName kv (e.node i off) key.bytes = 0 ↔ e.key = key := by
  unfold kvnodeCmpName
  rw [e.keyBound_eq, keycmp_eq_zero_iff key.cstr (rep.laid.headOf lives) (by omega), Key.bytes_inj]
  exact eq_comm

theorem Rep.cmpNodes (rep : Rep g kv logs) {i' off' : Nat} {e' : Entry}
    (lives : Lives g logs i off e) (lives' : Lives g logs i' off' e') :
    keycmp (kv.headOf (e.node i off)) (kv.headOf (e'.node i' off')) (e'.node i' off').keyBound = 0 ↔
      e.key = e'.key := by
  rw [e'.keyBound_eq, keycmp_eq_zero_iff (rep.laid.headOf lives) (rep.laid.headOf lives') (by omega),
    Key.bytes_inj]

end Phy6212.Kv
