import Phy6212.Kv.Mount

/-!
# Removing superseded entries

`kv_verify` compares every live node with every later one. Its loops only remove entries that a
newer one of the same key shadows (`Prunes`), and leave no two places with one key and comparable
versions (`kvVerify_spec`).
-/

namespace Phy6212.Kv

open Function List NorFlash

/-! ## Older and newer versions -/

theorem olderNode_swap (v w : UInt8) :
    olderNode v w = some .first ↔ olderNode w v = some .second := by
  unfold olderNode
  grind

/-- Two places hold one key with versions of which one is older. -/
def ClashAt (g : Geometry) (logs : Nat → List Entry) (i off j off' : Nat) : Prop :=
  ∃ e e', Lives g logs i off e ∧ Lives g logs j off' e' ∧ e.key = e'.key ∧
    olderNode e.version e'.version ≠ none

def After (i off j off' : Nat) : Prop := i < j ∨ (i = j ∧ off < off')

def ClashFree (g : Geometry) (logs : Nat → List Entry) : Prop :=
  ∀ i off j off', After i off j off' → ¬ ClashAt g logs i off j off'

/-- Another place holds the same key with a newer version. -/
def Shadowed (g : Geometry) (logs : Nat → List Entry) (i off : Nat) (e : Entry) : Prop :=
  ∃ j off' e', ¬ (j = i ∧ off' = off) ∧ Lives g logs j off' e' ∧ e'.key = e.key ∧
    olderNode e.version e'.version = some .first

/-- The second store differs from the first by the removal of shadowed entries,
and not at all if no two places clash. -/
structure Prunes (g : Geometry) (kv : Kvset) (logs : Nat → List Entry) (kv' : Kvset)
    (logs' : Nat → List Entry) : Prop where
  rep : Rep g kv' logs'
  sub : ∀ ⦃i off e⦄, Lives g logs' i off e → Lives g logs i off e
  shadow : ∀ ⦃i off e⦄, Lives g logs i off e → Lives g logs' i off e ∨ Shadowed g logs i off e
  shape : ∀ i, logs' i = [] ∨ (logs' i).map Entry.kill = (logs i).map Entry.kill
  idle : ClashFree g logs → kv' = kv ∧ logs' = logs
  bid : kv'.bid = kv.bid
  gcBid : kv'.gcBid = kv.gcBid

variable {g : Geometry} {kv kv' kv'' : Kvset} {logs logs' logs'' : Nat → List Entry}

theorem Prunes.refl (rep : Rep g kv logs) : Prunes g kv logs kv logs :=
  ⟨rep, fun _ _ _ lives => lives, fun _ _ _ lives => .inl lives, fun _ => .inr rfl,
    fun _ => ⟨rfl, rfl⟩, rfl, rfl⟩

theorem Prunes.trans (first : Prunes g kv logs kv' logs')
    (second : Prunes g kv' logs' kv'' logs'') :
    Prunes g kv logs kv'' logs'' := by
  refine ⟨second.rep, fun i off e lives => first.sub (second.sub lives), ?_, ?_, ?_,
    second.bid.trans first.bid, second.gcBid.trans first.gcBid⟩
  · intro i off e lives
    rcases first.shadow lives with kept | shadowed
    · rcases second.shadow kept with kept | ⟨j, off', e', apart, lives', rest⟩
      · exact .inl kept
      · exact .inr ⟨j, off', e', apart, first.sub lives', rest⟩
    · exact .inr shadowed
  · intro i
    rcases second.shape i with empty | same
    · exact .inl empty
    rcases first.shape i with empty | same'
    · rw [empty, map_nil, map_eq_nil_iff] at same
      exact .inl same
    · exact .inr (same.trans same')
  · intro free
    obtain ⟨rfl, rfl⟩ := first.idle free
    exact second.idle free

variable {i : Nat} {after before : List Entry} {off' : Nat}

theorem Prunes.clash (prunes : Prunes g kv logs kv' logs') {off j : Nat}
    (clash : ClashAt g logs' i off j off') : ClashAt g logs i off j off' := by
  obtain ⟨e, e', lives, lives', rest⟩ := clash
  exact ⟨e, e', prunes.sub lives, prunes.sub lives', rest⟩

theorem kill_kill (e : Entry) : e.kill.kill = e.kill := rfl

theorem map_kill_removeEntry (before after : List Entry) (e : Entry) :
    removeEntry before e after = [] ∨
      (removeEntry before e after).map Entry.kill = (before ++ e :: after).map Entry.kill := by
  unfold removeEntry
  split
  · right
    simp only [map_append, map_cons, kill_kill]
  · exact .inl rfl

theorem Prunes.remove (rep : Rep g kv logs) {e : Entry} (within : i < g.num) (live : e.live = true)
    (log_eq : logs i = before ++ e :: after) (shadowed : Shadowed g logs i (logSize before) e)
    (clash : ¬ ClashFree g logs) :
    Prunes g kv logs (kvnodeRm kv (e.node i (logSize before)))
      (update logs i (removeEntry before e after)) := by
  obtain ⟨removed, one⟩ := kvnodeRm_rep rep within live log_eq
  refine ⟨removed, fun j off x lives => ((lives_remove within live log_eq).mp lives).1,
    fun j off x lives => ?_, fun j => ?_, fun free => absurd free clash, one.bid, one.gcBid⟩
  · by_cases here : j = i ∧ off = logSize before
    · obtain ⟨rfl, rfl⟩ := here
      have lives' : Lives g logs j _ e := ⟨within, live, before, after, log_eq, rfl⟩
      rw [lives.entry_unique lives']
      exact .inr shadowed
    · exact .inl ((lives_remove within live log_eq).mpr ⟨lives, here⟩)
  rcases eq_or_ne j i with rfl | different
  · rw [update_self, log_eq]
    exact map_kill_removeEntry before after e
  · rw [update_of_ne different]
    exact .inr rfl

inductive Checked (g : Geometry) (kv : Kvset) (logs : Nat → List Entry) (i off : Nat) (e : Entry)
    (j : Nat) (before : List Entry) (e' : Entry) (after : List Entry) :
    Option Older × Kvset → Prop
  | same (agree : ¬ ClashAt g logs i off j (logSize before)) : Checked g kv logs i off e j before e' after (none, kv)
  | first {kv' : Kvset} {logs' : Nat → List Entry} (prunes : Prunes g kv logs kv' logs')
      (gone : ∀ x, ¬ Lives g logs' i off x) :
      Checked g kv logs i off e j before e' after (some .first, kv')
  | second {kv' : Kvset} (prunes : Prunes g kv logs kv'
        (update logs j (removeEntry before e' after)))
      (kept : Lives g (update logs j (removeEntry before e' after)) i off e) :
      Checked g kv logs i off e j before e' after (some .second, kv')

theorem kvblockCheckVersion_spec (rep : Rep g kv logs) {off j : Nat} {e e' : Entry}
    (lives : Lives g logs i off e) (within : j < g.num) (live : e'.live = true)
    (log_eq : logs j = before ++ e' :: after) (ordered : After i off j (logSize before)) :
    Checked g kv logs i off e j before e' after
      (kvblockCheckVersion kv (e.node i off) (e'.node j (logSize before))) := by
  have lives' : Lives g logs j _ e' := ⟨within, live, before, after, log_eq, rfl⟩
  have names := rep.cmpNodes lives lives'
  have apart : ¬ (i = j ∧ off = logSize before) := by
    rintro ⟨rfl, rfl⟩
    rcases ordered with less | ⟨-, less⟩ <;> exact absurd less (Nat.lt_irrefl _)
  unfold kvblockCheckVersion
  by_cases same : e.key = e'.key
  · rw [if_neg (fun differ => differ (names.mpr same))]
    have clash (comparable : olderNode e.version e'.version ≠ none) : ¬ ClashFree g logs :=
      fun free => free i off j _ ordered ⟨e, e', lives, lives', same, comparable⟩
    have versions : olderNode (e.node i off).version (e'.node j (logSize before)).version =
        olderNode e.version e'.version := rfl
    rw [versions]
    cases older : olderNode e.version e'.version with
    | none =>
      refine .same ?_
      rintro ⟨x, x', xLives, xLives', -, comparable⟩
      rw [← lives.entry_unique xLives, ← lives'.entry_unique xLives'] at comparable
      exact comparable older
    | some which =>
      have notFree := clash (by rw [older]; exact Option.some_ne_none _)
      cases which with
      | first =>
        obtain ⟨iWithin, eLive, before', after', log_eq', rfl⟩ := lives
        refine .first (Prunes.remove rep iWithin eLive log_eq' ?_ notFree) fun x gone => ?_
        · exact ⟨j, logSize before, e', fun here => apart ⟨here.1.symm, here.2.symm⟩, lives',
            same.symm, older⟩
        · exact ((lives_remove iWithin eLive log_eq').mp gone).2 ⟨rfl, rfl⟩
      | second =>
        refine .second (Prunes.remove rep within live log_eq ?_ notFree) ?_
        · exact ⟨i, off, e, apart, lives, same, (olderNode_swap _ _).mpr older⟩
        · exact (lives_remove within live log_eq).mpr ⟨lives, apart⟩
  · rw [if_pos (fun equal => same (names.mp equal))]
    refine .same ?_
    rintro ⟨x, x', xLives, xLives', key_eq, -⟩
    rw [← lives.entry_unique xLives, ← lives'.entry_unique xLives'] at key_eq
    exact same key_eq

/-! ## The loops -/

variable {off j : Nat} {e : Entry}

theorem Lives.at_or_behind {x : Entry} (lives : Lives g logs j off' x)
    (log_eq : logs j = before ++ e :: after) (from_ : logSize before ≤ off') :
    (off' = logSize before ∧ x = e) ∨ logSize (before ++ [e]) ≤ off' := by
  obtain ⟨_, _, first, rest, equal, rfl⟩ := lives
  rw [log_eq] at equal
  rcases append_eq_append_iff.mp equal with ⟨middle, rfl, tail⟩ | ⟨middle, rfl, tail⟩
  · cases middle with
    | nil =>
      exact .inl ⟨by simp, (List.cons.inj tail).1.symm⟩
    | cons y middle =>
      obtain ⟨rfl, -⟩ := List.cons.inj tail
      right
      simp only [logSize_append, logSize_cons, logSize_nil]
      omega
  cases middle with
  | nil =>
    exact .inl ⟨by simp, (List.cons.inj tail).1⟩
  | cons y middle =>
    have bounds := y.size_bounds
    simp only [logSize_append, logSize_cons] at from_
    omega

/-- What comparing the node of a place with the nodes of block `j` from an offset
on leaves: either the place is emptied, or nothing clashes with it there. -/
def Compared (g : Geometry) (kv : Kvset) (logs : Nat → List Entry) (i off : Nat) (e : Entry)
    (j low : Nat) (result : Except Halt (Bool × Kvset)) : Prop :=
  ∃ removed kv' logs', result = .ok (removed, kv') ∧ Prunes g kv logs kv' logs' ∧
    (removed = true → ∀ x, ¬ Lives g logs' i off x) ∧
    (removed = false → Lives g logs' i off e ∧
      ∀ off', low ≤ off' → ¬ ClashAt g logs' i off j off')

theorem verifyAgainst_spec : ∀ (rounds : Nat) (after before : List Entry) (kv : Kvset)
    (logs : Nat → List Entry), Rep g kv logs → j < g.num →
      (logs j = before ++ after ∨ logs j = []) → after.length < rounds →
      Lives g logs i off e → (∀ off', logSize before ≤ off' → After i off j off') →
      Compared g kv logs i off e j (logSize before)
        (verifyAgainst (e.node i off) j rounds (logSize before) kv)
  | 0, after, before, _, _, _, _, _, enough, _, _ => by simp at enough
  | rounds + 1, after, before, kv, logs, rep, within, log_eq, enough, lives, ordered => by
    have ends (behind : logSize (logs j) ≤ logSize before) :
        Compared g kv logs i off e j (logSize before)
          (verifyAgainst (e.node i off) j (rounds + 1) (logSize before) kv) := by
      refine ⟨false, kv, logs, ?_, .refl rep, by simp, fun _ => ⟨lives, ?_⟩⟩
      · rw [verifyAgainst, (rep.placed within).search_end behind]
        rfl
      rintro off' low ⟨_, x, _, xLives, -⟩
      have inside := xLives.inside
      have bounds := x.size_bounds
      omega
    rcases log_eq with log_eq | empty
    · cases after with
      | nil =>
        rw [append_nil] at log_eq
        exact ends (Nat.le_of_eq (by rw [log_eq]))
      | cons e' after =>
        have placed := rep.placed_split within log_eq
        have next_eq : (e'.node j (logSize before)).nextOffset = logSize (before ++ [e']) := by
          simp [Entry.node]
        simp only [length_cons, Nat.add_lt_add_iff_right] at enough
        -- the rest of the loop, from a store in which `e'` does not clash any more
        have continue_ (kv₁ : Kvset) (logs₁ : Nat → List Entry)
            (prunes : Prunes g kv logs kv₁ logs₁)
            (log_eq₁ : ∃ before₁, logSize before₁ = logSize (before ++ [e']) ∧
              (logs₁ j = before₁ ++ after ∨ logs₁ j = []))
            (lives₁ : Lives g logs₁ i off e)
            (agree : ¬ ClashAt g logs₁ i off j (logSize before)) :
            Compared g kv logs i off e j (logSize before)
              (verifyAgainst (e.node i off) j rounds (logSize (before ++ [e'])) kv₁) := by
          obtain ⟨before₁, size_eq, shape⟩ := log_eq₁
          obtain ⟨removed, kv', logs', loop, prunes', gone, kept⟩ :=
            verifyAgainst_spec rounds after before₁ kv₁ logs₁ prunes.rep within shape enough
              lives₁ fun off' low => ordered off' (by
                rw [size_eq, logSize_append] at low
                omega)
          rw [size_eq] at loop
          refine ⟨removed, kv', logs', loop, prunes.trans prunes', gone, fun stays => ?_⟩
          obtain ⟨lives', clear⟩ := kept stays
          refine ⟨lives', fun off' low clash => ?_⟩
          obtain ⟨_, x, _, xLives, -⟩ := id clash
          have xLives' := prunes.sub (prunes'.sub xLives)
          rcases xLives'.at_or_behind log_eq low with ⟨rfl, -⟩ | behind
          · exact agree (prunes'.clash clash)
          · exact clear off' (by rw [size_eq]; exact behind) clash
        rw [verifyAgainst, placed.search_split]
        simp only [bind, Except.bind, if_true, Entry.node_valid]
        cases live : e'.live with
        | false =>
          rw [if_neg Bool.false_ne_true, next_eq]
          refine continue_ kv logs (.refl rep)
            ⟨before ++ [e'], rfl, .inl (by rw [log_eq]; simp)⟩ lives ?_
          rintro ⟨_, x, _, ⟨_, xLive, first, rest, equal, size_eq⟩, -⟩
          rw [log_eq] at equal
          rw [← (split_unique equal size_eq.symm).2.1, live] at xLive
          exact Bool.false_ne_true xLive
        | true =>
          have checked := kvblockCheckVersion_spec rep lives within live log_eq
            (ordered _ (Nat.le_refl _))
          rw [if_pos rfl, next_eq]
          generalize kvblockCheckVersion kv _ _ = result at checked
          cases checked with
          | same agree =>
            exact continue_ kv logs (.refl rep)
              ⟨before ++ [e'], rfl, .inl (by rw [log_eq]; simp)⟩ lives agree
          | first prunes gone =>
            exact ⟨true, _, _, rfl, prunes, fun _ => gone, by simp⟩
          | second prunes kept =>
            refine continue_ _ _ prunes ⟨before ++ [e'.kill], by simp, ?_⟩ kept ?_
            · rw [update_self]
              unfold removeEntry
              split
              · exact .inl (by simp)
              · exact .inr rfl
            · rintro ⟨_, x, _, xLives, -⟩
              exact ((lives_remove within live log_eq).mp xLives).2 ⟨rfl, rfl⟩
    · exact ends (by rw [empty]; exact Nat.zero_le _)

def Clear (g : Geometry) (logs : Nat → List Entry) (i off : Nat) : Prop :=
  ∀ j off', After i off j off' → ¬ ClashAt g logs i off j off'

theorem Prunes.clear (prunes : Prunes g kv logs kv' logs') (clear : Clear g logs i off) :
    Clear g logs' i off :=
  fun j off' ordered clash => clear j off' ordered (prunes.clash clash)

theorem verifyBlocks_spec : ∀ (left j : Nat) (kv : Kvset) (logs : Nat → List Entry),
    Rep g kv logs → j + left = g.num → i ≤ j → Lives g logs i off e →
      (∀ j' off', j' < j → After i off j' off' → ¬ ClashAt g logs i off j' off') →
      ∃ kv' logs', verifyBlocks (e.node i off) i left j kv = .ok kv' ∧
        Prunes g kv logs kv' logs' ∧ Clear g logs' i off
  | 0, j, kv, logs, rep, total, _, lives, earlier => by
    refine ⟨kv, logs, rfl, .refl rep, fun j' off' ordered clash => ?_⟩
    obtain ⟨_, _, _, lives', -⟩ := id clash
    have := lives'.within
    exact earlier j' off' (by omega) ordered clash
  | left + 1, j, kv, logs, rep, total, from_, lives, earlier => by
    have within : j < g.num := by omega
    have rounds := (rep.placed within).rounds
    -- the offset at which the second block is entered is that of an entry
    obtain ⟨before, after, log_eq, start, later, ordered⟩ :
        ∃ before after, logs j = before ++ after ∧
          (if j = i then (e.node i off).nextOffset else 0) = logSize before ∧
          (∀ off', logSize before ≤ off' → After i off j off') ∧
          ∀ off' x, Lives g logs j off' x → After i off j off' → logSize before ≤ off' := by
      by_cases same : j = i
      · obtain ⟨_, _, before, after, log_eq, rfl⟩ := id lives
        subst same
        have bounds := e.size_bounds
        refine ⟨before ++ [e], after, by rw [log_eq]; simp, by simp [Entry.node],
          fun off' low => .inr ⟨rfl, ?_⟩, fun off' x xLives after_ => ?_⟩
        · simp only [logSize_append, logSize_cons, logSize_nil] at low
          omega
        rcases after_ with less | ⟨-, less⟩
        · exact absurd less (Nat.lt_irrefl _)
        · rcases xLives.at_or_behind log_eq (Nat.le_of_lt less) with ⟨rfl, -⟩ | behind
          · exact absurd less (Nat.lt_irrefl _)
          · exact behind
      · exact ⟨[], logs j, rfl, by rw [if_neg same]; rfl, fun off' _ => .inl (by omega),
          fun off' _ _ _ => Nat.zero_le _⟩
    have short : after.length < (kv.blocks j).size + 1 := by
      rw [log_eq, length_append] at rounds
      omega
    obtain ⟨removed, kv₁, logs₁, loop, prunes, gone, kept⟩ :=
      verifyAgainst_spec _ after before kv logs rep within (.inl log_eq) short lives later
    rw [verifyBlocks, start, loop]
    cases removed with
    | true =>
      refine ⟨kv₁, logs₁, rfl, prunes, ?_⟩
      rintro j' off' _ ⟨x, _, xLives, -⟩
      exact gone rfl x xLives
    | false =>
      obtain ⟨lives₁, clear⟩ := kept rfl
      have checked : ∀ j' off', j' < j + 1 → After i off j' off' →
          ¬ ClashAt g logs₁ i off j' off' := by
        intro j' off' less after_ clash
        rcases Nat.lt_succ_iff_lt_or_eq.mp less with before_ | rfl
        · exact earlier j' off' before_ after_ (prunes.clash clash)
        · obtain ⟨_, x, _, xLives, -⟩ := id clash
          exact clear off' (ordered off' x (prunes.sub xLives) after_) clash
      obtain ⟨kv', logs', rest, prunes', clear'⟩ := verifyBlocks_spec left _ kv₁ logs₁
        prunes.rep (by omega) (by omega) lives₁ checked
      exact ⟨kv', logs', rest, prunes.trans prunes', clear'⟩

theorem logSize_map_kill (log : List Entry) : logSize (log.map Entry.kill) = logSize log := by
  induction log with
  | nil => rfl
  | cons e log ih => simp [ih]

theorem shape_split {log : List Entry}
    (shape : log.map Entry.kill = (before ++ e :: after).map Entry.kill) :
    ∃ before' after', log = before' ++ after' ∧ logSize before' = logSize (before ++ [e]) ∧
      after'.length = after.length := by
  rw [append_cons_assoc, map_append] at shape
  obtain ⟨before', after', rfl, first, second⟩ := map_eq_append_iff.mp shape
  refine ⟨before', after', rfl, ?_, ?_⟩
  · rw [← logSize_map_kill, first, logSize_map_kill]
  · rw [← length_map, second, length_map]

theorem verifyBlock_spec : ∀ (rounds : Nat) (after before : List Entry) (kv : Kvset)
    (logs : Nat → List Entry), Rep g kv logs → i < g.num →
      (logs i = before ++ after ∨ logs i = []) → after.length < rounds →
      (∀ off < logSize before, Clear g logs i off) →
      ∃ kv' logs', verifyBlock i rounds (logSize before) kv = .ok kv' ∧
        Prunes g kv logs kv' logs' ∧ ∀ off, Clear g logs' i off
  | 0, after, before, _, _, _, _, _, enough, _ => by simp at enough
  | rounds + 1, after, before, kv, logs, rep, within, log_eq, enough, earlier => by
    have ends (behind : logSize (logs i) ≤ logSize before) :
        ∃ kv' logs', verifyBlock i (rounds + 1) (logSize before) kv = .ok kv' ∧
          Prunes g kv logs kv' logs' ∧ ∀ off, Clear g logs' i off := by
      refine ⟨kv, logs, ?_, .refl rep, fun off j off' ordered clash => ?_⟩
      · rw [verifyBlock, (rep.placed within).search_end behind]
        rfl
      obtain ⟨x, _, xLives, -⟩ := id clash
      have inside := xLives.inside
      have bounds := x.size_bounds
      exact earlier off (by omega) j off' ordered clash
    rcases log_eq with log_eq | empty
    · cases after with
      | nil =>
        rw [append_nil] at log_eq
        exact ends (Nat.le_of_eq (by rw [log_eq]))
      | cons e after =>
        have placed := rep.placed_split within log_eq
        have next_eq : (e.node i (logSize before)).nextOffset = logSize (before ++ [e]) := by
          simp [Entry.node]
        simp only [length_cons, Nat.add_lt_add_iff_right] at enough
        -- the rest of the loop, once the place of `e` is clear
        have continue_ (kv₁ : Kvset) (logs₁ : Nat → List Entry)
            (prunes : Prunes g kv logs kv₁ logs₁) (here : Clear g logs₁ i (logSize before)) :
            ∃ kv' logs', verifyBlock i rounds (logSize (before ++ [e])) kv₁ = .ok kv' ∧
              Prunes g kv logs kv' logs' ∧ ∀ off, Clear g logs' i off := by
          obtain ⟨before₁, after₁, shape, size_eq, length_eq⟩ : ∃ before₁ after₁,
              (logs₁ i = before₁ ++ after₁ ∨ logs₁ i = []) ∧
              logSize before₁ = logSize _ ∧ after₁.length = after.length := by
            rcases prunes.shape i with empty | shape
            · exact ⟨before ++ [e], after, .inr empty, rfl, rfl⟩
            · rw [log_eq] at shape
              obtain ⟨before₁, after₁, split, sizes⟩ := shape_split shape
              exact ⟨before₁, after₁, .inl split, sizes⟩
          have earlier₁ : ∀ off < logSize before₁, Clear g logs₁ i off := by
            intro off less j off' ordered clash
            rcases Nat.lt_or_ge off _ with below | above
            · exact prunes.clear (earlier off below) j off' ordered clash
            obtain ⟨x, _, xLives, -⟩ := id clash
            rcases (prunes.sub xLives).at_or_behind log_eq above with ⟨rfl, -⟩ | behind
            · exact here j off' ordered clash
            · omega
          obtain ⟨kv', logs', loop, prunes', clear⟩ := verifyBlock_spec rounds after₁ before₁
            kv₁ logs₁ prunes.rep within shape (by omega) earlier₁
          rw [size_eq] at loop
          exact ⟨kv', logs', loop, prunes.trans prunes', clear⟩
        rw [verifyBlock, placed.search_split]
        simp only [bind, Except.bind, if_true, Entry.node_valid]
        cases live : e.live with
        | false =>
          rw [if_neg Bool.false_ne_true, next_eq]
          refine continue_ kv logs (.refl rep) ?_
          rintro j off' - ⟨x, _, ⟨_, xLive, first, rest, equal, size_eq⟩, -⟩
          rw [log_eq] at equal
          rw [← (split_unique equal size_eq.symm).2.1, live] at xLive
          exact Bool.false_ne_true xLive
        | true =>
          have lives : Lives g logs i _ e :=
            ⟨within, live, before, after, log_eq, rfl⟩
          obtain ⟨kv₁, logs₁, loop, prunes, clear⟩ := verifyBlocks_spec (kv.num - i) i kv logs
            rep (by rw [rep.num]; omega) (Nat.le_refl _) lives (by
              rintro j' off' less (more | ⟨rfl, -⟩) <;> omega)
          rw [if_pos rfl, loop]
          simp only [next_eq]
          exact continue_ kv₁ logs₁ prunes clear
    · exact ends (by rw [empty]; exact Nat.zero_le _)

theorem verifyFrom_spec : ∀ (left i : Nat) (kv : Kvset) (logs : Nat → List Entry),
    Rep g kv logs → i + left = g.num → (∀ j < i, ∀ off, Clear g logs j off) →
      ∃ kv' logs', verifyFrom left i kv = .ok kv' ∧ Prunes g kv logs kv' logs' ∧ ClashFree g logs'
  | 0, i, kv, logs, rep, total, earlier => by
    refine ⟨kv, logs, rfl, .refl rep, fun j off j' off' ordered clash => ?_⟩
    obtain ⟨_, _, lives, -⟩ := id clash
    have := lives.within
    exact earlier j (by omega) off j' off' ordered clash
  | left + 1, i, kv, logs, rep, total, earlier => by
    have within : i < g.num := by omega
    obtain ⟨kv₁, logs₁, loop, prunes, clear⟩ := verifyBlock_spec _ _ [] kv logs rep within
      (.inl rfl) (rep.placed within).rounds (by simp)
    have earlier₁ : ∀ j < i + 1, ∀ off, Clear g logs₁ j off := by
      intro j less off
      rcases Nat.lt_succ_iff_lt_or_eq.mp less with before | rfl
      · exact prunes.clear (earlier j before off)
      · exact clear off
    obtain ⟨kv', logs', rest, prunes', free⟩ :=
      verifyFrom_spec left _ kv₁ logs₁ prunes.rep (by omega) earlier₁
    refine ⟨kv', logs', ?_, prunes.trans prunes', free⟩
    rw [logSize_nil] at loop
    rw [verifyFrom, loop]
    exact rest

theorem kvVerify_spec (rep : Rep g kv logs) :
    ∃ kv' logs', kvVerify kv = .ok kv' ∧ Prunes g kv logs kv' logs' ∧ ClashFree g logs' := by
  unfold kvVerify
  rw [rep.num]
  exact verifyFrom_spec g.num 0 kv logs rep (by omega) (by simp)

/-! ## One stale entry -/

theorem Unique.clashFree (unique : Unique g logs) : ClashFree g logs := by
  rintro i off j off' ordered ⟨e, e', lives, lives', key_eq, -⟩
  obtain ⟨rfl, rfl⟩ := unique lives lives' key_eq
  rcases ordered with less | ⟨-, less⟩ <;> exact absurd less (Nat.lt_irrefl _)

def LivesBut (g : Geometry) (logs : Nat → List Entry) (i off j off' : Nat) (e : Entry) : Prop :=
  Lives g logs j off' e ∧ ¬ (j = i ∧ off' = off)

/-- The entry at a place is older than another of its key, and the others have
different keys. -/
structure Stale (g : Geometry) (logs : Nat → List Entry) (i off : Nat) (e : Entry) : Prop where
  lives : Lives g logs i off e
  newer : ∃ j off' e', LivesBut g logs i off j off' e' ∧ e'.key = e.key ∧
    olderNode e.version e'.version = some .first
  others : ∀ ⦃j off' e' j' off'' e''⦄, LivesBut g logs i off j off' e' →
    LivesBut g logs i off j' off'' e'' → e'.key = e''.key → j = j' ∧ off' = off''

theorem after_or_after (apart : ¬ (j = i ∧ off' = off)) :
    After i off j off' ∨ After j off' i off := by
  unfold After
  omega

theorem Prunes.stale (prunes : Prunes g kv logs kv' logs') (free : ClashFree g logs')
    (stale : Stale g logs i off e) {x : Entry} :
    Lives g logs' j off' x ↔ LivesBut g logs i off j off' x := by
  obtain ⟨jn, offn, en, livesNew, keyNew, older⟩ := stale.newer
  have fresh : olderNode en.version e.version = some .second := (olderNode_swap _ _).mp older
  -- an entry other than the stale one is not shadowed: its only rival is the stale one
  have kept : ∀ j off' x, LivesBut g logs i off j off' x → Lives g logs' j off' x := by
    intro j off' x lives
    rcases prunes.shadow lives.1 with kept | ⟨j', off'', y, apart, yLives, key_eq, shadowed⟩
    · exact kept
    by_cases here : j' = i ∧ off'' = off
    · obtain ⟨rfl, rfl⟩ := here
      rw [← stale.lives.entry_unique yLives] at key_eq shadowed
      obtain ⟨rfl, rfl⟩ := stale.others lives livesNew (key_eq.symm.trans keyNew.symm)
      rw [lives.1.entry_unique livesNew.1, fresh] at shadowed
      exact absurd shadowed (by decide)
    · exact absurd (stale.others ⟨yLives, here⟩ lives key_eq) apart
  constructor
  · intro lives
    refine ⟨prunes.sub lives, ?_⟩
    rintro ⟨rfl, rfl⟩
    -- were the stale entry still there, it would clash with the newer one
    have newLives := kept jn offn en livesNew
    rw [(prunes.sub lives).entry_unique stale.lives] at lives
    rcases after_or_after livesNew.2 with ordered | ordered
    · exact free _ _ _ _ ordered ⟨e, en, lives, newLives, keyNew.symm, by rw [older]; simp⟩
    · exact free _ _ _ _ ordered ⟨en, e, newLives, lives, keyNew, by rw [fresh]; simp⟩
  · exact kept j off' x

end Phy6212.Kv
