import Phy6212.IrNec.Train

/-!
# What a receiver makes of a transmission

A receiver of the NEC protocol reads bits from durations (`necBit`, `octets`).
-/

namespace Phy6212.IrNec

open List

/-- The bit that a carrier and a pause of the given durations stand for. -/
def necBit : Nat × Nat → Option Bool
  | (on, off) =>
    if on = 560 ∧ off = 560 then some false
    else if on = 560 ∧ off = 1690 then some true
    else none

def octet (bits : List Bool) : UInt8 :=
  bits.foldr (fun bit byte => 2 * byte + if bit then 1 else 0) 0

def octets : List Bool → List UInt8
  | b0 :: b1 :: b2 :: b3 :: b4 :: b5 :: b6 :: b7 :: rest =>
    octet [b0, b1, b2, b3, b4, b5, b6, b7] :: octets rest
  | _ => []

/-- The durations of the carrier and of the pause behind it, for each complete code. -/
def periods : List Pulse → List (Nat × Nat)
  | .mark _ on :: .space off :: rest => (on, off) :: periods rest
  | _ => []

/-- What the codes at the positions 1 to 32 of a transmission decode to. -/
def received (pulses : List Pulse) : Option (List UInt8) :=
  ((((periods pulses).drop 1).take 32).mapM necBit).map octets

def period (code : Code) : Nat × Nat := ((necCodeParam code).h, (necCodeParam code).l)

def sounded (codes : List Code) : List Pulse :=
  codes.flatMap fun code => [.mark code (necCodeParam code).h, .space (necCodeParam code).l]

/-- The pulses are those of the train, and in the middle of a code its pause is still to come. -/
def Sounds (custom key : UInt8) (s : Transmitter) : Progress → Prop
  | .sending n _ =>
    if n % 2 = 1 then
      s.code = codeAt custom key (n / 2) ∧
        s.pulses = sounded (train custom key (n / 2)) ++
          [.mark (codeAt custom key (n / 2)) (necCodeParam (codeAt custom key (n / 2))).h]
    else s.pulses = sounded (train custom key (n / 2))
  | .idle m => s.pulses = sounded (train custom key m)

variable {custom key : UInt8} {s : Transmitter}

theorem sounded_train_succ (m : Nat) :
    sounded (train custom key (m + 1)) = sounded (train custom key m) ++
      [.mark (codeAt custom key m) (necCodeParam (codeAt custom key m)).h] ++
      [.space (necCodeParam (codeAt custom key m)).l] := by
  rw [train_succ, sounded, flatMap_append]
  simp [sounded]

theorem irTimerCallback_pulses (high : s.isHighPeriod = true) :
    (irTimerCallback s).pulses = s.pulses ++ [.space (necCodeParam s.code).l] := by
  rw [irTimerCallback, if_neg (by rw [high]; decide)]
  dsimp only
  split
  · split
    · split <;> rfl
    · rfl
  · split
    · split <;> rfl
    · rfl

theorem sounds_mark {n : Nat} {pending : Bool}
    (held : Represents custom key s (.sending n pending)) (even : n % 2 = 0)
    (sounds : Sounds custom key s (.sending n pending)) :
    Sounds custom key (irTimerCallback s) (.sending (n + 1) pending) := by
  obtain ⟨-, -, -, -, codes, high, index, -, -⟩ := held
  have low : s.isHighPeriod = false := by rw [high, even]; rfl
  have half : (n + 1) / 2 = n / 2 := by omega
  have next : s.codes.getD s.index .d0 = codeAt custom key (n / 2) := by
    rw [codes, index]
    rfl
  rw [Sounds, if_neg (by omega)] at sounds
  rw [Sounds, if_pos (by omega), half, irTimerCallback, if_pos low]
  refine ⟨next, ?_⟩
  simp only [next, sounds]

theorem sounds_space {n : Nat} {pending : Bool}
    (held : Represents custom key s (.sending n pending)) (odd : n % 2 = 1)
    (sounds : Sounds custom key s (.sending n pending)) :
    (irTimerCallback s).pulses = sounded (train custom key (n / 2 + 1)) := by
  obtain ⟨-, -, -, -, -, high, -⟩ := held
  rw [Sounds, if_pos odd] at sounds
  rw [irTimerCallback_pulses (by rw [high, odd]; rfl), sounds.1, sounds.2, sounded_train_succ]

theorem sounds_step {p : Progress} (held : Represents custom key s p)
    (sounds : Sounds custom key s p)
    (a : Action) : Sounds custom key (s.step a) (p.step a) := by
  cases p with
  | idle m =>
    cases a with
    | tick =>
      rw [Transmitter.step, held.2.1]
      exact sounds
    | stopSend => exact sounds
  | sending n pending =>
    cases a with
    | tick =>
      rw [Transmitter.step, if_pos held.2.2.1, Progress.step]
      rcases Nat.mod_two_eq_zero_or_one n with even | odd
      · rw [if_neg (by omega)]
        exact sounds_mark held even sounds
      have pulses := sounds_space held odd sounds
      split
      · exact pulses
      · rw [Sounds, if_neg (by omega), pulses]
        congr 2
        omega
    | stopSend => exact sounds

theorem sounds_run {p : Progress} (as : List Action) (held : Represents custom key s p)
    (sounds : Sounds custom key s p) :
    Sounds custom key (as.foldl Transmitter.step s) (as.foldl Progress.step p) := by
  induction as generalizing s p with
  | nil => exact sounds
  | cons a as ih => exact ih (represents_step held a) (sounds_step held sounds a)

theorem sounds_start {timerOk : Bool} (started : (irNecStartSend s custom key timerOk).1 = 0) :
    Sounds custom key (irNecStartSend s custom key timerOk).2 (.sending 1 false) := by
  unfold irNecStartSend at started ⊢
  split at started
  · cases started
  rename_i free
  cases timerOk with
  | false => cases started
  | true =>
    rw [if_neg free]
    exact ⟨rfl, rfl⟩

variable (custom key : UInt8) (codes : List Code) (byte : UInt8)

theorem periods_sounded (rest : List Pulse) :
    periods (sounded codes ++ rest) = codes.map period ++ periods rest := by
  induction codes with
  | nil => rfl
  | cons code codes ih =>
    rw [map_cons, cons_append, ← ih]
    rfl

theorem periods_whole : periods (sounded codes) = codes.map period := by
  have whole := periods_sounded codes []
  rwa [append_nil, show periods [] = [] from rfl, append_nil] at whole

theorem periods_half (code : Code) (on : Nat) :
    periods (sounded codes ++ [.mark code on]) = codes.map period := by
  rw [periods_sounded, show periods [.mark code on] = [] from rfl, append_nil]

theorem periods_run {timerOk : Bool} (started : (irNecStartSend s custom key timerOk).1 = 0)
    {as : List Action} (enough : 65 ≤ as.count .tick) :
    ∃ m, 33 ≤ m ∧
      periods (as.foldl Transmitter.step (irNecStartSend s custom key timerOk).2).pulses =
        (train custom key m).map period := by
  have sounds := sounds_run as (represents_start started) (sounds_start started)
  cases place : as.foldl Progress.step (.sending 1 false) with
  | sending n pending =>
    obtain ⟨counted, -⟩ := sending_run as (by decide) place
    refine ⟨n / 2, by omega, ?_⟩
    rw [place, Sounds] at sounds
    split at sounds
    · rw [sounds.2, periods_half]
    · rw [sounds, periods_whole]
  | idle m =>
    have last := idle_run as (by decide) place
    refine ⟨m, ?_, ?_⟩
    · rw [last, ending]
      split <;> omega
    · rw [place] at sounds
      rw [← periods_whole]
      exact congrArg periods sounds

theorem train_data {m : Nat} (enough : 33 ≤ m) :
    ((train custom key m).drop 1).take 32 =
      byteCodes custom ++ byteCodes (~~~custom) ++ byteCodes key ++ byteCodes (~~~key) := by
  have first : (train custom key m).take 33 = train custom key 33 := by
    rw [train, ← map_take, take_range, Nat.min_eq_left enough, train]
  rw [take_drop, first]
  rfl

theorem necBit_period (bits : List Bool) :
    ((bits.map fun bit => if bit then Code.d1 else Code.d0).map period).mapM necBit =
      some (bits.map not) := by
  induction bits with
  | nil => rfl
  | cons bit bits ih =>
    rw [map_cons, map_cons, mapM_cons, ih]
    cases bit <;> rfl

def bitsOf (byte : UInt8) : List Bool := (range 8).map byte.toBitVec.getLsbD

theorem byteCodes_eq :
    byteCodes byte = (bitsOf byte).map fun bit => if bit then Code.d1 else Code.d0 := by
  rfl

theorem octet_not_bitsOf : octet ((bitsOf byte).map not) = ~~~byte := by
  have all : ∀ n < 256, octet ((bitsOf (UInt8.ofNat n)).map not) = ~~~UInt8.ofNat n := by
    decide +kernel
  have value := all byte.toNat byte.toNat_lt
  rwa [UInt8.ofNat_toNat] at value

theorem octets_append (rest : List Bool) :
    octets ((bitsOf byte).map not ++ rest) = (~~~byte) :: octets rest := by
  rw [← octet_not_bitsOf]
  rfl

theorem received_complement (s : Transmitter) (custom key : UInt8) (timerOk : Bool)
    (started : (irNecStartSend s custom key timerOk).1 = 0) (as : List Action)
    (enough : 65 ≤ as.count .tick) :
    let t := as.foldl Transmitter.step (irNecStartSend s custom key timerOk).2
    received t.pulses = some [~~~custom, custom, ~~~key, key] ∧
      received t.pulses ≠ some [custom, ~~~custom, key, ~~~key] := by
  intro t
  obtain ⟨m, many, durations⟩ := periods_run custom key started enough
  have read : received t.pulses = some [~~~custom, custom, ~~~key, key] := by
    rw [received, show periods t.pulses = _ from durations, ← map_drop, ← map_take,
      train_data custom key many, byteCodes_eq, byteCodes_eq, byteCodes_eq, byteCodes_eq,
      ← map_append, ← map_append, ← map_append, necBit_period, Option.map_some,
      map_append, map_append, map_append, append_assoc, append_assoc,
      octets_append, octets_append, octets_append, ← append_nil (map not _), octets_append]
    simp [octets]
  refine ⟨read, ?_⟩
  rw [read]
  intro same
  have first : ~~~custom = custom := (List.cons.inj (Option.some.inj same)).1
  have bit := congrArg (fun byte => byte.toBitVec.getLsbD 0) first
  simp at bit

theorem received_complement_once :
    let t := (replicate 65 .tick).foldl Transmitter.step
      (irNecStartSend Transmitter.init 0x40 0x15 true).2
    received t.pulses = some [0xBF, 0x40, 0xEA, 0x15] ∧
      received t.pulses ≠ some [0x40, 0xBF, 0x15, 0xEA] :=
  received_complement Transmitter.init 0x40 0x15 true rfl _
    (Nat.le_of_eq count_replicate_self.symm)

/-- **The bytes are inverted**: the bytes 0x40 and 0x15 arrive as their complements. -/
theorem bytes_inverted :
    let t := (replicate 65 .tick).foldl Transmitter.step
      (irNecStartSend Transmitter.init 0x40 0x15 true).2
    (irNecStartSend Transmitter.init 0x40 0x15 true).1 = 0 ∧
      received t.pulses = some [0xBF, 0x40, 0xEA, 0x15] := by
  decide +kernel

end Phy6212.IrNec
