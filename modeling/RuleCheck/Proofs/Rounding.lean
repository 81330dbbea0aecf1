import Mathlib.Tactic.Ring
import RuleCheck.Binary64.Basic

/-!
# Integers in double precision

A positive integer with leading bit `2 ^ e` is rounded to a whole number of `2 ^ (e - 52)`. So every
integer of at most 64 bits becomes a finite number, one below `2 ^ 53` keeps its value, and all
others become numbers that are at least `2 ^ 53`. Hence an integer below `2 ^ 53` never meets
another integer in double precision; above, neighbours do.
-/

namespace RuleCheck.Binary64

/-- A significand counted from the beginning of its binade. The largest count is already the
beginning of the next binade. -/
theorem units_add {count : Nat} (spare : Nat) (normal : 2 ^ 52 ≤ count) (within : count ≤ 2 ^ 53) :
    units (spare * 2 ^ 52 + count) = count * 2 ^ spare := by
  have hpast : ¬ spare * 2 ^ 52 + count < 2 ^ 52 := by omega
  unfold units
  simp only [Nat.pow_eq]
  rw [if_neg hpast]
  rcases Nat.eq_or_lt_of_le within with rfl | hbelow
  · have hquotient : (spare * 2 ^ 52 + 2 ^ 53) / 2 ^ 52 = spare + 2 := by omega
    have hremainder : (spare * 2 ^ 52 + 2 ^ 53) % 2 ^ 52 = 0 := by omega
    rw [hquotient, hremainder, Nat.add_sub_assoc (by decide), Nat.pow_succ]
    ring
  · have hquotient : (spare * 2 ^ 52 + count) / 2 ^ 52 = spare + 1 := by omega
    have hremainder : (spare * 2 ^ 52 + count) % 2 ^ 52 = count - 2 ^ 52 := by omega
    rw [hquotient, hremainder, Nat.add_sub_cancel, Nat.add_sub_cancel' normal]

theorem div_le_roundHalfEven (numerator denominator : Nat) :
    numerator / denominator ≤ roundHalfEven numerator denominator := by
  simp only [roundHalfEven]
  split_ifs <;> omega

theorem roundHalfEven_le_div_succ (numerator denominator : Nat) :
    roundHalfEven numerator denominator ≤ numerator / denominator + 1 := by
  simp only [roundHalfEven]
  split_ifs <;> omega

/-- A whole quotient stays as it is. -/
theorem roundHalfEven_mul (count : Nat) {denominator : Nat} (pos : 0 < denominator) :
    roundHalfEven (count * denominator) denominator = count := by
  simp only [roundHalfEven]
  rw [Nat.mul_mod_left, Nat.mul_zero, if_pos pos, Nat.mul_div_cancel count pos]

/-- The number of units in one, with its exponent kept as a variable: the number itself is too long
to be written out. -/
theorem exists_unitsPerOne_eq : ∃ exponent, exponent = 1074 ∧ unitsPerOne = 2 ^ exponent := by
  unfold unitsPerOne
  generalize 1074 = exponent
  exact ⟨exponent, rfl, Nat.pow_eq⟩

theorem unitsPerOne_pos : 0 < unitsPerOne := by
  obtain ⟨exponent, -, hunits⟩ := exists_unitsPerOne_eq
  rw [hunits]
  exact Nat.two_pow_pos exponent

/-- How many units of `2 ^ (-1074)` the last bit of a rounded integer is worth, as a power of two. -/
def lastBit (value : Nat) : Nat :=
  Nat.log2 value + 1022

def significand (value : Nat) : Nat :=
  roundHalfEven (value * unitsPerOne) (2 ^ lastBit value)

section Integers

variable {value : Nat} (pos : 0 < value)

include pos

/-- An integer in units lies in the binade that belongs to its leading bit. -/
theorem binade_bounds :
    2 ^ (52 + lastBit value) ≤ value * unitsPerOne ∧
      value * unitsPerOne < 2 ^ (53 + lastBit value) := by
  have hlead : 2 ^ Nat.log2 value ≤ value := Nat.log2_self_le (Nat.ne_of_gt pos)
  have htrail : value < 2 ^ (Nat.log2 value + 1) := Nat.lt_log2_self
  obtain ⟨exponent, hexponent, hunits⟩ := exists_unitsPerOne_eq
  have hlast : 52 + lastBit value = Nat.log2 value + exponent := by
    rw [lastBit]
    omega
  rw [hunits]
  constructor
  · calc
      2 ^ (52 + lastBit value) = 2 ^ Nat.log2 value * 2 ^ exponent := by rw [hlast, Nat.pow_add]
      _ ≤ value * 2 ^ exponent := Nat.mul_le_mul_right _ hlead
  · calc
      value * 2 ^ exponent < 2 ^ (Nat.log2 value + 1) * 2 ^ exponent :=
        Nat.mul_lt_mul_of_pos_right htrail (Nat.pow_pos (by decide))
      _ = 2 ^ (53 + lastBit value) := by
        rw [← Nat.pow_add]
        exact congrArg (2 ^ ·) (by omega)

theorem log2_mul_unitsPerOne : Nat.log2 (value * unitsPerOne) = 52 + lastBit value := by
  obtain ⟨hlower, hupper⟩ := binade_bounds pos
  have hne : value * unitsPerOne ≠ 0 :=
    Nat.ne_of_gt (Nat.lt_of_lt_of_le (Nat.pow_pos (by decide)) hlower)
  rw [Nat.log2_eq_iff hne]
  exact ⟨hlower, by rwa [Nat.add_right_comm]⟩

/-- The significand has 53 bits, or is the first one that has more. -/
theorem significand_bounds : 2 ^ 52 ≤ significand value ∧ significand value ≤ 2 ^ 53 := by
  obtain ⟨hlower, hupper⟩ := binade_bounds pos
  have hpos : 0 < 2 ^ lastBit value := Nat.pow_pos (by decide)
  rw [Nat.pow_add] at hlower hupper
  have hquotient : 2 ^ 52 ≤ value * unitsPerOne / 2 ^ lastBit value :=
    (Nat.le_div_iff_mul_le hpos).2 hlower
  have hquotient' : value * unitsPerOne / 2 ^ lastBit value < 2 ^ 53 :=
    (Nat.div_lt_iff_lt_mul hpos).2 hupper
  constructor
  · exact Nat.le_trans hquotient (div_le_roundHalfEven _ _)
  · exact Nat.le_trans (roundHalfEven_le_div_succ _ _) hquotient'

/-- An integer of at most 64 bits becomes a finite number: its significand, so many bits to the
left. -/
theorem exists_ofRatio_one (negative : Bool) (fits : value < 2 ^ 64) :
    ∃ magnitude : Fin finiteMagnitudes, ofRatio negative value 1 = .finite negative magnitude ∧
      units magnitude = significand value * 2 ^ lastBit value := by
  obtain ⟨hlower, hupper⟩ := significand_bounds pos
  have hlead : Nat.log2 value < 64 := (Nat.log2_lt (Nat.ne_of_gt pos)).2 fits
  have hbound : lastBit value * 2 ^ 52 + significand value < finiteMagnitudes := by
    rw [finiteMagnitudes, Nat.pow_eq, lastBit]
    omega
  have hspare : Nat.log2 (value * unitsPerOne / 1) - 52 = lastBit value := by
    rw [Nat.div_one, log2_mul_unitsPerOne pos, Nat.add_sub_cancel_left]
  refine ⟨⟨lastBit value * 2 ^ 52 + significand value, hbound⟩, ?_, units_add _ hlower hupper⟩
  unfold ofRatio
  dsimp only
  rw [hspare, Nat.one_mul]
  exact dif_pos hbound

/-- Below `2 ^ 53` all bits are kept. -/
theorem significand_mul_of_lt (small : value < 2 ^ 53) :
    significand value * 2 ^ lastBit value = value * unitsPerOne := by
  have hlead : Nat.log2 value < 53 := (Nat.log2_lt (Nat.ne_of_gt pos)).2 small
  obtain ⟨exponent, hexponent, hunits⟩ := exists_unitsPerOne_eq
  have hspare : 52 - Nat.log2 value + lastBit value = exponent := by
    rw [lastBit]
    omega
  have hwhole : value * unitsPerOne = value * 2 ^ (52 - Nat.log2 value) * 2 ^ lastBit value := by
    rw [hunits, Nat.mul_assoc, ← Nat.pow_add, hspare]
  rw [significand, hwhole, roundHalfEven_mul _ (Nat.pow_pos (by decide))]

omit pos in
/-- From `2 ^ 53` on no integer is rounded below it. -/
theorem le_significand_mul (large : 2 ^ 53 ≤ value) :
    2 ^ 53 * unitsPerOne ≤ significand value * 2 ^ lastBit value := by
  have hpos : 0 < value := Nat.lt_of_lt_of_le (by decide) large
  have hlead : 53 ≤ Nat.log2 value := (Nat.le_log2 (Nat.ne_of_gt hpos)).2 large
  obtain ⟨exponent, hexponent, hunits⟩ := exists_unitsPerOne_eq
  have hlast : 53 + exponent ≤ 52 + lastBit value := by
    rw [lastBit]
    omega
  calc
    2 ^ 53 * unitsPerOne = 2 ^ (53 + exponent) := by rw [hunits, ← Nat.pow_add]
    _ ≤ 2 ^ (52 + lastBit value) := Nat.pow_le_pow_right (by decide) hlast
    _ = 2 ^ 52 * 2 ^ lastBit value := Nat.pow_add _ _ _
    _ ≤ significand value * 2 ^ lastBit value :=
      Nat.mul_le_mul_right _ (significand_bounds hpos).1

end Integers

variable {left right : Int}

theorem signed_natAbs (value : Int) (scale : Nat) :
    signed (decide (value < 0)) (value.natAbs * scale) = value * scale := by
  unfold signed
  by_cases hnegative : value < 0
  · rw [if_pos (decide_eq_true hnegative), Int.natCast_mul, Int.ofNat_natAbs_of_nonpos hnegative.le,
      neg_mul, neg_neg]
  · rw [if_neg (by simpa using hnegative), Int.natCast_mul, Int.natAbs_of_nonneg (not_lt.1 hnegative)]

@[simp] theorem natAbs_signed (negative : Bool) (count : Nat) :
    (signed negative count).natAbs = count := by
  cases negative <;> simp [signed]

@[simp] theorem ofInt_zero : ofInt 0 = zero := by
  decide +kernel

/-- An integer below `2 ^ 53` keeps its value. -/
theorem signedUnits_ofInt (small : left.natAbs < 2 ^ 53) :
    (ofInt left).signedUnits? = some (left * unitsPerOne) := by
  rcases Nat.eq_zero_or_pos left.natAbs with hzero | hpos
  · rw [Int.natAbs_eq_zero.1 hzero, zero_mul, ofInt_zero]
    rfl
  · obtain ⟨magnitude, hmagnitude, hunits⟩ :=
      exists_ofRatio_one hpos (decide (left < 0)) (small.trans (by decide))
    rw [ofInt, hmagnitude, signedUnits?, hunits, significand_mul_of_lt hpos small, signed_natAbs]

/-- An integer from `2 ^ 53` on is worth at least as much after rounding. -/
theorem exists_signedUnits_ofInt (large : 2 ^ 53 ≤ left.natAbs) (fits : left.natAbs < 2 ^ 64) :
    ∃ count, (ofInt left).signedUnits? = some count ∧ 2 ^ 53 * unitsPerOne ≤ count.natAbs := by
  obtain ⟨magnitude, hmagnitude, hunits⟩ :=
    exists_ofRatio_one (Nat.lt_of_lt_of_le (by decide) large) (decide (left < 0)) fits
  refine ⟨signed (decide (left < 0)) (units magnitude), ?_, ?_⟩
  · rw [ofInt, hmagnitude, signedUnits?]
  · rw [natAbs_signed, hunits]
    exact le_significand_mul large

/-- Finite numbers are equal exactly if they are worth the same. -/
theorem numEq_iff_of_signedUnits {number other : Binary64} {count count' : Int}
    (worth : number.signedUnits? = some count) (worth' : other.signedUnits? = some count') :
    number.numEq other = true ↔ count = count' := by
  cases number with
  | nan | infinity => cases worth
  | finite =>
    cases other with
    | nan | infinity => cases worth'
    | finite =>
      rw [numEq, compare?, beq_iff_eq, Option.some_inj, Int.compare_eq_eq,
        Option.some.inj worth, Option.some.inj worth']

/-- An integer below `2 ^ 53` does not become equal to another integer. -/
theorem eq_of_numEq_ofInt (small : left.natAbs < 2 ^ 53) (fits : right.natAbs < 2 ^ 64)
    (same : (ofInt left).numEq (ofInt right) = true) : left = right := by
  have hleft := signedUnits_ofInt small
  rcases Nat.lt_or_ge right.natAbs (2 ^ 53) with hsmall | hlarge
  · have hworth := (numEq_iff_of_signedUnits hleft (signedUnits_ofInt hsmall)).1 same
    exact mul_right_cancel₀ (Int.natCast_ne_zero.2 unitsPerOne_pos.ne') hworth
  · obtain ⟨count, hcount, hbound⟩ := exists_signedUnits_ofInt hlarge fits
    have hworth := (numEq_iff_of_signedUnits hleft hcount).1 same
    rw [← hworth, Int.natAbs_mul, Int.natAbs_natCast] at hbound
    have hle : 2 ^ 53 ≤ left.natAbs := Nat.le_of_mul_le_mul_right hbound unitsPerOne_pos
    exact absurd small (Nat.not_lt.2 hle)

end RuleCheck.Binary64
