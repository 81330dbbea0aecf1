import RuleCheck.Proofs.EqualityChains
import RuleCheck.Proofs.RangeOrder

/-!
# Ranges of rounded numbers

A range compares its limit and a value in double precision, also if both are integers. Rounding to
the nearest number is monotone and keeps what a number is worth, so it never turns an order around:
where two numbers are worth something different, a bound can only be mistaken by taking them for
equal. This takes an integer beyond `2 ^ 53` on one of the sides.
-/

namespace RuleCheck

variable {σ : Type}

namespace Binary64

theorem roundHalfEven_mono {count other : Nat} (le : count ≤ other) (denominator : Nat) :
    roundHalfEven count denominator ≤ roundHalfEven other denominator := by
  rcases Nat.eq_or_lt_of_le (Nat.div_le_div_right le : count / denominator ≤ _) with hsame | hbelow
  · have hremainder : count % denominator ≤ other % denominator := by
      have hcount := Nat.div_add_mod count denominator
      have hother := Nat.div_add_mod other denominator
      rw [hsame] at hcount
      omega
    simp only [roundHalfEven]
    rw [hsame]
    split_ifs <;> omega
  · calc
      roundHalfEven count denominator ≤ count / denominator + 1 := roundHalfEven_le_div_succ _ _
      _ ≤ other / denominator := hbelow
      _ ≤ roundHalfEven other denominator := div_le_roundHalfEven _ _

def spareBits (count : Nat) : Nat :=
  Nat.log2 count - 52

/-- The count of units that is nearest to the given one among those that fit, a tie going to the
even side. -/
def roundUnits (count : Nat) : Nat :=
  roundHalfEven count (2 ^ spareBits count) * 2 ^ spareBits count

variable {count other : Nat}

/-- Nothing is rounded if no bit is lost. -/
theorem roundUnits_of_dvd (whole : 2 ^ spareBits count ∣ count) : roundUnits count = count := by
  obtain ⟨kept, hkept⟩ := whole
  have hpos : 0 < 2 ^ spareBits count := Nat.two_pow_pos _
  unfold roundUnits
  generalize 2 ^ spareBits count = scale at *
  rw [hkept, Nat.mul_comm scale kept, roundHalfEven_mul kept hpos]

theorem roundUnits_le (count : Nat) : roundUnits count ≤ 2 ^ 53 * 2 ^ spareBits count := by
  have htrail : count < 2 ^ (Nat.log2 count + 1) := Nat.lt_log2_self
  have hfits : count < 2 ^ 53 * 2 ^ spareBits count := by
    refine htrail.trans_le ?_
    rw [← Nat.pow_add]
    refine Nat.pow_le_pow_right (by decide) ?_
    rw [spareBits]
    omega
  refine Nat.mul_le_mul_right _ ((roundHalfEven_le_div_succ _ _).trans ?_)
  exact (Nat.div_lt_iff_lt_mul (Nat.two_pow_pos _)).2 hfits

theorem le_roundUnits (spare : 0 < spareBits count) :
    2 ^ 52 * 2 ^ spareBits count ≤ roundUnits count := by
  have hne : count ≠ 0 := by
    rintro rfl
    simp [spareBits] at spare
  have hlead : 2 ^ 52 * 2 ^ spareBits count ≤ count := by
    refine le_trans ?_ (Nat.log2_self_le hne)
    rw [← Nat.pow_add]
    refine Nat.pow_le_pow_right (by decide) ?_
    rw [spareBits] at spare ⊢
    omega
  refine Nat.mul_le_mul_right _ (le_trans ?_ (div_le_roundHalfEven _ _))
  exact (Nat.le_div_iff_mul_le (Nat.two_pow_pos _)).2 hlead

theorem spareBits_mono : Monotone spareBits := by
  intro count other hle
  rcases Nat.eq_zero_or_pos count with rfl | hpos
  · simp [spareBits]
  · have hlog : Nat.log2 count ≤ Nat.log2 other :=
      (Nat.le_log2 (by omega)).2 ((Nat.log2_self_le (by omega)).trans hle)
    exact Nat.sub_le_sub_right hlog 52

/-- Rounding does not turn the order around. Within a binade the quotients are rounded alike, and
between binades there is a power of two that all rounding stops at. -/
theorem roundUnits_mono : Monotone roundUnits := by
  intro count other hle
  rcases Nat.eq_or_lt_of_le (spareBits_mono hle) with hsame | hbelow
  · unfold roundUnits
    rw [hsame]
    exact Nat.mul_le_mul_right _ (roundHalfEven_mono hle _)
  · calc
      roundUnits count ≤ 2 ^ 53 * 2 ^ spareBits count := roundUnits_le count
      _ = 2 ^ 52 * 2 ^ (spareBits count + 1) := by ring
      _ ≤ 2 ^ 52 * 2 ^ spareBits other :=
        Nat.mul_le_mul_left _ (Nat.pow_le_pow_right (by decide) hbelow)
      _ ≤ roundUnits other := le_roundUnits (by omega)

/-- What a magnitude is worth is not rounded. -/
theorem roundUnits_units (position : Nat) : roundUnits (units position) = units position := by
  refine roundUnits_of_dvd ?_
  have hdvd {count kept spare : Nat} (hcount : count = kept * 2 ^ spare) (hkept : kept < 2 ^ 53) :
      2 ^ spareBits count ∣ count := by
    rcases Nat.eq_zero_or_pos count with rfl | hpos
    · exact Nat.dvd_zero _
    have hlog : Nat.log2 count < 53 + spare := by
      rw [Nat.log2_lt (by omega), hcount, Nat.pow_add]
      exact Nat.mul_lt_mul_of_pos_right hkept (Nat.two_pow_pos _)
    have hspare : spareBits count ≤ spare := by
      rw [spareBits]
      omega
    conv_rhs => rw [hcount]
    exact Dvd.dvd.mul_left (Nat.pow_dvd_pow 2 hspare) kept
  unfold units
  simp only [Nat.pow_eq]
  split
  · next hsubnormal =>
    exact hdvd (show position = position * 2 ^ 0 by simp) (hsubnormal.trans (by decide))
  · refine hdvd rfl ?_
    have hremainder := Nat.mod_lt position (show 0 < 2 ^ 52 by decide)
    omega

theorem spareBits_mul_unitsPerOne {value : Nat} (pos : 0 < value) :
    spareBits (value * unitsPerOne) = lastBit value := by
  rw [spareBits, log2_mul_unitsPerOne pos, Nat.add_sub_cancel_left]

/-- An integer is rounded to its significand. -/
theorem roundUnits_mul_unitsPerOne {value : Nat} (pos : 0 < value) :
    roundUnits (value * unitsPerOne) = significand value * 2 ^ lastBit value := by
  rw [roundUnits, spareBits_mul_unitsPerOne pos, significand]

/-- Up to `2 ^ 53` integers keep their values. -/
theorem roundUnits_of_le {value : Nat} (small : value ≤ 2 ^ 53) :
    roundUnits (value * unitsPerOne) = value * unitsPerOne := by
  rcases Nat.eq_zero_or_pos value with rfl | hpos
  · rw [Nat.zero_mul]
    rfl
  rcases Nat.eq_or_lt_of_le small with rfl | hsmall
  · refine roundUnits_of_dvd ?_
    obtain ⟨exponent, hexponent, hunits⟩ := exists_unitsPerOne_eq
    rw [spareBits_mul_unitsPerOne hpos, hunits, ← Nat.pow_add]
    refine Nat.pow_dvd_pow 2 ?_
    rw [lastBit, Nat.log2_two_pow]
    omega
  · rw [roundUnits_mul_unitsPerOne hpos, significand_mul_of_lt hpos hsmall]

/-- Rounding of a signed count, away from and towards zero alike. -/
def roundCount (count : Int) : Int :=
  count.sign * roundUnits count.natAbs

theorem roundCount_neg (count : Int) : roundCount (-count) = -roundCount count := by
  simp [roundCount]

theorem roundCount_mono : Monotone roundCount := by
  refine monotone_of_odd_of_monotoneOn_nonneg roundCount_neg fun count hcount other hother hle ↦ ?_
  have hnonneg {count : Int} (hcount : 0 ≤ count) : roundCount count = roundUnits count.natAbs := by
    rcases hcount.eq_or_lt with rfl | hpos
    · rfl
    · rw [roundCount, Int.sign_eq_one_of_pos hpos, one_mul]
  have hsize : count.natAbs ≤ other.natAbs := by
    rw [Set.mem_Ici] at hcount
    omega
  rw [hnonneg hcount, hnonneg hother]
  exact Int.ofNat_le.2 (roundUnits_mono hsize)

theorem roundCount_eq {count : Int} (kept : roundUnits count.natAbs = count.natAbs) :
    roundCount count = count := by
  rw [roundCount, kept, Int.sign_mul_natAbs]

theorem roundCount_signed (negative : Bool) (position : Nat) :
    roundCount (signed negative (units position)) = signed negative (units position) :=
  roundCount_eq (by rw [natAbs_signed, roundUnits_units])

theorem signed_eq_sign_mul {value : Int} (ne : value ≠ 0) (count : Nat) :
    signed (decide (value < 0)) count = value.sign * count := by
  unfold signed
  rcases lt_or_gt_of_ne ne with hneg | hpos
  · rw [if_pos (decide_eq_true hneg), Int.sign_eq_neg_one_of_neg hneg, neg_one_mul]
  · rw [if_neg (by simpa using hpos.le), Int.sign_eq_one_of_pos hpos, one_mul]

/-- An integer in double precision is worth the nearest count of units. -/
theorem worth_ofInt {value : Int} (fits : value.natAbs < 2 ^ 64) :
    (ofInt value).worth? = some (roundCount (value * unitsPerOne) : Worth) := by
  rcases eq_or_ne value 0 with rfl | hne
  · rw [ofInt_zero, Int.zero_mul]
    rfl
  have hpos : 0 < value.natAbs := Int.natAbs_pos.2 hne
  obtain ⟨magnitude, hmagnitude, hunits⟩ := exists_ofRatio_one hpos (decide (value < 0)) fits
  have hcount : signed (decide (value < 0)) (units magnitude) =
      roundCount (value * unitsPerOne) := by
    rw [signed_eq_sign_mul hne, hunits, ← roundUnits_mul_unitsPerOne hpos, roundCount,
      Int.natAbs_mul, Int.natAbs_natCast, Int.sign_mul,
      Int.sign_eq_one_of_pos (Int.natCast_pos.2 unitsPerOne_pos), mul_one]
  rw [ofInt, hmagnitude, worth?, hcount]

end Binary64

def Worth.round : Worth → Worth :=
  WithBot.map (WithTop.map Binary64.roundCount)

theorem Worth.round_mono : Monotone Worth.round :=
  (Binary64.roundCount_mono.withTop_map).withBot_map

/-- What a double-precision number is worth is not rounded. -/
theorem Worth.round_of_worth {number : Binary64} {x : Worth} (worth : number.worth? = some x) :
    x.round = x := by
  cases number with
  | nan => cases worth
  | infinity negative =>
    cases negative with
    | false => obtain rfl := Option.some.inj worth; rfl
    | true => obtain rfl := Option.some.inj worth; rfl
  | finite negative magnitude =>
    obtain rfl := Option.some.inj worth
    exact congrArg (fun count : Int ↦ (count : Worth))
      (Binary64.roundCount_signed negative magnitude)

namespace Value

/-- What a number is worth, exactly. Other values are worth nothing, as is "not a number". -/
def worth? : Value → Option Worth
  | .int value => some ((value.toInt * Binary64.unitsPerOne : Int) : Worth)
  | .float value => value.worth?
  | _ => none

inductive IsLong : Value → Prop where
  | int {value : Int64} (long : 2 ^ 53 < value.toInt.natAbs) : IsLong (.int value)

variable {value : Value} {x : Worth}

/-- In double precision a number is worth what is nearest to its worth. -/
theorem rounded_of_worth (worth : value.worth? = some x) : value.rounded? = some x.round := by
  cases value with
  | int value =>
    obtain rfl := Option.some.inj worth
    rw [rounded_int, Binary64.worth_ofInt (natAbs_toInt_lt value)]
    rfl
  | float value =>
    rw [rounded_float, Worth.round_of_worth worth]
    exact worth
  | _ => cases worth

/-- Only long integers are rounded. -/
theorem round_of_not_long (worth : value.worth? = some x) (short : ¬ value.IsLong) :
    x.round = x := by
  cases value with
  | int value =>
    obtain rfl := Option.some.inj worth
    have hsmall : value.toInt.natAbs ≤ 2 ^ 53 := Nat.le_of_not_lt fun hlong ↦ short (.int hlong)
    have hkept : Binary64.roundCount (value.toInt * Binary64.unitsPerOne) =
        value.toInt * Binary64.unitsPerOne := by
      refine Binary64.roundCount_eq ?_
      rw [Int.natAbs_mul, Int.natAbs_natCast, Binary64.roundUnits_of_le hsmall]
    exact congrArg (fun count : Int ↦ (count : Worth)) hkept
  | float value => exact Worth.round_of_worth worth
  | _ => cases worth

end Value

/-! ## Ranges of numbers -/

/-- How ranges with a limit that is worth `y` decide about a value that is worth `x`. Only long
integers are rounded, so ranges are exact for all other numbers. -/
structure RoundedOrder (accepts : Fields Value → Value → Prop) (value limit : Value)
    (x y : Worth) : Prop where
  min_iff : accepts (.bound "min" limit) value ↔ y ≤ x ∨ x.round = y.round
  max_iff : accepts (.bound "max" limit) value ↔ x ≤ y ∨ x.round = y.round
  less_iff : accepts (.bound "less" limit) value ↔ x < y ∧ x.round ≠ y.round
  more_iff : accepts (.bound "more" limit) value ↔ y < x ∧ x.round ≠ y.round
  exactly_iff : accepts (.exactly limit) value ↔ x.round = y.round
  round_value : ¬ value.IsLong → x.round = x
  round_limit : ¬ limit.IsLong → y.round = y

/-- A range compares two numbers by the double-precision numbers nearest to them. -/
theorem range_numbers (host : Host σ) (call : TestCall) (world : World σ) (value limit : Value)
    (x y : Worth) (value_worth : value.worth? = some x) (limit_worth : limit.worth? = some y) :
    RoundedOrder (fun bounds value ↦ bounds.Accepts host call world value) value limit x y := by
  have hcompares : Value.Compares value limit (compare x.round y.round) :=
    .number (Value.rounded_of_worth value_worth) (Value.rounded_of_worth limit_worth) rfl
  have hle {x y : Worth} : x.round ≤ y.round ↔ x ≤ y ∨ x.round = y.round := by
    constructor
    · intro hround
      rcases le_or_gt x y with hxy | hyx
      · exact .inl hxy
      · exact .inr (le_antisymm hround (Worth.round_mono hyx.le))
    · rintro (hxy | hsame)
      · exact Worth.round_mono hxy
      · exact hsame.le
  have hlt {x y : Worth} : x.round < y.round ↔ x < y ∧ x.round ≠ y.round := by
    rw [← not_le, hle, not_or, not_le, eq_comm (a := y.round)]
  exact {
    min_iff := by
      rw [Fields.accepts_bound_iff, hcompares.isWithin_iff, eq_comm (a := x.round), ← hle]
      simp [compare_lt_iff_lt]
    max_iff := by
      rw [Fields.accepts_bound_iff, hcompares.isWithin_iff, ← hle]
      simp [compare_gt_iff_gt]
    less_iff := by
      rw [Fields.accepts_bound_iff, hcompares.isWithin_iff, ← hlt]
      simp [compare_lt_iff_lt]
    more_iff := by
      rw [Fields.accepts_bound_iff, hcompares.isWithin_iff, ne_comm (a := x.round), ← hlt]
      simp [compare_gt_iff_gt]
    exactly_iff := by
      rw [Fields.accepts_exactly_iff, hcompares.isWithin_iff, hcompares.isWithin_iff]
      simp [compare_lt_iff_lt, compare_gt_iff_gt, le_antisymm_iff, and_comm]
    round_value := Value.round_of_not_long value_worth
    round_limit := Value.round_of_not_long limit_worth }

def Host.idle : Host Unit where
  call _ _ := return .undefined
  judge _ _ _ := return .undefined
  test _ _ := return .ok ()
  elapsed _ := 0

/-- The largest integer, which rounds upwards, still lies below infinity. -/
theorem range_numbers_largest :
    let call : TestCall := .ofArguments .empty []
    let world : World Unit := ⟨.empty, (), #[]⟩
    let value := Value.int 9223372036854775807
    let limit := Value.float (.infinity false)
    ∃ count : Int, value.worth? = some (count : Worth) ∧ limit.worth? = some ⊤ ∧
      RoundedOrder (fun bounds value ↦ bounds.Accepts .idle call world value) value limit count ⊤ ∧
      (Fields.bound "less" limit).Accepts .idle call world value := by
  intro call world value limit
  let count : Int := (9223372036854775807 : Int64).toInt * Binary64.unitsPerOne
  have horder := range_numbers .idle call world value limit (count : Worth) ⊤ rfl rfl
  have hbelow (count : Int) : (count : Worth) < ⊤ :=
    WithBot.coe_lt_coe.2 (WithTop.coe_lt_top count)
  exact ⟨count, rfl, rfl, horder,
    horder.less_iff.2 ⟨hbelow count, (hbelow (Binary64.roundCount count)).ne⟩⟩

/-- Ranges of integers are not exact: `2 ^ 53` is not less than the next integer, but neither above
nor below it, though the two are not equal. -/
theorem range_numbers_inexact :
    let call : TestCall := .ofArguments .empty []
    let world : World Unit := ⟨.empty, (), #[]⟩
    let value : Int64 := 9007199254740992
    let limit : Int64 := 9007199254740993
    value < limit ∧ world.store.equal (.int value) (.int limit) = false ∧
      ¬ (Fields.bound "less" (.int limit)).Accepts .idle call world (.int value) ∧
      (Fields.exactly (.int limit)).Accepts .idle call world (.int value) := by
  intro call world value limit
  have hcompares : Value.Compares (.int value) (.int limit) .eq :=
    Value.compare_eq_some_iff.1 (by decide +kernel)
  refine ⟨by decide, by decide, ?_, ?_⟩
  · rw [Fields.accepts_bound_iff, hcompares.isWithin_iff]
    simp
  · rw [Fields.accepts_exactly_iff, hcompares.isWithin_iff, hcompares.isWithin_iff]
    simp

end RuleCheck
