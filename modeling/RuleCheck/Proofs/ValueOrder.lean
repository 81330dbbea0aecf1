import Mathlib
import RuleCheck.Proofs.DeepEquality
import RuleCheck.Test.Range

/-!
# The order of values

Double-precision numbers are ordered by what they are worth, the infinities lying below and above
all counts of units. Two values are ordered within one family: texts by code points, timestamps by
instant, and numbers in double precision. On each family the order is total and transitive, and it
does not tell equal values apart.
-/

namespace RuleCheck

/-- What numbers are worth: minus infinity, whole counts of units, and infinity. -/
abbrev Worth := EInt

@[simp] theorem Worth.compare_coe (left right : Int) :
    compare (left : Worth) (right : Worth) = compare left right := by
  rcases lt_trichotomy left right with hlt | rfl | hgt
  · rw [compare_lt_iff_lt.2 hlt, compare_lt_iff_lt, WithBotTop.coe_lt_coe]
    exact hlt
  · rw [compare_eq_iff_eq.2 rfl, compare_eq_iff_eq.2 rfl]
  · rw [compare_gt_iff_gt.2 hgt, compare_gt_iff_gt, WithBotTop.coe_lt_coe]
    exact hgt

namespace Binary64

def worth? : Binary64 → Option Worth
  | .nan => none
  | .infinity true => some ⊥
  | .infinity false => some ⊤
  | .finite negative magnitude => some (signed negative (units magnitude) : Int)

theorem worth_eq_none_iff {number : Binary64} : number.worth? = none ↔ number = .nan := by
  cases number with
  | infinity negative => cases negative <;> simp [worth?]
  | _ => simp [worth?]

/-- Numbers are compared by what they are worth. -/
theorem compare_eq_some_iff {left right : Binary64} {ordering : Ordering} :
    left.compare? right = some ordering ↔
      ∃ x y, left.worth? = some x ∧ right.worth? = some y ∧ compare x y = ordering := by
  have hcompare : left.compare? right =
      left.worth?.bind fun x ↦ right.worth?.map fun y ↦ compare x y := by
    cases left with
    | nan => rfl
    | infinity sign =>
      cases right with
      | nan => cases sign <;> rfl
      | infinity sign' => cases sign <;> cases sign' <;> rfl
      | finite => cases sign <;> rfl
    | finite =>
      cases right with
      | nan => rfl
      | infinity sign' => cases sign' <;> rfl
      | finite => exact congrArg some (Worth.compare_coe _ _).symm
  rw [hcompare]
  simp [Option.bind_eq_some_iff]

/-- Numbers are equal exactly if they are worth the same. -/
theorem numEq_iff_worth {left right : Binary64} :
    left.numEq right = true ↔ ∃ x, left.worth? = some x ∧ right.worth? = some x := by
  rw [numEq, beq_iff_eq, compare_eq_some_iff]
  constructor
  · rintro ⟨x, y, hleft, hright, hsame⟩
    obtain rfl := compare_eq_iff_eq.1 hsame
    exact ⟨x, hleft, hright⟩
  · rintro ⟨x, hleft, hright⟩
    exact ⟨x, x, hleft, hright, compare_eq_iff_eq.2 rfl⟩

end Binary64

namespace Timestamp

/-- Instants are ordered by seconds and then by nanoseconds. -/
instance : Std.TransCmp compareInstants :=
  inferInstanceAs (Std.TransCmp (compareLex (compareOn Timestamp.seconds)
    (compareOn fun timestamp : Timestamp ↦ timestamp.nanos.val)))

theorem compareInstants_congr {left left' right right' : Timestamp}
    (seconds : left.seconds = left'.seconds) (nanos : left.nanos = left'.nanos)
    (seconds' : right.seconds = right'.seconds) (nanos' : right.nanos = right'.nanos) :
    left.compareInstants right = left'.compareInstants right' := by
  unfold compareInstants
  rw [seconds, nanos, seconds', nanos']

end Timestamp

namespace Value

def rounded? (value : Value) : Option Worth :=
  value.number?.bind Binary64.worth?

@[simp] theorem rounded_int (value : Int64) :
    (Value.int value).rounded? = (Binary64.ofInt value.toInt).worth? := by
  rw [rounded?, number?, Option.bind_some]

@[simp] theorem rounded_float (value : Binary64) :
    (Value.float value).rounded? = value.worth? := by
  rw [rounded?, number?, Option.bind_some]

/-- The ways in which values are ordered. -/
inductive Compares : Value → Value → Ordering → Prop where
  | text {left right : String} {ordering : Ordering} (order : compare left right = ordering) :
      Compares (.text left) (.text right) ordering
  | date {left right : Timestamp} {ordering : Ordering}
      (order : left.compareInstants right = ordering) :
      Compares (.date left) (.date right) ordering
  | number {left right : Value} {x y : Worth} {ordering : Ordering} (hleft : left.rounded? = some x)
      (hright : right.rounded? = some y) (order : compare x y = ordering) :
      Compares left right ordering

variable {left middle right : Value} {ordering : Ordering}

theorem compare_eq_some_iff :
    left.compare? right = some ordering ↔ Compares left right ordering := by
  have hnumbers : ((do (← left.number?).compare? (← right.number?)) = some ordering) ↔
      ∃ x y, left.rounded? = some x ∧ right.rounded? = some y ∧ compare x y = ordering := by
    simp only [rounded?, Option.bind_eq_bind, Option.bind_eq_some_iff,
      Binary64.compare_eq_some_iff]
    grind
  constructor
  · intro hcompare
    unfold compare? at hcompare
    split at hcompare
    · exact .text (Option.some.inj hcompare)
    · exact .date (Option.some.inj hcompare)
    · obtain ⟨x, y, hleft, hright, horder⟩ := hnumbers.1 hcompare
      exact .number hleft hright horder
  · intro hcompares
    cases hcompares with
    | text order => exact congrArg some order
    | date order => exact congrArg some order
    | @number _ _ x y _ hleft hright order =>
      have hcompare := hnumbers.2 ⟨x, y, hleft, hright, order⟩
      unfold compare?
      split
      · cases hleft
      · cases hleft
      · exact hcompare

namespace Compares

theorem swap (compares : Compares left right ordering) : Compares right left ordering.swap := by
  have hswap {α : Type} {cmp : α → α → Ordering} [Std.OrientedCmp cmp] {x y : α}
      (order : cmp x y = ordering) : cmp y x = ordering.swap :=
    Std.OrientedCmp.eq_swap.trans (congrArg Ordering.swap order)
  cases compares with
  | text order => exact .text (hswap order)
  | date order => exact .date (hswap order)
  | number hleft hright order => exact .number hright hleft (hswap order)

theorem lt_trans (first : Compares left middle .lt) (second : Compares middle right .lt) :
    Compares left right .lt := by
  cases first with
  | text order =>
    cases second with
    | text order' => exact .text (Std.TransCmp.lt_trans order order')
    | number hmiddle => cases hmiddle
  | date order =>
    cases second with
    | date order' => exact .date (Std.TransCmp.lt_trans order order')
    | number hmiddle => cases hmiddle
  | number hleft hmiddle order =>
    cases second with
    | text | date => cases hmiddle
    | number hmiddle' hright order' =>
      obtain rfl := Option.some.inj (hmiddle.symm.trans hmiddle')
      exact .number hleft hright (Std.TransCmp.lt_trans order order')

end Compares

theorem rounded_of_leafEq (same : LeafEq left right) : left.rounded? = right.rounded? := by
  have hnumbers {number other : Binary64} (hsame : number.numEq other = true) :
      number.worth? = other.worth? := by
    obtain ⟨x, hleft, hright⟩ := Binary64.numEq_iff_worth.1 hsame
    rw [hleft, hright]
  cases same with
  | intFloat hsame =>
    rw [rounded_int, rounded_float]
    exact hnumbers hsame
  | floatInt hsame =>
    rw [rounded_int, rounded_float]
    exact hnumbers hsame
  | float hsame =>
    rw [rounded_float, rounded_float]
    exact hnumbers hsame
  | _ => rfl

/-- Equal leaves are ordered in the same ways. -/
theorem Compares.of_leafEq (same : LeafEq left middle) (compares : Compares left right ordering) :
    Compares middle right ordering := by
  cases compares with
  | text order =>
    cases same
    exact .text order
  | date order =>
    cases same with
    | date hseconds hnanos =>
      exact .date ((Timestamp.compareInstants_congr hseconds hnanos rfl rfl).symm.trans order)
  | number hleft hright order =>
    exact .number ((rounded_of_leafEq same).symm.trans hleft) hright order

theorem compare_congr (same : TopEq left middle) (right : Value) :
    left.compare? right = middle.compare? right := by
  have hcomposite {value : Value} (composite : value.isComposite = true) :
      value.compare? right = none := by
    cases value with
    | array | arguments | object => rfl
    | _ => cases composite
  cases same with
  | array | arguments | object => rw [hcomposite rfl, hcomposite rfl]
  | leaf same =>
    refine Option.ext fun ordering ↦ ?_
    rw [compare_eq_some_iff, compare_eq_some_iff]
    exact ⟨.of_leafEq same, .of_leafEq same.symm⟩

theorem compare_swap (left right : Value) :
    right.compare? left = (left.compare? right).map Ordering.swap := by
  refine Option.ext fun ordering ↦ ?_
  rw [Option.map_eq_some_iff, compare_eq_some_iff]
  simp only [compare_eq_some_iff]
  constructor
  · exact fun hcompares ↦ ⟨ordering.swap, hcompares.swap, ordering.swap_swap⟩
  · rintro ⟨ordering, hcompares, rfl⟩
    exact hcompares.swap

theorem compare_congr_right (same : TopEq left right) (value : Value) :
    value.compare? left = value.compare? right := by
  rw [compare_swap left, compare_swap right, compare_congr same]

end Value

end RuleCheck
