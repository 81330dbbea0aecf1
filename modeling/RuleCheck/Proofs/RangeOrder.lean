import RuleCheck.Proofs.BuiltRules
import RuleCheck.Proofs.TypedTests
import RuleCheck.Proofs.ValueOrder

/-!
# The order that ranges express

A range accepts a value if each of its bounds does. The four bounds express one order: of two values
of a family exactly one lies strictly below, strictly above or at the other, the inclusive bounds
are the negations of the strict ones, and values of different families are within no bound of each
other. All this is said of the range test itself, as it is called by a rule.
-/

namespace RuleCheck

variable {σ : Type}

namespace Value

inductive IsNumber : Value → Prop where
  | int (value : Int64) : IsNumber (.int value)
  | float {value : Binary64} (number : value ≠ .nan) : IsNumber (.float value)

inductive Comparable : Value → Value → Prop where
  | text (left right : String) : Comparable (.text left) (.text right)
  | date (left right : Timestamp) : Comparable (.date left) (.date right)
  | number {left right : Value} (hleft : left.IsNumber) (hright : right.IsNumber) :
      Comparable left right

end Value

theorem Binary64.ofInt_ne_nan (value : Int) : ofInt value ≠ .nan := by
  unfold ofInt ofRatio
  dsimp only
  split
  · exact fun same ↦ by cases same
  · exact fun same ↦ by cases same

namespace Value

variable {left right : Value} {ordering : Ordering}

theorem isNumber_iff {value : Value} : value.IsNumber ↔ ∃ x, value.rounded? = some x := by
  have hworth (number : Binary64) : number ≠ .nan ↔ ∃ x, number.worth? = some x := by
    rw [ne_eq, ← Binary64.worth_eq_none_iff, ← ne_eq, Option.ne_none_iff_exists']
  constructor
  · intro hnumber
    cases hnumber with
    | int value => exact (rounded_int value).symm ▸ (hworth _).1 (Binary64.ofInt_ne_nan _)
    | float hnumber => exact (hworth _).1 hnumber
  · rintro ⟨x, hx⟩
    cases value with
    | int value => exact .int value
    | float value => exact .float ((hworth _).2 ⟨x, hx⟩)
    | _ => cases hx

/-- Comparable values are those that are ordered. -/
theorem comparable_iff : left.Comparable right ↔ ∃ ordering, Compares left right ordering := by
  constructor
  · intro hcomparable
    cases hcomparable with
    | text => exact ⟨_, .text rfl⟩
    | date => exact ⟨_, .date rfl⟩
    | number hleft hright =>
      obtain ⟨x, hx⟩ := isNumber_iff.1 hleft
      obtain ⟨y, hy⟩ := isNumber_iff.1 hright
      exact ⟨_, .number hx hy rfl⟩
  · rintro ⟨ordering, hcompares⟩
    cases hcompares with
    | text => exact .text _ _
    | date => exact .date _ _
    | number hx hy => exact .number (isNumber_iff.2 ⟨_, hx⟩) (isNumber_iff.2 ⟨_, hy⟩)

/-- Being within a bound, for values that are ordered. -/
theorem Compares.isWithin_iff (compares : Compares left right ordering) (key : String) :
    left.IsWithin key right ↔
      key = "min" ∧ ordering ≠ .lt ∨ key = "max" ∧ ordering ≠ .gt ∨
        key = "less" ∧ ordering = .lt ∨ key = "more" ∧ ordering = .gt := by
  unfold IsWithin
  rw [compare_eq_some_iff.2 compares]
  simp

/-- A value is strictly below another exactly if it compares so. -/
theorem isWithin_less_iff : left.IsWithin "less" right ↔ Compares left right .lt := by
  simp [IsWithin, compare_eq_some_iff]

theorem isWithin_more_iff : left.IsWithin "more" right ↔ Compares left right .gt := by
  simp [IsWithin, compare_eq_some_iff]

/-- Only comparable values are within bounds of each other. -/
theorem IsWithin.comparable {key : String} (within : left.IsWithin key right) :
    left.Comparable right := by
  obtain ⟨ordering, hcompare, -⟩ := within
  exact comparable_iff.2 ⟨ordering, compare_eq_some_iff.1 hcompare⟩

theorem IsWithin.mem_keys {key : String} (within : left.IsWithin key right) : key ∈ Bound.keys := by
  obtain ⟨-, -, ⟨rfl, -⟩ | ⟨rfl, -⟩ | ⟨rfl, -⟩ | ⟨rfl, -⟩⟩ := within <;> decide

end Value

def Fields.bound (key : String) (limit : Value) : Fields Value :=
  .ofList [(key, limit)]

/-- The range of all values that are neither below nor above a limit. -/
def Fields.exactly (limit : Value) : Fields Value :=
  .ofList [("min", limit), ("max", limit)]

/-- The range on one side of a limit: strictly below it, strictly above it, or at it. -/
def Fields.side (limit : Value) : Ordering → Fields Value
  | .lt => .bound "less" limit
  | .gt => .bound "more" limit
  | .eq => .exactly limit

namespace Function

variable (host : Host σ) (call : TestCall) (world : World σ)

/-- In some world a test passes for two values, which take their places in a call. -/
def Passes (test : Function) (value target : Value) : Prop :=
  (test.runTest host { call with subject := value, target := target } world).1 = .ok ()

variable {host call world} {value target : Value}

/-- A made test passes exactly if its predicate, asked of the two values once the call has been laid
out, answers `true`. -/
theorem passes_made_iff (serial : Option Nat) (name : String) (predicate : Predicate)
    {clauses : Clauses} (quiet : clauses.AreQuiet host) :
    let test := made serial name predicate clauses
    let laidOut := test.called { call with subject := value, target := target } world
    test.Passes host call world value target ↔
      (predicate.ask host value target laidOut).1 = .bool true := by
  intro test laidOut
  let handed : TestCall := { call with subject := value, target := target }
  let arguments := (handed.toArguments world.store).1
  let answered := test.answer host arguments laidOut
  change handed.outcome answered.2.store answered.1 = .ok () ↔ _
  obtain ⟨-, ⟨hasked, hanswer⟩ | ⟨hasked, reasons, hanswer⟩⟩ :=
    answer_made host serial name predicate quiet arguments laidOut
  · exact iff_of_true (congrArg (handed.outcome answered.2.store) hanswer) hasked
  · refine iff_of_false ?_ hasked
    rw [show answered.1 = .array reasons from hanswer]
    exact fun same ↦ by cases same

theorem passes_rangeTest_iff : rangeTest.Passes host call world value target ↔
    ∃ ref, target = .object ref ∧
      ∀ entry ∈ (world.store.fields ref).entries, value.IsWithin entry.1 entry.2 := by
  refine (passes_made_iff none "range" .range (Clauses.areQuiet_should host _)).trans ?_
  -- Laying out the call adds an array, so the fields are the ones in the world at hand.
  exact Predicate.askRange_iff_isWithin

theorem passes_rangeTest_object_iff {ref : RecordRef} :
    rangeTest.Passes host call world value (.object ref) ↔
      ∀ entry ∈ (world.store.fields ref).entries, value.IsWithin entry.1 entry.2 := by
  rw [passes_rangeTest_iff]
  constructor
  · rintro ⟨ref', same, hall⟩
    obtain rfl := Value.object.inj same
    exact hall
  · exact fun hall ↦ ⟨ref, rfl, hall⟩

end Function

namespace Fields

variable (host : Host σ) (call : TestCall) (world : World σ)

def Accepts (bounds : Fields Value) (value : Value) : Prop :=
  let added := Store.addRecord bounds world.store
  Function.rangeTest.Passes host call { world with store := added.2 } value (.object added.1)

variable {host call world} {value : Value}

/-- Bounds accept a value exactly if it is within each of them, in all calls and worlds alike. -/
theorem accepts_iff {bounds : Fields Value} : bounds.Accepts host call world value ↔
    ∀ entry ∈ bounds.entries, value.IsWithin entry.1 entry.2 := by
  refine Function.passes_rangeTest_object_iff.trans ?_
  rw [Store.fields_addRecord_self]

theorem accepts_bound_iff {key : String} {limit : Value} :
    (bound key limit).Accepts host call world value ↔ value.IsWithin key limit := by
  rw [accepts_iff]
  exact List.forall_mem_singleton

theorem accepts_exactly_iff {limit : Value} :
    (exactly limit).Accepts host call world value ↔
      value.IsWithin "min" limit ∧ value.IsWithin "max" limit := by
  have hentries (entry : String × Value) :
      entry ∈ (exactly limit).entries ↔ entry ∈ [("min", limit), ("max", limit)] :=
    mem_entries_ofList (by simp)
  rw [accepts_iff]
  simp [hentries]

/-- Of a value that is comparable to a limit, only the side accepts it on which it lies. -/
theorem accepts_side_iff {limit : Value} {ordering : Ordering}
    (compares : Value.Compares value limit ordering) (other : Ordering) :
    (side limit other).Accepts host call world value ↔ ordering = other := by
  cases other with
  | lt => simp [side, accepts_bound_iff, compares.isWithin_iff]
  | gt => simp [side, accepts_bound_iff, compares.isWithin_iff]
  | eq =>
    rw [side, accepts_exactly_iff, compares.isWithin_iff, compares.isWithin_iff]
    cases ordering <;> simp

end Fields

/-- What bounds accept, they accept by one order of values. Values that are not comparable are
within no bound of each other. -/
structure OrderLaws (accepts : Fields Value → Value → Prop) : Prop where
  exactly_one : ∀ value limit, value.Comparable limit →
    ∃! ordering, accepts (.side limit ordering) value
  min_iff : ∀ value limit, value.Comparable limit →
    (accepts (.bound "min" limit) value ↔ ¬ accepts (.bound "less" limit) value)
  max_iff : ∀ value limit, value.Comparable limit →
    (accepts (.bound "max" limit) value ↔ ¬ accepts (.bound "more" limit) value)
  less_iff_more : ∀ value limit, value.Comparable limit →
    (accepts (.bound "less" limit) value ↔ accepts (.bound "more" value) limit)
  not_comparable : ∀ value limit, ¬ value.Comparable limit →
    ∀ key ∈ Bound.keys, ¬ accepts (.bound key limit) value
  less_trans : ∀ value middle limit, accepts (.bound "less" middle) value →
    accepts (.bound "less" limit) middle → accepts (.bound "less" limit) value
  all_iff : ∀ bounds : Fields Value, (∀ key ∈ bounds.keys, key ∈ Bound.keys) → ∀ value,
    (accepts bounds value ↔ ∀ entry ∈ bounds.entries, accepts (.bound entry.1 entry.2) value)
  empty : ∀ value, accepts .empty value
  unknown_key : ∀ (bounds : Fields Value) (key : String), key ∈ bounds.keys → key ∉ Bound.keys →
    ∀ value, ¬ accepts bounds value

/-- In every world and for every call, the range test is decided by one order of values: on the
objects that the world holds as on new ones, and never for a range that is no object. -/
theorem range_order (host : Host σ) (call : TestCall) (world : World σ) :
    OrderLaws (fun bounds value ↦ bounds.Accepts host call world value) ∧
      (∀ value ref, Function.rangeTest.Passes host call world value (.object ref) ↔
        (world.store.fields ref).Accepts host call world value) ∧
      ∀ value range, range.recordRef? = none →
        ¬ Function.rangeTest.Passes host call world value range := by
  refine ⟨?_, fun value ref ↦ ?_, fun value range hrange ↦ ?_⟩
  · exact {
      exactly_one := fun value limit hcomparable ↦ by
        obtain ⟨ordering, hcompares⟩ := Value.comparable_iff.1 hcomparable
        refine ⟨ordering, (Fields.accepts_side_iff hcompares ordering).2 rfl, fun other hother ↦ ?_⟩
        exact ((Fields.accepts_side_iff hcompares other).1 hother).symm
      min_iff := fun value limit hcomparable ↦ by
        obtain ⟨ordering, hcompares⟩ := Value.comparable_iff.1 hcomparable
        simp [Fields.accepts_bound_iff, hcompares.isWithin_iff]
      max_iff := fun value limit hcomparable ↦ by
        obtain ⟨ordering, hcompares⟩ := Value.comparable_iff.1 hcomparable
        simp [Fields.accepts_bound_iff, hcompares.isWithin_iff]
      less_iff_more := fun value limit _ ↦ by
        rw [Fields.accepts_bound_iff, Fields.accepts_bound_iff, Value.isWithin_less_iff,
          Value.isWithin_more_iff]
        exact ⟨Value.Compares.swap, Value.Compares.swap⟩
      not_comparable := fun value limit hnot key _ haccepts ↦
        hnot (Fields.accepts_bound_iff.1 haccepts).comparable
      less_trans := fun value middle limit hfirst hsecond ↦ by
        rw [Fields.accepts_bound_iff, Value.isWithin_less_iff] at hfirst hsecond ⊢
        exact hfirst.lt_trans hsecond
      all_iff := fun bounds _ value ↦ by
        rw [Fields.accepts_iff]
        exact forall₂_congr fun entry _ ↦ Fields.accepts_bound_iff.symm
      empty := fun value ↦ Fields.accepts_iff.2 fun entry mem ↦ absurd mem List.not_mem_nil
      unknown_key := fun bounds key hkey hunknown value haccepts ↦ by
        obtain ⟨entry, hentry, rfl⟩ := List.mem_map.1 hkey
        exact hunknown (Fields.accepts_iff.1 haccepts entry hentry).mem_keys }
  · rw [Function.passes_rangeTest_object_iff, Fields.accepts_iff]
  · rw [Function.passes_rangeTest_iff]
    rintro ⟨ref, rfl, -⟩
    cases hrange

end RuleCheck
