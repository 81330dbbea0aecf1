import RuleCheck.Proofs.DeepEquality
import RuleCheck.Proofs.Rounding

/-!
# Equalities in a row

Two integers are compared as they are, but an integer and a float are compared in double precision.
So two different integers can both be equal to one float, namely if both round to it, and then deep
equality is not transitive. This is the only way in which transitivity fails: if a first value equals
a second and the second a third, then the first equals the third unless somewhere in them two such
integers stand in the same place. Both integers are then at least `2 ^ 53` in size.
-/

namespace RuleCheck

namespace Binary64

theorem numEq_infinity_iff {negative : Bool} {number : Binary64} :
    (infinity negative).numEq number = true ↔ number = .infinity negative := by
  cases number with
  | nan => simp [numEq, compare?]
  | infinity negative' => cases negative <;> cases negative' <;> simp [numEq, compare?]
  | finite => cases negative <;> simp [numEq, compare?]

/-- Numeric equality of double-precision numbers is transitive. -/
theorem numEq_trans {left middle right : Binary64} (first : left.numEq middle = true)
    (second : middle.numEq right = true) : left.numEq right = true := by
  cases left with
  | nan => cases middle <;> cases first
  | infinity negative =>
    obtain rfl := numEq_infinity_iff.1 first
    exact second
  | finite sign magnitude =>
    cases middle with
    | nan => cases first
    | infinity negative => cases numEq_infinity_iff.1 (numEq_comm _ _ ▸ first)
    | finite =>
      cases right with
      | nan => cases second
      | infinity negative => cases numEq_infinity_iff.1 (numEq_comm _ _ ▸ second)
      | finite =>
        have hfirst := (numEq_iff_of_signedUnits rfl rfl).1 first
        have hsecond := (numEq_iff_of_signedUnits rfl rfl).1 second
        exact (numEq_iff_of_signedUnits rfl rfl).2 (hfirst.trans hsecond)

end Binary64

theorem natAbs_toInt_lt (value : Int64) : value.toInt.natAbs < 2 ^ 64 := by
  have hlower := value.le_toInt
  have hupper := value.toInt_lt
  omega

/-- Different integers that become equal in double precision are both at least `2 ^ 53` in size. -/
theorem le_natAbs_of_numEq {left right : Int64} (different : left ≠ right)
    (same : (Binary64.ofInt left.toInt).numEq (.ofInt right.toInt) = true) :
    2 ^ 53 ≤ left.toInt.natAbs := by
  refine Nat.le_of_not_lt fun hsmall ↦ different ?_
  exact Int64.toInt_inj.1 (Binary64.eq_of_numEq_ofInt hsmall (natAbs_toInt_lt right) same)

inductive Value.RoundTogether : Value → Value → Value → Prop where
  | intro {left right : Int64} {number : Binary64} (different : left ≠ right)
      (first : (Binary64.ofInt left.toInt).numEq number = true)
      (second : number.numEq (.ofInt right.toInt) = true) :
      RoundTogether (.int left) (.float number) (.int right)

namespace Value

variable {left middle right : Value}

/-- Equality of leaves is transitive but for integers that round together. -/
theorem LeafEq.trans_or (first : LeafEq left middle) (second : LeafEq middle right) :
    LeafEq left right ∨ RoundTogether left middle right := by
  cases first with
  | undefined => exact .inl second
  | null => exact .inl second
  | bool => exact .inl second
  | int => exact .inl second
  | text => exact .inl second
  | function => exact .inl second
  | @intFloat left number hfirst =>
    cases second with
    | float hsecond => exact .inl (.intFloat (Binary64.numEq_trans hfirst hsecond))
    | @floatInt _ right hsecond =>
      by_cases hsame : left = right
      · exact .inl (hsame ▸ .int left)
      · exact .inr (.intro hsame hfirst hsecond)
  | floatInt hfirst =>
    cases second with
    | int => exact .inl (.floatInt hfirst)
    | intFloat hsecond => exact .inl (.float (Binary64.numEq_trans hfirst hsecond))
  | float hfirst =>
    cases second with
    | float hsecond => exact .inl (.float (Binary64.numEq_trans hfirst hsecond))
    | floatInt hsecond => exact .inl (.floatInt (Binary64.numEq_trans hfirst hsecond))
  | regex hfirst =>
    cases second with
    | regex hsecond => exact .inl (.regex (hfirst.trans hsecond))
  | date hseconds hnanos =>
    cases second with
    | date hseconds' hnanos' => exact .inl (.date (hseconds.trans hseconds') (hnanos.trans hnanos'))

/-- Integers that round together are not equal. -/
theorem RoundTogether.not_topEq (together : RoundTogether left middle right) :
    ¬ TopEq left right := by
  cases together with
  | intro different =>
    intro same
    cases same with
    | leaf same =>
      cases same with
      | int => exact different rfl

theorem TopEq.trans_iff (first : TopEq left middle) (second : TopEq middle right) :
    TopEq left right ↔ ¬ RoundTogether left middle right := by
  refine ⟨fun same together ↦ together.not_topEq same, fun hnot ↦ ?_⟩
  cases first with
  | array =>
    cases second with
    | array => exact .array _ _
    | leaf same => cases same
  | arguments =>
    cases second with
    | arguments => exact .arguments _ _
    | leaf same => cases same
  | object =>
    cases second with
    | object => exact .object _ _
    | leaf same => cases same
  | leaf hfirst =>
    cases second with
    | array | arguments | object => cases hfirst
    | leaf hsecond => exact .leaf ((hfirst.trans_or hsecond).resolve_right hnot)

end Value

namespace Store

variable {store : Store} {left middle right : Value}

/-- What stands in the same places of values that are equal in a row. -/
theorem exists_follow_of_equal (first : store.equal left middle = true)
    (second : store.equal middle right = true) {path : List PathStep} {node node' : Value}
    (leads : store.follow? left path = some node)
    (leads' : store.follow? right path = some node') :
    ∃ between, store.follow? middle path = some between ∧
      Value.TopEq node between ∧ Value.TopEq between node' := by
  obtain ⟨between, hbetween, hfirst⟩ := exists_of_rel_some ((equal_iff.1 first).2 path) leads
  obtain ⟨node'', hnode, hsecond⟩ := exists_of_rel_some ((equal_iff.1 second).2 path) hbetween
  obtain rfl := Option.some.inj (hnode.symm.trans leads')
  exact ⟨between, hbetween, hfirst, hsecond⟩

/-- Values that are equal in a row are equal exactly if nowhere in them integers round together. -/
theorem equal_iff_not_roundTogether (first : store.equal left middle = true)
    (second : store.equal middle right = true) :
    store.equal left right = true ↔
      ∀ path node between node', store.follow? left path = some node →
        store.follow? middle path = some between → store.follow? right path = some node' →
        ¬ Value.RoundTogether node between node' := by
  constructor
  · intro same path node between node' hnode _ hnode' htogether
    obtain ⟨other, hother, htop⟩ := exists_of_rel_some ((equal_iff.1 same).2 path) hnode
    obtain rfl := Option.some.inj (hother.symm.trans hnode')
    exact htogether.not_topEq htop
  · intro hapart
    refine equal_iff.2 ⟨(equal_iff.1 first).1, fun path ↦ ?_⟩
    have hfirst := (equal_iff.1 first).2 path
    have hsecond := (equal_iff.1 second).2 path
    have hpath := hapart path
    generalize store.follow? left path = node at *
    generalize store.follow? middle path = between at *
    generalize store.follow? right path = node' at *
    cases hfirst with
    | none => cases hsecond; exact .none
    | some htop =>
      cases hsecond with
      | some htop' => exact .some ((htop.trans_iff htop').2 (hpath _ _ _ rfl rfl rfl))

/-- Between different integers in the same place there is a float that both round to. -/
theorem exists_float_between (first : store.equal left middle = true)
    (second : store.equal middle right = true) {path : List PathStep} {integer integer' : Int64}
    (leads : store.follow? left path = some (.int integer))
    (leads' : store.follow? right path = some (.int integer')) (different : integer ≠ integer') :
    ∃ number, store.follow? middle path = some (.float number) ∧
      (Binary64.ofInt integer.toInt).numEq number = true ∧
      number.numEq (.ofInt integer'.toInt) = true := by
  obtain ⟨between, hbetween, htop, htop'⟩ := exists_follow_of_equal first second leads leads'
  have htogether : Value.RoundTogether (.int integer) between (.int integer') := by
    by_contra hnot
    cases (htop.trans_iff htop').2 hnot with
    | leaf same =>
      cases same with
      | int => exact different rfl
  cases htogether with
  | intro _ hfirst hsecond => exact ⟨_, hbetween, hfirst, hsecond⟩

end Store

/-- What follows for the outer ones of three values that are equal in a row. Between different
integers in the same place of them there is a float to which both round, and both are at least `2 ^
53` in size. -/
structure ChainedEquality (store : Store) (left middle right : Value) : Prop where
  equal_iff : store.equal left right = true ↔
    ∀ path integer integer', store.follow? left path = some (.int integer) →
      store.follow? right path = some (.int integer') → integer = integer'
  rounded : ∀ path integer integer', store.follow? left path = some (.int integer) →
    store.follow? right path = some (.int integer') → integer ≠ integer' →
    ∃ number, store.follow? middle path = some (.float number) ∧
      (Binary64.ofInt integer.toInt).numEq number = true ∧
      number.numEq (.ofInt integer'.toInt) = true ∧
      2 ^ 53 ≤ integer.toInt.natAbs ∧ 2 ^ 53 ≤ integer'.toInt.natAbs
  transitive : (∀ path integer number, store.follow? left path = some (.int integer) →
    store.follow? middle path = some (.float number) → integer.toInt.natAbs < 2 ^ 53) →
    store.equal left right = true

/-- Deep equality is transitive but for integers beyond `2 ^ 53` in the place of floats. -/
theorem equal_chain (store : Store) (left middle right : Value)
    (first : store.equal left middle = true) (second : store.equal middle right = true) :
    ChainedEquality store left middle right := by
  have hequal := Store.equal_iff_not_roundTogether first second
  refine ⟨?_, ?_, ?_⟩
  · rw [hequal]
    constructor
    · intro hapart path integer integer' hleft hright
      by_contra hdifferent
      obtain ⟨number, hnumber, hfirst, hsecond⟩ :=
        Store.exists_float_between first second hleft hright hdifferent
      exact hapart path _ _ _ hleft hnumber hright (.intro hdifferent hfirst hsecond)
    · intro hsame path node between node' hnode _ hnode' htogether
      cases htogether with
      | intro different => exact different (hsame path _ _ hnode hnode')
  · intro path integer integer' hleft hright hdifferent
    obtain ⟨number, hnumber, hfirst, hsecond⟩ :=
      Store.exists_float_between first second hleft hright hdifferent
    have hmeet := Binary64.numEq_trans hfirst hsecond
    have hmeet' := Binary64.numEq_comm _ _ ▸ hmeet
    exact ⟨number, hnumber, hfirst, hsecond, le_natAbs_of_numEq hdifferent hmeet,
      le_natAbs_of_numEq (Ne.symm hdifferent) hmeet'⟩
  · intro hsmall
    refine hequal.2 fun path node between node' hnode hbetween hnode' htogether ↦ ?_
    cases htogether with
    | intro different hfirst hsecond =>
      have hlarge := le_natAbs_of_numEq different (Binary64.numEq_trans hfirst hsecond)
      exact Nat.not_le_of_lt (hsmall path _ _ hnode hbetween) hlarge

/-- Beyond `2 ^ 53` the outer values are still equal if they hold the same integer, though the float
between them is another number. -/
theorem equal_chain_same :
    let store : Store :=
      ⟨#[[.int (-9007199254740993), .text "a"],
        [.float (.ofInt (-9007199254740992)), .text "a"],
        [.int (-9007199254740993), .text "a"]], #[], 0⟩
    let left := Value.array ⟨0⟩
    let middle := Value.array ⟨1⟩
    let right := Value.array ⟨2⟩
    store.equal left middle = true ∧ store.equal middle right = true ∧
      ChainedEquality store left middle right ∧ store.equal left right = true := by
  intro store left middle right
  have hfirst : store.equal left middle = true := by decide +kernel
  have hsecond : store.equal middle right = true := by decide +kernel
  exact ⟨hfirst, hsecond, equal_chain store left middle right hfirst hsecond, by decide +kernel⟩

/-- Deep equality is not transitive: `2 ^ 53` and the next integer both equal the float `2 ^ 53`. -/
theorem equal_chain_broken :
    let store : Store :=
      ⟨#[[.int 9007199254740992], [.float (.ofInt 9007199254740992)], [.int 9007199254740993]],
        #[], 0⟩
    let left := Value.array ⟨0⟩
    let middle := Value.array ⟨1⟩
    let right := Value.array ⟨2⟩
    store.Acyclic left ∧ store.Acyclic middle ∧ store.Acyclic right ∧
      store.equal left middle = true ∧ store.equal middle right = true ∧
      store.equal left right = false := by
  intro store left middle right
  have hfirst : store.equal left middle = true := by decide +kernel
  have hsecond : store.equal middle right = true := by decide +kernel
  exact ⟨(Store.acyclic_of_equal hfirst).1, (Store.acyclic_of_equal hfirst).2,
    (Store.acyclic_of_equal hsecond).2, hfirst, hsecond, by decide +kernel⟩

end RuleCheck
