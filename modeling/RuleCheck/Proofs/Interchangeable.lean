import RuleCheck.Proofs.RangeRounding

/-!
# Equal values stand for each other

Deep equality, kinds and the order of ranges are each defined on their own. They fit together: equal
values are of the same kind and have the same keys, and tests of kinds and ranges do not tell them
apart, neither as the value that is tested nor as a bound. This rests on how integers behave in double
precision: whatever they are rounded to is whole and finite.
-/

namespace RuleCheck

variable {σ : Type}

namespace Binary64

/-- An integer that is rounded stays whole. Up to `2 ^ 53` nothing is lost, and beyond, the last bit
that is kept is worth more than one. -/
theorem unitsPerOne_dvd_roundUnits (value : Nat) :
    unitsPerOne ∣ roundUnits (value * unitsPerOne) := by
  rcases le_or_gt value (2 ^ 53) with hsmall | hlarge
  · rw [roundUnits_of_le hsmall]
    exact Nat.dvd_mul_left _ _
  · have hpos : 0 < value := Nat.pos_of_ne_zero (by omega)
    have hlead : 53 ≤ Nat.log2 value := (Nat.le_log2 (by omega)).2 hlarge.le
    obtain ⟨exponent, hexponent, hunits⟩ := exists_unitsPerOne_eq
    rw [roundUnits_mul_unitsPerOne hpos, hunits]
    refine Dvd.dvd.mul_left (Nat.pow_dvd_pow 2 ?_) _
    rw [lastBit]
    omega

theorem isIntegral_finite_iff {negative : Bool} {magnitude : Fin finiteMagnitudes} :
    (finite negative magnitude).isIntegral = true ↔ unitsPerOne ∣ units magnitude := by
  rw [isIntegral, beq_iff_eq, Nat.dvd_iff_mod_eq_zero]

/-- An integer in double precision is a whole number. -/
theorem numberKind_ofInt (value : Int64) : Value.numberKind (ofInt value.toInt) = .integer := by
  have hkind {negative : Bool} {magnitude : Fin finiteMagnitudes}
      (whole : unitsPerOne ∣ units magnitude) :
      Value.numberKind (finite negative magnitude) = .integer := by
    unfold Value.numberKind
    rw [isIntegral_finite_iff.2 whole]
    rfl
  rcases Nat.eq_zero_or_pos value.toInt.natAbs with hzero | hpos
  · rw [Int.natAbs_eq_zero.1 hzero, ofInt_zero]
    exact hkind (Nat.dvd_zero _)
  · obtain ⟨magnitude, hmagnitude, hunits⟩ :=
      exists_ofRatio_one hpos (decide (value.toInt < 0)) (natAbs_toInt_lt value)
    rw [ofInt, hmagnitude]
    refine hkind ?_
    rw [hunits, ← roundUnits_mul_unitsPerOne hpos]
    exact unitsPerOne_dvd_roundUnits _

/-- Equal numbers are of one kind. -/
theorem numberKind_congr {left right : Binary64} (same : left.numEq right = true) :
    Value.numberKind left = Value.numberKind right := by
  cases left with
  | nan => cases right <;> cases same
  | infinity negative => rw [numEq_infinity_iff.1 same]
  | finite sign magnitude =>
    cases right with
    | nan => cases same
    | infinity negative => cases numEq_infinity_iff.1 (numEq_comm _ _ ▸ same)
    | finite sign' magnitude' =>
      -- The signs may differ, but only for the two zeros.
      have hcount := (numEq_iff_of_signedUnits rfl rfl).1 same
      have hunits : units magnitude = units magnitude' := calc
        units magnitude = (signed sign (units magnitude)).natAbs := (natAbs_signed _ _).symm
        _ = (signed sign' (units magnitude')).natAbs := congrArg Int.natAbs hcount
        _ = units magnitude' := natAbs_signed _ _
      have hwhole : (finite sign magnitude).isIntegral = (finite sign' magnitude').isIntegral := by
        rw [Bool.eq_iff_iff, isIntegral_finite_iff, isIntegral_finite_iff, hunits]
      unfold Value.numberKind
      rw [hwhole]
      rfl

end Binary64

namespace Value

variable {left right : Value}

theorem kindWith_congr (same : TopEq left right) (distinguishArguments : Bool) :
    left.kindWith distinguishArguments = right.kindWith distinguishArguments := by
  cases same with
  | array | arguments | object => rfl
  | leaf same =>
    cases same with
    | @intFloat left right hsame =>
      calc
        Kind.integer = numberKind (.ofInt left.toInt) := (Binary64.numberKind_ofInt left).symm
        _ = numberKind right := Binary64.numberKind_congr hsame
    | @floatInt left right hsame =>
      calc
        numberKind left = numberKind (.ofInt right.toInt) := Binary64.numberKind_congr hsame
        _ = Kind.integer := Binary64.numberKind_ofInt right
    | float hsame => exact Binary64.numberKind_congr hsame
    | _ => rfl

theorem isWithin_congr (same : TopEq left right) {key : String} {limit : Value} :
    left.IsWithin key limit ↔ right.IsWithin key limit := by
  rw [IsWithin, IsWithin, compare_congr same]

theorem isWithin_congr_right (same : TopEq left right) {key : String} {value : Value} :
    value.IsWithin key left ↔ value.IsWithin key right := by
  rw [IsWithin, IsWithin, compare_congr_right same]

end Value

/-- Bounds of which one is replaced by an equal value contain the same values. -/
theorem Fields.forall_isWithin_insert_iff {bounds : Fields Value} {key : String} {left right : Value}
    (found : bounds.get? key = some left) (same : Value.TopEq left right) (value : Value) :
    (∀ entry ∈ (bounds.insert key right).entries, value.IsWithin entry.1 entry.2) ↔
      ∀ entry ∈ bounds.entries, value.IsWithin entry.1 entry.2 := by
  constructor
  · rintro hall ⟨name, limit⟩ mem
    by_cases hname : name = key
    · subst hname
      obtain rfl : left = limit := Option.some.inj (found.symm.trans (get_eq_some_iff.2 mem))
      have hnew := hall (name, right) (mem_entries_insert.2 (.inl rfl))
      exact (Value.isWithin_congr_right same).2 hnew
    · exact hall (name, limit) (mem_entries_insert.2 (.inr ⟨mem, hname⟩))
  · rintro hall ⟨name, limit⟩ mem
    rcases mem_entries_insert.1 mem with heq | ⟨mem, -⟩
    · obtain ⟨rfl, rfl⟩ := Prod.mk.inj heq
      have hold := hall (name, left) (get_eq_some_iff.1 found)
      exact (Value.isWithin_congr_right same).1 hold
    · exact hall (name, limit) mem

namespace Store

variable {store : Store} {left right : Value}

theorem length_eq_of_itemsAgree {related : Value → Value → Bool} {lefts rights : List Value}
    (agree : itemsAgree related lefts rights = true) : lefts.length = rights.length := by
  induction lefts, rights using itemsAgree.induct with
  | case1 => rfl
  | case2 left lefts right rights ih =>
    rw [itemsAgree, Bool.and_eq_true] at agree
    exact congrArg Nat.succ (ih agree.2)
  | case3 =>
    rw [itemsAgree] at agree
    · cases agree
    · assumption
    · assumption

theorem keys_eq_of_fieldsAgree {related : Value → Value → Bool} {lefts rights : Fields Value}
    (agree : fieldsAgree related lefts rights = true) : lefts.keys = rights.keys := by
  refine Fields.keys_eq_of_mem fun name ↦ ?_
  rw [← Fields.isSome_get_iff, ← Fields.isSome_get_iff]
  exact isSome_iff_of_rel (fieldsAgree_iff.1 agree name)

theorem topEq_of_equal (same : store.equal left right = true) : Value.TopEq left right := by
  have hroot := (equal_iff.1 same).2 []
  change Option.Rel Value.TopEq (some left) (some right) at hroot
  cases hroot with
  | some htop => exact htop

/-- Equal values have the same keys in the same order. -/
theorem keys_congr (same : store.equal left right = true) : store.keys left = store.keys right := by
  have hparts := same
  rw [equal_eq_compareParts (.inl (equal_iff.1 same).1)] at hparts
  cases topEq_of_equal same with
  | array | arguments =>
    have hlength := length_eq_of_itemsAgree hparts
    rw [keys, keys, hlength]
  | object => exact keys_eq_of_fieldsAgree hparts
  | leaf hleaf => cases hleaf <;> rfl

theorem fields_setFields_self {ref : RecordRef} (held : ref.index < store.records.size)
    (fields : Fields Value) : (store.setFields ref fields).fields ref = fields := by
  simp [setFields, Store.fields, held]

end Store

theorem Function.passes_kindTest_iff {host : Host σ} {call : TestCall} {world : World σ}
    {value target : Value} :
    kindTest.Passes host call world value target ↔ target.text? = some value.kind.name := by
  refine (passes_made_iff none "type" .kind (isPureTest_kindTest host).2).trans ?_
  change Value.bool (target.text? == some value.kind.name) = .bool true ↔ _
  simp

/-- Neither classification nor the tests of kinds and ranges tell two values apart. -/
structure Interchangeable (host : Host σ) (call : TestCall) (world : World σ)
    (left right : Value) : Prop where
  kindWith_eq : ∀ distinguishArguments,
    left.kindWith distinguishArguments = right.kindWith distinguishArguments
  keys_eq : world.store.keys left = world.store.keys right
  kindTest_iff : ∀ target, Function.kindTest.Passes host call world left target ↔
    Function.kindTest.Passes host call world right target
  rangeTest_iff : ∀ target, Function.rangeTest.Passes host call world left target ↔
    Function.rangeTest.Passes host call world right target
  limit_iff : ∀ (bounds : Fields Value) (key : String), bounds.get? key = some left → ∀ value,
    (bounds.Accepts host call world value ↔
      (bounds.insert key right).Accepts host call world value)
  overwrite_iff : ∀ (ref : RecordRef) (key : String),
    (world.store.fields ref).get? key = some left → ∀ value,
    let overwritten := world.store.setFields ref ((world.store.fields ref).insert key right)
    (Function.rangeTest.Passes host call world value (.object ref) ↔
      Function.rangeTest.Passes host call { world with store := overwritten } value (.object ref))

/-- Values that are equal, one of them and hence both being free of cycles, are interchangeable. -/
theorem equal_interchangeable (host : Host σ) (call : TestCall) (world : World σ)
    (left right : Value) (same : world.store.equal left right = true) :
    Interchangeable host call world left right := by
  have htop := Store.topEq_of_equal same
  exact {
    kindWith_eq := Value.kindWith_congr htop
    keys_eq := Store.keys_congr same
    kindTest_iff := fun target ↦ by
      rw [Function.passes_kindTest_iff, Function.passes_kindTest_iff, Value.kind, Value.kind,
        Value.kindWith_congr htop]
    rangeTest_iff := fun target ↦ by
      rw [Function.passes_rangeTest_iff, Function.passes_rangeTest_iff]
      exact exists_congr fun ref ↦ and_congr_right fun _ ↦
        forall₂_congr fun entry _ ↦ Value.isWithin_congr htop
    limit_iff := fun bounds key hfound value ↦ by
      rw [Fields.accepts_iff, Fields.accepts_iff]
      exact (Fields.forall_isWithin_insert_iff hfound htop value).symm
    overwrite_iff := fun ref key hfound value ↦ by
      intro overwritten
      have hheld : ref.index < world.store.records.size := by
        refine Nat.lt_of_not_le fun hpast ↦ ?_
        rw [Store.fields, Array.getElem?_eq_none hpast] at hfound
        cases hfound
      rw [Function.passes_rangeTest_object_iff, Function.passes_rangeTest_object_iff,
        Store.fields_setFields_self hheld]
      exact (Fields.forall_isWithin_insert_iff hfound htop value).symm }

/-- Equal are the integer `2 ^ 53 + 1` and the float `2 ^ 53`, the two zeros, and one instant on two
clocks, and also two ranges with such bounds. -/
theorem equal_interchangeable_bounds :
    let call : TestCall := .ofArguments .empty []
    let whole := Value.int 9007199254740993
    let rounded := Value.float (.ofInt 9007199254740992)
    let zero := Value.int 0
    let negativeZero := Value.float .negativeZero
    let noon := Value.date ⟨1704110400, 0, 0⟩
    let noonAbroad := Value.date ⟨1704110400, 0, 7200⟩
    let world : World Unit :=
      ⟨⟨#[], #[.ofList [("less", whole), ("min", negativeZero)],
        .ofList [("less", rounded), ("min", zero)]], 0⟩, (), #[]⟩
    ∀ pair ∈ [(whole, rounded), (zero, negativeZero), (noon, noonAbroad),
        (.object ⟨0⟩, .object ⟨1⟩)],
      world.store.equal pair.1 pair.2 = true ∧ Interchangeable .idle call world pair.1 pair.2 := by
  intro call whole rounded zero negativeZero noon noonAbroad world pair mem
  have hequal : ∀ pair ∈ [(whole, rounded), (zero, negativeZero), (noon, noonAbroad),
      (.object ⟨0⟩, .object ⟨1⟩)], world.store.equal pair.1 pair.2 = true := by
    decide +kernel
  exact ⟨hequal pair mem,
    equal_interchangeable .idle call world pair.1 pair.2 (hequal pair mem)⟩

end RuleCheck
