import RuleCheck.Proofs.Paths
import RuleCheck.Value.Equality

/-!
# Deep equality compares unfoldings

Two values are deeply equal exactly if they are acyclic and unfold alike: the same paths lead
somewhere, and at the end of each stand composites of one constructor or leaves that count as equal.
So equality is symmetric, it does not see how parts are shared, and no value with a cycle below it
equals anything.

The comparison is bounded by the number of cells. Where one of the values is acyclic the bound is
never felt: the recursion that compares parts in the same places comes to an end, and deep equality
is what that recursion computes.
-/

namespace RuleCheck

/-- Leaves that count as equal. Two integers are compared as they are, other numbers in double
precision, patterns by their texts and timestamps by their instants; a function equals only itself.
-/
inductive Value.LeafEq : Value → Value → Prop where
  | undefined : LeafEq .undefined .undefined
  | null : LeafEq .null .null
  | bool (value : Bool) : LeafEq (.bool value) (.bool value)
  | int (value : Int64) : LeafEq (.int value) (.int value)
  | intFloat {left : Int64} {right : Binary64}
      (same : (Binary64.ofInt left.toInt).numEq right = true) : LeafEq (.int left) (.float right)
  | floatInt {left : Binary64} {right : Int64}
      (same : left.numEq (.ofInt right.toInt) = true) : LeafEq (.float left) (.int right)
  | float {left right : Binary64} (same : left.numEq right = true) :
      LeafEq (.float left) (.float right)
  | text (value : String) : LeafEq (.text value) (.text value)
  | function (value : Function) : LeafEq (.function value) (.function value)
  | regex {left right : Pattern} (same : left.source = right.source) :
      LeafEq (.regex left) (.regex right)
  | date {left right : Timestamp} (seconds : left.seconds = right.seconds)
      (nanos : left.nanos = right.nanos) : LeafEq (.date left) (.date right)

inductive Value.TopEq : Value → Value → Prop where
  | array (left right : ListRef) : TopEq (.array left) (.array right)
  | arguments (left right : ListRef) : TopEq (.arguments left) (.arguments right)
  | object (left right : RecordRef) : TopEq (.object left) (.object right)
  | leaf {left right : Value} (same : LeafEq left right) : TopEq left right

inductive Value.SameTop : Value → Value → Prop where
  | array (left right : ListRef) : SameTop (.array left) (.array right)
  | arguments (left right : ListRef) : SameTop (.arguments left) (.arguments right)
  | object (left right : RecordRef) : SameTop (.object left) (.object right)
  | leaf {value : Value} (simple : value.isComposite = false) : SameTop value value

namespace Timestamp

theorem sameInstant_iff {left right : Timestamp} :
    left.sameInstant right = true ↔ left.seconds = right.seconds ∧ left.nanos = right.nanos := by
  rw [sameInstant, compareInstants, beq_iff_eq, Ordering.then_eq_eq, Int.compare_eq_eq,
    Nat.compare_eq_eq, Fin.val_inj]

end Timestamp

namespace Binary64

theorem compare_eq_eq_comm {left right : Binary64} :
    left.compare? right = some .eq ↔ right.compare? left = some .eq := by
  cases left with
  | nan => cases right <;> simp [compare?]
  | infinity negative =>
    cases right with
    | nan => simp [compare?]
    | infinity negative' => cases negative <;> cases negative' <;> simp [compare?]
    | finite => cases negative <;> simp [compare?]
  | finite sign magnitude =>
    cases right with
    | nan => simp [compare?]
    | infinity negative => cases negative <;> simp [compare?]
    | finite =>
      rw [compare?, compare?, Option.some_inj, Option.some_inj, Int.compare_eq_eq,
        Int.compare_eq_eq, eq_comm]

/-- Numeric equality is symmetric. -/
theorem numEq_comm (left right : Binary64) : left.numEq right = right.numEq left := by
  rw [Bool.eq_iff_iff, numEq, numEq, beq_iff_eq, beq_iff_eq]
  exact compare_eq_eq_comm

end Binary64

namespace Value

theorem sameLeaf_iff {left right : Value} : left.sameLeaf right = true ↔ LeafEq left right := by
  constructor
  · intro same
    unfold sameLeaf at same
    split at same
    · exact .undefined
    · exact .null
    · exact eq_of_beq same ▸ .bool _
    · exact eq_of_beq same ▸ .int _
    · exact .intFloat same
    · exact .floatInt same
    · exact .float same
    · exact eq_of_beq same ▸ .text _
    · exact eq_of_beq same ▸ .function _
    · exact .regex (eq_of_beq same)
    · obtain ⟨hseconds, hnanos⟩ := Timestamp.sameInstant_iff.1 same
      exact .date hseconds hnanos
    · cases same
  · intro same
    cases same with
    | undefined | null => rfl
    | bool | int | text | function => exact beq_self_eq_true _
    | intFloat same | floatInt same | float same => exact same
    | regex same => exact beq_iff_eq.2 same
    | date seconds nanos => exact Timestamp.sameInstant_iff.2 ⟨seconds, nanos⟩

theorem LeafEq.symm {left right : Value} (same : LeafEq left right) : LeafEq right left := by
  cases same with
  | undefined => exact .undefined
  | null => exact .null
  | bool value => exact .bool value
  | int value => exact .int value
  | intFloat same => exact .floatInt (Binary64.numEq_comm _ _ ▸ same)
  | floatInt same => exact .intFloat (Binary64.numEq_comm _ _ ▸ same)
  | float same => exact .float (Binary64.numEq_comm _ _ ▸ same)
  | text value => exact .text value
  | function value => exact .function value
  | regex same => exact .regex same.symm
  | date seconds nanos => exact .date seconds.symm nanos.symm

theorem TopEq.symm {left right : Value} (same : TopEq left right) : TopEq right left := by
  cases same with
  | array => exact .array _ _
  | arguments => exact .arguments _ _
  | object => exact .object _ _
  | leaf same => exact .leaf same.symm

/-- Leaves that count as equal are not composite. -/
theorem LeafEq.simple {left right : Value} (same : LeafEq left right) :
    left.isComposite = false ∧ right.isComposite = false := by
  cases same <;> exact ⟨rfl, rfl⟩

theorem SameTop.symm {left right : Value} (same : SameTop left right) : SameTop right left := by
  cases same with
  | array => exact .array _ _
  | arguments => exact .arguments _ _
  | object => exact .object _ _
  | leaf simple => exact .leaf simple

/-- A leaf is the same on top only as itself. -/
theorem SameTop.eq_of_simple {left right : Value} (same : SameTop left right)
    (simple : left.isComposite = false ∨ right.isComposite = false) : left = right := by
  cases same with
  | leaf => rfl
  | _ => simp [isComposite] at simple

/-- Equality on top does not change with values that are the same on top. -/
theorem TopEq.congr {left left' right right' : Value} (same : TopEq left right)
    (hleft : SameTop left' left) (hright : SameTop right right') : TopEq left' right' := by
  cases same with
  | array =>
    cases hleft with
    | leaf simple => cases simple
    | array =>
      cases hright with
      | leaf simple => cases simple
      | array => exact .array _ _
  | arguments =>
    cases hleft with
    | leaf simple => cases simple
    | arguments =>
      cases hright with
      | leaf simple => cases simple
      | arguments => exact .arguments _ _
  | object =>
    cases hleft with
    | leaf simple => cases simple
    | object =>
      cases hright with
      | leaf simple => cases simple
      | object => exact .object _ _
  | leaf same =>
    obtain rfl := hleft.eq_of_simple (.inr same.simple.1)
    obtain rfl := hright.eq_of_simple (.inl same.simple.2)
    exact .leaf same

end Value

namespace Fields

variable {lefts rights : Fields Value}

theorem size_eq_length_keys (fields : Fields Value) : fields.size = fields.keys.length := by
  rw [size, keys, List.length_map]

/-- Keys are distinct, so as many fields whose keys are all found are fields with the same keys. -/
theorem perm_keys_of_subset (sameSize : lefts.size = rights.size)
    (subset : lefts.keys ⊆ rights.keys) : lefts.keys.Perm rights.keys := by
  rw [size_eq_length_keys, size_eq_length_keys] at sameSize
  exact (lefts.nodup_keys.subperm subset).perm_of_length_le (Nat.le_of_eq sameSize.symm)

/-- Keys are in order, so fields with the same keys have them in the same places. -/
theorem keys_eq_of_mem {α β : Type} {lefts : Fields α} {rights : Fields β}
    (same : ∀ name, name ∈ lefts.keys ↔ name ∈ rights.keys) : lefts.keys = rights.keys := by
  have hperm : lefts.keys.Perm rights.keys :=
    (List.perm_ext_iff_of_nodup lefts.nodup_keys rights.nodup_keys).2 same
  have hlefts : lefts.keys.Pairwise (· < ·) := List.pairwise_map.2 lefts.ascending
  have hrights : rights.keys.Pairwise (· < ·) := List.pairwise_map.2 rights.ascending
  refine hperm.eq_of_pairwise (fun _ _ _ _ hless hgreater ↦ ?_) hlefts hrights
  exact absurd hgreater (String.lt_asymm hless)

theorem size_eq_of_keys (same : ∀ name, name ∈ lefts.keys ↔ name ∈ rights.keys) :
    lefts.size = rights.size := by
  rw [size_eq_length_keys, size_eq_length_keys, keys_eq_of_mem same]

end Fields

namespace Store

variable {store : Store} {left right : Value} {related : Value → Value → Bool}

theorem itemsAgree_iff {lefts rights : List Value} :
    itemsAgree related lefts rights = true ↔
      ∀ position : Nat, Option.Rel (related · · = true) lefts[position]? rights[position]? := by
  induction lefts generalizing rights with
  | nil =>
    cases rights with
    | nil => exact iff_of_true rfl fun _ ↦ .none
    | cons right rights =>
      refine iff_of_false (by simp [itemsAgree]) fun hrel ↦ ?_
      cases hrel 0
  | cons left lefts ih =>
    cases rights with
    | nil =>
      refine iff_of_false (by simp [itemsAgree]) fun hrel ↦ ?_
      cases hrel 0
    | cons right rights =>
      rw [itemsAgree, Bool.and_eq_true, ih]
      constructor
      · rintro ⟨hfirst, hrest⟩ position
        cases position with
        | zero => exact .some hfirst
        | succ position => exact hrest position
      · intro hrel
        have hfirst : Option.Rel (related · · = true) (some left) (some right) := hrel 0
        cases hfirst with
        | some hrelated => exact ⟨hrelated, fun position ↦ hrel (position + 1)⟩

/-- Fields agree exactly if every key leads to related values, or to none on either side. -/
theorem fieldsAgree_iff {lefts rights : Fields Value} :
    fieldsAgree related lefts rights = true ↔
      ∀ name, Option.Rel (related · · = true) (lefts.get? name) (rights.get? name) := by
  rw [fieldsAgree, Bool.and_eq_true, beq_iff_eq, List.all_eq_true]
  constructor
  · rintro ⟨hsize, hall⟩
    have hfield {name : String} {value : Value} (found : lefts.get? name = some value) :
        ∃ value', rights.get? name = some value' ∧ related value value' = true := by
      have hentry := hall _ (Fields.get_eq_some_iff.1 found)
      cases hright : rights.get? name with
      | none => rw [hright] at hentry; cases hentry
      | some value' => rw [hright] at hentry; exact ⟨value', rfl, hentry⟩
    have hkeys : lefts.keys.Perm rights.keys := by
      refine Fields.perm_keys_of_subset hsize fun name mem ↦ ?_
      obtain ⟨value, hvalue⟩ := Fields.mem_keys_iff.1 mem
      obtain ⟨value', hvalue', -⟩ := hfield hvalue
      exact Fields.mem_keys_iff.2 ⟨value', hvalue'⟩
    intro name
    refine rel_of_isSome ?_ fun value value' hleft hright ↦ ?_
    · rw [Fields.isSome_get_iff, Fields.isSome_get_iff, hkeys.mem_iff]
    · obtain ⟨other, hother, hrelated⟩ := hfield hleft
      exact Option.some.inj (hother.symm.trans hright) ▸ hrelated
  · intro hrel
    constructor
    · refine Fields.size_eq_of_keys fun name ↦ ?_
      rw [← Fields.isSome_get_iff, ← Fields.isSome_get_iff]
      exact isSome_iff_of_rel (hrel name)
    · rintro ⟨name, value⟩ mem
      have hname := hrel name
      rw [Fields.get_eq_some_iff.2 mem] at hname
      dsimp only
      generalize rights.get? name = value' at hname ⊢
      cases hname with
      | some hrelated => exact hrelated

def compareParts (store : Store) (related : Value → Value → Bool) : Value → Value → Bool
  | .array left, .array right => itemsAgree related (store.items left) (store.items right)
  | .arguments left, .arguments right =>
      itemsAgree related (store.items left) (store.items right)
  | .object left, .object right =>
      fieldsAgree related (store.fields left) (store.fields right)
  | left, right => left.sameLeaf right

theorem equalUpTo_succ (store : Store) (depth : Nat) (left right : Value) :
    store.equalUpTo (depth + 1) left right =
      store.compareParts (store.equalUpTo depth) left right := by
  cases left <;> cases right <;> rfl

theorem compareParts_of_simple (simple : left.isComposite = false) :
    store.compareParts related left right = left.sameLeaf right := by
  cases left with
  | array | arguments | object => cases simple
  | _ => rfl

theorem part_eq_none_of_simple (simple : left.isComposite = false) (step : PathStep) :
    store.part? left step = none := by
  cases left with
  | array | arguments | object => cases simple
  | _ => rfl

/-- One level of the comparison: the values are equal on top, and parts in the same places are
related. -/
theorem compareParts_iff :
    store.compareParts related left right = true ↔
      Value.TopEq left right ∧
      ∀ step, Option.Rel (related · · = true) (store.part? left step) (store.part? right step) := by
  constructor
  · intro same
    unfold compareParts at same
    split at same
    · refine ⟨.array _ _, fun step ↦ ?_⟩
      cases step with
      | index position => exact itemsAgree_iff.1 same position
      | key => exact .none
    · refine ⟨.arguments _ _, fun step ↦ ?_⟩
      cases step with
      | index position => exact itemsAgree_iff.1 same position
      | key => exact .none
    · refine ⟨.object _ _, fun step ↦ ?_⟩
      cases step with
      | index => exact .none
      | key name => exact fieldsAgree_iff.1 same name
    · have hleaf := Value.sameLeaf_iff.1 same
      refine ⟨.leaf hleaf, fun step ↦ ?_⟩
      rw [part_eq_none_of_simple hleaf.simple.1, part_eq_none_of_simple hleaf.simple.2]
      exact .none
  · rintro ⟨htop, hparts⟩
    cases htop with
    | array => exact itemsAgree_iff.2 fun position ↦ hparts (.index position)
    | arguments => exact itemsAgree_iff.2 fun position ↦ hparts (.index position)
    | object => exact fieldsAgree_iff.2 fun name ↦ hparts (.key name)
    | leaf same =>
      rw [compareParts_of_simple same.simple.1]
      exact Value.sameLeaf_iff.2 same

def Shallow (store : Store) (bound : Nat) (value : Value) : Prop :=
  ∀ path node, store.follow? value path = some node → path.length < bound

theorem Shallow.at_part {bound : Nat} {part : Value} {step : PathStep}
    (shallow : store.Shallow (bound + 1) left) (leads : store.part? left step = some part) :
    store.Shallow bound part := by
  intro path node hpath
  have hbound := shallow (step :: path) node (by rw [follow_cons_of_part leads, hpath])
  rw [List.length_cons] at hbound
  omega

theorem shallow_succ {bound : Nat}
    (parts : ∀ step part, store.part? left step = some part → store.Shallow bound part) :
    store.Shallow (bound + 1) left := by
  intro path node hpath
  cases path with
  | nil => exact Nat.succ_pos bound
  | cons step path =>
    obtain ⟨part, hpart, hleads⟩ := exists_part_of_follow_cons hpath
    exact Nat.succ_lt_succ (parts step part hpart path node hleads)

theorem Shallow.acyclic {bound : Nat} (shallow : store.Shallow bound left) : store.Acyclic left :=
  acyclic_of_bounded fun path node hpath ↦ Nat.le_of_lt (shallow path node hpath)

theorem Acyclic.shallow (acyclic : store.Acyclic left) {bound : Nat} (enough : store.size < bound) :
    store.Shallow bound left :=
  fun _ _ hpath ↦ Nat.lt_of_le_of_lt (acyclic.length_le_size hpath) enough

/-- Values are equal down to a number of levels exactly if they unfold alike and end within it. -/
theorem equalUpTo_iff_shallow {depth : Nat} :
    store.equalUpTo depth left right = true ↔
      store.Shallow depth left ∧
      Alike Value.TopEq (store.follow? left) (store.follow? right) := by
  induction depth generalizing left right with
  | zero =>
    refine iff_of_false (by simp [equalUpTo]) fun hshallow ↦ ?_
    exact Nat.not_lt_zero _ (hshallow.1 [] left rfl)
  | succ depth ih =>
    rw [equalUpTo_succ, compareParts_iff, alike_iff]
    constructor
    · rintro ⟨htop, hparts⟩
      refine ⟨shallow_succ fun step part hpart ↦ ?_, htop, fun step ↦ ?_⟩
      · obtain ⟨part', -, hequal⟩ := exists_of_rel_some (hparts step) hpart
        exact (ih.1 hequal).1
      · exact rel_mono (hparts step) fun _ _ _ _ hequal ↦ (ih.1 hequal).2
    · rintro ⟨hshallow, htop, hparts⟩
      refine ⟨htop, fun step ↦ ?_⟩
      exact rel_mono (hparts step) fun _ _ hpart _ halike ↦ ih.2 ⟨hshallow.at_part hpart, halike⟩

/-- As soon as the bound is above the number of cells it is no longer felt: values are equal exactly
if they are acyclic and unfold alike. -/
theorem equalUpTo_iff {depth : Nat} (enough : store.size < depth) :
    store.equalUpTo depth left right = true ↔
      store.Acyclic left ∧ Alike Value.TopEq (store.follow? left) (store.follow? right) := by
  rw [equalUpTo_iff_shallow]
  exact and_congr_left fun _ ↦ ⟨fun shallow ↦ shallow.acyclic, fun acyclic ↦ acyclic.shallow enough⟩

theorem equal_iff : store.equal left right = true ↔
    store.Acyclic left ∧ Alike Value.TopEq (store.follow? left) (store.follow? right) :=
  equalUpTo_iff (Nat.lt_succ_self store.size)

/-- Equal values are both acyclic. -/
theorem acyclic_of_equal (same : store.equal left right = true) :
    store.Acyclic left ∧ store.Acyclic right := by
  obtain ⟨hacyclic, halike⟩ := equal_iff.1 same
  exact ⟨hacyclic, (halike.symm fun _ _ ↦ Value.TopEq.symm).acyclic hacyclic⟩

/-- If one of two values is acyclic, they are equal exactly if they unfold alike. -/
theorem equal_iff_alike (acyclic : store.Acyclic left ∨ store.Acyclic right) :
    store.equal left right = true ↔
      Alike Value.TopEq (store.follow? left) (store.follow? right) := by
  rw [equal_iff]
  refine ⟨And.right, fun halike ↦ ⟨?_, halike⟩⟩
  rcases acyclic with hleft | hright
  · exact hleft
  · exact halike.acyclic hright

theorem equal_symm (same : store.equal left right = true) : store.equal right left = true := by
  obtain ⟨-, halike⟩ := equal_iff.1 same
  exact equal_iff.2 ⟨(acyclic_of_equal same).2, halike.symm fun _ _ ↦ Value.TopEq.symm⟩

theorem equal_comm (store : Store) (left right : Value) :
    store.equal left right = store.equal right left :=
  Bool.eq_iff_iff.2 ⟨equal_symm, equal_symm⟩

/-- Deep equality does not change with values that unfold the same, be it in another store. -/
theorem equal_of_sameTop {other : Store} {left' right' : Value}
    (hleft : Alike Value.SameTop (other.follow? left') (store.follow? left))
    (hright : Alike Value.SameTop (store.follow? right) (other.follow? right'))
    (same : store.equal left right = true) : other.equal left' right' = true := by
  obtain ⟨hacyclic, halike⟩ := equal_iff.1 same
  refine equal_iff.2 ⟨hleft.acyclic hacyclic, fun path ↦ ?_⟩
  have hnear := rel_trans (halike path) (hright path) fun _ value' _ htop hsame ↦
    (⟨value', htop, hsame⟩ : ∃ value', Value.TopEq _ value' ∧ Value.SameTop value' _)
  exact rel_trans (hleft path) hnear fun _ _ _ hsame ⟨_, htop, hsame'⟩ ↦ htop.congr hsame hsame'

/-- To compare the values of the outer pair, those of the inner pair may have to be compared: they
are parts in the same place. -/
def Compares (store : Store) (inner outer : Value × Value) : Prop :=
  ∃ step, store.part? outer.1 step = some inner.1 ∧ store.part? outer.2 step = some inner.2

/-- Where one of the values ends, comparing parts comes to an end. -/
theorem acc_compares {bound : Nat} (ends : store.Shallow bound left ∨ store.Shallow bound right) :
    Acc store.Compares (left, right) := by
  induction bound generalizing left right with
  | zero =>
    rcases ends with ends | ends
    · exact absurd (ends [] left rfl) (Nat.not_lt_zero _)
    · exact absurd (ends [] right rfl) (Nat.not_lt_zero _)
  | succ bound ih =>
    refine Acc.intro _ fun ⟨part, part'⟩ ⟨step, hpart, hpart'⟩ ↦ ?_
    exact ih (ends.imp (fun ends ↦ ends.at_part hpart) fun ends ↦ ends.at_part hpart')

/-- Where one of the values is acyclic, deep equality compares the values on top and is then asked
for the parts in the same places. -/
theorem equal_eq_compareParts (acyclic : store.Acyclic left ∨ store.Acyclic right) :
    store.equal left right = store.compareParts store.equal left right := by
  have hpart {step : PathStep} {part part' : Value} (hpart : store.part? left step = some part)
      (hpart' : store.part? right step = some part') :
      store.equal part part' = true ↔
        Alike Value.TopEq (store.follow? part) (store.follow? part') :=
    equal_iff_alike (acyclic.imp (fun acyclic ↦ acyclic.at_part hpart)
      fun acyclic ↦ acyclic.at_part hpart')
  rw [Bool.eq_iff_iff, equal_iff_alike acyclic, compareParts_iff, alike_iff]
  refine and_congr_right fun _ ↦ forall_congr' fun step ↦ ?_
  exact ⟨fun hrel ↦ rel_mono hrel fun _ _ hleft hright ↦ (hpart hleft hright).2,
    fun hrel ↦ rel_mono hrel fun _ _ hleft hright ↦ (hpart hleft hright).1⟩

end Store

/-! ## Equality is structural -/

/-- What deep equality of two values is: the comparison on top and of the parts, without a bound on
the depth. Values with a cycle below them are not equal to anything, and how parts are shared makes
no difference. -/
structure StructuralEquality (store : Store) (left right : Value) : Prop where
  terminates : Acc store.Compares (left, right)
  recursion : ∀ path node node', store.follow? left path = some node →
    store.follow? right path = some node' →
    store.equal node node' = store.compareParts store.equal node node'
  symmetric : store.equal left right = store.equal right left
  equal_iff : store.equal left right = true ↔
    ∀ path, Option.Rel Value.TopEq (store.follow? left path) (store.follow? right path)
  cyclic : ¬ store.Acyclic left ∨ ¬ store.Acyclic right → store.equal left right = false
  sharing : ∀ left' right', Store.Alike Value.SameTop (store.follow? left') (store.follow? left) →
    Store.Alike Value.SameTop (store.follow? right') (store.follow? right) →
    store.equal left' right' = store.equal left right

/-- Deep equality of values of which one is acyclic is structural. -/
theorem equal_structural (store : Store) (left right : Value)
    (acyclic : store.Acyclic left ∨ store.Acyclic right) :
    StructuralEquality store left right where
  terminates := by
    have hends (value : Value) (hvalue : store.Acyclic value) :
        store.Shallow (store.size + 1) value := hvalue.shallow (Nat.lt_succ_self _)
    exact Store.acc_compares (acyclic.imp (hends left) (hends right))
  recursion path node node' hnode hnode' :=
    Store.equal_eq_compareParts (acyclic.imp (fun acyclic ↦ acyclic.at_node hnode)
      fun acyclic ↦ acyclic.at_node hnode')
  symmetric := store.equal_comm left right
  equal_iff := Store.equal_iff_alike acyclic
  cyclic := by
    intro hcyclic
    rw [← Bool.not_eq_true]
    intro same
    obtain ⟨hleft, hright⟩ := Store.acyclic_of_equal same
    exact hcyclic.elim (fun hcyclic ↦ hcyclic hleft) fun hcyclic ↦ hcyclic hright
  sharing left' right' hleft hright := by
    have hback {value value' : Value} (hsame : Store.Alike Value.SameTop (store.follow? value')
        (store.follow? value)) := hsame.symm fun _ _ ↦ Value.SameTop.symm
    rw [Bool.eq_iff_iff]
    exact ⟨Store.equal_of_sameTop (hback hleft) hright,
      Store.equal_of_sameTop hleft (hback hright)⟩

/-- Two arrays of two arrays each, of which only the first holds the same one twice. The inner
arrays are equal although one of them has an integer where the other has a float. A third array
holds itself. -/
theorem equal_structural_shared :
    let store : Store :=
      ⟨#[[.int 30, .text "a"], [.array ⟨0⟩, .array ⟨0⟩], [.array ⟨0⟩, .array ⟨3⟩],
        [.float (.ofInt 30), .text "a"], [.array ⟨4⟩]], #[], 0⟩
    let shared := Value.array ⟨1⟩
    let apart := Value.array ⟨2⟩
    let cyclic := Value.array ⟨4⟩
    store.equal shared apart = true ∧ store.Acyclic shared ∧
      StructuralEquality store shared apart ∧ StructuralEquality store cyclic shared := by
  intro store shared apart cyclic
  have hequal : store.equal shared apart = true := by decide +kernel
  have hacyclic : store.Acyclic shared := (Store.acyclic_of_equal hequal).1
  exact ⟨hequal, hacyclic, equal_structural store shared apart (.inl hacyclic),
    equal_structural store cyclic shared (.inr hacyclic)⟩

end RuleCheck
