import RuleCheck.Proofs.Growth

/-!
# Values that correspond

Two computations that begin in one store go on in two, since each adds cells of its own. A
correspondence says which values of the one store are those of the other. What was there at the
beginning corresponds to itself and to nothing else, leaves are the same, composites have one
constructor and corresponding parts, and no two cells of one store correspond to one cell of the
other. So from inside, corresponding values cannot be told apart: they have the same kind and the
same text, their members correspond, they give the same names, and two of them are equal if those
that they correspond to are.
-/

namespace RuleCheck

/-- Which values of one store are those of another. -/
abbrev Correspondence := Value → Value → Prop

def Correspondence.Within (same wider : Correspondence) : Prop :=
  ∀ value value', same value value' → wider value value'

def Correspondence.adding (same : Correspondence) (new new' : Value) : Correspondence :=
  fun value value' ↦ same value value' ∨ value = new ∧ value' = new'

namespace Correspondence.Within

variable {same wider widest : Correspondence}

theorem refl (same : Correspondence) : same.Within same :=
  fun _ _ ↦ id

theorem trans (first : same.Within wider) (second : wider.Within widest) : same.Within widest :=
  fun value value' hsame ↦ second value value' (first value value' hsame)

theorem adding (same : Correspondence) (new new' : Value) : same.Within (same.adding new new') :=
  fun _ _ ↦ .inl

end Correspondence.Within

/-- The values show the same on top, and their parts in the same places correspond. -/
inductive Value.Matches (store other : Store) (same : Correspondence) : Value → Value → Prop
  | array {ref ref' : ListRef} (items : List.Forall₂ same (store.items ref) (other.items ref')) :
      Matches store other same (.array ref) (.array ref')
  | arguments {ref ref' : ListRef}
      (items : List.Forall₂ same (store.items ref) (other.items ref')) :
      Matches store other same (.arguments ref) (.arguments ref')
  | object {ref ref' : RecordRef}
      (entries : List.Forall₂ (fun entry entry' ↦ entry.1 = entry'.1 ∧ same entry.2 entry'.2)
        (store.fields ref).entries (other.fields ref').entries) :
      Matches store other same (.object ref) (.object ref')
  | leaf {value : Value} (simple : value.isComposite = false) : Matches store other same value value

/-- A correspondence between two stores that grew from one. What was there at the beginning
corresponds to itself and to nothing else, and cells are not mixed up. -/
structure Corresponds (base store other : Store) (same : Correspondence) : Prop where
  le : base ≤ store
  le_other : base ≤ other
  held : ∀ {value value'}, same value value' → store.Holds value ∧ other.Holds value'
  refl : ∀ {value}, base.Holds value → same value value
  eq_of_old : ∀ {value value'}, same value value' → base.Holds value ∨ base.Holds value' →
    value = value'
  contents : ∀ {value value'}, same value value' → value.Matches store other same value'
  identity_iff : ∀ {first first' second second'}, same first first' → same second second' →
    (first.identity? = second.identity? ↔ first'.identity? = second'.identity?)

/-- An array gives names by the texts of its only two items. -/
theorem Names.ofValue_array (store : Store) (ref : ListRef) :
    ofValue? store (.array ref) =
      match store.items ref with
      | [label, qualifier] =>
          label.text?.bind fun label ↦ qualifier.text?.map fun qualifier ↦ ⟨label, qualifier⟩
      | _ => none := by
  rw [ofValue?]
  generalize store.items ref = items
  rcases items with _ | ⟨label, _ | ⟨qualifier, _ | ⟨third, rest⟩⟩⟩
  · rfl
  · cases label <;> rfl
  · cases label with
    | text => cases qualifier <;> rfl
    | _ => rfl
  · cases label with
    | text => cases qualifier <;> rfl
    | _ => rfl

namespace Value

variable {value value' limit limit' : Value}

theorem Matches.sameTop {store other : Store} {same : Correspondence}
    (hmatches : value.Matches store other same value') : SameTop value value' := by
  cases hmatches with
  | array => exact .array _ _
  | arguments => exact .arguments _ _
  | object => exact .object _ _
  | leaf simple => exact .leaf simple

theorem Matches.mono {store other : Store} {same wider : Correspondence}
    (hmatches : value.Matches store other same value') (within : same.Within wider) :
    value.Matches store other wider value' := by
  cases hmatches with
  | array items => exact .array (items.imp within)
  | arguments items => exact .arguments (items.imp within)
  | object entries => exact .object (entries.imp fun _ _ ↦ And.imp_right (within _ _))
  | leaf simple => exact .leaf simple

namespace SameTop

theorem kind_eq (same : SameTop value value') : value.kind = value'.kind := by
  cases same <;> rfl

theorem text_eq (same : SameTop value value') : value.text? = value'.text? := by
  cases same <;> rfl

theorem compare_eq (same : SameTop value value') (same_limit : SameTop limit limit') :
    value.compare? limit = value'.compare? limit' := by
  cases same with
  | array | arguments | object =>
    cases same_limit with
    | array | arguments | object => rfl
    | leaf => cases limit <;> rfl
  | leaf =>
    cases same_limit with
    | array | arguments | object => cases value <;> rfl
    | leaf => rfl

end SameTop

end Value

namespace Corresponds

variable {base store other later later' : Store} {same : Correspondence}
  {value value' left left' right right' : Value}

theorem sameTop (corresponds : Corresponds base store other same) (hsame : same value value') :
    Value.SameTop value value' :=
  (corresponds.contents hsame).sameTop

/-- A leaf corresponds to itself. -/
theorem leaf (corresponds : Corresponds base store other same)
    (simple : value.isComposite = false) : same value value := by
  refine corresponds.refl ?_
  cases value with
  | array | arguments | object => cases simple
  | _ => trivial

/-- Texts correspond to themselves. -/
theorem texts (corresponds : Corresponds base store other same) (contents : List String) :
    List.Forall₂ same (contents.map .text) (contents.map .text) := by
  refine List.forall₂_same.2 fun value mem ↦ ?_
  obtain ⟨content, -, rfl⟩ := List.mem_map.1 mem
  exact corresponds.leaf rfl

theorem items (corresponds : Corresponds base store other same) {ref ref' : ListRef}
    (hsame : same (.array ref) (.array ref')) :
    List.Forall₂ same (store.items ref) (other.items ref') := by
  cases corresponds.contents hsame with
  | array items => exact items
  | leaf simple => cases simple

theorem entries (corresponds : Corresponds base store other same) {ref ref' : RecordRef}
    (hsame : same (.object ref) (.object ref')) :
    List.Forall₂ (fun entry entry' ↦ entry.1 = entry'.1 ∧ same entry.2 entry'.2)
      (store.fields ref).entries (other.fields ref').entries := by
  cases corresponds.contents hsame with
  | object entries => exact entries
  | leaf simple => cases simple

theorem members (corresponds : Corresponds base store other same) (hsame : same value value') :
    List.Forall₂ same (store.members value) (other.members value') := by
  cases corresponds.contents hsame with
  | array items | arguments items => exact items
  | object entries =>
    change List.Forall₂ same ((store.fields _).entries.map (·.2))
      ((other.fields _).entries.map (·.2))
    rw [List.forall₂_map_left_iff, List.forall₂_map_right_iff]
    exact entries.imp fun _ _ ↦ And.right
  | leaf simple =>
    cases value with
    | array | arguments | object => cases simple
    | undefined => exact .nil
    | _ => exact .cons hsame .nil

/-- Corresponding values give the same names. -/
theorem names_eq (corresponds : Corresponds base store other same) (hsame : same value value') :
    Names.ofValue? store value = Names.ofValue? other value' := by
  cases corresponds.contents hsame with
  | arguments | object => rfl
  | leaf simple =>
    cases value with
    | array => cases simple
    | _ => rfl
  | @array ref ref' items =>
    rw [Names.ofValue_array, Names.ofValue_array]
    generalize store.items ref = values, other.items ref' = values' at items
    cases items with
    | nil => rfl
    | cons label rest =>
      cases rest with
      | nil => rfl
      | cons qualifier rest =>
        cases rest with
        | nil =>
          dsimp only
          rw [(corresponds.sameTop label).text_eq, (corresponds.sameTop qualifier).text_eq]
        | cons => rfl

theorem rel_getElem {items items' : List Value} (hitems : List.Forall₂ same items items')
    (position : Nat) : Option.Rel same items[position]? items'[position]? := by
  induction hitems generalizing position with
  | nil => exact .none
  | cons hfirst _ ih =>
    cases position with
    | zero => exact .some hfirst
    | succ position => exact ih position

theorem rel_get {fields fields' : Fields Value}
    (entries : List.Forall₂ (fun entry entry' ↦ entry.1 = entry'.1 ∧ same entry.2 entry'.2)
      fields.entries fields'.entries) (name : String) :
    Option.Rel same (fields.get? name) (fields'.get? name) := by
  rw [Fields.get?, Fields.get?]
  generalize fields.entries = left, fields'.entries = right at entries
  induction entries with
  | nil => exact .none
  | @cons entry entry' _ _ hentry _ ih =>
    obtain ⟨hkey, hvalue⟩ := hentry
    rw [List.find?_cons, List.find?_cons, ← hkey]
    cases entry.1 == name with
    | true => exact .some hvalue
    | false => exact ih

theorem part (corresponds : Corresponds base store other same) (hsame : same value value')
    (step : PathStep) : Option.Rel same (store.part? value step) (other.part? value' step) := by
  cases corresponds.contents hsame with
  | array items | arguments items =>
    cases step with
    | index position => exact rel_getElem items position
    | key => exact .none
  | object entries =>
    cases step with
    | index => exact .none
    | key name => exact rel_get entries name
  | leaf simple =>
    rw [Store.part_eq_none_of_simple simple, Store.part_eq_none_of_simple simple]
    exact .none

/-- Each path leads to values that correspond, or nowhere on both sides. -/
theorem alike (corresponds : Corresponds base store other same) (hsame : same value value') :
    Store.Alike same (store.follow? value) (other.follow? value') := by
  intro path
  induction path generalizing value value' with
  | nil => exact .some hsame
  | cons step path ih =>
    rw [Store.follow_cons, Store.follow_cons]
    have hpart := corresponds.part hsame step
    generalize store.part? value step = part at hpart ⊢
    generalize other.part? value' step = part' at hpart ⊢
    cases hpart with
    | none => exact .none
    | some hpart => exact ih hpart

/-- Two values are equal exactly if those are that they correspond to. -/
theorem equal_eq (corresponds : Corresponds base store other same) (hleft : same left left')
    (hright : same right right') : store.equal left right = other.equal left' right' := by
  have hunfold {value value' : Value} (hsame : same value value') :
      Store.Alike Value.SameTop (store.follow? value) (other.follow? value') :=
    fun path ↦ Store.rel_mono (corresponds.alike hsame path) fun _ _ _ _ ↦ corresponds.sameTop
  have hback {value value' : Value} (hsame : same value value') :
      Store.Alike Value.SameTop (other.follow? value') (store.follow? value) :=
    (hunfold hsame).symm fun _ _ ↦ Value.SameTop.symm
  rw [Bool.eq_iff_iff]
  exact ⟨Store.equal_of_sameTop (hback hleft) (hunfold hright),
    Store.equal_of_sameTop (hunfold hleft) (hback hright)⟩

theorem matches_of_le (corresponds : Corresponds base store other same) (le : store ≤ later)
    (le_other : other ≤ later') (hsame : same value value') :
    value.Matches later later' same value' := by
  obtain ⟨hheld, hheld'⟩ := corresponds.held hsame
  cases corresponds.contents hsame with
  | array items =>
    refine .array ?_
    rwa [Store.items_of_le le hheld, Store.items_of_le le_other hheld']
  | arguments items =>
    refine .arguments ?_
    rwa [Store.items_of_le le hheld, Store.items_of_le le_other hheld']
  | object entries =>
    refine .object ?_
    rwa [Store.fields_of_le le hheld, Store.fields_of_le le_other hheld']
  | leaf simple => exact .leaf simple

/-- Values go on to correspond while both stores grow, each in its own way. -/
theorem of_le (corresponds : Corresponds base store other same) (le : store ≤ later)
    (le_other : other ≤ later') : Corresponds base later later' same where
  le := le_trans corresponds.le le
  le_other := le_trans corresponds.le_other le_other
  held hsame := ⟨(corresponds.held hsame).1.mono le, (corresponds.held hsame).2.mono le_other⟩
  refl := corresponds.refl
  eq_of_old := corresponds.eq_of_old
  contents := corresponds.matches_of_le le le_other
  identity_iff := corresponds.identity_iff

/-- At the beginning each value corresponds to itself. -/
theorem self (closed : base.Closed) :
    Corresponds base base base fun value value' ↦ base.Holds value ∧ value = value' where
  le := le_refl base
  le_other := le_refl base
  held := by
    rintro value _ ⟨hheld, rfl⟩
    exact ⟨hheld, hheld⟩
  refl hheld := ⟨hheld, rfl⟩
  eq_of_old hsame _ := hsame.2
  contents := by
    rintro value _ ⟨hheld, rfl⟩
    cases value with
    | array ref =>
      exact .array (List.forall₂_same.2 fun item mem ↦
        ⟨closed.holds_of_mem_members hheld mem, rfl⟩)
    | arguments ref =>
      exact .arguments (List.forall₂_same.2 fun item mem ↦
        ⟨closed.holds_of_mem_members hheld mem, rfl⟩)
    | object ref =>
      refine .object (List.forall₂_same.2 fun entry mem ↦ ⟨rfl, ?_, rfl⟩)
      exact closed.records _ (Store.fields_mem_toList hheld) entry mem
    | _ => exact .leaf rfl
  identity_iff := by
    rintro _ _ _ _ ⟨-, rfl⟩ ⟨-, rfl⟩
    exact Iff.rfl

/-- What a store holds lies in none of the cells that it is yet to have. -/
theorem identity_ne_of_held (held : store.Holds value) {ref : ListRef}
    (past : store.lists.size ≤ ref.index) : value.identity? ≠ some (.list ref) := by
  cases value with
  | array | arguments =>
    intro same
    obtain rfl := Identity.list.inj (Option.some.inj same)
    exact absurd held (Nat.not_lt_of_le past)
  | _ => simp [Value.identity?]

/-- New arrays with corresponding items correspond from then on. -/
theorem newArray (corresponds : Corresponds base store other same) {items items' : List Value}
    (hitems : List.Forall₂ same items items') :
    Corresponds base (Value.newArray items store).2 (Value.newArray items' other).2
      (same.adding (Value.newArray items store).1 (Value.newArray items' other).1) := by
  let new : ListRef := ⟨store.lists.size⟩
  let new' : ListRef := ⟨other.lists.size⟩
  have hwithin : same.Within (same.adding (.array new) (.array new')) := .adding same _ _
  have hgrown := corresponds.of_le (Store.le_newArray items store) (Store.le_newArray items' other)
  -- Nothing that corresponded before lies in one of the new cells.
  have hapart {value value' : Value} (hsame : same value value') :
      value.identity? ≠ some (.list new) ∧ value'.identity? ≠ some (.list new') :=
    ⟨identity_ne_of_held (corresponds.held hsame).1 (Nat.le_refl _),
      identity_ne_of_held (corresponds.held hsame).2 (Nat.le_refl _)⟩
  exact {
    le := hgrown.le
    le_other := hgrown.le_other
    held := by
      rintro value value' (hsame | ⟨rfl, rfl⟩)
      · exact hgrown.held hsame
      · have hnew : store.lists.size < (store.lists.push items).size := by simp
        have hnew' : other.lists.size < (other.lists.push items').size := by simp
        exact ⟨hnew, hnew'⟩
    refl := fun hheld ↦ .inl (corresponds.refl hheld)
    eq_of_old := by
      rintro value value' (hsame | ⟨rfl, rfl⟩) hold
      · exact corresponds.eq_of_old hsame hold
      · rcases hold with hold | hold
        · exact absurd hold (Nat.not_lt_of_le corresponds.le.1.length_le)
        · exact absurd hold (Nat.not_lt_of_le corresponds.le_other.1.length_le)
    contents := by
      rintro value value' (hsame | ⟨rfl, rfl⟩)
      · exact (hgrown.contents hsame).mono hwithin
      · have hread : (Value.newArray items store).2.items new = items :=
          Store.items_addList_self store items
        have hread' : (Value.newArray items' other).2.items new' = items' :=
          Store.items_addList_self other items'
        refine .array ?_
        rw [hread, hread']
        exact hitems.imp hwithin
    identity_iff := by
      rintro first first' second second' (hfirst | ⟨rfl, rfl⟩) (hsecond | ⟨rfl, rfl⟩)
      · exact corresponds.identity_iff hfirst hsecond
      · exact iff_of_false (hapart hfirst).1 (hapart hfirst).2
      · exact iff_of_false (hapart hsecond).1.symm (hapart hsecond).2.symm
      · exact iff_of_true rfl rfl }

end Corresponds

end RuleCheck
