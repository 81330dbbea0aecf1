import RuleCheck.Proofs.OptionSlots
import RuleCheck.Proofs.UniformFunctions
import RuleCheck.Proofs.Visit

/-!
# Rules that differ only in names

Two rules differ only in names if they are the same up to the names that lead simple rules: lists
and guards have such rules in the same places, simple rules have the same elements after their
names, and all else is the same. Rules may hold themselves, so this is the largest relation that
says so of a rule and of what it holds.

Twins are two such rules, or rules that two evaluations have made and that correspond. Both have a
valid form or neither has, and they are decoded to shapes that are alike, with twins in the same
places.
-/

namespace RuleCheck

variable {σ : Type}

/-- The first item gives names, so that the items are no list of rules. -/
def Names.lead (store : Store) : List Value → Bool
  | [] => false
  | first :: _ => isNames store first

/-- The rules agree at one level: they are led by some names and go on with the same elements, or
are led by no names and hold related rules, or are no arrays and the same. -/
inductive Rule.Alike (store other : Store) (same related : Correspondence) : Value → Value → Prop
  | named {ref ref' : ListRef} {names names' : Value} {rest rest' : List Value}
      (items : store.items ref = names :: rest) (items' : other.items ref' = names' :: rest')
      (isNames : Names.isNames store names = true) (isNames' : Names.isNames other names' = true)
      (elements : List.Forall₂ same rest rest') :
      Alike store other same related (.array ref) (.array ref')
  | unnamed {ref ref' : ListRef} (lead : Names.lead store (store.items ref) = false)
      (lead' : Names.lead other (other.items ref') = false)
      (members : List.Forall₂ related (store.items ref) (other.items ref')) :
      Alike store other same related (.array ref) (.array ref')
  | leaf {rule rule' : Value} (single : ∀ ref, rule ≠ .array ref) (equal : same rule rule') :
      Alike store other same related rule rule'

def Rule.DifferOnlyInNames (store : Store) (rule rule' : Value) : Prop :=
  ∃ related : Correspondence, related rule rule' ∧
    ∀ rule rule', related rule rule' → Rule.Alike store store Eq related rule rule'

/-- Two rules in two evaluations that began in one store: they correspond, or were there at the
beginning and differ only in names. -/
def Rule.Twins (base : Store) (same : Correspondence) (rule rule' : Value) : Prop :=
  same rule rule' ∨
    (base.Holds rule ∧ base.Holds rule') ∧ Rule.DifferOnlyInNames base rule rule'

namespace Rule

variable {base store other : Store} {same wider : Correspondence} {rule rule' : Value}

theorem Twins.mono (twins : Twins base same rule rule') (within : same.Within wider) :
    Twins base wider rule rule' :=
  twins.imp_left (within _ _)

/-- What corresponds is alike, and holds rules that correspond. -/
theorem alike_of_same {related : Correspondence} (corresponds : Corresponds base store other same)
    (within : same.Within related) (hsame : same rule rule') :
    Alike store other same related rule rule' := by
  cases corresponds.contents hsame with
  | @array ref ref' items =>
    have hrelated : List.Forall₂ related (store.items ref) (other.items ref') :=
      items.imp within
    generalize hitems : store.items ref = values at items
    generalize hitems' : other.items ref' = values' at items
    cases items with
    | nil =>
      exact .unnamed (by rw [hitems]; rfl) (by rw [hitems']; rfl) hrelated
    | @cons first first' rest rest' hfirst hrest =>
      have hnames : Names.isNames other first' = Names.isNames store first := by
        rw [Names.isNames, Names.isNames, corresponds.names_eq hfirst]
      cases hnamed : Names.isNames store first with
      | true => exact .named hitems hitems' hnamed (hnames.trans hnamed) hrest
      | false =>
        refine .unnamed ?_ ?_ hrelated
        · rw [hitems]
          exact hnamed
        · rw [hitems']
          exact hnames.trans hnamed
  | arguments | object => exact .leaf (by simp) hsame
  | leaf simple =>
    refine .leaf ?_ hsame
    rintro ref rfl
    cases simple

/-- Whether items are led by names does not change while the store grows. -/
theorem lead_of_le (closed : base.Closed) (le : base ≤ store) {items : List Value}
    (held : ∀ item ∈ items, base.Holds item) :
    Names.lead store items = Names.lead base items := by
  cases items with
  | nil => rfl
  | cons first rest =>
    have hcorresponds := (Corresponds.self closed).of_le (le_refl base) le
    have hnames := hcorresponds.names_eq ⟨held first List.mem_cons_self, rfl⟩
    rw [Names.lead, Names.lead, Names.isNames, Names.isNames, hnames]

/-- Related rules that were there at the beginning are twins. -/
theorem forall₂_twins {related : Correspondence}
    (alike : ∀ rule rule', related rule rule' → Alike base base Eq related rule rule')
    {rules rules' : List Value} (held : ∀ rule ∈ rules, base.Holds rule)
    (held' : ∀ rule ∈ rules', base.Holds rule) (members : List.Forall₂ related rules rules') :
    List.Forall₂ (Twins base same) rules rules' := by
  induction members with
  | nil => exact .nil
  | cons hrelated _ ih =>
    rw [List.forall_mem_cons] at held held'
    exact .cons (.inr ⟨⟨held.1, held'.1⟩, related, hrelated, alike⟩) (ih held.2 held'.2)

/-- Rules that differ only in names stay alike while the stores grow. -/
theorem alike_of_differ (closed : base.Closed) (corresponds : Corresponds base store other same)
    (held : base.Holds rule) (held' : base.Holds rule')
    (differ : DifferOnlyInNames base rule rule') :
    Alike store other same (Twins base same) rule rule' := by
  obtain ⟨related, hrelated, halike⟩ := differ
  have hitem {ref : ListRef} (held : base.Holds (.array ref)) :
      ∀ item ∈ base.items ref, base.Holds item :=
    fun item mem ↦ closed.lists _ (Store.items_mem_toList held) item mem
  cases halike _ _ hrelated with
  | @named ref ref' names names' rest rest' items items' isNames isNames' elements =>
    -- The elements are the very same values, which correspond to themselves.
    obtain rfl := List.forall₂_eq_eq_eq ▸ elements
    refine .named ((Store.items_of_le corresponds.le held).trans items)
      ((Store.items_of_le corresponds.le_other held').trans items')
      (Names.isNames_of_le corresponds.le isNames)
      (Names.isNames_of_le corresponds.le_other isNames') ?_
    refine List.forall₂_same.2 fun element mem ↦ corresponds.refl (hitem held element ?_)
    rw [items]
    exact List.mem_cons_of_mem _ mem
  | @unnamed ref ref' lead lead' members =>
    have hitems := Store.items_of_le corresponds.le held
    have hitems' := Store.items_of_le corresponds.le_other held'
    refine .unnamed ?_ ?_ ?_
    · rw [hitems, lead_of_le closed corresponds.le (hitem held), lead]
    · rw [hitems', lead_of_le closed corresponds.le_other (hitem held'), lead']
    · rw [hitems, hitems']
      exact forall₂_twins halike (hitem held) (hitem held') members
  | leaf single equal =>
    subst equal
    exact .leaf single (corresponds.refl held)

theorem Twins.alike (closed : base.Closed) (corresponds : Corresponds base store other same)
    (twins : Twins base same rule rule') : Alike store other same (Twins base same) rule rule' := by
  rcases twins with hsame | ⟨⟨hheld, hheld'⟩, hdiffer⟩
  · exact alike_of_same corresponds (fun _ _ ↦ .inl) hsame
  · exact alike_of_differ closed corresponds hheld hheld' hdiffer

variable {related : Correspondence}

theorem Alike.sameTop (corresponds : Corresponds base store other same)
    (alike : Alike store other same related rule rule') : Value.SameTop rule rule' := by
  cases alike with
  | named | unnamed => exact .array _ _
  | leaf _ equal => exact corresponds.sameTop equal

theorem Alike.length_members (corresponds : Corresponds base store other same)
    (alike : Alike store other same related rule rule') :
    (store.members rule).length = (other.members rule').length := by
  cases alike with
  | named items items' _ _ elements =>
    simp only [Store.members, items, items', List.length_cons, elements.length_eq]
  | unnamed _ _ members => exact members.length_eq
  | leaf _ equal => exact (corresponds.members equal).length_eq

end Rule

structure SimpleRule.Alike (same : Correspondence) (rule rule' : SimpleRule) : Prop where
  subject : same rule.subject rule'.subject
  target : same rule.target rule'.target
  operator : rule.operator = rule'.operator
  test : rule.test = rule'.test

inductive Shape.Alike (same related : Correspondence) : Shape → Shape → Prop
  | boolean (outcome : Bool) : Alike same related (.boolean outcome) (.boolean outcome)
  | function (callee : Function) : Alike same related (.function callee) (.function callee)
  | empty : Alike same related .empty .empty
  | guard (condition : Bool) {rules rules' : Value} (opened : related rules rules') :
      Alike same related (.guard condition rules) (.guard condition rules')
  | list {rules rules' : List Value} (opened : List.Forall₂ related rules rules') :
      Alike same related (.list rules) (.list rules')
  | simple {rule rule' : SimpleRule} (alike : rule.Alike same rule') :
      Alike same related (.simple rule) (.simple rule')
  | malformed : Alike same related .malformed .malformed

section Decoding

variable {base store other : Store} {same related : Correspondence}

namespace SimpleRule.Alike

variable {rule rule' : SimpleRule}

/-- Corresponding elements after the third are taken up alike. -/
theorem takeOption (corresponds : Corresponds base store other same) (alike : rule.Alike same rule')
    {option option' : Value} (hoption : same option option') :
    (rule.takeOption option).Alike same (rule'.takeOption option') := by
  obtain ⟨hsubject, htarget, hoperator, htest⟩ := alike
  have hsame : rule.Alike same rule' := ⟨hsubject, htarget, hoperator, htest⟩
  cases corresponds.sameTop hoption with
  | array | arguments | object => exact hsame
  | leaf =>
    cases option with
    | text =>
      rw [SimpleRule.takeOption, SimpleRule.takeOption, hoperator]
      split
      · exact ⟨hsubject, htarget, rfl, htest⟩
      · exact hsame
    | function =>
      rw [SimpleRule.takeOption, SimpleRule.takeOption, htest]
      split
      · exact ⟨hsubject, htarget, hoperator, rfl⟩
      · exact hsame
    | _ => exact hsame

/-- Simple rules with corresponding elements are alike, whatever their names are. -/
theorem ofParts (corresponds : Corresponds base store other same) (names names' : Names)
    {subject subject' target target' : Value} (hsubject : same subject subject')
    (htarget : same target target') {options options' : List Value}
    (hoptions : List.Forall₂ same options options') :
    (SimpleRule.ofParts names subject target options).Alike same
      (.ofParts names' subject' target' options') := by
  have hfold : ∀ rule rule' : SimpleRule, rule.Alike same rule' →
      (options.foldl SimpleRule.takeOption rule).Alike same
        (options'.foldl SimpleRule.takeOption rule') := by
    induction hoptions with
    | nil => exact fun _ _ ↦ id
    | cons hoption _ ih => exact fun _ _ alike ↦ ih _ _ (alike.takeOption corresponds hoption)
  exact hfold _ _ ⟨hsubject, htarget, rfl, rfl⟩

end SimpleRule.Alike

namespace Shape

/-- What shows the same as a condition and an array is the same condition and an array. -/
theorem eq_guard_of_sameTop {condition : Bool} {rules : ListRef} {items' : List Value}
    (sameTop : List.Forall₂ Value.SameTop [.bool condition, .array rules] items') :
    ∃ rules', items' = [.bool condition, .array rules'] := by
  cases sameTop with
  | cons hfirst hrest =>
    cases hrest with
    | cons hsecond hnil =>
      cases hfirst
      cases hnil
      cases hsecond with
      | array _ rules' => exact ⟨rules', rfl⟩
      | leaf simple => cases simple

/-- Items that are neither led by names nor a guard are a list of rules. -/
theorem ofItems_of_unguarded {store : Store} {first : Value} {rest : List Value}
    (lead : Names.lead store (first :: rest) = false)
    (unguarded : ∀ condition rules, first :: rest ≠ [.bool condition, .array rules]) :
    ofItems store (first :: rest) = .list (first :: rest) := by
  have hnames : Names.ofValue? store first = none := Option.isNone_iff_eq_none.1 (by
    simpa [Names.lead, Names.isNames] using lead)
  rw [ofItems, ofMembers, hnames]
  rintro condition rules rfl rfl
  exact unguarded condition rules rfl

/-- Related items that are not led by names are both empty, both a guard or both a list of rules. -/
theorem alike_ofItems {items items' : List Value} (lead : Names.lead store items = false)
    (lead' : Names.lead other items' = false) (members : List.Forall₂ related items items')
    (sameTop : ∀ rule rule', related rule rule' → Value.SameTop rule rule') :
    Alike same related (ofItems store items) (ofItems other items') := by
  have htops : List.Forall₂ Value.SameTop items items' := members.imp sameTop
  have htops' : List.Forall₂ Value.SameTop items' items :=
    (members.imp fun _ _ hrelated ↦ (sameTop _ _ hrelated).symm).flip
  by_cases hguard : ∃ condition rules, items = [.bool condition, .array rules]
  · obtain ⟨condition, rules, rfl⟩ := hguard
    obtain ⟨rules', rfl⟩ := eq_guard_of_sameTop htops
    cases members with
    | cons _ hrest =>
      cases hrest with
      | cons hrules => exact .guard condition hrules
  · have hunguarded (condition rules) : items ≠ [.bool condition, .array rules] :=
      fun hitems ↦ hguard ⟨condition, rules, hitems⟩
    have hunguarded' (condition rules) : items' ≠ [.bool condition, .array rules] := by
      rintro rfl
      obtain ⟨rules, hitems⟩ := eq_guard_of_sameTop htops'
      exact hunguarded condition rules hitems
    cases members with
    | nil => exact .empty
    | cons hfirst hrest =>
      rw [ofItems_of_unguarded lead hunguarded, ofItems_of_unguarded lead' hunguarded']
      exact .list (.cons hfirst hrest)

/-- Alike rules are decoded to alike shapes. -/
theorem alike_ofValue (corresponds : Corresponds base store other same) {rule rule' : Value}
    (alike : Rule.Alike store other same related rule rule')
    (sameTop : ∀ rule rule', related rule rule' → Value.SameTop rule rule') :
    Alike same related (ofValue store rule) (ofValue other rule') := by
  cases alike with
  | @named ref ref' first first' rest rest' items items' isNames isNames' elements =>
    obtain ⟨names, hnames⟩ := Names.isNames_iff.1 isNames
    obtain ⟨names', hnames'⟩ := Names.isNames_iff.1 isNames'
    by_cases hshort : rest.length < 2
    · have hshort' : rest'.length < 2 := elements.length_eq ▸ hshort
      rw [(ofValue_of_short items hnames hshort).1, (ofValue_of_short items' hnames' hshort').1]
      exact .malformed
    · obtain ⟨subject, target, options, rfl⟩ :
          ∃ subject target options, rest = subject :: target :: options := by
        rcases rest with _ | ⟨subject, _ | ⟨target, options⟩⟩
        · simp at hshort
        · simp at hshort
        · exact ⟨subject, target, options, rfl⟩
      cases elements with
      | cons hsubject elements =>
        cases elements with
        | cons htarget hoptions =>
          rw [ofValue_of_names items hnames, ofValue_of_names items' hnames']
          exact .simple (.ofParts corresponds names names' hsubject htarget hoptions)
  | unnamed lead lead' members => exact alike_ofItems lead lead' members sameTop
  | leaf single equal =>
    cases corresponds.contents equal with
    | array => exact absurd rfl (single _)
    | arguments | object => exact .malformed
    | leaf simple =>
      cases rule with
      | bool => exact .boolean _
      | function => exact .function _
      | array => cases simple
      | _ => exact .malformed

end Shape

/-- Of two alike rules both have a valid form, or neither. -/
theorem Rule.check_eq_ok_congr (corresponds : Corresponds base store other same)
    {rule rule' : Value} (alike : Rule.Alike store other same related rule rule')
    (sameTop : ∀ rule rule', related rule rule' → Value.SameTop rule rule') :
    check store rule = .ok () ↔ check other rule' = .ok () := by
  rw [check_eq_ok_iff, check_eq_ok_iff, alike.length_members corresponds]
  have hshape := Shape.alike_ofValue corresponds alike sameTop
  generalize Shape.ofValue store rule = shape, Shape.ofValue other rule' = shape' at hshape
  cases hshape with
  | simple halike => simp [halike.operator, halike.test]
  | _ => simp

end Decoding

end RuleCheck
