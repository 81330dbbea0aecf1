import RuleCheck.Proofs.Repetition
import RuleCheck.Proofs.Wrapping

/-!
# Lists are conjunctions

A list of rules is evaluated from left to right up to the first failure. If what its members call is
uniform, then no member matters to the evaluation of the next, and the list passes exactly if each
member passes alone with a limit smaller by one. So it does not matter in which order the members
stand, nor how often, as long as the array is still decoded as a list; and a list inside a list may
be replaced by its members, which takes up one level less.
-/

namespace RuleCheck

variable {σ : Type}

/-- What is decoded as a list is an array of these rules, not empty, and of a valid form. -/
theorem Shape.exists_of_ofValue_list {store : Store} {list : Value} {rules : List Value}
    (decoded : ofValue store list = .list rules) :
    ∃ ref, list = .array ref ∧ store.items ref = rules ∧ rules ≠ [] ∧
      Rule.check store list = .ok () := by
  cases list with
  | array ref =>
    rcases Rule.array_cases store ref with
      ⟨first, names, subject, target, options, hitems, hnames⟩ |
      ⟨first, names, rest, hitems, hnames, hshort⟩ | hunnamed
    · rw [ofValue_of_names hitems hnames] at decoded
      cases decoded
    · rw [(ofValue_of_short hitems hnames hshort).1] at decoded
      cases decoded
    · refine ⟨ref, rfl, ?_⟩
      rw [ofValue] at decoded
      cases hitems : store.items ref with
      | nil => simp [hitems, ofItems] at decoded
      | cons first rest =>
        have hnone := hunnamed first rest hitems
        rw [hitems] at decoded
        unfold ofItems at decoded
        split at decoded
        · next hnil => cases hnil
        · cases decoded
        · next hcons =>
          obtain ⟨rfl, rfl⟩ := List.cons.inj hcons
          rw [ofMembers, hnone] at decoded
          exact ⟨Shape.list.inj decoded, by simp [← Shape.list.inj decoded],
            (ofValue_of_unnamed hunnamed).1⟩
  | _ => cases decoded

section Lists

variable {host : Host σ} {engine : Engine} {label : Option String} {world : World σ}
  {list : Value} {rules : List Value}

/-- The members of a list are there from the start. -/
theorem Shape.holds_of_ofValue_list (closed : world.store.Closed)
    (decoded : Shape.ofValue world.store list = .list rules) :
    ∀ rule ∈ rules, world.store.Holds rule := by
  obtain ⟨ref, rfl, rfl, hsome, -⟩ := Shape.exists_of_ofValue_list decoded
  intro rule mem
  have hheld : ref.index < world.store.lists.size := by
    refine Nat.lt_of_not_le fun hpast ↦ hsome ?_
    rw [Store.items, Array.getElem?_eq_none hpast]
    rfl
  exact closed.lists _ (Store.items_mem_toList hheld) rule mem

/-- Rules that can be repeated all pass in a row exactly if each passes alone. -/
theorem allPass_iff (closed : world.store.Closed) {options : Options}
    (production : engine.options.production = options.production) (limit depth : Nat)
    {rules : List Value} (held : ∀ rule ∈ rules, world.store.Holds rule)
    (repeatable : ∀ rule ∈ rules, engine.IsRepeatable host label world rule)
    {later : World σ} (le : world.store ≤ later.store) :
    (allPass (evaluateRule host options label (limit + 1) depth) rules later).1 = .ok () ↔
      ∀ rule ∈ rules, engine.PassesWithin host label world limit rule := by
  -- The world moves on with each member; that the store only grew carries the induction.
  induction rules generalizing later with
  | nil => exact iff_of_true rfl (List.forall_mem_nil _)
  | cons rule rest ih =>
    rw [List.forall_mem_cons] at held repeatable ⊢
    obtain ⟨hle, hfirst⟩ :=
      evaluateRule_later closed held.1 repeatable.1 production limit depth le
    rw [allPass, Run.bind_apply, ← hfirst]
    generalize evaluateRule host options label (limit + 1) depth rule later = result at hle ⊢
    obtain ⟨outcome, after⟩ := result
    cases outcome with
    | ok => exact (ih held.2 repeatable.2 hle).trans (and_iff_right rfl).symm
    | error failure =>
      have hfails : (.error failure : Outcome) ≠ .ok () := by simp
      exact iff_of_false hfails fun hall ↦ hfails hall.1

/-- A list passes exactly if each member passes alone with a limit smaller by one. -/
theorem Engine.passesWithin_list (closed : world.store.Closed)
    (decoded : Shape.ofValue world.store list = .list rules)
    (repeatable : ∀ rule ∈ rules, engine.IsRepeatable host label world rule) (limit : Nat) :
    engine.PassesWithin host label world (limit + 1) list ↔
      ∀ rule ∈ rules, engine.PassesWithin host label world limit rule := by
  obtain ⟨ref, -, -, -, hvalid⟩ := Shape.exists_of_ofValue_list decoded
  rw [passesWithin_iff, evaluateRule_of_valid (limit + 1) 0 hvalid, decoded]
  have hproduction : engine.options.production =
      (engine.withMaxDepth (limit + 1)).options.production := rfl
  have hnoticed : world.store ≤ (Pending.noticed ⟨0, list⟩ world (.list rules)).store :=
    le_refl world.store
  exact allPass_iff closed hproduction limit 1 (Shape.holds_of_ofValue_list closed decoded)
    repeatable hnoticed

/-- Its members lie too deep for a list to pass without any level below. -/
theorem Engine.not_passesWithin_zero (decoded : Shape.ofValue world.store list = .list rules) :
    ¬ engine.PassesWithin host label world 0 list := by
  obtain ⟨ref, -, -, hsome, hvalid⟩ := Shape.exists_of_ofValue_list decoded
  obtain ⟨rule, rest, rfl⟩ := List.exists_cons_of_ne_nil hsome
  rw [passesWithin_iff, evaluateRule_of_valid 0 0 hvalid, decoded]
  exact nofun

theorem Engine.PassesWithin.mono {limit : Nat} {rule : Value}
    (passes : engine.PassesWithin host label world limit rule) (extra : Nat) :
    engine.PassesWithin host label world (limit + extra) rule := by
  obtain ⟨visits, outcome, final, -, -, -, -, -, hwide⟩ :=
    check_withMaxDepth host engine limit extra label rule world
  rw [PassesWithin, hwide passes]
  exact passes

end Lists

section Conjunction

variable (host : Host σ) (engine : Engine) (label : Option String) (world : World σ)

/-- A list passes as all of its members do, each alone and under a limit smaller by one. Order and
repetitions make no difference, and a member that is a list may be replaced by its own members. -/
structure IsConjunction (list : Value) (rules : List Value) : Prop where
  passes_iff : ∀ limit, engine.PassesWithin host label world (limit + 1) list ↔
    ∀ rule ∈ rules, engine.PassesWithin host label world limit rule
  rearranged : ∀ list' rules', Shape.ofValue world.store list' = .list rules' →
    (∀ rule, rule ∈ rules' ↔ rule ∈ rules) →
      ∀ limit, engine.PassesWithin host label world limit list' ↔
        engine.PassesWithin host label world limit list
  spliced : ∀ before nested inner after list', rules = before ++ nested :: after →
    Shape.ofValue world.store nested = .list inner →
    (∀ rule ∈ inner, engine.IsRepeatable host label world rule) →
    Shape.ofValue world.store list' = .list (before ++ inner ++ after) → ∀ limit,
      (engine.PassesWithin host label world limit list →
        engine.PassesWithin host label world limit list') ∧
      (engine.PassesWithin host label world limit list' →
        engine.PassesWithin host label world (limit + 1) list)

end Conjunction

/-- A list of rules of which all that they call is uniform is a conjunction. -/
theorem list_isConjunction (host : Host σ) (engine : Engine) (label : Option String)
    (world : World σ) (closed : world.store.Closed) {list : Value} {rules : List Value}
    (decoded : Shape.ofValue world.store list = .list rules)
    (repeatable : ∀ rule ∈ rules, engine.IsRepeatable host label world rule) :
    IsConjunction host engine label world list rules where
  passes_iff := Engine.passesWithin_list closed decoded repeatable
  rearranged list' rules' decoded' same := by
    have hrepeatable : ∀ rule ∈ rules', engine.IsRepeatable host label world rule :=
      fun rule mem ↦ repeatable rule ((same rule).1 mem)
    intro limit
    cases limit with
    | zero =>
      exact iff_of_false (Engine.not_passesWithin_zero decoded')
        (Engine.not_passesWithin_zero decoded)
    | succ limit =>
      rw [Engine.passesWithin_list closed decoded repeatable,
        Engine.passesWithin_list closed decoded' hrepeatable]
      exact forall_congr' fun rule ↦ imp_congr_left (same rule)
  spliced before nested inner after list' := by
    rintro rfl decoded_nested repeatable_inner decoded' limit
    have hrepeatable := List.forall_mem_append.1 repeatable
    have hrest := List.forall_mem_cons.1 hrepeatable.2
    have hlist := Engine.passesWithin_list closed decoded repeatable
    have hnested := Engine.passesWithin_list closed decoded_nested repeatable_inner
    have hspliced := Engine.passesWithin_list closed decoded' (List.forall_mem_append.2
      ⟨List.forall_mem_append.2 ⟨hrepeatable.1, repeatable_inner⟩, hrest.2⟩)
    cases limit with
    | zero =>
      exact ⟨fun passes ↦ absurd passes (Engine.not_passesWithin_zero decoded),
        fun passes ↦ absurd passes (Engine.not_passesWithin_zero decoded')⟩
    | succ limit =>
      simp only [hlist, hspliced, List.forall_mem_append, List.forall_mem_cons]
      constructor
      · rintro ⟨hbefore, hpasses, hafter⟩
        refine ⟨⟨hbefore, ?_⟩, hafter⟩
        -- The nested list has passed, so there was room for its members one level further down.
        cases limit with
        | zero => exact absurd hpasses (Engine.not_passesWithin_zero decoded_nested)
        | succ limit => exact fun rule mem ↦ ((hnested limit).1 hpasses rule mem).mono 1
      · rintro ⟨⟨hbefore, hinner⟩, hafter⟩
        exact ⟨fun rule mem ↦ (hbefore rule mem).mono 1, (hnested limit).2 hinner,
          fun rule mem ↦ (hafter rule mem).mono 1⟩

/-- A list with a function that answers a new array, a simple rule and a list inside; the same
members in another order and twice; and the list with the inner one spliced in, which passes already
with a smaller limit. -/
theorem list_isConjunction_nested :
    let host : Host Unit :=
      { call := fun _ _ (store, state) ↦
          let made := Value.newArray [] store
          (made.1, made.2, state)
        judge := fun _ _ _ state ↦ (.bool true, state)
        test := fun _ call state ↦
          (if call.subject.text? = some "Ada" then .ok () else .error .empty, state)
        elapsed := fun _ ↦ 0 }
    let thunk : Value := .function (.host 0 none)
    let store : Store :=
      ⟨#[[thunk, .array ⟨1⟩, .array ⟨2⟩],
        [.text "name", .text "Ada", .null, .function (.typed 0 "known")], [thunk, .bool true],
        [.array ⟨2⟩, thunk, .array ⟨1⟩, thunk], [thunk, .array ⟨1⟩, thunk, .bool true]], #[], 0⟩
    let passes := Engine.PassesWithin host {} none ⟨store, (), #[]⟩
    passes 2 (.array ⟨4⟩) ∧ passes 3 (.array ⟨0⟩) ∧ passes 3 (.array ⟨3⟩) := by
  intro host thunk store passes
  have hsame (rule : Value) : rule ∈ [.array ⟨2⟩, thunk, .array ⟨1⟩, thunk] ↔
      rule ∈ [thunk, .array ⟨1⟩, .array ⟨2⟩] := by
    simp only [List.mem_cons, List.not_mem_nil]
    tauto
  have huniform : host.IsUniform store := by
    refine ⟨?_, ?_, ?_⟩
    · intro _ same _ _ _ _ _ _ _ corresponds
      exact ⟨_, .adding same _ _, corresponds.newArray .nil, .inr ⟨rfl, rfl⟩⟩
    · intro _ same _ _ _ _ _ _ _ _ _ _ corresponds
      exact ⟨same, .refl same, corresponds, corresponds.leaf rfl⟩
    · intro _ same call call' hcall _ _ _ _ corresponds
      refine ⟨same, .refl same, corresponds, ?_⟩
      dsimp only [host]
      rw [(corresponds.sameTop hcall.subject).text_eq]
      split
      · exact .ok
      · exact .error .nil
  have hrepeatable : ∀ rule, Engine.IsRepeatable host {} none ⟨store, (), #[]⟩ rule :=
    Engine.isRepeatable_of_isUniform huniform
  have hdecoded : Shape.ofValue store (.array ⟨0⟩) = .list [thunk, .array ⟨1⟩, .array ⟨2⟩] := rfl
  have hlist := list_isConjunction host {} none ⟨store, (), #[]⟩ (by decide) hdecoded
    fun rule _ ↦ hrepeatable rule
  have hspliced : passes 2 (.array ⟨4⟩) := rfl
  have hpasses : passes 3 (.array ⟨0⟩) :=
    (hlist.spliced [thunk, .array ⟨1⟩] (.array ⟨2⟩) [thunk, .bool true] [] (.array ⟨4⟩) rfl rfl
      (fun rule _ ↦ hrepeatable rule) rfl 2).2 hspliced
  exact ⟨hspliced, hpasses, (hlist.rearranged (.array ⟨3⟩) _ rfl hsame 3).2 hpasses⟩

end RuleCheck
