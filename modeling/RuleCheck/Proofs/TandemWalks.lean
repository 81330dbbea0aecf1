import RuleCheck.Proofs.AlikeRules
import RuleCheck.Proofs.Walk

/-!
# Walks in tandem

Two evaluations that begin in one store go in tandem as long as the rules that they come to are
related: both rules are refused, or both are decoded and fail, or they open rules that are related
again. From one visit to the next what corresponds only grows, and what waits on the one agenda stays
related to what waits on the other. How rules are related, and why two simple rules then pass alike,
is left open here.
-/

namespace RuleCheck

variable {σ : Type}

namespace SimpleRule

variable {base : Store} {same : Correspondence} {host : Host σ}

section Loops

variable {run run' : Value → Run σ TestOutcome} {values values' : List Value}

/-- Two tests pass alike on values that correspond, now or later. -/
def RunAlike (base : Store) (same : Correspondence) (run run' : Value → Run σ TestOutcome) : Prop :=
  ∀ wider value value', same.Within wider → wider value value' →
    InStep base wider (run value) (run' value') PassAlike

theorem firstFailing_inStep (alike : RunAlike base same run run')
    (agree : same.AgreeAll values values') : ∀ wider, same.Within wider →
      InStep base wider (firstFailing run values) (firstFailing run' values') PassAlike := by
  -- The values correspond from the start, while each run of the test adds to what does.
  induction agree with
  | nil => exact fun wider _ ↦ .pure .ok
  | cons hvalue _ ih =>
    intro wider hwithin
    refine .bind (alike wider _ _ hwithin (hwithin _ _ hvalue)) fun widest _ _ hwithin' hpass ↦ ?_
    cases hpass with
    | ok => exact ih widest (hwithin.trans hwithin')
    | error => exact .pure (.error _ _)

theorem firstPassing_inStep (alike : RunAlike base same run run')
    (agree : same.AgreeAll values values') : ∀ wider last last', same.Within wider →
      InStep base wider (firstPassing run last values) (firstPassing run' last' values')
        PassAlike := by
  induction agree with
  | nil => exact fun wider last last' _ ↦ .pure (.error last last')
  | cons hvalue _ ih =>
    intro wider last last' hwithin
    refine .bind (alike wider _ _ hwithin (hwithin _ _ hvalue)) fun widest _ _ hwithin' hpass ↦ ?_
    cases hpass with
    | ok => exact .pure .ok
    | error => exact ih widest _ _ (hwithin.trans hwithin')

end Loops

variable {rule rule' : SimpleRule} {caller caller' : Option String}

/-- Calls of the tests of two rules pass alike if what is compared corresponds, and the collections
that it comes from. -/
def CallsAlike (host : Host σ) (base : Store) (same : Correspondence)
    (caller caller' : Option String) (rule rule' : SimpleRule) : Prop :=
  ∀ wider subject subject' target target' each each' of of', same.Within wider →
    wider subject subject' → wider target target' → Option.Rel wider each each' →
    Option.Rel wider of of' →
      InStep base wider
        (rule.testFunction.runTest host (rule.callOf caller subject target each of))
        (rule'.testFunction.runTest host (rule'.callOf caller' subject' target' each' of'))
        PassAlike

/-- Simple rules that differ at most in their names pass alike if the calls of their tests do. -/
theorem Alike.evaluate_inStep_of_calls (alike : rule.Alike same rule')
    (calls : CallsAlike host base same caller caller' rule rule') :
    InStep base same (rule.evaluate host caller) (rule'.evaluate host caller') PassAlike := by
  refine .bind .store fun wider store other hwithin corresponds ↦ ?_
  have hsubject := hwithin _ _ alike.subject
  have htarget := hwithin _ _ alike.target
  have hitems := corresponds.members hsubject
  have hcandidates := corresponds.members htarget
  have hempty {values values' : List Value} (agree : List.Forall₂ wider values values') :
      values.isEmpty = values'.isEmpty := by
    cases agree <;> rfl
  rw [← alike.operator]
  cases rule.operator with
  | none => exact calls wider _ _ _ _ _ _ _ _ hwithin hsubject htarget .none .none
  | some operator =>
    cases operator with
    | each =>
      refine firstFailing_inStep (fun wider' item item' hwithin' hitem ↦ ?_) hitems wider (.refl _)
      exact calls wider' _ _ _ _ _ _ _ _ (hwithin.trans hwithin') hitem (hwithin' _ _ htarget)
        (.some (hwithin' _ _ hsubject)) .none
    | oneOf =>
      dsimp only
      rw [← hempty hcandidates]
      split
      · exact .pure (.error _ _)
      · refine firstPassing_inStep (fun wider' candidate candidate' hwithin' hcandidate ↦ ?_)
          hcandidates wider _ _ (.refl _)
        exact calls wider' _ _ _ _ _ _ _ _ (hwithin.trans hwithin') (hwithin' _ _ hsubject)
          hcandidate .none (.some (hwithin' _ _ htarget))
    | eachOf =>
      dsimp only
      rw [← hempty hcandidates, ← hempty hitems]
      split
      · exact .pure .ok
      · split
        · exact .pure (.error _ _)
        · refine firstFailing_inStep (fun wider' item item' hwithin' hitem ↦ ?_) hitems wider
            (.refl _)
          refine firstPassing_inStep (fun widest candidate candidate' hwithin'' hcandidate ↦ ?_)
            (hcandidates.imp hwithin') wider' _ _ (.refl _)
          have hwide := hwithin'.trans hwithin''
          exact calls widest _ _ _ _ _ _ _ _ (hwithin.trans hwide) (hwithin'' _ _ hitem) hcandidate
            (.some (hwide _ _ hsubject)) (.some (hwide _ _ htarget))

end SimpleRule

/-- A fault is worded with new cells at most. -/
theorem RuleFault.le_diagnostic (fault : RuleFault) (store : Store) :
    store ≤ (fault.diagnostic store).2 := by
  cases fault with
  | unknownOperator => exact Store.le_newArray _ store
  | _ => exact le_refl store

theorem Options.checkForm_grows (options : Options) (rule : Value) :
    (options.checkForm rule : Run σ Outcome).Grows := by
  intro world
  rw [checkForm_apply]
  split
  · exact le_refl world.store
  · split
    · exact le_refl world.store
    · exact RuleFault.le_diagnostic _ world.store

/-- Of two rules both have the form, or neither, if both are valid or neither. -/
theorem Options.checkForm_passAlike (options : Options) {rule rule' : Value}
    {world world' : World σ} (same : Correspondence)
    (check : Rule.check world.store rule = .ok () ↔ Rule.check world'.store rule' = .ok ()) :
    PassAlike same (options.checkForm rule world).1 (options.checkForm rule' world').1 := by
  rw [checkForm_apply, checkForm_apply]
  cases options.production with
  | true => exact .ok
  | false =>
    generalize Rule.check world.store rule = checked at check
    generalize Rule.check world'.store rule' = checked' at check
    cases checked with
    | ok =>
      obtain rfl := check.1 rfl
      exact .ok
    | error fault =>
      cases checked' with
      | ok => cases check.2 rfl
      | error fault' => exact .error _ _

section Visits

variable {base : Store} {same : Correspondence} {host : Host σ} {options : Options}
  {caller caller' : Option String}

inductive Opens (related : Correspondence) :
    Except Failure (List Value) → Except Failure (List Value) → Prop
  | error (failure failure' : Failure) : Opens related (.error failure) (.error failure')
  | ok {rules rules' : List Value} (opened : List.Forall₂ related rules rules') :
      Opens related (.ok rules) (.ok rules')

/-- Rules of alike shapes do alike what they do by themselves, if they call a uniform function or
pass alike as simple rules. -/
theorem Shape.enter_inStep_of {related : Correspondence → Correspondence} {shape shape' : Shape}
    (of_same : ∀ {wider rule rule'}, wider rule rule' → related wider rule rule')
    (alike : Alike same (related same) shape shape')
    (uniform : ∀ callee, shape = .function callee → callee.IsUniform host base)
    (simple : ∀ simple simple', shape = .simple simple → shape' = .simple simple' →
      simple.Alike same simple' →
        InStep base same (simple.evaluate host caller) (simple'.evaluate host caller') PassAlike)
    (rule rule' : Value) :
    InStep base same (shape.enter host caller rule) (shape'.enter host caller' rule')
      fun wider ↦ Opens (related wider) := by
  cases alike with
  | boolean outcome =>
    cases outcome with
    | true => exact .pure (.ok .nil)
    | false => exact .pure (.error _ _)
  | function callee =>
    exact .bind (Function.apply_inStep (uniform callee rfl)) fun _ _ _ _ hanswer ↦
      .pure (.ok (.cons (of_same hanswer) .nil))
  | empty => exact .pure (.ok .nil)
  | guard condition opened =>
    cases condition with
    | true => exact .pure (.ok (.cons opened .nil))
    | false => exact .pure (.ok .nil)
  | list opened => exact .pure (.ok opened)
  | simple alike =>
    refine .bind (simple _ _ rfl rfl alike) fun _ _ _ _ hpass ↦ ?_
    cases hpass with
    | ok => exact .pure (.ok .nil)
    | error => exact .pure (.error _ _)
  | malformed => exact .pure (.error _ _)

namespace Pending

/-- Two rules at one depth are visited in tandem if both have a valid form, or neither, and do in
step what they do once they are decoded. -/
theorem visit_tandem_of_enter (depth : Nat) {rule rule' : Value} {world world' : World σ}
    {agree : Correspondence → Except Failure (List Value) → Except Failure (List Value) → Prop}
    (corresponds : Corresponds base world.store world'.store same)
    (check : Rule.check world.store rule = .ok () ↔ Rule.check world'.store rule' = .ok ())
    (fails : ∀ wider failure failure', agree wider (.error failure) (.error failure'))
    (enter : (Pending.visit host options caller ⟨depth, rule⟩ world).finding.shape? =
        some (.ofValue world.store rule) →
      InStep base same ((Shape.ofValue world.store rule).enter host caller rule)
        ((Shape.ofValue world'.store rule').enter host caller' rule') agree) :
    ∃ wider, Tandem base same wider
        world (Pending.visit host options caller ⟨depth, rule⟩ world).after
        world' (Pending.visit host options caller' ⟨depth, rule'⟩ world').after ∧
      agree wider (Pending.visit host options caller ⟨depth, rule⟩ world).finding.next
        (Pending.visit host options caller' ⟨depth, rule'⟩ world').finding.next := by
  have hpass := options.checkForm_passAlike same check
  by_cases hdeep : options.maxDepth < depth
  · rw [visit, visit, look_of_tooDeep _ _ _ _ _ hdeep, look_of_tooDeep _ _ _ _ _ hdeep]
    exact ⟨same, .of_journal_eq corresponds rfl rfl, fails _ _ _⟩
  · have hwithin := Nat.le_of_not_lt hdeep
    generalize hform : (options.checkForm rule world).1 = form at hpass
    generalize hform' : (options.checkForm rule' world').1 = form' at hpass
    cases hpass with
    | error failure failure' =>
      rw [visit, visit, look_of_invalid _ _ _ _ _ hwithin hform,
        look_of_invalid _ _ _ _ _ hwithin hform']
      have hcorresponds := corresponds.of_le (options.checkForm_grows rule world)
        (options.checkForm_grows rule' world')
      exact ⟨same, .of_journal_eq hcorresponds (options.journal_checkForm rule world)
        (options.journal_checkForm rule' world'), fails _ _ _⟩
    | ok =>
      rw [visit, look_of_valid _ _ _ _ _ hwithin hform] at enter
      rw [visit, visit, look_of_valid _ _ _ _ _ hwithin hform,
        look_of_valid _ _ _ _ _ hwithin hform']
      have hnoticed : Tandem base same same
          world (noticed ⟨depth, rule⟩ world (.ofValue world.store rule))
          world' (noticed ⟨depth, rule'⟩ world' (.ofValue world'.store rule')) :=
        .record corresponds .nil
      obtain ⟨wider, htandem, hopen⟩ := enter rfl _ _ hnoticed.corresponds
      exact ⟨wider, hnoticed.trans htandem, hopen⟩

structure Related (related : Correspondence) (pending pending' : Pending) : Prop where
  depth : pending.depth = pending'.depth
  rule : related pending.rule pending'.rule

/-- Related rules that are opened at one depth wait before what waited in the same places. -/
theorem related_waiting {related : Correspondence} (depth : Nat) {rules rules' : List Value}
    {agenda agenda' : List Pending} (opened : List.Forall₂ related rules rules')
    (waiting : List.Forall₂ (Related related) agenda agenda') :
    List.Forall₂ (Related related) (rules.map (mk depth) ++ agenda)
      (rules'.map (mk depth) ++ agenda') := by
  refine List.rel_append ?_ waiting
  rw [List.forall₂_map_left_iff, List.forall₂_map_right_iff]
  exact opened.imp fun _ _ hrelated ↦ ⟨rfl, hrelated⟩

end Pending

/-- Walks through related rules go in tandem, and pass alike, if related rules are visited in tandem
and open related rules. -/
theorem Walk.tandem_of_visits (related : Correspondence → Correspondence)
    {agenda agenda' : List Pending} {world final world' final' : World σ}
    {visits visits' : List (Visit σ)} {outcome outcome' : Outcome}
    (mono : ∀ {same wider rule rule'}, Correspondence.Within same wider →
      related same rule rule' → related wider rule rule')
    (walk : Walk host options caller agenda world visits outcome final)
    (walk' : Walk host options caller' agenda' world' visits' outcome' final')
    (visited : ∀ (same : Correspondence) (pending pending' : Pending) (world world' : World σ),
      pending.visit host options caller world ∈ visits →
      Corresponds base world.store world'.store same →
      Pending.Related (related same) pending pending' →
        ∃ wider, Tandem base same wider world (pending.visit host options caller world).after
            world' (pending'.visit host options caller' world').after ∧
          Opens (related wider) (pending.visit host options caller world).finding.next
            (pending'.visit host options caller' world').finding.next)
    (corresponds : Corresponds base world.store world'.store same)
    (waiting : List.Forall₂ (Pending.Related (related same)) agenda agenda') :
    ∃ wider, Tandem base same wider world final world' final' ∧
      PassAlike wider outcome outcome' := by
  -- Along the first walk; at each visit the second one is taken apart, since it is visited in tandem.
  induction walk generalizing same agenda' world' visits' with
  | done world =>
    cases waiting
    cases walk'
    exact ⟨same, .of_journal_eq corresponds rfl rfl, .ok⟩
  | @fail pending world failure agenda failed =>
    cases waiting with
    | @cons _ pending' _ _ hpending _ =>
      obtain ⟨wider, htandem, hopen⟩ :=
        visited same pending pending' world world' List.mem_cons_self corresponds hpending
      rw [failed] at hopen
      generalize hnext : (pending'.visit host options caller' world').finding.next = next' at hopen
      cases hopen with
      | error =>
        cases walk' with
        | fail _ failed' => exact ⟨wider, htandem, .error _ _⟩
        | step opens' _ => exact absurd (hnext.symm.trans opens') (by simp)
  | @step pending agenda world final rules visits outcome opens rest ih =>
    cases waiting with
    | @cons _ pending' _ agenda' hpending hagenda =>
      obtain ⟨wider, htandem, hopen⟩ :=
        visited same pending pending' world world' List.mem_cons_self corresponds hpending
      rw [opens] at hopen
      generalize hnext : (pending'.visit host options caller' world').finding.next = next' at hopen
      cases hopen with
      | ok hopened =>
        cases walk' with
        | fail _ failed' => exact absurd (hnext.symm.trans failed') (by simp)
        | step opens' rest' =>
          obtain rfl := Except.ok.inj (hnext.symm.trans opens')
          rw [← hpending.depth] at rest'
          have hwaiting := Pending.related_waiting (pending.depth + 1) hopened
            (hagenda.imp fun _ _ hrelated ↦ ⟨hrelated.depth, mono htandem.within hrelated.rule⟩)
          obtain ⟨widest, htandem', hpass⟩ := ih rest'
            (fun same pending pending' world world' mem ↦
              visited same pending pending' world world' (List.mem_cons_of_mem _ mem))
            htandem.corresponds hwaiting
          exact ⟨widest, htandem.trans htandem', hpass⟩

end Visits

end RuleCheck
