import RuleCheck.Proofs.OptionSlots
import RuleCheck.Proofs.Relaxation

/-!
# Production only leaves out the checks

Outside production the form of every rule is checked before the rule is decoded. The check has no
effect on a rule that passes it, and it agrees with the decoder: what passes can be decoded. So in
production an evaluation does the same, except that it goes on where the check would have refused.
-/

namespace RuleCheck

variable {σ : Type}

def Engine.withProduction (engine : Engine) (production : Bool) : Engine :=
  { engine with options := { engine.options with production } }

/-- Outside production the check of the form refuses what has no valid form. -/
theorem Options.checkForm_error_iff {options : Options} (outside : options.production = false)
    (rule : Value) (world : World σ) :
    (∃ failure, (options.checkForm rule world).1 = .error failure) ↔
      ∃ fault, Rule.check world.store rule = .error fault := by
  rw [checkForm_apply, outside]
  cases hcheck : Rule.check world.store rule with
  | ok => simp
  | error fault => simp

namespace Pending

variable {host : Host σ} {options : Options} {caller : Option String} {pending : Pending}
  {world : World σ}

theorem isInvalid_visit_iff : (pending.visit host options caller world).finding.isInvalid = true ↔
    pending.depth ≤ options.maxDepth ∧
      ∃ failure, (options.checkForm pending.rule world).1 = .error failure := by
  constructor
  · intro hinvalid
    cases hfound : (pending.visit host options caller world).finding with
    | tooDeep => simp [hfound, Finding.isInvalid] at hinvalid
    | invalid failure =>
      obtain ⟨hwithin, hform⟩ := visit_of_invalid hfound
      exact ⟨hwithin, failure, congrArg Prod.fst hform⟩
    | decoded => simp [hfound, Finding.isInvalid] at hinvalid
  · rintro ⟨hwithin, failure, hform⟩
    rw [visit, look_of_invalid _ _ _ _ _ hwithin hform]
    rfl

/-- What was not refused for its form has a valid one, if it lies within the limit. -/
theorem checkForm_of_not_isInvalid (within : pending.depth ≤ options.maxDepth)
    (valid : (pending.visit host options caller world).finding.isInvalid = false) :
    options.checkForm pending.rule world = (.ok (), world) := by
  apply options.checkForm_of_ok
  cases hform : (options.checkForm pending.rule world).1 with
  | ok => rfl
  | error failure =>
    have hinvalid : (pending.visit host options caller world).finding.isInvalid = true :=
      isInvalid_visit_iff.2 ⟨within, failure, hform⟩
    exact absurd (valid.symm.trans hinvalid) Bool.false_ne_true

/-- Outside production nothing malformed is decoded. -/
theorem shape_visit_ne_malformed (outside : options.production = false) :
    (pending.visit host options caller world).finding.shape? ≠ some .malformed := by
  cases hfound : (pending.visit host options caller world).finding with
  | tooDeep => simp [Finding.shape?]
  | invalid => simp [Finding.shape?]
  | decoded shape next =>
    obtain ⟨-, hform, hshape, -⟩ := visit_of_decoded hfound
    have hvalid : Rule.check world.store pending.rule = .ok () := by
      cases hcheck : Rule.check world.store pending.rule with
      | ok => rfl
      | error fault =>
        obtain ⟨failure, hfails⟩ :=
          (Options.checkForm_error_iff outside pending.rule world).2 ⟨fault, hcheck⟩
        cases hform.symm.trans hfails
    rw [Finding.shape?, hshape]
    have hdecodable := ((Rule.check_eq_ok_iff _ _).1 hvalid).1
    exact fun hmalformed ↦ hdecodable (Option.some.inj hmalformed)

end Pending

/-- Production differs only for rules that are refused for their form. -/
theorem relaxes_withProduction (host : Host σ) (caller : Option String) (engine : Engine) :
    Relaxes host caller Finding.isInvalid (engine.withProduction false).options
      (engine.withProduction true).options where
  undecoded _ := Finding.shape_eq_none_of_isInvalid
  same pending world valid := by
    have hlook : pending.look host (engine.withProduction true).options caller world =
        pending.look host (engine.withProduction false).options caller world := by
      by_cases hdeep : engine.options.maxDepth < pending.depth
      · calc
          pending.look host (engine.withProduction true).options caller world
            = (.tooDeep (.diagnosed (engine.options.tooDeep pending.rule)), world) :=
              pending.look_of_tooDeep host (engine.withProduction true).options caller world hdeep
          _ = pending.look host (engine.withProduction false).options caller world :=
              (pending.look_of_tooDeep host (engine.withProduction false).options caller world
                hdeep).symm
      · have hwithin := Nat.le_of_not_lt hdeep
        have hform : (engine.withProduction false).options.checkForm pending.rule world =
            (.ok (), world) := Pending.checkForm_of_not_isInvalid hwithin valid
        exact pending.look_congr host _ caller world hwithin hwithin hform.symm
    rw [Pending.visit, Pending.visit, hlook]

/-- What the check of the form refuses in an evaluation outside production. -/
structure FormChecked (options : Options) (visits : List (Visit σ)) : Prop where
  refused_iff : ∀ visit ∈ visits, visit.finding.isInvalid = true ↔
    visit.depth ≤ options.maxDepth ∧
      ∃ fault, Rule.check visit.before.store visit.rule = .error fault
  decodable : ∀ visit ∈ visits, visit.finding.shape? ≠ some .malformed
  not_evaluating_malformed : ∀ depth, .evaluating .malformed depth ∉ visits.flatMap Visit.events

theorem Walk.formChecked {host : Host σ} {options : Options} {caller : Option String}
    {agenda : List Pending} {world final : World σ} {visits : List (Visit σ)} {outcome : Outcome}
    (walk : Walk host options caller agenda world visits outcome final)
    (outside : options.production = false) : FormChecked options visits := by
  have hdecodable : ∀ visit ∈ visits, visit.finding.shape? ≠ some .malformed := by
    intro visit mem
    rw [walk.visit_eq mem]
    exact Pending.shape_visit_ne_malformed outside
  refine ⟨?_, hdecodable, ?_⟩
  · intro visit mem
    rw [walk.visit_eq mem, Pending.isInvalid_visit_iff, Options.checkForm_error_iff outside]
    rfl
  · intro depth begun
    obtain ⟨visit, hvisit, hmem⟩ := List.mem_flatMap.1 begun
    obtain ⟨-, shape, next, hfound, hname⟩ :=
      Finding.shape_of_evaluating (walk.records hvisit) hmem
    have hshape : visit.finding.shape? = some shape := by rw [hfound, Finding.shape?]
    cases shape with
    | malformed => exact hdecodable visit hvisit hshape
    | _ => cases hname

/-- Production does the same as the checks let through. If nothing is refused for its form, the
check of a rule is the same in every respect, and otherwise production makes the same calls and
begins the same rules before it makes or begins others. Outside production nothing malformed is
begun. -/
theorem check_withProduction (host : Host σ) (engine : Engine) (label : Option String)
    (rule : Value) (world : World σ) :
    let checked := (engine.withProduction false).check host label rule world
    let unchecked := (engine.withProduction true).check host label rule world
    ∃ visits outcome final,
      Walk host (engine.withProduction false).options label [⟨0, rule⟩] world visits outcome final ∧
      checked = (outcome, Engine.close label outcome final) ∧
      final.journal.toList = world.journal.toList ++ visits.flatMap Visit.events ∧
      FormChecked (engine.withProduction false).options visits ∧
      ((∀ visit ∈ visits, visit.finding.isInvalid = false) → unchecked = checked) ∧
      ((∃ visit ∈ visits, visit.finding.isInvalid = true) →
        checked.2.steps <+: unchecked.2.steps) ∧
      (checked.1 = .ok () → unchecked = checked) := by
  obtain ⟨visits, outcome, final, hwalk, hcheck, hsame, hleading, hpasses⟩ :=
    Engine.check_relaxes (engine.withProduction false) (engine.withProduction true)
      (relaxes_withProduction host label engine) rule world
  exact ⟨visits, outcome, final, hwalk, hcheck, hwalk.journal_eq, hwalk.formChecked rfl,
    hsame, hleading, hpasses⟩

end RuleCheck
