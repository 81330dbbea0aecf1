import RuleCheck.Proofs.Relaxation

/-!
# The depth limit

A rule may contain itself, and a function may answer itself, so neither the rules nor the calls
bound an evaluation. The limit does: a rule that lies deeper is refused before anything is done for
it. Hence every walk ends, and a larger limit changes nothing unless a rule was refused for its
depth; then the larger limit lets the evaluation go on from there.
-/

namespace RuleCheck

variable {σ : Type}

def Engine.withMaxDepth (engine : Engine) (limit : Nat) : Engine :=
  { engine with options := engine.options.withMaxDepth limit }

/-- One step of a walk that goes on: from the agenda and the world before a visit to those after. -/
inductive Advances (host : Host σ) (options : Options) (caller : Option String) :
    List Pending × World σ → List Pending × World σ → Prop
  | visit {pending : Pending} {agenda : List Pending} {world : World σ} {rules : List Value}
      (opens : (pending.visit host options caller world).finding.next = .ok rules) :
      Advances host options caller (pending :: agenda, world)
        (rules.map (Pending.mk (pending.depth + 1)) ++ agenda,
          (pending.visit host options caller world).after)

namespace Walk

variable {host : Host σ} {options : Options} {caller : Option String} {agenda : List Pending}
  {world final : World σ} {visits : List (Visit σ)} {outcome : Outcome}

/-- Where there is a walk, no sequence of steps goes on forever. -/
theorem acc_advances (walk : Walk host options caller agenda world visits outcome final) :
    Acc (fun later earlier ↦ Advances host options caller earlier later) (agenda, world) := by
  induction walk with
  | done => exact .intro _ fun later advances ↦ nomatch advances
  | fail _ failed =>
    refine .intro _ fun later advances ↦ ?_
    cases advances with
    | visit opens => exact absurd (failed.symm.trans opens) (by simp)
  | step opens _ ih =>
    refine .intro _ fun later advances ↦ ?_
    cases advances with
    | visit opens' =>
      obtain rfl := Except.ok.inj (opens.symm.trans opens')
      exact ih

/-- Visits lie at most one level below the limit, where they are refused. -/
theorem depth_le (walk : Walk host options caller agenda world visits outcome final)
    (bounded : ∀ pending ∈ agenda, pending.depth ≤ options.maxDepth + 1) :
    ∀ visit ∈ visits, visit.depth ≤ options.maxDepth + 1 := by
  refine walk.forall_visited (fun pending ↦ pending.depth ≤ options.maxDepth + 1) ?_ bounded
  intro pending world rules _ opens rule _
  exact Nat.succ_le_succ (depth_le_of_opens opens)

/-- Rules that are begun lie within the limit. -/
theorem evaluating_depth_le (walk : Walk host options caller agenda world visits outcome final)
    {name : ShapeName} {depth : Nat}
    (begun : .evaluating name depth ∈ visits.flatMap Visit.events) : depth ≤ options.maxDepth := by
  obtain ⟨visit, hvisit, hmem⟩ := List.mem_flatMap.1 begun
  obtain ⟨rfl, shape, next, hfound, -⟩ := Finding.shape_of_evaluating (walk.records hvisit) hmem
  rw [walk.visit_eq hvisit] at hfound
  exact (Pending.visit_of_decoded hfound).1

end Walk

namespace Pending

variable {host : Host σ} {options : Options} {caller : Option String} {pending : Pending}
  {world : World σ}

theorem isTooDeep_visit_iff :
    (pending.visit host options caller world).finding.isTooDeep = true ↔
      options.maxDepth < pending.depth := by
  constructor
  · intro hdeep
    cases hfound : (pending.visit host options caller world).finding with
    | tooDeep failure => exact (visit_of_tooDeep hfound).1
    | invalid => simp [hfound, Finding.isTooDeep] at hdeep
    | decoded => simp [hfound, Finding.isTooDeep] at hdeep
  · intro hdeep
    rw [visit, look_of_tooDeep _ _ _ _ _ hdeep]
    rfl

theorem after_visit_of_depth_lt (deep : options.maxDepth < pending.depth) :
    (pending.visit host options caller world).after = world := by
  rw [visit, look_of_tooDeep _ _ _ _ _ deep]

end Pending

/-- A larger limit differs only for rules that the smaller one refuses for their depth. -/
theorem relaxes_withMaxDepth (host : Host σ) (caller : Option String) (engine : Engine)
    (limit extra : Nat) :
    Relaxes host caller Finding.isTooDeep (engine.withMaxDepth limit).options
      (engine.withMaxDepth (limit + extra)).options where
  undecoded _ := Finding.shape_eq_none_of_isTooDeep
  same pending world shallow := by
    have hwithin : pending.depth ≤ limit := by
      refine Nat.le_of_not_lt fun hdeep ↦ ?_
      exact Bool.false_ne_true (shallow.symm.trans (Pending.isTooDeep_visit_iff.2 hdeep))
    have hlook : pending.look host (engine.withMaxDepth (limit + extra)).options caller world =
        pending.look host (engine.withMaxDepth limit).options caller world :=
      pending.look_congr host _ caller world hwithin (Nat.le_add_right_of_le hwithin) rfl
    rw [Pending.visit, Pending.visit, hlook]

/-- How the limit bounds the evaluation of a rule. What lies below the limit is refused for that,
and nothing else comes of it. -/
structure DepthBounded (host : Host σ) (options : Options) (caller : Option String) (rule : Value)
    (world : World σ) (visits : List (Visit σ)) (final : World σ) : Prop where
  ends : Acc (fun later earlier ↦ Advances host options caller earlier later) ([⟨0, rule⟩], world)
  depth_le : ∀ visit ∈ visits, visit.depth ≤ options.maxDepth + 1
  refused_iff : ∀ visit ∈ visits, visit.finding.isTooDeep = true ↔ options.maxDepth < visit.depth
  idle : ∀ visit ∈ visits, options.maxDepth < visit.depth →
    visit.events = [] ∧ visit.after = visit.before
  journal : final.journal.toList = world.journal.toList ++ visits.flatMap Visit.events
  evaluating_depth_le : ∀ name depth,
    .evaluating name depth ∈ visits.flatMap Visit.events → depth ≤ options.maxDepth

theorem Walk.depthBounded {host : Host σ} {options : Options} {caller : Option String} {rule : Value}
    {world final : World σ} {visits : List (Visit σ)} {outcome : Outcome}
    (walk : Walk host options caller [⟨0, rule⟩] world visits outcome final) :
    DepthBounded host options caller rule world visits final where
  ends := walk.acc_advances
  depth_le := by
    refine walk.depth_le ?_
    intro pending mem
    obtain rfl := List.mem_singleton.1 mem
    exact Nat.zero_le _
  refused_iff visit mem := by
    rw [walk.visit_eq mem]
    exact Pending.isTooDeep_visit_iff
  idle visit mem deep := by
    have hafter : visit.after = visit.before := by
      rw [walk.visit_eq mem]
      exact Pending.after_visit_of_depth_lt deep
    refine ⟨?_, hafter⟩
    rw [Visit.events, hafter]
    exact List.drop_length
  journal := walk.journal_eq
  evaluating_depth_le name depth begun := walk.evaluating_depth_le begun

/-- A check goes no deeper than the limit and always ends, also for rules that contain or answer
themselves. A larger limit makes no difference unless a rule was refused for its depth, and then the
larger limit makes the same calls and begins the same rules before it makes or begins others. -/
theorem check_withMaxDepth (host : Host σ) (engine : Engine) (limit extra : Nat)
    (label : Option String) (rule : Value) (world : World σ) :
    let narrow := (engine.withMaxDepth limit).check host label rule world
    let wide := (engine.withMaxDepth (limit + extra)).check host label rule world
    ∃ visits outcome final,
      Walk host (engine.withMaxDepth limit).options label [⟨0, rule⟩] world visits outcome final ∧
      narrow = (outcome, Engine.close label outcome final) ∧
      DepthBounded host (engine.withMaxDepth limit).options label rule world visits final ∧
      ((∀ visit ∈ visits, visit.finding.isTooDeep = false) → wide = narrow) ∧
      ((∃ visit ∈ visits, visit.finding.isTooDeep = true) → narrow.2.steps <+: wide.2.steps) ∧
      (narrow.1 = .ok () → wide = narrow) := by
  obtain ⟨visits, outcome, final, hwalk, hcheck, hsame, hleading, hpasses⟩ :=
    Engine.check_relaxes (engine.withMaxDepth limit) (engine.withMaxDepth (limit + extra))
      (relaxes_withMaxDepth host label engine limit extra) rule world
  exact ⟨visits, outcome, final, hwalk, hcheck, hwalk.depthBounded, hsame, hleading, hpasses⟩

/-- A list that contains itself is begun once at each depth up to the limit. -/
example {σ : Type} (host : Host σ) (state : σ) (label : Option String) :
    let store : Store := ⟨#[[.array ⟨0⟩]], #[], 0⟩
    let engine : Engine := Engine.withMaxDepth {} 2
    (engine.check host label (.array ⟨0⟩) ⟨store, state, #[]⟩).2.steps =
      [.evaluating .list 0, .evaluating .list 1, .evaluating .list 2] := rfl

end RuleCheck
