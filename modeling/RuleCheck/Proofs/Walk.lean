import RuleCheck.Proofs.Visit

/-!
# Evaluation as a walk through an agenda

The evaluator is a recursion that is handed room for so many levels. Here the same evaluation is
described without recursion and without room. An agenda lists the rules that wait for their turn,
each with its depth. A step visits the first of them. If that fails, the rest of the agenda is
dropped; otherwise the rules that the visit opened are put in front of the rest, one level down.

The main statements are that the evaluator takes exactly such a walk, that there is only one walk
from a given agenda in a given world, and that the check of an engine adds nothing to it but a
closing event.
-/

namespace RuleCheck

variable {σ : Type}

/-- A walk through an agenda: the visits in order, the outcome and the world at the end. A rule that
fails drops the rest, and rules that are opened come first from then on. -/
inductive Walk (host : Host σ) (options : Options) (caller : Option String) :
    List Pending → World σ → List (Visit σ) → Outcome → World σ → Prop
  | done (world : World σ) : Walk host options caller [] world [] (.ok ()) world
  | fail {pending : Pending} {world : World σ} {failure : Failure} (agenda : List Pending)
      (failed : (pending.visit host options caller world).finding.next = .error failure) :
      Walk host options caller (pending :: agenda) world [pending.visit host options caller world]
        (.error failure) (pending.visit host options caller world).after
  | step {pending : Pending} {agenda : List Pending} {world final : World σ} {rules : List Value}
      {visits : List (Visit σ)} {outcome : Outcome}
      (opens : (pending.visit host options caller world).finding.next = .ok rules)
      (rest : Walk host options caller (rules.map (Pending.mk (pending.depth + 1)) ++ agenda)
        (pending.visit host options caller world).after visits outcome final) :
      Walk host options caller (pending :: agenda) world
        (pending.visit host options caller world :: visits) outcome final

namespace Walk

variable {host : Host σ} {options : Options} {caller : Option String}
  {agenda first second : List Pending} {world middle final : World σ}
  {visits more : List (Visit σ)} {outcome : Outcome} {failure : Failure}

/-- An agenda and a world leave no choice. -/
theorem unique {visits' : List (Visit σ)} {outcome' : Outcome} {final' : World σ}
    (left : Walk host options caller agenda world visits outcome final)
    (right : Walk host options caller agenda world visits' outcome' final') :
    visits = visits' ∧ outcome = outcome' ∧ final = final' := by
  induction left generalizing visits' with
  | done => cases right; exact ⟨rfl, rfl, rfl⟩
  | fail _ failed =>
    cases right with
    | fail _ failed' =>
      obtain rfl := Except.error.inj (failed.symm.trans failed')
      exact ⟨rfl, rfl, rfl⟩
    | step opens _ => exact absurd (failed.symm.trans opens) (by simp)
  | step opens _ ih =>
    cases right with
    | fail _ failed => exact absurd (failed.symm.trans opens) (by simp)
    | step opens' rest' =>
      obtain rfl := Except.ok.inj (opens.symm.trans opens')
      obtain ⟨rfl, rfl, rfl⟩ := ih rest'
      exact ⟨rfl, rfl, rfl⟩

/-- A walk through one agenda goes on with another one, if nothing failed. -/
theorem append (left : Walk host options caller first world visits (.ok ()) middle)
    (right : Walk host options caller second middle more outcome final) :
    Walk host options caller (first ++ second) world (visits ++ more) outcome final := by
  generalize hok : (Except.ok () : Outcome) = ok at left
  induction left with
  | done => exact right
  | fail => simp at hok
  | step opens _ ih =>
    have hrest := ih right hok
    rw [List.append_assoc] at hrest
    exact .step opens hrest

/-- After a failure it does not matter what else was on the agenda. -/
theorem append_of_error (left : Walk host options caller first world visits (.error failure) final)
    (second : List Pending) :
    Walk host options caller (first ++ second) world visits (.error failure) final := by
  generalize herror : (Except.error failure : Outcome) = error at left
  induction left with
  | done => simp at herror
  | fail agenda failed => exact .fail (agenda ++ second) failed
  | step opens _ ih =>
    have hrest := ih herror
    rw [List.append_assoc] at hrest
    exact .step opens hrest

/-- A walk through two agendas in a row either gets through the first and goes on, or fails in it. -/
theorem split (walk : Walk host options caller (first ++ second) world visits outcome final) :
    (∃ left right middle, visits = left ++ right ∧
      Walk host options caller first world left (.ok ()) middle ∧
      Walk host options caller second middle right outcome final) ∨
    ∃ failure, outcome = .error failure ∧
      Walk host options caller first world visits (.error failure) final := by
  generalize hagenda : first ++ second = whole at walk
  induction walk generalizing first with
  | done world =>
    obtain ⟨rfl, rfl⟩ := List.append_eq_nil_iff.1 hagenda
    exact .inl ⟨[], [], world, rfl, .done world, .done world⟩
  | @fail pending world failure agenda failed =>
    cases first with
    | nil =>
      obtain rfl : second = pending :: agenda := hagenda
      exact .inl ⟨[], _, world, rfl, .done world, .fail agenda failed⟩
    | cons head rest =>
      obtain ⟨rfl, rfl⟩ := List.cons.inj hagenda
      exact .inr ⟨failure, rfl, .fail rest failed⟩
  | @step pending agenda world final rules visits outcome opens walk ih =>
    cases first with
    | nil =>
      obtain rfl : second = pending :: agenda := hagenda
      exact .inl ⟨[], _, world, rfl, .done world, .step opens walk⟩
    | cons head rest =>
      obtain ⟨rfl, rfl⟩ := List.cons.inj hagenda
      rcases ih (List.append_assoc _ rest second) with
        ⟨left, right, middle, rfl, hleft, hright⟩ | ⟨failure, rfl, hleft⟩
      · exact .inl ⟨_ :: left, right, middle, rfl, .step opens hleft, hright⟩
      · exact .inr ⟨failure, rfl, .step opens hleft⟩

/-- What waits after a visit: the rules that it opened, and what waited before. -/
theorem forall_waiting {invariant : Pending → Prop} {pending : Pending} {agenda : List Pending}
    {rules : List Value} (opened : ∀ rule ∈ rules, invariant ⟨pending.depth + 1, rule⟩)
    (waiting : ∀ entry ∈ pending :: agenda, invariant entry) :
    ∀ entry ∈ rules.map (Pending.mk (pending.depth + 1)) ++ agenda, invariant entry := by
  intro entry hentry
  rcases List.mem_append.1 hentry with hentry | hentry
  · obtain ⟨rule, hrule, rfl⟩ := List.mem_map.1 hentry
    exact opened rule hrule
  · exact waiting entry (List.mem_cons_of_mem _ hentry)

/-- What holds of the agenda and is handed on to the rules that are opened holds of all rules that
are visited. -/
theorem forall_visited (invariant : Pending → Prop)
    (walk : Walk host options caller agenda world visits outcome final)
    (opened : ∀ pending world rules, invariant pending →
      (pending.visit host options caller world).finding.next = .ok rules →
      ∀ rule ∈ rules, invariant ⟨pending.depth + 1, rule⟩)
    (initial : ∀ pending ∈ agenda, invariant pending) :
    ∀ visit ∈ visits, invariant visit.toPending := by
  induction walk with
  | done => simp
  | @fail pending world failure agenda failed =>
    intro visit mem
    obtain rfl := List.mem_singleton.1 mem
    exact initial pending List.mem_cons_self
  | @step pending agenda world final rules visits outcome opens rest ih =>
    have hpending : invariant pending := initial pending List.mem_cons_self
    have hopened := opened pending world rules hpending opens
    intro visit mem
    rcases List.mem_cons.1 mem with rfl | mem
    · exact hpending
    · exact ih (forall_waiting hopened initial) visit mem

/-- Each visit of a walk is the visit of its rule in the world that it found. -/
theorem visit_eq (walk : Walk host options caller agenda world visits outcome final)
    {visit : Visit σ} (mem : visit ∈ visits) :
    visit = visit.toPending.visit host options caller visit.before := by
  induction walk with
  | done => simp at mem
  | fail => obtain rfl := List.mem_singleton.1 mem; rfl
  | step _ _ ih =>
    rcases List.mem_cons.1 mem with rfl | mem
    · rfl
    · exact ih mem

/-- What each visit recorded fits what it found. -/
theorem records (walk : Walk host options caller agenda world visits outcome final)
    {visit : Visit σ} (mem : visit ∈ visits) :
    visit.finding.Records visit.depth visit.events := by
  rw [walk.visit_eq mem]
  exact visit.toPending.records_visit host options caller visit.before

/-- The journal grows by what the visits recorded, in their order. -/
theorem journal_eq (walk : Walk host options caller agenda world visits outcome final) :
    final.journal.toList = world.journal.toList ++ visits.flatMap Visit.events := by
  induction walk with
  | done => simp
  | @fail pending world failure agenda failed =>
    rw [List.flatMap_singleton]
    exact pending.journal_visit host options caller world
  | @step pending agenda world final rules visits outcome opens rest ih =>
    rw [ih, pending.journal_visit, List.flatMap_cons, List.append_assoc]

/-- No visit of a walk failed exactly if the walk ends well. -/
theorem outcome_eq_ok_iff (walk : Walk host options caller agenda world visits outcome final) :
    outcome = .ok () ↔ ∀ visit ∈ visits, visit.failure? = none := by
  induction walk with
  | done => simp
  | fail _ failed => simp [Visit.failure_of_next_error failed]
  | step opens _ ih => simp [Visit.failure_of_next_ok opens, ih]

/-- A walk that fails ends with its only visit that failed, and hands on the failure as it is. -/
theorem last_failed
    (walk : Walk host options caller agenda world visits (.error failure) final) :
    ∃ front last, visits = front ++ [last] ∧ last.failure? = some failure ∧ last.after = final ∧
      ∀ visit ∈ front, visit.failure? = none := by
  generalize herror : (Except.error failure : Outcome) = error at walk
  induction walk with
  | done => simp at herror
  | fail _ failed =>
    obtain rfl := Except.error.inj herror
    exact ⟨[], _, rfl, Visit.failure_of_next_error failed, rfl, by simp⟩
  | step opens _ ih =>
    obtain ⟨front, last, rfl, hlast, hafter, hfront⟩ := ih herror
    refine ⟨_ :: front, last, rfl, hlast, hafter, ?_⟩
    intro visit mem
    rcases List.mem_cons.1 mem with rfl | mem
    · exact Visit.failure_of_next_ok opens
    · exact hfront visit mem

/-- Nothing is visited after a failure. -/
theorem rest_eq_nil_of_failed
    (walk : Walk host options caller agenda world visits outcome final)
    {front rest : List (Visit σ)} {visit : Visit σ} (position : visits = front ++ visit :: rest)
    (failed : visit.failure? = some failure) : rest = [] := by
  induction walk generalizing front with
  | done => simp at position
  | fail =>
    rcases List.singleton_eq_append_iff.1 position with ⟨-, htail⟩ | ⟨-, htail⟩
    · exact (List.cons.inj htail).2
    · simp at htail
  | step opens _ ih =>
    cases front with
    | nil =>
      obtain ⟨rfl, -⟩ := List.cons.inj position
      simp [Visit.failure_of_next_ok opens] at failed
    | cons first others => exact ih (List.cons.inj position).2

/-- A visit that fails decides the outcome of the walk. -/
theorem outcome_of_failed (walk : Walk host options caller agenda world visits outcome final)
    {visit : Visit σ} (mem : visit ∈ visits) (failed : visit.failure? = some failure) :
    outcome = .error failure := by
  cases outcome with
  | ok => simp [walk.outcome_eq_ok_iff.1 rfl visit mem] at failed
  | error reason =>
    obtain ⟨front, last, rfl, hlast, -, hfront⟩ := walk.last_failed
    rcases List.mem_append.1 mem with mem | mem
    · simp [hfront visit mem] at failed
    · obtain rfl := List.mem_singleton.1 mem
      rw [Option.some.inj (hlast.symm.trans failed)]

end Walk

/-! ## The evaluator walks -/

section Evaluator

variable {host : Host σ} {options : Options} {caller : Option String}

/-- A single rule is evaluated as it is. -/
theorem allPass_singleton (evaluate : Value → Run σ Outcome) (rule : Value) :
    allPass evaluate [rule] = evaluate rule := by
  funext world
  rw [allPass, Run.bind_apply]
  generalize evaluate rule world = result
  obtain ⟨outcome, after⟩ := result
  cases outcome <;> rfl

/-- A decoded rule does what it does by itself, and then the rules that it opens are evaluated. -/
theorem Shape.evaluate_eq (below : Value → Run σ Outcome) (rule : Value) (shape : Shape) :
    shape.evaluate host caller below rule = (do
      match ← shape.enter host caller rule with
      | .error failure => return .error failure
      | .ok rules => allPass below rules) := by
  funext world
  cases shape with
  | boolean result => cases result <;> rfl
  | function callee =>
    have hsingle := congrFun (allPass_singleton below (callee.apply host [] world).1)
    exact (hsingle _).symm
  | empty => rfl
  | guard condition rules =>
    cases condition with
    | false => rfl
    | true => exact (congrFun (allPass_singleton below rules) world).symm
  | list rules => rfl
  | simple rule =>
    simp only [Shape.evaluate, Shape.enter, Run.bind_apply]
    generalize rule.evaluate host caller world = result
    obtain ⟨outcome, after⟩ := result
    cases outcome <;> rfl
  | malformed => rfl

/-- A rule that opens others lies within the limit. -/
theorem depth_le_of_opens {pending : Pending} {world : World σ} {rules : List Value}
    (opens : (pending.visit host options caller world).finding.next = .ok rules) :
    pending.depth ≤ options.maxDepth := by
  refine Nat.le_of_not_lt fun hdeep ↦ ?_
  rw [Pending.visit, Pending.look, if_pos hdeep] at opens
  simp [Run.pure_apply, Finding.next] at opens

/-- The evaluator looks at a rule and then evaluates what it opens one level down. The room and the
depth make one more than the limit, so room runs out just below the limit. -/
theorem evaluateRule_eq {room depth : Nat} (room_add_depth : room + depth = options.maxDepth + 1)
    (rule : Value) :
    evaluateRule host options caller room depth rule = (do
      match (← Pending.look host options caller ⟨depth, rule⟩).next with
      | .error failure => return .error failure
      | .ok rules => allPass (evaluateRule host options caller (room - 1) (depth + 1)) rules) := by
  funext world
  cases room with
  | zero =>
    have hdeep : options.maxDepth < depth := by omega
    rw [Run.bind_apply, Pending.look, if_pos hdeep]
    rfl
  | succ room =>
    have hwithin : ¬ options.maxDepth < depth := by omega
    rw [Run.bind_apply, Pending.look, if_neg hwithin, evaluateRule]
    simp only [Run.bind_apply]
    generalize options.checkForm rule world = result
    obtain ⟨outcome, checked⟩ := result
    cases outcome with
    | error failure => rfl
    | ok =>
      simp only [Run.bind_apply, Shape.evaluate_eq]
      rfl

theorem evaluateRule_of_fails {room depth : Nat}
    (room_add_depth : room + depth = options.maxDepth + 1) {rule : Value} {world : World σ}
    {failure : Failure}
    (failed : (Pending.visit host options caller ⟨depth, rule⟩ world).finding.next =
      .error failure) :
    evaluateRule host options caller room depth rule world =
      (.error failure, (Pending.visit host options caller ⟨depth, rule⟩ world).after) := by
  simp only [Pending.visit] at failed
  rw [evaluateRule_eq room_add_depth, Run.bind_apply, failed]
  rfl

theorem evaluateRule_of_opens {room depth : Nat}
    (room_add_depth : room + depth = options.maxDepth + 1) {rule : Value} {world : World σ}
    {rules : List Value}
    (opens : (Pending.visit host options caller ⟨depth, rule⟩ world).finding.next = .ok rules) :
    evaluateRule host options caller room depth rule world =
      allPass (evaluateRule host options caller (room - 1) (depth + 1)) rules
        (Pending.visit host options caller ⟨depth, rule⟩ world).after := by
  simp only [Pending.visit] at opens
  rw [evaluateRule_eq room_add_depth, Run.bind_apply, opens]
  rfl

/-- If each rule is evaluated by a walk, so are several in a row. -/
theorem walk_allPass {evaluate : Value → Run σ Outcome} {depth : Nat}
    (each : ∀ rule world, ∃ visits, Walk host options caller [⟨depth, rule⟩] world visits
      (evaluate rule world).1 (evaluate rule world).2)
    (rules : List Value) (world : World σ) :
    ∃ visits, Walk host options caller (rules.map (Pending.mk depth)) world visits
      (allPass evaluate rules world).1 (allPass evaluate rules world).2 := by
  induction rules generalizing world with
  | nil => exact ⟨[], .done world⟩
  | cons rule rest ih =>
    obtain ⟨visits, hwalk⟩ := each rule world
    rw [allPass, Run.bind_apply]
    generalize evaluate rule world = result at hwalk ⊢
    obtain ⟨outcome, after⟩ := result
    cases outcome with
    | error failure => exact ⟨visits, hwalk.append_of_error _⟩
    | ok =>
      obtain ⟨more, hrest⟩ := ih after
      exact ⟨visits ++ more, hwalk.append hrest⟩

/-- The evaluator takes a walk. -/
theorem walk_evaluateRule {room depth : Nat} (room_add_depth : room + depth = options.maxDepth + 1)
    (rule : Value) (world : World σ) :
    ∃ visits, Walk host options caller [⟨depth, rule⟩] world visits
      (evaluateRule host options caller room depth rule world).1
      (evaluateRule host options caller room depth rule world).2 := by
  induction room generalizing depth rule world with
  | zero =>
    cases hnext : (Pending.visit host options caller ⟨depth, rule⟩ world).finding.next with
    | error failure =>
      rw [evaluateRule_of_fails room_add_depth hnext]
      exact ⟨_, .fail [] hnext⟩
    | ok rules =>
      have hdepth : depth ≤ options.maxDepth := depth_le_of_opens hnext
      omega
  | succ room ih =>
    cases hnext : (Pending.visit host options caller ⟨depth, rule⟩ world).finding.next with
    | error failure =>
      rw [evaluateRule_of_fails room_add_depth hnext]
      exact ⟨_, .fail [] hnext⟩
    | ok rules =>
      have hroom : room + (depth + 1) = options.maxDepth + 1 := by omega
      have hbelow (rule : Value) (world : World σ) := ih hroom rule world
      obtain ⟨visits, hwalk⟩ := walk_allPass hbelow rules
        (Pending.visit host options caller ⟨depth, rule⟩ world).after
      rw [evaluateRule_of_opens room_add_depth hnext]
      rw [← List.append_nil (rules.map _)] at hwalk
      exact ⟨_, .step hnext hwalk⟩

end Evaluator

namespace Engine

def close (label : Option String) (outcome : Outcome) (world : World σ) : World σ :=
  match closingEvent? world.store label outcome with
  | some event => { world with journal := world.journal.push event }
  | none => world

/-- What the check of an engine adds to the journal at its end. -/
theorem journal_close (label : Option String) (outcome : Outcome) (world : World σ) :
    (close label outcome world).journal.toList =
      world.journal.toList ++ (closingEvent? world.store label outcome).toList := by
  rw [close]
  cases closingEvent? world.store label outcome <;> simp

@[simp] theorem store_close (label : Option String) (outcome : Outcome) (world : World σ) :
    (close label outcome world).store = world.store := by
  rw [close]
  cases closingEvent? world.store label outcome <;> rfl

theorem check_apply (host : Host σ) (engine : Engine) (label : Option String) (rule : Value)
    (world : World σ) : engine.check host label rule world =
      let result := evaluateRule host engine.options label (engine.options.maxDepth + 1) 0 rule world
      (result.1, close label result.1 result.2) := by
  simp only [check, Run.bind_apply, Run.store_apply, close]
  cases closingEvent? _ label _ <;> rfl

/-- A check is a walk from its rule, and then the closing event. -/
theorem exists_walk (host : Host σ) (engine : Engine) (label : Option String) (rule : Value)
    (world : World σ) : ∃ visits outcome final,
      Walk host engine.options label [⟨0, rule⟩] world visits outcome final ∧
      engine.check host label rule world = (outcome, close label outcome final) := by
  have hroom : engine.options.maxDepth + 1 + 0 = engine.options.maxDepth + 1 := rfl
  obtain ⟨visits, hwalk⟩ := walk_evaluateRule hroom rule world
  exact ⟨visits, _, _, hwalk, engine.check_apply host label rule world⟩

end Engine

end RuleCheck
