import RuleCheck.Proofs.Walk

/-!
# The trials of a simple rule

A simple rule tries its test on the compared value, or on its members one after another, against the
target, or against its members one after another. The members are those at the moment when the rule
is evaluated, whatever its test changes. A row of trials ends with the first that settles it: a
failure if all of them should pass, a pass if one of them should.

If nothing is tried the rule passes when it has no items, and fails otherwise for want of
candidates. If anything is tried, the outcome of the rule is that of its last trial.
-/

namespace RuleCheck

variable {σ : Type}

/-- Inputs are worked off in their order, up to and including the first that ends the work. -/
inductive UpToFirst {ι α : Type} (input : α → ι) (ends : α → Bool) : List ι → List α → Prop where
  | done : UpToFirst input ends [] []
  | stop {item : α} (rest : List ι) (last : ends item = true) :
      UpToFirst input ends (input item :: rest) [item]
  | next {item : α} {rest : List ι} {items : List α} (more : ends item = false)
      (tail : UpToFirst input ends rest items) :
      UpToFirst input ends (input item :: rest) (item :: items)

namespace UpToFirst

variable {ι κ α β : Type} {input : α → ι} {ends : α → Bool} {inputs : List ι} {items : List α}

theorem eq_nil_iff (upTo : UpToFirst input ends inputs items) : items = [] ↔ inputs = [] := by
  cases upTo <;> simp

/-- What was worked off, seen as something else. -/
theorem map {input' : β → κ} {ends' : β → Bool} (upTo : UpToFirst input ends inputs items)
    (ofInput : ι → κ) (ofItem : α → β)
    (same : ∀ item ∈ items, input' (ofItem item) = ofInput (input item))
    (sameEnd : ∀ item ∈ items, ends' (ofItem item) = ends item) :
    UpToFirst input' ends' (inputs.map ofInput) (items.map ofItem) := by
  induction upTo with
  | done => exact .done
  | @stop item rest last =>
    have hinput := same item List.mem_cons_self
    have hend := sameEnd item List.mem_cons_self
    rw [List.map_cons, List.map_cons, List.map_nil, ← hinput]
    exact .stop _ (hend.trans last)
  | @next item rest items more _ ih =>
    have hinput := same item List.mem_cons_self
    have hend := sameEnd item List.mem_cons_self
    rw [List.map_cons, List.map_cons, ← hinput]
    exact .next (hend.trans more) (ih (fun other mem ↦ same other (List.mem_cons_of_mem _ mem))
      fun other mem ↦ sameEnd other (List.mem_cons_of_mem _ mem))

end UpToFirst

structure Trial (σ : Type) where
  call : TestCall
  before : World σ
  outcome : TestOutcome
  after : World σ

def TestCall.trial (host : Host σ) (test : Function) (call : TestCall) (world : World σ) :
    Trial σ :=
  { call
    before := world
    outcome := (test.runTest host call world).1
    after := (test.runTest host call world).2 }

/-- A trial calls the test once, with six arguments in their places and the names in a new array;
all else is what the test does. -/
theorem TestCall.journal_trial (host : Host σ) (test : Function) (call : TestCall)
    (world : World σ) : ∃ inner,
      (call.trial host test world).after.journal.toList = world.journal.toList ++
        .called test [.ofText? call.caller, (call.names.toValue world.store).1, call.subject,
          call.target, call.each.getD .undefined, call.of.getD .undefined] :: inner ∧
      ∀ event ∈ inner, event.isInner = true :=
  test.apply_journal host (call.toArguments world.store).1 (Run.onStore call.toArguments world).2

namespace Trial

def passed (trial : Trial σ) : Bool :=
  match trial.outcome with
  | .ok () => true
  | .error _ => false

def failed (trial : Trial σ) : Bool :=
  !trial.passed

/-- The trials run one after another, each in the world that the one before it left. -/
def InTurn (host : Host σ) (test : Function) : World σ → List (Trial σ) → World σ → Prop
  | world, [], final => final = world
  | world, trial :: rest, final =>
      trial = trial.call.trial host test world ∧ InTurn host test trial.after rest final

def lastOutcome (otherwise : TestOutcome) (trials : List (Trial σ)) : TestOutcome :=
  trials.foldl (fun _ trial ↦ trial.outcome) otherwise

variable {host : Host σ} {test : Function} {world middle final : World σ}
  {first second trials : List (Trial σ)}

theorem InTurn.append (left : InTurn host test world first middle)
    (right : InTurn host test middle second final) :
    InTurn host test world (first ++ second) final := by
  induction first generalizing world with
  | nil =>
    obtain rfl : middle = world := left
    exact right
  | cons trial rest ih => exact ⟨left.1, ih left.2⟩

theorem InTurn.singleton (call : TestCall) (world : World σ) :
    InTurn host test world [call.trial host test world] (call.trial host test world).after :=
  ⟨rfl, rfl⟩

/-- Each trial is made in the world before it. -/
theorem InTurn.eq_trial (turn : InTurn host test world trials final) {trial : Trial σ}
    (mem : trial ∈ trials) : trial = trial.call.trial host test trial.before := by
  induction trials generalizing world with
  | nil => simp at mem
  | cons head rest ih =>
    obtain ⟨hhead, hrest⟩ := turn
    rcases List.mem_cons.1 mem with rfl | mem
    · have hbefore : trial.before = world := by rw [hhead]; rfl
      rw [hbefore]
      exact hhead
    · exact ih hrest mem

@[simp] theorem lastOutcome_nil (otherwise : TestOutcome) :
    lastOutcome otherwise ([] : List (Trial σ)) = otherwise := rfl

@[simp] theorem lastOutcome_cons (otherwise : TestOutcome) (trial : Trial σ)
    (rest : List (Trial σ)) :
    lastOutcome otherwise (trial :: rest) = lastOutcome trial.outcome rest := rfl

theorem lastOutcome_append (otherwise : TestOutcome) (first second : List (Trial σ)) :
    lastOutcome otherwise (first ++ second) = lastOutcome (lastOutcome otherwise first) second :=
  List.foldl_append

/-- Where there is a trial, it does not matter what the outcome is otherwise. -/
theorem lastOutcome_congr (nonempty : trials ≠ []) (otherwise other : TestOutcome) :
    lastOutcome otherwise trials = lastOutcome other trials := by
  cases trials with
  | nil => exact absurd rfl nonempty
  | cons trial rest => rfl

theorem passed_eq_true_iff (trial : Trial σ) : trial.passed = true ↔ trial.outcome = .ok () := by
  rw [passed]
  cases trial.outcome <;> simp

theorem failed_eq_false_iff (trial : Trial σ) : trial.failed = false ↔ trial.outcome = .ok () := by
  rw [failed, Bool.not_eq_false', passed_eq_true_iff]

/-- A row up to the first pass ends well exactly if not all of it failed. -/
theorem lastOutcome_eq_ok_iff {calls : List TestCall}
    (row : UpToFirst Trial.call Trial.passed calls trials) (diagnostic : Diagnostic) :
    lastOutcome (.error diagnostic) trials = .ok () ↔ trials.all Trial.failed = false := by
  induction row generalizing diagnostic with
  | done => simp
  | @stop trial _ last => simpa [failed, last] using (trial.passed_eq_true_iff).1 last
  | @next trial _ _ more _ ih =>
    cases houtcome : trial.outcome with
    | ok => exact absurd ((trial.passed_eq_true_iff).2 houtcome) (by simp [more])
    | error reason => simp [houtcome, failed, more, ih reason]

end Trial

/-- A computation runs these trials in turn and comes to the outcome of the last. It passes if there
are none. -/
structure Trial.Perform (host : Host σ) (test : Function) (run : Run σ TestOutcome)
    (world : World σ) (trials : List (Trial σ)) : Prop where
  in_turn : Trial.InTurn host test world trials (run world).2
  outcome : (run world).1 = Trial.lastOutcome (.ok ()) trials

namespace SimpleRule

open Trial (Perform InTurn lastOutcome)

variable {host : Host σ} {test : Function}

/-- If what is done for each value is an attempt made of trials, values are worked off up to the
first attempt that fails. -/
theorem firstFailing_attempts {α : Type} {run : Value → Run σ TestOutcome} (value : α → Value)
    (trials : α → List (Trial σ)) (fails : α → Bool) (Proper : α → Prop)
    (attempts : ∀ item world, ∃ attempt, value attempt = item ∧ Proper attempt ∧
      Perform host test (run item) world (trials attempt) ∧
      ((run item world).1 = .ok () ↔ fails attempt = false))
    (items : List Value) (world : World σ) :
    ∃ made, UpToFirst value fails items made ∧ (∀ attempt ∈ made, Proper attempt) ∧
      Perform host test (firstFailing run items) world (made.flatMap trials) := by
  induction items generalizing world with
  | nil => exact ⟨[], .done, by simp, rfl, rfl⟩
  | cons item rest ih =>
    obtain ⟨attempt, rfl, hproper, hperform, hfails⟩ := attempts item world
    obtain ⟨hturn, houtcome⟩ := hperform
    cases hresult : (run (value attempt) world).1 with
    | error diagnostic =>
      have hlast : fails attempt = true := by simpa [hresult] using hfails
      have hfirst : firstFailing run (value attempt :: rest) world =
          (.error diagnostic, (run (value attempt) world).2) := by
        rw [firstFailing, Run.bind_apply, hresult]
        rfl
      refine ⟨[attempt], .stop _ hlast, by simpa using hproper, ?_, ?_⟩
      · simpa [hfirst] using hturn
      · simpa [hfirst, hresult] using houtcome
    | ok =>
      have hmore : fails attempt = false := hfails.1 hresult
      have hfirst : firstFailing run (value attempt :: rest) world =
          firstFailing run rest (run (value attempt) world).2 := by
        rw [firstFailing, Run.bind_apply, hresult]
      obtain ⟨made, hmade, hproper', hturn', houtcome'⟩ := ih (run (value attempt) world).2
      refine ⟨attempt :: made, .next hmore hmade, by simpa using ⟨hproper, hproper'⟩, ?_, ?_⟩
      · rw [hfirst, List.flatMap_cons]
        exact hturn.append hturn'
      · rw [hfirst, List.flatMap_cons, Trial.lastOutcome_append, ← houtcome, hresult, houtcome']

/-- Candidates are tried up to the first that passes. The diagnostic that is known before the first
one counts only if there is none. -/
theorem firstPassing_trials (host : Host σ) (test : Function) (call : Value → TestCall)
    (candidates : List Value) (last : Diagnostic) (world : World σ) :
    let result :=
      firstPassing (fun candidate ↦ test.runTest host (call candidate)) last candidates world
    ∃ trials, UpToFirst Trial.call Trial.passed (candidates.map call) trials ∧
      InTurn host test world trials result.2 ∧ result.1 = lastOutcome (.error last) trials := by
  induction candidates generalizing last world with
  | nil => exact ⟨[], .done, rfl, rfl⟩
  | cons candidate rest ih =>
    let trial := (call candidate).trial host test world
    let run (candidate : Value) : Run σ TestOutcome := test.runTest host (call candidate)
    have hresult : run candidate world = (trial.outcome, trial.after) := rfl
    cases houtcome : trial.outcome with
    | ok =>
      have hpassed : trial.passed = true := (trial.passed_eq_true_iff).2 houtcome
      have hfirst : firstPassing run last (candidate :: rest) world = (.ok (), trial.after) := by
        rw [firstPassing, Run.bind_apply, hresult, houtcome]
        rfl
      refine ⟨[trial], UpToFirst.stop _ hpassed, ?_, ?_⟩
      · rw [hfirst]
        exact .singleton _ _
      · rw [hfirst]
        exact houtcome.symm
    | error diagnostic =>
      have hmore : trial.passed = false := by simp [Trial.passed, houtcome]
      have hfirst : firstPassing run last (candidate :: rest) world =
          firstPassing run diagnostic rest trial.after := by
        rw [firstPassing, Run.bind_apply, hresult, houtcome]
      obtain ⟨trials, hrow, hturn, hlast⟩ := ih diagnostic trial.after
      refine ⟨trial :: trials, UpToFirst.next hmore hrow, ⟨rfl, ?_⟩, ?_⟩
      · rw [hfirst]
        exact hturn
      · rw [hfirst, hlast, Trial.lastOutcome_cons, houtcome]

/-! ## What a simple rule tries -/

def IteratesItems (rule : SimpleRule) : Prop :=
  rule.operator = some .each ∨ rule.operator = some .eachOf

def IteratesCandidates (rule : SimpleRule) : Prop :=
  rule.operator = some .oneOf ∨ rule.operator = some .eachOf

/-- The trials of a rule on these items and against these candidates. -/
def Tries (rule : SimpleRule) (caller : Option String) (items candidates : List Value)
    (trials : List (Trial σ)) : Prop :=
  match rule.operator with
  | none => trials.map Trial.call = [rule.callOf caller rule.subject rule.target none none]
  | some .each =>
      UpToFirst Trial.call Trial.failed
        (items.map fun item ↦ rule.callOf caller item rule.target (some rule.subject) none) trials
  | some .oneOf =>
      UpToFirst Trial.call Trial.passed
        (candidates.map fun candidate ↦
          rule.callOf caller rule.subject candidate none (some rule.target)) trials
  | some .eachOf =>
      -- Each item has a row of its own, and the last row is the first in which all trials failed.
      ∃ rows : List (Value × List (Trial σ)), trials = rows.flatMap Prod.snd ∧
        UpToFirst Prod.fst (fun row ↦ row.2.all Trial.failed) items rows ∧
        ∀ row ∈ rows, UpToFirst Trial.call Trial.passed
          (candidates.map fun candidate ↦
            rule.callOf caller row.1 candidate (some rule.subject) (some rule.target)) row.2

def idleOutcome (rule : SimpleRule) (caller : Option String) (items : List Value) : TestOutcome :=
  match rule.operator with
  | some .oneOf => .error (rule.noCandidates caller .oneOf)
  | some .eachOf => if items.isEmpty then .ok () else .error (rule.noCandidates caller .eachOf)
  | _ => .ok ()

section Evaluate

variable {rule : SimpleRule} {caller : Option String} {items candidates : List Value}
  {world : World σ} {trials : List (Trial σ)}

theorem evaluate_plain (hoperator : rule.operator = none) :
    rule.evaluate host caller world = rule.testFunction.runTest host
      (rule.callOf caller rule.subject rule.target none none) world := by
  rw [evaluate, Run.bind_apply, Run.store_apply, hoperator]

theorem evaluate_each (hoperator : rule.operator = some .each) :
    rule.evaluate host caller world = firstFailing (fun item ↦ rule.testFunction.runTest host
      (rule.callOf caller item rule.target (some rule.subject) none))
      (world.store.members rule.subject) world := by
  rw [evaluate, Run.bind_apply, Run.store_apply, hoperator]

theorem evaluate_oneOf (hoperator : rule.operator = some .oneOf)
    (hcandidates : world.store.members rule.target ≠ []) :
    rule.evaluate host caller world = firstPassing (fun candidate ↦ rule.testFunction.runTest host
      (rule.callOf caller rule.subject candidate none (some rule.target))) .empty
      (world.store.members rule.target) world := by
  rw [evaluate, Run.bind_apply, Run.store_apply, hoperator]
  dsimp only
  rw [if_neg (mt List.isEmpty_iff.1 hcandidates)]

theorem evaluate_eachOf (hoperator : rule.operator = some .eachOf)
    (hitems : world.store.members rule.subject ≠ [])
    (hcandidates : world.store.members rule.target ≠ []) :
    rule.evaluate host caller world = firstFailing (fun item ↦
      firstPassing (fun candidate ↦ rule.testFunction.runTest host
        (rule.callOf caller item candidate (some rule.subject) (some rule.target))) .empty
        (world.store.members rule.target)) (world.store.members rule.subject) world := by
  rw [evaluate, Run.bind_apply, Run.store_apply, hoperator]
  dsimp only
  rw [if_neg (mt List.isEmpty_iff.1 hitems), if_neg (mt List.isEmpty_iff.1 hcandidates)]

/-- An operator that looks for members where there are none does nothing. -/
theorem evaluate_idle
    (idle : rule.IteratesItems ∧ world.store.members rule.subject = [] ∨
      rule.IteratesCandidates ∧ world.store.members rule.target = []) :
    rule.evaluate host caller world =
      (rule.idleOutcome caller (world.store.members rule.subject), world) := by
  rw [evaluate, Run.bind_apply, Run.store_apply, idleOutcome]
  rcases idle with ⟨hoperator | hoperator, hnone⟩ | ⟨hoperator | hoperator, hnone⟩ <;>
    rw [hoperator] <;> dsimp only <;> rw [hnone]
  · rfl
  · rfl
  · rfl
  · cases world.store.members rule.subject <;> rfl

/-- Nothing is tried exactly if the operator looks for members where there are none. -/
theorem Tries.eq_nil_iff (tries : rule.Tries caller items candidates trials) :
    trials = [] ↔ rule.IteratesItems ∧ items = [] ∨ rule.IteratesCandidates ∧ candidates = [] := by
  unfold Tries at tries
  unfold IteratesItems IteratesCandidates
  cases hoperator : rule.operator with
  | none =>
    rw [hoperator] at tries
    have hnonempty : trials ≠ [] := by
      rintro rfl
      simp at tries
    simp [hnonempty]
  | some operator =>
    cases operator with
    | each =>
      rw [hoperator] at tries
      simpa using UpToFirst.eq_nil_iff tries
    | oneOf =>
      rw [hoperator] at tries
      simpa using UpToFirst.eq_nil_iff tries
    | eachOf =>
      rw [hoperator] at tries
      obtain ⟨rows, rfl, hrows, hrow⟩ := tries
      have hcandidates : ∀ row ∈ rows, (row.2 = [] ↔ candidates = []) := fun row mem ↦ by
        simpa using (hrow row mem).eq_nil_iff
      rw [List.flatMap_eq_nil_iff]
      cases rows with
      | nil => simp [hrows.eq_nil_iff.1 rfl]
      | cons row rest =>
        have hitems : items ≠ [] := fun hnil ↦ by simpa using hrows.eq_nil_iff.2 hnil
        have hall : (∀ other ∈ row :: rest, other.2 = []) ↔ candidates = [] :=
          ⟨fun hnil ↦ (hcandidates row List.mem_cons_self).1 (hnil row List.mem_cons_self),
            fun hnil other mem ↦ (hcandidates other mem).2 hnil⟩
        rw [hall]
        simp [hitems]

/-- A rule that looks for members where there are none tries nothing. -/
theorem tries_nil
    (idle : rule.IteratesItems ∧ items = [] ∨ rule.IteratesCandidates ∧ candidates = []) :
    rule.Tries caller items candidates ([] : List (Trial σ)) := by
  unfold Tries
  rcases idle with ⟨hoperator | hoperator, rfl⟩ | ⟨hoperator | hoperator, rfl⟩ <;> rw [hoperator]
  · exact .done
  · exact ⟨[], rfl, .done, by simp⟩
  · exact .done
  · cases items with
    | nil => exact ⟨[], rfl, .done, by simp⟩
    | cons item rest =>
      -- The row of the first item is empty, and in an empty row all trials failed.
      let row : Value × List (Trial σ) := (item, [])
      have hrows : UpToFirst Prod.fst (fun row ↦ row.2.all Trial.failed) (row.1 :: rest) [row] :=
        .stop rest rfl
      exact ⟨[row], rfl, hrows, by simpa [row] using UpToFirst.done⟩

/-- Each item is a trial of its own. -/
theorem trials_each (host : Host σ) (caller : Option String)
    (hoperator : rule.operator = some .each) (items candidates : List Value) (world : World σ) :
    ∃ trials, rule.Tries caller items candidates trials ∧
      Perform host rule.testFunction (firstFailing (fun item ↦ rule.testFunction.runTest host
        (rule.callOf caller item rule.target (some rule.subject) none)) items) world trials := by
  let call (item : Value) : TestCall :=
    rule.callOf caller item rule.target (some rule.subject) none
  obtain ⟨trials, hrow, hproper, hperform⟩ := firstFailing_attempts
    (fun trial ↦ trial.call.subject) (fun trial ↦ [trial]) Trial.failed
    (fun trial ↦ trial.call = call trial.call.subject)
    (fun item world ↦
      let trial := (call item).trial host rule.testFunction world
      ⟨trial, rfl, rfl, ⟨.singleton _ _, rfl⟩, trial.failed_eq_false_iff.symm⟩) items world
  have hcalls : UpToFirst Trial.call Trial.failed (items.map call) (trials.map id) :=
    hrow.map call id hproper fun _ _ ↦ rfl
  refine ⟨trials, ?_, by simpa using hperform⟩
  rw [Tries, hoperator]
  simpa using hcalls

/-- Candidates are trials of the compared value as a whole. -/
theorem trials_oneOf (host : Host σ) (caller : Option String)
    (hoperator : rule.operator = some .oneOf) (items candidates : List Value) (last : Diagnostic)
    (world : World σ) :
    let result := firstPassing (fun candidate ↦ rule.testFunction.runTest host
      (rule.callOf caller rule.subject candidate none (some rule.target))) last candidates world
    ∃ trials, rule.Tries caller items candidates trials ∧
      InTurn host rule.testFunction world trials result.2 ∧
      result.1 = lastOutcome (.error last) trials := by
  obtain ⟨trials, hrow, hturn, hlast⟩ := firstPassing_trials host rule.testFunction
    (fun candidate ↦ rule.callOf caller rule.subject candidate none (some rule.target))
    candidates last world
  refine ⟨trials, ?_, hturn, hlast⟩
  rw [Tries, hoperator]
  exact hrow

/-- Each item has a row of trials, one for each candidate. -/
theorem trials_eachOf (host : Host σ) (caller : Option String)
    (hoperator : rule.operator = some .eachOf) (hcandidates : candidates ≠ []) (items : List Value)
    (world : World σ) :
    ∃ trials, rule.Tries caller items candidates trials ∧
      Perform host rule.testFunction (firstFailing (fun item ↦
        firstPassing (fun candidate ↦ rule.testFunction.runTest host
          (rule.callOf caller item candidate (some rule.subject) (some rule.target))) .empty
          candidates) items) world trials := by
  let call (item candidate : Value) : TestCall :=
    rule.callOf caller item candidate (some rule.subject) (some rule.target)
  have hattempt (item : Value) (world : World σ) : ∃ row : Value × List (Trial σ),
      row.1 = item ∧ UpToFirst Trial.call Trial.passed (candidates.map (call row.1)) row.2 ∧
      Perform host rule.testFunction (firstPassing (fun candidate ↦
        rule.testFunction.runTest host (call item candidate)) .empty candidates) world row.2 ∧
      ((firstPassing (fun candidate ↦ rule.testFunction.runTest host (call item candidate)) .empty
        candidates world).1 = .ok () ↔ row.2.all Trial.failed = false) := by
    obtain ⟨trials, hrow, hturn, hlast⟩ :=
      firstPassing_trials host rule.testFunction (call item) candidates .empty world
    have hnonempty : trials ≠ [] := by simpa [hrow.eq_nil_iff] using hcandidates
    refine ⟨(item, trials), rfl, hrow, ⟨hturn, ?_⟩, ?_⟩
    · rw [hlast, Trial.lastOutcome_congr hnonempty]
    · rw [hlast, Trial.lastOutcome_eq_ok_iff hrow]
  obtain ⟨rows, hrows, hrow, hperform⟩ := firstFailing_attempts Prod.fst Prod.snd
    (fun row ↦ row.2.all Trial.failed) _ hattempt items world
  refine ⟨rows.flatMap Prod.snd, ?_, hperform⟩
  rw [Tries, hoperator]
  exact ⟨rows, rfl, hrows, hrow⟩

/-- A simple rule is evaluated by its trials, and by nothing else. -/
theorem exists_trials (host : Host σ) (caller : Option String) (rule : SimpleRule)
    (world : World σ) :
    let result := rule.evaluate host caller world
    let items := world.store.members rule.subject
    ∃ trials, rule.Tries caller items (world.store.members rule.target) trials ∧
      InTurn host rule.testFunction world trials result.2 ∧
      result.1 = lastOutcome (rule.idleOutcome caller items) trials := by
  intro result items
  by_cases idle : rule.IteratesItems ∧ items = [] ∨
      rule.IteratesCandidates ∧ world.store.members rule.target = []
  · have hresult : result = (rule.idleOutcome caller items, world) := evaluate_idle idle
    rw [hresult]
    exact ⟨[], tries_nil idle, rfl, rfl⟩
  · -- Something is tried, so it does not matter which outcome the loops begin with.
    obtain ⟨trials, htries, hturn, otherwise, houtcome⟩ : ∃ trials,
        rule.Tries caller items (world.store.members rule.target) trials ∧
        InTurn host rule.testFunction world trials result.2 ∧
        ∃ otherwise, result.1 = lastOutcome otherwise trials := by
      obtain ⟨hitems, hcandidates⟩ := not_or.1 idle
      cases hoperator : rule.operator with
      | none =>
        have hresult : result = _ := evaluate_plain hoperator
        refine ⟨[(rule.callOf caller rule.subject rule.target none none).trial host
          rule.testFunction world], ?_, ?_, .ok (), ?_⟩
        · rw [Tries, hoperator]
          rfl
        · rw [hresult]
          exact .singleton _ _
        · rw [hresult]
          rfl
      | some operator =>
        cases operator with
        | each =>
          have hresult : result = _ := evaluate_each hoperator
          obtain ⟨trials, htries, hturn, houtcome⟩ := trials_each host caller hoperator items
            (world.store.members rule.target) world
          rw [hresult]
          exact ⟨trials, htries, hturn, .ok (), houtcome⟩
        | oneOf =>
          have hresult : result = _ :=
            evaluate_oneOf hoperator fun hnone ↦ hcandidates ⟨.inl hoperator, hnone⟩
          obtain ⟨trials, htries, hturn, houtcome⟩ := trials_oneOf host caller hoperator items
            (world.store.members rule.target) .empty world
          rw [hresult]
          exact ⟨trials, htries, hturn, .error .empty, houtcome⟩
        | eachOf =>
          have hsome : world.store.members rule.target ≠ [] :=
            fun hnone ↦ hcandidates ⟨.inr hoperator, hnone⟩
          have hresult : result = _ :=
            evaluate_eachOf hoperator (fun hnone ↦ hitems ⟨.inr hoperator, hnone⟩) hsome
          obtain ⟨trials, htries, hturn, houtcome⟩ :=
            trials_eachOf host caller hoperator hsome items world
          rw [hresult]
          exact ⟨trials, htries, hturn, .ok (), houtcome⟩
    have htrials : trials ≠ [] := mt htries.eq_nil_iff.1 idle
    refine ⟨trials, htries, hturn, ?_⟩
    rw [houtcome, Trial.lastOutcome_congr htrials]

end Evaluate

/-- The trials of a simple rule, its outcome and the world that it leaves, as its operator and the
members at the start determine them. Without items a rule on items passes, otherwise without
candidates it fails and says so, and in all other cases the last trial decides. -/
structure TriedOut (host : Host σ) (caller : Option String) (rule : SimpleRule) (world : World σ)
    (trials : List (Trial σ)) (outcome : TestOutcome) (final : World σ) : Prop where
  in_turn : Trial.InTurn host rule.testFunction world trials final
  calls : rule.Tries caller (world.store.members rule.subject) (world.store.members rule.target)
    trials
  recorded : ∀ trial ∈ trials, ∃ inner,
    trial.after.journal.toList = trial.before.journal.toList ++
      .called rule.testFunction
        [.ofText? trial.call.caller, (trial.call.names.toValue trial.before.store).1,
          trial.call.subject, trial.call.target, trial.call.each.getD .undefined,
          trial.call.of.getD .undefined] :: inner ∧
    ∀ event ∈ inner, event.isInner = true
  untried_iff : trials = [] ↔
    rule.IteratesItems ∧ world.store.members rule.subject = [] ∨
    rule.IteratesCandidates ∧ world.store.members rule.target = []
  no_items : rule.IteratesItems → world.store.members rule.subject = [] → outcome = .ok ()
  no_candidates : ∀ operator, rule.operator = some operator → rule.IteratesCandidates →
    ¬ (rule.IteratesItems ∧ world.store.members rule.subject = []) →
    world.store.members rule.target = [] → outcome = .error (rule.noCandidates caller operator)
  last : ∀ front trial, trials = front ++ [trial] → outcome = trial.outcome

/-- Every simple rule is evaluated by its trials. -/
theorem exists_triedOut (host : Host σ) (caller : Option String) (rule : SimpleRule)
    (world : World σ) : ∃ trials, rule.TriedOut host caller world trials
      (rule.evaluate host caller world).1 (rule.evaluate host caller world).2 := by
  obtain ⟨trials, htries, hturn, houtcome⟩ := rule.exists_trials host caller world
  refine ⟨trials, ?_⟩
  generalize rule.evaluate host caller world = result at hturn houtcome
  obtain ⟨outcome, final⟩ := result
  exact {
    in_turn := hturn
    calls := htries
    recorded := fun trial mem ↦ by
      rw [hturn.eq_trial mem]
      exact trial.call.journal_trial host rule.testFunction trial.before
    untried_iff := htries.eq_nil_iff
    no_items := fun hiterates hitems ↦ by
      have htrials : trials = [] := htries.eq_nil_iff.2 (.inl ⟨hiterates, hitems⟩)
      rw [houtcome, htrials, hitems]
      rcases hiterates with hoperator | hoperator <;> rw [idleOutcome, hoperator] <;> rfl
    no_candidates := fun operator hoperator hiterates hitems hcandidates ↦ by
      have htrials : trials = [] := htries.eq_nil_iff.2 (.inr ⟨hiterates, hcandidates⟩)
      rw [houtcome, htrials]
      rcases hiterates with hone | heach
      · obtain rfl := Option.some.inj (hoperator.symm.trans hone)
        rw [idleOutcome, hoperator]
        rfl
      · obtain rfl := Option.some.inj (hoperator.symm.trans heach)
        have hnonempty : world.store.members rule.subject ≠ [] :=
          fun hnil ↦ hitems ⟨.inr heach, hnil⟩
        rw [idleOutcome, hoperator]
        simp [hnonempty]
    last := fun front trial hsplit ↦ by
      rw [houtcome, hsplit, Trial.lastOutcome_append]
      rfl }

end SimpleRule

/-- What a rule opens once its trials came to an outcome: nothing, unless it fails. -/
def TestOutcome.next : TestOutcome → Except Failure (List Value)
  | .ok () => .ok []
  | .error diagnostic => .error (.diagnosed diagnostic)

/-- A simple rule that is visited tries its test as its operator says, on the members that its
values have at that moment. -/
theorem Pending.triedOut_visit {host : Host σ} {options : Options} {caller : Option String}
    {pending : Pending} {world : World σ} {rule : SimpleRule} {next : Except Failure (List Value)}
    (found : (pending.visit host options caller world).finding = .decoded (.simple rule) next) :
    ∃ trials tested, next = TestOutcome.next tested ∧
      rule.TriedOut host caller (pending.noticed world (.simple rule)) trials tested
        (pending.visit host options caller world).after := by
  obtain ⟨-, -, -, henter⟩ := visit_of_decoded found
  obtain ⟨trials, htried⟩ :=
    rule.exists_triedOut host caller (pending.noticed world (.simple rule))
  rw [Shape.enter, Run.bind_apply] at henter
  generalize rule.evaluate host caller (pending.noticed world (.simple rule)) = result
    at henter htried
  obtain ⟨tested, after⟩ := result
  cases tested with
  | ok =>
    obtain ⟨rfl, rfl⟩ := Prod.mk.inj henter
    exact ⟨trials, .ok (), rfl, htried⟩
  | error diagnostic =>
    obtain ⟨rfl, rfl⟩ := Prod.mk.inj henter
    exact ⟨trials, .error diagnostic, rfl, htried⟩

/-- In a check, every simple rule that has its turn makes exactly the calls of its trials, passes or
fails with the last of them, and its diagnostic is what the check answers. -/
theorem check_tries (host : Host σ) (engine : Engine) (label : Option String) (rule : Value)
    (world : World σ) : ∃ visits outcome final,
      Walk host engine.options label [⟨0, rule⟩] world visits outcome final ∧
      engine.check host label rule world = (outcome, Engine.close label outcome final) ∧
      ∀ visit ∈ visits, ∀ simple next, visit.finding = .decoded (.simple simple) next →
        ∃ trials tested,
          simple.TriedOut host label (visit.toPending.noticed visit.before (.simple simple)) trials
            tested visit.after ∧
          next = TestOutcome.next tested ∧
          ∀ diagnostic, tested = .error diagnostic → outcome = .error (.diagnosed diagnostic) := by
  obtain ⟨visits, outcome, final, hwalk, hcheck⟩ := engine.exists_walk host label rule world
  refine ⟨visits, outcome, final, hwalk, hcheck, ?_⟩
  intro visit mem simple next hfound
  have hvisit := hwalk.visit_eq mem
  have hfound' := hfound
  rw [hvisit] at hfound'
  obtain ⟨trials, tested, hnext, htried⟩ := Pending.triedOut_visit hfound'
  rw [← hvisit] at htried
  refine ⟨trials, tested, htried, hnext, ?_⟩
  rintro diagnostic rfl
  refine hwalk.outcome_of_failed mem (Visit.failure_of_next_error ?_)
  rw [hfound]
  exact hnext

end RuleCheck
