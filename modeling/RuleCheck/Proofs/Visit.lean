import RuleCheck.Proofs.Journal

/-!
# Visits of single rules

An evaluation looks at one rule after another. Looking at a rule is refused below the depth limit
or if its form is not valid; otherwise the rule is decoded and does what it does by itself. It may
fail, or it opens further rules that are evaluated next: a literal `true` opens none, a function
opens what it answers, a list opens the members that it has at that moment.

What a visit adds to the journal follows from what was found: nothing if the rule was refused, and
otherwise the notice of its shape and the calls that rules of that shape make.
-/

namespace RuleCheck

variable {σ : Type}

structure Pending where
  depth : Nat
  rule : Value

/-- What looking at a rule comes to. Nothing else is known of a rule below the limit. A rule that
was decoded either fails by itself or opens rules that are evaluated next. -/
inductive Finding where
  | tooDeep (failure : Failure)
  | invalid (failure : Failure)
  | decoded (shape : Shape) (next : Except Failure (List Value))

namespace Finding

def next : Finding → Except Failure (List Value)
  | .tooDeep failure => .error failure
  | .invalid failure => .error failure
  | .decoded _ next => next

def shape? : Finding → Option Shape
  | .decoded shape _ => some shape
  | _ => none

def isTooDeep : Finding → Bool
  | .tooDeep _ => true
  | _ => false

def isInvalid : Finding → Bool
  | .invalid _ => true
  | _ => false

/-- The rule was refused: it is too deep, its form is not valid, or it cannot be decoded. -/
def isRefused : Finding → Bool
  | .tooDeep _ => true
  | .invalid _ => true
  | .decoded .malformed _ => true
  | .decoded _ _ => false

def function? : Finding → Option Function
  | .decoded (.function callee) _ => some callee
  | _ => none

end Finding

/-- What a decoded rule does by itself: a function is called without arguments, a test is run, and
whatever is left to be evaluated is opened. -/
def Shape.enter (host : Host σ) (caller : Option String) (rule : Value) :
    Shape → Run σ (Except Failure (List Value))
  | .boolean true => return .ok []
  | .boolean false => return .error .rejected
  | .empty => return .ok []
  | .function callee => return .ok [← callee.apply host []]
  | .guard condition rules => return .ok (if condition then [rules] else [])
  | .list rules => return .ok rules
  | .simple rule => do
      match ← rule.evaluate host caller with
      | .ok () => return .ok []
      | .error diagnostic => return .error (.diagnosed diagnostic)
  | .malformed => return .error (.diagnosed (Options.malformedRule rule))

/-- Looks at a rule: its depth first, then its form, then what it does. -/
def Pending.look (host : Host σ) (options : Options) (caller : Option String) (pending : Pending) :
    Run σ Finding := do
  if options.maxDepth < pending.depth then return .tooDeep (.diagnosed (options.tooDeep pending.rule))
  else
    match ← options.checkForm pending.rule with
    | .error failure => return .invalid failure
    | .ok () =>
        let shape := Shape.ofValue (← Run.store) pending.rule
        Run.record (.evaluating shape.name pending.depth)
        return .decoded shape (← shape.enter host caller pending.rule)

/-! ## Visits -/

/-- One look at a rule, with the worlds before and after. -/
structure Visit (σ : Type) extends Pending where
  before : World σ
  finding : Finding
  after : World σ

def Pending.visit (host : Host σ) (options : Options) (caller : Option String) (pending : Pending)
    (world : World σ) : Visit σ :=
  { pending with
    before := world
    finding := (pending.look host options caller world).1
    after := (pending.look host options caller world).2 }

namespace Visit

def failure? (visit : Visit σ) : Option Failure :=
  match visit.finding.next with
  | .ok _ => none
  | .error failure => some failure

def opened (visit : Visit σ) : List Value :=
  match visit.finding.next with
  | .ok rules => rules
  | .error _ => []

def events (visit : Visit σ) : List Event :=
  visit.after.journal.toList.drop visit.before.journal.size

theorem failure_of_next_error {visit : Visit σ} {failure : Failure}
    (failed : visit.finding.next = .error failure) : visit.failure? = some failure := by
  simp [failure?, failed]

theorem failure_of_next_ok {visit : Visit σ} {rules : List Value}
    (opens : visit.finding.next = .ok rules) : visit.failure? = none := by
  simp [failure?, opens]

theorem opened_of_next_ok {visit : Visit σ} {rules : List Value}
    (opens : visit.finding.next = .ok rules) : visit.opened = rules := by
  simp [opened, opens]

end Visit

namespace Options

variable (options : Options) (rule : Value) (world : World σ)

theorem checkForm_apply : options.checkForm rule world =
    if options.production then (.ok (), world)
    else
      match Rule.check world.store rule with
      | .ok () => (.ok (), world)
      | .error fault =>
          (.error (.diagnosed (fault.diagnostic world.store).1),
            { world with store := (fault.diagnostic world.store).2 }) := by
  rw [checkForm]
  cases options.production with
  | true => rfl
  | false =>
    simp only [Bool.false_eq_true, if_false, Run.bind_apply, Run.store_apply]
    cases Rule.check world.store rule <;> rfl

/-- A valid form is found without a trace. -/
theorem checkForm_of_ok (valid : (options.checkForm rule world).1 = .ok ()) :
    options.checkForm rule world = (.ok (), world) := by
  cases hproduction : options.production with
  | true => rw [checkForm_apply, if_pos hproduction]
  | false =>
    cases hcheck : Rule.check world.store rule with
    | ok => simp [checkForm_apply, hproduction, hcheck]
    | error fault => simp [checkForm_apply, hproduction, hcheck] at valid

@[simp] theorem journal_checkForm :
    (options.checkForm rule world).2.journal = world.journal := by
  rw [checkForm_apply]
  cases options.production with
  | true => rfl
  | false => cases Rule.check world.store rule <;> rfl

end Options

namespace Pending

variable (host : Host σ) (options : Options) (caller : Option String) (pending : Pending)
  (world : World σ)

/-- The world in which a decoded rule begins: its shape has been noticed. -/
def noticed (shape : Shape) : World σ :=
  { world with journal := world.journal.push (.evaluating shape.name pending.depth) }

theorem look_of_tooDeep (deep : options.maxDepth < pending.depth) :
    pending.look host options caller world =
      (.tooDeep (.diagnosed (options.tooDeep pending.rule)), world) := by
  rw [look, if_pos deep]
  rfl

theorem look_of_invalid (within : pending.depth ≤ options.maxDepth) {failure : Failure}
    (invalid : (options.checkForm pending.rule world).1 = .error failure) :
    pending.look host options caller world =
      (.invalid failure, (options.checkForm pending.rule world).2) := by
  rw [look, if_neg (Nat.not_lt_of_le within), Run.bind_apply, invalid]
  rfl

theorem look_of_valid (within : pending.depth ≤ options.maxDepth)
    (valid : (options.checkForm pending.rule world).1 = .ok ()) :
    pending.look host options caller world =
      let shape := Shape.ofValue world.store pending.rule
      let result := shape.enter host caller pending.rule (pending.noticed world shape)
      (.decoded shape result.1, result.2) := by
  rw [look, if_neg (Nat.not_lt_of_le within), Run.bind_apply, options.checkForm_of_ok _ _ valid]
  rfl

/-- Options with the same check of the form look at a rule alike if it lies within both limits. -/
theorem look_congr {other : Options} (within : pending.depth ≤ options.maxDepth)
    (within_other : pending.depth ≤ other.maxDepth)
    (form : other.checkForm pending.rule world = options.checkForm pending.rule world) :
    pending.look host other caller world = pending.look host options caller world := by
  rw [look, look, if_neg (Nat.not_lt_of_le within), if_neg (Nat.not_lt_of_le within_other)]
  rw [Run.bind_apply, Run.bind_apply, form]

variable {host options caller pending world}

theorem visit_of_tooDeep {failure : Failure}
    (found : (pending.visit host options caller world).finding = .tooDeep failure) :
    options.maxDepth < pending.depth ∧
      failure = .diagnosed (options.tooDeep pending.rule) ∧
      (pending.visit host options caller world).after = world := by
  by_cases hdeep : options.maxDepth < pending.depth
  · rw [visit, look_of_tooDeep _ _ _ _ _ hdeep] at found ⊢
    exact ⟨hdeep, (Finding.tooDeep.inj found).symm, rfl⟩
  · have hwithin := Nat.le_of_not_lt hdeep
    cases hform : (options.checkForm pending.rule world).1 with
    | error reason => simp [visit, look_of_invalid _ _ _ _ _ hwithin hform] at found
    | ok => simp [visit, look_of_valid _ _ _ _ _ hwithin hform] at found

theorem visit_of_invalid {failure : Failure}
    (found : (pending.visit host options caller world).finding = .invalid failure) :
    pending.depth ≤ options.maxDepth ∧
      options.checkForm pending.rule world =
        (.error failure, (pending.visit host options caller world).after) := by
  by_cases hdeep : options.maxDepth < pending.depth
  · simp [visit, look_of_tooDeep _ _ _ _ _ hdeep] at found
  · have hwithin := Nat.le_of_not_lt hdeep
    cases hform : (options.checkForm pending.rule world).1 with
    | error reason =>
      rw [visit, look_of_invalid _ _ _ _ _ hwithin hform] at found ⊢
      obtain rfl := Finding.invalid.inj found
      exact ⟨hwithin, Prod.ext hform rfl⟩
    | ok => simp [visit, look_of_valid _ _ _ _ _ hwithin hform] at found

/-- A rule that was decoded lies within the limit and has a valid form. It was decoded as the store
stood when it was visited, and then did what its shape does. -/
theorem visit_of_decoded {shape : Shape} {next : Except Failure (List Value)}
    (found : (pending.visit host options caller world).finding = .decoded shape next) :
    pending.depth ≤ options.maxDepth ∧
      (options.checkForm pending.rule world).1 = .ok () ∧
      shape = Shape.ofValue world.store pending.rule ∧
      shape.enter host caller pending.rule (pending.noticed world shape) =
        (next, (pending.visit host options caller world).after) := by
  by_cases hdeep : options.maxDepth < pending.depth
  · simp [visit, look_of_tooDeep _ _ _ _ _ hdeep] at found
  · have hwithin := Nat.le_of_not_lt hdeep
    cases hform : (options.checkForm pending.rule world).1 with
    | error reason => simp [visit, look_of_invalid _ _ _ _ _ hwithin hform] at found
    | ok =>
      rw [visit, look_of_valid _ _ _ _ _ hwithin hform] at found ⊢
      obtain ⟨rfl, rfl⟩ := Finding.decoded.inj found
      exact ⟨hwithin, rfl, rfl, rfl⟩

end Pending

/-- The calls that a rule of a shape makes by itself. A function is called once and without arguments,
before anything that it does; a test is always handed arguments; other shapes call nothing. -/
def Shape.Makes : Shape → List Event → Prop
  | .function callee, calls =>
      ∃ inner, calls = .called callee [] :: inner ∧ ∀ event ∈ inner, event.isInner = true
  | .simple _, calls => ∀ event ∈ calls, event.IsArgumentCall
  | _, calls => calls = []

/-- What is recorded of a finding: nothing if the rule was refused, and otherwise the notice of its
shape and then the calls that it makes. -/
def Finding.Records (depth : Nat) : Finding → List Event → Prop
  | .decoded shape _, events =>
      ∃ calls, events = .evaluating shape.name depth :: calls ∧ shape.Makes calls
  | _, events => events = []

/-- Whatever a rule makes by itself are calls. -/
theorem Shape.isCall_of_makes {shape : Shape} {calls : List Event} (makes : shape.Makes calls) :
    ∀ event ∈ calls, event.isCall = true := by
  cases shape with
  | function callee =>
    obtain ⟨inner, rfl, hinner⟩ := makes
    intro event mem
    rcases List.mem_cons.1 mem with rfl | mem
    · rfl
    · exact (Event.isArgumentCall_of_isInner (hinner event mem)).1
  | simple simpleRule => exact fun event mem ↦ (makes event mem).1
  | boolean | empty | guard | list | malformed =>
    obtain rfl : calls = [] := makes
    simp

theorem Shape.journal_enter (host : Host σ) (caller : Option String) (rule : Value) (shape : Shape)
    (world : World σ) : ∃ calls : List Event,
      (shape.enter host caller rule world).2.journal.toList = world.journal.toList ++ calls ∧
      shape.Makes calls := by
  cases shape with
  | boolean result => cases result <;> exact ⟨[], (List.append_nil _).symm, rfl⟩
  | function callee =>
    obtain ⟨inner, happend, hinner⟩ := callee.apply_journal host [] world
    exact ⟨.called callee [] :: inner, happend, inner, rfl, hinner⟩
  | empty => exact ⟨[], (List.append_nil _).symm, rfl⟩
  | guard condition rules => exact ⟨[], (List.append_nil _).symm, rfl⟩
  | list rules => exact ⟨[], (List.append_nil _).symm, rfl⟩
  | simple simpleRule =>
    obtain ⟨calls, happend, hcalls⟩ := simpleRule.evaluate_addsOnly host caller world
    refine ⟨calls, ?_, hcalls⟩
    rw [enter, Run.bind_apply, ← happend]
    cases (simpleRule.evaluate host caller world).1 <;> rfl
  | malformed => exact ⟨[], (List.append_nil _).symm, rfl⟩

namespace Finding

/-- A notice comes from a rule that was decoded, with the name of its shape and its depth. -/
theorem shape_of_evaluating {finding : Finding} {depth noticed : Nat} {events : List Event}
    {name : ShapeName} (records : finding.Records depth events)
    (mem : .evaluating name noticed ∈ events) :
    noticed = depth ∧ ∃ shape next, finding = .decoded shape next ∧ shape.name = name := by
  cases finding with
  | tooDeep => simp only [Records] at records; simp [records] at mem
  | invalid => simp only [Records] at records; simp [records] at mem
  | decoded shape next =>
    obtain ⟨calls, rfl, hmakes⟩ := records
    rcases List.mem_cons.1 mem with heq | mem
    · obtain ⟨rfl, rfl⟩ := Event.evaluating.inj heq
      exact ⟨rfl, shape, next, rfl, rfl⟩
    · exact absurd (Shape.isCall_of_makes hmakes _ mem) (by simp [Event.isCall])

end Finding

namespace Pending

variable (host : Host σ) (options : Options) (caller : Option String) (pending : Pending)
  (world : World σ)

/-- A look only adds to the journal, and what it adds fits what it found. -/
theorem journal_look : ∃ events : List Event,
    (pending.look host options caller world).2.journal.toList =
      world.journal.toList ++ events ∧
    (pending.look host options caller world).1.Records pending.depth events := by
  by_cases hdeep : options.maxDepth < pending.depth
  · rw [look_of_tooDeep _ _ _ _ _ hdeep]
    exact ⟨[], (List.append_nil _).symm, rfl⟩
  · have hwithin := Nat.le_of_not_lt hdeep
    cases hform : (options.checkForm pending.rule world).1 with
    | error failure =>
      rw [look_of_invalid _ _ _ _ _ hwithin hform]
      exact ⟨[], by simp, rfl⟩
    | ok =>
      rw [look_of_valid _ _ _ _ _ hwithin hform]
      let shape := Shape.ofValue world.store pending.rule
      obtain ⟨calls, happend, hmakes⟩ :=
        shape.journal_enter host caller pending.rule (pending.noticed world shape)
      refine ⟨.evaluating shape.name pending.depth :: calls, ?_, calls, rfl, hmakes⟩
      simpa [noticed] using happend

theorem journal_visit :
    (pending.visit host options caller world).after.journal.toList =
      world.journal.toList ++ (pending.visit host options caller world).events := by
  obtain ⟨events, happend, -⟩ := pending.journal_look host options caller world
  simp [Visit.events, visit, happend]

theorem records_visit :
    (pending.visit host options caller world).finding.Records pending.depth
      (pending.visit host options caller world).events := by
  obtain ⟨events, happend, hrecords⟩ := pending.journal_look host options caller world
  have hevents : (pending.visit host options caller world).events = events := by
    simp [Visit.events, visit, happend]
  rw [hevents]
  exact hrecords

end Pending

end RuleCheck
