import RuleCheck.Proofs.Channels
import RuleCheck.Proofs.Trials

/-!
# The calling convention of tests

A test has a body that is handed a call and says that it passes, or why it does not. As a function it
takes six arguments instead and answers one value. The caller lays out the call and reads the answer
back; the function reads the call back and lays out what its body says.

Reading undoes laying out, in both directions, if no collection of the call is undefined: then the
function does what its body does, once, on the same call. The collections of the calls that an
evaluation makes are never undefined.
-/

namespace RuleCheck

variable {σ : Type}

@[simp] theorem Value.text_ofText (content : Option String) :
    (Value.ofText? content).text? = content := by
  cases content <;> rfl

/-- Names that are laid out can be read back. -/
theorem Names.ofValue_toValue (names : Names) (store : Store) :
    ofValue? (names.toValue store).2 (names.toValue store).1 = some names := by
  let texts : List Value := [.text names.label, .text names.qualifier]
  have hitems : (Store.addList texts store).2.items (Store.addList texts store).1 = texts :=
    Store.items_addList_self store texts
  change ofValue? (Store.addList texts store).2 (.array (Store.addList texts store).1) = some names
  rw [ofValue?, hitems]

namespace TestCall

/-- Neither collection is present and undefined. -/
structure CollectionsDefined (call : TestCall) : Prop where
  each : call.each ≠ some .undefined
  of : call.of ≠ some .undefined

theorem defined_getD {collection : Option Value} (defined : collection ≠ some .undefined) :
    defined? (collection.getD .undefined) = collection := by
  cases collection with
  | none => rfl
  | some value =>
    cases value with
    | undefined => exact absurd rfl defined
    | _ => rfl

/-- A call that is laid out can be read back. -/
theorem ofArguments_toArguments {call : TestCall} (defined : call.CollectionsDefined)
    (store : Store) :
    ofArguments (call.toArguments store).2 (call.toArguments store).1 = call := by
  have hnames := call.names.ofValue_toValue store
  calc
    ofArguments (call.toArguments store).2 (call.toArguments store).1
      = { caller := (Value.ofText? call.caller).text?
          names := (Names.ofValue? (call.names.toValue store).2
            (call.names.toValue store).1).getD {}
          subject := call.subject
          target := call.target
          each := defined? (call.each.getD .undefined)
          of := defined? (call.of.getD .undefined) } := rfl
    _ = call := by
      rw [Value.text_ofText, hnames, defined_getD defined.each, defined_getD defined.of]
      rfl

/-- What a test says can be read back once it is laid out. -/
theorem outcome_toValue (call : TestCall) (said : TestOutcome) (store : Store) :
    call.outcome (said.toValue store).2 (said.toValue store).1 = said := by
  cases said with
  | ok => rfl
  | error diagnostic =>
    have hitems := Store.items_addList_self store diagnostic.fragments
    exact congrArg (fun fragments ↦ Except.error (Diagnostic.mk fragments)) hitems

end TestCall

/-- What a made test says of a call: it passes if its predicate answers `true`; an array that the
predicate answers is the diagnostic, and otherwise the diagnostic is worded from the clauses. -/
def Predicate.test (host : Host σ) (predicate : Predicate) (clauses : Clauses) (call : TestCall) :
    Run σ TestOutcome := do
  match ← predicate.ask host call.subject call.target with
  | .bool true => return .ok ()
  | .array ref => return .error ⟨(← Run.store).items ref⟩
  | _ =>
      let finals ← clauses.finalFragments host call.subject call.target
      return .error ⟨call.leadingFragments clauses.shouldText ++ finals⟩

namespace Function

def body? (host : Host σ) : Function → Option (TestCall → Run σ TestOutcome)
  | .typed code _ => some fun call ↦ do
      Run.record (.tested code call)
      Run.onHost (host.test code call)
  | .made _ _ predicate clauses => some (predicate.test host clauses)
  | _ => none

variable {host : Host σ} {test : Function} {body : TestCall → Run σ TestOutcome}

/-- As a function a test answers what its body says of the call that the arguments stand for. -/
theorem answer_of_body (bodied : test.body? host = some body) (arguments : List Value)
    (world : World σ) :
    let said := body (TestCall.ofArguments world.store arguments) world
    test.answer host arguments world = Run.onStore said.1.toValue said.2 := by
  cases test with
  | host | kindName => cases bodied
  | typed code name =>
    obtain rfl := Option.some.inj bodied
    rw [answer]
    rfl
  | made serial name predicate clauses =>
    obtain rfl := Option.some.inj bodied
    rw [answer, Run.bind_apply, Run.store_apply]
    simp only [Predicate.test, Run.bind_apply]
    generalize TestCall.ofArguments world.store arguments = call
    generalize predicate.ask host call.subject call.target world = asked
    obtain ⟨said, after⟩ := asked
    cases said with
    | bool value => cases value <;> rfl
    | _ => rfl

def called (test : Function) (call : TestCall) (world : World σ) : World σ :=
  { world with
    store := (call.toArguments world.store).2
    journal := world.journal.push (.called test (call.toArguments world.store).1) }

/-- A test is run by its body on the same call, and what the body says is handed on. All else that
happens is that the call and what is said of it are laid out. -/
theorem runTest_of_body (bodied : test.body? host = some body) {call : TestCall}
    (defined : call.CollectionsDefined) (world : World σ) :
    let said := body call (test.called call world)
    test.runTest host call world =
      (said.1, { said.2 with store := (said.1.toValue said.2.store).2 }) := by
  have hcall : TestCall.ofArguments (test.called call world).store
      (call.toArguments world.store).1 = call := TestCall.ofArguments_toArguments defined world.store
  have hanswer := answer_of_body bodied (call.toArguments world.store).1 (test.called call world)
  rw [hcall] at hanswer
  let said := body call (test.called call world)
  let laidOut := said.1.toValue said.2.store
  calc
    test.runTest host call world
      = (let answered := test.answer host (call.toArguments world.store).1 (test.called call world)
         (call.outcome answered.2.store answered.1, answered.2)) := rfl
    _ = (call.outcome laidOut.2 laidOut.1, { said.2 with store := laidOut.2 }) := by
      rw [hanswer]
      rfl
    _ = (said.1, { said.2 with store := laidOut.2 }) := by rw [call.outcome_toValue]

end Function

theorem UpToFirst.input_mem {ι α : Type} {input : α → ι} {ends : α → Bool} {inputs : List ι}
    {items : List α} (upTo : UpToFirst input ends inputs items) {item : α} (mem : item ∈ items) :
    input item ∈ inputs := by
  induction upTo with
  | done => simp at mem
  | stop => obtain rfl := List.mem_singleton.1 mem; exact List.mem_cons_self
  | next _ _ ih =>
    rcases List.mem_cons.1 mem with rfl | mem
    · exact List.mem_cons_self
    · exact List.mem_cons_of_mem _ (ih mem)

theorem Store.ne_undefined_of_mem_members {store : Store} {value member : Value}
    (mem : member ∈ store.members value) : value ≠ .undefined := by
  rintro rfl
  simp [members] at mem

/-- A collection that is iterated over has members, so it is not undefined. -/
theorem SimpleRule.collectionsDefined_of_tries {rule : SimpleRule} {caller : Option String}
    {store : Store} {trials : List (Trial σ)}
    (tries : rule.Tries caller (store.members rule.subject) (store.members rule.target) trials) :
    ∀ trial ∈ trials, trial.call.CollectionsDefined := by
  have hdefined {collection member : Value} (mem : member ∈ store.members collection) :
      some collection ≠ some .undefined :=
    fun same ↦ Store.ne_undefined_of_mem_members mem (Option.some.inj same)
  have habsent : (none : Option Value) ≠ some .undefined := by simp
  intro trial mem
  unfold Tries at tries
  split at tries
  · have hcall : trial.call ∈ trials.map Trial.call := List.mem_map_of_mem mem
    rw [tries, List.mem_singleton] at hcall
    rw [hcall]
    exact ⟨habsent, habsent⟩
  · obtain ⟨item, hitem, hcall⟩ := List.mem_map.1 (tries.input_mem mem)
    rw [← hcall]
    exact ⟨hdefined hitem, habsent⟩
  · obtain ⟨candidate, hcandidate, hcall⟩ := List.mem_map.1 (tries.input_mem mem)
    rw [← hcall]
    exact ⟨habsent, hdefined hcandidate⟩
  · obtain ⟨rows, rfl, hrows, hrow⟩ := tries
    obtain ⟨row, hmem, htrial⟩ := List.mem_flatMap.1 mem
    obtain ⟨candidate, hcandidate, hcall⟩ := List.mem_map.1 ((hrow row hmem).input_mem htrial)
    rw [← hcall]
    exact ⟨hdefined (hrows.input_mem hmem), hdefined hcandidate⟩

/-- Called through its six arguments a test does what its body does on the call itself, also after
it was made a value: the body runs once, and its outcome is handed on with the same fragments. Every
call that an evaluation makes is one of which this is true, since its collections are defined. -/
theorem calling_convention (host : Host σ) :
    (∀ test body, test.body? host = some body →
      ∀ returned, (Value.function test).function? = some returned →
      ∀ call : TestCall, call.CollectionsDefined → ∀ world,
        let said := body call (test.called call world)
        returned.runTest host call world =
          (said.1, { said.2 with store := (said.1.toValue said.2.store).2 })) ∧
    ∀ (engine : Engine) (label : Option String) (rule : Value) (world : World σ),
      ∃ visits outcome final,
        Walk host engine.options label [⟨0, rule⟩] world visits outcome final ∧
        engine.check host label rule world = (outcome, Engine.close label outcome final) ∧
        (∀ report, engine.evaluate host label rule report world =
          match engine.check host label rule world with
          | (.ok (), after) => ((.pass, engine), after)
          | (.error failure, after) => engine.deliver host label report failure after) ∧
        ∀ visit ∈ visits, ∀ simple next, visit.finding = .decoded (.simple simple) next →
          ∃ trials tested,
            simple.TriedOut host label (visit.toPending.noticed visit.before (.simple simple))
              trials tested visit.after ∧
            ∀ trial ∈ trials, trial.call.CollectionsDefined := by
  constructor
  · intro test body hbody returned hreturned call hdefined world
    obtain rfl : test = returned := Option.some.inj hreturned
    exact Function.runTest_of_body hbody hdefined world
  · intro engine label rule world
    obtain ⟨visits, outcome, final, hwalk, hcheck⟩ := engine.exists_walk host label rule world
    refine ⟨visits, outcome, final, hwalk, hcheck, fun _ ↦ Engine.evaluate_apply _, ?_⟩
    intro visit mem simple next hfound
    have hvisit := hwalk.visit_eq mem
    rw [hvisit] at hfound
    obtain ⟨trials, tested, -, htried⟩ := Pending.triedOut_visit hfound
    rw [← hvisit] at htried
    exact ⟨trials, tested, htried, SimpleRule.collectionsDefined_of_tries htried.calls⟩

/-- Two tests that fail, one with the fragment `true`, which alone would be a pass, and the other with
nothing to say. The call has an empty label and `null` for one of its collections. -/
theorem calling_convention_complaints :
    let host : Host Unit :=
      { call := fun _ _ ↦ return .undefined
        judge := fun _ _ _ ↦ return .undefined
        test := fun code _ ↦ return .error ⟨if code = 0 then [.bool true] else []⟩
        elapsed := fun _ ↦ 0 }
    let call : TestCall :=
      { caller := some "", names := ⟨"", "of age"⟩, subject := .int 17, target := .undefined
        each := some .null, of := none }
    let world : World Unit := ⟨⟨#[], #[], 0⟩, (), #[]⟩
    call.CollectionsDefined ∧
      ((Function.typed 0 "strict").runTest host call world).1 = .error ⟨[.bool true]⟩ ∧
      ((Function.typed 1 "silent").runTest host call world).1 = .error ⟨[]⟩ := by
  intro host call world
  have hdefined : call.CollectionsDefined := ⟨by simp [call], by simp [call]⟩
  have hstrict := (calling_convention host).1 (.typed 0 "strict") _ rfl (.typed 0 "strict") rfl call
    hdefined world
  have hsilent := (calling_convention host).1 (.typed 1 "silent") _ rfl (.typed 1 "silent") rfl call
    hdefined world
  exact ⟨hdefined, (congrArg Prod.fst hstrict).trans rfl, (congrArg Prod.fst hsilent).trans rfl⟩

end RuleCheck
