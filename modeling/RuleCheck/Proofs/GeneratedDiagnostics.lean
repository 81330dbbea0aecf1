import Mathlib.Data.List.Forall2
import RuleCheck.Proofs.TypedTests
import RuleCheck.Test.Wording

/-!
# Diagnostics of made tests

A made test asks its predicate once and goes by the answer. `true` is a pass. The items of an array
are the fragments of the diagnostic, whatever they are. With any other answer the test fails and
words a diagnostic of its own: a row of parts, some of which are there only under a condition, and
then one fragment for each final clause.

Only in the last case are the final clauses looked at. They are worked off in order, and one that is
computed is called once, with the two values that the predicate was asked about.
-/

namespace RuleCheck

variable {σ : Type}

namespace TestCall

/-- The parts of a generated diagnostic before its final clauses, in order, each with the condition
under which it is there. -/
def parts (call : TestCall) (shouldText : String) : List (Bool × List Value) :=
  [(call.each.isSome, [.text "each of the"]),
    (!call.names.label.isEmpty, [.text call.names.label]),
    (call.caller.isSome, [.text "passed to", .ofText? call.caller]),
    (true, [.text shouldText]),
    (call.of.isSome, [.text "one of", call.of.getD .undefined]),
    (call.of.isNone, [call.target]),
    (!call.names.qualifier.isEmpty, [.text ("(" ++ call.names.qualifier ++ ")")]),
    (call.each.isSome, [.text "but one of", call.each.getD .undefined]),
    (call.each.isNone, [.text "but instead"]),
    (true, [.text "is", call.subject])]

def wording (call : TestCall) (shouldText : String) : List Value :=
  ((call.parts shouldText).filter Prod.fst).flatMap Prod.snd

theorem flatMap_filter_cons (there : Bool) (fragments : List Value)
    (rest : List (Bool × List Value)) :
    (((there, fragments) :: rest).filter Prod.fst).flatMap Prod.snd =
      (if there then fragments else []) ++ (rest.filter Prod.fst).flatMap Prod.snd := by
  cases there <;> rfl

theorem leadingFragments_eq_wording (call : TestCall) (shouldText : String) :
    call.leadingFragments shouldText = call.wording shouldText := by
  obtain ⟨caller, ⟨label, qualifier⟩, subject, target, each, of⟩ := call
  have hlabel : (Names.label? ⟨label, qualifier⟩).toList.map Value.text =
      if !label.isEmpty then [.text label] else [] := by
    rw [Names.label?]
    cases label.isEmpty <;> rfl
  have hqualifier : (Names.qualifierText? ⟨label, qualifier⟩).toList.map Value.text =
      if !qualifier.isEmpty then [.text ("(" ++ qualifier ++ ")")] else [] := by
    rw [Names.qualifierText?]
    cases qualifier.isEmpty <;> rfl
  rw [leadingFragments, hlabel, hqualifier, wording, parts]
  simp only [flatMap_filter_cons, List.append_assoc]
  -- What is left of the conditions is whether the caller and the collections are there.
  cases each <;> cases of <;> cases caller <;> rfl

end TestCall

def FinalClause.function? : FinalClause → Option Function
  | .text _ => none
  | .computed function => some function

/-- What final clauses add to a diagnostic, between two worlds. A text adds itself; a function is
called in the world that the clauses before it left, and adds what it answers. -/
inductive FinalClause.Add (host : Host σ) (subject target : Value) :
    List FinalClause → World σ → List Value → World σ → Prop
  | done (world : World σ) : Add host subject target [] world [] world
  | text {clauses : List FinalClause} {world final : World σ} {fragments : List Value}
      (content : String) (rest : Add host subject target clauses world fragments final) :
      Add host subject target (.text content :: clauses) world (.text content :: fragments) final
  | computed {clauses : List FinalClause} {world final : World σ} {fragments : List Value}
      (function : Function)
      (rest : Add host subject target clauses (function.apply host [subject, target] world).2
        fragments final) :
      Add host subject target (.computed function :: clauses) world
        ((function.apply host [subject, target] world).1 :: fragments) final

namespace FinalClause.Add

variable {host : Host σ} {subject target : Value} {first second clauses : List FinalClause}
  {world middle final : World σ} {fragments more : List Value}

theorem append (left : Add host subject target first world fragments middle)
    (right : Add host subject target second middle more final) :
    Add host subject target (first ++ second) world (fragments ++ more) final := by
  induction left with
  | done => exact right
  | text content _ ih => exact .text content (ih right)
  | computed function _ ih => exact .computed function (ih right)

/-- Each function is called once and with the two values, in the order of the clauses; all else that
is recorded is what these functions do by themselves. -/
theorem exists_calls (adds : Add host subject target clauses world fragments final) :
    ∃ calls : List (List Event),
      final.journal.toList = world.journal.toList ++ calls.flatten ∧
      List.Forall₂ (fun function events ↦ ∃ inner,
        events = .called function [subject, target] :: inner ∧
          ∀ event ∈ inner, event.isInner = true) (clauses.filterMap function?) calls := by
  induction adds with
  | done => exact ⟨[], by simp, .nil⟩
  | text content _ ih => exact ih
  | @computed clauses world final fragments function _ ih =>
    obtain ⟨calls, hjournal, hcalls⟩ := ih
    obtain ⟨inner, happend, hinner⟩ := function.apply_journal host [subject, target] world
    refine ⟨(.called function [subject, target] :: inner) :: calls, ?_, ?_⟩
    · rw [hjournal, happend, List.flatten_cons, List.append_assoc]
    · exact .cons ⟨inner, rfl, hinner⟩ hcalls

end FinalClause.Add

/-- Clauses add their final clauses in order, though they hold them from the last one inwards. -/
theorem Clauses.add_finals (host : Host σ) (subject target : Value) : (clauses : Clauses) →
    (world : World σ) → FinalClause.Add host subject target clauses.finals world
      (clauses.finalFragments host subject target world).1
      (clauses.finalFragments host subject target world).2
  | .should text, world => by
      rw [finalFragments]
      exact .done world
  | .thenText clauses content, world => by
      rw [finalFragments]
      exact (clauses.add_finals host subject target world).append (.text content (.done _))
  | .thenComputed clauses function, world => by
      rw [finalFragments]
      exact (clauses.add_finals host subject target world).append (.computed function (.done _))

/-- How a test comes out of a call by what its predicate answered. The items of an array are the
fragments, and nothing is computed; any other answer but `true` is a failure that the test words
itself. -/
structure Function.ComesOut (host : Host σ) (clauses : Clauses) (call : TestCall)
    (asked : Value × World σ) (result : TestOutcome × World σ) : Prop where
  passes_iff : result.1 = .ok () ↔ asked.1 = .bool true
  idle : asked.1 = .bool true → result.2.journal = asked.2.journal
  custom : ∀ ref, asked.1 = .array ref →
    result.1 = .error ⟨asked.2.store.items ref⟩ ∧ result.2.journal = asked.2.journal
  generated : asked.1 ≠ .bool true → (∀ ref, asked.1 ≠ .array ref) → ∃ finals after calls,
    FinalClause.Add host call.subject call.target clauses.finals asked.2 finals after ∧
    result.1 = .error ⟨call.wording clauses.shouldText ++ finals⟩ ∧
    result.2.journal.toList = asked.2.journal.toList ++ calls.flatten ∧
    List.Forall₂ (fun function events ↦ ∃ inner,
      events = .called function [call.subject, call.target] :: inner ∧
        ∀ event ∈ inner, event.isInner = true)
      (clauses.finals.filterMap FinalClause.function?) calls

namespace Function

/-- The predicate of a test is asked once, right after the test was called. -/
theorem journal_asked (host : Host σ) (test : Function) (predicate : Predicate) (call : TestCall)
    (world : World σ) :
    (predicate.ask host call.subject call.target (test.called call world)).2.journal.toList =
      world.journal.toList ++ [.called test (call.toArguments world.store).1,
        .judged predicate call.subject call.target] := by
  obtain ⟨added, happend, hadded⟩ := predicate.answer_addsOnly host call.subject call.target
    (fun _ ↦ False)
    (Run.record (.judged predicate call.subject call.target) (test.called call world)).2
  obtain rfl : added = [] := List.eq_nil_iff_forall_not_mem.2 hadded
  rw [Predicate.ask, Run.bind_apply, happend]
  simp [Run.record_apply, called]

/-- A made test comes out by the answer of its predicate. -/
theorem comesOut_of_made (host : Host σ) (serial : Option Nat) (name : String)
    (predicate : Predicate) (clauses : Clauses) {call : TestCall}
    (defined : call.CollectionsDefined) (world : World σ) :
    let test := made serial name predicate clauses
    ComesOut host clauses call
      (predicate.ask host call.subject call.target (test.called call world))
      (test.runTest host call world) := by
  intro test
  have hbody : test.body? host = some (predicate.test host clauses) := rfl
  rw [runTest_of_body hbody defined world]
  simp only [Predicate.test, Run.bind_apply]
  generalize predicate.ask host call.subject call.target (test.called call world) = asked
  obtain ⟨said, after⟩ := asked
  let finals := clauses.finalFragments host call.subject call.target after
  have hadds : FinalClause.Add host call.subject call.target clauses.finals after finals.1
      finals.2 :=
    clauses.add_finals host call.subject call.target after
  obtain ⟨calls, hjournal, hcalls⟩ := hadds.exists_calls
  have hworded {store : Store} (rejected : said ≠ .bool true) (other : ∀ ref, said ≠ .array ref) :
      ComesOut host clauses call (said, after)
        (.error ⟨call.leadingFragments clauses.shouldText ++ finals.1⟩,
          { finals.2 with store := store }) := by
    rw [call.leadingFragments_eq_wording]
    exact ⟨iff_of_false nofun rejected, fun accepted ↦ absurd accepted rejected,
      fun ref array ↦ absurd array (other ref),
      fun _ _ ↦ ⟨finals.1, finals.2, calls, hadds, rfl, hjournal, hcalls⟩⟩
  cases said with
  | bool value =>
    cases value with
    | true => exact ⟨iff_of_true rfl rfl, fun _ ↦ rfl, nofun, fun rejected ↦ absurd rfl rejected⟩
    | false => exact hworded nofun nofun
  | array ref =>
    refine ⟨iff_of_false nofun nofun, nofun, ?_, fun _ other ↦ absurd rfl (other ref)⟩
    intro ref' same
    obtain rfl := Value.array.inj same
    exact ⟨rfl, rfl⟩
  | _ => exact hworded nofun nofun

end Function

/-- A test that was made at run time asks its predicate once, passes exactly if the answer is
`true`, and otherwise fails with the items of an array that was answered, or with a diagnostic of
its own: the parts that are there and what the final clauses add. -/
theorem made_test_outcome (host : Host σ) (name : String) (predicate : Predicate)
    (clauses : Clauses) (store : Store) {call : TestCall} (defined : call.CollectionsDefined)
    (world : World σ) :
    let test := (Function.make name predicate clauses store).1
    let asked := predicate.ask host call.subject call.target (test.called call world)
    asked.2.journal.toList = world.journal.toList ++
        [.called test (call.toArguments world.store).1,
          .judged predicate call.subject call.target] ∧
      Function.ComesOut host clauses call asked (test.runTest host call world) := by
  intro test asked
  exact ⟨test.journal_asked host predicate call world,
    Function.comesOut_of_made host (some store.testsMade) name predicate clauses defined world⟩

/-- A call in which all parts are there that can be there together, and clauses of both sorts. The
predicate answers an argument list, which is no diagnostic although it has items. -/
theorem made_test_outcome_all_parts :
    let host : Host Unit :=
      { call := fun _ arguments ↦ return .text ((arguments.headD .null).text?.getD "" ++ "!")
        judge := fun _ _ _ ↦ return .arguments ⟨0⟩
        test := fun _ _ ↦ return .ok ()
        elapsed := fun _ ↦ 0 }
    let clauses : Clauses :=
      ((Clauses.should "should be equal to").thenText "with note").thenComputed (.host 0 none)
    let call : TestCall :=
      { caller := some "createUser", names := ⟨"role", "account role"⟩, subject := .text "guest"
        target := .text "admin", each := some (.array ⟨0⟩), of := some (.array ⟨1⟩) }
    let world : World Unit :=
      ⟨⟨#[[.text "guest"], [.text "admin", .text "editor"]], #[], 0⟩, (), #[]⟩
    call.CollectionsDefined ∧
      (((Function.make "same" (.host 0) clauses world.store).1.runTest host call) world).1 =
        .error ⟨[.text "each of the", .text "role", .text "passed to", .text "createUser",
          .text "should be equal to", .text "one of", .array ⟨1⟩, .text "(account role)",
          .text "but one of", .array ⟨0⟩, .text "is", .text "guest", .text "with note",
          .text "guest!"]⟩ := by
  intro host clauses call world
  have hdefined : call.CollectionsDefined := ⟨by simp [call], by simp [call]⟩
  obtain ⟨-, houtcome⟩ :=
    made_test_outcome host "same" (.host 0) clauses world.store hdefined world
  obtain ⟨finals, after, calls, hadds, hresult, -⟩ := houtcome.generated nofun nofun
  refine ⟨hdefined, hresult.trans ?_⟩
  cases hadds with
  | text _ hadds =>
    cases hadds with
    | computed _ hadds =>
      cases hadds
      rfl

end RuleCheck
