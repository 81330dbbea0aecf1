import RuleCheck.Proofs.Correspondence

/-!
# Computations in step

Two computations run in tandem, each in a world of its own. They are in step if from any two worlds
whose stores correspond they come to two such worlds, with more that corresponds than before, and
make corresponding calls on the way: of functions that are rules, and of predicates. All else that
they record may differ, and so may the cells that they add.

Computations in step follow one upon another, and new arrays with corresponding items are made in
step.
-/

namespace RuleCheck

variable {σ α β : Type}

/-- A call that shows how a rule is decided. -/
inductive RuleCall where
  | function (function : Function)
  | predicate (predicate : Predicate) (subject target : Value)

def Event.ruleCall? : Event → Option RuleCall
  | .called function [] => some (.function function)
  | .judged predicate subject target => some (.predicate predicate subject target)
  | _ => none

inductive RuleCall.Same (same : Correspondence) : RuleCall → RuleCall → Prop
  | function (function : Function) : Same same (.function function) (.function function)
  | predicate (predicate : Predicate) {subject subject' target target' : Value}
      (subjects : same subject subject') (targets : same target target') :
      Same same (.predicate predicate subject target) (.predicate predicate subject' target')

/-- Of some events and some others, those that are calls correspond in order. -/
def SameCalls (same : Correspondence) (events events' : List Event) : Prop :=
  List.Forall₂ (RuleCall.Same same) (events.filterMap Event.ruleCall?)
    (events'.filterMap Event.ruleCall?)

namespace SameCalls

variable {same wider : Correspondence} {events events' more more' : List Event}

theorem mono (calls : SameCalls same events events') (within : same.Within wider) :
    SameCalls wider events events' := by
  refine List.Forall₂.imp (fun call call' hcall ↦ ?_) calls
  cases hcall with
  | function => exact .function _
  | predicate _ subjects targets =>
    exact .predicate _ (within _ _ subjects) (within _ _ targets)

theorem append (calls : SameCalls same events events') (calls' : SameCalls same more more') :
    SameCalls same (events ++ more) (events' ++ more') := by
  rw [SameCalls, List.filterMap_append, List.filterMap_append]
  exact List.rel_append calls calls'

end SameCalls

/-- Two worlds, and what becomes of each. -/
structure Tandem (base : Store) (same wider : Correspondence)
    (world after world' after' : World σ) : Prop where
  within : same.Within wider
  corresponds : Corresponds base after.store after'.store wider
  calls : ∃ added added' : List Event,
    after.journal.toList = world.journal.toList ++ added ∧
    after'.journal.toList = world'.journal.toList ++ added' ∧ SameCalls wider added added'

namespace Tandem

variable {base : Store} {same wider widest : Correspondence}
  {world middle after world' middle' after' : World σ}

/-- Nothing corresponds for the first time, and nothing is recorded. -/
theorem of_journal_eq (corresponds : Corresponds base after.store after'.store same)
    (journal : after.journal = world.journal) (journal' : after'.journal = world'.journal) :
    Tandem base same same world after world' after' where
  within := .refl same
  corresponds := corresponds
  calls := ⟨[], [], by rw [journal, List.append_nil], by rw [journal', List.append_nil], .nil⟩

theorem record (corresponds : Corresponds base world.store world'.store same) {event event' : Event}
    (calls : SameCalls same [event] [event']) :
    Tandem base same same world (Run.record event world).2 world' (Run.record event' world').2 where
  within := .refl same
  corresponds := corresponds
  calls := ⟨[event], [event'], Array.toList_push, Array.toList_push, calls⟩

theorem trans (first : Tandem base same wider world middle world' middle')
    (second : Tandem base wider widest middle after middle' after') :
    Tandem base same widest world after world' after' where
  within := first.within.trans second.within
  corresponds := second.corresponds
  calls := by
    obtain ⟨added, added', hadded, hadded', hcalls⟩ := first.calls
    obtain ⟨more, more', hmore, hmore', hcalls'⟩ := second.calls
    refine ⟨added ++ more, added' ++ more', ?_, ?_, (hcalls.mono second.within).append hcalls'⟩
    · rw [hmore, hadded, List.append_assoc]
    · rw [hmore', hadded', List.append_assoc]

end Tandem

/-- Two computations are in step, and their results agree. -/
def InStep (base : Store) (same : Correspondence) (run run' : Run σ α)
    (agree : Correspondence → α → α → Prop) : Prop :=
  ∀ world world', Corresponds base world.store world'.store same →
    ∃ wider, Tandem base same wider world (run world).2 world' (run' world').2 ∧
      agree wider (run world).1 (run' world').1

def Correspondence.Agree (same : Correspondence) (value value' : Value) : Prop :=
  same value value'

def Correspondence.AgreeAll (same : Correspondence) (values values' : List Value) : Prop :=
  List.Forall₂ same values values'

namespace InStep

variable {base : Store} {same : Correspondence} {run run' : Run σ α}
  {agree weaker : Correspondence → α → α → Prop} {agreeNext : Correspondence → β → β → Prop}

/-- What is known of stores that correspond may be used. -/
theorem intro
    (inStep : ∀ store other, Corresponds base store other same → InStep base same run run' agree) :
    InStep base same run run' agree :=
  fun world world' corresponds ↦
    inStep world.store world'.store corresponds world world' corresponds

theorem mono (inStep : InStep base same run run' agree)
    (weaken : ∀ wider result result', same.Within wider → agree wider result result' →
      weaker wider result result') : InStep base same run run' weaker := by
  intro world world' corresponds
  obtain ⟨wider, htandem, hagree⟩ := inStep world world' corresponds
  exact ⟨wider, htandem, weaken wider _ _ htandem.within hagree⟩

theorem pure {result result' : α} (agrees : agree same result result') :
    InStep base same (Pure.pure result : Run σ α) (Pure.pure result') agree :=
  fun _ _ corresponds ↦ ⟨same, .of_journal_eq corresponds rfl rfl, agrees⟩

theorem bind {next next' : α → Run σ β} (first : InStep base same run run' agree)
    (second : ∀ wider result result', same.Within wider → agree wider result result' →
      InStep base wider (next result) (next' result') agreeNext) :
    InStep base same (run >>= next) (run' >>= next') agreeNext := by
  intro world world' corresponds
  obtain ⟨wider, htandem, hagree⟩ := first world world' corresponds
  obtain ⟨widest, htandem', hagree'⟩ :=
    second wider _ _ htandem.within hagree _ _ htandem.corresponds
  exact ⟨widest, htandem.trans htandem', hagree'⟩

theorem store : InStep base same (Run.store : Run σ Store) Run.store
    fun wider store other ↦ Corresponds base store other wider :=
  fun _ _ corresponds ↦ ⟨same, .of_journal_eq corresponds rfl rfl, corresponds⟩

theorem record {event event' : Event} (calls : SameCalls same [event] [event']) :
    InStep base same (Run.record event : Run σ Unit) (Run.record event') fun _ _ _ ↦ True :=
  fun _ _ corresponds ↦ ⟨same, .record corresponds calls, trivial⟩

/-- Computations that add cells to their stores, whatever these are. -/
theorem onStore {action action' : StateM Store α} (grows : ∀ store, store ≤ (action store).2)
    (grows' : ∀ store, store ≤ (action' store).2) :
    InStep base same (Run.onStore action : Run σ α) (Run.onStore action') fun _ result result' ↦
      (∃ store, result = (action store).1) ∧ ∃ store, result' = (action' store).1 := by
  intro world world' corresponds
  exact ⟨same, .of_journal_eq (corresponds.of_le (grows _) (grows' _)) rfl rfl,
    ⟨world.store, rfl⟩, world'.store, rfl⟩

/-- Only what the computations do with stores that correspond matters. -/
theorem onStore_of_eq {action action' : StateM Store α}
    (eq : ∀ store other, Corresponds base store other same → ∃ simpler simpler' : StateM Store α,
      action store = simpler store ∧ action' other = simpler' other ∧
        InStep base same (Run.onStore simpler : Run σ α) (Run.onStore simpler') agree) :
    InStep base same (Run.onStore action : Run σ α) (Run.onStore action') agree := by
  intro world world' corresponds
  obtain ⟨simpler, simpler', heq, heq', inStep⟩ := eq world.store world'.store corresponds
  have hworld : (Run.onStore action : Run σ α) world = Run.onStore simpler world := by
    rw [Run.onStore, Run.onStore, heq]
  have hworld' : (Run.onStore action' : Run σ α) world' = Run.onStore simpler' world' := by
    rw [Run.onStore, Run.onStore, heq']
  rw [hworld, hworld']
  exact inStep world world' corresponds

/-- New arrays are made in step. -/
theorem newArray {items items' : List Value} (agrees : same.AgreeAll items items') :
    InStep base same (Run.onStore (Value.newArray items) : Run σ Value)
      (Run.onStore (Value.newArray items')) Correspondence.Agree := by
  intro world world' corresponds
  refine ⟨_, ⟨.adding same _ _, corresponds.newArray agrees, [], [], ?_, ?_, .nil⟩, .inr ⟨rfl, rfl⟩⟩
  · exact (List.append_nil _).symm
  · exact (List.append_nil _).symm

end InStep

end RuleCheck
