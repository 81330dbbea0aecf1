import RuleCheck.Proofs.PureTests
import RuleCheck.Proofs.Tandem

/-!
# Functions that depend only on their arguments

A function of the host is uniform if it changes nothing that was there at the beginning, and for
corresponding arguments gives corresponding results, in whatever state the host is. So it may make
new values, but it sees of its arguments only what corresponding values have in common. Predicates
and typed tests are uniform in the same sense, and made tests if they are made of nothing else.

Calls of uniform functions are in step. A made test that is uniform is called in step even where
only the values that it compares correspond: then at least it passes in both calls or fails in both.
-/

namespace RuleCheck

variable {σ α : Type}

def HostInStep (base : Store) (same : Correspondence) (action action' : StateM (Store × σ) α)
    (agree : Correspondence → α → α → Prop) : Prop :=
  ∀ store other state state', Corresponds base store other same →
    ∃ wider, same.Within wider ∧
      Corresponds base (action (store, state)).2.1 (action' (other, state')).2.1 wider ∧
      agree wider (action (store, state)).1 (action' (other, state')).1

theorem InStep.onHost {base : Store} {same : Correspondence}
    {action action' : StateM (Store × σ) α} {agree : Correspondence → α → α → Prop}
    (inStep : HostInStep base same action action' agree) :
    InStep base same (Run.onHost action) (Run.onHost action') agree := by
  intro world world' corresponds
  obtain ⟨wider, hwithin, hcorresponds, hagree⟩ :=
    inStep world.store world'.store world.host world'.host corresponds
  refine ⟨wider, ⟨hwithin, hcorresponds, [], [], ?_, ?_, .nil⟩, hagree⟩
  · exact (List.append_nil _).symm
  · exact (List.append_nil _).symm

structure TestCall.Same (same : Correspondence) (call call' : TestCall) : Prop where
  caller : call.caller = call'.caller
  names : call.names = call'.names
  subject : same call.subject call'.subject
  target : same call.target call'.target
  each : Option.Rel same call.each call'.each
  of : Option.Rel same call.of call'.of

/-- Outcomes agree if both pass, or both fail with corresponding fragments. -/
inductive TestOutcome.Same (same : Correspondence) : TestOutcome → TestOutcome → Prop
  | ok : Same same (.ok ()) (.ok ())
  | error {diagnostic diagnostic' : Diagnostic}
      (fragments : same.AgreeAll diagnostic.fragments diagnostic'.fragments) :
      Same same (.error diagnostic) (.error diagnostic')

/-- The predicate changes nothing and depends only on the two values. -/
def Predicate.IsUniform (host : Host σ) (base : Store) : Predicate → Prop
  | .host code => ∀ same subject subject' target target', same subject subject' →
      same target target' → HostInStep base same (host.judge code subject target)
        (host.judge code subject' target') Correspondence.Agree
  | _ => True

mutual

/-- The function changes nothing and depends only on its arguments. -/
def Function.IsUniform (host : Host σ) (base : Store) : Function → Prop
  | .host code _ => ∀ same arguments arguments',
      Correspondence.AgreeAll same arguments arguments' →
      HostInStep base same (host.call code arguments) (host.call code arguments')
        Correspondence.Agree
  | .typed code _ => ∀ same call call', TestCall.Same same call call' →
      HostInStep base same (host.test code call) (host.test code call') TestOutcome.Same
  | .made _ _ predicate clauses => predicate.IsUniform host base ∧ clauses.IsUniform host base
  | .kindName => True

def Clauses.IsUniform (host : Host σ) (base : Store) : Clauses → Prop
  | .should _ => True
  | .thenText clauses _ => clauses.IsUniform host base
  | .thenComputed clauses function => clauses.IsUniform host base ∧ function.IsUniform host base

end

def Function.IsMade (function : Function) : Prop :=
  ∃ serial name predicate clauses, function = .made serial name predicate clauses

/-- The test of a rule without one is made, and uniform. -/
theorem Function.isUniform_kindTest (host : Host σ) (base : Store) :
    kindTest.IsMade ∧ kindTest.IsUniform host base :=
  ⟨⟨_, _, _, _, rfl⟩, ⟨trivial, ⟨trivial, trivial⟩⟩⟩

namespace Fields

variable {same : Correspondence} {fields fields' : Fields Value} {subject subject' : Value}

theorem unknownBound_eq
    (entries : List.Forall₂ (fun entry entry' ↦ entry.1 = entry'.1 ∧ same entry.2 entry'.2)
      fields.entries fields'.entries) : fields.unknownBound? = fields'.unknownBound? := by
  have hkeys : fields.keys = fields'.keys := by
    rw [keys, keys, ← List.forall₂_eq_eq_eq, List.forall₂_map_left_iff, List.forall₂_map_right_iff]
    exact entries.imp fun _ _ ↦ And.left
  rw [unknownBound?, unknownBound?, hkeys]

theorem boundsHold_eq
    (entries : List.Forall₂ (fun entry entry' ↦ entry.1 = entry'.1 ∧ same entry.2 entry'.2)
      fields.entries fields'.entries)
    (compares : ∀ limit limit', same limit limit' →
      subject.compare? limit = subject'.compare? limit') :
    fields.boundsHold subject = fields'.boundsHold subject' := by
  rw [boundsHold, boundsHold]
  generalize fields.entries = left, fields'.entries = right at entries
  induction entries with
  | nil => rfl
  | @cons entry entry' _ _ hentry _ ih =>
    obtain ⟨hkey, hlimit⟩ := hentry
    have hholds (bound : Bound) : bound.holds subject entry.2 = bound.holds subject' entry'.2 := by
      rw [Bound.holds, Bound.holds, compares _ _ hlimit]
    simp only [List.all_cons, ih, hkey, hholds]

end Fields

namespace Predicate

variable {base : Store} {same : Correspondence} {subject subject' target target' : Value}

/-- A complaint about a value quotes it with its kind. -/
theorem complaint_inStep (text : String) {value value' : Value} (hvalue : same value value') :
    InStep base same
      (Run.onStore (Value.newArray
        [.text text, value, .text "with type", .ofKind value.kind]) : Run σ Value)
      (Run.onStore (Value.newArray
        [.text text, value', .text "with type", .ofKind value'.kind])) Correspondence.Agree := by
  refine .intro fun store other corresponds ↦ ?_
  rw [(corresponds.sameTop hvalue).kind_eq]
  exact .newArray (.cons (corresponds.leaf rfl) (.cons hvalue
    (.cons (corresponds.leaf rfl) (.cons (corresponds.leaf rfl) .nil))))

theorem askPattern_inStep (hsubject : same subject subject') (htarget : same target target') :
    InStep base same (Run.onStore (askPattern subject target) : Run σ Value)
      (Run.onStore (askPattern subject' target')) Correspondence.Agree := by
  refine .intro fun store other corresponds ↦ ?_
  cases corresponds.sameTop hsubject with
  | array | arguments | object => exact complaint_inStep _ hsubject
  | leaf =>
    cases subject with
    | text content =>
      cases corresponds.sameTop htarget with
      | array | arguments | object => exact complaint_inStep _ htarget
      | leaf =>
        cases target with
        | regex pattern =>
          have hanswer : same (.bool (pattern.isMatch content)) (.bool (pattern.isMatch content)) :=
            corresponds.leaf rfl
          exact .pure hanswer
        | _ => exact complaint_inStep _ htarget
    | _ => exact complaint_inStep _ hsubject

/-- A complaint that first lists what would have been valid. -/
theorem listing_inStep {items items' : List Value} {complaint complaint' : Value → List Value}
    (hitems : same.AgreeAll items items')
    (hcomplaint : ∀ wider keys keys', same.Within wider → wider keys keys' →
      wider.AgreeAll (complaint keys) (complaint' keys')) :
    InStep base same
      (Run.onStore (do
        let keys ← Value.newArray items
        Value.newArray (complaint keys)) : Run σ Value)
      (Run.onStore (do
        let keys ← Value.newArray items'
        Value.newArray (complaint' keys))) Correspondence.Agree :=
  .bind (.newArray hitems) fun wider keys keys' hwithin hkeys ↦
    .newArray (hcomplaint wider keys keys' hwithin hkeys)

/-- A range that is no object is complained about. -/
theorem askRange_other_inStep (htarget : same target target') :
    InStep base same
      (Run.onStore (do
        let keys ← Value.newArray (Bound.keys.map .text)
        Value.newArray [.text "range test expects an object with keys among", keys,
          .text "but instead received", target, .text "with type", .ofKind target.kind]) :
        Run σ Value)
      (Run.onStore (do
        let keys ← Value.newArray (Bound.keys.map .text)
        Value.newArray [.text "range test expects an object with keys among", keys,
          .text "but instead received", target', .text "with type", .ofKind target'.kind]))
      Correspondence.Agree := by
  refine .intro fun store other corresponds ↦ ?_
  have hleaf {value : Value} (simple : value.isComposite = false) : same value value :=
    corresponds.leaf simple
  refine listing_inStep (corresponds.texts Bound.keys) fun wider keys keys' hwithin hkeys ↦ ?_
  rw [(corresponds.sameTop htarget).kind_eq]
  exact .cons (hwithin _ _ (hleaf rfl)) (.cons hkeys (.cons (hwithin _ _ (hleaf rfl))
    (.cons (hwithin _ _ htarget) (.cons (hwithin _ _ (hleaf rfl))
      (.cons (hwithin _ _ (hleaf rfl)) .nil)))))

/-- An unknown bound is complained about. -/
theorem askRange_unknown_inStep (key : String) :
    InStep base same
      (Run.onStore (do
        let keys ← Value.newArray (Bound.keys.map .text)
        Value.newArray [.text "range test received an invalid key", .text key,
          .text "; valid keys are", keys]) : Run σ Value)
      (Run.onStore (do
        let keys ← Value.newArray (Bound.keys.map .text)
        Value.newArray [.text "range test received an invalid key", .text key,
          .text "; valid keys are", keys]))
      Correspondence.Agree := by
  refine .intro fun store other corresponds ↦ ?_
  have hleaf {value : Value} (simple : value.isComposite = false) : same value value :=
    corresponds.leaf simple
  refine listing_inStep (corresponds.texts Bound.keys) fun wider keys keys' hwithin hkeys ↦ ?_
  exact .cons (hwithin _ _ (hleaf rfl)) (.cons (hwithin _ _ (hleaf rfl))
    (.cons (hwithin _ _ (hleaf rfl)) (.cons hkeys .nil)))

theorem askRange_inStep (hsubject : same subject subject') (htarget : same target target') :
    InStep base same (Run.onStore (askRange subject target) : Run σ Value)
      (Run.onStore (askRange subject' target')) Correspondence.Agree := by
  refine .intro fun store other corresponds ↦ ?_
  cases corresponds.sameTop htarget with
  | array | arguments => exact askRange_other_inStep htarget
  | leaf simple =>
    cases target with
    | object => cases simple
    | _ => exact askRange_other_inStep htarget
  | object ref ref' =>
    refine .onStore_of_eq fun store other corresponds ↦ ?_
    have hentries := corresponds.entries htarget
    have hbounds := Fields.boundsHold_eq hentries fun limit limit' hlimit ↦
      (corresponds.sameTop hsubject).compare_eq (corresponds.sameTop hlimit)
    rw [askRange_object, askRange_object, ← Fields.unknownBound_eq hentries, ← hbounds]
    refine ⟨_, _, rfl, rfl, ?_⟩
    cases (store.fields ref).unknownBound? with
    | some key => exact askRange_unknown_inStep key
    | none =>
      have hanswer : same (.bool ((store.fields ref).boundsHold subject))
        (.bool ((store.fields ref).boundsHold subject)) := corresponds.leaf rfl
      exact .pure hanswer

/-- A uniform predicate, or one of the library's own, answers in step. -/
theorem answer_inStep {host : Host σ} {predicate : Predicate}
    (uniform : predicate.IsUniform host base) (hsubject : same subject subject')
    (htarget : same target target') :
    InStep base same (predicate.answer host subject target) (predicate.answer host subject' target')
      Correspondence.Agree := by
  refine .intro fun store other corresponds ↦ ?_
  have hbool (corresponds : Corresponds base store other same) (value : Bool) :
      same (.bool value) (.bool value) := corresponds.leaf rfl
  cases predicate with
  | kind =>
    rw [answer, answer, (corresponds.sameTop hsubject).kind_eq,
      (corresponds.sameTop htarget).text_eq]
    exact .pure (hbool corresponds _)
  | equal =>
    refine .bind .store fun wider store other hwithin corresponds ↦ ?_
    have hequal := corresponds.equal_eq (hwithin _ _ hsubject) (hwithin _ _ htarget)
    rw [hequal]
    exact .pure (corresponds.leaf rfl)
  | notEqual =>
    refine .bind .store fun wider store other hwithin corresponds ↦ ?_
    have hequal := corresponds.equal_eq (hwithin _ _ hsubject) (hwithin _ _ htarget)
    rw [hequal]
    exact .pure (corresponds.leaf rfl)
  | range => exact askRange_inStep hsubject htarget
  | pattern => exact askPattern_inStep hsubject htarget
  | host code => exact .onHost (uniform same _ _ _ _ hsubject htarget)

theorem ask_inStep {host : Host σ} {predicate : Predicate}
    (uniform : predicate.IsUniform host base) (hsubject : same subject subject')
    (htarget : same target target') :
    InStep base same (predicate.ask host subject target) (predicate.ask host subject' target')
      Correspondence.Agree :=
  .bind (.record (.cons (.predicate predicate hsubject htarget) .nil)) fun _ _ _ hwithin _ ↦
    answer_inStep uniform (hwithin _ _ hsubject) (hwithin _ _ htarget)

end Predicate

namespace TestCall

variable {base store other : Store} {same wider : Correspondence} {call call' : TestCall}
  {arguments arguments' : List Value}

theorem Same.mono (hcall : Same same call call') (within : same.Within wider) :
    Same wider call call' where
  caller := hcall.caller
  names := hcall.names
  subject := within _ _ hcall.subject
  target := within _ _ hcall.target
  each := Store.rel_mono hcall.each fun _ _ _ _ ↦ within _ _
  of := Store.rel_mono hcall.of fun _ _ _ _ ↦ within _ _

/-- Arguments in the same place correspond, also where there are none. -/
theorem same_argument (corresponds : Corresponds base store other same)
    (agree : same.AgreeAll arguments arguments') (position : Nat) :
    same (arguments[position]?.getD .undefined) (arguments'[position]?.getD .undefined) := by
  have hargument := Corresponds.rel_getElem agree position
  generalize arguments[position]? = argument at hargument ⊢
  generalize arguments'[position]? = argument' at hargument ⊢
  cases hargument with
  | none => exact corresponds.leaf rfl
  | some hargument => exact hargument

theorem rel_defined (corresponds : Corresponds base store other same) {value value' : Value}
    (hvalue : same value value') : Option.Rel same (defined? value) (defined? value') := by
  cases corresponds.sameTop hvalue with
  | array | arguments | object => exact .some hvalue
  | leaf =>
    cases value with
    | undefined => exact .none
    | _ => exact .some hvalue

/-- Corresponding arguments stand for corresponding calls. -/
theorem same_ofArguments (corresponds : Corresponds base store other same)
    (agree : same.AgreeAll arguments arguments') :
    Same same (ofArguments store arguments) (ofArguments other arguments') where
  caller := (corresponds.sameTop (same_argument corresponds agree 0)).text_eq
  names := congrArg (·.getD {}) (corresponds.names_eq (same_argument corresponds agree 1))
  subject := same_argument corresponds agree 2
  target := same_argument corresponds agree 3
  each := rel_defined corresponds (same_argument corresponds agree 4)
  of := rel_defined corresponds (same_argument corresponds agree 5)

/-- Corresponding calls are worded by corresponding fragments. -/
theorem same_leadingFragments (corresponds : Corresponds base store other same)
    (hcall : Same same call call') (text : String) :
    same.AgreeAll (call.leadingFragments text) (call'.leadingFragments text) := by
  obtain ⟨caller, names, subject, target, each, of⟩ := call
  obtain ⟨caller', names', subject', target', each', of'⟩ := call'
  obtain ⟨rfl, rfl, hsubject, htarget, heach, hof⟩ := hcall
  have htext (content : String) : same (.text content) (.text content) := corresponds.leaf rfl
  refine List.rel_append (List.rel_append (List.rel_append (List.rel_append (List.rel_append
    (List.rel_append (List.rel_append ?_ (corresponds.texts _)) ?_) ?_) ?_) (corresponds.texts _))
    ?_) ?_
  · cases heach with
    | none => exact .nil
    | some => exact .cons (htext _) .nil
  · cases caller with
    | none => exact .nil
    | some => exact .cons (htext _) (.cons (htext _) .nil)
  · exact .cons (htext text) .nil
  · cases hof with
    | none => exact .cons htarget .nil
    | some hcandidates => exact .cons (htext _) (.cons hcandidates .nil)
  · cases heach with
    | none => exact .cons (htext _) .nil
    | some hcollection => exact .cons (htext _) (.cons hcollection .nil)
  · exact .cons (htext _) (.cons hsubject .nil)

end TestCall

theorem TestOutcome.toValue_inStep {base : Store} {same : Correspondence}
    {outcome outcome' : TestOutcome} (agrees : Same same outcome outcome') :
    InStep base same (Run.onStore outcome.toValue : Run σ Value) (Run.onStore outcome'.toValue)
      Correspondence.Agree := by
  cases agrees with
  | ok => exact .intro fun _ _ corresponds ↦ .pure (corresponds.leaf rfl)
  | error fragments => exact .newArray fragments

/-! ## Functions in step -/

section Functions

variable {base : Store}

/-- The final clauses are computed in step for any two values and those that they correspond to. -/
def Clauses.ComputeInStep (host : Host σ) (base : Store) (clauses : Clauses) : Prop :=
  ∀ same subject subject' target target', same subject subject' → same target target' →
    InStep base same (clauses.finalFragments host subject target)
      (clauses.finalFragments host subject' target') Correspondence.AgreeAll

/-- A made test asks its predicate in step as soon as the compared values correspond. What it then
answers agrees if this is so of `true`, of new arrays of what the predicate said, and of those that
are worded from the two calls. -/
theorem Function.answer_made_inStep {host : Host σ} {same : Correspondence}
    {agree : Correspondence → Value → Value → Prop} {serial : Option Nat} {name : String}
    {predicate : Predicate} {clauses : Clauses} (hpredicate : predicate.IsUniform host base)
    (hclauses : clauses.ComputeInStep host base) {arguments arguments' : List Value}
    (hsubject : same (arguments[2]?.getD .undefined) (arguments'[2]?.getD .undefined))
    (htarget : same (arguments[3]?.getD .undefined) (arguments'[3]?.getD .undefined))
    (passes : ∀ wider, wider (.bool true) (.bool true) → agree wider (.bool true) (.bool true))
    (quotes : ∀ wider items items', Correspondence.AgreeAll wider items items' →
      InStep base wider (Run.onStore (Value.newArray items) : Run σ Value)
        (Run.onStore (Value.newArray items')) agree)
    (words : ∀ wider store other, same.Within wider → Corresponds base store other wider →
      ∀ widest finals finals', wider.Within widest → widest.AgreeAll finals finals' →
        let leading := (TestCall.ofArguments store arguments).leadingFragments clauses.shouldText
        let leading' := (TestCall.ofArguments other arguments').leadingFragments clauses.shouldText
        InStep base widest (Run.onStore (Value.newArray (leading ++ finals)) : Run σ Value)
          (Run.onStore (Value.newArray (leading' ++ finals'))) agree) :
    InStep base same ((made serial name predicate clauses).answer host arguments)
      ((made serial name predicate clauses).answer host arguments') agree := by
  rw [answer, answer]
  refine .bind .store fun wider store other hwithin corresponds ↦ ?_
  refine .bind (Predicate.ask_inStep hpredicate (hwithin _ _ hsubject) (hwithin _ _ htarget))
    fun wider' said said' hwithin' hsaid ↦ .intro fun store' other' corresponds' ↦ ?_
  have hwide := hwithin.trans hwithin'
  -- Whatever is neither `true` nor an array is worded from the clauses.
  have hworded := InStep.bind
    (hclauses wider' _ _ _ _ (hwide _ _ hsubject) (hwide _ _ htarget))
    fun widest finals finals' hwithin'' ↦
      words wider store other hwithin corresponds widest finals finals' (hwithin'.trans hwithin'')
  cases corresponds'.sameTop hsaid with
  | array =>
    exact .bind .store fun _ _ _ hwithin corresponds ↦
      quotes _ _ _ (corresponds.items (hwithin _ _ hsaid))
  | arguments | object => exact hworded
  | leaf simple =>
    cases said with
    | bool value =>
      cases value with
      | true => exact .pure (passes wider' hsaid)
      | false => exact hworded
    | array => cases simple
    | _ => exact hworded

mutual

/-- A uniform function answers in step. -/
theorem Function.answer_inStep (host : Host σ) : (function : Function) →
    function.IsUniform host base → (same : Correspondence) → (arguments arguments' : List Value) →
    same.AgreeAll arguments arguments' →
    InStep base same (function.answer host arguments) (function.answer host arguments')
      Correspondence.Agree
  | .host code name, uniform, same, arguments, arguments', agree => by
      rw [Function.answer, Function.answer]
      rw [Function.IsUniform] at uniform
      exact .onHost (uniform same arguments arguments' agree)
  | .typed code name, uniform, same, arguments, arguments', agree => by
      rw [Function.answer, Function.answer]
      rw [Function.IsUniform] at uniform
      refine .bind .store fun wider store other hwithin corresponds ↦ ?_
      have hcall := TestCall.same_ofArguments corresponds (agree.imp hwithin)
      refine .bind (.record .nil) fun wider' _ _ hwithin' _ ↦ ?_
      refine .bind (.onHost (uniform wider' _ _ (hcall.mono hwithin'))) fun _ _ _ _ houtcome ↦ ?_
      exact TestOutcome.toValue_inStep houtcome
  | .made serial name predicate clauses, uniform, same, arguments, arguments', agree => by
      rw [Function.IsUniform] at uniform
      obtain ⟨hpredicate, hclauses⟩ := uniform
      refine .intro fun store other corresponds ↦ ?_
      refine Function.answer_made_inStep hpredicate
        (clauses.finalFragments_inStep host hclauses)
        (TestCall.same_argument corresponds agree 2) (TestCall.same_argument corresponds agree 3)
        (fun _ ↦ id) (fun _ _ _ ↦ .newArray) ?_
      intro wider store other hwithin corresponds widest finals finals' hwithin' hfinals
      have hcall := TestCall.same_ofArguments corresponds (agree.imp hwithin)
      have hleading := TestCall.same_leadingFragments corresponds hcall clauses.shouldText
      exact .newArray (List.rel_append (hleading.imp hwithin') hfinals)
  | .kindName, uniform, same, arguments, arguments', agree => by
      rw [Function.answer, Function.answer]
      refine .intro fun store other corresponds ↦ ?_
      have hkind : (arguments.headD .undefined).kind = (arguments'.headD .undefined).kind := by
        cases agree with
        | nil => rfl
        | cons hfirst => exact (corresponds.sameTop hfirst).kind_eq
      rw [hkind]
      exact .pure (corresponds.leaf rfl)

/-- The final clauses of uniform clauses are computed in step. -/
theorem Clauses.finalFragments_inStep (host : Host σ) : (clauses : Clauses) →
    clauses.IsUniform host base → (same : Correspondence) →
    (subject subject' target target' : Value) → same subject subject' → same target target' →
    InStep base same (clauses.finalFragments host subject target)
      (clauses.finalFragments host subject' target') Correspondence.AgreeAll
  | .should text, _, same, subject, subject', target, target', hsubject, htarget => by
      rw [Clauses.finalFragments, Clauses.finalFragments]
      exact .pure .nil
  | .thenText clauses text, uniform, same, subject, subject', target, target', hsubject,
      htarget => by
      rw [Clauses.finalFragments, Clauses.finalFragments]
      rw [Clauses.IsUniform] at uniform
      refine .bind (clauses.finalFragments_inStep host uniform same _ _ _ _ hsubject htarget)
        fun wider fragments fragments' hwithin hfragments ↦ .intro fun store other corresponds ↦ ?_
      exact .pure (List.rel_append hfragments (.cons (corresponds.leaf rfl) .nil))
  | .thenComputed clauses function, uniform, same, subject, subject', target, target', hsubject,
      htarget => by
      rw [Clauses.finalFragments, Clauses.finalFragments]
      rw [Clauses.IsUniform] at uniform
      obtain ⟨hclauses, hfunction⟩ := uniform
      refine .bind (clauses.finalFragments_inStep host hclauses same _ _ _ _ hsubject htarget)
        fun wider fragments fragments' hwithin hfragments ↦
          .bind (.record .nil) fun wider' _ _ hwithin' _ ↦ ?_
      have hwide := hwithin.trans hwithin'
      have harguments : wider'.AgreeAll [subject, target] [subject', target'] :=
        .cons (hwide _ _ hsubject) (.cons (hwide _ _ htarget) .nil)
      refine .bind (function.answer_inStep host hfunction wider' _ _ harguments)
        fun _ _ _ hwithin hanswer ↦ ?_
      have hearlier := hfragments.imp fun _ _ hfragment ↦ hwithin _ _ (hwithin' _ _ hfragment)
      exact .pure (List.rel_append hearlier (.cons hanswer .nil))

end

variable {host : Host σ} {same : Correspondence}

/-- A uniform function that is a rule is called in step. -/
theorem Function.apply_inStep {function : Function} (uniform : function.IsUniform host base) :
    InStep base same (function.apply host []) (function.apply host []) Correspondence.Agree :=
  .bind (.record (.cons (.function function) .nil)) fun wider _ _ _ _ ↦
    function.answer_inStep host uniform wider [] [] .nil

end Functions

section Tests

variable {base : Store} {host : Host σ} {same : Correspondence}

inductive PassAlike {ε : Type} (same : Correspondence) : Except ε Unit → Except ε Unit → Prop
  | ok : PassAlike same (.ok ()) (.ok ())
  | error (reason reason' : ε) : PassAlike same (.error reason) (.error reason')

theorem PassAlike.iff {ε : Type} {outcome outcome' : Except ε Unit}
    (alike : PassAlike same outcome outcome') : outcome = .ok () ↔ outcome' = .ok () := by
  cases alike with
  | ok => exact iff_of_true rfl rfl
  | error => exact iff_of_false nofun nofun

/-- Both values are `true`, or both are arrays. -/
def Value.BothAnswer (_ : Correspondence) (value value' : Value) : Prop :=
  value = .bool true ∧ value' = .bool true ∨
    (∃ ref, value = .array ref) ∧ ∃ ref, value' = .array ref

theorem Value.newArray_bothAnswer (items items' : List Value) :
    InStep base same (Run.onStore (newArray items) : Run σ Value) (Run.onStore (newArray items'))
      BothAnswer := by
  refine (InStep.onStore (Store.le_newArray items) (Store.le_newArray items')).mono
    fun _ _ _ _ hresults ↦ .inr ?_
  obtain ⟨⟨store, rfl⟩, ⟨store', rfl⟩⟩ := hresults
  exact ⟨⟨_, rfl⟩, ⟨_, rfl⟩⟩

/-- A made test that is uniform passes in both of two calls or in neither, if the compared values
correspond. The caller, the names and the collections may differ. -/
theorem Function.runTest_inStep {test : Function} (made : test.IsMade)
    (uniform : test.IsUniform host base) {call call' : TestCall}
    (hsubject : same call.subject call'.subject) (htarget : same call.target call'.target) :
    InStep base same (test.runTest host call) (test.runTest host call') PassAlike := by
  obtain ⟨serial, name, predicate, clauses, rfl⟩ := made
  rw [IsUniform] at uniform
  have hgrows (call : TestCall) (store : Store) : store ≤ (call.toArguments store).2 :=
    Store.le_newArray _ store
  refine .bind (.onStore (hgrows call) (hgrows call')) fun wider _ _ hwithin harguments ↦ ?_
  obtain ⟨⟨store, rfl⟩, ⟨store', rfl⟩⟩ := harguments
  have happly : InStep base wider
      ((Function.made serial name predicate clauses).apply host (call.toArguments store).1)
      ((Function.made serial name predicate clauses).apply host (call'.toArguments store').1)
      Value.BothAnswer :=
    .bind (.record .nil) fun _ _ _ hwithin' _ ↦
      answer_made_inStep uniform.1 (clauses.finalFragments_inStep host uniform.2)
        (hwithin' _ _ (hwithin _ _ hsubject)) (hwithin' _ _ (hwithin _ _ htarget))
        (fun _ _ ↦ .inl ⟨rfl, rfl⟩) (fun _ _ _ _ ↦ Value.newArray_bothAnswer _ _)
        fun _ _ _ _ _ _ _ _ _ _ ↦ Value.newArray_bothAnswer _ _
  refine .bind happly fun _ answer answer' _ hanswers ↦ .bind .store fun _ _ _ _ _ ↦ .pure ?_
  rcases hanswers with ⟨rfl, rfl⟩ | ⟨⟨ref, rfl⟩, ⟨ref', rfl⟩⟩
  · exact .ok
  · exact .error _ _

end Tests

end RuleCheck
