import RuleCheck.Proofs.Journal

/-!
# Report channels agree

An evaluation checks its rule and then delivers the outcome. The check does not know the channel, so
all channels agree on whether a rule passes; they differ only in where the text of a diagnostic
goes. A literal `false` is delivered nowhere, while a diagnostic without fragments is still
delivered, as the empty text.
-/

namespace RuleCheck

variable {σ : Type}

namespace Sink

variable (host : Host σ) (sink : Sink) (entry : Entry) (world : World σ)

/-- A sink that takes an entry leaves everything else as it is, except for a notice of the entry. -/
theorem accept_idle : (sink.accept host entry world).2.store = world.store ∧
    (sink.accept host entry world).2.host = world.host ∧
    (sink.accept host entry world).2.steps = world.steps := by
  cases sink with
  | memory | console => exact ⟨rfl, rfl, rfl⟩
  | notices => exact ⟨rfl, rfl, world.steps_record rfl⟩

end Sink

def Value.isChannel : Value → Bool
  | .undefined => true
  | .bool value => value
  | .function _ => true
  | _ => false

/-- A value that gives no channel is quoted with its kind. -/
theorem Report.ofValue_of_not_isChannel (store : Store) {channel : Value}
    (other : channel.isChannel = false) :
    ofValue store channel = .error ⟨store.render channel, channel.kind⟩ := by
  cases channel with
  | undefined | function => cases other
  | bool value =>
    obtain rfl : value = false := other
    rfl
  | _ => rfl

/-- The wording of a fault is shown without quotes. -/
theorem ChannelFault.render_message (store : Store) (fault : ChannelFault) :
    Diagnostic.render store ⟨[.text fault.message]⟩ = fault.message := by
  have hnonempty : fault.message.isEmpty = false := by
    rw [Bool.eq_false_iff, Ne, String.isEmpty_iff]
    unfold message
    simp [String.append_eq_empty_iff]
  change store.render (.text fault.message) = fault.message
  rw [Store.render, hnonempty]
  rfl

namespace Engine

variable {host : Host σ} {engine : Engine} {label : Option String} {rule : Value}
  {world : World σ}

theorem evaluate_apply (report : Report) : engine.evaluate host label rule report world =
    match engine.check host label rule world with
    | (.ok (), after) => ((.pass, engine), after)
    | (.error failure, after) => engine.deliver host label report failure after := by
  rw [evaluate, Run.bind_apply]
  generalize engine.check host label rule world = result
  obtain ⟨outcome, after⟩ := result
  cases outcome <;> rfl

theorem evaluate_of_passes (passes : (engine.check host label rule world).1 = .ok ())
    (report : Report) : engine.evaluate host label rule report world =
      ((.pass, engine), (engine.check host label rule world).2) := by
  have hcheck : engine.check host label rule world =
      (.ok (), (engine.check host label rule world).2) := Prod.ext passes rfl
  rw [evaluate_apply, hcheck]

theorem evaluate_of_fails {failure : Failure}
    (fails : (engine.check host label rule world).1 = .error failure) (report : Report) :
    engine.evaluate host label rule report world =
      engine.deliver host label report failure (engine.check host label rule world).2 := by
  have hcheck : engine.check host label rule world =
      (.error failure, (engine.check host label rule world).2) := Prod.ext fails rfl
  rw [evaluate_apply, hcheck]

/-- A failure is never delivered as a pass. -/
theorem isPass_deliver (report : Report) (failure : Failure) :
    (engine.deliver host label report failure world).1.1.isPass = false := by
  cases failure with
  | rejected => rfl
  | diagnosed diagnostic => cases report <;> rfl

/-- Whatever the channel, an evaluation passes exactly if the check does. -/
theorem isPass_evaluate_iff (report : Report) :
    (engine.evaluate host label rule report world).1.1.isPass = true ↔
      (engine.check host label rule world).1 = .ok () := by
  cases houtcome : (engine.check host label rule world).1 with
  | ok => simp [evaluate_of_passes houtcome, Verdict.isPass]
  | error failure => simp [evaluate_of_fails houtcome, isPass_deliver]

theorem stops_apply (report : Report) : engine.stops host label rule report world =
    let result := engine.evaluate host label rule report world
    ((!result.1.1.isPass, result.1.2), result.2) := rfl

theorem passes_apply : engine.passes host rule world =
    let result := engine.evaluate host none rule .print world
    ((result.1.1.isPass, result.1.2), result.2) := rfl

theorem evaluateWith_of_channel {channel : Value} {report : Report}
    (gives : Report.ofValue world.store channel = .ok report) :
    engine.evaluateWith host label rule channel world =
      engine.evaluate host label rule report world := by
  rw [evaluateWith, Run.bind_apply, Run.store_apply]
  dsimp only
  rw [gives]

theorem evaluateWith_of_production {channel : Value} (other : channel.isChannel = false)
    (production : engine.options.production = true) :
    engine.evaluateWith host label rule channel world =
      engine.evaluate host label rule .print world := by
  rw [evaluateWith, Run.bind_apply, Run.store_apply]
  dsimp only
  rw [Report.ofValue_of_not_isChannel world.store other]
  dsimp only
  rw [if_pos production]

/-- Outside production a value that gives no channel is printed itself. -/
theorem evaluateWith_of_refused {channel : Value} (other : channel.isChannel = false)
    (outside : engine.options.production = false) :
    let fault : ChannelFault := ⟨world.store.render channel, channel.kind⟩
    let noticed := (Run.record (.channelRefused fault.message) world).2
    let taken := engine.sink.accept host ⟨labelText label, fault.message⟩ noticed
    engine.evaluateWith host label rule channel world =
      ((.fail, { engine with sink := taken.1 }), taken.2) := by
  intro fault noticed taken
  rw [evaluateWith, Run.bind_apply, Run.store_apply]
  dsimp only
  rw [Report.ofValue_of_not_isChannel world.store other]
  dsimp only
  rw [outside, if_neg Bool.false_ne_true, Run.bind_apply, Run.bind_apply, print, Run.bind_apply,
    Run.store_apply]
  dsimp only
  rw [ChannelFault.render_message]
  rfl

/-! ## Agreement -/

/-- How evaluations under the channels end, given what the check from the same world ends with. Only
printing hands the sink an entry. A listener is called once, with the text, and whatever else is
recorded are calls with two arguments that it makes itself. -/
structure ChannelsAgree (host : Host σ) (engine : Engine) (label : Option String) (rule : Value)
    (world : World σ) (outcome : Outcome) (after : World σ) : Prop where
  evaluate_passes : ∀ report,
    (engine.evaluate host label rule report world).1.1 = .pass ↔ outcome = .ok ()
  stops : ∀ report, (engine.stops host label rule report world).1.1 = false ↔ outcome = .ok ()
  passes : label = none → ((engine.passes host rule world).1.1 = true ↔ outcome = .ok ())
  passed : outcome = .ok () → ∀ report,
    engine.evaluate host label rule report world = ((.pass, engine), after)
  rejected : outcome = .error .rejected → ∀ report,
    engine.evaluate host label rule report world = ((.fail, engine), after)
  text : ∀ diagnostic, outcome = .error (.diagnosed diagnostic) →
    engine.evaluate host label rule .text world =
      ((.report (diagnostic.render after.store), engine), after)
  print : ∀ diagnostic, outcome = .error (.diagnosed diagnostic) →
    let entry : Entry := ⟨labelText label, diagnostic.render after.store⟩
    let taken := engine.sink.accept host entry after
    engine.evaluate host label rule .print world =
      ((.fail, { engine with sink := taken.1 }), taken.2)
  print_memory : ∀ diagnostic, outcome = .error (.diagnosed diagnostic) →
    let entry : Entry := ⟨labelText label, diagnostic.render after.store⟩
    ∀ entries, engine.sink = .memory entries →
      engine.evaluate host label rule .print world =
        ((.fail, { engine with sink := .memory (entries ++ [entry]) }), after)
  callback : ∀ diagnostic, outcome = .error (.diagnosed diagnostic) → ∀ listener,
    let text := Value.text (diagnostic.render after.store)
    let final := (listener.apply host [text] after).2
    engine.evaluate host label rule (.callback listener) world = ((.fail, engine), final) ∧
    ∃ inner, final.journal.toList = after.journal.toList ++ .called listener [text] :: inner ∧
      ∀ event ∈ inner, event.isInner = true

theorem channelsAgree (host : Host σ) (engine : Engine) (label : Option String) (rule : Value)
    (world : World σ) :
    let checked := engine.check host label rule world
    ChannelsAgree host engine label rule world checked.1 checked.2 where
  evaluate_passes report := by
    rw [← isPass_evaluate_iff report]
    generalize (engine.evaluate host label rule report world).1.1 = verdict
    cases verdict <;> simp [Verdict.isPass]
  stops report := by
    rw [← isPass_evaluate_iff report, stops_apply]
    simp
  passes unlabelled := by
    subst unlabelled
    rw [passes_apply]
    exact isPass_evaluate_iff .print
  passed houtcome report := evaluate_of_passes houtcome report
  rejected houtcome report := evaluate_of_fails houtcome report
  text diagnostic houtcome := evaluate_of_fails houtcome .text
  print diagnostic houtcome := evaluate_of_fails houtcome .print
  print_memory diagnostic houtcome entries hsink := by
    rw [evaluate_of_fails houtcome .print]
    obtain ⟨options, sink⟩ := engine
    obtain rfl : sink = .memory entries := hsink
    rfl
  callback diagnostic houtcome listener :=
    ⟨evaluate_of_fails houtcome (.callback listener), listener.apply_journal host _ _⟩

/-- How a channel is taken from a value. In production a value that gives none prints. Outside
production it fails whatever the rule is: the sink takes one entry with the error, nothing is called
or begun, and no value changes. -/
structure ChannelValues (host : Host σ) (engine : Engine) (label : Option String) (rule : Value)
    (world : World σ) : Prop where
  undefined : engine.evaluateWith host label rule .undefined world =
    engine.evaluate host label rule .print world
  text : engine.evaluateWith host label rule (.bool true) world =
    engine.evaluate host label rule .text world
  function : ∀ listener, engine.evaluateWith host label rule (.function listener) world =
    engine.evaluate host label rule (.callback listener) world
  production : engine.options.production = true → ∀ channel, channel.isChannel = false →
    engine.evaluateWith host label rule channel world =
      engine.evaluate host label rule .print world
  refused : engine.options.production = false → ∀ channel, channel.isChannel = false →
    let fault : ChannelFault := ⟨world.store.render channel, channel.kind⟩
    let noticed := (Run.record (.channelRefused fault.message) world).2
    let taken := engine.sink.accept host ⟨labelText label, fault.message⟩ noticed
    engine.evaluateWith host label rule channel world =
      ((.fail, { engine with sink := taken.1 }), taken.2) ∧
    taken.2.steps = world.steps ∧ taken.2.store = world.store ∧ taken.2.host = world.host
  refused_memory : engine.options.production = false → ∀ channel, channel.isChannel = false →
    let fault : ChannelFault := ⟨world.store.render channel, channel.kind⟩
    let entry : Entry := ⟨labelText label, fault.message⟩
    ∀ entries, engine.sink = .memory entries →
      engine.evaluateWith host label rule channel world =
        ((.fail, { engine with sink := .memory (entries ++ [entry]) }),
          (Run.record (.channelRefused fault.message) world).2)

theorem channelValues (host : Host σ) (engine : Engine) (label : Option String) (rule : Value)
    (world : World σ) : ChannelValues host engine label rule world where
  undefined := evaluateWith_of_channel rfl
  text := evaluateWith_of_channel rfl
  function _ := evaluateWith_of_channel rfl
  production hproduction channel other := evaluateWith_of_production other hproduction
  refused outside channel other := by
    intro fault noticed taken
    obtain ⟨hstore, hhost, hsteps⟩ :=
      engine.sink.accept_idle host ⟨labelText label, fault.message⟩ noticed
    have hnoticed : noticed.steps = world.steps := world.steps_record rfl
    exact ⟨evaluateWith_of_refused other outside, hsteps.trans hnoticed, hstore, hhost⟩
  refused_memory outside channel other := by
    intro fault entry entries hsink
    rw [evaluateWith_of_refused other outside]
    obtain ⟨options, sink⟩ := engine
    obtain rfl : sink = .memory entries := hsink
    rfl

end Engine

/-- All ways to start an evaluation agree with the check of the same rule from the same world. A
report channel decides only where the text of a diagnostic goes, and a channel that is given as a
value is taken as such or refused before anything else happens. -/
theorem evaluate_channels (host : Host σ) (engine : Engine) (label : Option String) (rule : Value)
    (world : World σ) :
    let checked := engine.check host label rule world
    Engine.ChannelsAgree host engine label rule world checked.1 checked.2 ∧
      Engine.ChannelValues host engine label rule world :=
  ⟨engine.channelsAgree host label rule world, engine.channelValues host label rule world⟩

/-- A test that answers an empty array has its rule reported, with the empty text. -/
example (label : Option String) :
    let host : Host Unit :=
      { call := fun _ _ ↦ return .array ⟨1⟩
        judge := fun _ _ _ ↦ return .undefined
        test := fun _ _ ↦ return .ok ()
        elapsed := fun _ ↦ 0 }
    let rule : List Value := [.text "age", .null, .null, .function (.host 0 none)]
    let world : World Unit := ⟨⟨#[rule, []], #[], 0⟩, (), #[]⟩
    (Engine.evaluate host {} label (.array ⟨0⟩) .text world).1.1 = .report "" := rfl

end RuleCheck
