import RuleCheck.Proofs.Channels

/-!
# Sessions with one engine

A program goes on using one engine: it evaluates rules, replaces the options, empties the sink, and
works on its values in between. An operation hands a delivery to the sink if it prints the
diagnostic of a rule, or the fault of a report channel outside production, and no other operation
does. A memory sink keeps the texts of the deliveries in their order, as they read when they were
made, until it is emptied; a console writes a block for each of them.
-/

namespace RuleCheck

variable {σ : Type}

/-- Something that a program does with an engine, or with its own values in between. -/
inductive Operation (σ : Type) where
  | evaluate (label : Option String) (rule : Value) (report : Report)
  | evaluateWith (label : Option String) (rule channel : Value)
  | passes (rule : Value)
  | stops (label : Option String) (rule : Value) (report : Report)
  | check (label : Option String) (rule : Value)
  | setOptions (options : Options)
  | mutate (change : StateM (Store × σ) Unit)
  | clear

namespace Operation

def perform (host : Host σ) (engine : Engine) : Operation σ → Run σ Engine
  | .evaluate label rule report => return (← engine.evaluate host label rule report).2
  | .evaluateWith label rule channel => return (← engine.evaluateWith host label rule channel).2
  | .passes rule => return (← engine.passes host rule).2
  | .stops label rule report => return (← engine.stops host label rule report).2
  | .check label rule => do
      let _ ← engine.check host label rule
      return engine
  | .setOptions options => return { engine with options }
  | .mutate change => do
      Run.onHost change
      return engine
  | .clear => return { engine with sink := engine.sink.clear }

def isClear : Operation σ → Bool
  | .clear => true
  | _ => false

def optionsAfter (options : Options) : Operation σ → Options
  | .setOptions replaced => replaced
  | _ => options

end Operation

def Engine.session (host : Host σ) (engine : Engine) (operations : List (Operation σ)) :
    Run σ Engine :=
  operations.foldlM (Operation.perform host) engine

/-! ## Deliveries -/

/-- What is handed to a sink, and when, in milliseconds on the host's clock. -/
structure Delivery where
  entry : Entry
  elapsed : Nat

def Delivery.block (delivery : Delivery) : String :=
  delivery.entry.block delivery.elapsed

def Delivery.ofText (host : Host σ) (label : Option String) (world : World σ) (text : String) :
    Delivery :=
  ⟨⟨Engine.labelText label, text⟩, host.elapsed world.host⟩

/-- The diagnostic that a rule fails with, as it reads at the end of the check. A pass has none, and
neither has a literal `false`. -/
def Options.diagnosed? (host : Host σ) (options : Options) (label : Option String) (rule : Value)
    (world : World σ) : Option Delivery :=
  let checked := Engine.check host { options } label rule world
  match checked.1 with
  | .error (.diagnosed diagnostic) =>
      some (.ofText host label checked.2 (diagnostic.render checked.2.store))
  | _ => none

namespace Operation

def delivery? (host : Host σ) (options : Options) (world : World σ) : Operation σ → Option Delivery
  | .evaluate label rule .print => options.diagnosed? host label rule world
  | .stops label rule .print => options.diagnosed? host label rule world
  | .passes rule => options.diagnosed? host none rule world
  | .evaluateWith label rule channel =>
      match Report.ofValue world.store channel with
      | .ok .print => options.diagnosed? host label rule world
      | .ok _ => none
      | .error fault =>
          if options.production then options.diagnosed? host label rule world
          else some (.ofText host label world fault.message)
  | _ => none

/-- The operation is an evaluation of this rule under this label that prints a failure. In
production a value that gives no channel prints. -/
inductive Prints (production : Bool) : Operation σ → Option String → Value → Prop where
  | evaluate {label : Option String} {rule : Value} :
      Prints production (.evaluate label rule .print) label rule
  | stops {label : Option String} {rule : Value} :
      Prints production (.stops label rule .print) label rule
  | passes {rule : Value} : Prints production (.passes rule) none rule
  | undefined {label : Option String} {rule : Value} :
      Prints production (.evaluateWith label rule .undefined) label rule
  | fallback {label : Option String} {rule channel : Value}
      (inside : production = true) (other : channel.isChannel = false) :
      Prints production (.evaluateWith label rule channel) label rule

inductive Delivers (host : Host σ) (options : Options) (world : World σ) :
    Operation σ → Delivery → Prop where
  | diagnosed {operation : Operation σ} {label : Option String} {rule : Value} {after : World σ}
      {diagnostic : Diagnostic} (prints : operation.Prints options.production label rule)
      (fails : (Engine.check host { options } label rule world).1 = .error (.diagnosed diagnostic))
      (leaves : (Engine.check host { options } label rule world).2 = after) :
      Delivers host options world operation
        (.ofText host label after (diagnostic.render after.store))
  | refused {label : Option String} {rule channel : Value} (outside : options.production = false)
      (other : channel.isChannel = false) :
      Delivers host options world (.evaluateWith label rule channel)
        (.ofText host label world
          (ChannelFault.mk (world.store.render channel) channel.kind).message)

end Operation

section

variable {host : Host σ} {options : Options} {world : World σ} {operation : Operation σ}
  {label : Option String} {rule : Value} {delivery : Delivery}

theorem Options.diagnosed_eq_some_iff : options.diagnosed? host label rule world = some delivery ↔
    ∃ diagnostic after, (Engine.check host { options } label rule world).1 =
        .error (.diagnosed diagnostic) ∧
      (Engine.check host { options } label rule world).2 = after ∧
      delivery = .ofText host label after (diagnostic.render after.store) := by
  rw [diagnosed?]
  generalize Engine.check host { options } label rule world = checked
  obtain ⟨outcome, after⟩ := checked
  cases outcome with
  | ok => simp
  | error failure =>
    cases failure with
    | rejected => simp
    | diagnosed diagnostic => simp [eq_comm]

namespace Operation

theorem delivery_of_prints (prints : operation.Prints options.production label rule) :
    operation.delivery? host options world = options.diagnosed? host label rule world := by
  cases prints with
  | evaluate | stops | passes | undefined => rfl
  | fallback inside other =>
    rw [delivery?, Report.ofValue_of_not_isChannel world.store other]
    exact if_pos inside

theorem delivery_of_refused {channel : Value} (outside : options.production = false)
    (other : channel.isChannel = false) :
    (evaluateWith label rule channel).delivery? host options world = some (.ofText host label world
      (ChannelFault.mk (world.store.render channel) channel.kind).message) := by
  rw [delivery?, Report.ofValue_of_not_isChannel world.store other]
  exact if_neg (Bool.eq_false_iff.1 outside)

/-- An operation that neither prints nor refuses a channel delivers nothing. -/
theorem exists_of_delivery (delivered : operation.delivery? host options world = some delivery) :
    (∃ label rule, operation.Prints options.production label rule) ∨
    ∃ label rule channel, operation = .evaluateWith label rule channel ∧
      options.production = false ∧ channel.isChannel = false := by
  cases operation with
  | evaluate label rule report =>
    cases report with
    | print => exact .inl ⟨label, rule, .evaluate⟩
    | text | callback => cases delivered
  | stops label rule report =>
    cases report with
    | print => exact .inl ⟨label, rule, .stops⟩
    | text | callback => cases delivered
  | passes rule => exact .inl ⟨none, rule, .passes⟩
  | evaluateWith label rule channel =>
    cases hchannel : channel.isChannel with
    | false =>
      cases hproduction : options.production with
      | false => exact .inr ⟨label, rule, channel, rfl, rfl, hchannel⟩
      | true => exact .inl ⟨label, rule, .fallback rfl hchannel⟩
    | true =>
      cases channel with
      | undefined => exact .inl ⟨label, rule, .undefined⟩
      | bool value =>
        obtain rfl : value = true := hchannel
        cases delivered
      | function => cases delivered
      | _ => cases hchannel
  | check | setOptions | mutate | clear => cases delivered

/-- What is delivered, and that nothing else is. -/
theorem delivery_eq_some_iff : operation.delivery? host options world = some delivery ↔
    operation.Delivers host options world delivery := by
  constructor
  · intro delivered
    rcases exists_of_delivery delivered with
      ⟨label, rule, hprints⟩ | ⟨label, rule, channel, rfl, hproduction, hchannel⟩
    · rw [delivery_of_prints hprints, Options.diagnosed_eq_some_iff] at delivered
      obtain ⟨diagnostic, after, hfails, hleaves, rfl⟩ := delivered
      exact .diagnosed hprints hfails hleaves
    · rw [delivery_of_refused hproduction hchannel] at delivered
      obtain rfl := Option.some.inj delivered
      exact .refused hproduction hchannel
  · intro delivers
    cases delivers with
    | diagnosed prints fails leaves =>
      rw [delivery_of_prints prints, Options.diagnosed_eq_some_iff]
      exact ⟨_, _, fails, leaves, rfl⟩
    | refused outside other => exact delivery_of_refused outside other

end Operation

end

/-- A value that is a channel gives one. -/
theorem Report.exists_of_isChannel (store : Store) {channel : Value}
    (gives : channel.isChannel = true) : ∃ report, Report.ofValue store channel = .ok report := by
  cases channel with
  | undefined => exact ⟨.print, rfl⟩
  | bool value =>
    obtain rfl : value = true := gives
    exact ⟨.text, rfl⟩
  | function listener => exact ⟨.callback listener, rfl⟩
  | _ => cases gives

namespace Sink

def take (sink : Sink) (delivery : Delivery) : Sink :=
  match sink with
  | .memory entries => .memory (entries ++ [delivery.entry])
  | .console blocks => .console (blocks ++ [delivery.block])
  | .notices => .notices

def takeAll (sink : Sink) (deliveries : List Delivery) : Sink :=
  deliveries.foldl take sink

/-- Nobody but the sink notices a delivery. -/
def IsQuiet : Sink → Prop
  | .notices => False
  | _ => True

theorem accept_of_quiet {sink : Sink} (quiet : sink.IsQuiet) (host : Host σ) (entry : Entry)
    (world : World σ) :
    sink.accept host entry world = (sink.take ⟨entry, host.elapsed world.host⟩, world) := by
  cases sink with
  | memory | console => rfl
  | notices => exact quiet.elim

@[simp] theorem takeAll_memory (entries : List Entry) (deliveries : List Delivery) :
    (memory entries).takeAll deliveries = .memory (entries ++ deliveries.map Delivery.entry) := by
  induction deliveries generalizing entries with
  | nil => simp [takeAll]
  | cons delivery rest ih =>
    rw [takeAll, List.foldl_cons]
    exact (ih (entries ++ [delivery.entry])).trans (by simp)

@[simp] theorem takeAll_console (blocks : List String) (deliveries : List Delivery) :
    (console blocks).takeAll deliveries = .console (blocks ++ deliveries.map Delivery.block) := by
  induction deliveries generalizing blocks with
  | nil => simp [takeAll]
  | cons delivery rest ih =>
    rw [takeAll, List.foldl_cons]
    exact (ih (blocks ++ [delivery.block])).trans (by simp)

end Sink

section

variable {host : Host σ} {options : Options} {sink : Sink} {world : World σ}
  {label : Option String} {rule : Value}

/-- What is printed to a quiet sink is handed to it as it reads, and nothing else happens. -/
theorem Engine.deliver_print_of_quiet (quiet : sink.IsQuiet) (diagnostic : Diagnostic) :
    Engine.deliver host ⟨options, sink⟩ label .print (.diagnosed diagnostic) world =
      ((.fail, ⟨options, sink.take (.ofText host label world (diagnostic.render world.store))⟩),
        world) := by
  rw [deliver, Run.bind_apply, print, Run.bind_apply, Run.store_apply, Run.bind_apply,
    Sink.accept_of_quiet quiet]
  rfl

/-- A value that gives no channel is handed to a quiet sink as it reads. -/
theorem Engine.evaluateWith_refused_of_quiet (quiet : sink.IsQuiet) {channel : Value}
    (outside : options.production = false) (other : channel.isChannel = false) :
    let fault : ChannelFault := ⟨world.store.render channel, channel.kind⟩
    Engine.evaluateWith host ⟨options, sink⟩ label rule channel world =
      ((.fail, ⟨options, sink.take (.ofText host label world fault.message)⟩),
        (Run.record (.channelRefused fault.message) world).2) := by
  intro fault
  rw [evaluateWith_of_refused other outside, Sink.accept_of_quiet quiet]
  rfl

/-- An evaluation changes a quiet sink by its delivery, and goes on as it does with any other. -/
theorem Engine.evaluate_of_quiet (quiet : sink.IsQuiet) (host : Host σ) (options : Options)
    (label : Option String) (rule : Value) (report : Report) (world : World σ) :
    let result := Engine.evaluate host ⟨options, sink⟩ label rule report world
    let delivered := (Operation.evaluate label rule report).delivery? host options world
    result.1.2 = ⟨options, sink.takeAll delivered.toList⟩ ∧
      result.2 = (Engine.evaluate host { options } label rule report world).2 := by
  intro result delivered
  -- The check asks nothing of the sink, so both engines go on from the same outcome.
  let after := (Engine.check host { options } label rule world).2
  have hcheck : (Engine.check host ⟨options, sink⟩ label rule world).1 =
      (Engine.check host { options } label rule world).1 := rfl
  cases houtcome : (Engine.check host { options } label rule world).1 with
  | ok =>
    have hresult : result = ((.pass, ⟨options, sink⟩), after) :=
      evaluate_of_passes (hcheck.trans houtcome) report
    have hnone : delivered = none := by
      cases report <;> simp [delivered, Operation.delivery?, Options.diagnosed?, houtcome]
    rw [hresult, hnone, evaluate_of_passes houtcome]
    exact ⟨rfl, rfl⟩
  | error failure =>
    have hresult : result = Engine.deliver host ⟨options, sink⟩ label report failure after :=
      evaluate_of_fails (hcheck.trans houtcome) report
    rw [hresult, evaluate_of_fails houtcome]
    cases failure with
    | rejected =>
      have hnone : delivered = none := by
        cases report <;> simp [delivered, Operation.delivery?, Options.diagnosed?, houtcome]
      rw [hnone]
      exact ⟨rfl, rfl⟩
    | diagnosed diagnostic =>
      cases report with
      | text | callback => exact ⟨rfl, rfl⟩
      | print =>
        have hsome : delivered =
            some (.ofText host label after (diagnostic.render after.store)) := by
          simp [delivered, Operation.delivery?, Options.diagnosed?, houtcome, after]
        have hdefault : Sink.IsQuiet (.console []) := trivial
        rw [hsome, deliver_print_of_quiet quiet, deliver_print_of_quiet hdefault]
        exact ⟨rfl, rfl⟩

end

namespace Operation

variable {host : Host σ} {options : Options} {sink : Sink} {world : World σ}

/-- The world that an operation leaves, whatever quiet sink the engine has. -/
def worldAfter (host : Host σ) (options : Options) (world : World σ) (operation : Operation σ) :
    World σ :=
  (operation.perform host { options } world).2

/-- An operation that is as good as an evaluation, whatever the sink. -/
def IsEvaluation (host : Host σ) (options : Options) (world : World σ) (operation : Operation σ) :
    Prop :=
  ∃ label rule report, operation.isClear = false ∧ operation.optionsAfter options = options ∧
    (∀ sink, operation.perform host ⟨options, sink⟩ world =
      (evaluate label rule report).perform host ⟨options, sink⟩ world) ∧
    operation.delivery? host options world =
      (evaluate label rule report).delivery? host options world

theorem IsEvaluation.perform_of_quiet {operation : Operation σ}
    (evaluates : operation.IsEvaluation host options world) (quiet : sink.IsQuiet) :
    operation.perform host ⟨options, sink⟩ world =
      (⟨operation.optionsAfter options, (if operation.isClear then sink.clear else sink).takeAll
        (operation.delivery? host options world).toList⟩,
        operation.worldAfter host options world) := by
  obtain ⟨label, rule, report, hclear, hoptions, hperform, hdelivery⟩ := evaluates
  obtain ⟨hengine, hworld⟩ := Engine.evaluate_of_quiet quiet host options label rule report world
  have hafter : operation.worldAfter host options world =
      (Engine.evaluate host { options } label rule report world).2 := by
    rw [worldAfter, hperform]
    rfl
  rw [hperform, hoptions, hclear, hdelivery, hafter, ← hworld]
  exact Prod.ext hengine rfl

/-- A value that gives a channel is as good as the channel, and in production so is any other. -/
theorem isEvaluation_evaluateWith (label : Option String) (rule : Value) {channel : Value}
    (accepted : channel.isChannel = true ∨ options.production = true) :
    (evaluateWith label rule channel).IsEvaluation host options world := by
  cases hchannel : channel.isChannel with
  | false =>
    have inside : options.production = true := accepted.resolve_left (by simp [hchannel])
    refine ⟨label, rule, .print, rfl, rfl, fun sink ↦ ?_, ?_⟩
    · have hsame : Engine.evaluateWith host ⟨options, sink⟩ label rule channel world =
          Engine.evaluate host ⟨options, sink⟩ label rule .print world :=
        Engine.evaluateWith_of_production hchannel inside
      rw [perform, perform, Run.bind_apply, Run.bind_apply, hsame]
    · exact delivery_of_prints (.fallback inside hchannel)
  | true =>
    obtain ⟨report, hreport⟩ := Report.exists_of_isChannel world.store hchannel
    refine ⟨label, rule, report, rfl, rfl, fun sink ↦ ?_, ?_⟩
    · have hsame : Engine.evaluateWith host ⟨options, sink⟩ label rule channel world =
          Engine.evaluate host ⟨options, sink⟩ label rule report world :=
        Engine.evaluateWith_of_channel hreport
      rw [perform, perform, Run.bind_apply, Run.bind_apply, hsame]
    · rw [delivery?, hreport]
      cases report <;> rfl

/-- With a quiet sink an operation changes the sink by its delivery, unless it empties it. -/
theorem perform_of_quiet (quiet : sink.IsQuiet) (operation : Operation σ) :
    operation.perform host ⟨options, sink⟩ world =
      (⟨operation.optionsAfter options, (if operation.isClear then sink.clear else sink).takeAll
        (operation.delivery? host options world).toList⟩,
        operation.worldAfter host options world) := by
  cases operation with
  | evaluate label rule report =>
    refine IsEvaluation.perform_of_quiet ?_ quiet
    exact ⟨label, rule, report, rfl, rfl, fun _ ↦ rfl, rfl⟩
  | stops label rule report =>
    refine IsEvaluation.perform_of_quiet ?_ quiet
    exact ⟨label, rule, report, rfl, rfl, fun _ ↦ rfl, by cases report <;> rfl⟩
  | passes rule =>
    refine IsEvaluation.perform_of_quiet ?_ quiet
    exact ⟨none, rule, .print, rfl, rfl, fun _ ↦ rfl, rfl⟩
  | evaluateWith label rule channel =>
    by_cases haccepted : channel.isChannel = true ∨ options.production = true
    · exact (isEvaluation_evaluateWith label rule haccepted).perform_of_quiet quiet
    · obtain ⟨hchannel, hproduction⟩ := not_or.1 haccepted
      have other : channel.isChannel = false := Bool.eq_false_iff.2 hchannel
      have outside : options.production = false := Bool.eq_false_iff.2 hproduction
      have hdefault : Sink.IsQuiet (.console []) := trivial
      rw [worldAfter, perform, perform, Run.bind_apply, Run.bind_apply,
        Engine.evaluateWith_refused_of_quiet quiet outside other,
        Engine.evaluateWith_refused_of_quiet hdefault outside other,
        delivery_of_refused outside other]
      rfl
  | check | setOptions | mutate | clear => rfl

theorem perform_memory (host : Host σ) (options : Options) (entries : List Entry) (world : World σ)
    (operation : Operation σ) :
    operation.perform host ⟨options, .memory entries⟩ world =
      (⟨operation.optionsAfter options, .memory ((if operation.isClear then [] else entries) ++
        (operation.delivery? host options world).toList.map Delivery.entry)⟩,
        operation.worldAfter host options world) := by
  have hquiet : Sink.IsQuiet (.memory entries) := trivial
  have hkept : (if operation.isClear then Sink.clear (.memory entries) else .memory entries) =
      .memory (if operation.isClear then [] else entries) := by
    split <;> rfl
  rw [perform_of_quiet hquiet, hkept, Sink.takeAll_memory]

/-- A console is never emptied. -/
theorem perform_console (host : Host σ) (options : Options) (blocks : List String)
    (world : World σ) (operation : Operation σ) :
    operation.perform host ⟨options, .console blocks⟩ world =
      (⟨operation.optionsAfter options, .console (blocks ++
        (operation.delivery? host options world).toList.map Delivery.block)⟩,
        operation.worldAfter host options world) := by
  have hquiet : Sink.IsQuiet (.console blocks) := trivial
  have hkept : (if operation.isClear then Sink.clear (.console blocks) else .console blocks) =
      .console blocks := by
    split <;> rfl
  rw [perform_of_quiet hquiet, hkept, Sink.takeAll_console]

end Operation

/-! ## Whole sessions -/

def deliveries (host : Host σ) (options : Options) (world : World σ) :
    List (Operation σ) → List Delivery
  | [] => []
  | operation :: rest =>
      (operation.delivery? host options world).toList ++
        deliveries host (operation.optionsAfter options) (operation.worldAfter host options world)
          rest

namespace Engine

variable {host : Host σ} {options : Options} {world : World σ}

theorem session_append (engine : Engine) (first second : List (Operation σ)) (world : World σ) :
    engine.session host (first ++ second) world =
      let middle := engine.session host first world
      middle.1.session host second middle.2 := by
  rw [session, List.foldlM_append]
  rfl

theorem session_cons (engine : Engine) (operation : Operation σ) (rest : List (Operation σ))
    (world : World σ) : engine.session host (operation :: rest) world =
      let middle := operation.perform host engine world
      middle.1.session host rest middle.2 := by
  rw [session, List.foldlM_cons]
  rfl

/-- A session with a memory sink and one with a console go through the same options and worlds. The
console takes a block for each delivery, and so does the memory an entry while it is not emptied. -/
theorem exists_session (host : Host σ) (operations : List (Operation σ)) (options : Options)
    (world : World σ) : ∃ (lastOptions : Options) (final : World σ),
      (∀ entries, ∃ left, session host ⟨options, .memory entries⟩ operations world =
          (⟨lastOptions, .memory left⟩, final) ∧
        ((∀ operation ∈ operations, operation.isClear = false) →
          left = entries ++ (deliveries host options world operations).map Delivery.entry)) ∧
      ∀ blocks, session host ⟨options, .console blocks⟩ operations world =
        (⟨lastOptions, .console (blocks ++
          (deliveries host options world operations).map Delivery.block)⟩, final) := by
  induction operations generalizing options world with
  | nil =>
    refine ⟨options, world, fun entries ↦ ⟨entries, rfl, ?_⟩, fun blocks ↦ ?_⟩
    · simp [deliveries]
    · simp only [deliveries, List.map_nil, List.append_nil]
      rfl
  | cons operation rest ih =>
    obtain ⟨lastOptions, final, hmemory, hconsole⟩ :=
      ih (operation.optionsAfter options) (operation.worldAfter host options world)
    refine ⟨lastOptions, final, fun entries ↦ ?_, fun blocks ↦ ?_⟩
    · rw [session_cons, operation.perform_memory]
      obtain ⟨left, hsession, hleft⟩ := hmemory _
      refine ⟨left, hsession, fun hkept ↦ ?_⟩
      have hoperation : operation.isClear = false := hkept operation List.mem_cons_self
      rw [hleft fun other mem ↦ hkept other (List.mem_cons_of_mem _ mem), hoperation]
      simp [deliveries]
    · rw [session_cons, operation.perform_console, hconsole]
      simp [deliveries]

end Engine

/-- How the sinks of a session come to what they hold. What a memory sink holds stays in front of
all later entries until it is emptied, whatever happens to the quoted values. With a console the
same session goes through the same options and worlds. -/
structure SessionHistory (host : Host σ) (options : Options) (entries : List Entry)
    (blocks : List String) (world : World σ) (operations : List (Operation σ)) : Prop where
  entries_next : ∀ before operation later, operations = before ++ operation :: later →
    let now := Engine.session host ⟨options, .memory entries⟩ before world
    let next := Engine.session host ⟨options, .memory entries⟩ (before ++ [operation]) world
    let delivered := operation.delivery? host now.1.options now.2
    next.1.sink = .memory ((if operation.isClear then [] else now.1.sink.entries) ++
      delivered.toList.map Delivery.entry) ∧
    next.1.options = operation.optionsAfter now.1.options ∧
    ∀ delivery, delivered = some delivery ↔
      operation.Delivers host now.1.options now.2 delivery
  entries_kept : ∀ before later, operations = before ++ later →
    (∀ operation ∈ later, operation.isClear = false) →
    let now := Engine.session host ⟨options, .memory entries⟩ before world
    (Engine.session host ⟨options, .memory entries⟩ operations world).1.sink =
      .memory (now.1.sink.entries ++
        (deliveries host now.1.options now.2 later).map Delivery.entry)
  console :
    let memory := Engine.session host ⟨options, .memory entries⟩ operations world
    Engine.session host ⟨options, .console blocks⟩ operations world =
      (⟨memory.1.options, .console (blocks ++
        (deliveries host options world operations).map Delivery.block)⟩, memory.2)

/-- The history of a memory sink, and of a console, over any session with one engine. -/
theorem session_history (host : Host σ) (options : Options) (entries : List Entry)
    (blocks : List String) (world : World σ) (operations : List (Operation σ)) :
    SessionHistory host options entries blocks world operations where
  entries_next := by
    intro before operation later _ now next delivered
    obtain ⟨lastOptions, final, hmemory, -⟩ := Engine.exists_session host before options world
    obtain ⟨left, hsession, -⟩ := hmemory entries
    have hnow : now = (⟨lastOptions, .memory left⟩, final) := hsession
    have hnext : next = operation.perform host now.1 now.2 :=
      Engine.session_append _ before [operation] world
    rw [hnow, operation.perform_memory] at hnext
    refine ⟨?_, ?_, fun _ ↦ Operation.delivery_eq_some_iff⟩
    · rw [hnext]
      simp only [delivered, hnow]
      rfl
    · rw [hnext, hnow]
  entries_kept := by
    intro before later hsplit hkept now
    obtain ⟨lastOptions, final, hmemory, -⟩ := Engine.exists_session host before options world
    obtain ⟨left, hsession, -⟩ := hmemory entries
    have hnow : now = (⟨lastOptions, .memory left⟩, final) := hsession
    obtain ⟨lastOptions', final', hmemory', -⟩ :=
      Engine.exists_session host later lastOptions final
    obtain ⟨left', hsession', hleft⟩ := hmemory' left
    rw [hsplit, Engine.session_append, hsession, hsession', hnow, hleft hkept]
    rfl
  console := by
    obtain ⟨lastOptions, final, hmemory, hconsole⟩ :=
      Engine.exists_session host operations options world
    obtain ⟨left, hsession, -⟩ := hmemory entries
    rw [hsession]
    exact hconsole blocks

end RuleCheck
