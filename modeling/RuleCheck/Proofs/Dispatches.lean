import RuleCheck.Proofs.Preorder
import RuleCheck.Proofs.Production

/-!
# What an observer is told of a check

An observer is told of every rule that is about to be evaluated, with its shape and its depth, and at
the end of a failure, if there is one. Calls are not told.

The rules that are told list a tree in preorder: a rule at a positive depth stands below the last
rule before it that is one level up. Functions and guards have at most one rule below them, and
literals, empty lists and simple rules have none. A rule that was refused is not told, and nothing
follows it, so it leaves no gap in the list.
-/

namespace RuleCheck

variable {σ : Type}

/-- A rule is about to be evaluated, with so many rules around it as its depth says. -/
structure Dispatch where
  shape : ShapeName
  depth : Nat

def Dispatch.notice (dispatch : Dispatch) : Notice :=
  ⟨.trace, "evaluating rule",
    [("shape", dispatch.shape.text), ("depth", toString dispatch.depth)]⟩

def Event.dispatch? : Event → Option Dispatch
  | .evaluating shape depth => some ⟨shape, depth⟩
  | _ => none

def Visit.dispatch? (visit : Visit σ) : Option Dispatch :=
  visit.finding.shape?.map fun shape ↦ ⟨shape.name, visit.depth⟩

/-- What an observer is told at the end of a check: why the rule failed, or that a literal `false`
was met. -/
def Engine.closingNotices (label : Option String) (store : Store) : Outcome → List Notice
  | .ok () => []
  | .error .rejected =>
      [⟨.debug, "rule rejected by a literal false", [("label", labelText label)]⟩]
  | .error (.diagnosed diagnostic) =>
      [⟨.debug, "rule failed",
        [("label", labelText label), ("diagnostic", diagnostic.render store)]⟩]

namespace Dispatch

/-- Of the dispatches that follow one at a depth, those directly below it: one level down, before
any that is not below it. -/
def children (depth : Nat) (later : List Dispatch) : List Dispatch :=
  (later.takeWhile fun entry ↦ decide (depth < entry.depth)).filter
    fun entry ↦ entry.depth == depth + 1

/-- Dispatches in the preorder of a tree of rules. Below the one root each rule stands below the
last one before it that is one level up, and in between nothing is on that level or above it. -/
structure InPreorder (trace : List Dispatch) : Prop where
  root : ∀ first rest, trace = first :: rest →
    first.depth = 0 ∧ ∀ later ∈ rest, later.depth ≠ 0
  parent : ∀ front entry rest depth, trace = front ++ entry :: rest → entry.depth = depth + 1 →
    ∃ before parent between, front = before ++ parent :: between ∧ parent.depth = depth ∧
      (∀ other ∈ between, depth < other.depth) ∧
      (parent.shape = .function ∨ parent.shape = .guard ∨ parent.shape = .list)
  single : ∀ front entry rest, trace = front ++ entry :: rest →
    entry.shape = .function ∨ entry.shape = .guard → (children entry.depth rest).length ≤ 1
  leaf : ∀ front entry rest, trace = front ++ entry :: rest →
    entry.shape = .boolean ∨ entry.shape = .empty ∨ entry.shape = .simple ∨
      entry.shape = .malformed → children entry.depth rest = []

end Dispatch

theorem Visit.depth_of_dispatch {visit : Visit σ} {entry : Dispatch}
    (dispatched : visit.dispatch? = some entry) : entry.depth = visit.depth := by
  obtain ⟨shape, -, rfl⟩ := Option.map_eq_some_iff.1 dispatched
  rfl

/-- An observer is told of dispatches and not of calls. -/
theorem Event.notice_of_isStep {event : Event} (step : event.isStep = true) :
    event.notice? = event.dispatch?.map Dispatch.notice := by
  cases event with
  | evaluating | called | judged | tested => rfl
  | failed | rejected | channelRefused | delivered => cases step

namespace Finding

variable {finding : Finding} {depth : Nat} {events : List Event}

/-- All that a visit adds to the journal are steps. -/
theorem isStep_of_records (records : finding.Records depth events) :
    ∀ event ∈ events, event.isStep = true := by
  cases finding with
  | tooDeep | invalid =>
    obtain rfl : events = [] := records
    simp
  | decoded shape next =>
    obtain ⟨calls, rfl, hmakes⟩ := records
    intro event mem
    rcases List.mem_cons.1 mem with rfl | mem
    · rfl
    · rw [Event.isStep, Shape.isCall_of_makes hmakes event mem, Bool.true_or]

/-- A visit announces one dispatch if the rule was decoded, and otherwise none. -/
theorem dispatches_of_records (records : finding.Records depth events) :
    events.filterMap Event.dispatch? =
      (finding.shape?.map fun shape ↦ Dispatch.mk shape.name depth).toList := by
  cases finding with
  | tooDeep | invalid =>
    obtain rfl : events = [] := records
    rfl
  | decoded shape next =>
    obtain ⟨calls, rfl, hmakes⟩ := records
    have hsilent : calls.filterMap Event.dispatch? = [] := by
      rw [List.filterMap_eq_nil_iff]
      intro event mem
      have hcall := Shape.isCall_of_makes hmakes event mem
      cases event with
      | called | judged | tested => rfl
      | evaluating | failed | rejected | channelRefused | delivered => cases hcall
    simp only [List.filterMap_cons, hsilent]
    rfl

end Finding

namespace Walk

variable {host : Host σ} {options : Options} {caller : Option String} {agenda : List Pending}
  {world final : World σ} {visits front rest : List (Visit σ)} {visit : Visit σ}
  {outcome : Outcome}

/-- The dispatches that a walk announces are those of its visits. -/
theorem dispatches_eq (walk : Walk host options caller agenda world visits outcome final) :
    (visits.flatMap Visit.events).filterMap Event.dispatch? =
      visits.filterMap Visit.dispatch? := by
  rw [List.filterMap_flatMap, List.filterMap_eq_flatMap_toList]
  refine List.flatMap_congr fun visit mem ↦ ?_
  rw [Finding.dispatches_of_records (walk.records mem)]
  rfl

/-- A walk tells of its dispatches. -/
theorem notices_eq (walk : Walk host options caller agenda world visits outcome final) :
    (visits.flatMap Visit.events).filterMap Event.notice? =
      (visits.filterMap Visit.dispatch?).map Dispatch.notice := by
  rw [← walk.dispatches_eq, List.map_filterMap]
  refine List.filterMap_congr fun event mem ↦ ?_
  obtain ⟨visit, hvisit, hevent⟩ := List.mem_flatMap.1 mem
  exact Event.notice_of_isStep (Finding.isStep_of_records (walk.records hvisit) event hevent)

/-- Nothing follows a rule that was not decoded. -/
theorem rest_eq_nil_of_dispatch_eq_none
    (walk : Walk host options caller agenda world visits outcome final)
    (position : visits = front ++ visit :: rest) (undecoded : visit.dispatch? = none) :
    rest = [] := by
  obtain ⟨failure, hfails⟩ :=
    Finding.next_of_shape_eq_none (Option.map_eq_none_iff.1 undecoded)
  exact walk.rest_eq_nil_of_failed position (Visit.failure_of_next_error hfails)

end Walk

/-- How many rules a rule of a shape can open, if there is a bound. -/
def ShapeName.mostOpened? : ShapeName → Option Nat
  | .list => none
  | .function => some 1
  | .guard => some 1
  | _ => some 0

/-- What a rule of a shape opens by itself. -/
theorem Shape.length_le_of_enter {host : Host σ} {caller : Option String} {rule : Value}
    {shape : Shape} {world : World σ} {rules : List Value} {most : Nat}
    (opens : (shape.enter host caller rule world).1 = .ok rules)
    (bounded : shape.name.mostOpened? = some most) : rules.length ≤ most := by
  cases shape with
  | boolean result =>
    cases result with
    | true => cases opens; exact Nat.zero_le _
    | false => cases opens
  | function callee => cases opens; cases bounded; exact Nat.le_refl _
  | empty => cases opens; exact Nat.zero_le _
  | guard condition rules =>
    cases opens
    cases bounded
    cases condition <;> simp
  | list rules => cases bounded
  | simple simpleRule =>
    simp only [enter, Run.bind_apply] at opens
    generalize simpleRule.evaluate host caller world = result at opens
    obtain ⟨outcome, after⟩ := result
    cases outcome with
    | ok => cases opens; exact Nat.zero_le _
    | error diagnostic => cases opens
  | malformed => cases opens

namespace Pending

open Dispatch (children)

/-- There are at most as many dispatches directly below a visit as visits. -/
theorem length_children_le {later : List (Visit σ)} (depth : Nat)
    (last : ∀ front visit rest, later = front ++ visit :: rest → visit.dispatch? = none → rest = []) :
    (children depth (later.filterMap Visit.dispatch?)).length ≤
      (rulesAt (depth + 1) (branch depth (later.map Visit.toPending))).length := by
  induction later with
  | nil => exact Nat.zero_le _
  | cons visit rest ih =>
    have hrest := ih fun front other rest' position ↦
      last (visit :: front) other rest' (congrArg (visit :: ·) position)
    cases hdispatch : visit.dispatch? with
    | none =>
      obtain rfl := last [] visit rest rfl hdispatch
      simp [hdispatch, children]
    | some entry =>
      obtain ⟨shape, -, rfl⟩ := Option.map_eq_some_iff.1 hdispatch
      rw [List.filterMap_cons_some hdispatch, List.map_cons]
      simp only [children, branch, rulesAt, List.length_map] at hrest ⊢
      by_cases hbelow : depth < visit.depth
      · rw [List.takeWhile_cons_of_pos (by simpa using hbelow),
          List.takeWhile_cons_of_pos (by simpa using hbelow)]
        by_cases hchild : visit.depth = depth + 1
        · simpa [hchild] using hrest
        · simpa [hchild] using hrest
      · rw [List.takeWhile_cons_of_neg (by simpa using hbelow)]
        exact Nat.zero_le _

end Pending

namespace Walk

open Pending (rulesAt branch Descending)
open Dispatch (children)

variable {host : Host σ} {options : Options} {caller : Option String} {agenda : List Pending}
  {world final : World σ} {visits front rest : List (Visit σ)} {visit : Visit σ}
  {outcome : Outcome}

/-- A visit is that of a rule on the agenda, and then nothing before it is above its level, or it is
that of a rule that the last visit one level up opened. -/
theorem exists_parent (walk : Walk host options caller agenda world visits outcome final)
    (descending : Descending agenda) (position : visits = front ++ visit :: rest) :
    ((∃ pending ∈ agenda, pending.depth = visit.depth) ∧
      ∀ earlier ∈ front, visit.depth ≤ earlier.depth) ∨
    ∃ before parent between, front = before ++ parent :: between ∧
      visit.depth = parent.depth + 1 ∧ (∀ other ∈ between, parent.depth < other.depth) ∧
      parent.opened ≠ [] := by
  induction walk generalizing front with
  | done => simp at position
  | @fail pending world failure agenda failed =>
    rcases List.singleton_eq_append_iff.1 position with ⟨rfl, htail⟩ | ⟨-, htail⟩
    · obtain ⟨rfl, -⟩ := List.cons.inj htail
      exact .inl ⟨⟨pending, List.mem_cons_self, rfl⟩, by simp⟩
    · simp at htail
  | @step pending agenda world final rules visits outcome opens walk ih =>
    cases front with
    | nil =>
      obtain ⟨rfl, -⟩ := List.cons.inj position
      exact .inl ⟨⟨pending, List.mem_cons_self, rfl⟩, by simp⟩
    | cons first others =>
      obtain ⟨rfl, hposition⟩ := List.cons.inj position
      rcases ih (descending.open rules) hposition with
        ⟨⟨entry, hentry, hdepth⟩, hothers⟩ | ⟨before, parent, between, rfl, hparent⟩
      · rcases List.mem_append.1 hentry with hentry | hentry
        · -- The rule was opened by the first visit, and nothing left its branch since.
          obtain ⟨rule, hrule, rfl⟩ := List.mem_map.1 hentry
          refine .inr ⟨[], _, others, rfl, hdepth.symm, ?_, ?_⟩
          · intro other mem
            exact Nat.lt_of_lt_of_le (Nat.lt_of_lt_of_eq (Nat.lt_succ_self _) hdepth)
              (hothers other mem)
          · rw [Visit.opened_of_next_ok opens]
            exact List.ne_nil_of_mem hrule
        · refine .inl ⟨⟨entry, List.mem_cons_of_mem _ hentry, hdepth⟩, ?_⟩
          intro earlier mem
          rcases List.mem_cons.1 mem with rfl | mem
          · exact hdepth ▸ (List.pairwise_cons.1 descending).1 entry hentry
          · exact hothers earlier mem
      · exact .inr ⟨_ :: before, parent, between, rfl, hparent⟩

/-- A walk from one rule goes below it and stays there. -/
theorem depth_lt_of_mem_tail {depth : Nat} {rule : Value}
    (walk : Walk host options caller [⟨depth, rule⟩] world visits outcome final) :
    ∀ later ∈ visits.tail, depth < later.depth := by
  cases walk with
  | fail => simp
  | @step _ _ _ _ rules _ _ opens walk =>
    refine walk.depth_lt fun pending hpending ↦ ?_
    rw [List.append_nil] at hpending
    obtain ⟨opened, -, rfl⟩ := List.mem_map.1 hpending
    exact Nat.lt_succ_self depth

/-- A rule that was decoded lies within the limit and did what its shape does. -/
theorem entered (walk : Walk host options caller agenda world visits outcome final)
    (mem : visit ∈ visits) {shape : Shape} (decoded : visit.finding.shape? = some shape) :
    visit.depth ≤ options.maxDepth ∧
      shape = Shape.ofValue visit.before.store visit.rule ∧
      visit.finding.next =
        (shape.enter host caller visit.rule (visit.toPending.noticed visit.before shape)).1 := by
  rw [walk.visit_eq mem] at decoded ⊢
  cases hfound : (visit.toPending.visit host options caller visit.before).finding with
  | tooDeep | invalid => rw [hfound] at decoded; cases decoded
  | decoded found next =>
    rw [hfound] at decoded
    obtain rfl : found = shape := Option.some.inj decoded
    obtain ⟨hwithin, -, hshape, henter⟩ := Pending.visit_of_decoded hfound
    exact ⟨hwithin, hshape, (congrArg Prod.fst henter).symm⟩

/-- A visit that opened rules was decoded, and there are no more of them than its shape allows. -/
theorem opened_length_le (walk : Walk host options caller agenda world visits outcome final)
    (mem : visit ∈ visits) {entry : Dispatch} (dispatched : visit.dispatch? = some entry)
    {most : Nat} (bounded : entry.shape.mostOpened? = some most) : visit.opened.length ≤ most := by
  obtain ⟨shape, hshape, rfl⟩ := Option.map_eq_some_iff.1 dispatched
  obtain ⟨-, -, hnext⟩ := walk.entered mem hshape
  rw [Visit.opened, hnext]
  split
  · next hopens => exact Shape.length_le_of_enter hopens bounded
  · exact Nat.zero_le _

/-- A visit that opened rules was decoded. -/
theorem exists_dispatch_of_opened
    (walk : Walk host options caller agenda world visits outcome final) (mem : visit ∈ visits)
    (nonempty : visit.opened ≠ []) : ∃ entry, visit.dispatch? = some entry ∧
      entry.depth = visit.depth ∧
      (entry.shape = .function ∨ entry.shape = .guard ∨ entry.shape = .list) := by
  cases hdispatch : visit.dispatch? with
  | none =>
    obtain ⟨failure, hfails⟩ :=
      Finding.next_of_shape_eq_none (Option.map_eq_none_iff.1 hdispatch)
    exact absurd (by simp [Visit.opened, hfails]) nonempty
  | some entry =>
    have hbound (most : Nat) (bounded : entry.shape.mostOpened? = some most) :=
      walk.opened_length_le mem hdispatch bounded
    have hpositive := List.length_pos_iff.2 nonempty
    obtain ⟨shape, -, rfl⟩ := Option.map_eq_some_iff.1 hdispatch
    refine ⟨_, rfl, rfl, ?_⟩
    generalize shape.name = name at hbound
    cases name with
    | function | guard | list => simp
    | _ => exact absurd (hbound 0 rfl) (Nat.not_le_of_lt hpositive)

/-! ## The trace of a walk -/

/-- A position among the dispatches is one among the visits. -/
theorem exists_position {later : List (Visit σ)} {front rest : List Dispatch} {entry : Dispatch}
    (position : later.filterMap Visit.dispatch? = front ++ entry :: rest) :
    ∃ earlier visit following, later = earlier ++ visit :: following ∧
      earlier.filterMap Visit.dispatch? = front ∧ visit.dispatch? = some entry ∧
      following.filterMap Visit.dispatch? = rest := by
  obtain ⟨first, second, rfl, hfirst, hsecond⟩ := List.filterMap_eq_append_iff.1 position
  obtain ⟨skipped, visit, following, rfl, hskipped, hvisit, hfollowing⟩ :=
    List.filterMap_eq_cons_iff.1 hsecond
  refine ⟨first ++ skipped, visit, following, by simp, ?_, hvisit, hfollowing⟩
  rw [List.filterMap_append, hfirst, List.filterMap_eq_nil_iff.2 hskipped, List.append_nil]

/-- There are no more dispatches directly below one than its shape allows. -/
theorem length_children_le (walk : Walk host options caller agenda world visits outcome final)
    (descending : Descending agenda) {front rest : List Dispatch} {entry : Dispatch}
    (position : visits.filterMap Visit.dispatch? = front ++ entry :: rest) {most : Nat}
    (bounded : entry.shape.mostOpened? = some most) : (children entry.depth rest).length ≤ most := by
  obtain ⟨earlier, visit, following, hvisits, -, hdispatch, rfl⟩ := exists_position position
  have hdepth := Visit.depth_of_dispatch hdispatch
  have hmem : visit ∈ visits := by simp [hvisits]
  have hlast (before : List (Visit σ)) (other : Visit σ) (after : List (Visit σ))
      (hfollowing : following = before ++ other :: after) (undecoded : other.dispatch? = none) :
      after = [] := by
    have hposition : visits = (earlier ++ visit :: before) ++ other :: after := by
      rw [hvisits, hfollowing, List.append_assoc, List.cons_append]
    exact walk.rest_eq_nil_of_dispatch_eq_none hposition undecoded
  calc
    (children entry.depth (following.filterMap Visit.dispatch?)).length
      ≤ (rulesAt (visit.depth + 1) (branch visit.depth (following.map Visit.toPending))).length :=
        hdepth ▸ Pending.length_children_le visit.depth hlast
    _ ≤ visit.opened.length := (walk.opened_visited descending hvisits).1.length_le
    _ ≤ most := walk.opened_length_le hmem hdispatch bounded

/-- In a walk from one rule a dispatch at a positive depth stands below the last one before it that
is one level up. -/
theorem exists_above {rule : Value}
    (walk : Walk host options caller [⟨0, rule⟩] world visits outcome final)
    {front rest : List Dispatch} {entry : Dispatch} {depth : Nat}
    (position : visits.filterMap Visit.dispatch? = front ++ entry :: rest)
    (below : entry.depth = depth + 1) :
    ∃ before parent between, front = before ++ parent :: between ∧ parent.depth = depth ∧
      (∀ other ∈ between, depth < other.depth) ∧
      (parent.shape = .function ∨ parent.shape = .guard ∨ parent.shape = .list) := by
  obtain ⟨earlier, visit, following, hvisits, rfl, hdispatch, -⟩ := exists_position position
  rw [Visit.depth_of_dispatch hdispatch] at below
  rcases walk.exists_parent (List.pairwise_singleton _ _) hvisits with
    ⟨⟨pending, hpending, hroot⟩, -⟩ | ⟨before, parent, between, rfl, hone, hbetween, hopened⟩
  · obtain rfl := List.mem_singleton.1 hpending
    exact absurd (hroot.trans below) (Nat.succ_ne_zero depth).symm
  · obtain rfl : parent.depth = depth := Nat.succ.inj (hone.symm.trans below)
    have hmem : parent ∈ visits := by simp [hvisits]
    obtain ⟨above, habove, hlevel, hshape⟩ := walk.exists_dispatch_of_opened hmem hopened
    refine ⟨before.filterMap Visit.dispatch?, above, between.filterMap Visit.dispatch?, ?_,
      hlevel, ?_, hshape⟩
    · rw [List.filterMap_append, List.filterMap_cons_some habove]
    · intro other mem
      obtain ⟨visited, hvisited, hother⟩ := List.mem_filterMap.1 mem
      exact Visit.depth_of_dispatch hother ▸ hbetween visited hvisited

/-- A walk from one rule dispatches it first, and nothing else on its level. -/
theorem single_root {rule : Value}
    (walk : Walk host options caller [⟨0, rule⟩] world visits outcome final) {first : Dispatch}
    {rest : List Dispatch} (trace : visits.filterMap Visit.dispatch? = first :: rest) :
    first.depth = 0 ∧ ∀ later ∈ rest, later.depth ≠ 0 := by
  have hposition : visits.filterMap Visit.dispatch? = [] ++ first :: rest := trace
  constructor
  · -- Below the first level there would be a parent, but nothing stands before it.
    cases hlevel : first.depth with
    | zero => rfl
    | succ depth =>
      obtain ⟨before, parent, between, hfront, -⟩ := walk.exists_above hposition hlevel
      simp at hfront
  · intro later hlater
    obtain ⟨earlier, visit, following, hvisits, -, -, rfl⟩ := exists_position hposition
    obtain ⟨visited, hvisited, hdispatch⟩ := List.mem_filterMap.1 hlater
    have htail : visited ∈ visits.tail := by
      rw [hvisits]
      cases earlier with
      | nil => exact hvisited
      | cons => exact List.mem_append_right _ (List.mem_cons_of_mem _ hvisited)
    have hbelow := walk.depth_lt_of_mem_tail visited htail
    exact Visit.depth_of_dispatch hdispatch ▸ Nat.ne_of_gt hbelow

/-- The dispatches of a walk from one rule list a tree of rules. -/
theorem inPreorder {rule : Value}
    (walk : Walk host options caller [⟨0, rule⟩] world visits outcome final) :
    Dispatch.InPreorder (visits.filterMap Visit.dispatch?) where
  root _ _ := walk.single_root
  parent _ _ _ _ := walk.exists_above
  single front entry rest position shape := by
    refine walk.length_children_le (List.pairwise_singleton _ _) position ?_
    rcases shape with hshape | hshape <;> rw [hshape] <;> rfl
  leaf front entry rest position shape := by
    refine List.length_eq_zero_iff.1 (Nat.le_zero.1
      (walk.length_children_le (List.pairwise_singleton _ _) position ?_))
    rcases shape with hshape | hshape | hshape | hshape <;> rw [hshape] <;> rfl

/-- No dispatch lies deeper than the limit. -/
theorem depth_le_of_dispatch (walk : Walk host options caller agenda world visits outcome final)
    {entry : Dispatch} (mem : entry ∈ visits.filterMap Visit.dispatch?) :
    entry.depth ≤ options.maxDepth := by
  obtain ⟨visit, hvisit, hdispatch⟩ := List.mem_filterMap.1 mem
  obtain ⟨shape, hshape, rfl⟩ := Option.map_eq_some_iff.1 hdispatch
  exact (walk.entered hvisit hshape).1

/-- What is malformed is announced only in production, and nothing is announced after it. -/
theorem malformed_last (walk : Walk host options caller agenda world visits outcome final)
    {front rest : List Dispatch} {entry : Dispatch}
    (position : visits.filterMap Visit.dispatch? = front ++ entry :: rest)
    (malformed : entry.shape = .malformed) : options.production = true ∧ rest = [] := by
  obtain ⟨earlier, visit, following, rfl, -, hdispatch, rfl⟩ := exists_position position
  obtain ⟨shape, hshape, rfl⟩ := Option.map_eq_some_iff.1 hdispatch
  obtain rfl : shape = .malformed := by
    cases shape with
    | malformed => rfl
    | _ => cases malformed
  have hmem : visit ∈ earlier ++ visit :: following := by simp
  obtain ⟨-, -, hnext⟩ := walk.entered hmem hshape
  constructor
  · rw [walk.visit_eq hmem] at hshape
    exact Bool.of_not_eq_false fun outside ↦ Pending.shape_visit_ne_malformed outside hshape
  · rw [walk.rest_eq_nil_of_failed rfl (Visit.failure_of_next_error hnext)]
    rfl

end Walk

theorem Engine.notices_closingEvent (label : Option String) (store : Store) (outcome : Outcome) :
    (closingEvent? store label outcome).toList.filterMap Event.notice? =
      closingNotices label store outcome := by
  rcases outcome with (_ | _) | _ <;> rfl

theorem Engine.dispatches_closingEvent (label : Option String) (store : Store) (outcome : Outcome) :
    (closingEvent? store label outcome).toList.filterMap Event.dispatch? = [] := by
  rcases outcome with (_ | _) | _ <;> rfl

/-- During a check an observer is told of the dispatches, which list the rules that were evaluated
in the preorder of their tree, and then why the check failed, if it did. No dispatch lies below the
limit. What is malformed is dispatched only in production, and then last. -/
theorem check_notices (host : Host σ) (engine : Engine) (label : Option String) (rule : Value)
    (world : World σ) :
    let checked := engine.check host label rule world
    ∃ added : List Event,
      checked.2.journal.toList = world.journal.toList ++ added ∧
      let trace := added.filterMap Event.dispatch?
      added.filterMap Event.notice? =
        trace.map Dispatch.notice ++ Engine.closingNotices label checked.2.store checked.1 ∧
      Dispatch.InPreorder trace ∧
      (∀ entry ∈ trace, entry.depth ≤ engine.options.maxDepth) ∧
      ∀ front entry rest, trace = front ++ entry :: rest → entry.shape = .malformed →
        engine.options.production = true ∧ rest = [] := by
  obtain ⟨visits, outcome, final, hwalk, hcheck⟩ := engine.exists_walk host label rule world
  let closing := (Engine.closingEvent? final.store label outcome).toList
  have htrace : (visits.flatMap Visit.events ++ closing).filterMap Event.dispatch? =
      visits.filterMap Visit.dispatch? := by
    rw [List.filterMap_append, hwalk.dispatches_eq, Engine.dispatches_closingEvent,
      List.append_nil]
  refine ⟨visits.flatMap Visit.events ++ closing, ?_, ?_⟩
  · rw [hcheck, Engine.journal_close, hwalk.journal_eq, List.append_assoc]
  · rw [htrace, hcheck]
    refine ⟨?_, hwalk.inPreorder, fun entry ↦ hwalk.depth_le_of_dispatch,
      fun front entry rest ↦ hwalk.malformed_last⟩
    rw [List.filterMap_append, hwalk.notices_eq, Engine.notices_closingEvent, Engine.store_close]

end RuleCheck
