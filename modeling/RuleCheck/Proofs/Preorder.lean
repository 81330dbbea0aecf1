import RuleCheck.Proofs.Walk

/-!
# Walks list a tree of rules

The visits of a walk, with their depths, list a tree: below a visit stand the visits that follow it
and are deeper, up to the first that is not. Directly below a visit stand the rules that it opened,
in the order in which it opened them, and there are no others. If the walk fails below the visit,
some last ones of them are missing; otherwise all of them are there.
-/

namespace RuleCheck

variable {σ : Type}

namespace Pending

def rulesAt (depth : Nat) (entries : List Pending) : List Value :=
  (entries.filter fun entry ↦ entry.depth == depth).map Pending.rule

/-- The entries below a depth, up to the first that is not. -/
def branch (depth : Nat) (entries : List Pending) : List Pending :=
  entries.takeWhile fun entry ↦ decide (depth < entry.depth)

def Descending (entries : List Pending) : Prop :=
  entries.Pairwise fun left right ↦ right.depth ≤ left.depth

theorem rulesAt_append (depth : Nat) (left right : List Pending) :
    rulesAt depth (left ++ right) = rulesAt depth left ++ rulesAt depth right := by
  simp [rulesAt]

theorem rulesAt_cons_of_eq (entry : Pending) (rest : List Pending) :
    rulesAt entry.depth (entry :: rest) = entry.rule :: rulesAt entry.depth rest := by
  simp [rulesAt]

theorem rulesAt_cons_of_ne {entry : Pending} {depth : Nat} (different : entry.depth ≠ depth)
    (rest : List Pending) : rulesAt depth (entry :: rest) = rulesAt depth rest := by
  simp [rulesAt, different]

theorem rulesAt_map_mk (depth : Nat) (rules : List Value) :
    rulesAt depth (rules.map (Pending.mk depth)) = rules := by
  induction rules with
  | nil => rfl
  | cons rule rest ih =>
    rw [List.map_cons, rulesAt_cons_of_eq ⟨depth, rule⟩, ih]

theorem rulesAt_map_mk_of_ne {depth other : Nat} (different : other ≠ depth)
    (rules : List Value) : rulesAt depth (rules.map (Pending.mk other)) = [] := by
  induction rules with
  | nil => rfl
  | cons rule rest ih => rw [List.map_cons, rulesAt_cons_of_ne different, ih]

theorem branch_append {depth : Nat} {left right : List Pending}
    (below : ∀ entry ∈ left, depth < entry.depth)
    (shallow : ∀ entry ∈ right.head?, entry.depth ≤ depth) :
    branch depth (left ++ right) = left := by
  have hright : branch depth right = [] := by
    cases right with
    | nil => rfl
    | cons entry rest =>
      have hentry : ¬ depth < entry.depth := Nat.not_lt_of_le (shallow entry rfl)
      simp [branch, hentry]
  rw [branch, List.takeWhile_append_of_pos fun entry mem ↦ decide_eq_true (below entry mem)]
  rw [← branch, hright, List.append_nil]

theorem branch_eq_self {depth : Nat} {entries : List Pending}
    (below : ∀ entry ∈ entries, depth < entry.depth) : branch depth entries = entries := by
  have hnone : ∀ entry ∈ ([] : List Pending).head?, entry.depth ≤ depth := by simp
  have happend := branch_append below hnone
  rwa [List.append_nil] at happend

/-- Rules that are opened go one level down, so the agenda stays in order. -/
theorem Descending.open {pending : Pending} {agenda : List Pending}
    (descending : Descending (pending :: agenda)) (rules : List Value) :
    Descending (rules.map (Pending.mk (pending.depth + 1)) ++ agenda) := by
  obtain ⟨hagenda, hdescending⟩ := List.pairwise_cons.1 descending
  refine List.pairwise_append.2 ⟨?_, hdescending, ?_⟩
  · rw [List.pairwise_map]
    exact List.pairwise_of_forall fun _ _ ↦ Nat.le_refl _
  · intro opened mem entry hentry
    obtain ⟨rule, -, rfl⟩ := List.mem_map.1 mem
    exact Nat.le_succ_of_le (hagenda entry hentry)

end Pending

namespace Walk

open Pending (rulesAt branch Descending)

variable {host : Host σ} {options : Options} {caller : Option String} {agenda : List Pending}
  {world final : World σ} {visits : List (Visit σ)} {outcome : Outcome}

/-- A walk begins with the first rule of its agenda. -/
theorem head_visited (walk : Walk host options caller agenda world visits outcome final) :
    (visits.map Visit.toPending).head? = agenda.head? := by
  cases walk <;> rfl

/-- A walk stays below a depth that its whole agenda is below. -/
theorem depth_lt (walk : Walk host options caller agenda world visits outcome final) {depth : Nat}
    (below : ∀ pending ∈ agenda, depth < pending.depth) :
    ∀ visit ∈ visits, depth < visit.depth := by
  refine walk.forall_visited (fun pending ↦ depth < pending.depth) ?_ below
  intro pending world rules hpending _ rule _
  exact Nat.lt_succ_of_lt hpending

/-- At the least depth of the agenda, the rules visited are the first ones of those on the agenda,
and all of them if nothing failed. -/
theorem rulesAt_visited (walk : Walk host options caller agenda world visits outcome final)
    {depth : Nat} (least : ∀ pending ∈ agenda, depth ≤ pending.depth) :
    rulesAt depth (visits.map Visit.toPending) <+: rulesAt depth agenda ∧
    (outcome = .ok () → rulesAt depth (visits.map Visit.toPending) = rulesAt depth agenda) := by
  induction walk with
  | done => exact ⟨List.prefix_refl _, fun _ ↦ rfl⟩
  | @fail pending world failure agenda failed =>
    refine ⟨?_, fun hok ↦ by simp at hok⟩
    change rulesAt depth ([pending] ++ []) <+: rulesAt depth ([pending] ++ agenda)
    rw [Pending.rulesAt_append, Pending.rulesAt_append]
    exact List.prefix_append_right_inj _ |>.2 List.nil_prefix
  | @step pending agenda world final rules visits outcome opens rest ih =>
    have hpending : depth ≤ pending.depth := least pending List.mem_cons_self
    have hopened : rulesAt depth (rules.map (Pending.mk (pending.depth + 1)) ++ agenda) =
        rulesAt depth agenda := by
      rw [Pending.rulesAt_append, Pending.rulesAt_map_mk_of_ne (by omega), List.nil_append]
    have hbelow : ∀ rule ∈ rules, depth ≤ (Pending.mk (pending.depth + 1) rule).depth :=
      fun _ _ ↦ Nat.le_succ_of_le hpending
    obtain ⟨hleading, hequal⟩ := ih (forall_waiting hbelow least)
    rw [hopened] at hleading hequal
    have hvisits : ((pending.visit host options caller world) :: visits).map Visit.toPending =
        [pending] ++ visits.map Visit.toPending := rfl
    have hagenda : pending :: agenda = [pending] ++ agenda := rfl
    rw [hvisits, hagenda, Pending.rulesAt_append, Pending.rulesAt_append]
    exact ⟨(List.prefix_append_right_inj _).2 hleading, fun hok ↦ by rw [hequal hok]⟩

/-- What follows a visit that opened rules: directly below it, the first ones of these rules, and all
of them once the walk has left the branch. -/
theorem opened_visited_of_step {depth : Nat} {rules : List Value}
    (walk : Walk host options caller (rules.map (Pending.mk (depth + 1)) ++ agenda) world visits
      outcome final)
    (shallow : ∀ pending ∈ agenda, pending.depth ≤ depth) :
    let below := rulesAt (depth + 1) (branch depth (visits.map Visit.toPending))
    below <+: rules ∧
    ((outcome = .ok () ∨ ∃ later ∈ visits, later.depth ≤ depth) → below = rules) := by
  have hopened : ∀ entry ∈ rules.map (Pending.mk (depth + 1)), depth + 1 ≤ entry.depth := by
    intro entry hentry
    obtain ⟨rule, -, rfl⟩ := List.mem_map.1 hentry
    exact Nat.le_refl _
  have hbelow {left : List (Visit σ)} {result : Outcome} {middle : World σ}
      (hleft : Walk host options caller (rules.map (Pending.mk (depth + 1))) world left result
        middle) : ∀ entry ∈ left.map Visit.toPending, depth < entry.depth := by
    intro entry hentry
    obtain ⟨visit, hvisit, rfl⟩ := List.mem_map.1 hentry
    exact hleft.depth_lt (fun pending mem ↦ hopened pending mem) visit hvisit
  rcases walk.split with ⟨left, right, middle, rfl, hleft, hright⟩ | ⟨failure, rfl, hleft⟩
  · have hhead : ∀ entry ∈ (right.map Visit.toPending).head?, entry.depth ≤ depth := by
      intro entry hentry
      rw [hright.head_visited] at hentry
      exact shallow entry (List.mem_of_mem_head? hentry)
    have hall := (hleft.rulesAt_visited hopened).2 rfl
    rw [Pending.rulesAt_map_mk] at hall
    rw [List.map_append, Pending.branch_append (hbelow hleft) hhead, hall]
    exact ⟨List.prefix_refl _, fun _ ↦ rfl⟩
  · have hleading := (hleft.rulesAt_visited hopened).1
    rw [Pending.rulesAt_map_mk] at hleading
    rw [Pending.branch_eq_self (hbelow hleft)]
    refine ⟨hleading, ?_⟩
    rintro (hok | ⟨later, hlater, hshallow⟩)
    · simp at hok
    · have := hbelow hleft later.toPending (List.mem_map_of_mem hlater)
      exact absurd hshallow (Nat.not_le_of_lt this)

/-- Directly below each visit stand the rules that it opened, in order. -/
theorem opened_visited (walk : Walk host options caller agenda world visits outcome final)
    (descending : Descending agenda) {front rest : List (Visit σ)} {visit : Visit σ}
    (position : visits = front ++ visit :: rest) :
    let below := rulesAt (visit.depth + 1) (branch visit.depth (rest.map Visit.toPending))
    below <+: visit.opened ∧
    ((outcome = .ok () ∨ ∃ later ∈ rest, later.depth ≤ visit.depth) → below = visit.opened) := by
  induction walk generalizing front with
  | done => simp at position
  | @fail pending world failure agenda failed =>
    obtain ⟨rfl, rfl, rfl⟩ : front = [] ∧ _ ∧ rest = [] := by
      rcases List.singleton_eq_append_iff.1 position with ⟨hfront, htail⟩ | ⟨-, htail⟩
      · exact ⟨hfront, List.cons.inj htail⟩
      · simp at htail
    refine ⟨List.nil_prefix, ?_⟩
    rintro (hok | ⟨later, hlater, -⟩)
    · simp at hok
    · simp at hlater
  | @step pending agenda world final rules visits outcome opens walk ih =>
    cases front with
    | nil =>
      obtain ⟨rfl, rfl⟩ := List.cons.inj position
      rw [Visit.opened_of_next_ok opens]
      exact walk.opened_visited_of_step (List.pairwise_cons.1 descending).1
    | cons first others =>
      exact ih (descending.open rules) (List.cons.inj position).2

end Walk

end RuleCheck
