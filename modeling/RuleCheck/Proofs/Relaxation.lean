import RuleCheck.Proofs.Walk

/-!
# Walks under stricter and laxer options

Some options refuse what others let through: a smaller limit refuses deeper rules, and outside
production rules of a wrong form are refused. A refusal is the last thing that happens in a walk. So
the walk under the stricter options either refuses nothing and is the walk under the laxer ones, or
it is cut off by a refusal, and up to there the two agree.
-/

namespace RuleCheck

variable {σ : Type}

/-- The closing event of an evaluation is not a step. -/
@[simp] theorem Engine.steps_close (label : Option String) (outcome : Outcome) (world : World σ) :
    (close label outcome world).steps = world.steps := by
  rcases outcome with (_ | diagnostic) | _
  · exact world.steps_record rfl
  · exact world.steps_record rfl
  · rfl

namespace Finding

/-- A rule that was not decoded fails. -/
theorem next_of_shape_eq_none {finding : Finding} (undecoded : finding.shape? = none) :
    ∃ failure, finding.next = .error failure := by
  cases finding with
  | tooDeep failure => exact ⟨failure, rfl⟩
  | invalid failure => exact ⟨failure, rfl⟩
  | decoded => simp [shape?] at undecoded

/-- A rule that was not decoded leaves no record. -/
theorem events_of_shape_eq_none {finding : Finding} {depth : Nat} {events : List Event}
    (undecoded : finding.shape? = none) (records : finding.Records depth events) : events = [] := by
  cases finding with
  | tooDeep => exact records
  | invalid => exact records
  | decoded => simp [shape?] at undecoded

theorem shape_eq_none_of_isTooDeep {finding : Finding} (deep : finding.isTooDeep = true) :
    finding.shape? = none := by
  cases finding <;> simp_all [isTooDeep, shape?]

theorem shape_eq_none_of_isInvalid {finding : Finding} (invalid : finding.isInvalid = true) :
    finding.shape? = none := by
  cases finding <;> simp_all [isInvalid, shape?]

end Finding

/-- The lax options differ from the strict ones only for rules that the strict ones cut off. -/
structure Relaxes (host : Host σ) (caller : Option String) (cut : Finding → Bool)
    (strict lax : Options) : Prop where
  undecoded : ∀ finding, cut finding = true → finding.shape? = none
  same : ∀ (pending : Pending) (world : World σ),
    cut (pending.visit host strict caller world).finding = false →
      pending.visit host lax caller world = pending.visit host strict caller world

namespace Walk

variable {host : Host σ} {caller : Option String} {cut : Finding → Bool} {strict lax : Options}
  {agenda : List Pending} {world final final' : World σ} {visits visits' : List (Visit σ)}
  {outcome outcome' : Outcome}

/-- Either nothing is cut off and the walks are the same, or the strict walk is cut off at its last
visit and the visits before it begin the lax walk. -/
theorem compare (relaxes : Relaxes host caller cut strict lax)
    (walk : Walk host strict caller agenda world visits outcome final)
    (other : Walk host lax caller agenda world visits' outcome' final') :
    ((∀ visit ∈ visits, cut visit.finding = false) ∧
      visits' = visits ∧ outcome' = outcome ∧ final' = final) ∨
    ∃ front last rest, visits = front ++ [last] ∧ cut last.finding = true ∧
      (∃ failure, outcome = .error failure) ∧ visits' = front ++ rest := by
  induction walk generalizing visits' with
  | done => cases other; exact .inl ⟨by simp, rfl, rfl, rfl⟩
  | @fail pending world failure agenda failed =>
    cases hcut : cut (pending.visit host strict caller world).finding with
    | true => exact .inr ⟨[], _, visits', rfl, hcut, ⟨failure, rfl⟩, rfl⟩
    | false =>
      have hsame := relaxes.same pending world hcut
      cases other with
      | fail _ failed' =>
        rw [hsame] at failed' ⊢
        obtain rfl := Except.error.inj (failed.symm.trans failed')
        exact .inl ⟨by simpa using hcut, rfl, rfl, rfl⟩
      | step opens _ =>
        rw [hsame] at opens
        exact absurd (failed.symm.trans opens) (by simp)
  | @step pending agenda world final rules visits outcome opens _ ih =>
    have hcut : cut (pending.visit host strict caller world).finding = false := by
      cases hcut : cut (pending.visit host strict caller world).finding with
      | false => rfl
      | true =>
        obtain ⟨failure, hfails⟩ :=
          Finding.next_of_shape_eq_none (relaxes.undecoded _ hcut)
        exact absurd (opens.symm.trans hfails) (by simp)
    have hsame := relaxes.same pending world hcut
    cases other with
    | fail _ failed =>
      rw [hsame] at failed
      exact absurd (opens.symm.trans failed) (by simp)
    | step opens' rest' =>
      rw [hsame] at opens' rest' ⊢
      obtain rfl := Except.ok.inj (opens.symm.trans opens')
      rcases ih rest' with ⟨hnone, rfl, rfl, rfl⟩ | ⟨front, last, rest, rfl, hlast, hfails, rfl⟩
      · refine .inl ⟨?_, rfl, rfl, rfl⟩
        intro visit mem
        rcases List.mem_cons.1 mem with rfl | mem
        · exact hcut
        · exact hnone visit mem
      · exact .inr ⟨_ :: front, last, rest, rfl, hlast, hfails, rfl⟩

/-- The steps of a walk that is cut off begin the steps of the lax walk. -/
theorem steps_leading (relaxes : Relaxes host caller cut strict lax)
    (walk : Walk host strict caller agenda world visits outcome final)
    (other : Walk host lax caller agenda world visits' outcome' final')
    (cutOff : ∃ visit ∈ visits, cut visit.finding = true) : final.steps <+: final'.steps := by
  rcases walk.compare relaxes other with ⟨hnone, -⟩ | ⟨front, last, rest, rfl, hlast, -, rfl⟩
  · obtain ⟨visit, mem, hcut⟩ := cutOff
    exact absurd hcut (by simp [hnone visit mem])
  · have hrecords : last.finding.Records last.depth last.events := walk.records (by simp)
    have hevents : last.events = [] :=
      Finding.events_of_shape_eq_none (relaxes.undecoded _ hlast) hrecords
    have hjournal := walk.journal_eq
    rw [List.flatMap_append, List.flatMap_singleton, hevents, List.append_nil] at hjournal
    have hleading : final.journal.toList <+: final'.journal.toList := by
      rw [hjournal, other.journal_eq, List.flatMap_append, ← List.append_assoc]
      exact List.prefix_append _ _
    exact hleading.filter _

end Walk

namespace Engine

variable {host : Host σ} {cut : Finding → Bool} {strict lax : Engine} {label : Option String}
  {rule : Value} {world final : World σ} {visits : List (Visit σ)} {outcome : Outcome}

/-- Checks that cut nothing off are the same in every respect. -/
theorem check_eq_of_not_cut (relaxes : Relaxes host label cut strict.options lax.options)
    (walk : Walk host strict.options label [⟨0, rule⟩] world visits outcome final)
    (none_cut : ∀ visit ∈ visits, cut visit.finding = false) :
    lax.check host label rule world = (outcome, close label outcome final) := by
  obtain ⟨visits', outcome', final', hwalk', hcheck⟩ := lax.exists_walk host label rule world
  rcases walk.compare relaxes hwalk' with ⟨-, rfl, rfl, rfl⟩ | ⟨front, last, rest, rfl, hlast, -⟩
  · exact hcheck
  · have hnot := none_cut last (by simp)
    exact absurd hlast (by simp [hnot])

/-- The steps of a check that was cut off begin the steps of the lax one. -/
theorem steps_check_leading (relaxes : Relaxes host label cut strict.options lax.options)
    (walk : Walk host strict.options label [⟨0, rule⟩] world visits outcome final)
    (cutOff : ∃ visit ∈ visits, cut visit.finding = true) :
    final.steps <+: (lax.check host label rule world).2.steps := by
  obtain ⟨visits', outcome', final', hwalk', hcheck⟩ := lax.exists_walk host label rule world
  rw [hcheck, steps_close]
  exact walk.steps_leading relaxes hwalk' cutOff

/-- What passes under strict options passes under lax ones, in the same way. -/
theorem check_eq_of_passes (relaxes : Relaxes host label cut strict.options lax.options)
    (walk : Walk host strict.options label [⟨0, rule⟩] world visits (.ok ()) final) :
    lax.check host label rule world = (.ok (), final) := by
  refine check_eq_of_not_cut relaxes walk ?_
  intro visit mem
  have hpassed := walk.outcome_eq_ok_iff.1 rfl visit mem
  cases hcut : cut visit.finding with
  | false => rfl
  | true =>
    obtain ⟨failure, hfails⟩ := Finding.next_of_shape_eq_none (relaxes.undecoded _ hcut)
    exact absurd (Visit.failure_of_next_error hfails) (by simp [hpassed])

/-- The strict check and the lax one, side by side. -/
theorem check_relaxes (strict lax : Engine)
    (relaxes : Relaxes host label cut strict.options lax.options) (rule : Value)
    (world : World σ) : ∃ visits outcome final,
      let cautious := strict.check host label rule world
      let bold := lax.check host label rule world
      Walk host strict.options label [⟨0, rule⟩] world visits outcome final ∧
      cautious = (outcome, close label outcome final) ∧
      ((∀ visit ∈ visits, cut visit.finding = false) → bold = cautious) ∧
      ((∃ visit ∈ visits, cut visit.finding = true) → cautious.2.steps <+: bold.2.steps) ∧
      (cautious.1 = .ok () → bold = cautious) := by
  obtain ⟨visits, outcome, final, hwalk, hcheck⟩ := strict.exists_walk host label rule world
  refine ⟨visits, outcome, final, hwalk, hcheck, ?_, ?_, ?_⟩
  · intro none_cut
    rw [hcheck]
    exact check_eq_of_not_cut relaxes hwalk none_cut
  · intro cutOff
    rw [hcheck, steps_close]
    exact steps_check_leading relaxes hwalk cutOff
  · intro passed
    rw [hcheck] at passed ⊢
    obtain rfl : outcome = .ok () := passed
    exact check_eq_of_passes relaxes hwalk

end Engine

end RuleCheck
