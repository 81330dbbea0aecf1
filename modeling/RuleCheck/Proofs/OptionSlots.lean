import Mathlib.Order.Bounds.Defs
import RuleCheck.Proofs.Growth
import RuleCheck.Rule.Shape
import RuleCheck.Rule.Validity

/-!
# Option slots

After its third element a simple rule has slots for an operator and a test. The decoder takes up
what fits and passes over the rest; the check of the form refuses at the first element that does not
fit. An element fits if it is the first operator or the first test, so both go through the slots with
the same knowledge of what was found before, and what the check lets through is exactly what the
decoder takes up completely.
-/

namespace RuleCheck

def Rule.options (operator : Option Operator) (test : Option Function) : List Value :=
  operator.toList.map (fun operator ↦ .text operator.name) ++ test.toList.map .function

theorem Rule.length_options (operator : Option Operator) (test : Option Function) :
    (options operator test).length = operator.toList.length + test.toList.length := by
  rw [options, List.length_append, List.length_map, List.length_map]

theorem Operator.name_of_ofName {name : String} {operator : Operator}
    (found : ofName? name = some operator) : operator.name = name := by
  simpa using List.find?_some found

namespace SimpleRule

variable {rule : SimpleRule} {option : Value} {options : List Value}

/-- There is a slot left for the element. -/
def Fits (rule : SimpleRule) : Value → Prop
  | .text name => (Operator.ofName? name).isSome ∧ rule.operator = none
  | .function _ => rule.test = none
  | _ => False

def FitAll (rule : SimpleRule) : List Value → Prop
  | [] => True
  | option :: rest => rule.Fits option ∧ (rule.takeOption option).FitAll rest

def taken (rule : SimpleRule) : List Value :=
  Rule.options rule.operator rule.test

/-- Options leave the rest of a rule as it is. -/
theorem given_takeOption (rule : SimpleRule) (option : Value) :
    (rule.takeOption option).names = rule.names ∧
      (rule.takeOption option).subject = rule.subject ∧
      (rule.takeOption option).target = rule.target := by
  unfold takeOption
  split
  · split <;> exact ⟨rfl, rfl, rfl⟩
  · split <;> exact ⟨rfl, rfl, rfl⟩
  · exact ⟨rfl, rfl, rfl⟩

theorem given_foldl_takeOption (rule : SimpleRule) (options : List Value) :
    (options.foldl takeOption rule).names = rule.names ∧
      (options.foldl takeOption rule).subject = rule.subject ∧
      (options.foldl takeOption rule).target = rule.target := by
  induction options generalizing rule with
  | nil => exact ⟨rfl, rfl, rfl⟩
  | cons option options ih =>
    obtain ⟨hnames, hsubject, htarget⟩ := given_takeOption rule option
    rw [List.foldl_cons, ← hnames, ← hsubject, ← htarget]
    exact ih _

/-- What does not fit is passed over. -/
theorem takeOption_of_not_fits (unfit : ¬ rule.Fits option) : rule.takeOption option = rule := by
  cases option with
  | text name =>
    rw [takeOption]
    by_cases hnone : rule.operator = none
    · have hname : Operator.ofName? name = none := by
        rw [← Option.not_isSome_iff_eq_none]
        exact fun hfound ↦ unfit ⟨hfound, hnone⟩
      rw [if_pos (Option.isNone_iff_eq_none.2 hnone), hname, ← hnone]
    · exact if_neg (mt Option.isNone_iff_eq_none.1 hnone)
  | function function =>
    rw [takeOption]
    exact if_neg (mt Option.isNone_iff_eq_none.1 unfit)
  | _ => rfl

/-- What fits is taken up. -/
theorem taken_takeOption_of_fits (fit : rule.Fits option) :
    (rule.takeOption option).taken.Perm (option :: rule.taken) := by
  cases option with
  | text name =>
    obtain ⟨hfound, hnone⟩ := fit
    obtain ⟨operator, hoperator⟩ := Option.isSome_iff_exists.1 hfound
    rw [takeOption, if_pos (Option.isNone_iff_eq_none.2 hnone), taken, taken, hnone, hoperator,
      ← Operator.name_of_ofName hoperator]
    exact List.Perm.refl _
  | function function =>
    have hnone : rule.test = none := fit
    rw [takeOption, if_pos (Option.isNone_iff_eq_none.2 hnone), taken, taken, hnone]
    simp only [Rule.options, Option.toList_some, Option.toList_none, List.map_cons, List.map_nil,
      List.append_nil]
    exact List.perm_append_singleton _ _
  | _ => exact fit.elim

theorem fitAll_append (first rest : List Value) :
    rule.FitAll (first ++ rest) ↔
      rule.FitAll first ∧ (first.foldl takeOption rule).FitAll rest := by
  induction first generalizing rule with
  | nil => simp [FitAll]
  | cons option first ih => rw [List.cons_append, FitAll, ih, FitAll, List.foldl_cons, and_assoc]

theorem FitAll.take (fit : rule.FitAll options) (count : Nat) : rule.FitAll (options.take count) := by
  rw [← List.take_append_drop count options, fitAll_append] at fit
  exact fit.1

theorem FitAll.perm (fit : rule.FitAll options) :
    (options.foldl takeOption rule).taken.Perm (rule.taken ++ options) := by
  induction options generalizing rule with
  | nil => simp
  | cons option options ih =>
    have hone : ((rule.takeOption option).taken ++ options).Perm (option :: rule.taken ++ options) :=
      (taken_takeOption_of_fits fit.1).append_right options
    exact (ih fit.2).trans (hone.trans List.perm_middle.symm)

/-- At most as many elements are taken up as there are. -/
theorem length_taken_foldl_le (rule : SimpleRule) (options : List Value) :
    (options.foldl takeOption rule).taken.length ≤ rule.taken.length + options.length := by
  induction options generalizing rule with
  | nil => exact Nat.le_refl _
  | cons option options ih =>
    have hone : (rule.takeOption option).taken.length ≤ rule.taken.length + 1 := by
      by_cases hfit : rule.Fits option
      · exact Nat.le_of_eq (taken_takeOption_of_fits hfit).length_eq
      · rw [takeOption_of_not_fits hfit]
        exact Nat.le_succ _
    have hrest := ih (rule.takeOption option)
    rw [List.foldl_cons, List.length_cons]
    omega

/-- Elements fit exactly if as many are taken up. -/
theorem fitAll_iff_length : rule.FitAll options ↔
    (options.foldl takeOption rule).taken.length = rule.taken.length + options.length := by
  constructor
  · intro hfit
    rw [hfit.perm.length_eq, List.length_append]
  · induction options generalizing rule with
    | nil => exact fun _ ↦ trivial
    | cons option options ih =>
      intro hlength
      rw [List.foldl_cons, List.length_cons] at hlength
      by_cases hfit : rule.Fits option
      · refine ⟨hfit, ih ?_⟩
        have hone := (taken_takeOption_of_fits hfit).length_eq
        rw [List.length_cons] at hone
        omega
      · have hbound := length_taken_foldl_le (rule.takeOption option) options
        rw [takeOption_of_not_fits hfit] at hbound hlength
        omega

end SimpleRule

/-- The position of the element in an option slot that a fault is about. -/
def RuleFault.slot? : RuleFault → Option Nat
  | .unknownOperator position _ _ => some position
  | .secondOperator position _ _ => some position
  | .secondTest position _ _ => some position
  | .notAnOption position _ => some position
  | .notARule _ => none
  | .wrongLength _ _ => none

/-- The diagnostic of a fault in an option slot begins by naming the element. -/
theorem RuleFault.fragments_of_slot {fault : RuleFault} {position : Nat}
    (slot : fault.slot? = some position) (store : Store) :
    ∃ rest, (fault.diagnostic store).1.fragments = .text "element" :: .ofNat position :: rest := by
  cases fault with
  | notARule | wrongLength => cases slot
  | _ =>
    cases slot
    exact ⟨_, rfl⟩

namespace Rule

/-- The check has found an operator and a test where the decoder has taken up one. -/
structure FoundIn (rule : SimpleRule) (operatorAt testAt : Option Nat) : Prop where
  operator : operatorAt = none ↔ rule.operator = none
  test : testAt = none ↔ rule.test = none

variable {rule : SimpleRule} {operatorAt testAt : Option Nat} {whole option : Value}
  {options : List Value} {position : Nat}

/-- The check goes on after an element that fits. -/
theorem checkOptions_of_fits (found : FoundIn rule operatorAt testAt) (fit : rule.Fits option)
    (whole : Value) (position : Nat) (rest : List Value) :
    ∃ operatorAt' testAt', FoundIn (rule.takeOption option) operatorAt' testAt' ∧
      checkOptions whole position operatorAt testAt (option :: rest) =
        checkOptions whole (position + 1) operatorAt' testAt' rest := by
  cases option with
  | text name =>
    obtain ⟨hfound, hnone⟩ := fit
    obtain ⟨operator, hoperator⟩ := Option.isSome_iff_exists.1 hfound
    refine ⟨some position, testAt, ⟨?_, ?_⟩, ?_⟩
    · simp [SimpleRule.takeOption, hnone, hoperator]
    · simp [SimpleRule.takeOption, hnone, found.test]
    · simp [checkOptions, hoperator, found.operator.2 hnone]
  | function function =>
    have hnone : rule.test = none := fit
    refine ⟨operatorAt, some position, ⟨?_, ?_⟩, ?_⟩
    · simp [SimpleRule.takeOption, hnone, found.operator]
    · simp [SimpleRule.takeOption, hnone]
    · simp [checkOptions, found.test.2 hnone]
  | _ => exact fit.elim

/-- The check refuses an element that does not fit, by its position. -/
theorem checkOptions_of_not_fits (found : FoundIn rule operatorAt testAt)
    (unfit : ¬ rule.Fits option) (whole : Value) (position : Nat) (rest : List Value) :
    ∃ fault, checkOptions whole position operatorAt testAt (option :: rest) = .error fault ∧
      fault.slot? = some position := by
  cases option with
  | text name =>
    by_cases hunknown : (Operator.ofName? name).isNone = true
    · exact ⟨_, if_pos hunknown, rfl⟩
    · have hsome : rule.operator ≠ none := by
        intro hnone
        refine unfit ⟨?_, hnone⟩
        rwa [Option.isNone_iff_eq_none, ← Option.not_isSome_iff_eq_none, not_not] at hunknown
      obtain ⟨first, hfirst⟩ := Option.ne_none_iff_exists'.1 (mt found.operator.1 hsome)
      refine ⟨.secondOperator position first whole, ?_, rfl⟩
      simp only [checkOptions, if_neg hunknown, hfirst]
  | function function =>
    have hsome : rule.test ≠ none := unfit
    obtain ⟨first, hfirst⟩ := Option.ne_none_iff_exists'.1 (mt found.test.1 hsome)
    refine ⟨.secondTest position first whole, ?_, rfl⟩
    simp only [checkOptions, hfirst]
  | _ => exact ⟨_, rfl, rfl⟩

/-- The check lets all elements through if they fit, and otherwise refuses the first that does not.
-/
theorem checkOptions_cases (found : FoundIn rule operatorAt testAt) (whole : Value)
    (position : Nat) (options : List Value) :
    (checkOptions whole position operatorAt testAt options = .ok () ∧ rule.FitAll options) ∨
      ∃ fault before refused rest,
        checkOptions whole position operatorAt testAt options = .error fault ∧
        options = before ++ refused :: rest ∧ rule.FitAll before ∧
        ¬ (before.foldl SimpleRule.takeOption rule).Fits refused ∧
        fault.slot? = some (position + before.length) := by
  induction options generalizing rule operatorAt testAt position with
  | nil => exact .inl ⟨rfl, trivial⟩
  | cons option options ih =>
    by_cases hfit : rule.Fits option
    · obtain ⟨operatorAt', testAt', hfound, hcheck⟩ :=
        checkOptions_of_fits found hfit whole position options
      rcases ih hfound (position + 1) with ⟨hok, hall⟩ | hrefused
      · exact .inl ⟨hcheck.trans hok, hfit, hall⟩
      · obtain ⟨fault, before, refused, rest, herror, rfl, hbefore, hunfit, hslot⟩ := hrefused
        refine .inr ⟨fault, option :: before, refused, rest, hcheck.trans herror, rfl,
          ⟨hfit, hbefore⟩, hunfit, ?_⟩
        rw [hslot, List.length_cons]
        exact congrArg some (by omega)
    · obtain ⟨fault, herror, hslot⟩ := checkOptions_of_not_fits found hfit whole position options
      exact .inr ⟨fault, [], option, options, herror, rfl, trivial, hfit, hslot⟩

end Rule

theorem Names.isNames_iff {store : Store} {value : Value} :
    isNames store value = true ↔ ∃ names, ofValue? store value = some names :=
  Option.isSome_iff_exists

def SimpleRule.bare (names : Names) (subject target : Value) : SimpleRule :=
  ⟨names, subject, target, none, none⟩

theorem Rule.foundIn_bare (names : Names) (subject target : Value) :
    FoundIn (.bare names subject target) none none :=
  ⟨iff_of_true rfl rfl, iff_of_true rfl rfl⟩

theorem SimpleRule.taken_bare (names : Names) (subject target : Value) :
    (bare names subject target).taken = [] := rfl

/-- There are two slots. -/
theorem SimpleRule.FitAll.length_le {names : Names} {subject target : Value} {options : List Value}
    (fit : (bare names subject target).FitAll options) : options.length ≤ 2 := by
  have hlength := fitAll_iff_length.1 fit
  have hoperator (operator : Option Operator) : operator.toList.length ≤ 1 := by
    cases operator <;> simp
  have htest (test : Option Function) : test.toList.length ≤ 1 := by
    cases test <;> simp
  rw [taken, Rule.length_options, taken_bare, List.length_nil, Nat.zero_add] at hlength
  rw [← hlength]
  exact Nat.add_le_add (hoperator _) (htest _)

/-- Options fit exactly if they are those that the rule is decoded to. -/
theorem SimpleRule.fitAll_bare_iff_perm {names : Names} {subject target : Value}
    {options : List Value} : (bare names subject target).FitAll options ↔
      options.Perm (ofParts names subject target options).taken := by
  constructor
  · exact fun hfit ↦ hfit.perm.symm
  · intro hperm
    rw [fitAll_iff_length, taken_bare, List.length_nil, Nat.zero_add]
    exact hperm.length_eq.symm

section Named

variable {store : Store} {ref : ListRef} {first subject target : Value} {names : Names}
  {rest options : List Value}

theorem Shape.ofItems_of_names (named : Names.ofValue? store first = some names)
    (rest : List Value) : ofItems store (first :: rest) = ofMembers store first rest := by
  rw [ofItems]
  rintro condition rules rfl -
  cases named

theorem Shape.ofValue_of_names (items : store.items ref = first :: subject :: target :: options)
    (named : Names.ofValue? store first = some names) :
    ofValue store (.array ref) = .simple (.ofParts names subject target options) := by
  rw [ofValue, items, ofItems_of_names named, ofMembers, named]

namespace Rule

theorem check_of_names (items : store.items ref = first :: rest)
    (named : Names.ofValue? store first = some names) :
    check store (.array ref) = checkSimple (.array ref) (first :: rest) := by
  simp only [check, items]
  exact if_pos (Names.isNames_iff.2 ⟨names, named⟩)

/-- Two elements after the names make a valid form with options that all fit. -/
theorem checkSimple_eq_ok_iff_fitAll (whole : Value) (names : Names) :
    checkSimple whole (first :: subject :: target :: options) = .ok () ↔
      (SimpleRule.bare names subject target).FitAll options := by
  unfold checkSimple
  split
  · rcases checkOptions_cases (foundIn_bare names subject target) whole 3 options with
      ⟨hok, hall⟩ | ⟨fault, before, refused, rest, herror, rfl, -, hunfit, -⟩
    · exact iff_of_true hok hall
    · refine iff_of_false ?_ ?_
      · intro hok
        cases herror.symm.trans hok
      · rw [SimpleRule.fitAll_append]
        exact fun hall ↦ hunfit hall.2.1
  · next hbounds =>
    refine iff_of_false (fun hok ↦ by cases hok) fun hall ↦ hbounds ?_
    have hlength := hall.length_le
    simp only [List.length_cons]
    omega

/-- Fewer elements are refused for their number. -/
theorem checkSimple_of_short (whole : Value) {items : List Value} (short : items.length < 3) :
    checkSimple whole items = .error (.wrongLength items.length whole) := by
  rw [checkSimple, if_neg]
  exact fun hbounds ↦ Nat.not_le_of_lt short hbounds.1

/-- If an option slot is refused, the elements before fit and it does not. -/
theorem exists_of_checkSimple_slot {whole : Value} {fault : RuleFault} {position : Nat}
    (refused : checkSimple whole (first :: rest) = .error fault)
    (slot : fault.slot? = some position) (names : Names) :
    ∃ subject target before option after, rest = subject :: target :: (before ++ option :: after) ∧
      (SimpleRule.bare names subject target).FitAll before ∧
      ¬ (SimpleRule.bare names subject target).FitAll (before ++ [option]) ∧
      position = 3 + before.length := by
  unfold checkSimple at refused
  split at refused
  · next hbounds =>
    rcases rest with _ | ⟨subject, _ | ⟨target, options⟩⟩
    · exact absurd hbounds.1 (by simp)
    · exact absurd hbounds.1 (by simp)
    · rcases checkOptions_cases (foundIn_bare names subject target) whole 3 options with
        ⟨hok, -⟩ | ⟨fault', before, option, after, herror, hoptions, hbefore, hunfit, hslot⟩
      · cases hok.symm.trans refused
      · obtain rfl := Except.error.inj (herror.symm.trans refused)
        refine ⟨subject, target, before, option, after, by rw [hoptions], hbefore, ?_, ?_⟩
        · rw [SimpleRule.fitAll_append]
          exact fun hall ↦ hunfit hall.2.1
        · exact Option.some.inj (slot.symm.trans hslot)
  · obtain rfl := Except.error.inj refused
    cases slot

end Rule

end Named

def Rule.ValidAlone (store : Store) (items : List Value) : Prop :=
  let alone := Value.newArray items store
  check alone.2 alone.1 = .ok () ∧ ∃ rule, Shape.ofValue alone.2 alone.1 = .simple rule

theorem Rule.validAlone_iff {store : Store} {first subject target : Value} {names : Names}
    {options : List Value} (named : Names.ofValue? store first = some names) :
    ValidAlone store (first :: subject :: target :: options) ↔
      (SimpleRule.bare names subject target).FitAll options := by
  let alone := Store.addList (first :: subject :: target :: options) store
  have hnamed : Names.ofValue? alone.2 first = some names :=
    Names.ofValue_of_le (Store.le_addList _ store) named
  have hitems : alone.2.items alone.1 = first :: subject :: target :: options :=
    Store.items_addList_self store _
  have hcheck : check alone.2 (.array alone.1) = .ok () ↔
      (SimpleRule.bare names subject target).FitAll options := by
    rw [check_of_names hitems hnamed]
    exact checkSimple_eq_ok_iff_fitAll _ names
  rw [← hcheck]
  exact and_iff_left ⟨_, Shape.ofValue_of_names hitems hnamed⟩

section Arrays

variable {store : Store} {ref : ListRef}

/-- An array that is not led by names has a valid form and is decoded, but not to a simple rule. -/
theorem Shape.ofValue_of_unnamed
    (unnamed : ∀ first rest, store.items ref = first :: rest →
      Names.ofValue? store first = none) :
    Rule.check store (.array ref) = .ok () ∧ ofValue store (.array ref) ≠ .malformed ∧
      ∀ simple, ofValue store (.array ref) ≠ .simple simple := by
  unfold ofValue
  simp only [Rule.check]
  cases hitems : store.items ref with
  | nil => simp [ofItems]
  | cons first rest =>
    have hnone := unnamed first rest hitems
    have hnot : Names.isNames store first = false := by rw [Names.isNames, hnone, Option.isSome_none]
    refine ⟨by simp [hnot], ?_⟩
    unfold ofItems
    split
    · next hcons => cases hcons
    · simp
    · next hcons =>
      obtain ⟨rfl, rfl⟩ := List.cons.inj hcons
      simp [ofMembers, hnone]

/-- An array that is led by names and has fewer than three elements has no valid form and cannot be
decoded. -/
theorem Shape.ofValue_of_short {first : Value} {rest : List Value} {names : Names}
    (items : store.items ref = first :: rest) (named : Names.ofValue? store first = some names)
    (short : rest.length < 2) : ofValue store (.array ref) = .malformed ∧
      Rule.check store (.array ref) =
        .error (.wrongLength (first :: rest).length (.array ref)) := by
  constructor
  · rw [ofValue, items, ofItems_of_names named, ofMembers, named]
    rcases rest with _ | ⟨subject, _ | ⟨target, options⟩⟩
    · rfl
    · rfl
    · exact absurd short (by simp)
  · rw [Rule.check_of_names items named]
    exact Rule.checkSimple_of_short _ (Nat.succ_lt_succ short)

/-- An array is led by names and goes on with two elements or more, or with fewer, or is not led by
names. -/
theorem Rule.array_cases (store : Store) (ref : ListRef) :
    (∃ first names subject target options,
      store.items ref = first :: subject :: target :: options ∧
        Names.ofValue? store first = some names) ∨
    (∃ first names rest, store.items ref = first :: rest ∧
      Names.ofValue? store first = some names ∧ rest.length < 2) ∨
    ∀ first rest, store.items ref = first :: rest → Names.ofValue? store first = none := by
  cases hitems : store.items ref with
  | nil => exact .inr (.inr nofun)
  | cons first rest =>
    cases hnames : Names.ofValue? store first with
    | none =>
      refine .inr (.inr fun first' rest' hsame ↦ ?_)
      exact (List.cons.inj hsame).1 ▸ hnames
    | some names =>
      rcases rest with _ | ⟨subject, _ | ⟨target, options⟩⟩
      · exact .inr (.inl ⟨first, names, [], rfl, hnames, by simp⟩)
      · exact .inr (.inl ⟨first, names, [subject], rfl, hnames, by simp⟩)
      · exact .inl ⟨first, names, subject, target, options, rfl, hnames⟩

/-- What is decoded to a simple rule is an array led by names. -/
theorem Shape.exists_of_ofValue_simple {rule : Value} {simple : SimpleRule}
    (decoded : ofValue store rule = .simple simple) :
    ∃ ref first names subject target options, rule = .array ref ∧
      store.items ref = first :: subject :: target :: options ∧
      Names.ofValue? store first = some names ∧
      simple = .ofParts names subject target options := by
  cases rule with
  | array ref =>
    rcases Rule.array_cases store ref with
      ⟨first, names, subject, target, options, hitems, hnames⟩ |
      ⟨first, names, rest, hitems, hnames, hshort⟩ | hunnamed
    · rw [ofValue_of_names hitems hnames] at decoded
      exact ⟨ref, first, names, subject, target, options, rfl, hitems, hnames,
        (Shape.simple.inj decoded).symm⟩
    · rw [(ofValue_of_short hitems hnames hshort).1] at decoded
      cases decoded
    · exact absurd decoded ((ofValue_of_unnamed hunnamed).2.2 simple)
  | _ => cases decoded

end Arrays

/-! ## Check and decoder -/

/-- A rule has a valid form exactly if it can be decoded and, as a simple rule, has no elements but
names, subject, target and the options that it was decoded to. -/
theorem Rule.check_eq_ok_iff (store : Store) (rule : Value) : check store rule = .ok () ↔
    Shape.ofValue store rule ≠ .malformed ∧
      ∀ simple, Shape.ofValue store rule = .simple simple →
        (store.members rule).length =
          3 + simple.operator.toList.length + simple.test.toList.length := by
  cases rule with
  | bool | function => simp [check, Shape.ofValue]
  | array ref =>
    rcases array_cases store ref with
      ⟨first, names, subject, target, options, hitems, hnames⟩ |
      ⟨first, names, rest, hitems, hnames, hshort⟩ | hunnamed
    · have hshape := Shape.ofValue_of_names hitems hnames
      have hlength : (store.members (.array ref)).length = options.length + 3 := by
        rw [Store.members, hitems, List.length_cons, List.length_cons, List.length_cons]
      rw [check_of_names hitems hnames, checkSimple_eq_ok_iff_fitAll _ names,
        SimpleRule.fitAll_iff_length, SimpleRule.taken, length_options, SimpleRule.taken_bare,
        List.length_nil, Nat.zero_add, hshape, hlength]
      constructor
      · intro hfit
        refine ⟨by simp, fun simple hsimple ↦ ?_⟩
        obtain rfl := Shape.simple.inj hsimple
        rw [Nat.add_assoc, Nat.add_comm]
        exact congrArg (3 + ·) hfit.symm
      · intro hdecoded
        have hsimple := hdecoded.2 _ rfl
        rw [Nat.add_assoc, Nat.add_comm] at hsimple
        exact (Nat.add_left_cancel hsimple).symm
    · obtain ⟨hshape, hcheck⟩ := Shape.ofValue_of_short hitems hnames hshort
      rw [hcheck, hshape]
      exact iff_of_false (by simp) fun hdecoded ↦ hdecoded.1 rfl
    · obtain ⟨hcheck, hshape, hsimple⟩ := Shape.ofValue_of_unnamed hunnamed
      exact iff_of_true hcheck ⟨hshape, fun simple hdecoded ↦ absurd hdecoded (hsimple simple)⟩
  | _ => simp [check, Shape.ofValue]

/-- If an option slot is refused, its element is the first one that makes those up to it no valid
simple rule. -/
theorem Rule.isLeast_of_slot {store : Store} {rule : Value} {fault : RuleFault} {position : Nat}
    (refused : check store rule = .error fault) (slot : fault.slot? = some position) :
    ∃ ref, rule = .array ref ∧
      IsLeast {index | 3 ≤ index ∧ ¬ ValidAlone store ((store.items ref).take (index + 1))}
        position := by
  cases rule with
  | bool | function => cases refused
  | array ref =>
    refine ⟨ref, rfl, ?_⟩
    rcases array_cases store ref with
      ⟨first, names, subject, target, options, hitems, hnames⟩ |
      ⟨first, names, rest, hitems, hnames, hshort⟩ | hunnamed
    · rw [check_of_names hitems hnames] at refused
      obtain ⟨subject, target, before, option, after, hrest, hbefore, hunfit, rfl⟩ :=
        exists_of_checkSimple_slot refused slot names
      have hvalid (count : Nat) : ValidAlone store ((store.items ref).take (3 + count + 1)) ↔
          (SimpleRule.bare names subject target).FitAll
            ((before ++ option :: after).take (count + 1)) := by
        rw [← validAlone_iff hnames, hitems, hrest, Nat.add_comm 3 count]
        rfl
      refine ⟨⟨Nat.le_add_right 3 _, ?_⟩, ?_⟩
      · rw [hvalid, List.take_length_add_append]
        exact hunfit
      · rintro index ⟨hindex, hinvalid⟩
        obtain ⟨count, rfl⟩ := Nat.exists_eq_add_of_le hindex
        refine Nat.add_le_add_left (Nat.le_of_not_lt fun hcount ↦ hinvalid ?_) 3
        rw [hvalid, List.take_append_of_le_length hcount]
        exact hbefore.take (count + 1)
    · rw [(Shape.ofValue_of_short hitems hnames hshort).2] at refused
      obtain rfl := Except.error.inj refused
      cases slot
    · cases (Shape.ofValue_of_unnamed hunnamed).1.symm.trans refused
  | _ =>
    obtain rfl := Except.error.inj refused
    cases slot

/-- What the check of the form and the decoder have to do with each other. If an option slot is
refused, the diagnostic names the first element that makes those up to it no valid simple rule. -/
structure CheckedDecoding (store : Store) (rule : Value) : Prop where
  ok_iff : Rule.check store rule = .ok () ↔
    Shape.ofValue store rule ≠ .malformed ∧
      ∀ simple, Shape.ofValue store rule = .simple simple →
        (store.members rule).length =
          3 + simple.operator.toList.length + simple.test.toList.length
  simple_ok_iff : ∀ simple, Shape.ofValue store rule = .simple simple →
    ∃ ref first options, rule = .array ref ∧
      store.items ref = first :: simple.subject :: simple.target :: options ∧
      Names.ofValue? store first = some simple.names ∧
      (Rule.check store rule = .ok () ↔
        options.Perm (Rule.options simple.operator simple.test))
  slot : ∀ fault position, Rule.check store rule = .error fault → fault.slot? = some position →
    (∀ later, ∃ rest,
      (fault.diagnostic later).1.fragments = .text "element" :: .ofNat position :: rest) ∧
    ∃ ref, rule = .array ref ∧
      IsLeast {index | 3 ≤ index ∧ ¬ Rule.ValidAlone store ((store.items ref).take (index + 1))}
        position

/-- The check of the form and the decoder accept the same simple rules. -/
theorem check_agrees_decoding (store : Store) (rule : Value) : CheckedDecoding store rule where
  ok_iff := Rule.check_eq_ok_iff store rule
  simple_ok_iff simple decoded := by
    obtain ⟨ref, first, names, subject, target, options, rfl, hitems, hnames, rfl⟩ :=
      Shape.exists_of_ofValue_simple decoded
    obtain ⟨hgiven, hsubject, htarget⟩ :=
      SimpleRule.given_foldl_takeOption (.bare names subject target) options
    refine ⟨ref, first, options, rfl, ?_, ?_, ?_⟩
    · rw [hitems, SimpleRule.ofParts]
      exact congrArg (first :: ·) (congrArg₂ (· :: · :: options) hsubject.symm htarget.symm)
    · exact hnames.trans (congrArg some hgiven.symm)
    · rw [Rule.check_of_names hitems hnames, Rule.checkSimple_eq_ok_iff_fitAll _ names]
      exact SimpleRule.fitAll_bare_iff_perm
  slot fault position refused slot :=
    ⟨RuleFault.fragments_of_slot slot, Rule.isLeast_of_slot refused slot⟩

end RuleCheck
