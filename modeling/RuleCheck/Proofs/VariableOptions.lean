import Mathlib.Data.List.DropRight
import RuleCheck.Options.Variables
import RuleCheck.Proofs.Decimals

/-!
# What variables say of options

Each of the two variables has its good values, which are written down here without the readers. If
every value that a sequence gives to one of them is good, the options are what the last value for
each says, and the default for a variable that has none; so only the values for one variable and
their order among each other count. Otherwise the first value that is not good is the fault, whatever
comes after it.
-/

namespace RuleCheck.Options

variable {value trimmed : String} {on : Bool} {count limit : Nat}

/-- A text without the blank characters on both sides. -/
structure Trims (value trimmed : String) : Prop where
  blanks : ∃ before after, value.toList = before ++ trimmed.toList ++ after ∧
    (∀ character ∈ before, isBlank character = true) ∧
    ∀ character ∈ after, isBlank character = true
  first : ∀ character ∈ trimmed.toList.head?, isBlank character = false
  last : ∀ character ∈ trimmed.toList.getLast?, isBlank character = false

theorem toList_trim (value : String) :
    (trim value).toList = (value.toList.dropWhile isBlank).rdropWhile isBlank := by
  rw [trim, String.toList_ofList]
  rfl

theorem trims_trim (value : String) : Trims value (trim value) where
  blanks := by
    let front := value.toList.dropWhile isBlank
    refine ⟨value.toList.takeWhile isBlank, front.rtakeWhile isBlank, ?_, ?_, ?_⟩
    · rw [toList_trim, List.append_assoc, List.rdropWhile_append_rtakeWhile,
        List.takeWhile_append_dropWhile]
    · exact fun character mem ↦ List.mem_takeWhile_imp mem
    · exact fun character mem ↦ List.mem_rtakeWhile_imp mem
  first character mem := by
    rw [toList_trim] at mem
    obtain ⟨after, hafter⟩ := List.rdropWhile_prefix isBlank (value.toList.dropWhile isBlank)
    have hhead : (value.toList.dropWhile isBlank).head? = some character := by
      rw [← hafter, List.head?_append, mem, Option.some_or]
    have hnot := List.head?_dropWhile_not isBlank value.toList
    rwa [hhead] at hnot
  last character mem := by
    rw [toList_trim] at mem
    obtain ⟨nonempty, rfl⟩ := List.mem_getLast?_eq_getLast mem
    exact Bool.eq_false_iff.2 (List.rdropWhile_last_not isBlank _ nonempty)

/-- There is one way to trim a text. -/
theorem trim_eq_iff : trim value = trimmed ↔ Trims value trimmed := by
  constructor
  · rintro rfl
    exact trims_trim value
  · rintro ⟨⟨before, after, hvalue, hbefore, hafter⟩, first, last⟩
    apply String.toList_inj.1
    rw [toList_trim, hvalue, List.append_assoc, List.dropWhile_append_of_pos hbefore]
    cases hempty : trimmed.toList with
    | nil => rw [List.nil_append, List.dropWhile_eq_nil_iff.2 hafter, List.rdropWhile_nil]
    | cons character more =>
      rw [hempty] at first last
      rw [List.cons_append, List.dropWhile_cons_of_neg (by simp [first character rfl]),
        ← List.cons_append, List.rdropWhile, List.reverse_append,
        List.dropWhile_append_of_pos (by simpa using hafter), ← List.rdropWhile]
      exact List.rdropWhile_eq_self_iff.2 fun nonempty ↦ by
        simp [last _ (List.getLast?_eq_some_getLast nonempty)]

def flagWords : Bool → List String
  | true => ["1", "true", "yes", "on"]
  | false => ["0", "false", "no", "off", ""]

def SpellsFlag (value : String) (on : Bool) : Prop :=
  ∃ trimmed, Trims value trimmed ∧ lowerCase trimmed ∈ flagWords on

/-- The value is a number in decimal, possibly with a plus sign and with zeros in front. -/
def SpellsCount (value : String) (count : Nat) : Prop :=
  ∃ trimmed digits, Trims value trimmed ∧
    (trimmed.toList = digits ∨ trimmed.toList = '+' :: digits) ∧ Digits.Denote digits count

structure SpellsLimit (value : String) (limit : Nat) : Prop where
  count : SpellsCount value limit
  positive : 1 ≤ limit
  le : limit ≤ maxWrittenDepth

theorem readFlag_eq_some_iff {text : String} :
    readFlag? text = some on ↔ lowerCase text ∈ flagWords on := by
  have hdisjoint : ∀ word ∈ flagWords false, word ∉ flagWords true := by decide
  have hon : onTexts.contains (lowerCase text) = true ↔ lowerCase text ∈ flagWords true :=
    List.contains_iff_mem
  have hoff : offTexts.contains (lowerCase text) = true ↔ lowerCase text ∈ flagWords false :=
    List.contains_iff_mem
  rw [readFlag?]
  by_cases isOn : lowerCase text ∈ flagWords true
  · rw [if_pos (hon.2 isOn)]
    cases on with
    | true => exact iff_of_true rfl isOn
    | false => exact iff_of_false nofun fun isOff ↦ hdisjoint _ isOff isOn
  · rw [if_neg (mt hon.1 isOn)]
    cases on with
    | true => simp [isOn]
    | false => simpa using hoff

theorem readFlag_trim : readFlag? (trim value) = some on ↔ SpellsFlag value on := by
  simp [readFlag_eq_some_iff, SpellsFlag, ← trim_eq_iff]

/-- A plus sign is no digit, so there is one way to leave it out. -/
theorem readCount_eq_some_iff {text : String} : readCount? text = some count ↔
    (∃ digits, (text.toList = digits ∨ text.toList = '+' :: digits) ∧ Digits.Denote digits count) ∧
      count ≤ maxWrittenDepth := by
  rw [readCount?, Option.filter_eq_some_iff, Digits.number_eq_some_iff, decide_eq_true_eq]
  refine and_congr_left' ?_
  split
  · next digits hdigits =>
    rw [hdigits]
    constructor
    · exact fun denote ↦ ⟨digits, .inr rfl, denote⟩
    · rintro ⟨digits', rfl | same, denote⟩
      · exact absurd (denote.each '+' List.mem_cons_self) (by decide)
      · exact (List.cons.inj same).2 ▸ denote
  · next noPlus =>
    constructor
    · exact fun denote ↦ ⟨_, .inl rfl, denote⟩
    · rintro ⟨digits, rfl | same, denote⟩
      · exact denote
      · exact absurd same (noPlus digits)

theorem readCount_trim :
    readCount? (trim value) = some count ↔ SpellsCount value count ∧ count ≤ maxWrittenDepth := by
  simp [readCount_eq_some_iff, SpellsCount, ← trim_eq_iff]

theorem productionVariable_ne : productionVariable ≠ maxDepthVariable := by
  decide

/-- A value for one of the variables is good; any value is, for another name. -/
inductive Good : String × String → Prop where
  | flag {value : String} {on : Bool} (spells : SpellsFlag value on) :
      Good (productionVariable, value)
  | limit {value : String} {limit : Nat} (spells : SpellsLimit value limit) :
      Good (maxDepthVariable, value)
  | other {name value : String} (noFlag : name ≠ productionVariable)
      (noLimit : name ≠ maxDepthVariable) : Good (name, value)

/-- A value that is not good, and the fault that it is. However zero is spelled, the fault says `0`.
-/
inductive Bad : String × String → OptionsFault → Prop where
  | flag {value trimmed : String} (trims : Trims value trimmed) (none : ∀ on, ¬ SpellsFlag value on) :
      Bad (productionVariable, value) (.invalidFlag productionVariable trimmed)
  | zero {value : String} (spells : SpellsCount value 0) :
      Bad (maxDepthVariable, value) (.invalidDepth maxDepthVariable "0")
  | limit {value trimmed : String} (trims : Trims value trimmed)
      (none : ∀ count ≤ maxWrittenDepth, ¬ SpellsCount value count) :
      Bad (maxDepthVariable, value) (.invalidDepth maxDepthVariable trimmed)

section Takes

variable {assignment : String × String} {fault : OptionsFault} (options : Options)

theorem takeVariable_flag (spells : SpellsFlag value on) :
    options.takeVariable productionVariable value = .ok { options with production := on } := by
  simp only [takeVariable, readFlag_trim.2 spells, if_pos]

theorem takeVariable_limit (spells : SpellsLimit value limit) :
    options.takeVariable maxDepthVariable value = .ok { options with maxDepth := limit } := by
  have hpositive : limit ≠ 0 := Nat.ne_of_gt spells.positive
  have hread : readCount? (trim value) = some limit := readCount_trim.2 ⟨spells.count, spells.le⟩
  simp only [takeVariable, hread, checkDepth, if_neg hpositive]
  rfl

theorem takeVariable_other {name : String} (noFlag : name ≠ productionVariable)
    (noLimit : name ≠ maxDepthVariable) (value : String) :
    options.takeVariable name value = .ok options := by
  simp only [takeVariable, if_neg noFlag, if_neg noLimit]

theorem takeVariable_of_bad (bad : Bad assignment fault) :
    options.takeVariable assignment.1 assignment.2 = .error fault := by
  cases bad with
  | @flag value trimmed trims none =>
    obtain rfl := trim_eq_iff.2 trims
    have hread : readFlag? (trim value) = Option.none :=
      Option.eq_none_iff_forall_ne_some.2 fun on ↦ mt readFlag_trim.1 (none on)
    simp only [takeVariable, hread, if_pos]
  | @zero value spells =>
    have hread : readCount? (trim value) = some 0 := readCount_trim.2 ⟨spells, Nat.zero_le _⟩
    simp only [takeVariable, hread]
    rfl
  | @limit value trimmed trims none =>
    obtain rfl := trim_eq_iff.2 trims
    have hread : readCount? (trim value) = Option.none :=
      Option.eq_none_iff_forall_ne_some.2 fun count hcount ↦
        none count (readCount_trim.1 hcount).2 (readCount_trim.1 hcount).1
    simp only [takeVariable, hread]
    rfl

theorem good_or_bad (assignment : String × String) :
    Good assignment ∨ ∃ fault, Bad assignment fault := by
  obtain ⟨name, value⟩ := assignment
  by_cases isFlag : name = productionVariable
  · subst isFlag
    by_cases spells : ∃ on, SpellsFlag value on
    · obtain ⟨on, spells⟩ := spells
      exact .inl (.flag spells)
    · exact .inr ⟨_, .flag (trims_trim value) (not_exists.1 spells)⟩
  by_cases isLimit : name = maxDepthVariable
  · subst isLimit
    by_cases spells : ∃ count ≤ maxWrittenDepth, SpellsCount value count
    · obtain ⟨count, le, spells⟩ := spells
      rcases Nat.eq_zero_or_pos count with rfl | positive
      · exact .inr ⟨_, .zero spells⟩
      · exact .inl (.limit ⟨spells, positive, le⟩)
    · exact .inr ⟨_, .limit (trims_trim value) fun count le hcount ↦ spells ⟨count, le, hcount⟩⟩
  · exact .inl (.other isFlag isLimit)

end Takes

def assignmentsTo (name : String) (assignments : List (String × String)) :
    List (String × String) :=
  assignments.filter fun assignment ↦ assignment.1 = name

theorem assignmentsTo_cons_of_ne {name : String} {assignment : String × String}
    (other : assignment.1 ≠ name) (assignments : List (String × String)) :
    assignmentsTo name (assignment :: assignments) = assignmentsTo name assignments :=
  List.filter_cons_of_neg (by simpa using other)

theorem assignmentsTo_cons_self (name value : String) (assignments : List (String × String)) :
    assignmentsTo name ((name, value) :: assignments) =
      (name, value) :: assignmentsTo name assignments :=
  List.filter_cons_of_pos (by simp)

theorem mem_assignmentsTo_iff {name : String} {assignment : String × String}
    {assignments : List (String × String)} :
    assignment ∈ assignmentsTo name assignments ↔
      assignment ∈ assignments ∧ assignment.1 = name := by
  rw [assignmentsTo, List.mem_filter, decide_eq_true_eq]

/-- The setting that the last value for a variable gives; the default if there is none. -/
def LastGives {α : Type} (name : String) (Spells : String → α → Prop) (default : α)
    (assignments : List (String × String)) (setting : α) : Prop :=
  match (assignmentsTo name assignments).getLast? with
  | none => setting = default
  | some assignment => Spells assignment.2 setting

section LastGives

variable {α : Type} {name : String} {Spells : String → α → Prop} {default current setting : α}
  {assignments : List (String × String)}

theorem lastGives_nil : LastGives name Spells default [] setting ↔ setting = default :=
  Iff.rfl

theorem lastGives_cons_of_ne {assignment : String × String} (other : assignment.1 ≠ name) :
    LastGives name Spells default (assignment :: assignments) setting ↔
      LastGives name Spells default assignments setting := by
  rw [LastGives, LastGives, assignmentsTo_cons_of_ne other]

/-- A value for the variable is the default for what comes after it. -/
theorem lastGives_cons_self (spelled : ∀ setting, Spells value setting ↔ setting = current) :
    LastGives name Spells default ((name, value) :: assignments) setting ↔
      LastGives name Spells current assignments setting := by
  rw [LastGives, LastGives, assignmentsTo_cons_self, List.getLast?_cons]
  cases (assignmentsTo name assignments).getLast? with
  | none => exact spelled setting
  | some assignment => exact Iff.rfl

theorem lastGives_congr {others : List (String × String)}
    (same : assignmentsTo name others = assignmentsTo name assignments) :
    LastGives name Spells default others setting ↔
      LastGives name Spells default assignments setting := by
  rw [LastGives, same, LastGives]

/-- What holds of the default and of all that values give holds in the end. -/
theorem LastGives.elim (P : α → Prop) (gives : LastGives name Spells default assignments setting)
    (start : P default) (each : ∀ value setting, Spells value setting → P setting) : P setting := by
  rw [LastGives] at gives
  split at gives
  · exact gives ▸ start
  · exact each _ _ gives

end LastGives

theorem SpellsFlag.iff_eq (spells : SpellsFlag value on) (other : Bool) :
    SpellsFlag value other ↔ other = on := by
  rw [← readFlag_trim, readFlag_trim.2 spells, Option.some_inj, eq_comm]

theorem SpellsLimit.iff_eq (spells : SpellsLimit value limit) (other : Nat) :
    SpellsLimit value other ↔ other = limit := by
  constructor
  · intro spells'
    have hread := readCount_trim.2 ⟨spells.count, spells.le⟩
    rw [readCount_trim.2 ⟨spells'.count, spells'.le⟩] at hread
    exact Option.some.inj hread
  · rintro rfl
    exact spells

/-! ## Sequences of assignments -/

variable {assignments : List (String × String)} {fault : OptionsFault}

@[mk_iff]
structure Gives (before : Options) (assignments : List (String × String)) (after : Options) : Prop where
  production : LastGives productionVariable SpellsFlag before.production assignments after.production
  maxDepth : LastGives maxDepthVariable SpellsLimit before.maxDepth assignments after.maxDepth

theorem takeVariables_of_good (good : ∀ assignment ∈ assignments, Good assignment)
    (before after : Options) :
    before.takeVariables assignments = .ok after ↔ Gives before assignments after := by
  induction assignments generalizing before with
  | nil =>
    constructor
    · intro hsame
      obtain rfl := Except.ok.inj hsame
      exact ⟨rfl, rfl⟩
    · rintro ⟨hproduction, hmaxDepth⟩
      obtain ⟨_, _⟩ := after
      obtain rfl := lastGives_nil.1 hproduction
      obtain rfl := lastGives_nil.1 hmaxDepth
      rfl
  | cons assignment assignments ih =>
    obtain ⟨hgood, hrest⟩ := List.forall_mem_cons.1 good
    have hgives (next : Options) (htake : before.takeVariable assignment.1 assignment.2 = .ok next) :
        before.takeVariables (assignment :: assignments) = .ok after ↔ Gives next assignments after := by
      rw [takeVariables, htake]
      exact ih hrest next
    cases hgood with
    | flag spells =>
      rw [hgives _ (takeVariable_flag before spells), gives_iff, gives_iff,
        lastGives_cons_self spells.iff_eq, lastGives_cons_of_ne productionVariable_ne]
    | limit spells =>
      rw [hgives _ (takeVariable_limit before spells), gives_iff, gives_iff,
        lastGives_cons_self spells.iff_eq, lastGives_cons_of_ne productionVariable_ne.symm]
    | other noFlag noLimit =>
      rw [hgives _ (takeVariable_other before noFlag noLimit _), gives_iff, gives_iff,
        lastGives_cons_of_ne noFlag, lastGives_cons_of_ne noLimit]

/-- Good values lead on to what follows them. -/
theorem takeVariables_append (good : ∀ assignment ∈ assignments, Good assignment)
    (options : Options) : ∃ next : Options, ∀ rest,
      options.takeVariables (assignments ++ rest) = next.takeVariables rest := by
  induction assignments generalizing options with
  | nil => exact ⟨options, fun _ ↦ rfl⟩
  | cons assignment assignments ih =>
    obtain ⟨hgood, hrest⟩ := List.forall_mem_cons.1 good
    have htake : ∃ next, options.takeVariable assignment.1 assignment.2 = .ok next := by
      cases hgood with
      | flag spells => exact ⟨_, takeVariable_flag options spells⟩
      | limit spells => exact ⟨_, takeVariable_limit options spells⟩
      | other noFlag noLimit => exact ⟨_, takeVariable_other options noFlag noLimit _⟩
    obtain ⟨next, htake⟩ := htake
    obtain ⟨last, hlast⟩ := ih hrest next
    refine ⟨last, fun rest ↦ ?_⟩
    rw [List.cons_append, takeVariables, htake]
    exact hlast rest

/-- A value that is not good is the fault if all before it are good. -/
theorem takeVariables_of_bad (good : ∀ assignment ∈ assignments, Good assignment)
    {refused : String × String} (bad : Bad refused fault) (rest : List (String × String))
    (options : Options) :
    options.takeVariables (assignments ++ refused :: rest) = .error fault := by
  obtain ⟨next, hnext⟩ := takeVariables_append good options
  rw [hnext, takeVariables, takeVariable_of_bad next bad]
  rfl

theorem all_good_or_first_bad (assignments : List (String × String)) :
    (∀ assignment ∈ assignments, Good assignment) ∨
      ∃ before refused rest fault, assignments = before ++ refused :: rest ∧
        (∀ assignment ∈ before, Good assignment) ∧ Bad refused fault := by
  induction assignments with
  | nil => exact .inl nofun
  | cons assignment assignments ih =>
    rcases good_or_bad assignment with hgood | ⟨fault, hbad⟩
    · rcases ih with hall | ⟨before, refused, rest, fault, rfl, hbefore, hbad⟩
      · exact .inl (List.forall_mem_cons.2 ⟨hgood, hall⟩)
      · exact .inr ⟨assignment :: before, refused, rest, fault, rfl,
          List.forall_mem_cons.2 ⟨hgood, hbefore⟩, hbad⟩
    · exact .inr ⟨[], assignment, assignments, fault, rfl, nofun, hbad⟩

theorem ofVariables_eq_ok_iff {options : Options} : ofVariables assignments = .ok options ↔
    (∀ assignment ∈ assignments, Good assignment) ∧ Gives {} assignments options := by
  constructor
  · intro hread
    rcases all_good_or_first_bad assignments with
      hgood | ⟨before, refused, rest, fault, rfl, hgood, hbad⟩
    · exact ⟨hgood, (takeVariables_of_good hgood {} options).1 hread⟩
    · cases (takeVariables_of_bad hgood hbad rest {}).symm.trans hread
  · exact fun ⟨hgood, hgives⟩ ↦ (takeVariables_of_good hgood {} options).2 hgives

theorem exists_ofVariables_iff : (∃ options, ofVariables assignments = .ok options) ↔
    ∀ assignment ∈ assignments, Good assignment := by
  constructor
  · rintro ⟨options, hread⟩
    exact (ofVariables_eq_ok_iff.1 hread).1
  · intro hgood
    obtain ⟨next, hnext⟩ := takeVariables_append hgood {}
    have hread := hnext []
    rw [List.append_nil] at hread
    exact ⟨next, hread⟩

theorem ofVariables_eq_error_iff : ofVariables assignments = .error fault ↔
    ∃ before refused rest, assignments = before ++ refused :: rest ∧
      (∀ assignment ∈ before, Good assignment) ∧ Bad refused fault := by
  constructor
  · intro hread
    rcases all_good_or_first_bad assignments with
      hgood | ⟨before, refused, rest, fault', rfl, hgood, hbad⟩
    · obtain ⟨options, hok⟩ := exists_ofVariables_iff.2 hgood
      cases hok.symm.trans hread
    · obtain rfl := Except.error.inj ((takeVariables_of_bad hgood hbad rest {}).symm.trans hread)
      exact ⟨before, refused, rest, rfl, hgood, hbad⟩
  · rintro ⟨before, refused, rest, rfl, hgood, hbad⟩
    exact takeVariables_of_bad hgood hbad rest {}

/-- Values for one variable in the same order make the same options if they are all good. -/
theorem ofVariables_of_filter {others : List (String × String)}
    (good : ∀ assignment ∈ assignments, Good assignment)
    (same : ∀ name ∈ [productionVariable, maxDepthVariable],
      assignmentsTo name others = assignmentsTo name assignments) :
    ofVariables others = ofVariables assignments := by
  have hproduction := same productionVariable List.mem_cons_self
  have hmaxDepth := same maxDepthVariable (List.mem_cons_of_mem _ List.mem_cons_self)
  have hmem {name : String} (hsame : assignmentsTo name others = assignmentsTo name assignments)
      {assignment : String × String} (mem : assignment ∈ others) (named : assignment.1 = name) :
      Good assignment := by
    have hto := mem_assignmentsTo_iff.2 ⟨mem, named⟩
    rw [hsame] at hto
    exact good assignment (mem_assignmentsTo_iff.1 hto).1
  have hothers : ∀ assignment ∈ others, Good assignment := by
    intro assignment mem
    by_cases isFlag : assignment.1 = productionVariable
    · exact hmem hproduction mem isFlag
    by_cases isLimit : assignment.1 = maxDepthVariable
    · exact hmem hmaxDepth mem isLimit
    · exact .other isFlag isLimit
  obtain ⟨options, hread⟩ := exists_ofVariables_iff.2 good
  have hgives := (ofVariables_eq_ok_iff.1 hread).2
  have hgives' : Gives {} others options :=
    ⟨(lastGives_congr hproduction).2 hgives.production, (lastGives_congr hmaxDepth).2 hgives.maxDepth⟩
  rw [hread, ofVariables_eq_ok_iff.2 ⟨hothers, hgives'⟩]

/-- Other names are passed over, also if a value is not good. -/
theorem takeVariables_filter (assignments : List (String × String)) (options : Options) :
    options.takeVariables (assignments.filter fun assignment ↦
      assignment.1 ∈ [productionVariable, maxDepthVariable]) =
        options.takeVariables assignments := by
  induction assignments generalizing options with
  | nil => rfl
  | cons assignment assignments ih =>
    by_cases known : assignment.1 ∈ [productionVariable, maxDepthVariable]
    · rw [List.filter_cons_of_pos (by simpa using known), takeVariables, takeVariables]
      cases options.takeVariable assignment.1 assignment.2 with
      | ok next => exact ih next
      | error fault => rfl
    · have hother := known
      rw [List.mem_pair, not_or] at hother
      rw [List.filter_cons_of_neg (by simpa using known), ih, takeVariables,
        takeVariable_other options hother.1 hother.2]
      rfl

/-- How a sequence of assignments is read. Of good values only those for one variable and their
order count, and the first value that is not good is the fault. -/
structure ReadFrom (assignments : List (String × String))
    (result : Except OptionsFault Options) : Prop where
  accepts_iff : (∃ options, result = .ok options) ↔ ∀ assignment ∈ assignments, Good assignment
  accepted_iff : ∀ options, result = .ok options ↔
    (∀ assignment ∈ assignments, Good assignment) ∧ Gives {} assignments options
  refused_iff : ∀ fault, result = .error fault ↔
    ∃ before refused rest, assignments = before ++ refused :: rest ∧
      (∀ assignment ∈ before, Good assignment) ∧ Bad refused fault
  rearranged : (∀ assignment ∈ assignments, Good assignment) → ∀ others : List (String × String),
    (∀ name ∈ [productionVariable, maxDepthVariable],
      assignmentsTo name others = assignmentsTo name assignments) →
    ofVariables others = result
  ignored : ofVariables (assignments.filter fun assignment ↦
    assignment.1 ∈ [productionVariable, maxDepthVariable]) = result
  positive : ∀ options, result = .ok options → options.maxDepth ≠ 0

/-- Variables are read as the last value for each gives if all values are good, and refused for the
first that is not good otherwise. -/
theorem variables_readFrom (assignments : List (String × String)) :
    ReadFrom assignments (ofVariables assignments) where
  accepts_iff := exists_ofVariables_iff
  accepted_iff _ := ofVariables_eq_ok_iff
  refused_iff _ := ofVariables_eq_error_iff
  rearranged good _ same := ofVariables_of_filter good same
  ignored := takeVariables_filter assignments {}
  positive options hread :=
    LastGives.elim (· ≠ 0) (ofVariables_eq_ok_iff.1 hread).2.maxDepth (by decide)
      fun _ _ spells ↦ Nat.ne_of_gt spells.positive

/-- A bad value is the fault although a good one follows, and the fault shows it trimmed. -/
example : ofVariables [("PATH", "x"), (maxDepthVariable, "\t+007 "), (productionVariable, " maybe "),
    (productionVariable, "Yes"), (maxDepthVariable, "0")] =
      .error (.invalidFlag productionVariable "maybe") := by
  decide +kernel

end RuleCheck.Options
