import Mathlib.Data.List.Perm.Subperm
import RuleCheck.Options.Json
import RuleCheck.Proofs.JsonTokens

/-!
# What JSON texts say of options

The two forms of options are written down here as what may stand in a text, apart from the readers:
an object with a member for each setting that is given, and an array of the settings in a fixed
order. A text in one of these forms, with limits in range, makes the options that it gives, with
defaults for the others; any other text is refused. The array form is not documented.
-/

namespace RuleCheck.Options

open Json (Blanks Spelled skipBlanks)

variable {text start after rest : List Char} {bound : Nat} {first : Bool}

/-- What one of the options should be. -/
inductive Setting where
  | production (on : Bool)
  | maxDepth (limit : Nat)

namespace Setting

def name : Setting → String
  | production _ => "production"
  | maxDepth _ => maxDepthMember

def literal : Setting → List Char
  | production true => ['t', 'r', 'u', 'e']
  | production false => ['f', 'a', 'l', 's', 'e']
  | maxDepth limit => Nat.toDigits 10 limit

/-- A limit is below `2 ^ 64`. -/
def Fits : Setting → Prop
  | production _ => True
  | maxDepth limit => limit ≤ maxWrittenDepth

def InRange : Setting → Prop
  | production _ => True
  | maxDepth limit => 1 ≤ limit ∧ limit ≤ maxWrittenDepth

theorem name_cases (setting : Setting) :
    setting.name = "production" ∨ setting.name = maxDepthMember := by
  cases setting with
  | production on => exact .inl rfl
  | maxDepth limit => exact .inr rfl

theorem literal_cons (setting : Setting) : ∃ character more,
    setting.literal = character :: more ∧ Json.isBlank character = false ∧ character ≠ ']' := by
  rcases setting with (_ | _) | limit
  · exact ⟨_, _, rfl, by decide, by decide⟩
  · exact ⟨_, _, rfl, by decide, by decide⟩
  · have denote := Digits.denote_toDigits limit
    obtain ⟨digit, digits, hdigits⟩ := List.exists_cons_of_ne_nil denote.nonempty
    have hdigit := denote.each digit (by rw [hdigits]; exact List.mem_cons_self)
    refine ⟨digit, digits, hdigits, ?_, ?_⟩
    · rw [← Bool.not_eq_true]
      intro hblank
      have hother : ∀ blank ∈ [' ', '\n', '\t', '\r'], blank.isDigit = false := by simp
      cases (hother digit (Json.isBlank_iff.1 hblank)).symm.trans hdigit
    · rintro rfl
      cases hdigit

end Setting

def set (options : Options) : Setting → Options
  | .production on => { options with production := on }
  | .maxDepth limit => { options with maxDepth := limit }

/-- The options that settings give, with defaults for the others. -/
def ofSettings (settings : List Setting) : Options :=
  settings.foldl set {}

section Settings

variable {setting : Setting} {settings : List Setting} (options : Options)

theorem set_set (setting : Setting) :
    (options.set setting).set setting = options.set setting := by
  cases setting <;> rfl

theorem set_comm {other : Setting} (differ : other.name ≠ setting.name) :
    (options.set other).set setting = (options.set setting).set other := by
  cases setting <;> cases other
  · exact absurd rfl differ
  · rfl
  · rfl
  · exact absurd rfl differ

theorem foldl_set_comm (others : ∀ other ∈ settings, other.name ≠ setting.name) :
    (settings.foldl set options).set setting = settings.foldl set (options.set setting) := by
  induction settings generalizing options with
  | nil => rfl
  | cons other settings ih =>
    obtain ⟨differ, others⟩ := List.forall_mem_cons.1 others
    rw [List.foldl_cons, ih _ others, set_comm options differ]
    rfl

/-- A setting given once is one of the options. -/
theorem foldl_set_of_mem (once : (settings.map Setting.name).Nodup) (mem : setting ∈ settings) :
    (settings.foldl set options).set setting = settings.foldl set options := by
  induction settings generalizing options with
  | nil => cases mem
  | cons other settings ih =>
    rw [List.map_cons, List.nodup_cons] at once
    rcases List.mem_cons.1 mem with rfl | mem
    · rw [List.foldl_cons, foldl_set_comm _ fun other hother same ↦ once.1
        (same ▸ List.mem_map_of_mem hother), set_set]
    · exact ih _ once.2 mem

theorem maxDepth_foldl_set_ne_zero (inRange : ∀ setting ∈ settings, setting.InRange)
    (positive : options.maxDepth ≠ 0) : (settings.foldl set options).maxDepth ≠ 0 := by
  induction settings generalizing options with
  | nil => exact positive
  | cons setting settings ih =>
    obtain ⟨hsetting, hsettings⟩ := List.forall_mem_cons.1 inRange
    refine ih _ hsettings ?_
    cases setting with
    | production on => exact positive
    | maxDepth limit => exact Nat.ne_of_gt hsetting.1

/-- The limit of the options is positive exactly if no limit of zero is given. -/
theorem inRange_iff (once : (settings.map Setting.name).Nodup) :
    (∀ setting ∈ settings, setting.InRange) ↔
      (∀ setting ∈ settings, setting.Fits) ∧ (ofSettings settings).maxDepth ≠ 0 := by
  constructor
  · intro inRange
    refine ⟨fun setting mem ↦ ?_, maxDepth_foldl_set_ne_zero {} inRange (by decide)⟩
    cases setting with
    | production on => trivial
    | maxDepth limit => exact (inRange _ mem).2
  · rintro ⟨fits, positive⟩ setting mem
    cases setting with
    | production on => trivial
    | maxDepth limit =>
      have hlimit : (ofSettings settings).maxDepth = limit :=
        congrArg Options.maxDepth (foldl_set_of_mem {} once mem).symm
      exact ⟨Nat.pos_of_ne_zero (hlimit ▸ positive), fits _ mem⟩

end Settings

/-! ## Forms -/

/-- Nothing stands before the first part of a row, and a comma before every other. -/
inductive Separated : Bool → List Char → List Char → Prop where
  | first (text : List Char) : Separated true text text
  | comma {text rest : List Char} (blanks : Blanks text (',' :: rest)) : Separated false text rest

inductive Row (Part : Setting → List Char → List Char → Prop) (closing : Char) :
    Bool → List Setting → List Char → List Char → Prop where
  | closed {first : Bool} {text rest : List Char} (blanks : Blanks text (closing :: rest)) :
      Row Part closing first [] text rest
  | part {first : Bool} {setting : Setting} {settings : List Setting}
      {text start after rest : List Char} (separated : Separated first text start)
      (part : Part setting start after) (more : Row Part closing false settings after rest) :
      Row Part closing first (setting :: settings) text rest

def Item (setting : Setting) (text rest : List Char) : Prop :=
  Blanks text (setting.literal ++ rest)

/-- A member of an object is the name of a setting, a colon and the value. -/
inductive Member (setting : Setting) : List Char → List Char → Prop where
  | mk {text name colon value rest : List Char} (quote : Blanks text ('"' :: name))
      (spelled : Spelled name setting.name.toList colon) (separated : Blanks colon (':' :: value))
      (item : Item setting value rest) : Member setting text rest

/-- The settings of an array stand in order, and the last ones may be left out. -/
inductive InOrder : List Setting → Prop where
  | none : InOrder []
  | production (on : Bool) : InOrder [.production on]
  | both (on : Bool) (limit : Nat) : InOrder [.production on, .maxDepth limit]

def IsObject (text : List Char) (settings : List Setting) : Prop :=
  ∃ start rest, Blanks text ('\x7b' :: start) ∧ Row Member '\x7d' true settings start rest ∧
    Blanks rest []

def IsArray (text : List Char) (settings : List Setting) : Prop :=
  ∃ start rest, Blanks text ('[' :: start) ∧ Row Item ']' true settings start rest ∧ Blanks rest []

/-- The documented form: an object that gives each setting at most once, with limits in range. -/
structure Documented (text : String) (settings : List Setting) : Prop where
  object : IsObject text.toList settings
  once : (settings.map Setting.name).Nodup
  inRange : ∀ setting ∈ settings, setting.InRange

/-- The other form: an array of settings in order, with limits in range. -/
structure Positional (text : String) (settings : List Setting) : Prop where
  array : IsArray text.toList settings
  inOrder : InOrder settings
  inRange : ∀ setting ∈ settings, setting.InRange

theorem Item.skipBlanks_eq {setting : Setting} (item : Item setting text rest) :
    skipBlanks text = setting.literal ++ rest := by
  obtain ⟨character, more, hliteral, hblank, -⟩ := setting.literal_cons
  rw [Item, hliteral, List.cons_append] at item
  rw [hliteral, List.cons_append, (Json.skipBlanks_eq_cons_iff hblank).2 item]

theorem readBool_eq_ok_iff {on : Bool} :
    readBool bound text = .ok (on, rest) ↔ Item (.production on) text rest := by
  constructor
  · intro hread
    have hblanks := Json.blanks_skipBlanks text
    unfold readBool at hread
    split at hread
    · next hskip =>
      obtain ⟨after, hexpect, hread⟩ := bind_eq_ok_iff.1 hread
      obtain ⟨rfl, rfl⟩ := Prod.mk.inj (Except.ok.inj hread)
      rwa [hskip, Json.expect_eq_ok_iff.1 hexpect] at hblanks
    · next hskip =>
      obtain ⟨after, hexpect, hread⟩ := bind_eq_ok_iff.1 hread
      obtain ⟨rfl, rfl⟩ := Prod.mk.inj (Except.ok.inj hread)
      rwa [hskip, Json.expect_eq_ok_iff.1 hexpect] at hblanks
    · cases hread
  · intro item
    rw [readBool, item.skipBlanks_eq]
    cases on with
    | true => exact bind_eq_ok_iff.2 ⟨rest, Json.expect_eq_ok_iff.2 rfl, rfl⟩
    | false => exact bind_eq_ok_iff.2 ⟨rest, Json.expect_eq_ok_iff.2 rfl, rfl⟩

theorem readDepth_eq_ok_iff {limit : Nat} :
    readDepth bound text = .ok (limit, rest) ↔
      limit ≤ maxWrittenDepth ∧ Item (.maxDepth limit) text rest ∧ JsonNumber.Ends rest := by
  constructor
  · intro hread
    have hblanks := Json.blanks_skipBlanks text
    unfold readDepth at hread
    dsimp only at hread
    split at hread
    · obtain ⟨⟨number, after⟩, hnumber, hread⟩ := bind_eq_ok_iff.1 hread
      split at hread
      · next value after hvalue =>
        obtain ⟨rfl, rfl⟩ := Prod.mk.inj hvalue
        split at hread
        · next positive =>
          obtain ⟨rfl, rfl⟩ := Prod.mk.inj (Except.ok.inj hread)
          rw [← Int.toNat_of_nonneg positive] at hnumber
          obtain ⟨fits, htext, ends⟩ := JsonNumber.read_eq_natural_iff.1 hnumber
          rw [htext] at hblanks
          exact ⟨fits, hblanks, ends⟩
        · cases hread
      · cases hread
    · cases hread
  · rintro ⟨fits, item, ends⟩
    have htext : skipBlanks text = Nat.toDigits 10 limit ++ rest := item.skipBlanks_eq
    have hdigit := JsonNumber.startsWithDigit_append (Digits.denote_toDigits limit) rest
    rw [readDepth, htext, if_pos (by simp [hdigit])]
    refine bind_eq_ok_iff.2 ⟨_, JsonNumber.read_eq_natural_iff.2 ⟨fits, rfl, ends⟩, ?_⟩
    dsimp only
    rw [if_pos (Int.natCast_nonneg limit)]
    rfl

theorem readColon_eq_ok_iff : Json.readColon text = .ok rest ↔ Blanks text (':' :: rest) := by
  rw [← Json.skipBlanks_eq_cons_iff (by decide), Json.readColon]
  split
  · next hskip => exact iff_of_false nofun (by simp [hskip])
  · next hskip => simp [hskip]
  · next other => exact iff_of_false nofun fun hskip ↦ other rest hskip

theorem readMemberStart_closed_iff :
    Json.readMemberStart first text = .ok (.closed, rest) ↔ Blanks text ('\x7d' :: rest) := by
  rw [← Json.skipBlanks_eq_cons_iff (by decide)]
  constructor
  · intro hread
    unfold Json.readMemberStart at hread
    repeat' split at hread
    all_goals cases hread
    assumption
  · intro hskip
    simp only [Json.readMemberStart, hskip]

/-- The next name follows a comma, unless it is the first. -/
theorem readMemberStart_name_iff :
    Json.readMemberStart first text = .ok (.name, rest) ↔
      ∃ start, Separated first text start ∧ Blanks start ('"' :: rest) := by
  constructor
  · intro hread
    unfold Json.readMemberStart at hread
    split at hread
    · cases hread
    · cases hread
    · next hskip =>
      split at hread
      · next hfirst =>
        cases hread
        exact ⟨text, hfirst ▸ .first text, (Json.skipBlanks_eq_cons_iff (by decide)).1 hskip⟩
      · cases hread
    · next start hskip =>
      split at hread
      · cases hread
      · next hfirst =>
        obtain rfl := Bool.eq_false_iff.2 hfirst
        split at hread
        · cases hread
        · next hname =>
          cases hread
          exact ⟨start, .comma ((Json.skipBlanks_eq_cons_iff (by decide)).1 hskip),
            (Json.skipBlanks_eq_cons_iff (by decide)).1 hname⟩
        · cases hread
    · cases hread
  · rintro ⟨start, separated, quote⟩
    have hquote := (Json.skipBlanks_eq_cons_iff (by decide)).2 quote
    cases separated with
    | first => simp only [Json.readMemberStart, hquote, if_pos]
    | comma blanks =>
      simp only [Json.readMemberStart, (Json.skipBlanks_eq_cons_iff (by decide)).2 blanks, hquote,
        Bool.false_eq_true, if_false]

def Given.put (given : Given) : Setting → Given
  | .production on => { given with production := some on }
  | .maxDepth limit => { given with maxDepth := some limit }

def Given.Lacks (given : Given) : Setting → Prop
  | .production _ => given.production = none
  | .maxDepth _ => given.maxDepth = none

theorem Given.options_put (given : Given) (setting : Setting) :
    (given.put setting).options = given.options.set setting := by
  cases setting <;> rfl

theorem Given.lacks_put_iff (given : Given) (setting other : Setting) :
    (given.put setting).Lacks other ↔ given.Lacks other ∧ setting.name ≠ other.name := by
  cases setting <;> cases other <;> simp [put, Lacks, Setting.name, maxDepthMember]

variable {given result : Given} {setting : Setting} {settings : List Setting}

/-- Only the value of an option that has not been read is accepted. -/
theorem item_of_readMember {name : String}
    (read : readMember bound given name text = .ok (result, rest)) :
    ∃ setting value, setting.name = name ∧ given.Lacks setting ∧ setting.Fits ∧
      Blanks text (':' :: value) ∧ Item setting value rest ∧ result = given.put setting := by
  unfold readMember at read
  split at read
  · next hname =>
    split at read
    · cases read
    · next lacks =>
      obtain ⟨value, hcolon, read⟩ := bind_eq_ok_iff.1 read
      obtain ⟨⟨on, after⟩, hon, read⟩ := bind_eq_ok_iff.1 read
      cases read
      exact ⟨.production on, value, hname.symm, Option.not_isSome_iff_eq_none.1 lacks, trivial,
        readColon_eq_ok_iff.1 hcolon, readBool_eq_ok_iff.1 hon, rfl⟩
  · split at read
    · next hname =>
      split at read
      · cases read
      · next lacks =>
        obtain ⟨value, hcolon, read⟩ := bind_eq_ok_iff.1 read
        obtain ⟨⟨limit, after⟩, hlimit, read⟩ := bind_eq_ok_iff.1 read
        cases read
        obtain ⟨fits, item, -⟩ := readDepth_eq_ok_iff.1 hlimit
        exact ⟨.maxDepth limit, value, hname.symm, Option.not_isSome_iff_eq_none.1 lacks, fits,
          readColon_eq_ok_iff.1 hcolon, item, rfl⟩
    · cases read

theorem readMember_of_item {value : List Char} (lacks : given.Lacks setting) (fits : setting.Fits)
    (colon : Blanks text (':' :: value)) (item : Item setting value rest)
    (ends : JsonNumber.Ends rest) :
    readMember bound given setting.name text = .ok (given.put setting, rest) := by
  have hcolon := readColon_eq_ok_iff.2 colon
  cases setting with
  | production on =>
    have hname : (Setting.production on).name = "production" := rfl
    rw [readMember, if_pos hname, if_neg (Option.not_isSome_iff_eq_none.2 lacks)]
    exact bind_eq_ok_iff.2 ⟨value, hcolon, bind_eq_ok_iff.2 ⟨_, readBool_eq_ok_iff.2 item, rfl⟩⟩
  | maxDepth limit =>
    have hname : (Setting.maxDepth limit).name = maxDepthMember := rfl
    have hother : maxDepthMember ≠ "production" := by decide
    have hlimit : readDepth bound value = .ok (limit, rest) :=
      readDepth_eq_ok_iff.2 ⟨fits, item, ends⟩
    rw [hname, readMember, if_neg hother, if_pos rfl,
      if_neg (Option.not_isSome_iff_eq_none.2 lacks)]
    exact bind_eq_ok_iff.2 ⟨value, hcolon, bind_eq_ok_iff.2 ⟨_, hlimit, rfl⟩⟩

/-- Settings of different options, of which none has been read. -/
structure Fresh (given : Given) (settings : List Setting) : Prop where
  once : (settings.map Setting.name).Nodup
  lacks : ∀ setting ∈ settings, given.Lacks setting

theorem fresh_cons_iff :
    Fresh given (setting :: settings) ↔
      given.Lacks setting ∧ Fresh (given.put setting) settings := by
  constructor
  · rintro ⟨once, lacks⟩
    rw [List.map_cons, List.nodup_cons] at once
    obtain ⟨hsetting, hsettings⟩ := List.forall_mem_cons.1 lacks
    refine ⟨hsetting, once.2, fun other mem ↦ ?_⟩
    refine (given.lacks_put_iff setting other).2 ⟨hsettings other mem, fun same ↦ ?_⟩
    exact once.1 (same ▸ List.mem_map_of_mem mem)
  · rintro ⟨hsetting, once, lacks⟩
    have hother (other : Setting) (mem : other ∈ settings) :=
      (given.lacks_put_iff setting other).1 (lacks other mem)
    refine ⟨List.nodup_cons.2 ⟨fun mem ↦ ?_, once⟩,
      List.forall_mem_cons.2 ⟨hsetting, fun other mem ↦ (hother other mem).1⟩⟩
    obtain ⟨other, mem, same⟩ := List.mem_map.1 mem
    exact (hother other mem).2 same.symm

/-- There are only two options. -/
theorem Fresh.length_le (fresh : Fresh given settings) : settings.length ≤ 2 := by
  have hnames : settings.map Setting.name ⊆ ["production", maxDepthMember] := by
    intro name mem
    obtain ⟨setting, -, rfl⟩ := List.mem_map.1 mem
    simpa using setting.name_cases
  have hle := (List.subperm_of_subset fresh.once hnames).length_le
  rwa [List.length_map] at hle

theorem Item.length_le (item : Item setting text rest) : rest.length ≤ text.length := by
  have hle := Blanks.length_le item
  rw [List.length_append] at hle
  omega

theorem Member.length_le (member : Member setting text rest) : rest.length ≤ text.length := by
  obtain ⟨quote, spelled, separated, item⟩ := member
  have hquote := quote.length_le
  have hspelled := spelled.length_le
  have hseparated := separated.length_le
  have hitem := item.length_le
  simp only [List.length_cons] at hquote hseparated
  omega

theorem Separated.length_le (separated : Separated first text start) :
    start.length ≤ text.length := by
  cases separated with
  | first => exact Nat.le_refl _
  | comma blanks => exact Nat.le_of_succ_le blanks.length_le

theorem Row.ends {Part : Setting → List Char → List Char → Prop} {closing : Char}
    (row : Row Part closing false settings text rest) (mem : closing ∈ ['\x7d', ']']) :
    JsonNumber.Ends text := by
  cases row with
  | closed blanks => exact JsonNumber.ends_of_blanks blanks (List.mem_cons_of_mem _ mem)
  | part separated part more =>
    cases separated with
    | comma blanks => exact JsonNumber.ends_of_blanks blanks List.mem_cons_self

theorem Member.of_readMember {name colon : List Char} {value : String}
    (quote : Blanks start ('"' :: name)) (spelled : Spelled name value.toList colon)
    (read : readMember bound given value colon = .ok (result, rest)) :
    ∃ setting, Member setting start rest ∧ given.Lacks setting ∧ setting.Fits ∧
      result = given.put setting := by
  obtain ⟨setting, text, rfl, lacks, fits, separated, item, hresult⟩ := item_of_readMember read
  exact ⟨setting, .mk quote spelled separated item, lacks, fits, hresult⟩

/-- Whatever is read of an object is a row of members. The bound must hold the longest name. -/
theorem row_of_readMembers {fuel : Nat} (enough : text.length ≤ bound)
    (read : readMembers bound fuel first given text = .ok (result, rest)) :
    ∃ settings, Row Member '\x7d' first settings text rest ∧ Fresh given settings ∧
      (∀ setting ∈ settings, setting.Fits) ∧ result = settings.foldl Given.put given := by
  induction fuel generalizing first given text with
  | zero => cases read
  | succ fuel ih =>
    obtain ⟨⟨kind, after⟩, hstart, read⟩ := bind_eq_ok_iff.1 read
    cases kind with
    | closed =>
      cases read
      exact ⟨[], .closed (readMemberStart_closed_iff.1 hstart), ⟨List.nodup_nil, nofun⟩, nofun, rfl⟩
    | name =>
      obtain ⟨start, separated, quote⟩ := readMemberStart_name_iff.1 hstart
      have hstart := Nat.le_trans separated.length_le enough
      obtain ⟨⟨name, colon⟩, hname, read⟩ := bind_eq_ok_iff.1 read
      have hquote := Nat.le_trans (Nat.le_of_succ_le quote.length_le) hstart
      have spelled := (Json.readText_eq_ok_iff hquote).1 hname
      obtain ⟨⟨next, more⟩, hmember, read⟩ := bind_eq_ok_iff.1 read
      obtain ⟨setting, member, lacks, fits, rfl⟩ := Member.of_readMember quote spelled hmember
      obtain ⟨settings, row, fresh, hfits, hresult⟩ := ih (Nat.le_trans member.length_le hstart) read
      exact ⟨setting :: settings, .part separated member row, fresh_cons_iff.2 ⟨lacks, fresh⟩,
        List.forall_mem_cons.2 ⟨fits, hfits⟩, hresult⟩

/-- A row of members is read if no option is given twice. -/
theorem readMembers_of_row (row : Row Member '\x7d' first settings text rest)
    (enough : text.length ≤ bound) (fresh : Fresh given settings)
    (fits : ∀ setting ∈ settings, setting.Fits) {fuel : Nat} (turns : settings.length < fuel) :
    readMembers bound fuel first given text = .ok (settings.foldl Given.put given, rest) := by
  induction row generalizing given fuel with
  | closed blanks =>
    obtain ⟨fuel, rfl⟩ := Nat.exists_eq_succ_of_ne_zero (Nat.ne_of_gt turns)
    exact bind_eq_ok_iff.2 ⟨_, readMemberStart_closed_iff.2 blanks, rfl⟩
  | part separated member more ih =>
    obtain ⟨fuel, rfl⟩ := Nat.exists_eq_succ_of_ne_zero (Nat.ne_of_gt (Nat.zero_lt_of_lt turns))
    obtain ⟨lacks, fresh⟩ := fresh_cons_iff.1 fresh
    obtain ⟨hfits, fits⟩ := List.forall_mem_cons.1 fits
    have hstart := Nat.le_trans separated.length_le enough
    have hmore := Nat.le_trans member.length_le hstart
    obtain ⟨quote, spelled, colon, item⟩ := member
    have hname := Nat.le_trans (Nat.le_of_succ_le quote.length_le) hstart
    -- a limit is read up to what follows it, which is a comma or the bracket
    have ends := more.ends List.mem_cons_self
    exact bind_eq_ok_iff.2 ⟨_, readMemberStart_name_iff.2 ⟨_, separated, quote⟩,
      bind_eq_ok_iff.2 ⟨_, (Json.readText_eq_ok_iff hname).2 spelled,
      bind_eq_ok_iff.2 ⟨_, readMember_of_item lacks hfits colon item ends,
      ih hmore fresh fits (Nat.lt_of_succ_lt_succ turns)⟩⟩⟩

theorem readArrayEnd_eq_ok_iff : readArrayEnd text = .ok rest ↔ Blanks text (']' :: rest) := by
  rw [← Json.skipBlanks_eq_cons_iff (by decide), readArrayEnd]
  split
  · next hskip => exact iff_of_false nofun (by simp [hskip])
  · next hskip => simp [hskip]
  · next other => exact iff_of_false nofun fun hskip ↦ other rest hskip

theorem readItemStart_of_closed (closed : Blanks text (']' :: rest)) :
    readItemStart first text = .ok none := by
  simp only [readItemStart, (Json.skipBlanks_eq_cons_iff (by decide)).2 closed]

/-- An item follows a comma, unless it is the first. -/
theorem separated_of_readItemStart (read : readItemStart first text = .ok (some start)) :
    ∃ before, Separated first text before ∧ Blanks before start := by
  have hblanks := Json.blanks_skipBlanks text
  unfold readItemStart at read
  split at read
  · cases read
  · cases read
  · next before hskip =>
    rw [hskip] at hblanks
    split at read
    · next hfirst =>
      cases read
      exact ⟨text, hfirst ▸ .first text, hblanks⟩
    · next hfirst =>
      obtain rfl := Bool.eq_false_iff.2 hfirst
      split at read
      · cases read
      · cases read
      · cases read
        exact ⟨before, .comma hblanks, Json.blanks_skipBlanks before⟩
  · split at read
    · next hfirst =>
      cases read
      exact ⟨text, hfirst ▸ .first text, hblanks⟩
    · cases read

theorem readItemStart_of_item (separated : Separated first text start)
    (item : Item setting start rest) :
    readItemStart first text = .ok (some (setting.literal ++ rest)) := by
  obtain ⟨character, more, hliteral, -, notClosed⟩ := setting.literal_cons
  have hskip := item.skipBlanks_eq
  rw [hliteral, List.cons_append] at hskip ⊢
  cases separated with
  | first =>
    rw [readItemStart, hskip]
    split
    · next hempty => cases hempty
    · next hclosed => exact absurd (List.cons.inj hclosed).1 notClosed
    · next hcomma => rw [if_pos rfl, hcomma]
    · exact if_pos rfl
  | comma blanks =>
    simp only [readItemStart, (Json.skipBlanks_eq_cons_iff (by decide)).2 blanks, hskip,
      Bool.false_eq_true, if_false]
    split
    · next hempty => cases hempty
    · next hclosed => exact absurd (List.cons.inj hclosed).1 notClosed
    · rfl

/-- Whatever is read of an array is a row of items in order. -/
theorem row_of_readItems (read : readItems bound text = .ok (result, rest)) :
    ∃ settings, Row Item ']' true settings text rest ∧ InOrder settings ∧
      (∀ setting ∈ settings, setting.Fits) ∧ result = settings.foldl Given.put {} := by
  obtain ⟨item, hfirst, read⟩ := bind_eq_ok_iff.1 read
  cases item with
  | none =>
    obtain ⟨after, hclosed, read⟩ := bind_eq_ok_iff.1 read
    cases read
    exact ⟨[], .closed (readArrayEnd_eq_ok_iff.1 hclosed), .none, nofun, rfl⟩
  | some start =>
    obtain ⟨before, separated, hblanks⟩ := separated_of_readItemStart hfirst
    obtain ⟨⟨on, after⟩, hon, read⟩ := bind_eq_ok_iff.1 read
    have production : Item (.production on) before after :=
      hblanks.trans (readBool_eq_ok_iff.1 hon)
    obtain ⟨item, hsecond, read⟩ := bind_eq_ok_iff.1 read
    cases item with
    | none =>
      obtain ⟨closed, hclosed, read⟩ := bind_eq_ok_iff.1 read
      cases read
      exact ⟨[.production on],
        .part separated production (.closed (readArrayEnd_eq_ok_iff.1 hclosed)), .production on,
        List.forall_mem_singleton.2 trivial, rfl⟩
    | some start =>
      obtain ⟨before, separated', hblanks⟩ := separated_of_readItemStart hsecond
      obtain ⟨⟨limit, after⟩, hlimit, read⟩ := bind_eq_ok_iff.1 read
      obtain ⟨fits, hitem, -⟩ := readDepth_eq_ok_iff.1 hlimit
      have maxDepth : Item (.maxDepth limit) before after := hblanks.trans hitem
      obtain ⟨closed, hclosed, read⟩ := bind_eq_ok_iff.1 read
      cases read
      exact ⟨[.production on, .maxDepth limit],
        .part separated production
          (.part separated' maxDepth (.closed (readArrayEnd_eq_ok_iff.1 hclosed))), .both on limit,
        List.forall_mem_cons.2 ⟨trivial, List.forall_mem_singleton.2 fits⟩, rfl⟩

/-- A row of items in order is read. -/
theorem readItems_of_row (row : Row Item ']' true settings text rest) (inOrder : InOrder settings)
    (fits : ∀ setting ∈ settings, setting.Fits) :
    readItems bound text = .ok (settings.foldl Given.put {}, rest) := by
  cases inOrder with
  | none =>
    cases row with
    | closed blanks =>
      exact bind_eq_ok_iff.2 ⟨none, readItemStart_of_closed blanks,
        bind_eq_ok_iff.2 ⟨rest, readArrayEnd_eq_ok_iff.2 blanks, rfl⟩⟩
  | production on =>
    cases row with
    | part separated production row =>
    cases row with
    | closed blanks =>
      exact bind_eq_ok_iff.2 ⟨_, readItemStart_of_item separated production,
        bind_eq_ok_iff.2 ⟨_, readBool_eq_ok_iff.2 (Blanks.refl _),
        bind_eq_ok_iff.2 ⟨none, readItemStart_of_closed blanks,
        bind_eq_ok_iff.2 ⟨rest, readArrayEnd_eq_ok_iff.2 blanks, rfl⟩⟩⟩⟩
  | both on limit =>
    cases row with
    | part separated production row =>
    cases row with
    | part separated' maxDepth row =>
    have ends := row.ends (List.mem_cons_of_mem _ List.mem_cons_self)
    have hlimit := fits _ (List.mem_cons_of_mem _ List.mem_cons_self)
    cases row with
    | closed blanks =>
      exact bind_eq_ok_iff.2 ⟨_, readItemStart_of_item separated production,
        bind_eq_ok_iff.2 ⟨_, readBool_eq_ok_iff.2 (Blanks.refl _),
        bind_eq_ok_iff.2 ⟨_, readItemStart_of_item separated' maxDepth,
        bind_eq_ok_iff.2 ⟨_, readDepth_eq_ok_iff.2 ⟨hlimit, Blanks.refl _, ends⟩,
        bind_eq_ok_iff.2 ⟨rest, readArrayEnd_eq_ok_iff.2 blanks, rfl⟩⟩⟩⟩⟩

/-! ## Texts -/

theorem InOrder.once (inOrder : InOrder settings) : (settings.map Setting.name).Nodup := by
  cases inOrder with
  | none => exact List.nodup_nil
  | production on => exact by simp
  | both on limit => exact (by decide : ["production", maxDepthMember].Nodup)

theorem options_foldl_put (settings : List Setting) (given : Given) :
    (settings.foldl Given.put given).options = settings.foldl set given.options := by
  induction settings generalizing given with
  | nil => rfl
  | cons setting settings ih => rw [List.foldl_cons, ih, given.options_put]; rfl

theorem finish_eq_ok_iff {α : Type} {value : α} {read : α × List Char} :
    Json.finish read = .ok value ↔ read.1 = value ∧ Blanks read.2 [] := by
  rw [← Json.skipBlanks_eq_nil_iff, Json.finish]
  split
  · next hempty => rw [Except.ok.injEq, and_iff_left (List.isEmpty_iff.1 hempty)]
  · next hmore => exact iff_of_false nofun fun hread ↦ hmore (List.isEmpty_iff.2 hread.2)

theorem readGiven_eq_ok_iff (enough : text.length ≤ bound) :
    readGiven bound text = .ok (result, rest) ↔ ∃ settings start,
      (Blanks text ('\x7b' :: start) ∧ Row Member '\x7d' true settings start rest ∧
          (settings.map Setting.name).Nodup ∨
        Blanks text ('[' :: start) ∧ Row Item ']' true settings start rest ∧ InOrder settings) ∧
      (∀ setting ∈ settings, setting.Fits) ∧ result = settings.foldl Given.put {} := by
  constructor
  · intro hread
    have hblanks := Json.blanks_skipBlanks text
    unfold readGiven at hread
    split at hread
    · next start hskip =>
      rw [hskip] at hblanks
      have hle := Nat.le_trans (Nat.le_of_succ_le hblanks.length_le) enough
      obtain ⟨settings, row, fresh, fits, hresult⟩ := row_of_readMembers hle hread
      exact ⟨settings, start, .inl ⟨hblanks, row, fresh.once⟩, fits, hresult⟩
    · next start hskip =>
      rw [hskip] at hblanks
      obtain ⟨settings, row, inOrder, fits, hresult⟩ := row_of_readItems hread
      exact ⟨settings, start, .inr ⟨hblanks, row, inOrder⟩, fits, hresult⟩
    · cases hread
  · rintro ⟨settings, start, ⟨hblanks, row, once⟩ | ⟨hblanks, row, inOrder⟩, fits, rfl⟩
    · have hle := Nat.le_trans (Nat.le_of_succ_le hblanks.length_le) enough
      have fresh : Fresh {} settings := ⟨once, fun setting _ ↦ by cases setting <;> rfl⟩
      simp only [readGiven, (Json.skipBlanks_eq_cons_iff (by decide)).2 hblanks]
      exact readMembers_of_row row hle fresh fits (Nat.lt_succ_of_le fresh.length_le)
    · simp only [readGiven, (Json.skipBlanks_eq_cons_iff (by decide)).2 hblanks]
      exact readItems_of_row row inOrder fits

theorem checkDepth_eq_ok_iff {name : String} {depth checked : Nat} :
    checkDepth name depth = .ok checked ↔ depth = checked ∧ depth ≠ 0 := by
  rw [checkDepth]
  split
  · next zero => exact iff_of_false nofun fun positive ↦ positive.2 zero
  · next positive => rw [Except.ok.injEq, and_iff_left positive]

/-- What has been read is accepted if nothing follows and its limit is positive. -/
theorem ofJson_eq_ok_iff_given {text : String} {options : Options} :
    ofJson text = .ok options ↔ ∃ given rest,
      readGiven text.toList.length text.toList = .ok (given, rest) ∧ Blanks rest [] ∧
        options = given.options ∧ options.maxDepth ≠ 0 := by
  constructor
  · intro hread
    unfold ofJson at hread
    dsimp only at hread
    split at hread
    · cases hread
    · next given hfinish =>
      obtain ⟨⟨given, rest⟩, hgiven, hend⟩ := bind_eq_ok_iff.1 hfinish
      obtain ⟨rfl, hblanks⟩ := finish_eq_ok_iff.1 hend
      obtain ⟨limit, hlimit, hread⟩ := bind_eq_ok_iff.1 hread
      obtain ⟨rfl, positive⟩ := checkDepth_eq_ok_iff.1 hlimit
      cases hread
      exact ⟨given, rest, hgiven, hblanks, rfl, positive⟩
  · rintro ⟨given, rest, hgiven, hblanks, rfl, positive⟩
    have hfinish : readGiven text.toList.length text.toList >>= Json.finish = .ok given :=
      bind_eq_ok_iff.2 ⟨_, hgiven, finish_eq_ok_iff.2 ⟨rfl, hblanks⟩⟩
    simp only [ofJson, hfinish]
    exact bind_eq_ok_iff.2 ⟨_, checkDepth_eq_ok_iff.2 ⟨rfl, positive⟩, rfl⟩

theorem ofJson_eq_ok_iff {text : String} {options : Options} :
    ofJson text = .ok options ↔ ∃ settings,
      (Documented text settings ∨ Positional text settings) ∧ options = ofSettings settings := by
  rw [ofJson_eq_ok_iff_given]
  constructor
  · rintro ⟨given, rest, hread, hend, rfl, positive⟩
    obtain ⟨settings, start, hform, fits, rfl⟩ := (readGiven_eq_ok_iff (Nat.le_refl _)).1 hread
    rw [options_foldl_put] at positive ⊢
    refine ⟨settings, ?_, rfl⟩
    rcases hform with ⟨hblanks, row, once⟩ | ⟨hblanks, row, inOrder⟩
    · exact .inl ⟨⟨start, rest, hblanks, row, hend⟩, once, (inRange_iff once).2 ⟨fits, positive⟩⟩
    · exact .inr ⟨⟨start, rest, hblanks, row, hend⟩, inOrder,
        (inRange_iff inOrder.once).2 ⟨fits, positive⟩⟩
  · rintro ⟨settings, ⟨⟨start, rest, hblanks, row, hend⟩, once, inRange⟩ |
      ⟨⟨start, rest, hblanks, row, hend⟩, inOrder, inRange⟩, rfl⟩
    · obtain ⟨fits, positive⟩ := (inRange_iff once).1 inRange
      exact ⟨_, rest, (readGiven_eq_ok_iff (Nat.le_refl _)).2
        ⟨settings, start, .inl ⟨hblanks, row, once⟩, fits, rfl⟩, hend,
        (options_foldl_put settings {}).symm, positive⟩
    · obtain ⟨fits, positive⟩ := (inRange_iff inOrder.once).1 inRange
      exact ⟨_, rest, (readGiven_eq_ok_iff (Nat.le_refl _)).2
        ⟨settings, start, .inr ⟨hblanks, row, inOrder⟩, fits, rfl⟩, hend,
        (options_foldl_put settings {}).symm, positive⟩

/-- How a text is read. Unless it begins as an array, the documented form is the only one. -/
structure ReadFromText (text : String) (result : Except OptionsFault Options) : Prop where
  accepted_iff : ∀ options, result = .ok options ↔ ∃ settings,
    (Documented text settings ∨ Positional text settings) ∧ options = ofSettings settings
  documented_iff : (∀ start, ¬ Blanks text.toList ('[' :: start)) → ∀ options,
    result = .ok options ↔ ∃ settings, Documented text settings ∧ options = ofSettings settings
  positive : ∀ options, result = .ok options → options.maxDepth ≠ 0

/-- A text makes options if it is an object in the documented form or an array of their values in
order, and is refused otherwise. -/
theorem json_readFromText (text : String) : ReadFromText text (ofJson text) where
  accepted_iff _ := ofJson_eq_ok_iff
  documented_iff noArray options := by
    rw [ofJson_eq_ok_iff]
    refine exists_congr fun settings ↦ and_congr_left fun _ ↦ or_iff_left ?_
    rintro ⟨⟨start, rest, hblanks, -⟩, -⟩
    exact noArray start hblanks
  positive options hread := by
    obtain ⟨given, rest, -, -, -, positive⟩ := ofJson_eq_ok_iff_given.1 hread
    exact positive

/-- An array makes options although no object stands in the text. -/
theorem json_array_undocumented :
    ofJson "[true]" = .ok { production := true } ∧ ∀ settings, ¬ Documented "[true]" settings := by
  refine ⟨rfl, fun settings documented ↦ ?_⟩
  obtain ⟨start, rest, hblanks, -⟩ := documented.object
  cases (Json.skipBlanks_eq_cons_iff (by decide)).2 hblanks

/-- The name of a member may be spelled with escapes, and the greatest limit is read exactly. -/
example : ofJson "\x7b \"max_\\u0064epth\" : 18446744073709551615\x7d\n" =
    .ok { maxDepth := 18446744073709551615 } := by
  decide +kernel

end RuleCheck.Options
