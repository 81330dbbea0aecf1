import RuleCheck.Proofs.BareTexts
import RuleCheck.Proofs.Sessions

/-!
# The lines of a console

Between the blocks of a console there is nothing but their own delimiters: an empty line, a line of
dashes, the line of the diagnostic, and a line of dashes again. So long as the labels and the
diagnostics have no line breaks, the output falls into these lines, and into no other blocks.

A diagnostic has line breaks only where a fragment shows one in a text that is not quoted. Then the
output has more lines, and they can be those of another block.
-/

namespace RuleCheck

/-- The lines of a text, without the line breaks between them. -/
def linesOf (text : String) : List String :=
  (text.toList.splitOn '\n').map String.ofList

variable {text : String} {lines : List String}

theorem linesOf_append (before after : String) :
    linesOf (before ++ "\n" ++ after) = linesOf before ++ linesOf after := by
  have hbreak : (before ++ "\n" ++ after).toList = before.toList ++ '\n' :: after.toList := by
    simp
  rw [linesOf, hbreak, List.splitOn_append_cons_self, List.map_append]
  rfl

theorem linesOf_of_not_mem (single : '\n' ∉ text.toList) : linesOf text = [text] := by
  rw [linesOf, List.splitOn_eq_singleton single, List.map_singleton, String.ofList_toList]

theorem length_linesOf_pos (text : String) : 0 < (linesOf text).length := by
  rw [linesOf, List.length_map]
  exact List.length_pos_iff.2 (List.splitOn_ne_nil _ _)

theorem length_linesOf_eq_one_iff : (linesOf text).length = 1 ↔ '\n' ∉ text.toList := by
  constructor
  · intro hlength hmem
    obtain ⟨before, after, hsplit⟩ := List.append_of_mem hmem
    rw [linesOf, hsplit, List.splitOn_append_cons_self, List.length_map,
      List.length_append] at hlength
    have hbefore := List.length_pos_iff.2 (List.splitOn_ne_nil '\n' before)
    have hafter := List.length_pos_iff.2 (List.splitOn_ne_nil '\n' after)
    omega
  · intro single
    rw [linesOf_of_not_mem single]
    rfl

/-- A line between two delimiters, after an empty line. -/
def framed (line : String) : String :=
  "\n----\n" ++ line ++ "\n----\n"

theorem linesOf_framed_append (line rest : String) :
    linesOf (framed line ++ rest) =
      "" :: "----" :: (linesOf line ++ "----" :: linesOf rest) := by
  have hsplit : framed line ++ rest =
      "" ++ "\n" ++ ("----" ++ "\n" ++ (line ++ "\n" ++ ("----" ++ "\n" ++ rest))) := by
    apply String.toList_inj.1
    simp [framed]
  have hempty : linesOf "" = [""] := rfl
  have hdashes : linesOf "----" = ["----"] := by decide +kernel
  rw [hsplit, linesOf_append, linesOf_append, linesOf_append, linesOf_append, hempty, hdashes]
  rfl

/-- What framed lines one after another are split into. -/
theorem linesOf_join_framed (lines : List String) :
    linesOf (String.join (lines.map framed)) =
      (lines.flatMap fun line ↦ "" :: "----" :: (linesOf line ++ ["----"])) ++ [""] := by
  induction lines with
  | nil => rfl
  | cons line lines ih =>
    rw [List.map_cons, String.join_cons, linesOf_framed_append, ih, List.flatMap_cons]
    simp

/-- There are four lines for each frame and a last one, or more: exactly four if what is framed has
no line breaks. -/
theorem length_linesOf_join_framed (lines : List String) :
    4 * lines.length + 1 ≤ (linesOf (String.join (lines.map framed))).length ∧
      ((linesOf (String.join (lines.map framed))).length = 4 * lines.length + 1 ↔
        ∀ line ∈ lines, '\n' ∉ line.toList) := by
  induction lines with
  | nil => exact ⟨Nat.le_refl _, iff_of_true rfl nofun⟩
  | cons line lines ih =>
    obtain ⟨hleast, hexact⟩ := ih
    have hpos := length_linesOf_pos line
    have hlength : (linesOf (String.join ((line :: lines).map framed))).length =
        (linesOf line).length + (linesOf (String.join (lines.map framed))).length + 3 := by
      rw [List.map_cons, String.join_cons, linesOf_framed_append, List.length_cons,
        List.length_cons, List.length_append, List.length_cons]
      omega
    rw [hlength, List.forall_mem_cons, ← length_linesOf_eq_one_iff, ← hexact, List.length_cons]
    omega

def frameLines (line : String) : List String :=
  ["", "----", line, "----"]

theorem linesOf_join_framed_of_single (single : ∀ line ∈ lines, '\n' ∉ line.toList) :
    linesOf (String.join (lines.map framed)) = lines.flatMap frameLines ++ [""] := by
  rw [linesOf_join_framed]
  refine congrArg (· ++ [""]) (List.flatMap_congr fun line hline ↦ ?_)
  rw [linesOf_of_not_mem (single line hline)]
  rfl

/-- Dashes stand on every other line, up to the last one. -/
theorem getElem_flatMap_frameLines (other : ∀ line ∈ lines, line ≠ "----") (position : Nat) :
    (lines.flatMap frameLines ++ [""])[position]? = some "----" ↔
      position % 2 = 1 ∧ position < 4 * lines.length := by
  induction lines generalizing position with
  | nil =>
    refine iff_of_false (fun hdashes ↦ ?_) fun ⟨_, hlt⟩ ↦ Nat.not_lt_zero _ hlt
    exact absurd (List.mem_singleton.1 (List.mem_of_getElem? hdashes)) (by decide)
  | cons line lines ih =>
    have hline : line ≠ "----" := other line List.mem_cons_self
    have hrest := ih fun line hline ↦ other line (List.mem_cons_of_mem _ hline)
    have hlines : (line :: lines).flatMap frameLines ++ [""] =
        "" :: "----" :: line :: "----" :: (lines.flatMap frameLines ++ [""]) := rfl
    rw [hlines, List.length_cons]
    -- the frame takes up four positions
    match position with
    | 0 => exact iff_of_false (by simp) (by omega)
    | 1 => exact iff_of_true rfl (by omega)
    | 2 => exact iff_of_false (by simpa using hline) (by omega)
    | 3 => exact iff_of_true rfl (by omega)
    | position + 4 =>
      refine (hrest position).trans ?_
      omega

/-- The lines of frames tell what is framed. -/
theorem flatMap_frameLines_inj {lines' : List String}
    (same : lines.flatMap frameLines = lines'.flatMap frameLines) : lines = lines' := by
  induction lines generalizing lines' with
  | nil =>
    cases lines' with
    | nil => rfl
    | cons => cases same
  | cons line lines ih =>
    cases lines' with
    | nil => cases same
    | cons line' lines' =>
      have hlines : line = line' ∧ lines.flatMap frameLines = lines'.flatMap frameLines := by
        simpa [frameLines] using same
      rw [hlines.1, ih hlines.2]

def Delivery.line (delivery : Delivery) : String :=
  "(" ++ toString delivery.elapsed ++ "ms) " ++ delivery.entry.label ++ " failed: " ++
    delivery.entry.text

theorem Delivery.block_eq (delivery : Delivery) : delivery.block = framed delivery.line := by
  apply String.toList_inj.1
  simp [block, Entry.block, framed, line]

/-- The time is in front of the line, so it is no delimiter. -/
theorem Delivery.line_ne (delivery : Delivery) : delivery.line ≠ "----" := by
  intro same
  have hhead := congrArg (·.toList.head?) same
  simp [line] at hhead

structure Printout where
  store : Store
  label : String
  diagnostic : Diagnostic
  elapsed : Nat

namespace Printout

def delivery (printout : Printout) : Delivery :=
  ⟨⟨printout.label, printout.diagnostic.render printout.store⟩, printout.elapsed⟩

def line (printout : Printout) : String :=
  printout.delivery.line

/-- No fragment has a line break in a text that is not quoted. -/
def IsSingleLine (printout : Printout) : Prop :=
  ¬ printout.diagnostic.ShowsBare printout.store '\n'

/-- Under a label without line breaks the line has one only if the diagnostic has. -/
theorem not_mem_line_iff {printout : Printout} (label : '\n' ∉ printout.label.toList) :
    '\n' ∉ printout.line.toList ↔ printout.IsSingleLine := by
  have htime : '\n' ∉ Nat.toDigits 10 printout.elapsed := (visible_toDigits _).not_mem (by decide)
  have hline : '\n' ∈ printout.line.toList ↔
      '\n' ∈ (printout.diagnostic.render printout.store).toList := by
    simp [line, Delivery.line, delivery, htime, label]
  rw [hline, Diagnostic.mem_render_iff (by decide)]
  exact Iff.rfl

end Printout

def consoleOutput (printouts : List Printout) : String :=
  ((Sink.console []).takeAll (printouts.map Printout.delivery)).written

theorem consoleOutput_eq (printouts : List Printout) :
    consoleOutput printouts = String.join ((printouts.map Printout.line).map framed) := by
  rw [consoleOutput, Sink.takeAll_console, Sink.written, List.nil_append, List.map_map,
    List.map_map]
  exact congrArg String.join (List.map_congr_left fun printout _ ↦ printout.delivery.block_eq)

/-- How an output falls into blocks, each with one line between its delimiters, and in no other way.
-/
structure SplitsIntoBlocks (output : String) (lines : List String) : Prop where
  lines_eq : linesOf output =
    (lines.flatMap fun line ↦ ["", "----", line, "----"]) ++ [""]
  delimiters : ∀ position, (linesOf output)[position]? = some "----" ↔
    position % 2 = 1 ∧ position < 4 * lines.length
  unique : ∀ lines' : List String, (∀ line ∈ lines', '\n' ∉ line.toList) →
    String.join (lines'.map fun line ↦ "\n----\n" ++ line ++ "\n----\n") = output → lines' = lines

/-- When what a console shows can be told apart. -/
structure ConsoleReads (printouts : List Printout) : Prop where
  shows : ∀ printout ∈ printouts, ∀ character : Char, character.toNat < 32 →
    (character ∈ (printout.diagnostic.render printout.store).toList ↔
      printout.diagnostic.ShowsBare printout.store character)
  length : (linesOf (consoleOutput printouts)).length = 4 * printouts.length + 1 ↔
    ∀ printout ∈ printouts, printout.IsSingleLine
  splits : (∀ printout ∈ printouts, printout.IsSingleLine) →
    SplitsIntoBlocks (consoleOutput printouts) (printouts.map Printout.line)

/-- Under labels without line breaks, what a console shows falls into its blocks exactly if no
fragment has a line break in a text that is not quoted. -/
theorem console_reads (printouts : List Printout)
    (labels : ∀ printout ∈ printouts, '\n' ∉ printout.label.toList) : ConsoleReads printouts where
  shows printout _ _ control := Diagnostic.mem_render_iff control printout.diagnostic
  length := by
    have hlength := (length_linesOf_join_framed (printouts.map Printout.line)).2
    rw [List.length_map, List.forall_mem_map] at hlength
    rw [consoleOutput_eq, hlength]
    exact forall₂_congr fun printout mem ↦ Printout.not_mem_line_iff (labels printout mem)
  splits single := by
    have hsingle : ∀ line ∈ printouts.map Printout.line, '\n' ∉ line.toList :=
      List.forall_mem_map.2 fun printout mem ↦
        (Printout.not_mem_line_iff (labels printout mem)).2 (single printout mem)
    have hother : ∀ line ∈ printouts.map Printout.line, line ≠ "----" :=
      List.forall_mem_map.2 fun printout _ ↦ printout.delivery.line_ne
    have hlines := linesOf_join_framed_of_single hsingle
    rw [consoleOutput_eq]
    refine ⟨hlines, fun position ↦ ?_, fun lines' hsingle' hsame ↦ ?_⟩
    · rw [hlines, getElem_flatMap_frameLines hother]
    · have hlines' := linesOf_join_framed_of_single hsingle'
      have hsame' : lines'.flatMap frameLines ++ [""] =
          (printouts.map Printout.line).flatMap frameLines ++ [""] := by
        rw [← hlines', ← hlines]
        exact congrArg linesOf hsame
      exact flatMap_frameLines_inj (List.append_cancel_right hsame')

/-- A text with line breaks in a list is quoted, and two blocks can be told apart. -/
theorem console_reads_quoted :
    let store : Store := ⟨#[[.text "x\n----\n"]], #[], 0⟩
    let printouts : List Printout :=
      [⟨store, "v", ⟨[.text "got", .array ⟨0⟩]⟩, 3⟩, ⟨store, "w", ⟨[.int 1]⟩, 4⟩]
    (∀ printout ∈ printouts, '\n' ∉ printout.label.toList) ∧
      consoleOutput printouts =
        "\n----\n(3ms) v failed: got [\"x\\n----\\n\"]\n----\n\n----\n(4ms) w failed: 1\n----\n" ∧
      ConsoleReads printouts := by
  intro store printouts
  have hlabels : ∀ printout ∈ printouts, '\n' ∉ printout.label.toList := by decide
  exact ⟨hlabels, by decide +kernel, console_reads printouts hlabels⟩

/-- Not every diagnostic is a single line: a key with a line break is written as it is, and so is a
text of its own, which can show the blocks of two diagnostics. -/
theorem console_forged :
    let store : Store := ⟨#[], #[.ofList [("a\nb", .int 1)]], 0⟩
    let forged : Printout := ⟨store, "v", ⟨[.text "x\n----\n\n----\n(0ms) login failed: y"]⟩, 0⟩
    let first : Printout := ⟨store, "v", ⟨[.text "x"]⟩, 0⟩
    let second : Printout := ⟨store, "login", ⟨[.text "y"]⟩, 0⟩
    '\n' ∈ ((⟨[.object ⟨0⟩]⟩ : Diagnostic).render store).toList ∧
      '\n' ∉ "v".toList ∧ '\n' ∉ "login".toList ∧
      consoleOutput [forged] = consoleOutput [first, second] := by
  decide +kernel

end RuleCheck
