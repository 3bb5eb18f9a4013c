import Typesetter.Proofs.Copies
import Typesetter.Proofs.LinePositions
import Typesetter.Proofs.SourceGrammar

/-! # Line ends and blank lines

Sources that differ in the ends of their lines or in empty lines make the same document. Empty lines
only move what stands below them, and only the place of an error shows that. -/
namespace Typesetter

namespace Text

def withReturns (text : List Char) : List Char :=
  text.flatMap fun c => if c = '\n' then ['\r', '\n'] else [c]

/-- More newlines behind each newline, `blanks k` behind newline number `k`, counted from zero. -/
def spread (blanks : Nat → Nat) : List Char → List Char
  | [] => []
  | c :: rest =>
    if c = '\n' then
      '\n' :: (List.replicate (blanks 0) '\n' ++ spread (fun k => blanks (k + 1)) rest)
    else c :: spread blanks rest

/-- Text with `blanks k` empty lines in front of line number `k`, counted from zero. The place
behind a newline at the end counts as a line. -/
def withBlanks (blanks : Nat → Nat) (text : List Char) : List Char :=
  List.replicate (blanks 0) '\n' ++ spread (fun k => blanks (k + 1)) text

/-- Lines with `blanks k` empty ones in front of line number `k`, counted from zero. -/
def padded (blanks : Nat → Nat) : List String → List String
  | [] => []
  | line :: rest =>
    List.replicate (blanks 0) "" ++ line :: padded (fun k => blanks (k + 1)) rest

def blanksAbove (blanks : Nat → Nat) (lines : Nat) : Nat := ((List.range lines).map blanks).sum

theorem blanksAbove_succ (blanks : Nat → Nat) (lines : Nat) :
    blanksAbove blanks (lines + 1) = blanks 0 + blanksAbove (fun k => blanks (k + 1)) lines := by
  rw [blanksAbove, List.range_succ_eq_map, List.map_cons, List.sum_cons, List.map_map]
  rfl

/-! ## Texts and their lines -/

theorem withReturns_of_not_mem {text : List Char} (h : '\n' ∉ text) : withReturns text = text := by
  induction text with
  | nil => rfl
  | cons c text ih =>
    have hc : c ≠ '\n' := (List.ne_of_not_mem_cons h).symm
    have htext := ih (List.not_mem_of_not_mem_cons h)
    rw [withReturns] at htext ⊢
    rw [List.flatMap_cons, if_neg hc, htext, List.singleton_append]

theorem withReturns_append_newline {line : List Char} (h : '\n' ∉ line) (rest : List Char) :
    withReturns (line ++ '\n' :: rest) = (line ++ ['\r']) ++ '\n' :: withReturns rest := by
  have hline := withReturns_of_not_mem h
  rw [withReturns] at hline ⊢
  rw [List.flatMap_append, hline, List.flatMap_cons, if_pos rfl, withReturns]
  simp

theorem withoutReturn_of_not_mem {line : List Char} (h : '\r' ∉ line) :
    withoutReturn line = line := by
  refine if_neg fun hlast => h ?_
  exact List.mem_of_getLast? hlast

theorem withoutReturn_concat (line : List Char) : withoutReturn (line ++ ['\r']) = line := by
  simp [withoutReturn]

theorem lineChars_withReturns {text : List Char} (h : '\r' ∉ text) :
    lineChars (withReturns text) = lineChars text := by
  induction text using line_induction with
  | last text hn => rw [withReturns_of_not_mem hn]
  | newline line rest hline ih =>
    rw [List.mem_append, not_or] at h
    have hrest := List.not_mem_of_not_mem_cons h.2
    have hreturn : '\n' ∉ line ++ ['\r'] := by simpa using hline
    rw [withReturns_append_newline hline, lineChars_append_newline hreturn,
      lineChars_append_newline hline, withoutReturn_concat, withoutReturn_of_not_mem h.1, ih hrest]

theorem spread_of_not_mem (blanks : Nat → Nat) {text : List Char} (h : '\n' ∉ text) :
    spread blanks text = text := by
  induction text with
  | nil => rfl
  | cons c text ih =>
    have hc : c ≠ '\n' := (List.ne_of_not_mem_cons h).symm
    rw [spread, if_neg hc, ih (List.not_mem_of_not_mem_cons h)]

theorem spread_append_newline (blanks : Nat → Nat) {line : List Char} (h : '\n' ∉ line)
    (rest : List Char) :
    spread blanks (line ++ '\n' :: rest) = line ++ '\n' :: withBlanks blanks rest := by
  induction line with
  | nil => rfl
  | cons c line ih =>
    have hc : c ≠ '\n' := (List.ne_of_not_mem_cons h).symm
    rw [List.cons_append, spread, if_neg hc, ih (List.not_mem_of_not_mem_cons h),
      List.cons_append]

theorem lineChars_newlines (k : Nat) (rest : List Char) :
    lineChars (List.replicate k '\n' ++ rest) = List.replicate k [] ++ lineChars rest := by
  induction k with
  | zero => rfl
  | succ k ih =>
    rw [List.replicate_succ, List.replicate_succ, List.cons_append, List.cons_append, ← ih]
    exact lineChars_append_newline List.not_mem_nil _

theorem lines_ofList (text : List Char) :
    lines (String.ofList text) = (lineChars text).map String.ofList := by
  rw [lines, String.toList_ofList]

/-- Empty lines in a text are empty ones among its lines, and maybe more behind the last of them. -/
theorem lines_withBlanks (blanks : Nat → Nat) (text : List Char) :
    ∃ after, lines (String.ofList (withBlanks blanks text)) =
      padded blanks (lines (String.ofList text)) ++ List.replicate after "" := by
  simp only [lines_ofList]
  induction text using line_induction generalizing blanks with
  | last text hn =>
    rw [withBlanks, lineChars_newlines, spread_of_not_mem _ hn, lineChars_of_not_mem hn]
    split
    · exact ⟨blanks 0, by simp [padded]⟩
    · exact ⟨0, by simp [padded]⟩
  | newline line rest hline ih =>
    obtain ⟨after, hafter⟩ := ih fun k => blanks (k + 1)
    refine ⟨after, ?_⟩
    rw [withBlanks, lineChars_newlines, spread_append_newline _ hline,
      lineChars_append_newline hline, lineChars_append_newline hline, List.map_append,
      List.map_cons, hafter, List.map_cons, padded]
    simp

/-- A newline at the end ends the last line, or it is an empty line of its own. A carriage return
before it would be lost. -/
theorem lineChars_concat_newline {text : List Char} (h : '\r' ∉ text) :
    ∃ after, lineChars (text ++ ['\n']) = lineChars text ++ List.replicate after [] := by
  induction text using line_induction with
  | last text hn =>
    rw [lineChars_append_newline hn, lineChars_of_not_mem hn, withoutReturn_of_not_mem h]
    cases text with
    | nil => exact ⟨1, rfl⟩
    | cons c text => exact ⟨0, rfl⟩
  | newline line rest hline ih =>
    rw [List.mem_append, not_or] at h
    obtain ⟨after, hafter⟩ := ih (List.not_mem_of_not_mem_cons h.2)
    refine ⟨after, ?_⟩
    rw [List.append_assoc, List.cons_append, lineChars_append_newline hline,
      lineChars_append_newline hline, hafter, List.cons_append]

end Text

/-! ## Reading blank lines -/

namespace Interpreter
open Text (padded blanksAbove blanksAbove_succ)

theorem runFrom_blanks (i : Interpreter) (number k : Nat) (events : Array Event)
    (rest : List String) :
    i.runFrom number events (List.replicate k "" ++ rest) = i.runFrom (number + k) events rest := by
  induction k generalizing number with
  | zero => rfl
  | succ k ih =>
    have hread : SourceLine.read number "" = .ok .blank := rfl
    rw [List.replicate_succ, List.cons_append, runFrom_cons i events _ hread]
    have hnone : events ++ (i.step number .blank).2 = events := Array.append_empty
    have hsame : (i.step number .blank).1 = i := rfl
    rw [hnone, hsame, ih, Nat.add_assoc, Nat.add_comm 1]

theorem runFrom_append_blanks (i : Interpreter) (number k : Nat) (events : Array Event)
    (texts : List String) :
    i.runFrom number events (texts ++ List.replicate k "") = i.runFrom number events texts := by
  induction texts generalizing i number events with
  | nil =>
    have hblanks := i.runFrom_blanks number k events []
    rw [List.append_nil] at hblanks
    exact hblanks
  | cons text texts ih =>
    rw [List.cons_append, runFrom, runFrom]
    cases SourceLine.read number text with
    | error e => rfl
    | ok l => exact ih _ _ _

theorem le_line_of_failure {i : Interpreter} {number : Nat} {events : Array Event}
    {texts : List String} {e : MalformedIndent}
    (h : (i.runFrom number events texts).failure = some e) : number ≤ e.line := by
  obtain ⟨before, _, _, _, _, hread, _⟩ := run_of_failure h
  rw [(SourceLine.place_of_read hread).1]
  exact Nat.le_add_right number before.length

theorem runFrom_padded (blanks : Nat → Nat) (i : Interpreter) (number lines : Nat)
    (events before : Array Event) (texts : List String) :
    (i.runFrom (number + lines) events (padded blanks texts)).failure =
        (i.runFrom number before texts).failure.map (fun e =>
          e.later (lines + blanksAbove blanks (e.line + 1 - number))) ∧
      ∃ new, (i.runFrom (number + lines) events (padded blanks texts)).paragraphs =
          paragraphsOf events ++ new ∧
        (i.runFrom number before texts).paragraphs = paragraphsOf before ++ new := by
  induction texts generalizing blanks i number lines events before with
  | nil => exact ⟨rfl, (i.runFrom_later number lines events before []).2.2⟩
  | cons text texts ih =>
    rw [padded, runFrom_blanks, Nat.add_assoc]
    have hread := SourceLine.read_add number (lines + blanks 0) text
    cases hr : SourceLine.read number text with
    | error e =>
      rw [hr] at hread
      have hline : e.line = number := (SourceLine.place_of_read hr).1
      rw [runFrom, runFrom, hr, hread]
      refine ⟨?_, #[], Array.append_empty.symm, Array.append_empty.symm⟩
      rw [Option.map_some, hline, Nat.add_sub_cancel_left, blanksAbove_succ]
      rfl
    | ok l =>
      rw [hr] at hread
      obtain ⟨hnext, hsealed⟩ := i.step_eq number l
      obtain ⟨hnext', hsealed'⟩ := i.step_eq (number + (lines + blanks 0)) l
      obtain ⟨hfailure, new, hnew, hnew'⟩ := ih (fun k => blanks (k + 1)) (i.next l) (number + 1)
        (lines + blanks 0) (events ++ (i.step (number + (lines + blanks 0)) l).2)
        (before ++ (i.step number l).2)
      rw [runFrom_cons i events _ hread, runFrom_cons i before texts hr, hnext, hnext',
        Nat.add_right_comm number]
      refine ⟨?_, (i.sealedBy l).toArray ++ new, ?_, ?_⟩
      · rw [hfailure]
        refine Option.map_congr fun e he => ?_
        -- The error is below this line, so the blank lines in front of this line count for it.
        have hbelow := le_line_of_failure he
        have hlines : e.line + 1 - number = e.line + 1 - (number + 1) + 1 := by omega
        rw [hlines, blanksAbove_succ, Nat.add_assoc]
      · rw [hnew, paragraphsOf_append_list, hsealed', Array.append_assoc]
      · rw [hnew', paragraphsOf_append_list, hsealed, Array.append_assoc]

theorem run_padded (i : Interpreter) (blanks : Nat → Nat) (texts : List String) :
    (i.run (padded blanks texts)).failure = (i.run texts).failure.map (fun e =>
        e.later (blanksAbove blanks e.line)) ∧
      (i.run (padded blanks texts)).paragraphs = (i.run texts).paragraphs := by
  obtain ⟨hfailure, new, hnew, hnew'⟩ := i.runFrom_padded blanks 1 0 #[] #[] texts
  simp only [Nat.zero_add, Nat.add_zero, Nat.add_sub_cancel] at hfailure hnew
  exact ⟨hfailure, hnew.trans hnew'.symm⟩

end Interpreter

/-! ## Converting texts -/

theorem convertFrom_append_blanks (s : Stylesheet) (texts : List String) (k total copies : Nat)
    (events : Array Event) :
    convertFrom s (texts ++ List.replicate k "") total copies events =
      convertFrom s texts total copies events := by
  induction copies generalizing events with
  | zero => rfl
  | succ copies ih => simp only [convertFrom, Interpreter.runFrom_append_blanks, ih]

theorem Text.lines_withReturns {source : String} (h : '\r' ∉ source.toList) :
    lines (String.ofList (withReturns source.toList)) = lines source := by
  rw [lines_ofList, lineChars_withReturns h, lines]

theorem Text.lines_concat_newline {source : String} (h : '\r' ∉ source.toList) :
    ∃ after, lines (source ++ "\n") = lines source ++ List.replicate after "" := by
  obtain ⟨after, hafter⟩ := lineChars_concat_newline h
  refine ⟨after, ?_⟩
  have hchars : (source ++ "\n").toList = source.toList ++ ['\n'] := String.toList_append
  rw [lines, hchars, hafter, List.map_append, List.map_replicate]
  rfl

/-- A source without carriage returns is converted as with one before each newline, and as with a
newline at its end. With empty lines before, between and behind its lines it makes the same
paragraphs, and an error is the same but for the empty lines above it. -/
theorem blank_lines_invisible (s : Stylesheet) (source : String) (h : '\r' ∉ source.toList)
    (copies : Nat) (events : Array Event) :
    let made := fun text => convertFrom s (Text.lines text) copies copies events
    made (String.ofList (Text.withReturns source.toList)) = made source ∧
    made (source ++ "\n") = made source ∧
    ∀ (blanks : Nat → Nat), ∀ text ∈ [source, source ++ "\n"],
      let wide := made (String.ofList (Text.withBlanks blanks text.toList))
      wide.paragraphs = (made source).paragraphs ∧
      wide.failure = (made source).failure.map fun e =>
        e.later (Text.blanksAbove blanks e.line) := by
  intro made
  have hnewline : made (source ++ "\n") = made source := by
    obtain ⟨after, hafter⟩ := Text.lines_concat_newline h
    change convertFrom s (Text.lines (source ++ "\n")) copies copies events = made source
    rw [hafter, convertFrom_append_blanks]
  refine ⟨?_, hnewline, ?_⟩
  · change convertFrom s (Text.lines (String.ofList (Text.withReturns source.toList))) copies copies
      events = made source
    rw [Text.lines_withReturns h]
  · intro blanks text htext wide
    have hsame : made text = made source := by
      rcases List.mem_pair.mp htext with rfl | rfl
      · rfl
      · exact hnewline
    obtain ⟨after, hafter⟩ := Text.lines_withBlanks blanks text.toList
    rw [String.ofList_toList] at hafter
    have hwide : wide =
        convertFrom s (Text.padded blanks (Text.lines text)) copies copies events := by
      change convertFrom s (Text.lines _) copies copies events = _
      rw [hafter, convertFrom_append_blanks]
    obtain ⟨hfailure, hparagraphs⟩ :=
      Interpreter.run_padded { stylesheet := s } blanks (Text.lines text)
    obtain ⟨hfailure', hparagraphs'⟩ :=
      convertFrom_congr _ hfailure hparagraphs copies copies events
    rw [hwide, ← hsame]
    exact ⟨hparagraphs', hfailure'⟩

/-- Empty lines stand before the first line, around the break and behind a final newline that the
source does not have. The error is six lines further down. -/
theorem blank_lines_invisible_failing :
    let s : Stylesheet := ⟨12, 30, 20⟩
    let source := "one\n.paragraph\n.indent x"
    let made := fun text => convertFrom s (Text.lines text) 2 2 #[]
    let wide := "\none\n\n\n.paragraph\n\n\n\n.indent x\n\n\n\n\n"
    '\r' ∉ source.toList ∧
      made "one\r\n.paragraph\r\n.indent x" = made source ∧
      (made source).failure = some ⟨3, ".indent x", .notInteger⟩ ∧
      (made wide).failure = some ⟨9, ".indent x", .notInteger⟩ ∧
      (made wide).paragraphs = (made source).paragraphs ∧
      (made source).paragraphs.toList.map Paragraph.text = ["one"] := by
  intro s source made wide
  have hplain : '\r' ∉ source.toList := by decide
  obtain ⟨hreturns, -, hblanks⟩ := blank_lines_invisible s source hplain 2 #[]
  obtain ⟨hparagraphs, hfailure⟩ := hblanks (fun k => k + 1) (source ++ "\n") (by simp)
  have hwide : String.ofList (Text.withBlanks (fun k => k + 1) (source ++ "\n").toList) = wide := by
    decide
  have htext : String.ofList (Text.withReturns source.toList) =
      "one\r\n.paragraph\r\n.indent x" := by decide
  have herror : (made source).failure = some ⟨3, ".indent x", .notInteger⟩ := by decide
  rw [hwide] at hparagraphs hfailure
  rw [htext] at hreturns
  refine ⟨hplain, hreturns, herror, ?_, hparagraphs, by decide⟩
  exact hfailure.trans (congrArg (Option.map _) herror)

end Typesetter
