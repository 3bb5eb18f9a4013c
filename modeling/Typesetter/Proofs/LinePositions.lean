import Typesetter.Text

/-! # Where lines stand

The lines of a text against the text itself: what stands before a line and behind it, and how many
newlines that takes. -/
namespace Typesetter.Text

/-- Whole lines, each with its newline, or nothing. -/
def WholeLines (text : List Char) : Prop := ∀ c ∈ text.getLast?, c = '\n'

def EndsLine (text : List Char) : Prop :=
  text = [] ∨ ∃ rest, text = '\n' :: rest ∨ text = '\r' :: '\n' :: rest

theorem pieces_of_forall {separates : Char → Bool} {text : List Char}
    (h : ∀ c ∈ text, separates c = false) : pieces separates text = (text, []) := by
  induction text with
  | nil => rfl
  | cons c text ih =>
    obtain ⟨hc, htext⟩ := List.forall_mem_cons.mp h
    simp [pieces_cons, hc, ih htext]

theorem pieces_of_not_mem {text : List Char} (h : '\n' ∉ text) :
    pieces (· == '\n') text = (text, []) := by
  apply pieces_of_forall
  intro c hc
  apply beq_eq_false_iff_ne.mpr
  rintro rfl
  exact h hc

theorem pieces_append_newline {line : List Char} (h : '\n' ∉ line) (rest : List Char) :
    pieces (· == '\n') (line ++ '\n' :: rest) =
      (line, (pieces (· == '\n') rest).1 :: (pieces (· == '\n') rest).2) := by
  induction line with
  | nil => simp [pieces_cons]
  | cons c line ih =>
    have hc : (c == '\n') = false :=
      beq_eq_false_iff_ne.mpr (List.ne_of_not_mem_cons h).symm
    have hline := List.not_mem_of_not_mem_cons h
    simp [pieces_cons, hc, ih hline]

theorem lineChars_of_not_mem {text : List Char} (h : '\n' ∉ text) :
    lineChars text = if text.isEmpty then [] else [text] := by
  simp [lineChars, pieces_of_not_mem h]

theorem lineChars_append_newline {line : List Char} (h : '\n' ∉ line) (rest : List Char) :
    lineChars (line ++ '\n' :: rest) = withoutReturn line :: lineChars rest := by
  simp [lineChars, pieces_append_newline h, List.getLast?_cons]

/-- A text is its last line, or a line with its newline and a text. -/
@[elab_as_elim]
theorem line_induction {motive : List Char → Prop} (last : ∀ text, '\n' ∉ text → motive text)
    (newline : ∀ line rest, '\n' ∉ line → motive rest → motive (line ++ '\n' :: rest))
    (text : List Char) : motive text := by
  by_cases h : '\n' ∈ text
  · obtain ⟨line, rest, htext, hline⟩ := List.eq_append_cons_of_mem h
    have hlength : rest.length < text.length := by
      rw [htext, List.length_append, List.length_cons]
      omega
    rw [htext]
    exact newline line rest hline (line_induction last newline rest)
  · exact last text h
termination_by text.length

theorem WholeLines.eq_nil {text : List Char} (h : WholeLines text) (hn : '\n' ∉ text) :
    text = [] := by
  rcases List.eq_nil_or_concat text with rfl | ⟨init, c, rfl⟩
  · rfl
  · have hc : c = '\n' := h c (by simp)
    exact absurd (by simp [hc]) hn

theorem WholeLines.of_append {a b : List Char} (h : WholeLines (a ++ b)) : WholeLines b := by
  intro c hc
  exact h c (by simp [List.getLast?_append, Option.mem_def.mp hc])

theorem wholeLines_append_newline {line rest : List Char} (h : WholeLines rest) :
    WholeLines (line ++ '\n' :: rest) := by
  intro c hc
  cases hlast : rest.getLast? with
  | none =>
    rw [List.getLast?_eq_none_iff] at hlast
    simpa [hlast, eq_comm] using hc
  | some d =>
    obtain rfl : d = c := by simpa [List.getLast?_append, List.getLast?_cons, hlast] using hc
    exact h d hlast

theorem WholeLines.of_newline {line rest : List Char} (h : WholeLines (line ++ '\n' :: rest)) :
    WholeLines rest :=
  h.of_append.of_append (a := ['\n'])

theorem length_lineChars {text : List Char} (h : WholeLines text) :
    (lineChars text).length = text.count '\n' := by
  induction text using line_induction with
  | last text hn =>
    rw [h.eq_nil hn]
    rfl
  | newline line rest hline ih =>
    rw [lineChars_append_newline hline, List.length_cons, ih h.of_newline, List.count_append,
      List.count_eq_zero_of_not_mem hline, List.count_cons_self, Nat.zero_add]

/-- Between two lines a text can be cut. Its end is such a place if the last line is whole. -/
theorem lineChars_eq_append {text : List Char} {first rest : List (List Char)}
    (h : lineChars text = first ++ rest) (hend : rest = [] → WholeLines text) :
    ∃ before after, text = before ++ after ∧ WholeLines before ∧ lineChars before = first ∧
      lineChars after = rest := by
  induction first generalizing text with
  | nil => exact ⟨[], text, rfl, by simp [WholeLines], rfl, h⟩
  | cons l first ih =>
    induction text using line_induction with
    | last text hn =>
      have hlen := congrArg List.length h
      rw [lineChars_of_not_mem hn] at hlen
      by_cases hr : rest = []
      · rw [(hend hr).eq_nil hn] at hlen
        simp at hlen
      · have hpos := List.length_pos_iff.mpr hr
        rw [List.length_append, List.length_cons] at hlen
        split at hlen <;> simp only [List.length_nil, List.length_cons] at hlen <;> omega
    | newline line more hline =>
      rw [lineChars_append_newline hline, List.cons_append] at h
      obtain ⟨hl, hmore⟩ := List.cons.inj h
      obtain ⟨before, after, rfl, hwhole, hbefore, hafter⟩ :=
        ih hmore fun hr => (hend hr).of_newline
      refine ⟨line ++ '\n' :: before, after, by simp, wholeLines_append_newline hwhole, ?_, hafter⟩
      rw [lineChars_append_newline hline, hl, hbefore]

theorem lineChars_eq_cons {text line : List Char} {rest : List (List Char)}
    (h : lineChars text = line :: rest) : ∃ tail, text = line ++ tail ∧ EndsLine tail := by
  induction text using line_induction with
  | last text hn =>
    rw [lineChars_of_not_mem hn] at h
    split at h
    · simp at h
    · obtain ⟨rfl, -⟩ := List.cons.inj h
      exact ⟨[], by simp, Or.inl rfl⟩
  | newline whole more hwhole =>
    rw [lineChars_append_newline hwhole] at h
    obtain ⟨rfl, -⟩ := List.cons.inj h
    unfold withoutReturn
    split
    · rename_i hlast
      obtain ⟨init, rfl⟩ := List.getLast?_eq_some_iff.mp hlast
      exact ⟨'\r' :: '\n' :: more, by simp, Or.inr ⟨more, Or.inr rfl⟩⟩
    · exact ⟨'\n' :: more, rfl, Or.inr ⟨more, Or.inl rfl⟩⟩

/-! ## Strings -/

theorem length_lines {text : String} (h : WholeLines text.toList) :
    (lines text).length = text.toList.count '\n' := by
  simp [lines, length_lineChars h]

theorem lines_eq_append {text : String} {first rest : List String}
    (h : lines text = first ++ rest) (hend : rest = [] → WholeLines text.toList) :
    ∃ before after, text = before ++ after ∧ WholeLines before.toList ∧ lines before = first ∧
      lines after = rest := by
  obtain ⟨a, b, hchars, ha, hb⟩ := List.map_eq_append_iff.mp h
  have hnil : b = [] → WholeLines text.toList := by
    rintro rfl
    exact hend hb.symm
  obtain ⟨before, after, htext, hwhole, hbefore, hafter⟩ := lineChars_eq_append hchars hnil
  refine ⟨String.ofList before, String.ofList after, ?_, by simpa using hwhole, ?_, ?_⟩
  · rw [← String.ofList_append, ← htext, String.ofList_toList]
  · simp [lines, hbefore, ha]
  · simp [lines, hafter, hb]

theorem lines_eq_cons {text line : String} {rest : List String} (h : lines text = line :: rest) :
    ∃ tail, text = line ++ tail ∧ EndsLine tail.toList := by
  obtain ⟨chars, more, hchars, hline, -⟩ := List.map_eq_cons_iff.mp h
  obtain ⟨tail, htext, hend⟩ := lineChars_eq_cons hchars
  refine ⟨String.ofList tail, ?_, by simpa using hend⟩
  rw [← hline, ← String.ofList_append, ← htext, String.ofList_toList]

end Typesetter.Text
