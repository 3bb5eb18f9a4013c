import Typesetter.Proofs.Copies
import Typesetter.Proofs.ConsecutiveRuns
import Typesetter.Proofs.LinePositions
import Typesetter.Proofs.SourceGrammar

/-! # The first fault of a source

When a conversion fails, where in the source, and what it has made until then: the paragraphs of the
source up to the last paragraph break before the fault. -/
namespace Typesetter

namespace SourceLine

/-- A malformed line is an indent without an amount, or with one that is no whole number of 32 bits
with or without a sign. -/
theorem malformed_iff (text : String) :
    Malformed text ↔ text = ".indent" ∨
      ∃ amount, text = ".indent " ++ amount ∧ readIndent? amount.toList = none := by
  rw [malformed_iff_isError, isError_iff]
  constructor
  · rintro ⟨rfl | ⟨amount, rfl⟩, hproper⟩
    · exact Or.inl rfl
    · refine Or.inr ⟨amount, rfl, ?_⟩
      rw [Option.eq_none_iff_forall_ne_some]
      intro levels hlevels
      exact hproper levels ((isIndent_iff amount levels).mpr (readIndent?_eq_some_iff.mp hlevels))
  · rintro (rfl | ⟨amount, rfl, hnone⟩)
    · have hlacks : LacksAmount ".indent" := Or.inl rfl
      exact ⟨hlacks.startsIndent, hlacks.not_isIndent⟩
    · refine ⟨Or.inr ⟨amount, rfl⟩, ?_⟩
      intro levels hlevels
      rw [isIndent_iff, ← readIndent?_eq_some_iff, hnone] at hlevels
      cases hlevels

end SourceLine

/-! ## Up to the last break -/

theorem exists_lastBreak (texts : List String) :
    ∃ sealed unsealed, texts = sealed ++ unsealed ∧
      (∀ text ∈ sealed.getLast?, text = ".paragraph") ∧ ".paragraph" ∉ unsealed := by
  obtain ⟨unsealed, rest, htexts, hunsealed, hrest⟩ :=
    Interpreter.exists_first (· = ".paragraph") texts.reverse
  refine ⟨rest.reverse, unsealed.reverse, ?_, ?_, ?_⟩
  · rw [← List.reverse_append, ← htexts, List.reverse_reverse]
  · intro text ht
    exact hrest text (by simpa using ht)
  · intro hmem
    exact hunsealed _ (List.mem_reverse.mp hmem) rfl

namespace Interpreter

theorem after_of_lastBreak {i : Interpreter} (hi : i.openParagraph = none) {texts : List String}
    (h : ∀ text ∈ texts.getLast?, text = ".paragraph") :
    (i.after (texts.filterMap SourceLine.of?)).openParagraph = none := by
  rcases List.eq_nil_or_concat texts with rfl | ⟨init, last, rfl⟩
  · exact hi
  · obtain rfl : last = ".paragraph" := h last (by simp)
    have hbreak : [".paragraph"].filterMap SourceLine.of? = [.directive .paragraph] := by decide
    rw [List.concat_eq_append, List.filterMap_append, hbreak, after_append]
    rfl

theorem sealed_of_no_break_text (i : Interpreter) {texts : List String}
    (h : ".paragraph" ∉ texts) : i.sealed (texts.filterMap SourceLine.of?) = [] := by
  refine i.sealed_of_no_break ?_
  rintro l hl rfl
  obtain ⟨text, ht, hof⟩ := List.mem_filterMap.mp hl
  exact h (SourceLine.of?_eq_paragraph hof ▸ ht)

theorem run_of_lastBreak {i : Interpreter} (hi : i.openParagraph = none) (number : Nat)
    (events : Array Event) {texts : List String}
    (hproper : ∀ text ∈ texts, ¬ SourceLine.Malformed text)
    (hlast : ∀ text ∈ texts.getLast?, text = ".paragraph") :
    (i.runFrom number events texts).failure = none ∧
      (i.runFrom number events texts).paragraphs =
        paragraphsOf events ++ (i.sealed (texts.filterMap SourceLine.of?)).toArray := by
  obtain ⟨made, hmade, hrun⟩ := i.runFrom_append number events hproper []
  have hopen := after_of_lastBreak hi hlast
  rw [List.append_nil] at hrun
  rw [hrun, runFrom, sealing, hopen]
  exact ⟨rfl, hmade⟩

end Interpreter

/-! ## Conversions -/

/-- The lines of a source up to the last paragraph break before its first malformed line, the lines
behind that break, and the malformed line with its place. -/
structure FirstFault (source sealed unsealed : String) (e : MalformedIndent) : Prop where
  split : ∃ tail, source = sealed ++ unsealed ++ e.text ++ tail ∧ Text.EndsLine tail.toList
  whole : Text.WholeLines sealed.toList ∧ Text.WholeLines (sealed ++ unsealed).toList
  lines : ∃ rest, Text.lines source = Text.lines sealed ++ Text.lines unsealed ++ e.text :: rest
  proper : ∀ text ∈ Text.lines sealed ++ Text.lines unsealed, ¬ SourceLine.Malformed text
  lastBreak : ∀ text ∈ (Text.lines sealed).getLast?, text = ".paragraph"
  noBreak : ".paragraph" ∉ Text.lines unsealed
  fault : SourceLine.read e.line e.text = .error e
  line : e.line = 1 + (sealed ++ unsealed).toList.count '\n'

theorem exists_firstFault {source : String} {before rest : List String} {e : MalformedIndent}
    (hlines : Text.lines source = before ++ e.text :: rest)
    (hproper : ∀ text ∈ before, ¬ SourceLine.Malformed text)
    (hread : SourceLine.read (1 + before.length) e.text = .error e) :
    ∃ sealed unsealed, FirstFault source sealed unsealed e ∧
      before = Text.lines sealed ++ Text.lines unsealed := by
  -- The source is cut in front of the malformed line and behind it, then behind the last break.
  obtain ⟨front, back, rfl, hfront, hbefore, hback⟩ :=
    Text.lines_eq_append hlines fun h => absurd h (List.cons_ne_nil _ _)
  obtain ⟨tail, rfl, htail⟩ := Text.lines_eq_cons hback
  obtain ⟨first, second, hcut, hlast, hnone⟩ := exists_lastBreak before
  obtain ⟨sealed, unsealed, rfl, hsealed, rfl, rfl⟩ :=
    Text.lines_eq_append (hbefore.trans hcut) fun _ => hfront
  have hline := (SourceLine.place_of_read hread).1
  refine ⟨sealed, unsealed, ⟨⟨tail, by simp only [String.append_assoc], htail⟩, ⟨hsealed, hfront⟩,
    ⟨rest, hcut ▸ hlines⟩, hcut ▸ hproper, hlast, hnone, ?_, ?_⟩, hcut⟩
  · rwa [hline]
  · rw [hline, ← hbefore, Text.length_lines hfront]

theorem convertFrom_of_failure {s : Stylesheet} {texts : List String} {total remaining : Nat}
    {events : Array Event} {e : MalformedIndent}
    (h : (convertFrom s texts total (remaining + 1) events).failure = some e) :
    ∃ started, paragraphsOf started = paragraphsOf events ∧
      (Interpreter.runFrom { stylesheet := s } 1 started texts).failure = some e ∧
      (convertFrom s texts total (remaining + 1) events).paragraphs =
        (Interpreter.runFrom { stylesheet := s } 1 started texts).paragraphs := by
  refine ⟨events.push (.copy (total - remaining) total), paragraphsOf_push_copy _ _ _, ?_⟩
  cases ho : Interpreter.runFrom { stylesheet := s } 1
      (events.push (.copy (total - remaining) total)) texts with
  | mk made interpreter failure =>
    cases failure with
    | some e' =>
      simp only [convertFrom, ho] at h ⊢
      exact ⟨h, rfl⟩
    | none =>
      have hproper := Interpreter.not_malformed_of_runFrom (congrArg Outcome.failure ho)
      have hnone := (convertFrom_of_not_malformed s hproper total (remaining + 1) events).1
      simp [hnone] at h

theorem convert_one_of_lastBreak (s : Stylesheet) {source : String}
    (hproper : ∀ text ∈ Text.lines source, ¬ SourceLine.Malformed text)
    (hlast : ∀ text ∈ (Text.lines source).getLast?, text = ".paragraph") :
    (convert s source 1).failure = none ∧ (convert s source 1).paragraphs =
      (Interpreter.sealed { stylesheet := s }
        ((Text.lines source).filterMap SourceLine.of?)).toArray := by
  obtain ⟨hfailure, hparagraphs⟩ := Interpreter.run_of_lastBreak (i := { stylesheet := s }) rfl 1
    (#[].push (.copy 1 1)) hproper hlast
  rw [paragraphsOf_push_copy] at hparagraphs
  cases ho : Interpreter.runFrom { stylesheet := s } 1 (#[].push (.copy 1 1))
      (Text.lines source) with
  | mk made interpreter failure =>
    rw [ho] at hfailure hparagraphs
    obtain rfl : failure = none := hfailure
    have hconvert : convert s source 1 = ⟨made, none⟩ := by
      simp only [convert, convertFrom, Nat.sub_zero, ho]
    rw [hconvert]
    exact ⟨rfl, hparagraphs.trans (Array.empty_append ..)⟩

/-- Making at least one copy, a conversion fails if and only if some line is a malformed indent. It
reports the first such line, and has added what one copy of the source makes up to the last
paragraph break before that line. -/
theorem conversion_failure (s : Stylesheet) (source : String) (copies : Nat)
    (events : Array Event) (hcopies : 0 < copies) :
    let made := convertFrom s (Text.lines source) copies copies events
    (made.failure ≠ none ↔ ∃ text ∈ Text.lines source, text = ".indent" ∨
      ∃ amount, text = ".indent " ++ amount ∧ readIndent? amount.toList = none) ∧
    ∀ e, made.failure = some e → ∃ sealed unsealed, FirstFault source sealed unsealed e ∧
      (convert s sealed 1).failure = none ∧
      made.paragraphs = paragraphsOf events ++ (convert s sealed 1).paragraphs := by
  intro made
  obtain ⟨remaining, rfl⟩ := Nat.exists_eq_succ_of_ne_zero hcopies.ne'
  constructor
  · rw [← not_iff_not]
    simp only [← SourceLine.malformed_iff, not_exists, not_and, not_not]
    constructor
    · exact fun hnone => not_malformed_of_convertFrom (Nat.succ_ne_zero _) hnone
    · exact fun hproper => (convertFrom_of_not_malformed s hproper _ _ events).1
  · intro e he
    obtain ⟨started, hstarted, hfailure, hmade⟩ := convertFrom_of_failure he
    obtain ⟨before, text, rest, hlines, hproper, hread, -, hparagraphs⟩ :=
      Interpreter.run_of_failure hfailure
    obtain rfl : e.text = text := (SourceLine.place_of_read hread).2
    obtain ⟨sealed, unsealed, hfault, hbefore⟩ := exists_firstFault hlines hproper hread
    obtain ⟨hok, hone⟩ := convert_one_of_lastBreak s
      (fun t ht => hfault.proper t (List.mem_append_left _ ht)) hfault.lastBreak
    have hopen := (Interpreter.after { stylesheet := s }
      ((Text.lines sealed).filterMap SourceLine.of?)).sealed_of_no_break_text hfault.noBreak
    refine ⟨sealed, unsealed, hfault, hok, ?_⟩
    rw [hmade, hparagraphs, hstarted, hone, hbefore, List.filterMap_append,
      Interpreter.sealed_append, hopen, List.append_nil]

/-- Two lines of the first copy are at fault. The one reported is the fifth, and only what stands
above the second break is made. -/
theorem conversion_failure_sample :
    let source := "one\r\n.paragraph\n.paragraph\ntwo\n.indent \n.indent x\n.paragraph"
    let s : Stylesheet := ⟨12, 30, 20⟩
    0 < 2 ∧ ∃ e sealed unsealed,
      (convertFrom s (Text.lines source) 2 2 #[]).failure = some e ∧
      e = ⟨5, ".indent ", .missing⟩ ∧ FirstFault source sealed unsealed e ∧
      (convertFrom s (Text.lines source) 2 2 #[]).paragraphs =
        (convert s sealed 1).paragraphs ∧
      (convert s sealed 1).paragraphs.toList.map Paragraph.text = ["one"] := by
  intro source s
  have hfailure : (convertFrom s (Text.lines source) 2 2 #[]).failure =
      some ⟨5, ".indent ", .missing⟩ := by decide
  have hmade : (convertFrom s (Text.lines source) 2 2 #[]).paragraphs.toList.map Paragraph.text =
      ["one"] := by decide
  obtain ⟨sealed, unsealed, hfault, -, hparagraphs⟩ :=
    (conversion_failure s source 2 #[] (by decide)).2 _ hfailure
  have hsame : (convertFrom s (Text.lines source) 2 2 #[]).paragraphs =
      (convert s sealed 1).paragraphs := hparagraphs.trans (Array.empty_append ..)
  exact ⟨by decide, _, sealed, unsealed, hfailure, rfl, hfault, hsame, hsame ▸ hmade⟩

end Typesetter
