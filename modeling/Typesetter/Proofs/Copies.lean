import Typesetter.Interpreter
import Typesetter.Proofs.ConsecutiveRuns

/-! # Copies of a source

Every copy is a run over the source from fresh formatting. So copies repeat what the first of them
makes, and a source with a malformed line fails in its first copy. -/
namespace Typesetter

theorem paragraphsOf_push_copy (events : Array Event) (number total : Nat) :
    paragraphsOf (events.push (.copy number total)) = paragraphsOf events := by
  rw [Array.push_eq_append, paragraphsOf_append]
  exact Array.append_empty

theorem Interpreter.runFrom_one (i : Interpreter) (events : Array Event) (texts : List String) :
    (i.runFrom 1 events texts).failure = (i.run texts).failure ∧
      (i.runFrom 1 events texts).paragraphs = paragraphsOf events ++ (i.run texts).paragraphs := by
  obtain ⟨hfailure, -, hmade⟩ := i.runFrom_eq_run 0 events texts
  have hlater : (fun e : MalformedIndent => e.later 0) = id := rfl
  rw [hlater, Option.map_id_fun, id_eq] at hfailure
  exact ⟨hfailure, hmade⟩

/-- One copy adds what a run makes, whatever is there before it, and if the run fails no copy
follows. -/
theorem convertFrom_succ (s : Stylesheet) (texts : List String) (total remaining : Nat)
    (events : Array Event) :
    ∃ made, paragraphsOf made =
        paragraphsOf events ++ (Interpreter.run { stylesheet := s } texts).paragraphs ∧
      convertFrom s texts total (remaining + 1) events =
        match (Interpreter.run { stylesheet := s } texts).failure with
        | some e => ⟨made, some e⟩
        | none => convertFrom s texts total remaining made := by
  obtain ⟨hfailure, hmade⟩ := Interpreter.runFrom_one { stylesheet := s }
    (events.push (.copy (total - remaining) total)) texts
  rw [paragraphsOf_push_copy] at hmade
  refine ⟨_, hmade, ?_⟩
  rw [convertFrom, ← hfailure]
  cases Interpreter.runFrom { stylesheet := s } 1
      (events.push (.copy (total - remaining) total)) texts with
  | mk made interpreter failure => cases failure <;> rfl

section
variable {s : Stylesheet} {texts : List String}

theorem convertFrom_of_run (h : (Interpreter.run { stylesheet := s } texts).failure = none)
    (total copies : Nat) (events : Array Event) :
    (convertFrom s texts total copies events).failure = none ∧
      (convertFrom s texts total copies events).paragraphs = paragraphsOf events ++
        (List.replicate copies
          (Interpreter.run { stylesheet := s } texts).paragraphs.toList).flatten.toArray := by
  induction copies generalizing events with
  | zero => simp [convertFrom, Conversion.paragraphs]
  | succ copies ih =>
    obtain ⟨made, hmade, hcopy⟩ := convertFrom_succ s texts total copies events
    obtain ⟨hfailure, hparagraphs⟩ := ih made
    rw [hcopy, h]
    refine ⟨hfailure, ?_⟩
    rw [hparagraphs, hmade, List.replicate_succ, List.flatten_cons, ← List.append_toArray,
      Array.toArray_toList, Array.append_assoc]

theorem convertFrom_of_failed_run {e : MalformedIndent}
    (h : (Interpreter.run { stylesheet := s } texts).failure = some e) {copies : Nat}
    (hcopies : 0 < copies) (total : Nat) (events : Array Event) :
    (convertFrom s texts total copies events).failure = some e ∧
      (convertFrom s texts total copies events).paragraphs =
        paragraphsOf events ++ (Interpreter.run { stylesheet := s } texts).paragraphs := by
  obtain ⟨remaining, rfl⟩ := Nat.exists_eq_succ_of_ne_zero hcopies.ne'
  obtain ⟨made, hmade, hcopy⟩ := convertFrom_succ s texts total remaining events
  rw [hcopy, h]
  exact ⟨rfl, hmade⟩

theorem convertFrom_congr {texts' : List String} (place : MalformedIndent → MalformedIndent)
    (hfailure : (Interpreter.run { stylesheet := s } texts').failure =
      (Interpreter.run { stylesheet := s } texts).failure.map place)
    (hparagraphs : (Interpreter.run { stylesheet := s } texts').paragraphs =
      (Interpreter.run { stylesheet := s } texts).paragraphs)
    (total copies : Nat) (events : Array Event) :
    (convertFrom s texts' total copies events).failure =
        (convertFrom s texts total copies events).failure.map place ∧
      (convertFrom s texts' total copies events).paragraphs =
        (convertFrom s texts total copies events).paragraphs := by
  cases hrun : (Interpreter.run { stylesheet := s } texts).failure with
  | none =>
    rw [hrun] at hfailure
    obtain ⟨hnone, hmade⟩ := convertFrom_of_run hrun total copies events
    obtain ⟨hnone', hmade'⟩ := convertFrom_of_run hfailure total copies events
    rw [hnone, hnone', hmade, hmade', hparagraphs]
    exact ⟨rfl, rfl⟩
  | some e =>
    rw [hrun] at hfailure
    rcases Nat.eq_zero_or_pos copies with rfl | hcopies
    · exact ⟨rfl, rfl⟩
    · obtain ⟨hsome, hmade⟩ := convertFrom_of_failed_run hrun hcopies total events
      obtain ⟨hsome', hmade'⟩ := convertFrom_of_failed_run hfailure hcopies total events
      rw [hsome, hsome', hmade, hmade', hparagraphs]
      exact ⟨rfl, rfl⟩

theorem not_malformed_of_convertFrom {total remaining : Nat} {events : Array Event}
    (hpos : remaining ≠ 0) (h : (convertFrom s texts total remaining events).failure = none) :
    ∀ text ∈ texts, ¬ SourceLine.Malformed text := by
  cases hrun : (Interpreter.run { stylesheet := s } texts).failure with
  | none => exact Interpreter.not_malformed_of_runFrom hrun
  | some e =>
    rw [(convertFrom_of_failed_run hrun (Nat.pos_of_ne_zero hpos) total events).1] at h
    cases h

end

/-! ## Proper sources -/

def sourceParagraphs (s : Stylesheet) (texts : List String) : List Paragraph :=
  (segmentsOf (marked {} (texts.filterMap SourceLine.of?))).filterMap s.paragraph?

theorem convertFrom_of_not_malformed (s : Stylesheet) {texts : List String}
    (h : ∀ text ∈ texts, ¬ SourceLine.Malformed text) (total remaining : Nat)
    (events : Array Event) :
    (convertFrom s texts total remaining events).failure = none ∧
      (convertFrom s texts total remaining events).paragraphs = paragraphsOf events ++
        (List.replicate remaining (sourceParagraphs s texts)).flatten.toArray := by
  obtain ⟨hfailure, hparagraphs, -⟩ := Interpreter.runFrom_within s {} [] (by simp) 1 #[] texts h
  have hmade : (Interpreter.run { stylesheet := s } texts).paragraphs.toList =
      sourceParagraphs s texts := by
    refine (congrArg Array.toList hparagraphs).trans ?_
    simp [paragraphsOf, sourceParagraphs]
  rw [← hmade]
  exact convertFrom_of_run hfailure total remaining events

theorem convert_paragraphs {s : Stylesheet} {source : String} {copies : Nat}
    (h : (convert s source copies).failure = none) :
    (convert s source copies).paragraphs =
      (List.replicate copies (sourceParagraphs s (Text.lines source))).flatten.toArray := by
  by_cases hzero : copies = 0
  · subst hzero
    rfl
  · have hproper := not_malformed_of_convertFrom hzero h
    have hp := (convertFrom_of_not_malformed s hproper copies copies #[]).2
    rw [convert, hp]
    simp [paragraphsOf]

/-- Every paragraph of a conversion comes from a segment of the source. -/
theorem exists_segment_of_convert {s : Stylesheet} {source : String} {copies : Nat}
    (h : (convert s source copies).failure = none) {p : Paragraph}
    (hp : p ∈ (convert s source copies).paragraphs.toList) :
    ∃ segment, s.paragraph? segment = some p := by
  rw [convert_paragraphs h] at hp
  obtain ⟨made, hmade, hp⟩ := List.mem_flatten.mp hp
  rw [List.eq_of_mem_replicate hmade] at hp
  obtain ⟨segment, _, hsegment⟩ := List.mem_filterMap.mp hp
  exact ⟨segment, hsegment⟩

/-! ## One copy and many -/

/-- What one conversion adds to a document depends on the source alone. If it succeeds, copies add
that once for each of them, so nothing of a copy reaches the next one. If it fails, all copies
together fail as the first one does. -/
theorem copies_are_repetitions (s : Stylesheet) (source : String) :
    ∃ added : Array Paragraph, ∀ events : Array Event,
      let made := fun copies => convertFrom s (Text.lines source) copies copies events
      (made 1).paragraphs = paragraphsOf events ++ added ∧
      ((made 1).failure = none → ∀ copies, (made copies).failure = none ∧
        (made copies).paragraphs =
          paragraphsOf events ++ (List.replicate copies added.toList).flatten.toArray) ∧
      (∀ e, (made 1).failure = some e → ∀ copies, 0 < copies → (made copies).failure = some e ∧
        (made copies).paragraphs = paragraphsOf events ++ added) ∧
      (made 0).failure = none ∧ (made 0).paragraphs = paragraphsOf events := by
  refine ⟨(Interpreter.run { stylesheet := s } (Text.lines source)).paragraphs, ?_⟩
  intro events made
  cases hrun : (Interpreter.run { stylesheet := s } (Text.lines source)).failure with
  | none =>
    have hmade := fun copies => convertFrom_of_run hrun copies copies events
    refine ⟨?_, fun _ => hmade, fun e he => ?_, rfl, rfl⟩
    · simpa using (hmade 1).2
    · exact absurd ((hmade 1).1.symm.trans he) (Option.some_ne_none e).symm
  | some e =>
    have hmade := fun copies (hcopies : 0 < copies) =>
      convertFrom_of_failed_run hrun hcopies copies events
    refine ⟨(hmade 1 Nat.one_pos).2, fun hnone => ?_, fun e' he' => ?_, rfl, rfl⟩
    · exact absurd ((hmade 1 Nat.one_pos).1.symm.trans hnone) (Option.some_ne_none e)
    · obtain rfl : e = e' := Option.some.inj ((hmade 1 Nat.one_pos).1.symm.trans he')
      exact hmade

/-- The first source ends slanted and indented, with a paragraph open, and still every copy starts
upright with a paragraph of its own. The second one fails behind its break, and a second copy is not
begun. -/
theorem copies_are_repetitions_twoSources :
    let s : Stylesheet := ⟨12, 30, 20⟩
    let kept : Array Event := #[.sealed { runs := #[⟨"kept", .bold, 12⟩] }]
    let slanted := "one\n.italics\ntwo\n.paragraph\n.indent 2\nthree"
    let broken := "one\n.paragraph\ntwo\n.indent x"
    let made := fun source copies => convertFrom s (Text.lines source) copies copies kept
    let shown := fun p : Paragraph => (p.leftMargin, p.runs.toList.map fun r => (r.content, r.face))
    ((made slanted 1).failure = none ∧ (made slanted 2).failure = none ∧
      (made slanted 2).paragraphs.toList.map shown =
        [(0, [("kept", .bold)]),
          (0, [("one", .regular), (" two", .italics)]), (40, [("three", .italics)]),
          (0, [("one", .regular), (" two", .italics)]), (40, [("three", .italics)])]) ∧
    (made broken 1).failure = some ⟨4, ".indent x", .notInteger⟩ ∧ 0 < 2 ∧
      (made broken 2).failure = some ⟨4, ".indent x", .notInteger⟩ ∧
      (made broken 2).paragraphs.toList.map shown =
        [(0, [("kept", .bold)]), (0, [("one", .regular)])] := by
  intro s kept slanted broken made shown
  have hkept : (paragraphsOf kept).toList.map shown = [(0, [("kept", .bold)])] := by decide
  refine ⟨?_, ?_⟩
  · obtain ⟨added, hadded⟩ := copies_are_repetitions s slanted
    obtain ⟨hone, hsucceeds, -⟩ := hadded kept
    have hok : (made slanted 1).failure = none := by decide
    obtain ⟨hboth, hmade⟩ := hsucceeds hok 2
    have hshown : (made slanted 1).paragraphs.toList.map shown =
        [(0, [("kept", .bold)]), (0, [("one", .regular), (" two", .italics)]),
          (40, [("three", .italics)])] := by decide
    have hcopy : added.toList.map shown =
        [(0, [("one", .regular), (" two", .italics)]), (40, [("three", .italics)])] := by
      rw [hone, Array.toList_append, List.map_append, hkept] at hshown
      exact List.append_cancel_left hshown
    refine ⟨hok, hboth, ?_⟩
    rw [hmade, Array.toList_append, List.map_append, hkept]
    simp [List.replicate_succ, hcopy]
  · obtain ⟨added, hadded⟩ := copies_are_repetitions s broken
    obtain ⟨hone, -, hfails, -⟩ := hadded kept
    have herror : (made broken 1).failure = some ⟨4, ".indent x", .notInteger⟩ := by decide
    obtain ⟨hboth, hmade⟩ := hfails _ herror 2 (by decide)
    refine ⟨herror, by decide, hboth, ?_⟩
    rw [hmade, ← hone]
    decide

end Typesetter
