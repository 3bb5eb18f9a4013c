import Typesetter.Proofs.Segments

/-! # Consecutive runs

What a second run of one interpreter makes. A malformed line ends a run where it stands: what breaks
have sealed before it is kept, and the paragraph that is open stays with the interpreter, so the
next run goes on with it. The end of the lines seals that paragraph as a break does. -/
namespace Typesetter

def MalformedIndent.later (e : MalformedIndent) (lines : Nat) : MalformedIndent :=
  { e with line := e.line + lines }

namespace SourceLine

theorem read_add (number lines : Nat) (text : String) :
    read (number + lines) text = (read number text).mapError (·.later lines) := by
  unfold read
  split
  · rfl
  · split
    · rfl
    · dsimp only
      split
      · cases readAmount (Text.cutAt ' ' text.toList).2 <;> rfl
      · rfl

theorem ofName?_eq_paragraph {name : String} (h : Directive.ofName? name = some .paragraph) :
    name = ".paragraph" := by
  unfold Directive.ofName? at h
  split at h <;> first | rfl | simp at h

theorem of?_eq_paragraph {text : String} (h : of? text = some (.directive .paragraph)) :
    text = ".paragraph" := by
  unfold of? read at h
  split at h
  · simp [Except.toOption] at h
  · split at h
    · rename_i d hd
      obtain rfl : d = .paragraph := by simpa [Except.toOption] using h
      exact ofName?_eq_paragraph hd
    · dsimp only at h
      split at h
      · cases hr : readAmount (Text.cutAt ' ' text.toList).2 <;> simp [hr, Except.toOption] at h
      · simp [Except.toOption] at h

end SourceLine

namespace Interpreter

def next (i : Interpreter) (l : SourceLine) : Interpreter := (i.step 1 l).1

def after (i : Interpreter) (lines : List SourceLine) : Interpreter := lines.foldl next i

def sealedBy (i : Interpreter) (l : SourceLine) : List Paragraph :=
  if l = .directive .paragraph then i.openParagraph.toList else []

/-- What breaks among some lines seal, one after the other. -/
def sealed : Interpreter → List SourceLine → List Paragraph
  | _, [] => []
  | i, l :: ls => i.sealedBy l ++ (i.next l).sealed ls

theorem step_eq (i : Interpreter) (number : Nat) (l : SourceLine) :
    (i.step number l).1 = i.next l ∧
      (i.step number l).2.filterMap Event.paragraph? = i.sealedBy l := by
  cases l with
  | blank => exact ⟨rfl, rfl⟩
  | literal text => exact ⟨rfl, rfl⟩
  | directive d =>
    cases d with
    | paragraph => exact ⟨rfl, filterMap_sealing i⟩
    | _ => exact ⟨rfl, rfl⟩

theorem after_append (i : Interpreter) (a b : List SourceLine) :
    i.after (a ++ b) = (i.after a).after b :=
  List.foldl_append

theorem sealed_append (i : Interpreter) (a b : List SourceLine) :
    i.sealed (a ++ b) = i.sealed a ++ (i.after a).sealed b := by
  induction a generalizing i with
  | nil => rfl
  | cons l a ih => simp [sealed, ih, after]

theorem sealed_of_no_break (i : Interpreter) {lines : List SourceLine}
    (h : ∀ l ∈ lines, l ≠ .directive .paragraph) : i.sealed lines = [] := by
  induction lines generalizing i with
  | nil => rfl
  | cons l lines ih =>
    obtain ⟨hl, hlines⟩ := List.forall_mem_cons.mp h
    simp [sealed, sealedBy, hl, ih _ hlines]

/-! ## Reading on -/

theorem runFrom_append (i : Interpreter) (number : Nat) (events : Array Event)
    {texts : List String} (h : ∀ text ∈ texts, ¬ SourceLine.Malformed text) (rest : List String) :
    ∃ made, paragraphsOf made =
        paragraphsOf events ++ (i.sealed (texts.filterMap SourceLine.of?)).toArray ∧
      i.runFrom number events (texts ++ rest) =
        (i.after (texts.filterMap SourceLine.of?)).runFrom (number + texts.length) made rest := by
  induction texts generalizing i number events with
  | nil => exact ⟨events, by simp [sealed], rfl⟩
  | cons text texts ih =>
    obtain ⟨htext, htexts⟩ := List.forall_mem_cons.mp h
    obtain ⟨l, hl, hread⟩ := SourceLine.read_of_not_malformed htext number
    obtain ⟨hnext, hsealed⟩ := i.step_eq number l
    obtain ⟨made, hmade, hrun⟩ := ih (i.next l) (number + 1) (events ++ (i.step number l).2) htexts
    refine ⟨made, ?_, ?_⟩
    · rw [hmade, paragraphsOf_append_list, hsealed, List.filterMap_cons, hl]
      simp [sealed]
    · rw [List.cons_append, runFrom_cons i events _ hread, hnext, hrun, List.filterMap_cons, hl,
        List.length_cons, Nat.add_assoc, Nat.add_comm 1]
      rfl

/-- Where a run starts matters to the place of an error, and what came before it to nothing. -/
theorem runFrom_later (i : Interpreter) (number lines : Nat) (events before : Array Event)
    (texts : List String) :
    (i.runFrom (number + lines) events texts).failure =
        (i.runFrom number before texts).failure.map (·.later lines) ∧
      (i.runFrom (number + lines) events texts).interpreter =
        (i.runFrom number before texts).interpreter ∧
      ∃ new, (i.runFrom (number + lines) events texts).paragraphs = paragraphsOf events ++ new ∧
        (i.runFrom number before texts).paragraphs = paragraphsOf before ++ new := by
  induction texts generalizing i number events before with
  | nil =>
    refine ⟨rfl, rfl, (i.sealing.filterMap Event.paragraph?).toArray, ?_, ?_⟩ <;>
      exact paragraphsOf_append_list _ _
  | cons text texts ih =>
    have hread := SourceLine.read_add number lines text
    cases hr : SourceLine.read number text with
    | error e =>
      rw [hr] at hread
      rw [runFrom, runFrom, hr, hread]
      exact ⟨rfl, rfl, #[], Array.append_empty.symm, Array.append_empty.symm⟩
    | ok l =>
      rw [hr] at hread
      obtain ⟨hnext, hsealed⟩ := i.step_eq number l
      obtain ⟨hnext', hsealed'⟩ := i.step_eq (number + lines) l
      obtain ⟨hfail, hend, new, hnew, hnew'⟩ := ih (i.next l) (number + 1)
        (events ++ (i.step (number + lines) l).2) (before ++ (i.step number l).2)
      rw [runFrom_cons i events texts hread, runFrom_cons i before texts hr, hnext, hnext',
        Nat.add_right_comm number lines 1]
      refine ⟨hfail, hend, (i.sealedBy l).toArray ++ new, ?_, ?_⟩
      · rw [hnew, paragraphsOf_append_list, hsealed', Array.append_assoc]
      · rw [hnew', paragraphsOf_append_list, hsealed, Array.append_assoc]

theorem runFrom_eq_run (i : Interpreter) (lines : Nat) (events : Array Event)
    (texts : List String) :
    (i.runFrom (1 + lines) events texts).failure = (i.run texts).failure.map (·.later lines) ∧
      (i.runFrom (1 + lines) events texts).interpreter = (i.run texts).interpreter ∧
      (i.runFrom (1 + lines) events texts).paragraphs =
        paragraphsOf events ++ (i.run texts).paragraphs := by
  obtain ⟨hfail, hend, new, hnew, hnew'⟩ := i.runFrom_later 1 lines events #[] texts
  have hempty : paragraphsOf #[] = #[] := rfl
  rw [hempty, Array.empty_append] at hnew'
  exact ⟨hfail, hend, hnew' ▸ hnew⟩

/-! ## The first line at fault -/

theorem exists_first (p : String → Prop) [DecidablePred p] (texts : List String) :
    ∃ before rest, texts = before ++ rest ∧ (∀ text ∈ before, ¬ p text) ∧
      ∀ text ∈ rest.head?, p text := by
  refine ⟨texts.takeWhile fun t => !decide (p t), texts.dropWhile fun t => !decide (p t),
    List.takeWhile_append_dropWhile.symm, ?_, ?_⟩
  · intro text ht
    have hall := List.all_eq_true.mp (List.all_takeWhile (p := fun t => !decide (p t)) (l := texts))
    simpa using hall text ht
  · intro text ht
    have hhead := List.head?_dropWhile_not (fun t => !decide (p t)) texts
    rw [Option.mem_def.mp ht] at hhead
    simpa using hhead

theorem run_of_failure {i : Interpreter} {number : Nat} {events : Array Event}
    {texts : List String} {e : MalformedIndent}
    (h : (i.runFrom number events texts).failure = some e) :
    ∃ before text rest, texts = before ++ text :: rest ∧
      (∀ t ∈ before, ¬ SourceLine.Malformed t) ∧
      SourceLine.read (number + before.length) text = .error e ∧
      (i.runFrom number events texts).interpreter =
        i.after (before.filterMap SourceLine.of?) ∧
      (i.runFrom number events texts).paragraphs = paragraphsOf events ++
        (i.sealed (before.filterMap SourceLine.of?)).toArray := by
  obtain ⟨before, rest, rfl, hbefore, hrest⟩ := exists_first SourceLine.Malformed texts
  obtain ⟨made, hmade, hrun⟩ := i.runFrom_append number events hbefore rest
  rw [hrun] at h ⊢
  cases rest with
  | nil => simp [runFrom] at h
  | cons text rest =>
    have hbad : SourceLine.Malformed text := hrest text rfl
    rw [SourceLine.Malformed, ← SourceLine.toOption_read (number + before.length)] at hbad
    cases hread : SourceLine.read (number + before.length) text with
    | ok l => simp [hread, Except.toOption] at hbad
    | error e' =>
      simp only [runFrom, hread] at h ⊢
      obtain rfl : e' = e := by simpa using h
      exact ⟨before, text, rest, rfl, hbefore, hread, rfl, hmade⟩

theorem malformed_of_read {number : Nat} {text : String} {e : MalformedIndent}
    (h : SourceLine.read number text = .error e) : SourceLine.Malformed text := by
  rw [SourceLine.Malformed, ← SourceLine.toOption_read number, h]
  rfl

/-! ## The open paragraph -/

/-- An open paragraph holds a run. -/
def Coherent (i : Interpreter) : Prop := ∀ p ∈ i.openParagraph, p.runs ≠ #[]

def openRuns (i : Interpreter) : Nat := i.openParagraph.elim 0 (·.runs.size)

theorem openRuns_eq_zero_iff {i : Interpreter} (h : i.Coherent) :
    i.openRuns = 0 ↔ i.openParagraph = none := by
  unfold Coherent at h
  unfold openRuns
  cases hp : i.openParagraph with
  | none => simp
  | some p => simpa using h p hp

theorem Coherent.next {i : Interpreter} (h : i.Coherent) (l : SourceLine) :
    (i.next l).Coherent := by
  intro p hp
  cases l with
  | blank => exact h p hp
  | literal text =>
    obtain ⟨s, f, q⟩ := i
    cases q <;> cases hp <;> simp [Stylesheet.append]
  | directive d =>
    cases d with
    | paragraph => simp [Interpreter.next, step, close] at hp
    | _ => exact h p hp

theorem Coherent.after {i : Interpreter} (h : i.Coherent) (lines : List SourceLine) :
    (i.after lines).Coherent := by
  induction lines generalizing i with
  | nil => exact h
  | cons l lines ih => exact ih (h.next l)

theorem coherent_of_closed {i : Interpreter} (h : i.openParagraph = none) : i.Coherent := by
  simp [Coherent, h]

theorem Coherent.runFrom {i : Interpreter} (h : i.Coherent) (number : Nat) (events : Array Event)
    (texts : List String) : (i.runFrom number events texts).interpreter.Coherent := by
  cases hf : (i.runFrom number events texts).failure with
  | some e =>
    obtain ⟨before, _, _, _, _, _, hend, _⟩ := run_of_failure hf
    rw [hend]
    exact h.after _
  | none =>
    have hproper := not_malformed_of_runFrom hf
    obtain ⟨made, _, hrun⟩ := i.runFrom_append number events hproper []
    rw [List.append_nil] at hrun
    rw [hrun]
    exact coherent_of_closed rfl

theorem openRuns_literal (i : Interpreter) (text : String) :
    (i.literal text).openRuns = i.openRuns + 1 := by
  obtain ⟨s, f, p⟩ := i
  cases p <;> simp [literal, openRuns, Stylesheet.append]

/-- Two interpreters that differ at most in their open paragraph differ by as many runs after any
line that is no break. -/
theorem next_of_close_eq {i j : Interpreter} (h : i.close = j.close) {l : SourceLine}
    (hl : l ≠ .directive .paragraph) :
    (i.next l).close = (j.next l).close ∧
      (i.next l).openRuns + j.openRuns = (j.next l).openRuns + i.openRuns := by
  obtain ⟨s, f, p⟩ := i
  obtain ⟨s', f', q⟩ := j
  obtain ⟨rfl, rfl, _⟩ := Interpreter.mk.inj h
  cases l with
  | blank => exact ⟨rfl, Nat.add_comm _ _⟩
  | literal text =>
    have hi := openRuns_literal ⟨s, f, p⟩ text
    have hj := openRuns_literal ⟨s, f, q⟩ text
    refine ⟨?_, ?_⟩
    · cases p <;> cases q <;> rfl
    · simp only [Interpreter.next, step]
      omega
  | directive d =>
    cases d with
    | paragraph => exact absurd rfl hl
    | _ => exact ⟨rfl, Nat.add_comm _ _⟩

theorem after_of_close_eq {i j : Interpreter} (h : i.close = j.close) {lines : List SourceLine}
    (hlines : ∀ l ∈ lines, l ≠ .directive .paragraph) :
    (i.after lines).close = (j.after lines).close ∧
      (i.after lines).openRuns + j.openRuns = (j.after lines).openRuns + i.openRuns := by
  induction lines generalizing i j with
  | nil => exact ⟨h, Nat.add_comm _ _⟩
  | cons l lines ih =>
    obtain ⟨hl, hrest⟩ := List.forall_mem_cons.mp hlines
    obtain ⟨hclose, hruns⟩ := next_of_close_eq h hl
    obtain ⟨hclose', hruns'⟩ := ih hclose hrest
    refine ⟨hclose', ?_⟩
    have hi : (i.after (l :: lines)).openRuns = ((i.next l).after lines).openRuns := rfl
    have hj : (j.after (l :: lines)).openRuns = ((j.next l).after lines).openRuns := rfl
    omega

def Stops (text : String) : Prop := SourceLine.Malformed text ∨ text = ".paragraph"

instance (text : String) : Decidable (Stops text) := inferInstanceAs (Decidable (_ ∨ _))

/-- The lines are at fault before any break among them. -/
def FailsInSegment (texts : List String) : Prop :=
  ∃ before text rest, texts = before ++ text :: rest ∧ (∀ t ∈ before, ¬ Stops t) ∧
    SourceLine.Malformed text

theorem no_break_of_not_stops {texts : List String} (h : ∀ text ∈ texts, ¬ Stops text) :
    ∀ l ∈ texts.filterMap SourceLine.of?, l ≠ .directive .paragraph := by
  rintro l hl rfl
  obtain ⟨text, ht, hof⟩ := List.mem_filterMap.mp hl
  exact h text ht (Or.inr (SourceLine.of?_eq_paragraph hof))

theorem run_of_failsInSegment (i : Interpreter) {texts : List String}
    (h : FailsInSegment texts) : (i.run texts).paragraphs = #[] := by
  obtain ⟨before, text, rest, rfl, hbefore, hbad⟩ := h
  have hproper : ∀ t ∈ before, ¬ SourceLine.Malformed t := fun t ht hm => hbefore t ht (Or.inl hm)
  obtain ⟨made, hmade, hrun⟩ := i.runFrom_append 1 #[] hproper (text :: rest)
  rw [i.sealed_of_no_break (no_break_of_not_stops hbefore)] at hmade
  rw [SourceLine.Malformed, ← SourceLine.toOption_read (1 + before.length)] at hbad
  cases hread : SourceLine.read (1 + before.length) text with
  | ok l => simp [hread, Except.toOption] at hbad
  | error e =>
    rw [run, hrun, runFrom, hread]
    exact hmade.trans rfl

/-- The first segment is sealed behind the open paragraph, and then all that differs is gone. -/
theorem run_of_not_failsInSegment {texts : List String} (h : ¬ FailsInSegment texts)
    (k : Interpreter) :
    ∃ lines : List SourceLine, (∀ l ∈ lines, l ≠ .directive .paragraph) ∧ ∃ rest,
      ∀ i : Interpreter, i.close = k.close →
        (i.run texts).paragraphs = (i.after lines).openParagraph.toArray ++ rest := by
  obtain ⟨before, rest, rfl, hbefore, hrest⟩ := exists_first Stops texts
  have hproper : ∀ t ∈ before, ¬ SourceLine.Malformed t := fun t ht hm => hbefore t ht (Or.inl hm)
  have hbreak := no_break_of_not_stops hbefore
  refine ⟨before.filterMap SourceLine.of?, hbreak, ?_⟩
  cases rest with
  | nil =>
    refine ⟨#[], fun i _ => ?_⟩
    obtain ⟨made, hmade, hrun⟩ := i.runFrom_append 1 #[] hproper []
    rw [i.sealed_of_no_break hbreak] at hmade
    rw [run, hrun, runFrom, Outcome.paragraphs, paragraphsOf_append_list, hmade, filterMap_sealing]
    simp [paragraphsOf]
  | cons text rest =>
    rcases hrest text rfl with hbad | rfl
    · exact absurd ⟨before, text, rest, rfl, hbefore, hbad⟩ h
    · -- The break closes the paragraph, and what is made below it does not depend on `i`.
      refine ⟨((k.after (before.filterMap SourceLine.of?)).close.run rest).paragraphs,
        fun i hi => ?_⟩
      obtain ⟨made, hmade, hrun⟩ := i.runFrom_append 1 #[] hproper (".paragraph" :: rest)
      rw [i.sealed_of_no_break hbreak] at hmade
      have hread : SourceLine.read (1 + before.length) ".paragraph" =
          .ok (.directive .paragraph) := rfl
      obtain ⟨hnext, hsealed⟩ :=
        (i.after (before.filterMap SourceLine.of?)).step_eq (1 + before.length)
          (.directive .paragraph)
      have hclose := (after_of_close_eq hi hbreak).1
      have hlater := ((i.after (before.filterMap SourceLine.of?)).close.runFrom_eq_run
        (before.length + 1) (made ++ ((i.after (before.filterMap SourceLine.of?)).step
          (1 + before.length) (.directive .paragraph)).2) rest).2.2
      rw [run, hrun, runFrom_cons _ made rest hread, hnext, Nat.add_assoc]
      refine hlater.trans ?_
      rw [paragraphsOf_append_list, hmade, hsealed, hclose]
      simp [paragraphsOf, sealedBy]

/-- A run that fails and the next run of the same interpreter make what a single run makes over the
lines before the error and the lines of the next run. So the next run seals what it would have
sealed without the paragraph left open just if none was open, or if it fails itself before it
seals. -/
theorem run_after_failure (i : Interpreter) (hi : i.Coherent) (first second : List String)
    (e : MalformedIndent) (h : (i.run first).failure = some e) :
    let left := (i.run first).interpreter
    (∃ before text rest, first = before ++ text :: rest ∧
      (∀ t ∈ before, ¬ SourceLine.Malformed t) ∧ SourceLine.Malformed text ∧
      (i.run (before ++ second)).paragraphs =
        (i.run first).paragraphs ++ (left.run second).paragraphs ∧
      (i.run (before ++ second)).interpreter = (left.run second).interpreter ∧
      (i.run (before ++ second)).failure =
        (left.run second).failure.map (·.later before.length)) ∧
    ((left.run second).paragraphs = (left.close.run second).paragraphs ↔
      left.openParagraph = none ∨ FailsInSegment second) := by
  intro left
  constructor
  · obtain ⟨before, text, rest, hfirst, hproper, hread, hend, hmade⟩ := run_of_failure h
    have hleft : left = i.after (before.filterMap SourceLine.of?) := hend
    obtain ⟨made, hsealed, hrun⟩ := i.runFrom_append 1 #[] hproper second
    obtain ⟨hfail, hlast, hparagraphs⟩ := left.runFrom_eq_run before.length made second
    rw [← hleft] at hrun
    have hsame : paragraphsOf made = (i.run first).paragraphs := hsealed.trans hmade.symm
    refine ⟨before, text, rest, hfirst, hproper, malformed_of_read hread, ?_, ?_, ?_⟩
    · rw [← hsame, ← hparagraphs, ← hrun]
      rfl
    · rw [← hlast, ← hrun]
      rfl
    · rw [← hfail, ← hrun]
      rfl
  · have hcoherent : left.Coherent := hi.runFrom 1 #[] first
    constructor
    · intro hsame
      -- Otherwise both runs seal their open paragraph behind the same lines, and how many runs it
      -- holds there tells whether one was open before.
      by_contra hnot
      obtain ⟨hopen, hseals⟩ := not_or.mp hnot
      obtain ⟨lines, hlines, rest, hrun⟩ := run_of_not_failsInSegment hseals left
      rw [hrun left rfl, hrun left.close rfl] at hsame
      have hp : (left.after lines).openParagraph = (left.close.after lines).openParagraph := by
        have hlist := congrArg Array.toList hsame
        rw [Array.toList_append, Array.toList_append] at hlist
        simpa using congrArg List.head? (List.append_cancel_right hlist)
      have hruns := (after_of_close_eq (i := left) (j := left.close) rfl hlines).2
      have hsize : (left.after lines).openRuns = (left.close.after lines).openRuns := by
        rw [openRuns, openRuns, hp]
      have hzero : left.close.openRuns = 0 := rfl
      exact hopen ((openRuns_eq_zero_iff hcoherent).mp (by omega))
    · rintro (hnone | hfails)
      · have hclosed : left.close = left := by
          rw [close, ← hnone]
        rw [hclosed]
      · rw [left.run_of_failsInSegment hfails, left.close.run_of_failsInSegment hfails]

/-- The word that a failed run leaves open is joined with that of the next run. -/
theorem failed_run_leaves_text :
    let i : Interpreter := { stylesheet := ⟨12, 30, 20⟩ }
    (i.run ["kept", ".indent x"]).failure = some ⟨2, ".indent x", .notInteger⟩ ∧
      ((i.run ["kept", ".indent x"]).interpreter.run ["next"]).paragraphs.toList.map
        (fun p => p.runs.toList.map Run.content) = [["kept", " next"]] := by
  decide

theorem run_after_failure_openWord :
    let i : Interpreter := { stylesheet := ⟨12, 30, 20⟩ }
    i.Coherent ∧ (i.run ["kept", ".indent x"]).failure = some ⟨2, ".indent x", .notInteger⟩ ∧
      ((i.run ["kept", ".indent x"]).interpreter.run ["next"]).paragraphs ≠
        ((i.run ["kept", ".indent x"]).interpreter.close.run ["next"]).paragraphs := by
  intro i
  have hi : i.Coherent := coherent_of_closed rfl
  have hfail : (i.run ["kept", ".indent x"]).failure = some ⟨2, ".indent x", .notInteger⟩ := by
    decide
  refine ⟨hi, hfail, fun hsame => ?_⟩
  rcases (run_after_failure i hi _ ["next"] _ hfail).2.mp hsame with hnone | hfails
  · exact absurd hnone (by decide)
  · obtain ⟨before, text, rest, hsplit, _, hbad⟩ := hfails
    have hmem : text ∈ ["next"] := hsplit ▸ by simp
    rw [List.mem_singleton.mp hmem] at hbad
    exact absurd hbad (by decide)

/-! ## Runs that succeed -/

/-- At the end of the lines an interpreter does what it does at a break, wherever that stands. -/
theorem runFrom_nil (i : Interpreter) (number : Nat) (events : Array Event) :
    (i.runFrom number events []).failure = none ∧
      (i.runFrom number events []).interpreter = i.next (.directive .paragraph) ∧
      (i.runFrom number events []).paragraphs =
        paragraphsOf events ++ (i.sealedBy (.directive .paragraph)).toArray := by
  refine ⟨rfl, rfl, ?_⟩
  have hsealed := (i.step_eq number (.directive .paragraph)).2
  rw [← hsealed, runFrom, Outcome.paragraphs, paragraphsOf_append_list]
  rfl

theorem runFrom_of_proper (i : Interpreter) (number : Nat) (events : Array Event)
    {texts : List String} (h : ∀ text ∈ texts, ¬ SourceLine.Malformed text) :
    let lines := texts.filterMap SourceLine.of? ++ [.directive .paragraph]
    let outcome := i.runFrom number events texts
    outcome.failure = none ∧ outcome.interpreter = i.after lines ∧
      outcome.paragraphs = paragraphsOf events ++ (i.sealed lines).toArray := by
  intro lines outcome
  obtain ⟨made, hmade, hrun⟩ := i.runFrom_append number events h []
  obtain ⟨hfail, hend, hparagraphs⟩ :=
    (i.after (texts.filterMap SourceLine.of?)).runFrom_nil (number + texts.length) made
  rw [List.append_nil] at hrun
  refine ⟨?_, ?_, ?_⟩
  · rw [← hfail, ← hrun]
  · rw [after_append]
    exact (congrArg Outcome.interpreter hrun).trans hend
  · rw [sealed_append]
    refine (congrArg Outcome.paragraphs hrun).trans ?_
    rw [hparagraphs, hmade]
    simp [sealed]

/-- From any state and with any paragraph open, a run over proper lines and a second run make what
one run makes over all lines with a break between the two lists, and end alike. An error of the
second run stands further down by the lines before it. -/
theorem consecutive_runs (i : Interpreter) (events : Array Event) (first second : List String)
    (h : ∀ text ∈ first, ¬ SourceLine.Malformed text) :
    let before := i.runFrom 1 events first
    let both := before.interpreter.runFrom 1 before.events second
    let single := i.runFrom 1 events (first ++ [".paragraph"] ++ second)
    before.failure = none ∧ single.paragraphs = both.paragraphs ∧
      single.interpreter = both.interpreter ∧
      single.failure = both.failure.map (·.later (first.length + 1)) := by
  intro before both single
  have hproper : ∀ text ∈ first ++ [".paragraph"], ¬ SourceLine.Malformed text := by
    intro text ht
    rcases List.mem_append.mp ht with ht | ht
    · exact h text ht
    · rw [List.mem_singleton.mp ht]
      decide
  have hlines : (first ++ [".paragraph"]).filterMap SourceLine.of? =
      first.filterMap SourceLine.of? ++ [.directive .paragraph] := by
    rw [List.filterMap_append]
    rfl
  obtain ⟨hfail, hend, hbefore⟩ := i.runFrom_of_proper 1 events h
  obtain ⟨made, hmade, hrun⟩ := i.runFrom_append 1 events hproper second
  rw [hlines] at hmade hrun
  -- Both ways the second list is read from the same state, behind the same paragraphs.
  have hsame : paragraphsOf made = paragraphsOf before.events := hmade.trans hbefore.symm
  obtain ⟨hfail', hend', new, hnew, hnew'⟩ := before.interpreter.runFrom_later 1
    (first.length + 1) made before.events second
  have hsingle : single = before.interpreter.runFrom (1 + (first.length + 1)) made second := by
    have hlength : (first ++ [".paragraph"]).length = first.length + 1 := List.length_append
    rw [hend, ← hlength]
    exact hrun
  refine ⟨hfail, ?_, ?_, ?_⟩
  · rw [hsingle, hnew, hsame]
    exact hnew'.symm
  · rw [hsingle]
    exact hend'
  · rw [hsingle]
    exact hfail'

/-- The first run goes on with a paragraph left open before it, and the second one fails on its
third line. -/
theorem consecutive_runs_failing :
    let i : Interpreter :=
      ⟨⟨12, 30, 20⟩, { weight := .bold }, some { runs := #[⟨"left", .bold, 12⟩] }⟩
    let first := ["word", ".indent 2"]
    let second := [".italics", "next", ".indent x"]
    let before := i.run first
    let both := before.interpreter.runFrom 1 before.events second
    let single := i.run (first ++ [".paragraph"] ++ second)
    (∀ text ∈ first, ¬ SourceLine.Malformed text) ∧ before.failure = none ∧
      single.paragraphs = both.paragraphs ∧ single.interpreter = both.interpreter ∧
      both.failure = some ⟨3, ".indent x", .notInteger⟩ ∧
      single.failure = some ⟨6, ".indent x", .notInteger⟩ ∧
      single.paragraphs.toList.map Paragraph.text = ["left word"] ∧
      single.interpreter.openParagraph.map Paragraph.text = some "next" := by
  intro i first second before both single
  have hproper : ∀ text ∈ first, ¬ SourceLine.Malformed text := by decide
  obtain ⟨hfail, hparagraphs, hend, hsingle⟩ := consecutive_runs i #[] first second hproper
  have hboth : both.failure = some ⟨3, ".indent x", .notInteger⟩ := by decide
  refine ⟨hproper, hfail, hparagraphs, hend, hboth, ?_, ?_, ?_⟩
  · exact hsingle.trans (congrArg (Option.map _) hboth)
  · decide
  · decide

end Interpreter
end Typesetter
