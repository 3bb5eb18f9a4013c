import Mathlib.Data.List.Infix
import Typesetter.Interpreter

/-! # Paragraphs by segments

Paragraph breaks cut the lines of a source into segments, and every segment with a literal becomes a
paragraph. Formatting is no matter of segments: it follows from all directives before a literal. -/
namespace Typesetter
open Numeric (Binary)

namespace SourceLine

def of? (text : String) : Option SourceLine := (read 1 text).toOption

def Malformed (text : String) : Prop := of? text = none

instance (text : String) : Decidable (Malformed text) := inferInstanceAs (Decidable (_ = _))

def directive? : SourceLine → Option Directive
  | directive d => some d
  | _ => none

theorem toOption_read (number : Nat) (text : String) : (read number text).toOption = of? text := by
  unfold of? read
  split
  · rfl
  · split
    · rfl
    · dsimp only
      split
      · cases readAmount (Text.cutAt ' ' text.toList).2 <;> rfl
      · rfl

theorem read_of_not_malformed {text : String} (h : ¬ Malformed text) (number : Nat) :
    ∃ l, of? text = some l ∧ read number text = .ok l := by
  have hr := toOption_read number text
  cases hc : read number text with
  | error e =>
    rw [hc] at hr
    exact absurd hr.symm h
  | ok l =>
    rw [hc] at hr
    exact ⟨l, hr.symm, rfl⟩

end SourceLine

def Formatting.after (f : Formatting) (lines : List SourceLine) : Formatting :=
  (lines.filterMap SourceLine.directive?).foldl apply f

abbrev Marked := SourceLine × Formatting

/-- What is in force at a line is what the lines before it leave behind. -/
def marked (f : Formatting) (lines : List SourceLine) : List Marked :=
  lines.zip (lines.inits.map f.after)

def Marked.isBreak (e : Marked) : Bool := e.1 = .directive .paragraph

/-- A literal and the formatting in force where it stands. -/
structure Literal where
  text : String
  formatting : Formatting
  deriving DecidableEq

def Marked.literal? : Marked → Option Literal
  | (.literal text, f) => some ⟨text, f⟩
  | _ => none

def segmentsOf (es : List Marked) : List (List Literal) :=
  (es.splitOnP Marked.isBreak).map fun segment => segment.filterMap Marked.literal?

/-- The literal itself at the start of a segment or in front of a comma, else a space and it. -/
def Literal.content (position : Nat) (l : Literal) : String :=
  if position = 0 ∨ l.text.toList.head? = some ',' then l.text else " " ++ l.text

/-- One run for each literal, and the last literal decides margin and alignment. -/
def Stylesheet.paragraph? (s : Stylesheet) (segment : List Literal) : Option Paragraph :=
  segment.getLast?.map fun last =>
    { runs := (segment.mapIdx fun k l =>
        { content := l.content k
          face := l.formatting.face
          size := if l.formatting.size = .large then s.largeSize else s.normalSize }).toArray
      leftMargin := Binary.ofInt last.formatting.indent.levels * s.indentUnit
      alignment := if last.formatting.fill = .fill then .justify else .left }

@[simp] theorem Formatting.after_nil (f : Formatting) : f.after [] = f := rfl

theorem Formatting.after_cons (f : Formatting) (l : SourceLine) (ls : List SourceLine) :
    f.after (l :: ls) = (f.after [l]).after ls := by
  cases l <;> rfl

@[simp] theorem marked_nil (f : Formatting) : marked f [] = [] := rfl

theorem marked_cons (f : Formatting) (l : SourceLine) (ls : List SourceLine) :
    marked f (l :: ls) = (l, f) :: marked (f.after [l]) ls := by
  have h : f.after ∘ (fun t => l :: t) = (f.after [l]).after :=
    funext fun ls => f.after_cons l ls
  simp [marked, h]

theorem segmentsOf_of_no_break {es : List Marked} (h : ∀ e ∈ es, e.isBreak = false) :
    segmentsOf es = [es.filterMap Marked.literal?] := by
  rw [segmentsOf, List.splitOnP_eq_singleton h, List.map_singleton]

theorem segmentsOf_append_break {es : List Marked} (h : ∀ e ∈ es, e.isBreak = false) {b : Marked}
    (hb : b.isBreak = true) (rest : List Marked) :
    segmentsOf (es ++ b :: rest) = es.filterMap Marked.literal? :: segmentsOf rest := by
  rw [segmentsOf, List.splitOnP_append_cons_of_forall_mem h b hb, List.map_cons, segmentsOf]

namespace Stylesheet
variable (s : Stylesheet)

theorem paragraph?_eq (segment : List Literal) :
    s.paragraph? segment = segment.getLast?.map fun last =>
      { runs := (segment.mapIdx fun k l => s.run l.formatting (l.content k)).toArray
        leftMargin := s.leftMargin last.formatting
        alignment := last.formatting.alignment } := by
  have hrun : ∀ (l : Literal) (k : Nat), s.run l.formatting (l.content k) =
      { content := l.content k
        face := l.formatting.face
        size := if l.formatting.size = .large then s.largeSize else s.normalSize } := by
    intro l k
    cases hsize : l.formatting.size <;> simp [run, size, hsize]
  have halignment : ∀ f : Formatting,
      f.alignment = if f.fill = .fill then .justify else .left := by
    intro f
    cases hfill : f.fill <;> simp [Formatting.alignment, hfill]
  simp only [paragraph?, hrun, halignment, leftMargin]

theorem paragraph?_eq_none_iff {segment : List Literal} :
    s.paragraph? segment = none ↔ segment = [] := by
  simp [paragraph?]

theorem paragraph?_concat (segment : List Literal) (l : Literal) :
    s.paragraph? (segment ++ [l]) =
      match s.paragraph? segment with
      | none => some (s.append l.formatting {} l.text)
      | some p => some (s.append l.formatting p (Interpreter.joined l.text)) := by
  rw [paragraph?_eq, paragraph?_eq]
  rcases List.eq_nil_or_concat segment with rfl | ⟨before, last, rfl⟩
  · simp [append, Literal.content]
  · have hc : l.content (before ++ [last]).length = Interpreter.joined l.text := by
      simp [Literal.content, Interpreter.joined]
    simp only [List.concat_eq_append, List.getLast?_concat, Option.map_some, append]
    rw [List.mapIdx_concat, hc]
    simp

end Stylesheet

theorem paragraphsOf_append_list (events : Array Event) (new : List Event) :
    paragraphsOf (events ++ new) =
      paragraphsOf events ++ (new.filterMap Event.paragraph?).toArray := by
  simp [paragraphsOf, ← Array.toList_inj]

namespace Interpreter

/-- The interpreter that has read these entries of the open segment. -/
def within (s : Stylesheet) (f : Formatting) (es : List Marked) : Interpreter :=
  ⟨s, f, s.paragraph? (es.filterMap Marked.literal?)⟩

theorem literal_within (s : Stylesheet) (f : Formatting) (es : List Marked) (text : String) :
    (within s f es).literal text = within s f (es ++ [(.literal text, f)]) := by
  have hp := s.paragraph?_concat (es.filterMap Marked.literal?) ⟨text, f⟩
  simp only [within, List.filterMap_append, List.filterMap_cons, Marked.literal?,
    List.filterMap_nil, hp]
  cases s.paragraph? (es.filterMap Marked.literal?) <;> rfl

theorem step_within (s : Stylesheet) (f : Formatting) (es : List Marked) (number : Nat)
    {l : SourceLine} (h : Marked.isBreak (l, f) = false) :
    ((within s f es).step number l).1 = within s (f.after [l]) (es ++ [(l, f)]) ∧
      ((within s f es).step number l).2.filterMap Event.paragraph? = [] := by
  cases l with
  | blank =>
    simp [step, within, Marked.literal?, Formatting.after, SourceLine.directive?,
      List.filterMap_cons]
  | literal text => exact ⟨literal_within s f es text, rfl⟩
  | directive d =>
    cases d with
    | paragraph => simp [Marked.isBreak] at h
    | _ =>
      simp [step, within, Marked.literal?, Formatting.after, SourceLine.directive?,
        Event.paragraph?, List.filterMap_cons]

theorem filterMap_sealing (i : Interpreter) :
    i.sealing.filterMap Event.paragraph? = i.openParagraph.toList := by
  cases h : i.openParagraph <;> simp [sealing, h, Event.paragraph?]

theorem step_break (s : Stylesheet) (f : Formatting) (es : List Marked) (number : Nat) :
    ((within s f es).step number (.directive .paragraph)).1 = within s f [] ∧
      ((within s f es).step number (.directive .paragraph)).2.filterMap Event.paragraph? =
        (s.paragraph? (es.filterMap Marked.literal?)).toList :=
  ⟨rfl, filterMap_sealing (within s f es)⟩

/-- One line stays within the segment or closes it, and then seals what the segment makes. -/
theorem step_spec (s : Stylesheet) (f : Formatting) {es : List Marked}
    (hes : ∀ e ∈ es, e.isBreak = false) (number : Nat) (l : SourceLine) :
    ∃ es' : List Marked, (∀ e ∈ es', e.isBreak = false) ∧
      ((within s f es).step number l).1 = within s (f.after [l]) es' ∧
      ∀ more, (segmentsOf (es ++ (l, f) :: more)).filterMap s.paragraph? =
        ((within s f es).step number l).2.filterMap Event.paragraph? ++
          (segmentsOf (es' ++ more)).filterMap s.paragraph? := by
  by_cases hb : Marked.isBreak (l, f) = true
  · obtain rfl : l = .directive .paragraph := by simpa [Marked.isBreak] using hb
    obtain ⟨hi, hp⟩ := step_break s f es number
    refine ⟨[], by simp, hi, fun more => ?_⟩
    rw [hp, segmentsOf_append_break hes hb, List.filterMap_cons]
    cases s.paragraph? (es.filterMap Marked.literal?) <;> rfl
  · have hb : Marked.isBreak (l, f) = false := by simpa using hb
    obtain ⟨hi, hp⟩ := step_within s f es number hb
    refine ⟨es ++ [(l, f)], ?_, hi, fun more => ?_⟩
    · exact List.forall_mem_append.mpr ⟨hes, List.forall_mem_singleton.mpr hb⟩
    · rw [hp, List.nil_append, List.append_assoc, List.singleton_append]

theorem runFrom_cons (i : Interpreter) {number : Nat} (events : Array Event) {text : String}
    (rest : List String) {l : SourceLine} (h : SourceLine.read number text = .ok l) :
    i.runFrom number events (text :: rest) =
      (i.step number l).1.runFrom (number + 1) (events ++ (i.step number l).2) rest := by
  rw [runFrom, h]

theorem paragraphsOf_sealing (s : Stylesheet) (f : Formatting) {es : List Marked}
    (hes : ∀ e ∈ es, e.isBreak = false) (events : Array Event) :
    paragraphsOf (events ++ (within s f es).sealing) =
      paragraphsOf events ++ ((segmentsOf es).filterMap s.paragraph?).toArray := by
  rw [paragraphsOf_append_list, filterMap_sealing, segmentsOf_of_no_break hes, List.filterMap_cons]
  cases h : s.paragraph? (es.filterMap Marked.literal?) <;> simp [within, h]

theorem runFrom_within (s : Stylesheet) (f : Formatting) (es : List Marked)
    (hes : ∀ e ∈ es, e.isBreak = false) (number : Nat) (events : Array Event)
    (texts : List String) (h : ∀ text ∈ texts, ¬ SourceLine.Malformed text) :
    let lines := texts.filterMap SourceLine.of?
    let outcome := (within s f es).runFrom number events texts
    outcome.failure = none ∧
      outcome.paragraphs = paragraphsOf events ++
        ((segmentsOf (es ++ marked f lines)).filterMap s.paragraph?).toArray ∧
      outcome.interpreter = within s (f.after lines) [] := by
  induction texts generalizing f es number events with
  | nil =>
    refine ⟨rfl, ?_, rfl⟩
    rw [List.filterMap_nil, marked_nil, List.append_nil]
    exact paragraphsOf_sealing s f hes events
  | cons text rest ih =>
    obtain ⟨htext, hrest⟩ := List.forall_mem_cons.mp h
    obtain ⟨l, hl, hread⟩ := SourceLine.read_of_not_malformed htext number
    have hlines : (text :: rest).filterMap SourceLine.of? =
        l :: rest.filterMap SourceLine.of? := by rw [List.filterMap_cons, hl]
    -- The entries of the open segment are the invariant: the interpreter is fixed by them.
    obtain ⟨es', hes', hi, hseg⟩ := step_spec s f hes number l
    obtain ⟨hfail, hout, hend⟩ := ih (f.after [l]) es' hes' (number + 1)
      (events ++ ((within s f es).step number l).2) hrest
    simp only [hlines, runFrom_cons _ events rest hread, marked_cons, hi]
    rw [f.after_cons l (rest.filterMap SourceLine.of?)]
    refine ⟨hfail, ?_, hend⟩
    rw [hout, paragraphsOf_append_list, hseg, ← List.append_toArray, Array.append_assoc]

theorem not_malformed_of_runFrom {i : Interpreter} {number : Nat} {events : Array Event}
    {texts : List String} (h : (i.runFrom number events texts).failure = none) :
    ∀ text ∈ texts, ¬ SourceLine.Malformed text := by
  induction texts generalizing i number events with
  | nil => simp
  | cons text rest ih =>
    cases hread : SourceLine.read number text with
    | error e => simp [runFrom, hread] at h
    | ok l =>
      rw [runFrom_cons i events rest hread] at h
      refine List.forall_mem_cons.mpr ⟨?_, ih h⟩
      rw [SourceLine.Malformed, ← SourceLine.toOption_read number, hread]
      exact Option.some_ne_none l

/-- From fresh formatting, the loop over the lines makes one paragraph for each segment that has a
literal, in order, and ends in the formatting that all directives leave behind. -/
theorem run_by_segments (s : Stylesheet) (events : Array Event) (texts : List String)
    (h : ∀ text ∈ texts, ¬ SourceLine.Malformed text) :
    let lines := texts.filterMap SourceLine.of?
    let outcome := Interpreter.runFrom { stylesheet := s } 1 events texts
    outcome.failure = none ∧
      outcome.paragraphs = paragraphsOf events ++
        ((segmentsOf (marked {} lines)).filterMap s.paragraph?).toArray ∧
      (∀ segment, s.paragraph? segment = none ↔ segment = []) ∧
      outcome.interpreter = ⟨s, Formatting.after {} lines, none⟩ := by
  obtain ⟨hfail, hparagraphs, hend⟩ := runFrom_within s {} [] (by simp) 1 events texts h
  exact ⟨hfail, hparagraphs, fun _ => s.paragraph?_eq_none_iff, hend⟩

/-- Two segments with text around an empty one. A comma needs no space before it, and a directive
behind the last literal of a segment is in force in the next. -/
theorem run_by_segments_sample :
    (∀ text ∈ [".bold", "Hello", ", you", ".large", "there", ".indent 2", ".paragraph", "",
      ".fill", ".paragraph", ".italics", "Bye"], ¬ SourceLine.Malformed text) ∧
    (runFrom { stylesheet := ⟨12, 30, 20⟩ } 1 #[] [".bold", "Hello", ", you", ".large", "there",
      ".indent 2", ".paragraph", "", ".fill", ".paragraph", ".italics", "Bye"]).paragraphs =
      #[⟨#[⟨"Hello", .bold, 12⟩, ⟨", you", .bold, 12⟩, ⟨" there", .bold, 30⟩], 0, .left⟩,
        ⟨#[⟨"Bye", .boldItalics, 30⟩], 40, .justify⟩] := by
  refine ⟨by decide, ?_⟩
  rw [(run_by_segments _ _ _ (by decide)).2.1]
  decide

end Interpreter
end Typesetter
