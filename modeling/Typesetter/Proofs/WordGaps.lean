import Mathlib.Data.List.Forall2
import Typesetter.Proofs.Words

/-! # Gaps between words

The words of a paragraph against its whole text. Runs may be cut anywhere: a word stands apart from
the word before it exactly if a blank lies between the two, in whichever runs that blank is. -/
namespace Typesetter

namespace Text

theorem exists_separators (separates : Char → Bool) (text : List Char) :
    ∃ tail : List (Char × List Char), (pieces separates text).2 = tail.map Prod.snd ∧
      (∀ part ∈ tail, separates part.1 = true) ∧
      text = (pieces separates text).1 ++ tail.flatMap fun part => part.1 :: part.2 := by
  induction text with
  | nil => exact ⟨[], rfl, by simp, rfl⟩
  | cons c text ih =>
    obtain ⟨tail, hpieces, hseparates, htext⟩ := ih
    rw [pieces_cons]
    by_cases hc : separates c = true
    · rw [if_pos hc]
      refine ⟨(c, (pieces separates text).1) :: tail, by simp [hpieces],
        List.forall_mem_cons.mpr ⟨hc, hseparates⟩, ?_⟩
      rw [List.flatMap_cons, List.nil_append, List.cons_append, ← htext]
    · rw [if_neg hc]
      refine ⟨tail, hpieces, hseparates, ?_⟩
      rw [List.cons_append, ← htext]

theorem not_separates_of_mem_splitOnP {separates : Char → Bool} {text piece : List Char}
    (h : piece ∈ text.splitOnP separates) : ∀ c ∈ piece, separates c = false := by
  rw [← pieces_eq_splitOnP] at h
  induction text generalizing piece with
  | nil => simp_all
  | cons c text ih =>
    rw [pieces_cons] at h
    by_cases hc : separates c = true
    · rw [if_pos hc] at h
      rcases List.mem_cons.mp h with rfl | h
      · simp
      · exact ih h
    · rw [if_neg hc] at h
      rcases List.mem_cons.mp h with rfl | h
      · exact List.forall_mem_cons.mpr ⟨by simpa using hc, ih List.mem_cons_self⟩
      · exact ih (List.mem_cons_of_mem _ h)

/-- The piece stands in the text with a blank or an end of the text on both sides. -/
def Bounded (text piece : List Char) : Prop :=
  ∃ before after, text = before ++ piece ++ after ∧
    (∀ c ∈ before.getLast?, isBlank c = true) ∧ ∀ c ∈ after.head?, isBlank c = true

theorem bounded_of_mem_blankFree {text piece : List Char} (h : piece ∈ blankFree text) :
    Bounded text piece := by
  obtain ⟨tail, hpieces, hseparates, htext⟩ := exists_separators isBlank text
  have hsplit := (List.mem_filter.mp h).1
  rw [← pieces_eq_splitOnP, hpieces] at hsplit
  -- What follows a piece starts with a separator, if there is anything.
  have hhead : ∀ parts : List (Char × List Char), (∀ part ∈ parts, isBlank part.1 = true) →
      ∀ c ∈ (parts.flatMap fun part => part.1 :: part.2).head?, isBlank c = true := by
    rintro (_ | ⟨part, parts⟩) hparts c hc
    · simp at hc
    · obtain rfl : part.1 = c := by simpa using hc
      exact hparts part List.mem_cons_self
  rcases List.mem_cons.mp hsplit with rfl | hsplit
  · exact ⟨[], _, htext, by simp, hhead tail hseparates⟩
  · obtain ⟨part, hpart, rfl⟩ := List.mem_map.mp hsplit
    obtain ⟨front, back, rfl⟩ := List.mem_iff_append.mp hpart
    refine ⟨(pieces isBlank text).1 ++ (front.flatMap fun part => part.1 :: part.2) ++ [part.1],
      back.flatMap fun part => part.1 :: part.2, ?_, ?_, ?_⟩
    · rw [List.flatMap_append, List.flatMap_cons] at htext
      simpa using htext
    · simpa using hseparates part hpart
    · exact hhead back fun p hp => hseparates p (by simp [hp])

end Text

/-- The words that come from one run: its longest pieces without a blank, measured in its face and
size, with a space in that face and size in front of those that stand apart. -/
structure Run.Yields (r : Run) (words : List Word) : Prop where
  pieces : words.map (fun w => w.text.toList) = Text.blankFree r.content.toList
  face : ∀ w ∈ words, w.face = r.face
  size : ∀ w ∈ words, w.size = r.size
  bounded : ∀ w ∈ words, Text.Bounded r.content.toList w.text.toList
  width : ∀ w ∈ words, w.width = r.face.textWidth r.size w.text
  offset : ∀ w ∈ words, w.offset = if w.stretchable then r.face.textWidth r.size " " else 0

structure Spaced where
  gap : List Char
  word : Word

namespace Spaced

def chars (s : Spaced) : List Char := s.gap ++ s.word.text.toList

/-- The gap is blank, the word is not, and it stands apart exactly if there is a gap. -/
structure Proper (s : Spaced) : Prop where
  gap : ∀ c ∈ s.gap, Text.isBlank c = true
  nonempty : s.word.text.toList ≠ []
  word : ∀ c ∈ s.word.text.toList, Text.isBlank c = false
  stretchable : s.word.stretchable = !s.gap.isEmpty

theorem Proper.filter_chars {s : Spaced} (h : s.Proper) :
    s.chars.filter (fun c => !Text.isBlank c) = s.word.text.toList := by
  have hgap : s.gap.filter (fun c => !Text.isBlank c) = [] := by
    rw [List.filter_eq_nil_iff]
    intro c hc
    simp [h.gap c hc]
  have hword : s.word.text.toList.filter (fun c => !Text.isBlank c) = s.word.text.toList := by
    rw [List.filter_eq_self]
    intro c hc
    simp [h.word c hc]
  rw [chars, List.filter_append, hgap, hword, List.nil_append]

end Spaced

/-- Text read so far: words with their gaps, and the blanks behind the last of them. -/
structure Reading (text : List Char) (words : List Word) (spaced : List Spaced)
    (rest : List Char) : Prop where
  words : spaced.map Spaced.word = words
  text : text = spaced.flatMap Spaced.chars ++ rest
  proper : ∀ s ∈ spaced, s.Proper
  blank : ∀ c ∈ rest, Text.isBlank c = true

/-- The state of the reader tells whether blanks stand behind the last word. -/
def Reads (text : List Char) (state : Array Word × Bool) : Prop :=
  ∃ spaced rest, Reading text state.1.toList spaced rest ∧ state.2 = !rest.isEmpty

/-! ## One step -/

theorem Reads.blank {text : List Char} {state : Array Word × Bool} (h : Reads text state) {c : Char}
    (hc : Text.isBlank c = true) : Reads (text ++ [c]) (state.1, true) := by
  obtain ⟨spaced, rest, hreading, -⟩ := h
  refine ⟨spaced, rest ++ [c], ⟨hreading.words, ?_, hreading.proper, ?_⟩, by simp⟩
  · rw [hreading.text, List.append_assoc]
  · exact List.forall_mem_append.mpr ⟨hreading.blank, by simpa using hc⟩

theorem Reads.piece {text : List Char} {state : Array Word × Bool} (h : Reads text state) (r : Run)
    {piece : List Char} (hpiece : ∀ c ∈ piece, Text.isBlank c = false) :
    Reads (text ++ piece) (r.addPiece state piece) := by
  by_cases hempty : piece.isEmpty = true
  · rw [Run.addPiece, if_pos hempty, List.isEmpty_iff.mp hempty, List.append_nil]
    exact h
  · obtain ⟨spaced, rest, hreading, hrest⟩ := h
    have hproper : (Spaced.mk rest (r.word state.2 piece)).Proper :=
      ⟨hreading.blank, by simpa [Run.word] using hempty, by simpa [Run.word] using hpiece, hrest⟩
    rw [Run.addPiece, if_neg hempty]
    refine ⟨spaced ++ [⟨rest, r.word state.2 piece⟩], [], ⟨?_, ?_, ?_, by simp⟩, rfl⟩
    · rw [List.map_append, hreading.words, Array.toList_push]
      rfl
    · rw [hreading.text, List.flatMap_append, List.flatMap_singleton]
      simp [Spaced.chars, Run.word]
    · exact List.forall_mem_append.mpr ⟨hreading.proper, by simpa using hproper⟩

/-! ## Runs -/

theorem Reads.parts {text : List Char} {state : Array Word × Bool} (h : Reads text state) (r : Run)
    {parts : List (Char × List Char)} (hblank : ∀ part ∈ parts, Text.isBlank part.1 = true)
    (hfree : ∀ part ∈ parts, ∀ c ∈ part.2, Text.isBlank c = false) :
    Reads (text ++ parts.flatMap fun part => part.1 :: part.2)
      ((parts.map Prod.snd).foldl (fun state piece => r.addPiece (state.1, true) piece) state) := by
  induction parts generalizing text state with
  | nil => simpa using h
  | cons part parts ih =>
    obtain ⟨hc, hblank⟩ := List.forall_mem_cons.mp hblank
    obtain ⟨hpart, hfree⟩ := List.forall_mem_cons.mp hfree
    have hrest := ih ((h.blank hc).piece r hpart) hblank hfree
    simpa using hrest

theorem Reads.addWords {text : List Char} {state : Array Word × Bool} (h : Reads text state)
    (r : Run) : Reads (text ++ r.content.toList) (Run.addWords state r) := by
  obtain ⟨parts, hpieces, hblank, hcontent⟩ :=
    Text.exists_separators Text.isBlank r.content.toList
  have hsplit := Text.pieces_eq_splitOnP Text.isBlank r.content.toList
  have hfree : ∀ piece ∈ (Text.pieces Text.isBlank r.content.toList).1 :: parts.map Prod.snd,
      ∀ c ∈ piece, Text.isBlank c = false := by
    intro piece hpiece
    rw [← hpieces, hsplit] at hpiece
    exact Text.not_separates_of_mem_splitOnP hpiece
  obtain ⟨hfirst, hparts⟩ := List.forall_mem_cons.mp hfree
  have hread := (h.piece r hfirst).parts r hblank fun part hpart =>
    hparts part.2 (List.mem_map_of_mem hpart)
  rw [List.append_assoc, ← hcontent, ← hpieces] at hread
  exact hread

theorem Paragraph.reads (p : Paragraph) :
    ∃ spaced rest, Reading p.text.toList p.words spaced rest := by
  have hfold : ∀ (runs : List Run) (text : List Char) (state : Array Word × Bool),
      Reads text state → Reads (text ++ runs.flatMap fun r => r.content.toList)
        (runs.foldl Run.addWords state) := by
    intro runs
    induction runs with
    | nil => simp
    | cons r runs ih =>
      intro text state h
      rw [List.flatMap_cons, ← List.append_assoc]
      exact ih _ _ (h.addWords r)
  have hstart : Reads [] (#[], false) := ⟨[], [], ⟨rfl, rfl, by simp, by simp⟩, rfl⟩
  obtain ⟨spaced, rest, hreading, -⟩ := hfold p.runs.toList [] _ hstart
  have htext : p.text.toList = p.runs.toList.flatMap fun r => r.content.toList := by
    rw [Paragraph.text, String.toList_join, List.flatMap_map]
  refine ⟨spaced, rest, ?_⟩
  rw [htext, Paragraph.words, ← Array.foldl_toList]
  exact hreading

namespace Run

structure Adds (r : Run) (pieces : List (List Char)) (words : List Word) : Prop where
  pieces : words.map (fun w => w.text.toList) = pieces.filter fun piece => !piece.isEmpty
  word : ∀ w ∈ words, ∃ spaced piece, w = r.word spaced piece

theorem Adds.append {r : Run} {pieces pieces' : List (List Char)} {words words' : List Word}
    (h : r.Adds pieces words) (h' : r.Adds pieces' words') :
    r.Adds (pieces ++ pieces') (words ++ words') := by
  refine ⟨?_, List.forall_mem_append.mpr ⟨h.word, h'.word⟩⟩
  rw [List.map_append, List.filter_append, h.pieces, h'.pieces]

theorem addPiece_adds (r : Run) (state : Array Word × Bool) (piece : List Char) :
    ∃ words, (r.addPiece state piece).1.toList = state.1.toList ++ words ∧
      r.Adds [piece] words := by
  unfold addPiece
  by_cases hempty : piece.isEmpty = true
  · exact ⟨[], by simp [hempty], by simp [hempty], by simp⟩
  · refine ⟨[r.word state.2 piece], by simp [hempty], by simp [hempty, word], ?_⟩
    intro w hw
    exact ⟨state.2, piece, List.mem_singleton.mp hw⟩

theorem foldl_addPiece_adds (r : Run) (pieces : List (List Char)) (state : Array Word × Bool) :
    ∃ words, (pieces.foldl (fun state piece => r.addPiece (state.1, true) piece) state).1.toList =
      state.1.toList ++ words ∧ r.Adds pieces words := by
  induction pieces generalizing state with
  | nil => exact ⟨[], by simp, rfl, by simp⟩
  | cons piece pieces ih =>
    obtain ⟨first, hfirst, hadds⟩ := r.addPiece_adds (state.1, true) piece
    obtain ⟨rest, hrest, hadds'⟩ := ih (r.addPiece (state.1, true) piece)
    refine ⟨first ++ rest, ?_, hadds.append hadds'⟩
    rw [List.foldl_cons, hrest, hfirst, List.append_assoc]

theorem addWords_yields (r : Run) (state : Array Word × Bool) :
    ∃ words, (addWords state r).1.toList = state.1.toList ++ words ∧ r.Yields words := by
  have hsplit := Text.pieces_eq_splitOnP Text.isBlank r.content.toList
  obtain ⟨first, hfirst, hadds⟩ :=
    r.addPiece_adds state (Text.pieces Text.isBlank r.content.toList).1
  obtain ⟨rest, hrest, hadds'⟩ := r.foldl_addPiece_adds
    (Text.pieces Text.isBlank r.content.toList).2
    (r.addPiece state (Text.pieces Text.isBlank r.content.toList).1)
  have hall := hadds.append hadds'
  rw [List.singleton_append, hsplit] at hall
  have hbounded : ∀ w ∈ first ++ rest, Text.Bounded r.content.toList w.text.toList := by
    intro w hw
    refine Text.bounded_of_mem_blankFree ?_
    rw [Text.blankFree, ← hall.pieces]
    exact List.mem_map_of_mem hw
  refine ⟨first ++ rest, ?_, hall.pieces, ?_, ?_, hbounded, ?_, ?_⟩
  · rw [addWords, hrest, hfirst, List.append_assoc]
  -- A word that a run makes is as the run says, by definition.
  all_goals
    intro w hw
    obtain ⟨spaced, piece, rfl⟩ := hall.word w hw
    rfl

end Run

theorem Paragraph.yields (p : Paragraph) :
    ∃ groups, p.words = groups.flatten ∧ List.Forall₂ Run.Yields p.runs.toList groups := by
  have hfold : ∀ (runs : List Run) (state : Array Word × Bool),
      ∃ groups, (runs.foldl Run.addWords state).1.toList = state.1.toList ++ groups.flatten ∧
        List.Forall₂ Run.Yields runs groups := by
    intro runs
    induction runs with
    | nil => exact fun state => ⟨[], by simp, .nil⟩
    | cons r runs ih =>
      intro state
      obtain ⟨words, hwords, hyields⟩ := r.addWords_yields state
      obtain ⟨groups, hgroups, hrest⟩ := ih (Run.addWords state r)
      refine ⟨words :: groups, ?_, .cons hyields hrest⟩
      rw [List.foldl_cons, hgroups, hwords, List.flatten_cons, List.append_assoc]
  obtain ⟨groups, hgroups, hyields⟩ := hfold p.runs.toList (#[], false)
  refine ⟨groups, ?_, hyields⟩
  rw [Paragraph.words, ← Array.foldl_toList, hgroups]
  rfl

theorem Reading.flatMap_words {text rest : List Char} {words : List Word} {spaced : List Spaced}
    (h : Reading text words spaced rest) :
    words.flatMap (fun w => w.text.toList) = text.filter fun c => !Text.isBlank c := by
  have hrest : rest.filter (fun c => !Text.isBlank c) = [] := by
    rw [List.filter_eq_nil_iff]
    intro c hc
    simp [h.blank c hc]
  rw [h.text, List.filter_append, hrest, List.append_nil, List.filter_flatMap, ← h.words,
    List.flatMap_map]
  refine List.flatMap_congr fun s hs => ?_
  exact (h.proper s hs).filter_chars.symm

/-- The words of a paragraph are the longest pieces without a blank of its runs, run by run, each
measured in the face and size of its run. Together they are the text without its blanks, and over
the whole text a word stands a space apart exactly if there are blanks between it and the word
before. -/
theorem words_against_text (p : Paragraph) :
    (∃ groups, p.words = groups.flatten ∧ List.Forall₂ Run.Yields p.runs.toList groups) ∧
    p.words.flatMap (fun w => w.text.toList) = p.text.toList.filter (fun c => !Text.isBlank c) ∧
    ∃ spaced rest, Reading p.text.toList p.words spaced rest := by
  obtain ⟨spaced, rest, hreading⟩ := p.reads
  exact ⟨p.yields, hreading.flatMap_words, spaced, rest, hreading⟩

/-- The blank at the end of one run sets off the first word of a later one. -/
example :
    let p : Paragraph := { runs := #[⟨" a", .regular, 12⟩, ⟨",b ", .bold, 12⟩, ⟨"", .bold, 12⟩,
      ⟨"c", .italics, 30⟩] }
    p.words.map (fun w => (w.text, w.face, w.stretchable)) =
      [("a", .regular, true), (",b", .bold, false), ("c", .italics, true)] := by
  decide

end Typesetter
