import Typesetter.Layout

/-! # Words of a paragraph

Splitting the runs of a paragraph into words keeps all text that is not blank, piece by piece, in
the face and size of its run. -/
namespace Typesetter

namespace Text

/-- The longest pieces of a text that hold no blank. -/
def blankFree (text : List Char) : List (List Char) :=
  (text.splitOnP isBlank).filter fun piece => !piece.isEmpty

theorem pieces_eq_splitOnP (separates : Char → Bool) (text : List Char) :
    (pieces separates text).1 :: (pieces separates text).2 = text.splitOnP separates := by
  induction text with
  | nil => rfl
  | cons c text ih =>
    rw [pieces_cons, List.splitOnP_cons_eq_if_modifyHead, ← ih]
    split <;> rfl

theorem blankFree_blank_cons {c : Char} (h : isBlank c = true) (text : List Char) :
    blankFree (c :: text) = blankFree text := by
  simp [blankFree, List.splitOnP_cons_eq_if_modifyHead, h]

end Text

/-- What a word is apart from where it stands. -/
structure Piece where
  text : List Char
  face : Face
  size : Numeric.Single
  deriving DecidableEq

def Word.piece (w : Word) : Piece := ⟨w.text.toList, w.face, w.size⟩

namespace Run

def pieces (r : Run) : List Piece :=
  (Text.blankFree r.content.toList).map fun text => ⟨text, r.face, r.size⟩

theorem addPiece_pieces (r : Run) (state : Array Word × Bool) (text : List Char) :
    (r.addPiece state text).1.toList.map Word.piece =
      state.1.toList.map Word.piece ++
        ([text].filter fun t => !t.isEmpty).map fun t => ⟨t, r.face, r.size⟩ := by
  unfold addPiece
  by_cases ht : text.isEmpty = true
  · simp [ht]
  · simp [ht, Word.piece, word]

theorem foldl_addPiece_pieces (r : Run) (state : Array Word × Bool) (texts : List (List Char)) :
    (texts.foldl (fun state t => r.addPiece (state.1, true) t) state).1.toList.map Word.piece =
      state.1.toList.map Word.piece ++
        (texts.filter fun t => !t.isEmpty).map fun t => ⟨t, r.face, r.size⟩ := by
  induction texts generalizing state with
  | nil => simp
  | cons text rest ih =>
    have hf : (text :: rest).filter (fun t => !t.isEmpty) =
        [text].filter (fun t => !t.isEmpty) ++ rest.filter (fun t => !t.isEmpty) := by
      rw [← List.filter_append, List.singleton_append]
    rw [List.foldl_cons, ih, addPiece_pieces, hf, List.map_append, List.append_assoc]

theorem addWords_pieces (state : Array Word × Bool) (r : Run) :
    (addWords state r).1.toList.map Word.piece = state.1.toList.map Word.piece ++ r.pieces := by
  have hs := Text.pieces_eq_splitOnP Text.isBlank r.content.toList
  have hf := addPiece_pieces r state (Text.pieces Text.isBlank r.content.toList).1
  rw [addWords, foldl_addPiece_pieces, hf, List.append_assoc, ← List.map_append,
    ← List.filter_append, List.singleton_append, hs]
  rfl

end Run

theorem Paragraph.words_pieces (p : Paragraph) :
    p.words.map Word.piece = p.runs.toList.flatMap Run.pieces := by
  have hfold : ∀ (runs : List Run) (state : Array Word × Bool),
      (runs.foldl Run.addWords state).1.toList.map Word.piece =
        state.1.toList.map Word.piece ++ runs.flatMap Run.pieces := by
    intro runs
    induction runs with
    | nil => simp
    | cons r rest ih =>
      intro state
      rw [List.foldl_cons, ih, Run.addWords_pieces, List.flatMap_cons, List.append_assoc]
  simpa [words] using hfold p.runs.toList (#[], false)

end Typesetter
