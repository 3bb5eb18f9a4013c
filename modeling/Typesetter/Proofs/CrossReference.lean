import Mathlib.Data.List.DropRight
import Mathlib.Data.List.Nodup
import Typesetter.Pdf
import Typesetter.Proofs.Objects

/-! # The table and the trailer

Each entry of the table is the place of its object, and a reader finds the table from the end of the
file. -/

/-! ## Offsets

The table of a file is filled from one walk over its objects. Whatever the order of the objects is,
each number finds the place where the bytes of its object begin. -/

namespace Typesetter.Pdf

/-! ## The walk over the objects -/

theorem offsets_cons (start : Nat) (chunk : Nat × Bytes) (chunks : List (Nat × Bytes)) :
    offsets start (chunk :: chunks) =
      (chunk.1, start) :: offsets (start + chunk.2.length) chunks := by
  have hfold : ∀ (chunks : List (Nat × Bytes)) (start : Nat) (placed : Array (Nat × Nat)),
      (chunks.foldl (fun (state : Nat × Array (Nat × Nat)) chunk =>
        (state.1 + chunk.2.length, state.2.push (chunk.1, state.1))) (start, placed)).2.toList =
        placed.toList ++ offsets start chunks := by
    intro chunks
    induction chunks with
    | nil => simp [offsets]
    | cons chunk chunks ih =>
      intro start placed
      have hempty := ih (start + chunk.2.length) #[(chunk.1, start)]
      have hplaced := ih (start + chunk.2.length) (placed.push (chunk.1, start))
      rw [List.foldl_cons, hplaced, Array.toList_push, List.append_assoc]
      congr 1
      exact hempty.symm
  exact hfold chunks (start + chunk.2.length) #[(chunk.1, start)]

theorem map_fst_offsets (start : Nat) (chunks : List (Nat × Bytes)) :
    (offsets start chunks).map Prod.fst = chunks.map Prod.fst := by
  induction chunks generalizing start with
  | nil => rfl
  | cons chunk chunks ih => rw [offsets_cons, List.map_cons, List.map_cons, ih]

theorem offset_mem (start : Nat) (before : List (Nat × Bytes)) (chunk : Nat × Bytes)
    (after : List (Nat × Bytes)) :
    (chunk.1, start + (before.flatMap Prod.snd).length) ∈
      offsets start (before ++ chunk :: after) := by
  induction before generalizing start with
  | nil => simp [offsets_cons]
  | cons first before ih =>
    have hlater := ih (start + first.2.length)
    rw [Nat.add_assoc] at hlater
    rw [List.cons_append, offsets_cons, List.flatMap_cons, List.length_append]
    exact List.mem_cons_of_mem _ hlater

/-! ## The table -/

theorem size_foldl_setIfInBounds (entries : List (Nat × Nat)) (table : Array Nat) :
    (entries.foldl (fun table (number, offset) => table.setIfInBounds number offset)
      table).size = table.size := by
  induction entries generalizing table with
  | nil => rfl
  | cons entry entries ih => rw [List.foldl_cons, ih, Array.size_setIfInBounds]

theorem getElem?_foldl_of_not_mem {entries : List (Nat × Nat)} {n : Nat}
    (h : n ∉ entries.map Prod.fst) (table : Array Nat) :
    (entries.foldl (fun table (number, offset) => table.setIfInBounds number offset) table)[n]? =
      table[n]? := by
  induction entries generalizing table with
  | nil => rfl
  | cons entry entries ih =>
    rw [List.map_cons, List.mem_cons, not_or] at h
    rw [List.foldl_cons, ih h.2, Array.getElem?_setIfInBounds_ne (Ne.symm h.1)]

theorem getElem?_foldl_of_mem {entries : List (Nat × Nat)} (hnodup : (entries.map Prod.fst).Nodup)
    {n offset : Nat} (h : (n, offset) ∈ entries) (table : Array Nat) (hn : n < table.size) :
    (entries.foldl (fun table (number, offset) => table.setIfInBounds number offset) table)[n]? =
      some offset := by
  induction entries generalizing table with
  | nil => simp at h
  | cons entry entries ih =>
    obtain ⟨hfirst, hrest⟩ := List.nodup_cons.mp hnodup
    rw [List.foldl_cons]
    rcases List.mem_cons.mp h with rfl | h
    · rw [getElem?_foldl_of_not_mem hfirst, Array.getElem?_setIfInBounds_self_of_lt hn]
    · exact ih hrest h _ (by rwa [Array.size_setIfInBounds])

namespace File

def body (f : File) : Bytes := f.chunks.flatMap Prod.snd

theorem size_offsetTable (f : File) : (f.offsetTable f.chunks).size = f.size := by
  rw [offsetTable, size_foldl_setIfInBounds, Array.size_replicate]

theorem offsetTable_spec {f : File} (hnodup : (f.objects.map NumberedObject.number).Nodup)
    {o : NumberedObject} (ho : o ∈ f.objects) (hsize : o.number < f.size) :
    ∃ before after, f.body = before ++ (o.bytes ++ after) ∧
      (f.offsetTable f.chunks)[o.number]? = some (header.length + before.length) := by
  obtain ⟨first, last, hobjects⟩ := List.append_of_mem ho
  have hchunks : f.chunks = first.map (fun o => (o.number, o.bytes)) ++
      (o.number, o.bytes) :: last.map (fun o => (o.number, o.bytes)) := by
    rw [chunks, hobjects, List.map_append, List.map_cons]
  refine ⟨(first.map fun o => (o.number, o.bytes)).flatMap Prod.snd,
    (last.map fun o => (o.number, o.bytes)).flatMap Prod.snd, ?_, ?_⟩
  · rw [body, hchunks, List.flatMap_append, List.flatMap_cons]
  · have hmem := offset_mem header.length (first.map fun o => (o.number, o.bytes))
      (o.number, o.bytes) (last.map fun o => (o.number, o.bytes))
    rw [← hchunks] at hmem
    have hnumbers : ((offsets header.length f.chunks).map Prod.fst).Nodup := by
      rw [map_fst_offsets, chunks, List.map_map]
      exact hnodup
    exact getElem?_foldl_of_mem hnumbers hmem _ (by rwa [Array.size_replicate])

end File
end Typesetter.Pdf

/-! ## The end of a file

A reader starts from the last lines of a file, which tell where the table begins, and reads the
table and the trailer behind it. -/

namespace Typesetter.Pdf

/-! ## The last lines -/

def lastLine (bytes : Bytes) : Bytes × Bytes :=
  ((bytes.rdropWhile (· ≠ 10)).dropLast, bytes.rtakeWhile (· ≠ 10))

theorem lastLine_append (before : Bytes) {line : Bytes} (h : 10 ∉ line) :
    lastLine (before ++ 10 :: line) = (before, line) := by
  have hline : ∀ b ∈ line.reverse, decide (b ≠ 10) = true := by
    intro b hb
    rw [decide_eq_true_eq]
    rintro rfl
    exact h (List.mem_reverse.mp hb)
  rw [lastLine, List.rdropWhile, List.rtakeWhile, List.reverse_append, List.reverse_cons,
    List.append_assoc, List.dropWhile_append_of_pos hline, List.takeWhile_append_of_pos hline]
  simp

/-- The place of the table, as told between the last two keywords. -/
def startOffset? (bytes : Bytes) : Option Nat :=
  let (bytes, last) := lastLine bytes
  let (bytes, offset) := lastLine bytes
  let (_, word) := lastLine bytes
  if last = ascii "%%EOF" ∧ word = ascii "startxref" then nat? offset else none

/-! ## The table and the trailer -/

/-- The entries of a table: the offsets of objects in use, and nothing for free numbers. -/
def entryOffsets? : Nat → List Token → Option (List (Option Nat) × List Token)
  | 0, ts => some ([], ts)
  | n + 1, .word offset :: .word _ :: .word use :: ts =>
    match nat? offset with
    | none => none
    | some offset =>
      (entryOffsets? n ts).map fun (offsets, ts) =>
        ((if use = ascii "n" then some offset else none) :: offsets, ts)
  | _, _ => none

/-- The offsets by number, and the value of the trailer. -/
def crossReference? (bytes : Bytes) : Option (List (Option Nat) × Value) :=
  match tokens? [ascii "startxref"] bytes with
  | some (.word xref :: .word first :: .word size :: ts, _) =>
    if xref = ascii "xref" ∧ nat? first = some 0 then
      match (nat? size).bind (entryOffsets? · ts) with
      | some (offsets, .word trailer :: ts) =>
        match values? ts.dropLast with
        | some [v] => if trailer = ascii "trailer" then some (offsets, v) else none
        | _ => none
      | _ => none
    else none
  | _ => none

def entryTokens (offset : Nat) : List Token :=
  [keyword (padded offset), keyword "00000", keyword "n"]

theorem lexed_entries (offsets : List Nat) {bytes rest : Bytes} {ts : List Token} (hne : ts ≠ [])
    (h : Lexed bytes ts rest) :
    Lexed (13 :: 10 :: (offsets.flatMap (fun offset => ascii (tableEntry offset)) ++ bytes))
      (offsets.flatMap entryTokens ++ ts) rest := by
  induction offsets with
  | nil => exact (h.space rfl hne).space rfl hne
  | cons offset offsets ih =>
    have hend : ∀ bytes : Bytes, Lexed (ascii " 00000 n\r\n" ++ bytes)
      [keyword "00000", keyword "n"] (13 :: 10 :: bytes) := fun _ => rfl
    have hentry := (Lexed.keyword _ (isWord_padded offset) (endsWord_cons rfl _)).trans
      ((hend _).trans ih)
    rw [List.flatMap_cons, List.flatMap_cons, tableEntry, ascii_append, List.append_assoc,
      List.append_assoc]
    exact (hentry.space rfl (List.cons_ne_nil _ _)).space rfl (List.cons_ne_nil _ _)

theorem entryOffsets?_entryTokens (offsets : List Nat) (ts : List Token) :
    entryOffsets? offsets.length (offsets.flatMap entryTokens ++ ts) =
      some (offsets.map some, ts) := by
  induction offsets with
  | nil => rfl
  | cons offset offsets ih =>
    have hoffset := nat?_padded offset
    simp only [List.flatMap_cons, entryTokens, keyword, List.length_cons, List.cons_append,
      List.nil_append, entryOffsets?, hoffset]
    rw [ih]
    rfl

/-! ## What is written -/

namespace File
open SpelledLine
variable (f : File)

def trailerLines : List SpelledLine :=
  [word "trailer" (by decide), openDictionary, entry "Size" (by decide) (.nat f.size),
    entry "Root" (by decide) (.reference f.catalog), entry "Info" (by decide) (.reference f.info),
    entry "ID" (by decide) (.identifiers f.id), closeDictionary, word "startxref" (by decide)]

theorem trailer_eq (start : Nat) :
    f.trailer start =
      lineBytes f.trailerLines ++ 10 :: (ascii (toString start) ++ ascii "\n%%EOF") := by
  simp only [trailer, joinLines, ascii_intercalate, lineBytes, trailerLines, List.map_cons,
    List.map_nil, List.intercalate_cons_cons, List.intercalate_singleton, ascii_append, entry,
    identifiers, word, List.append_assoc]
  rfl

theorem lexed_trailer (start : Nat) :
    Lexed (f.trailer start) ((keyword "trailer" :: f.trailerValue.tokens) ++ [keyword "startxref"])
      (10 :: (ascii (toString start) ++ ascii "\n%%EOF")) := by
  have hlines := lexed_lineBytes f.trailerLines (ascii (toString start) ++ ascii "\n%%EOF")
  rw [trailer_eq]
  exact hlines

def tableStart : List Token :=
  [keyword "xref", keyword "0", keyword (toString f.size), keyword "0000000000", keyword "65535",
    keyword "f"]

theorem lexed_table (start : Nat) :
    Lexed (f.table f.chunks ++ f.trailer start)
      ((f.tableStart ++ (((f.offsetTable f.chunks).toList.drop 1).flatMap entryTokens ++
        (keyword "trailer" :: f.trailerValue.tokens))) ++ [keyword "startxref"])
      (10 :: (ascii (toString start) ++ ascii "\n%%EOF")) := by
  have hentries := lexed_entries ((f.offsetTable f.chunks).toList.drop 1)
    (List.cons_ne_nil _ _) (f.lexed_trailer start)
  have hfree : ∀ bytes : Bytes, Lexed (ascii "\n0000000000 65535 f\r\n" ++ bytes)
    [keyword "0000000000", keyword "65535", keyword "f"] (13 :: 10 :: bytes) := fun _ => rfl
  have hends : ∀ bytes : Bytes, EndsWord (ascii "\n0000000000 65535 f\r\n" ++ bytes) :=
    fun _ => endsWord_cons rfl _
  have hsize := (Lexed.nat f.size (hends _)).trans ((hfree _).trans hentries)
  have hstart : ∀ bytes : Bytes, Lexed (ascii "xref\n0 " ++ bytes)
    [keyword "xref", keyword "0"] (ascii " " ++ bytes) := fun _ => rfl
  have hall := (hstart _).trans (hsize.blank (List.cons_ne_nil _ _))
  simp only [table, tableStart, ascii_append, List.append_assoc] at hall ⊢
  exact hall

theorem table_not_stop :
    ∀ t ∈ f.tableStart ++ (((f.offsetTable f.chunks).toList.drop 1).flatMap entryTokens ++
      (keyword "trailer" :: f.trailerValue.tokens)),
      t ∉ [ascii "startxref"].map Token.word := by
  have hstops : ∀ stop ∈ [ascii "startxref"], stop ∈ reserved.map ascii ∧ stop ≠ ascii "R" := by
    decide
  -- Numbers are of other characters, and no keyword of the table is the last one.
  have hnumeral : ∀ {text : String}, Numeral text →
      keyword text ∉ [ascii "startxref"].map Token.word := by
    intro text h
    exact Value.tokens_not_stop hstops (.word _ h.not_reserved) _ List.mem_cons_self
  have hkeywords : ∀ text ∈ ["xref", "0", "0000000000", "65535", "f", "00000", "n", "trailer"],
      keyword text ∉ [ascii "startxref"].map Token.word := by decide
  rw [List.forall_mem_append, List.forall_mem_append, List.forall_mem_cons]
  refine ⟨?_, ?_, hkeywords _ (by decide), Value.tokens_not_stop hstops _⟩
  · simp only [tableStart, List.forall_mem_cons, List.not_mem_nil, false_implies, implies_true,
      and_true]
    exact ⟨hkeywords _ (by decide), hkeywords _ (by decide), hnumeral (numeral_nat f.size),
      hkeywords _ (by decide), hkeywords _ (by decide), hkeywords _ (by decide)⟩
  · intro t ht
    obtain ⟨offset, -, ht⟩ := List.mem_flatMap.mp ht
    rcases List.mem_cons.mp ht with rfl | ht
    · exact hnumeral (numeral_padded offset)
    · have hends : ∀ t ∈ [keyword "00000", keyword "n"],
          t ∉ [ascii "startxref"].map Token.word := by decide
      exact hends t ht

theorem crossReference?_table (start : Nat) :
    crossReference? (f.table f.chunks ++ f.trailer start) =
      some (none :: ((f.offsetTable f.chunks).toList.drop 1).map some, f.trailerValue) := by
  have hread := (f.lexed_table start).tokens?_stop f.table_not_stop (List.mem_cons_self)
  have hzero : nat? (ascii "0") = some 0 := nat?_nat 0
  have hfree : nat? (ascii "0000000000") = some 0 := nat?_padded 0
  have hused : ascii "f" ≠ ascii "n" := by decide
  have hsize : f.size = ((f.offsetTable f.chunks).toList.drop 1).length + 1 := by
    rw [List.length_drop, Array.length_toList, f.size_offsetTable, size]
    rfl
  have hoffsets := entryOffsets?_entryTokens ((f.offsetTable f.chunks).toList.drop 1)
    (keyword "trailer" :: (f.trailerValue.tokens ++ [keyword "startxref"]))
  have hvalues := values?_tokens f.trailerValue
  rw [crossReference?, hread]
  simp only [tableStart, keyword, List.cons_append, List.nil_append, List.append_assoc, nat?_nat,
    true_and, if_pos hzero, Option.bind_some]
  simp only [keyword] at hoffsets
  rw [hsize, entryOffsets?]
  simp only [hfree, hoffsets, if_neg hused, Option.map_some, List.dropLast_concat, hvalues,
    if_true]

theorem startOffset?_bytes : startOffset? f.bytes = some (header.length + f.body.length) := by
  have hlines : ∀ next : Bytes, lineBytes f.trailerLines ++ 10 :: next =
      lineBytes f.trailerLines.dropLast ++ 10 :: (ascii "startxref" ++ 10 :: next) := by
    intro next
    rw [lineBytes_next (by simp [trailerLines]), lineBytes_next (by simp [trailerLines])]
    simp [trailerLines, word]
  have hnumber : 10 ∉ ascii (toString (header.length + f.body.length)) := by
    intro hmem
    exact absurd ((isWord_nat _).regular 10 hmem) (by decide)
  have hbytes : f.bytes = ((header ++ (f.body ++ (f.table f.chunks ++
      lineBytes f.trailerLines.dropLast)) ++ 10 :: ascii "startxref") ++
        10 :: ascii (toString (header.length + f.body.length))) ++ 10 :: ascii "%%EOF" := by
    have hend : ascii "\n%%EOF" = 10 :: ascii "%%EOF" := rfl
    rw [bytes]
    simp only [trailer_eq, hlines, hend, body, List.append_assoc, List.cons_append]
  rw [hbytes, startOffset?, lastLine_append _ (by decide)]
  dsimp only
  rw [lastLine_append _ hnumber]
  dsimp only
  rw [lastLine_append _ (by decide)]
  simp only [and_self, if_true, nat?_nat]

end File
end Typesetter.Pdf
