import Mathlib.Data.List.Basic
import Typesetter.Proofs.Numerals
import Typesetter.Proofs.Objects
import Typesetter.Proofs.Pagination
import Typesetter.Proofs.ShownText

/-! # Pages and information read back

A reader of a page finds a text object for each line with words and nothing else, and a reader of
the document information finds the title and the author, whatever characters they hold. -/
namespace Typesetter
open Numeric (Single)

namespace Pdf

def Operator.tokens : Operator → List Token
  | beginText => [keyword "BT"]
  | moveBy x y => [numeral x, numeral y, keyword "Td"]
  | setFont face size => [.name (ascii face.fontName), numeral size, keyword "Tf"]
  | showText codes => [.string codes, keyword "Tj"]
  | endText => [keyword "ET"]

/-! ## Operators -/

theorem Operator.lexed (o : Operator) {rest : Bytes} (hrest : EndsWord rest) :
    Lexed (o.bytes ++ rest) o.tokens rest := by
  have hblank : ∀ text : Bytes, EndsWord (ascii " " ++ text) := fun _ => endsWord_cons rfl _
  cases o with
  | beginText => exact .keyword _ (by decide) hrest
  | endText => exact .keyword _ (by decide) hrest
  | moveBy x y =>
    have hend : ascii " Td" = ascii " " ++ ascii "Td" := rfl
    have hlast := (Lexed.keyword "Td" (by decide) hrest).blank (by simp)
    have hy := ((Lexed.numeral y (hblank _)).trans hlast).blank (by simp)
    have hx := (Lexed.numeral x (hblank _)).trans hy
    simp only [bytes, hend, ascii_append, List.append_assoc]
    exact hx
  | setFont face size =>
    have hend : ascii " Tf" = ascii " " ++ ascii "Tf" := rfl
    have hlast := (Lexed.keyword "Tf" (by decide) hrest).blank (by simp)
    have hsize := ((Lexed.numeral size (hblank _)).trans hlast).blank (by simp)
    have hname := (Lexed.single (token?_name (isWord_fontName face).regular (hblank _))).trans hsize
    simp only [bytes, hend, ascii_append, List.append_assoc]
    exact hname
  | showText codes =>
    have hend : ascii " Tj" = ascii " " ++ ascii "Tj" := rfl
    have hlast := (Lexed.keyword "Tj" (by decide) hrest).blank (by simp)
    have hcodes := (Lexed.single (token?_byteString codes _)).trans hlast
    simp only [bytes, hend, List.append_assoc]
    exact hcodes

theorem Operator.tokens_ne_nil (o : Operator) : o.tokens ≠ [] := by
  cases o <;> exact List.cons_ne_nil _ _

theorem lexed_contentBytes (operators : List Operator) :
    Lexed (contentBytes operators) (operators.flatMap Operator.tokens) [] := by
  have hread : ∀ o ∈ operators, o.tokens ≠ [] ∧
      ∀ rest, EndsWord rest → Lexed (o.bytes ++ rest) o.tokens rest :=
    fun o _ => ⟨o.tokens_ne_nil, fun _ => o.lexed⟩
  have hend : EndsWord [] := by simp [EndsWord]
  have hlines := Lexed.intercalate (s := 10) rfl (endsWord_cons rfl) hread hend
  rwa [List.append_nil] at hlines

theorem tokens?_contentBytes (operators : List Operator) :
    tokens? [] (contentBytes operators) = some (operators.flatMap Operator.tokens, []) := by
  rw [(lexed_contentBytes operators).tokens? (by simp)]
  simp [tokens?]

/-! ## Text objects -/

/-- A word as the page has it, moved along the line by an advance. -/
structure Group where
  advance : Single
  face : Face
  size : Single
  codes : Bytes

def Group.tokens (g : Group) : List Token :=
  [numeral g.advance, keyword "0", keyword "Td", .name (ascii g.face.fontName), numeral g.size,
    keyword "Tf", .string g.codes, keyword "Tj"]

structure TextObject where
  x : Single
  y : Single
  groups : List Group
  shows : groups ≠ []

def TextObject.tokens (o : TextObject) : List Token :=
  [keyword "BT", numeral o.x, numeral o.y, keyword "Td"] ++ o.groups.flatMap Group.tokens ++
    [keyword "ET"]

end Pdf

open Pdf (Group TextObject Operator)

def Word.group (advance : Single) (w : Word) : Group :=
  ⟨advance + w.offset, w.face, w.size, WinAnsi.encode w.text⟩

def Line.groups (l : Line) : List Group :=
  ((0 :: l.words.toList.map Word.width).zip l.words.toList).map fun (advance, w) =>
    w.group advance

theorem Line.groups_shown (l : Line) :
    l.groups.map (fun g => (g.face, g.size, g.codes)) =
      l.words.toList.map fun w => (w.face, w.size, WinAnsi.encode w.text) := by
  have hwords : ((0 :: l.words.toList.map Word.width).zip l.words.toList).map Prod.snd =
      l.words.toList := List.map_snd_zip (by simp)
  conv_rhs => rw [← hwords]
  simp only [groups, List.map_map]
  rfl

theorem Line.groups_ne_nil {l : Line} (h : l.words ≠ #[]) : l.groups ≠ [] := by
  intro hnil
  have hshown := l.groups_shown
  rw [hnil] at hshown
  exact h (by simpa using hshown.symm)

theorem Press.wordOperators_tokens {fonts : List FontObject}
    (hfonts : ∀ face, fonts.any (·.face = face) = true) (advance : Single) (w : Word) :
    (wordOperators fonts advance w).flatMap Operator.tokens = (w.group advance).tokens := by
  have hzero : Pdf.numeral 0 = Pdf.keyword "0" := by decide
  simp [wordOperators, hfonts, Operator.tokens, Group.tokens, Word.group, hzero]

/-- A text object shows a placed line when it starts where the line does and has a group for each
of its words, with the codes of the word's characters. -/
structure Placement.ShownBy (c : Config) (q : Placement) (o : TextObject) : Prop where
  x : o.x = c.pageMargin + q.setting.block.indent
  y : o.y = q.baseline c
  groups : o.groups.map (fun g => (g.face, g.size, g.codes)) =
    q.setting.line.words.toList.map fun w => (w.face, w.size, WinAnsi.encode w.text)

theorem Placement.printed_tokens (c : Config) {q : Placement}
    (h : q.setting.line.words ≠ #[]) :
    ∃ o : TextObject, q.ShownBy c o ∧ (q.printed c).flatMap Operator.tokens = o.tokens := by
  have hfonts := (Press.start_setUp c).any_face
  refine ⟨⟨c.pageMargin + q.setting.block.indent, q.baseline c, q.setting.line.groups,
    Line.groups_ne_nil h⟩, ⟨rfl, rfl, Line.groups_shown _⟩, ?_⟩
  have hwords : (((0 :: q.setting.line.words.toList.map Word.width).zip
        q.setting.line.words.toList).flatMap fun (advance, w) =>
        Press.wordOperators (Press.new c).fonts advance w).flatMap Operator.tokens =
      q.setting.line.groups.flatMap Group.tokens := by
    rw [List.flatMap_assoc, Line.groups, List.flatMap_map]
    congr 1
    funext ⟨advance, w⟩
    exact Press.wordOperators_tokens hfonts advance w
  rw [printed, if_neg (by simpa using h), Press.lineOperators, List.flatMap_append,
    List.flatMap_append, hwords]
  rfl

theorem Placement.tokens_printed (c : Config) (placed : List Placement) :
    ∃ objects : List TextObject,
      List.Forall₂ (Placement.ShownBy c)
        (placed.filter fun q => q.setting.line.words ≠ #[]) objects ∧
      (placed.flatMap (Placement.printed c)).flatMap Operator.tokens =
        objects.flatMap TextObject.tokens := by
  induction placed with
  | nil => exact ⟨[], .nil, rfl⟩
  | cons q rest ih =>
    obtain ⟨objects, hshown, htokens⟩ := ih
    by_cases hq : q.setting.line.words = #[]
    · refine ⟨objects, ?_, ?_⟩
      · rwa [List.filter_cons_of_neg (by simpa using hq)]
      · rw [List.flatMap_cons, List.flatMap_append, htokens]
        simp [printed, hq]
    · obtain ⟨o, ho, hprinted⟩ := Placement.printed_tokens c hq
      refine ⟨o :: objects, ?_, ?_⟩
      · rw [List.filter_cons_of_pos (by simpa using hq)]
        exact .cons ho hshown
      · rw [List.flatMap_cons, List.flatMap_append, htokens, hprinted, List.flatMap_cons]

/-! ## Whole files -/

open Pdf (Bytes Token TextObject Object NumberedObject)

theorem Document.exists_contents {d : Document} {r : Rendering} (h : d.render = .ok r) :
    ∃ blocks, List.Forall₂ (fun p b => d.config.layOut p = .ok b) d.paragraphs.toList blocks ∧
      ∀ (k : Nat) (page : Page), r.pages[k]? = some page →
        page.content.toList = Press.printedOn d.config
          (Press.placements d.config (Press.start d.config) (blocks.flatMap Block.settings))
          (k + 1) := by
  obtain ⟨blocks, hblocks, rfl⟩ := (d.render_eq_ok_iff r).mp h
  have hb := block_size_of_layOut hblocks
  have hsettings : ∀ s ∈ blocks.flatMap Block.settings, s.block.size = d.config.normalFontSize := by
    intro s hs
    obtain ⟨b, hmem, hs⟩ := List.mem_flatMap.mp hs
    rw [Block.block_of_mem_settings hs]
    exact (hb b hmem).1
  refine ⟨blocks, hblocks, fun k page hpage => ?_⟩
  have hcontents := (Press.holds_foldl_set d.config _ hsettings).contents
  rw [← Press.foldl_writeBlock d.config fun b hmem => (hb b hmem).2] at hcontents
  have hread := congrArg (fun contents => contents[k]?) hcontents
  obtain ⟨hk, -⟩ := List.getElem?_eq_some_iff.mp hpage
  simp only [Rendering.pages, Array.length_toList] at hk hpage
  simp only [Press.contents, List.getElem?_map, hpage, List.getElem?_range hk, Option.map_some,
    Option.some.injEq] at hread
  exact hread

namespace Pdf

def informationTokens (title author : Option Bytes) : List Token :=
  [.beginDictionary] ++ title.toList.flatMap (fun bytes => [.name (ascii "Title"), .string bytes])
    ++ author.toList.flatMap (fun bytes => [.name (ascii "Author"), .string bytes])
    ++ [.name (ascii "Creator"), .string (ascii "txtpdf")]

theorem tokens_infoLines (title author : Option String) :
    (Object.infoLines title author).flatMap SpelledLine.tokens =
      informationTokens (title.map textBytes) (author.map textBytes) := by
  cases title <;> cases author <;> rfl

theorem lexed_information (n : Nat) (title author : Option String) (date : Date)
    (rest : Bytes) :
    ∃ behind, Lexed (NumberedObject.bytes ⟨n, .info title author date⟩ ++ rest)
      (objectStart n ++ informationTokens (title.map textBytes) (author.map textBytes)) behind := by
  obtain ⟨behind, hinfo⟩ :=
    Object.lexed_info title author date (ascii "\nendobj\n\n" ++ rest)
  have hstart := lexed_objectStart n
    ((Object.info title author date).bytes ++ (ascii "\nendobj\n\n" ++ rest))
  rw [tokens_infoLines] at hinfo
  have hne : informationTokens (title.map textBytes) (author.map textBytes) ≠ [] := by
    simp [informationTokens]
  refine ⟨behind, ?_⟩
  rw [NumberedObject.bytes, List.append_assoc, List.append_assoc]
  exact hstart.trans (hinfo.space rfl hne)

end Pdf

/-- What a reader finds. A page is a sequence of text objects, one for each line on it that has
words, and each word is a group with the codes of its characters. A string ends where it was written
to end, whatever it holds and whatever follows, and gives back its bytes or its text. -/
structure ReadsBack (d : Document) (r : Rendering) (stamp : Stamp) (placed : List Placement) :
    Prop where
  pages : ∀ (k : Nat) (page : Page), r.pages[k]? = some page → ∃ objects : List TextObject,
    List.Forall₂ (Placement.ShownBy d.config)
      ((placed.filter fun q => q.page = k + 1).filter fun q => q.setting.line.words ≠ #[])
      objects ∧
    Pdf.tokens? [] (Pdf.contentBytes page.content.toList) =
      some (objects.flatMap TextObject.tokens, [])
  bytes : ∀ bytes rest : Bytes, Pdf.string? (Pdf.byteString bytes ++ rest) = some (bytes, rest)
  texts : ∀ (text : String) (rest : Bytes), ∃ bytes,
    Pdf.string? (Pdf.textString text ++ rest) = some (bytes, rest) ∧ Pdf.text? bytes = some text
  information : ∃ o ∈ (r.file d.config stamp).objects,
    o.number = (r.file d.config stamp).info ∧
    ∀ rest : Bytes, ∃ title author behind,
      Pdf.Lexed (o.bytes ++ rest)
        (Pdf.objectStart o.number ++ Pdf.informationTokens title author) behind ∧
      title.map Pdf.text? = d.config.title.map some ∧
      author.map Pdf.text? = d.config.author.map some

/-- No word, title or author can end its string early or add to the syntax around it. -/
theorem pages_and_information_read_back (d : Document) (r : Rendering) (stamp : Stamp)
    (h : d.render = .ok r) :
    ∃ blocks, List.Forall₂ (fun p b => d.config.layOut p = .ok b) d.paragraphs.toList blocks ∧
      ReadsBack d r stamp
        (Press.placements d.config (Press.start d.config) (blocks.flatMap Block.settings)) := by
  obtain ⟨blocks, hblocks, hcontents⟩ := Document.exists_contents h
  refine ⟨blocks, hblocks, ?_⟩
  constructor
  case bytes => exact Pdf.string?_byteString
  case texts =>
    exact fun text rest => ⟨_, Pdf.string?_textString text rest, Pdf.text?_textBytes text⟩
  case pages =>
    intro k page hpage
    obtain ⟨objects, hshown, htokens⟩ := Placement.tokens_printed d.config
      ((Press.placements d.config (Press.start d.config) (blocks.flatMap Block.settings)).filter
        fun q => q.page = k + 1)
    refine ⟨objects, hshown, ?_⟩
    rw [Pdf.tokens?_contentBytes, hcontents k page hpage, Press.printedOn, htokens]
  case information =>
    have htext : ∀ text : Option String,
        (text.map Pdf.textBytes).map Pdf.text? = text.map some := by
      intro text
      cases text <;> simp [Pdf.text?_textBytes]
    refine ⟨⟨(r.file d.config stamp).info,
      .info d.config.title d.config.author stamp.date⟩, by simp [Rendering.file], rfl, ?_⟩
    intro rest
    obtain ⟨behind, hread⟩ := Pdf.lexed_information (r.file d.config stamp).info d.config.title
      d.config.author stamp.date rest
    exact ⟨_, _, behind, hread, htext d.config.title, htext d.config.author⟩

def awkwardStrings : Document where
  config := { title := some ")(", author := some "É\\" }
  paragraphs := #[{ runs := #[⟨")( É\\", .bold, 12⟩] }]

def someStamp : Stamp := ⟨⟨"20240229235959", -34200⟩, [1, 200]⟩

theorem pages_and_information_read_back_awkwardStrings : ∃ r placed,
    awkwardStrings.render = .ok r ∧ r.pages.length = 1 ∧
      ReadsBack awkwardStrings r someStamp placed := by
  obtain ⟨r, hr, hlen⟩ := Document.exists_of_length_pages (d := awkwardStrings) (n := 1)
    (by decide +kernel)
  obtain ⟨_, _, hread⟩ := pages_and_information_read_back awkwardStrings r someStamp hr
  exact ⟨r, _, hr, hlen, hread⟩

end Typesetter
