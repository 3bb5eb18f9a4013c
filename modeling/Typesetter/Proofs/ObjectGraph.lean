import Typesetter.Proofs.Numbering
import Typesetter.Proofs.Objects
import Typesetter.Proofs.Pagination
import Typesetter.Proofs.ShownText

/-! # The graph of objects

The objects of a file refer to each other by number. Every reference meets an object of the kind
that its place asks for, and the page tree, the pages and their contents hang together as the pages
of the rendering do. -/
namespace Typesetter
namespace Pdf

inductive Kind where
  | font
  | page
  | stream
  | pageTree
  | catalog
  | info
  deriving DecidableEq

def Object.kind : Object → Kind
  | font _ => .font
  | page .. => .page
  | stream _ => .stream
  | pageTree _ => .pageTree
  | catalog _ => .catalog
  | info .. => .info

/-! ## References -/

namespace Value

mutual
/-- The references within a value, each with the keys on the way to it. -/
def links (path : List Bytes) : Value → List (List Bytes × Nat)
  | reference n => [(path, n)]
  | array items => itemLinks path items
  | dictionary entries => entryLinks path entries
  | word .. | name _ | string _ => []

def itemLinks (path : List Bytes) : List Value → List (List Bytes × Nat)
  | [] => []
  | v :: rest => v.links path ++ itemLinks path rest

def entryLinks (path : List Bytes) : List (Bytes × Value) → List (List Bytes × Nat)
  | [] => []
  | (key, v) :: rest => v.links (path ++ [key]) ++ entryLinks path rest
end

theorem itemLinks_eq (path : List Bytes) (items : List Value) :
    itemLinks path items = items.flatMap (links path) := by
  induction items with
  | nil => rfl
  | cons v rest ih => rw [itemLinks, ih, List.flatMap_cons]

theorem entryLinks_eq (path : List Bytes) (entries : List (Bytes × Value)) :
    entryLinks path entries = entries.flatMap fun (key, v) => v.links (path ++ [key]) := by
  induction entries with
  | nil => rfl
  | cons entry rest ih =>
    obtain ⟨key, v⟩ := entry
    rw [entryLinks, ih, List.flatMap_cons]

end Value

/-- The kind of object that the keys on the way to a reference ask for. -/
def kind? : List Bytes → Option Kind
  | [key] =>
    [(ascii "Parent", Kind.pageTree), (ascii "Pages", .pageTree), (ascii "Kids", .page),
      (ascii "Contents", .stream), (ascii "Root", .catalog), (ascii "Info", .info)].lookup key
  | [resources, font, _] =>
    if resources = ascii "Resources" ∧ font = ascii "Font" then some .font else none
  | _ => none

def Object.targets : Object → List (Kind × Nat)
  | page parent contents _ _ fonts =>
    [(.pageTree, parent), (.stream, contents)] ++ fonts.map fun (_, n) => (.font, n)
  | pageTree kids => kids.map fun n => (.page, n)
  | catalog tree => [(.pageTree, tree)]
  | font _ | stream _ | info .. => []

theorem Object.links_value (o : Object) :
    (o.value.links []).map (fun (path, n) => (kind? path, n)) =
      o.targets.map fun (kind, n) => (some kind, n) := by
  cases o with
  | font face => rfl
  | stream data => rfl
  | info title author date => cases title <;> cases author <;> rfl
  | catalog tree => rfl
  | pageTree kids =>
    have hkind : kind? [ascii "Kids"] = some .page := by decide
    have hkids : (kids.map Value.reference).flatMap (Value.links [ascii "Kids"]) =
        kids.map fun n => ([ascii "Kids"], n) := by
      rw [List.flatMap_map, List.map_eq_flatMap]
      rfl
    simp [value, targets, Value.links, Value.entryLinks, Value.itemLinks_eq, Value.nat, hkids,
      Function.comp_def, hkind]
  | page parent contents width height fonts =>
    have hparent : kind? [ascii "Parent"] = some .pageTree := by decide
    have hcontents : kind? [ascii "Contents"] = some .stream := by decide
    have hkind : ∀ name, kind? [ascii "Resources", ascii "Font", name] = some .font := by
      intro name
      rw [kind?, if_pos ⟨rfl, rfl⟩]
    have hfonts : (fonts.map fun (face, n) => (ascii face.fontName, Value.reference n)).flatMap
          (fun (key, v) => v.links [ascii "Resources", ascii "Font", key]) =
        fonts.map fun (face, n) =>
          ([ascii "Resources", ascii "Font", ascii face.fontName], n) := by
      rw [List.flatMap_map, List.map_eq_flatMap]
      rfl
    simp [value, targets, Value.links, Value.entryLinks, Value.entryLinks_eq, Value.itemLinks,
      Value.nat, Value.number, hfonts, Function.comp_def, hparent, hcontents, hkind]

def NumberedObject.contents? (o : NumberedObject) : Option Nat :=
  (o.object.value.get? "Contents").bind Value.reference?

theorem NumberedObject.contents?_eq (o : NumberedObject) :
    o.contents? = match o.object with
      | .page _ contents .. => some contents
      | _ => none := by
  obtain ⟨n, object⟩ := o
  cases object with
  | info title author date => cases title <;> cases author <;> rfl
  | _ => rfl

def File.Defines (f : File) (kind : Kind) (n : Nat) : Prop :=
  ∃ o ∈ f.objects, o.number = n ∧ o.object.kind = kind

end Pdf

open Pdf (Kind NumberedObject Operator Value ascii)

/-! ## The file of a rendering -/

namespace Rendering
variable {d : Document} {r : Rendering}

def pageObject (r : Rendering) (page : Page) : NumberedObject :=
  ⟨page.number, .page r.pageTree page.contentNumber r.press.pageWidth r.press.pageHeight
    (r.press.fonts.map fun f => (f.face, f.number))⟩

theorem pageObject_mem {page : Page} (h : page ∈ r.pages) (c : Config) (stamp : Stamp) :
    r.pageObject page ∈ (r.file c stamp).objects := by
  have hmem : r.pageObject page ∈ r.pageObjects := List.mem_map_of_mem h
  simp [file, hmem]

theorem streamObject_mem {page : Page} (h : page ∈ r.pages) (c : Config) (stamp : Stamp) :
    (⟨page.contentNumber, .stream (Pdf.contentBytes page.content.toList)⟩ : NumberedObject) ∈
      (r.file c stamp).objects := by
  have hmem : (⟨page.contentNumber, .stream (Pdf.contentBytes page.content.toList)⟩ :
      NumberedObject) ∈ r.streamObjects := List.mem_map.mpr ⟨page, h, rfl⟩
  simp [file, hmem]

theorem fontObject_mem {f : FontObject} (h : f ∈ r.press.fonts) (c : Config) (stamp : Stamp) :
    (⟨f.number, .font f.face⟩ : NumberedObject) ∈ (r.file c stamp).objects := by
  have hmem : (⟨f.number, .font f.face⟩ : NumberedObject) ∈ r.fontObjects :=
    List.mem_map_of_mem h
  simp [file, hmem]

theorem exists_font (hup : Press.SetUp d.config r.press) (page : Page) (face : Face) :
    ∃ f ∈ r.press.fonts, f.face = face ∧
      ((((r.pageObject page).object.value.get? "Resources").bind (Value.get? "Font")).bind
        (Value.get? face.fontName)).bind Value.reference? = some f.number := by
  unfold pageObject
  rw [hup.fonts, Press.fonts_new]
  cases face with
  | regular => exact ⟨⟨1, .regular⟩, by simp, rfl, rfl⟩
  | bold => exact ⟨⟨2, .bold⟩, by simp, rfl, rfl⟩
  | italics => exact ⟨⟨3, .italics⟩, by simp, rfl, rfl⟩
  | boldItalics => exact ⟨⟨4, .boldItalics⟩, by simp, rfl, rfl⟩

theorem defines_target (c : Config) (stamp : Stamp) {o : NumberedObject}
    (ho : o ∈ (r.file c stamp).objects) :
    ∀ target ∈ o.object.targets, (r.file c stamp).Defines target.1 target.2 := by
  have htree : (r.file c stamp).Defines .pageTree r.pageTree :=
    ⟨⟨r.pageTree, .pageTree (r.pages.map Page.number)⟩, by simp [file], rfl, rfl⟩
  intro target htarget
  simp only [file, List.mem_append, List.mem_cons, List.not_mem_nil, or_false] at ho
  rcases ho with ((ho | ho) | ho) | rfl | rfl | rfl
  · obtain ⟨f, -, rfl⟩ := List.mem_map.mp ho
    simp [Pdf.Object.targets] at htarget
  · obtain ⟨page, hpage, rfl⟩ := List.mem_map.mp ho
    simp only [Pdf.Object.targets, List.map_map, List.mem_append, List.mem_cons, List.mem_map,
      List.not_mem_nil, or_false] at htarget
    rcases htarget with (rfl | rfl) | ⟨f, hf, rfl⟩
    · exact htree
    · exact ⟨_, streamObject_mem hpage c stamp, rfl, rfl⟩
    · exact ⟨_, fontObject_mem hf c stamp, rfl, rfl⟩
  · obtain ⟨page, -, rfl⟩ := List.mem_map.mp ho
    simp [Pdf.Object.targets] at htarget
  · simp only [Pdf.Object.targets, List.map_map, List.mem_map] at htarget
    obtain ⟨page, hpage, rfl⟩ := htarget
    exact ⟨_, pageObject_mem hpage c stamp, rfl, rfl⟩
  · obtain rfl := by simpa [Pdf.Object.targets] using htarget
    exact htree
  · simp [Pdf.Object.targets] at htarget

end Rendering

/-- How the objects of a file hang together. -/
structure ObjectGraph (r : Rendering) (f : Pdf.File) : Prop where
  numbers : (f.objects.map NumberedObject.number).Perm (List.range' 1 (2 * r.pages.length + 7))
  read : ∀ o ∈ f.objects, o.object.Dated → ∀ rest,
    Pdf.object? (o.bytes ++ rest) = some ⟨o.number, o.object.value, o.object.data?⟩
  somePage : r.pages ≠ []
  pageTree : ∃ tree ∈ f.objects, tree.number = r.pageTree ∧ tree.object.kind = .pageTree ∧
    (tree.object.value.get? "Kids").bind Value.references? = some (r.pages.map Page.number) ∧
    (tree.object.value.get? "Count").bind Value.nat? = some r.pages.length
  kids : (f.objects.filter fun o => o.object.kind = .page).map NumberedObject.number =
    r.pages.map Page.number
  contents : f.objects.filterMap NumberedObject.contents? = r.pages.map Page.contentNumber
  unshared : (r.pages.map Page.contentNumber).Nodup
  pages : ∀ page ∈ r.pages, ∃ o ∈ f.objects, o.number = page.number ∧ o.object.kind = .page ∧
    (o.object.value.get? "Parent").bind Value.reference? = some r.pageTree ∧
    o.contents? = some page.contentNumber ∧
    (⟨page.contentNumber, .stream (Pdf.contentBytes page.content.toList)⟩ : NumberedObject)
      ∈ f.objects ∧
    ∀ face size, Operator.setFont face size ∈ page.content → ∃ font ∈ f.objects,
      (((o.object.value.get? "Resources").bind (Value.get? "Font")).bind
        (Value.get? face.fontName)).bind Value.reference? = some font.number ∧
      (font.object.value.get? "Subtype").bind Value.name? = some (ascii "Type1") ∧
      (font.object.value.get? "BaseFont").bind Value.name? = some (ascii face.fontName)
  references : ∀ o ∈ f.objects, ∀ link ∈ o.object.value.links [],
    ∃ kind, Pdf.kind? link.1 = some kind ∧ f.Defines kind link.2
  trailer : ∀ link ∈ f.trailerValue.links [],
    ∃ kind, Pdf.kind? link.1 = some kind ∧ f.Defines kind link.2

theorem object_graph (d : Document) (r : Rendering) (stamp : Stamp) (h : d.render = .ok r) :
    ObjectGraph r (r.file d.config stamp) := by
  obtain ⟨-, hup, -⟩ := Document.numbered h
  constructor
  case numbers => exact Document.numbers_perm h stamp
  case read => exact fun o _ hdated => o.object?_bytes hdated
  case somePage => simp [Rendering.pages, Press.pages]
  case pageTree =>
    refine ⟨⟨r.pageTree, .pageTree (r.pages.map Page.number)⟩, by simp [Rendering.file], rfl, rfl,
      ?_, ?_⟩
    · exact Value.references?_array _
    · have hcount := Pdf.nat?_nat (r.pages.map Page.number).length
      rw [List.length_map] at hcount
      rw [← hcount, ← List.length_map (f := Page.number)]
      rfl
  case kids =>
    simp [Rendering.file, Rendering.fontObjects, Rendering.pageObjects, Rendering.streamObjects,
      List.filter_map, Function.comp_def, Pdf.Object.kind]
  case contents =>
    simp [Rendering.file, Rendering.fontObjects, Rendering.pageObjects, Rendering.streamObjects,
      List.filterMap_map, NumberedObject.contents?_eq]
  case unshared =>
    rw [(Document.pages_numbers h).2]
    exact List.nodup_range.map fun a b hab => pageNumber_injective (Nat.succ.inj hab)
  case pages =>
    intro page hpage
    refine ⟨r.pageObject page, Rendering.pageObject_mem hpage _ _, rfl, rfl, rfl, rfl,
      Rendering.streamObject_mem hpage _ _, ?_⟩
    intro face _ _
    obtain ⟨f, hf, rfl, hfont⟩ := Rendering.exists_font hup page face
    exact ⟨_, Rendering.fontObject_mem hf _ _, hfont, rfl, rfl⟩
  case references =>
    intro o ho link hlink
    have hmem : (Pdf.kind? link.1, link.2) ∈
        (o.object.value.links []).map fun (path, n) => (Pdf.kind? path, n) :=
      List.mem_map_of_mem hlink
    rw [Pdf.Object.links_value] at hmem
    obtain ⟨⟨kind, n⟩, htarget, heq⟩ := List.mem_map.mp hmem
    obtain ⟨hkind, rfl⟩ := Prod.mk.inj heq
    exact ⟨kind, hkind.symm, Rendering.defines_target _ stamp ho _ htarget⟩
  case trailer =>
    have hlinks : (r.file d.config stamp).trailerValue.links [] =
        [([ascii "Root"], (r.file d.config stamp).catalog),
          ([ascii "Info"], (r.file d.config stamp).info)] := rfl
    have hroot : Pdf.kind? [ascii "Root"] = some .catalog := by decide
    have hinfo : Pdf.kind? [ascii "Info"] = some .info := by decide
    rw [hlinks, List.forall_mem_cons, List.forall_mem_singleton]
    refine ⟨⟨_, hroot, ?_⟩, ⟨_, hinfo, ?_⟩⟩
    · exact ⟨⟨_, .catalog r.pageTree⟩, by simp [Rendering.file], rfl, rfl⟩
    · exact ⟨⟨_, .info d.config.title d.config.author stamp.date⟩, by simp [Rendering.file],
        rfl, rfl⟩

/-- Two pages, so that a page has been numbered behind the page tree. -/
theorem object_graph_tallLines : ∃ r, tallLines.render = .ok r ∧ r.pages.length = 2 ∧
    ObjectGraph r (r.file tallLines.config ⟨⟨"20240229235959", 0⟩, [1, 2]⟩) := by
  obtain ⟨r, hr, hlen⟩ := Document.exists_of_length_pages (d := tallLines) (n := 2)
    (by decide +kernel)
  exact ⟨r, hr, hlen, object_graph tallLines r _ hr⟩

end Typesetter
