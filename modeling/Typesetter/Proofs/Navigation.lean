import Typesetter.Proofs.CrossReference
import Typesetter.Proofs.ObjectGraph
import Typesetter.Proofs.StreamData

/-! # Navigation

From the last lines of a file a reader gets to the table, from the table to every object, and by
references from the trailer to the contents of all pages. -/
namespace Typesetter
namespace Pdf

def fetch? (file : Bytes) (offsets : List (Option Nat)) (n : Nat) : Option Entity :=
  offsets[n]?.join.bind fun offset => (object? (file.drop offset)).filter (·.number = n)

def follow? (file : Bytes) (offsets : List (Option Nat)) (v : Value) (key : String) :
    Option Entity :=
  ((v.get? key).bind Value.reference?).bind (fetch? file offsets)

def contentData? (file : Bytes) (offsets : List (Option Nat)) (page : Nat) : Option Bytes :=
  ((fetch? file offsets page).bind fun page =>
    follow? file offsets page.value "Contents").bind Entity.data

/-- The contents of all pages, found from the end of the file on. -/
def pageContents? (file : Bytes) : Option (List Bytes) := do
  let start ← startOffset? file
  let (offsets, trailer) ← crossReference? (file.drop start)
  let catalog ← follow? file offsets trailer "Root"
  let tree ← follow? file offsets catalog.value "Pages"
  let kids ← (tree.value.get? "Kids").bind Value.references?
  kids.mapM (contentData? file offsets)

namespace File

def entries (f : File) : List (Option Nat) :=
  none :: ((f.offsetTable f.chunks).toList.drop 1).map some

theorem bytes_eq (f : File) : f.bytes = (header ++ f.body) ++ (f.table f.chunks ++
    f.trailer (header.length + f.body.length)) := by
  simp only [bytes, body, List.append_assoc]

theorem crossReference?_bytes (f : File) :
    crossReference? (f.bytes.drop (header.length + f.body.length)) =
      some (f.entries, f.trailerValue) := by
  rw [bytes_eq, ← List.length_append, List.drop_left]
  exact f.crossReference?_table _

/-- Every number has one object, and no number is beyond the size of the table. -/
structure WellNumbered (f : File) : Prop where
  nodup : (f.objects.map NumberedObject.number).Nodup
  bounds : ∀ o ∈ f.objects, 0 < o.number ∧ o.number < f.size

variable {f : File}

theorem WellNumbered.placed (h : WellNumbered f) {o : NumberedObject} (ho : o ∈ f.objects) :
    ∃ offset rest, f.entries[o.number]? = some (some offset) ∧
      f.bytes.drop offset = o.bytes ++ rest := by
  obtain ⟨hpos, hsize⟩ := h.bounds o ho
  obtain ⟨before, after, hbody, hoffset⟩ := offsetTable_spec h.nodup ho hsize
  have hentry : f.entries[o.number]? = some (some (header.length + before.length)) := by
    obtain ⟨n, hn⟩ : ∃ n, o.number = n + 1 := ⟨o.number - 1, by omega⟩
    rw [hn] at hoffset ⊢
    rw [entries, List.getElem?_cons_succ, List.getElem?_map, List.getElem?_drop, Nat.add_comm,
      Array.getElem?_toList, hoffset]
    rfl
  refine ⟨_, after ++ (f.table f.chunks ++ f.trailer (header.length + f.body.length)), hentry, ?_⟩
  rw [bytes_eq, hbody, ← List.length_append]
  simp only [List.append_assoc]
  rw [← List.append_assoc header, List.drop_left]

theorem WellNumbered.fetch? (h : WellNumbered f) {o : NumberedObject} (ho : o ∈ f.objects)
    (hdated : o.object.Dated) :
    Pdf.fetch? f.bytes f.entries o.number =
      some ⟨o.number, o.object.value, o.object.data?⟩ := by
  obtain ⟨offset, rest, hentry, hdrop⟩ := h.placed ho
  rw [Pdf.fetch?, hentry, Option.join_some, Option.bind_some, hdrop, o.object?_bytes hdated]
  simp

theorem WellNumbered.follow? (h : WellNumbered f) {o : NumberedObject} (ho : o ∈ f.objects)
    (hdated : o.object.Dated) (v : Value) (key : String)
    (hkey : (v.get? key).bind Value.reference? = some o.number) :
    Pdf.follow? f.bytes f.entries v key =
      some ⟨o.number, o.object.value, o.object.data?⟩ := by
  rw [Pdf.follow?, hkey, Option.bind_some, h.fetch? ho hdated]

end File

theorem mapM_map_eq_some {α β γ : Type} {f : β → Option γ} {g : α → β} {k : α → γ} {as : List α}
    (h : ∀ a ∈ as, f (g a) = some (k a)) : (as.map g).mapM f = some (as.map k) := by
  induction as with
  | nil => rfl
  | cons a as ih =>
    obtain ⟨ha, has⟩ := List.forall_mem_cons.mp h
    simp [ha, ih has]

end Pdf

open Pdf (ascii Bytes File NumberedObject Value)

theorem Document.size_eq {d : Document} {r : Rendering} (h : d.render = .ok r) (stamp : Stamp) :
    (r.file d.config stamp).size = 2 * r.pages.length + 8 := by
  have hlength := (Document.numbers_perm h stamp).length_eq
  rw [List.length_map, List.length_range'] at hlength
  rw [File.size, hlength]

theorem Document.wellNumbered {d : Document} {r : Rendering} (h : d.render = .ok r)
    (stamp : Stamp) : (r.file d.config stamp).WellNumbered := by
  have hperm := Document.numbers_perm h stamp
  constructor
  · exact hperm.nodup_iff.mpr List.nodup_range'
  · intro o ho
    have hmem := hperm.mem_iff.mp (List.mem_map_of_mem ho)
    rw [List.mem_range'_1] at hmem
    rw [Document.size_eq h]
    omega

theorem Rendering.unended_of_stream {c : Config} {r : Rendering} {stamp : Stamp}
    {o : NumberedObject} (ho : o ∈ (r.file c stamp).objects) {data : Bytes}
    (hdata : o.object = .stream data) : Pdf.Unended data := by
  simp only [file, List.mem_append, List.mem_cons, List.not_mem_nil, or_false] at ho
  rcases ho with ((ho | ho) | ho) | rfl | rfl | rfl
  · obtain ⟨f, -, rfl⟩ := List.mem_map.mp ho
    simp at hdata
  · obtain ⟨page, -, rfl⟩ := List.mem_map.mp ho
    simp at hdata
  · obtain ⟨page, -, rfl⟩ := List.mem_map.mp ho
    obtain rfl := by simpa using hdata
    exact Pdf.unended_contentBytes _
  · simp at hdata
  · simp at hdata
  · simp at hdata

theorem Document.contentData?_eq {d : Document} {r : Rendering} (h : d.render = .ok r)
    (stamp : Stamp) (page : Page) (hpage : page ∈ r.pages) :
    Pdf.contentData? (r.file d.config stamp).bytes (r.file d.config stamp).entries page.number =
      some (Pdf.contentBytes page.content.toList) := by
  have hwell := Document.wellNumbered h stamp
  have hobject := hwell.fetch? (Rendering.pageObject_mem hpage d.config stamp) trivial
  have hstream := hwell.follow? (Rendering.streamObject_mem hpage d.config stamp) trivial
    (r.pageObject page).object.value "Contents" rfl
  have hnumber : (r.pageObject page).number = page.number := rfl
  rw [hnumber] at hobject
  rw [Pdf.contentData?, hobject, Option.bind_some, hstream]
  rfl

theorem Document.pageContents?_eq {d : Document} {r : Rendering} (h : d.render = .ok r)
    (stamp : Stamp) :
    Pdf.pageContents? (r.file d.config stamp).bytes =
      some (r.pages.map fun page => Pdf.contentBytes page.content.toList) := by
  have hwell := Document.wellNumbered h stamp
  have hcatalog : (⟨(r.file d.config stamp).catalog, .catalog r.pageTree⟩ : NumberedObject) ∈
      (r.file d.config stamp).objects := by simp [Rendering.file]
  have htree : (⟨r.pageTree, .pageTree (r.pages.map Page.number)⟩ : NumberedObject) ∈
      (r.file d.config stamp).objects := by simp [Rendering.file]
  have hroot := hwell.follow? hcatalog trivial
    (r.file d.config stamp).trailerValue "Root" rfl
  have hpages := hwell.follow? htree trivial
    (Pdf.Object.catalog r.pageTree).value "Pages" rfl
  have hkids : ((Pdf.Object.pageTree (r.pages.map Page.number)).value.get? "Kids").bind
      Value.references? = some (r.pages.map Page.number) := Value.references?_array _
  have hcontents := Pdf.mapM_map_eq_some (Document.contentData?_eq h stamp)
  rw [Pdf.pageContents?, File.startOffset?_bytes]
  simp only [Option.bind_eq_bind, Option.bind_some, File.crossReference?_bytes, hroot, hpages,
    hkids, hcontents]

/-- What a reader gets from a file by its offsets. -/
structure Navigable (r : Rendering) (f : File) (start : Nat) (offsets : List (Option Nat))
    (trailer : Value) : Prop where
  found : Pdf.startOffset? f.bytes = some start
  table : ascii "xref\n" <+: f.bytes.drop start
  entries : Pdf.crossReference? (f.bytes.drop start) = some (offsets, trailer)
  objects : ∀ o ∈ f.objects, ∃ offset, offsets[o.number]? = some (some offset) ∧
    ascii (toString o.number ++ " 0 obj") <+: f.bytes.drop offset ∧
    o.bytes <+: f.bytes.drop offset
  size : ∃ size, (trailer.get? "Size").bind Value.nat? = some size ∧
    (∀ o ∈ f.objects, o.number < size) ∧ ∃ o ∈ f.objects, o.number + 1 = size
  streams : ∀ o ∈ f.objects, ∀ data, o.object = .stream data →
    Pdf.streamData? o.bytes = some data ∧
    (o.object.value.get? "Length").bind Value.nat? = some data.length ∧
    Pdf.fetch? f.bytes offsets o.number = some ⟨o.number, o.object.value, some data⟩
  pages : Pdf.pageContents? f.bytes =
    some (r.pages.map fun page => Pdf.contentBytes page.content.toList)

theorem file_navigable (d : Document) (r : Rendering) (stamp : Stamp) (h : d.render = .ok r) :
    ∃ start offsets trailer, Navigable r (r.file d.config stamp) start offsets trailer := by
  have hwell := Document.wellNumbered h stamp
  refine ⟨_, _, _, (r.file d.config stamp).startOffset?_bytes, ?table,
    (r.file d.config stamp).crossReference?_bytes, ?objects, ?size, ?streams,
    Document.pageContents?_eq h stamp⟩
  case table =>
    have hstart : ascii "xref\n0 " = ascii "xref\n" ++ ascii "0 " := rfl
    rw [File.bytes_eq, ← List.length_append, List.drop_left]
    simp only [File.table, Pdf.ascii_append, hstart, List.append_assoc]
    exact List.prefix_append _ _
  case objects =>
    intro o ho
    obtain ⟨offset, rest, hoffset, hdrop⟩ := hwell.placed ho
    have hbytes : o.bytes <+: (r.file d.config stamp).bytes.drop offset :=
      ⟨rest, hdrop.symm⟩
    refine ⟨offset, hoffset, List.IsPrefix.trans ?_ hbytes, hbytes⟩
    have hline : ascii " 0 obj\n" = ascii " 0 obj" ++ ascii "\n" := rfl
    simp only [NumberedObject.bytes, Pdf.ascii_append, hline, List.append_assoc]
    rw [← List.append_assoc]
    exact List.prefix_append _ _
  case size =>
    have hperm := Document.numbers_perm h stamp
    have hlast : 2 * r.pages.length + 7 ∈
        (r.file d.config stamp).objects.map NumberedObject.number := by
      rw [hperm.mem_iff, List.mem_range'_1]
      omega
    obtain ⟨o, ho, hnumber⟩ := List.mem_map.mp hlast
    refine ⟨_, Pdf.nat?_nat _, fun o ho => (hwell.bounds o ho).2, o, ho, ?_⟩
    rw [hnumber, Document.size_eq h]
  case streams =>
    intro o ho data hdata
    have hread := hwell.fetch? ho (by rw [hdata]; trivial)
    refine ⟨Pdf.streamData?_bytes hdata (Rendering.unended_of_stream ho hdata), ?_, ?_⟩
    · rw [hdata]
      exact Pdf.nat?_nat data.length
    · rw [hread, hdata]
      rfl

/-- Two pages: the second one gets its numbers after the page tree. -/
theorem file_navigable_sample : ∃ r start offsets trailer, tallLines.render = .ok r ∧
    r.pages.length = 2 ∧
    Navigable r (r.file tallLines.config ⟨⟨"20240229235959", 3600⟩, [1, 200]⟩) start offsets
      trailer := by
  obtain ⟨r, hr, hlen⟩ := Document.exists_of_length_pages (d := tallLines) (n := 2)
    (by decide +kernel)
  obtain ⟨start, offsets, trailer, hread⟩ := file_navigable tallLines r _ hr
  exact ⟨r, start, offsets, trailer, hr, hlen, hread⟩

end Typesetter
