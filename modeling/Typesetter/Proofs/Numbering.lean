import Mathlib.Data.List.Nodup
import Mathlib.Data.List.Perm.Subperm
import Typesetter.Proofs.Rendering

/-! # Object numbers

The press takes numbers for fonts, for the first page, for the page tree and for every later page
as it comes to them, and the file takes two more at its end. Over all objects these are the numbers
from one on, each once, however many pages there are. -/
namespace Typesetter
open Pdf (NumberedObject)

/-- The number of a page, counted from zero. The page tree is numbered behind the first page. -/
def pageNumber (k : Nat) : Nat := if k = 0 then 5 else 2 * k + 6

namespace Press
variable {p : Press}

/-- What feeding and single lines keep is kept over whole documents. -/
theorem writeBlocks_induction {P : Press → Prop} (c : Config)
    (hfeed : ∀ p height, P p → P (p.feed height)) (hline : ∀ b p l, P p → P (writeLine b p l))
    (blocks : List Block) (h : P p) : P (blocks.foldl (writeBlock c) p) := by
  have hwrite : ∀ (b : Block) (lines : List Line) (p : Press), P p →
      P (lines.foldl (writeLine b) p) := by
    intro b lines
    induction lines with
    | nil => exact fun _ hp => hp
    | cons l lines ih => exact fun p hp => ih _ (hline b p l hp)
  induction blocks generalizing p with
  | nil => exact h
  | cons b blocks ih =>
    refine ih (hfeed _ _ ?_)
    rw [write, ← Array.foldl_toList]
    exact hwrite b _ p h

def pageNumbers (p : Press) : List (Nat × Nat) :=
  p.pages.toList.map fun page => (page.number, page.contentNumber)

structure Numbered (p : Press) : Prop where
  next : p.nextNumber = 2 * p.pages.size + 6
  pages : p.pageNumbers = (List.range p.pages.size).map fun k => (pageNumber k, pageNumber k + 1)

theorem start_numbered (c : Config) : Numbered (start c) := ⟨rfl, rfl⟩

theorem Numbered.feed (h : Numbered p) (height : Numeric.Single) : Numbered (p.feed height) :=
  ⟨h.next, h.pages⟩

theorem Numbered.newPage (h : Numbered p) : Numbered p.newPage := by
  have hsize : p.newPage.pages.size = p.pages.size + 1 := by simp [Press.pages, Press.newPage]
  have hpos : p.pages.size ≠ 0 := by simp [Press.pages]
  have hnumbers : p.newPage.pageNumbers =
      p.pageNumbers ++ [(p.nextNumber, p.nextNumber + 1)] := by
    simp [pageNumbers, Press.pages, Press.newPage, Head.openPage, Head.bump]
  constructor
  · rw [hsize]
    change p.nextNumber + 2 = _
    rw [h.next]
    omega
  · rw [hnumbers, hsize, List.range_succ, List.map_append, ← h.pages, h.next]
    simp [pageNumber, hpos]

theorem Numbered.writeLine (h : Numbered p) (b : Block) (l : Line) :
    Numbered (writeLine b p l) := by
  have hroom : Numbered (p.roomFor b l) := by
    unfold roomFor makeRoom
    split
    · exact h.newPage
    · exact h
  have hsize := size_pages_writeLine b p l
  have hnext : (Press.writeLine b p l).nextNumber = (p.roomFor b l).nextNumber := by
    unfold Press.writeLine
    dsimp only
    split <;> rfl
  have hnumbers : (Press.writeLine b p l).pageNumbers = (p.roomFor b l).pageNumbers := by
    unfold Press.writeLine
    dsimp only
    split <;> simp [pageNumbers, Press.pages, roomFor, Press.feed, print, goTo]
  exact ⟨by rw [hnext, hsize, hroom.next], by rw [hnumbers, hsize, hroom.pages]⟩

end Press

/-! ## The objects of a file -/

theorem Document.numbered {d : Document} {r : Rendering} (h : d.render = .ok r) :
    r.pageTree = 7 ∧ Press.SetUp d.config r.press ∧ Press.Numbered r.press := by
  obtain ⟨blocks, -, rfl⟩ := (d.render_eq_ok_iff r).mp h
  refine ⟨rfl, ?_, ?_⟩
  · exact Press.writeBlocks_induction d.config (fun _ _ hp => hp.feed _)
      (fun b _ l hp => hp.writeLine b l) blocks (Press.start_setUp d.config)
  · exact Press.writeBlocks_induction d.config (fun _ _ hp => hp.feed _)
      (fun b _ l hp => hp.writeLine b l) blocks (Press.start_numbered d.config)

/-- The numbers of the objects of a file in the order of the file, for a number of pages. -/
def objectNumbers (pages : Nat) : List Nat :=
  [1, 2, 3, 4] ++ (List.range pages).map pageNumber
    ++ (List.range pages).map (fun k => pageNumber k + 1)
    ++ [7, 2 * pages + 6, 2 * pages + 7]

theorem pageNumber_injective : Function.Injective pageNumber := by
  intro a b hab
  unfold pageNumber at hab
  split at hab <;> split at hab <;> omega

theorem pageNumber_ne_succ (a b : Nat) : pageNumber a ≠ pageNumber b + 1 := by
  unfold pageNumber
  split <;> split <;> omega

theorem pageNumber_bounds {k pages : Nat} (h : k < pages) :
    5 ≤ pageNumber k ∧ pageNumber k < 2 * pages + 5 ∧ pageNumber k ≠ 6 ∧ pageNumber k ≠ 7 := by
  unfold pageNumber
  split <;> omega

theorem objectNumbers_nodup {pages : Nat} (hpages : pages ≠ 0) :
    (objectNumbers pages).Nodup := by
  -- The first page has number 5 and the others even ones from 8 on; contents follow their page.
  have hnumbers : ((List.range pages).map pageNumber).Nodup :=
    List.nodup_range.map pageNumber_injective
  have hcontents : ((List.range pages).map fun k => pageNumber k + 1).Nodup :=
    List.nodup_range.map fun a b hab => pageNumber_injective (Nat.succ.inj hab)
  have hends : [7, 2 * pages + 6, 2 * pages + 7].Nodup := by
    simp only [List.nodup_cons, List.mem_cons, List.not_mem_nil, or_false, not_or,
      not_false_eq_true, List.nodup_nil, and_true]
    omega
  have hfirst : List.Disjoint [1, 2, 3, 4] ((List.range pages).map pageNumber) := by
    intro n hn hmem
    obtain ⟨k, hk, rfl⟩ := List.mem_map.mp hmem
    have := pageNumber_bounds (List.mem_range.mp hk)
    simp only [List.mem_cons, List.not_mem_nil, or_false] at hn
    omega
  have hsecond : List.Disjoint ([1, 2, 3, 4] ++ (List.range pages).map pageNumber)
      ((List.range pages).map fun k => pageNumber k + 1) := by
    intro n hn hmem
    obtain ⟨k, hk, rfl⟩ := List.mem_map.mp hmem
    have := pageNumber_bounds (List.mem_range.mp hk)
    simp only [List.mem_append, List.mem_cons, List.mem_map, List.not_mem_nil, or_false] at hn
    rcases hn with hn | ⟨j, -, hj⟩
    · omega
    · exact pageNumber_ne_succ j k hj
  have hlast : List.Disjoint ([1, 2, 3, 4] ++ (List.range pages).map pageNumber ++
      (List.range pages).map fun k => pageNumber k + 1) [7, 2 * pages + 6, 2 * pages + 7] := by
    intro n hn hmem
    simp only [List.mem_append, List.mem_cons, List.mem_map, List.mem_range, List.not_mem_nil,
      or_false] at hn hmem
    rcases hn with (hn | ⟨k, hk, rfl⟩) | ⟨k, hk, rfl⟩
    · omega
    · have := pageNumber_bounds hk
      omega
    · have := pageNumber_bounds hk
      omega
  exact ((List.Nodup.append (by decide) hnumbers hfirst).append hcontents hsecond).append hends
    hlast

theorem objectNumbers_perm {pages : Nat} (hpages : pages ≠ 0) :
    (objectNumbers pages).Perm (List.range' 1 (2 * pages + 7)) := by
  have hsubset : objectNumbers pages ⊆ List.range' 1 (2 * pages + 7) := by
    intro n hn
    simp only [objectNumbers, List.mem_append, List.mem_cons, List.mem_map, List.mem_range,
      List.not_mem_nil, or_false] at hn
    rw [List.mem_range'_1]
    rcases hn with ((hn | ⟨k, hk, rfl⟩) | ⟨k, hk, rfl⟩) | hn
    · omega
    · have := pageNumber_bounds hk
      omega
    · have := pageNumber_bounds hk
      omega
    · omega
  refine (List.subperm_of_subset (objectNumbers_nodup hpages) hsubset).perm_of_length_le ?_
  simp [objectNumbers]
  omega

theorem Document.pages_numbers {d : Document} {r : Rendering} (h : d.render = .ok r) :
    r.pages.map Page.number = (List.range r.pages.length).map pageNumber ∧
      r.pages.map Page.contentNumber =
        (List.range r.pages.length).map fun k => pageNumber k + 1 := by
  have hnumbers := (Document.numbered h).2.2.pages
  have hfirst := congrArg (List.map Prod.fst) hnumbers
  have hsecond := congrArg (List.map Prod.snd) hnumbers
  simp only [Press.pageNumbers, List.map_map, Function.comp_def] at hfirst hsecond
  exact ⟨by simpa [Rendering.pages] using hfirst, by simpa [Rendering.pages] using hsecond⟩

theorem Document.numbers_eq {d : Document} {r : Rendering} (h : d.render = .ok r) (stamp : Stamp) :
    (r.file d.config stamp).objects.map NumberedObject.number = objectNumbers r.pages.length := by
  obtain ⟨htree, hup, hnumbered⟩ := Document.numbered h
  obtain ⟨hpages, hcontents⟩ := Document.pages_numbers h
  have hfonts : r.fontObjects.map NumberedObject.number = [1, 2, 3, 4] := by
    rw [Rendering.fontObjects, hup.fonts]
    rfl
  have hnext : r.press.nextNumber = 2 * r.pages.length + 6 := hnumbered.next
  have hpageObjects : r.pageObjects.map NumberedObject.number = r.pages.map Page.number := by
    simp [Rendering.pageObjects, Function.comp_def]
  have hstreamObjects : r.streamObjects.map NumberedObject.number =
      r.pages.map Page.contentNumber := by
    simp [Rendering.streamObjects, Function.comp_def]
  simp only [Rendering.file, List.map_append, hfonts, hpageObjects, hstreamObjects, hpages,
    hcontents, objectNumbers]
  simp [htree, Press.bump, Head.bump, hnext]

theorem Document.numbers_perm {d : Document} {r : Rendering} (h : d.render = .ok r)
    (stamp : Stamp) :
    ((r.file d.config stamp).objects.map NumberedObject.number).Perm
      (List.range' 1 (2 * r.pages.length + 7)) := by
  rw [Document.numbers_eq h]
  exact objectNumbers_perm (by simp [Rendering.pages, Press.pages])

end Typesetter
