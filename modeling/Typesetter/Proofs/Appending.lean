import Typesetter.Proofs.Numbering
import Typesetter.Proofs.Pagination
import Typesetter.Proofs.ValidConfig

/-! # Appending paragraphs

The press writes on its last page only and hands out each number once. So whatever is appended to a
document, the pages it had keep their numbers and their text, and at most the last of them grows. -/
namespace Typesetter

/-! ## Content -/

namespace Pdf

/-- The data of a stream, or that data with more operators on lines of their own behind it. -/
def Continues (data more : Bytes) : Prop :=
  data = [] ∨ more = data ∨ ∃ rest, more = data ++ ascii "\n" ++ rest

theorem intercalate_append {sep : Bytes} {front back : List Bytes} (hfront : front ≠ [])
    (hback : back ≠ []) : List.intercalate sep (front ++ back) =
      List.intercalate sep front ++ sep ++ List.intercalate sep back := by
  induction front with
  | nil => exact absurd rfl hfront
  | cons line front ih =>
    cases front with
    | nil =>
      obtain ⟨next, rest, rfl⟩ := List.exists_cons_of_ne_nil hback
      simp [List.intercalate, List.intersperse]
    | cons next front =>
      have hrest := ih (List.cons_ne_nil next front)
      simp only [List.cons_append] at hrest ⊢
      rw [List.intercalate_cons_cons, hrest, List.intercalate_cons_cons]
      simp only [List.append_assoc]

theorem continues_contentBytes {operators more : List Operator} (h : operators <+: more) :
    Continues (contentBytes operators) (contentBytes more) := by
  obtain ⟨rest, rfl⟩ := h
  by_cases hoperators : operators = []
  · rw [hoperators]
    exact Or.inl rfl
  · by_cases hrest : rest = []
    · rw [hrest, List.append_nil]
      exact Or.inr (Or.inl rfl)
    · refine Or.inr (Or.inr ⟨contentBytes rest, ?_⟩)
      rw [contentBytes, List.map_append]
      exact intercalate_append (by simpa using hoperators) (by simpa using hrest)

end Pdf

/-! ## Pages -/

/-- A page under the numbers of another that holds all of its operators first. -/
structure Page.Continues (a b : Page) : Prop where
  number : b.number = a.number
  contentNumber : b.contentNumber = a.contentNumber
  content : a.content.toList <+: b.content.toList

theorem Page.Continues.refl (a : Page) : a.Continues a := ⟨rfl, rfl, List.prefix_refl _⟩

theorem Page.Continues.trans {a b c : Page} (h : a.Continues b) (h' : b.Continues c) :
    a.Continues c :=
  ⟨h'.number.trans h.number, h'.contentNumber.trans h.contentNumber, h.content.trans h'.content⟩

namespace Press
variable {p q r : Press}

theorem toList_pages (p : Press) : p.pages.toList = p.finished.toList ++ [p.current] := by
  simp [pages]

/-- The finished pages of a press are kept, its current page is continued, and new pages come
behind it. -/
def Extends (p q : Press) : Prop :=
  ∃ page more, q.pages.toList = p.finished.toList ++ page :: more ∧ p.current.Continues page

theorem Extends.refl (p : Press) : p.Extends p := ⟨p.current, [], p.toList_pages, .refl _⟩

theorem Extends.trans (h : p.Extends q) (h' : q.Extends r) : p.Extends r := by
  obtain ⟨page, more, hpages, hpage⟩ := h
  obtain ⟨page', more', hpages', hpage'⟩ := h'
  rw [toList_pages] at hpages
  rcases List.eq_nil_or_concat more with rfl | ⟨init, last, rfl⟩
  · -- The current page of both is the same one.
    obtain ⟨hfinished, hcurrent⟩ := List.append_inj' hpages rfl
    obtain rfl : q.current = page := List.singleton_inj.mp hcurrent
    exact ⟨page', more', hfinished ▸ hpages', hpage.trans hpage'⟩
  · have hsplit : q.finished.toList ++ [q.current] =
        (p.finished.toList ++ page :: init) ++ [last] := by
      rw [hpages]
      simp
    obtain ⟨hfinished, -⟩ := List.append_inj' hsplit rfl
    refine ⟨page, init ++ page' :: more', ?_, hpage⟩
    rw [hpages', hfinished, List.append_assoc, List.cons_append]

theorem Extends.feed (h : p.Extends q) (height : Numeric.Single) : p.Extends (q.feed height) := h

theorem extends_makeRoom (p : Press) (pitch : Numeric.Single) : p.Extends (p.makeRoom pitch) := by
  unfold makeRoom
  split
  · exact ⟨p.current, [p.newPage.current], by simp [pages, newPage], .refl _⟩
  · exact .refl p

theorem extends_print (p : Press) (operators : List Pdf.Operator) :
    p.Extends (p.print operators) :=
  ⟨(p.print operators).current, [], toList_pages _, rfl, rfl, by simp [print]⟩

theorem extends_writeLine (b : Block) (p : Press) (l : Line) : p.Extends (writeLine b p l) := by
  have hroom := p.extends_makeRoom (lineHeight b l * p.lineSpacing)
  unfold writeLine
  dsimp only
  split
  · exact hroom.feed _
  · exact hroom.trans (extends_print (goTo _ _ _) _)

theorem extends_writeBlocks (c : Config) (p : Press) (blocks : List Block) :
    p.Extends (blocks.foldl (writeBlock c) p) :=
  writeBlocks_induction c (fun _ height h => h.feed height)
    (fun b q l h => h.trans (extends_writeLine b q l)) blocks (.refl p)

end Press

/-! ## Documents -/

namespace Document
variable {c : Config} {a b : Array Paragraph} {part whole : Rendering}

theorem render_append_isOk_iff (c : Config) (a b : Array Paragraph) :
    (∃ whole, (Document.mk c (a ++ b)).render = .ok whole) ↔
      (∃ part, (Document.mk c a).render = .ok part) ∧
        ∃ other, (Document.mk c b).render = .ok other := by
  simp only [render_isOk_iff, Array.mem_append, or_imp, forall_and]

theorem extends_of_render (ha : (Document.mk c a).render = .ok part)
    (hab : (Document.mk c (a ++ b)).render = .ok whole) : part.press.Extends whole.press := by
  obtain ⟨first, hfirst, rfl⟩ := (render_eq_ok_iff _ _).mp ha
  have hpress := (Press.foldlM_writeParagraph_eq_ok_iff c a.toList (Press.start c) _).mpr
    ⟨first, hfirst, rfl⟩
  rw [render_eq, Array.toList_append, List.foldlM_append, hpress] at hab
  cases hrest : b.toList.foldlM (Press.writeParagraph c)
      (first.foldl (Press.writeBlock c) (Press.start c)) with
  | error e =>
    simp [hrest, bind, Except.bind, Except.map] at hab
  | ok q =>
    simp only [hrest, bind, Except.bind, Except.map, Except.ok.injEq] at hab
    obtain ⟨second, -, rfl⟩ := (Press.foldlM_writeParagraph_eq_ok_iff c _ _ _).mp hrest
    rw [← hab]
    exact Press.extends_writeBlocks c _ second

end Document

def Page.streamObject (page : Page) : Pdf.NumberedObject :=
  ⟨page.contentNumber, .stream (Pdf.contentBytes page.content.toList)⟩

namespace Rendering

theorem pageObjects_eq {d : Document} {r : Rendering} (h : d.render = .ok r) :
    r.pageObjects = r.pages.map fun page =>
      ⟨page.number, .page 7 page.contentNumber d.config.pageWidth d.config.pageHeight
        ((Press.new d.config).fonts.map fun f => (f.face, f.number))⟩ := by
  obtain ⟨htree, hup, -⟩ := Document.numbered h
  rw [pageObjects, htree, hup.pageWidth, hup.pageHeight, hup.fonts]

end Rendering

/-- With more paragraphs behind it a document keeps its pages. The objects of all of them stay as
they are, and so do all streams but that of the last page, which keeps its number and its data and
may go on behind them. -/
theorem appending_keeps_pages (c : Config) (a b : Array Paragraph) :
    ((∃ whole, (Document.mk c (a ++ b)).render = .ok whole) ↔
      (∃ part, (Document.mk c a).render = .ok part) ∧
        ∃ other, (Document.mk c b).render = .ok other) ∧
    ∀ part whole, (Document.mk c a).render = .ok part →
      (Document.mk c (a ++ b)).render = .ok whole →
      part.pages.length ≤ whole.pages.length ∧
      (∃ kept last page more, part.pages = kept ++ [last] ∧
        whole.pages = kept ++ page :: more ∧ last.Continues page) ∧
      part.pageObjects <+: whole.pageObjects ∧
      ∃ streams number data data' more,
        part.streamObjects = streams ++ [⟨number, .stream data⟩] ∧
        whole.streamObjects = streams ++ ⟨number, .stream data'⟩ :: more ∧
        Pdf.Continues data data' := by
  refine ⟨Document.render_append_isOk_iff c a b, ?_⟩
  intro part whole ha hab
  obtain ⟨page, more, hwhole, hpage⟩ := Document.extends_of_render ha hab
  have hpart : part.pages = part.press.finished.toList ++ [part.press.current] :=
    part.press.toList_pages
  have hpages : whole.pages = part.press.finished.toList ++ page :: more := hwhole
  refine ⟨?_, ⟨_, _, page, more, hpart, hpages, hpage⟩, ?_, ?_⟩
  · rw [hpart, hpages]
    simp
  · rw [Rendering.pageObjects_eq ha, Rendering.pageObjects_eq hab, hpart, hpages]
    simp [hpage.number, hpage.contentNumber, List.prefix_append_right_inj]
  · have hstreams := congrArg (List.map Page.streamObject) hpart
    have hstreams' := congrArg (List.map Page.streamObject) hpages
    rw [List.map_append, List.map_singleton, Page.streamObject, ← hpage.contentNumber] at hstreams
    rw [List.map_append, List.map_cons] at hstreams'
    exact ⟨_, _, _, _, _, hstreams, hstreams', Pdf.continues_contentBytes hpage.content⟩

/-- A line of normal text still fits below the second of the tall lines. -/
theorem appending_keeps_pages_tallLines :
    let more : Array Paragraph := #[{ runs := #[⟨"end", .regular, 12⟩] }]
    ∃ part whole, tallLines.render = .ok part ∧
      (Document.mk tallLines.config (tallLines.paragraphs ++ more)).render = .ok whole ∧
      part.pages.map (·.content.size) = [6, 6] ∧ whole.pages.map (·.content.size) = [6, 12] ∧
      part.pageObjects <+: whole.pageObjects ∧
      ∃ kept last page, part.pages = kept ++ [last] ∧ whole.pages = kept ++ [page] ∧
        last.Continues page := by
  intro more
  have hpart : tallLines.render.toOption.map (fun r => r.pages.map (·.content.size)) =
      some [6, 6] := by decide +kernel
  have hwhole : (Document.mk tallLines.config (tallLines.paragraphs ++ more)).render.toOption.map
      (fun r => r.pages.map (·.content.size)) = some [6, 12] := by decide +kernel
  cases ha : tallLines.render with
  | error e => simp [ha, Except.toOption] at hpart
  | ok part =>
    cases hab : (Document.mk tallLines.config (tallLines.paragraphs ++ more)).render with
    | error e => simp [hab, Except.toOption] at hwhole
    | ok whole =>
      have hsizes : part.pages.map (·.content.size) = [6, 6] := by
        simpa [ha, Except.toOption] using hpart
      have hsizes' : whole.pages.map (·.content.size) = [6, 12] := by
        simpa [hab, Except.toOption] using hwhole
      obtain ⟨-, ⟨kept, last, page, rest, hkept, hpages, hpage⟩, hobjects, -⟩ :=
        (appending_keeps_pages tallLines.config tallLines.paragraphs more).2 part whole ha hab
      have hrest : rest = [] := by
        have hlength := congrArg List.length hsizes
        have hlength' := congrArg List.length hsizes'
        rw [hkept] at hlength
        rw [hpages] at hlength'
        simp only [List.length_map, List.length_append, List.length_cons,
          List.length_nil] at hlength hlength'
        exact List.eq_nil_of_length_eq_zero (by omega)
      rw [hrest] at hpages
      exact ⟨part, whole, rfl, rfl, hsizes, hsizes', hobjects, kept, last, page, hkept, hpages,
        hpage⟩

end Typesetter
