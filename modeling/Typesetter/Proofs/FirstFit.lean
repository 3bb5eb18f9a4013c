import Mathlib.Data.List.SplitBy
import Typesetter.Layout

/-! # First-fit line breaking

The lines of a paragraph deal out its clusters greedily. The law is stated on the clusters of each
line and their measures, not on the loop that places them. -/
namespace Typesetter
open Numeric (Binary Single)

abbrev Cluster := List Word

/-- Words cut in front of every stretchable word but the first, and nowhere else. -/
structure Clustering (words : List Word) (cs : List Cluster) : Prop where
  flatten : cs.flatten = words
  glued : ∀ k ∈ cs, ∃ w rest, k = w :: rest ∧ ∀ v ∈ rest, v.stretchable = false
  spaced : ∀ k ∈ cs.tail, ∃ w rest, k = w :: rest ∧ w.stretchable = true

/-- A running sum of the gaps in front of words and of their widths. -/
def extent (start : Single) (words : List Word) : Single :=
  words.foldl (fun sum w => sum + (w.offset + w.width)) start

/-- The width of a line that some words fill; there is no gap in front of the first. -/
def lineWidth : List Word → Single
  | [] => 0
  | w :: rest => extent (0 + (0 + w.width)) rest

/-- Words as they stand on a line of their own: only the first is changed. -/
inductive Opens : List Word → List Word → Prop where
  | nothing : Opens [] []
  | word (w : Word) (rest : List Word) :
    Opens (w :: rest) ({ w with offset := 0, stretchable := false } :: rest)

/-- The clusters of each line in turn. A cluster joins a line only if it fits or nothing stands
there yet, and starts a new one only if it did not fit the line before. A cluster is measured with
the gap in front of it, in a sum that starts at negative zero. -/
structure FirstFit (area : Single) (words : List Word) (groups : List (List Cluster))
    (lines : List Line) : Prop where
  clustering : Clustering words groups.flatten
  bodies : List.Forall₂ (fun g l => Opens g.flatten l.words.toList) groups lines
  starts : ∀ g ∈ groups.tail, ∃ w rest, g.flatten = w :: rest ∧ w.stretchable = true
  fits : ∀ g ∈ groups, ∀ before k after, g = before ++ k :: after → before ≠ [] →
    ¬ area < lineWidth before.flatten + extent (-0) k
  full : groups.IsChain fun g next =>
    ∃ k rest, next = k :: rest ∧ area < lineWidth g.flatten + extent (-0) k
  inhabited : words ≠ [] → ∀ l ∈ lines, l.words ≠ #[]
  single : words = [] → lines = [{}]
  width : ∀ l ∈ lines, l.width = extent 0 l.words.toList
  height : ∀ l ∈ lines, l.height = l.words.toList.foldl (fun h w => max h w.size) 0

namespace Line

def pushAll (l : Line) (words : List Word) : Line := words.foldl push l

def ofClusters (cs : List Cluster) : Line := pushAll {} (atLineStart cs.flatten)

end Line

/-! ## Clusters -/

theorem glued_of_isChain {w : Word} {rest : List Word}
    (h : (w :: rest).IsChain fun _ v => !v.stretchable) : ∀ v ∈ rest, v.stretchable = false := by
  induction rest generalizing w with
  | nil => simp
  | cons v rest ih =>
    obtain ⟨hv, hrest⟩ := List.isChain_cons_cons.mp h
    exact List.forall_mem_cons.mpr ⟨by simpa using hv, ih hrest⟩

theorem spaced_of_isChain {k : Cluster} {cs : List Cluster}
    (h : (k :: cs).IsChain fun a b =>
      ∃ (_ : a ≠ []) (hb : b ≠ []), (!(b.head hb).stretchable) = false) :
    ∀ m ∈ cs, ∃ w rest, m = w :: rest ∧ w.stretchable = true := by
  induction cs generalizing k with
  | nil => simp
  | cons m cs ih =>
    obtain ⟨⟨_, hm, hs⟩, hrest⟩ := List.isChain_cons_cons.mp h
    obtain ⟨w, rest, rfl⟩ := List.exists_cons_of_ne_nil hm
    exact List.forall_mem_cons.mpr ⟨⟨w, rest, rfl, by simpa using hs⟩, ih hrest⟩

theorem clusters_clustering (words : List Word) : Clustering words (clusters words) := by
  constructor
  case flatten => exact List.flatten_splitBy _ _
  case glued =>
    intro k hk
    obtain ⟨w, rest, rfl⟩ := List.exists_cons_of_ne_nil (List.ne_nil_of_mem_splitBy hk)
    exact ⟨w, rest, rfl, glued_of_isChain (List.isChain_of_mem_splitBy hk)⟩
  case spaced =>
    have hc := List.isChain_getLast_head_splitBy (fun _ w : Word => !w.stretchable) words
    change List.IsChain _ (clusters words) at hc
    cases h : clusters words with
    | nil => simp
    | cons k cs =>
      rw [h] at hc
      exact spaced_of_isChain hc

theorem Clustering.ne_nil {words : List Word} {cs : List Cluster} (h : Clustering words cs) :
    ∀ k ∈ cs, k ≠ [] := by
  intro k hk
  obtain ⟨w, rest, rfl, _⟩ := h.glued k hk
  exact List.cons_ne_nil w rest

/-! ## Lines of clusters -/

theorem atLineStart_append {words : List Word} (h : words ≠ []) (more : List Word) :
    atLineStart (words ++ more) = atLineStart words ++ more := by
  obtain ⟨w, rest, rfl⟩ := List.exists_cons_of_ne_nil h
  rfl

theorem atLineStart_eq_nil_iff {words : List Word} : atLineStart words = [] ↔ words = [] := by
  cases words <;> simp [atLineStart]

namespace Line

theorem words_pushAll (l : Line) (words : List Word) :
    (l.pushAll words).words = l.words ++ words := by
  induction words generalizing l with
  | nil => simp [pushAll]
  | cons w rest ih =>
    have hp := ih (l.push w)
    simp only [pushAll, List.foldl_cons] at hp ⊢
    rw [hp]
    simp [push]

theorem toList_words_ofClusters (cs : List Cluster) :
    (ofClusters cs).words.toList = atLineStart cs.flatten := by
  simp [ofClusters, words_pushAll]

theorem words_ofClusters_eq_empty_iff {cs : List Cluster} (h : ∀ k ∈ cs, k ≠ []) :
    (ofClusters cs).words = #[] ↔ cs = [] := by
  rw [← Array.toList_eq_nil_iff, toList_words_ofClusters, atLineStart_eq_nil_iff]
  constructor
  · intro hf
    rw [List.eq_nil_iff_forall_not_mem]
    exact fun k hk => h k hk (List.flatten_eq_nil_iff.mp hf k hk)
  · rintro rfl
    rfl

theorem ofClusters_concat {cs : List Cluster} (h : ∀ k ∈ cs, k ≠ []) (k : Cluster) :
    ofClusters (cs ++ [k]) =
      (ofClusters cs).pushAll (if cs = [] then atLineStart k else k) := by
  by_cases hcs : cs = []
  · simp [hcs, ofClusters, pushAll, atLineStart]
  · have hf : cs.flatten ≠ [] := by
      intro hf
      obtain ⟨m, rest, rfl⟩ := List.exists_cons_of_ne_nil hcs
      exact h m List.mem_cons_self (List.flatten_eq_nil_iff.mp hf m List.mem_cons_self)
    simp [hcs, ofClusters, pushAll, atLineStart_append hf]

end Line

/-! ## Measures -/

theorem extent_neg_zero (k : Cluster) : extent (-0) k = clusterWidth k := by
  rw [clusterWidth, Binary.sum, List.foldl_map]
  rfl

theorem opens_atLineStart (words : List Word) : Opens words (atLineStart words) := by
  cases words with
  | nil => exact .nothing
  | cons w rest => exact .word w rest

theorem Opens.eq_atLineStart {words body : List Word} (h : Opens words body) :
    body = atLineStart words := by
  cases h <;> rfl

namespace Line

theorem pushAll_width (l : Line) (words : List Word) :
    (l.pushAll words).width = extent l.width words := by
  induction words generalizing l with
  | nil => rfl
  | cons w rest ih => exact ih (l.push w)

theorem pushAll_height (l : Line) (words : List Word) :
    (l.pushAll words).height = words.foldl (fun h w => max h w.size) l.height := by
  induction words generalizing l with
  | nil => rfl
  | cons w rest ih => exact ih (l.push w)

theorem width_ofClusters (cs : List Cluster) : (ofClusters cs).width = lineWidth cs.flatten := by
  rw [ofClusters, pushAll_width]
  cases cs.flatten <;> rfl

end Line

namespace FirstFit
variable {area : Single} {words : List Word} {groups : List (List Cluster)} {lines : List Line}

theorem map_words (h : FirstFit area words groups lines) :
    lines.map (fun l => l.words.toList) = groups.map fun g => atLineStart g.flatten := by
  refine List.forall₂_eq_eq_eq ▸ ?_
  rw [List.forall₂_map_left_iff, List.forall₂_map_right_iff]
  exact h.bodies.flip.imp fun l g hl => hl.eq_atLineStart

theorem measured (h : FirstFit area words groups lines) :
    ∀ l ∈ lines, l = Line.pushAll {} l.words.toList := by
  intro l hl
  have hwidth := (h.width l hl).trans (Line.pushAll_width {} l.words.toList).symm
  have hheight := (h.height l hl).trans (Line.pushAll_height {} l.words.toList).symm
  have hwords : (Line.pushAll {} l.words.toList).words = l.words := by
    simp [Line.words_pushAll]
  generalize Line.pushAll {} l.words.toList = pushed at hwidth hheight hwords ⊢
  obtain ⟨ws, width, height⟩ := l
  obtain ⟨ws', width', height'⟩ := pushed
  simp_all

end FirstFit

/-! ## Dealing out clusters -/

structure Deal where
  finished : List (List Cluster)
  current : List Cluster

namespace Deal

def groups (d : Deal) : List (List Cluster) := d.finished ++ [d.current]

/-- The greedy step on clusters alone. -/
def next (area : Single) (d : Deal) (k : Cluster) : Deal :=
  if d.current ≠ [] ∧ area < (Line.ofClusters d.current).width + clusterWidth k then
    ⟨d.finished ++ [d.current], [k]⟩
  else ⟨d.finished, d.current ++ [k]⟩

/-- Only the line before any cluster is empty, and every break so far was forced. -/
structure Greedy (area : Single) (d : Deal) : Prop where
  solid : ∀ g ∈ d.groups, ∀ k ∈ g, k ≠ []
  finished : ∀ g ∈ d.finished, g ≠ []
  started : d.finished ≠ [] → d.current ≠ []
  fits : ∀ g ∈ d.groups, ∀ before k after, g = before ++ k :: after → before ≠ [] →
    ¬ area < (Line.ofClusters before).width + clusterWidth k
  full : d.groups.IsChain fun g next =>
    ∃ k rest, next = k :: rest ∧ area < (Line.ofClusters g).width + clusterWidth k

theorem greedy_empty (area : Single) : Greedy area ⟨[], []⟩ := by
  constructor
  · simp [groups]
  · simp
  · simp
  · intro g hg before k after hk
    obtain rfl : g = [] := by simpa [groups] using hg
    simp at hk
  · exact List.isChain_singleton _

theorem flatten_groups_next (area : Single) (d : Deal) (k : Cluster) :
    (d.next area k).groups.flatten = d.groups.flatten ++ [k] := by
  unfold next
  split <;> simp [groups]

theorem fits_concat {area : Single} {g : List Cluster} {m : Cluster}
    (hg : ∀ before k after, g = before ++ k :: after → before ≠ [] →
      ¬ area < (Line.ofClusters before).width + clusterWidth k)
    (hm : g ≠ [] → ¬ area < (Line.ofClusters g).width + clusterWidth m) :
    ∀ before k after, g ++ [m] = before ++ k :: after → before ≠ [] →
      ¬ area < (Line.ofClusters before).width + clusterWidth k := by
  intro before k after h hb
  rcases List.eq_nil_or_concat after with rfl | ⟨init, last, rfl⟩
  · obtain ⟨rfl, hk⟩ := List.append_inj' h rfl
    obtain rfl : m = k := by simpa using hk
    exact hm hb
  · have h' : g ++ [m] = (before ++ k :: init) ++ [last] := by simpa using h
    exact hg before k init (List.append_inj' h' rfl).1 hb

theorem Greedy.break {area : Single} {d : Deal} (h : Greedy area d) {k : Cluster} (hk : k ≠ [])
    (hne : d.current ≠ []) (ha : area < (Line.ofClusters d.current).width + clusterWidth k) :
    Greedy area ⟨d.finished ++ [d.current], [k]⟩ := by
  constructor
  · refine List.forall_mem_append.mpr ⟨h.solid, ?_⟩
    simpa using hk
  · refine List.forall_mem_append.mpr ⟨h.finished, ?_⟩
    simpa using hne
  · simp
  · refine List.forall_mem_append.mpr ⟨h.fits, List.forall_mem_singleton.mpr ?_⟩
    exact fits_concat (g := []) (by simp) (by simp)
  · refine List.isChain_append.mpr ⟨h.full, List.isChain_singleton _, ?_⟩
    intro g hg next hnext
    obtain rfl : d.current = g := by simpa [groups] using hg
    obtain rfl : [k] = next := by simpa using hnext
    exact ⟨k, [], rfl, ha⟩

theorem Greedy.join {area : Single} {d : Deal} (h : Greedy area d) {k : Cluster} (hk : k ≠ [])
    (hfit : d.current ≠ [] → ¬ area < (Line.ofClusters d.current).width + clusterWidth k) :
    Greedy area ⟨d.finished, d.current ++ [k]⟩ := by
  obtain ⟨hsolid, hcurrent⟩ := List.forall_mem_append.mp h.solid
  obtain ⟨hfits, hlast⟩ := List.forall_mem_append.mp h.fits
  constructor
  · refine List.forall_mem_append.mpr ⟨hsolid, List.forall_mem_singleton.mpr ?_⟩
    refine List.forall_mem_append.mpr ⟨List.forall_mem_singleton.mp hcurrent, ?_⟩
    simpa using hk
  · exact h.finished
  · simp
  · refine List.forall_mem_append.mpr ⟨hfits, List.forall_mem_singleton.mpr ?_⟩
    exact fits_concat (List.forall_mem_singleton.mp hlast) hfit
  · obtain ⟨hf, _, hl⟩ := List.isChain_append.mp h.full
    refine List.isChain_append.mpr ⟨hf, List.isChain_singleton _, ?_⟩
    intro g hg next hnext
    obtain rfl : d.current ++ [k] = next := by simpa using hnext
    -- A line follows a finished one only with a cluster on it, and keeps its first cluster.
    have hne := h.started (by rintro hf; simp [hf] at hg)
    obtain ⟨m, rest, hm, ha⟩ := hl g hg d.current (by simp)
    exact ⟨m, rest ++ [k], by simp [hm], ha⟩

theorem greedy_next {area : Single} {d : Deal} (h : Greedy area d) {k : Cluster} (hk : k ≠ []) :
    Greedy area (d.next area k) := by
  unfold next
  split
  · rename_i hbreak
    exact h.break hk hbreak.1 hbreak.2
  · rename_i hjoin
    exact h.join hk fun hne ha => hjoin ⟨hne, ha⟩

end Deal

/-! ## The loop over clusters -/

namespace Block

def dealt (alignment : Alignment) (size indent : Single) (d : Deal) : Block where
  alignment := alignment
  size := size
  indent := indent
  lines := (d.groups.map Line.ofClusters).toArray
  index := d.finished.length

theorem pushAll?_last (b : Block) (init : List Line) (l : Line)
    (hl : b.lines = (init ++ [l]).toArray) (hi : b.index = init.length) (words : List Word) :
    b.pushAll? words = some { b with lines := (init ++ [l.pushAll words]).toArray } := by
  induction words generalizing b l with
  | nil => simp [pushAll?, Line.pushAll, ← hl]
  | cons w rest ih =>
    have hlt : b.index < b.lines.size := by simp [hl, hi]
    have hm : b.lines.modify b.index (·.push w) = (init ++ [l.push w]).toArray := by
      apply Array.toList_inj.mp
      rw [Array.toList_modify, hl, hi]
      simp [List.modify_eq_take_cons_drop]
    have hp : b.push? w = some { b with lines := (init ++ [l.push w]).toArray } := by
      simp [push?, hlt, hm]
    have hr := ih { b with lines := (init ++ [l.push w]).toArray } (l.push w) rfl hi
    simp only [pushAll?, List.foldlM_cons, hp, Option.bind_eq_bind, Option.bind_some] at hr ⊢
    rw [hr]
    simp [Line.pushAll]

variable (alignment : Alignment) (size indent : Single)

theorem current?_dealt (d : Deal) :
    (dealt alignment size indent d).current? = some (Line.ofClusters d.current) := by
  simp [current?, dealt, Deal.groups]

theorem next_dealt (d : Deal) :
    (dealt alignment size indent d).next =
      dealt alignment size indent ⟨d.finished ++ [d.current], []⟩ := by
  simp [next, dealt, Deal.groups, Line.ofClusters, Line.pushAll, atLineStart]

theorem overflows_dealt (area : Single) {d : Deal} (h : ∀ k ∈ d.current, k ≠ []) (k : Cluster) :
    overflows area (Line.ofClusters d.current) k = true ↔
      d.current ≠ [] ∧ area < (Line.ofClusters d.current).width + clusterWidth k := by
  have he := Line.words_ofClusters_eq_empty_iff h
  simp [overflows, ← he]

theorem pushAll?_dealt {d : Deal} (h : ∀ k ∈ d.current, k ≠ []) (k : Cluster) :
    (dealt alignment size indent d).pushAll?
        (if (Line.ofClusters d.current).words.isEmpty then atLineStart k else k) =
      some (dealt alignment size indent ⟨d.finished, d.current ++ [k]⟩) := by
  have he : (Line.ofClusters d.current).words.isEmpty = true ↔ d.current = [] := by
    rw [Array.isEmpty_iff, Line.words_ofClusters_eq_empty_iff h]
  have hp := pushAll?_last (dealt alignment size indent d) (d.finished.map Line.ofClusters)
    (Line.ofClusters d.current) (by simp [dealt, Deal.groups]) (by simp [dealt])
  rw [hp]
  simp only [dealt, Deal.groups, List.map_append, List.map_cons, List.map_nil,
    Line.ofClusters_concat h, he]

/-- One round of the loop is one greedy step. -/
theorem place?_dealt (area : Single) {d : Deal} (h : ∀ k ∈ d.current, k ≠ []) (k : Cluster) :
    (dealt alignment size indent d).place? area k =
      some (dealt alignment size indent (d.next area k)) := by
  simp only [place?, current?_dealt, Option.bind_eq_bind, Option.bind_some]
  by_cases ho : overflows area (Line.ofClusters d.current) k = true
  · have hn := (overflows_dealt area h k).mp ho
    rw [if_pos ho, next_dealt, current?_dealt]
    simp only [Option.bind_some]
    rw [pushAll?_dealt alignment size indent (by simp)]
    simp [Deal.next, hn]
  · have hn := fun hc => ho ((overflows_dealt area h k).mpr hc)
    rw [if_neg ho, current?_dealt]
    simp only [Option.bind_some]
    rw [pushAll?_dealt alignment size indent h]
    simp only [Deal.next, if_neg hn]

theorem foldlM_place?_dealt (area : Single) {d : Deal} (h : d.Greedy area) (cs : List Cluster)
    (hcs : ∀ k ∈ cs, k ≠ []) :
    ∃ e : Deal, cs.foldlM (place? area) (dealt alignment size indent d) =
        some (dealt alignment size indent e) ∧
      e.Greedy area ∧ e.groups.flatten = d.groups.flatten ++ cs := by
  induction cs generalizing d with
  | nil => exact ⟨d, rfl, h, by simp⟩
  | cons k cs ih =>
    have hk := hcs k List.mem_cons_self
    obtain ⟨e, hfold, hgreedy, hflat⟩ := ih (Deal.greedy_next h hk)
      fun m hm => hcs m (List.mem_cons_of_mem _ hm)
    refine ⟨e, ?_, hgreedy, ?_⟩
    · rw [List.foldlM_cons,
        place?_dealt alignment size indent area (h.solid d.current (by simp [Deal.groups])) k]
      exact hfold
    · rw [hflat, Deal.flatten_groups_next]
      simp

end Block

/-! ## The law -/

theorem Clustering.starts {words : List Word} {groups : List (List Cluster)}
    (h : Clustering words groups.flatten) (hne : ∀ g ∈ groups, g ≠ []) :
    ∀ g ∈ groups.tail, ∃ w rest, g.flatten = w :: rest ∧ w.stretchable = true := by
  intro g hg
  cases groups with
  | nil => simp at hg
  | cons first groups =>
    have hg : g ∈ groups := by simpa using hg
    obtain ⟨m, tail, rfl⟩ := List.exists_cons_of_ne_nil (hne first List.mem_cons_self)
    obtain ⟨k, more, rfl⟩ := List.exists_cons_of_ne_nil (hne g (List.mem_cons_of_mem _ hg))
    have hk : k ∈ ((m :: tail) :: groups).flatten.tail := by
      simp only [List.flatten_cons, List.cons_append, List.tail_cons]
      exact List.mem_append_right _ (List.mem_flatten.mpr ⟨_, hg, List.mem_cons_self⟩)
    obtain ⟨w, rest, rfl, hs⟩ := h.spaced k hk
    exact ⟨w, rest ++ more.flatten, by simp, hs⟩

namespace Deal

theorem Greedy.ne_nil {area : Single} {d : Deal} (h : d.Greedy area)
    (hflat : d.groups.flatten ≠ []) : ∀ g ∈ d.groups, g ≠ [] := by
  intro g hg
  rcases List.mem_append.mp hg with hf | hc
  · exact h.finished g hf
  · obtain rfl : g = d.current := by simpa using hc
    intro hnil
    have hfin : d.finished = [] := by
      by_contra hfin
      exact h.started hfin hnil
    exact hflat (by simp [groups, hfin, hnil])

theorem Greedy.groups_eq_of_flatten {area : Single} {d : Deal} (h : d.Greedy area)
    (hflat : d.groups.flatten = []) : d.groups = [[]] := by
  have hnil := List.flatten_eq_nil_iff.mp hflat
  have hfin : d.finished = [] := by
    rw [List.eq_nil_iff_forall_not_mem]
    exact fun g hg => h.finished g hg (hnil g (List.mem_append_left _ hg))
  have hcur : d.current = [] := hnil d.current (by simp [groups])
  simp [groups, hfin, hcur]

end Deal

theorem Deal.Greedy.firstFit {area : Single} {words : List Word} {d : Deal} (h : d.Greedy area)
    (hflat : d.groups.flatten = clusters words) :
    FirstFit area words d.groups (d.groups.map Line.ofClusters) := by
  have hc : Clustering words d.groups.flatten := hflat ▸ clusters_clustering words
  constructor
  case clustering => exact hc
  case bodies =>
    rw [List.forall₂_map_right_iff, List.forall₂_same]
    intro g _
    rw [Line.toList_words_ofClusters]
    exact opens_atLineStart g.flatten
  case starts =>
    by_cases hnil : d.groups.flatten = []
    · simp [h.groups_eq_of_flatten hnil]
    · exact hc.starts (h.ne_nil hnil)
  case fits =>
    intro g hg before k after hk hne
    rw [← Line.width_ofClusters, extent_neg_zero]
    exact h.fits g hg before k after hk hne
  case full =>
    refine h.full.imp fun g next hnext => ?_
    obtain ⟨k, rest, rfl, ha⟩ := hnext
    exact ⟨k, rest, rfl, by rwa [← Line.width_ofClusters, extent_neg_zero]⟩
  case inhabited =>
    intro hw l hl he
    obtain ⟨g, hg, rfl⟩ := List.mem_map.mp hl
    rw [Line.words_ofClusters_eq_empty_iff (h.solid g hg)] at he
    refine h.ne_nil (fun hnil => hw ?_) g hg he
    rw [← hc.flatten, hnil]
    rfl
  case single =>
    rintro rfl
    rw [h.groups_eq_of_flatten hflat]
    rfl
  case width =>
    intro l hl
    obtain ⟨g, _, rfl⟩ := List.mem_map.mp hl
    rw [Line.toList_words_ofClusters]
    exact Line.pushAll_width {} _
  case height =>
    intro l hl
    obtain ⟨g, _, rfl⟩ := List.mem_map.mp hl
    rw [Line.toList_words_ofClusters]
    exact Line.pushAll_height {} _

theorem Block.placeAll?_firstFit (alignment : Alignment) (size indent area : Single)
    (words : List Word) :
    ∃ b groups, placeAll? area { alignment, size, indent } words = some b ∧
      b.alignment = alignment ∧ b.size = size ∧ b.indent = indent ∧
      b.index + 1 = b.lines.size ∧ FirstFit area words groups b.lines.toList := by
  obtain ⟨d, hfold, hgreedy, hflat⟩ := foldlM_place?_dealt alignment size indent area
    (Deal.greedy_empty area) (clusters words) (clusters_clustering words).ne_nil
  refine ⟨dealt alignment size indent d, d.groups, hfold, rfl, rfl, rfl, ?_, ?_⟩
  · simp [dealt, Deal.groups]
  · exact hgreedy.firstFit (by simpa [Deal.groups] using hflat)

/-- The lines of a paragraph before they are justified, for whatever area there is to write in:
greedy first fit over clusters, with the last line as the current one. -/
theorem paragraph_lines_first_fit (p : Paragraph) (size indent area : Single) :
    ∃ b groups, Block.placeAll? area { alignment := p.alignment, size, indent } p.words = some b ∧
      (∀ c : Config, c.normalFontSize = size → c.indent? p = some indent →
        c.textWidth - indent = area → c.layOut p = .ok (b.justify area)) ∧
      b.alignment = p.alignment ∧ b.size = size ∧ b.indent = indent ∧
      b.index + 1 = b.lines.size ∧ FirstFit area p.words groups b.lines.toList := by
  obtain ⟨b, groups, hplace, hrest⟩ :=
    Block.placeAll?_firstFit p.alignment size indent area p.words
  refine ⟨b, groups, hplace, ?_, hrest⟩
  rintro c rfl hindent rfl
  simp [Config.layOut, hindent, hplace]

def gluedWords : Paragraph where
  runs := #[⟨"one, two", .regular, 12⟩, ⟨"s", .bold, 12⟩]

theorem paragraph_lines_first_fit_gluedWords :
    let c : Config := { pageWidth := 60, pageMargin := 15 }
    ∃ (b : Block) (groups : List (List Cluster)), c.layOut gluedWords = .ok (b.justify 30) ∧
      b.lines.toList.map (fun l => l.words.toList.map Word.text) = [["one,"], ["two", "s"]] ∧
      FirstFit 30 gluedWords.words groups b.lines.toList := by
  obtain ⟨b, groups, hplace, hlayOut, _, _, _, _, hfit⟩ :=
    paragraph_lines_first_fit gluedWords 12 0 30
  have hlines : (Block.placeAll? 30 { alignment := gluedWords.alignment, size := 12, indent := 0 }
      gluedWords.words).map (fun b => b.lines.toList.map fun l => l.words.toList.map Word.text) =
      some [["one,"], ["two", "s"]] := by decide +kernel
  rw [hplace] at hlines
  refine ⟨b, groups, hlayOut _ (by decide) (by decide) (by decide), ?_, hfit⟩
  simpa using hlines

end Typesetter
