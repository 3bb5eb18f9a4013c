import Mathlib
import Typesetter.Formatting

/-! # Five registers

Directives of different groups do not touch the same register, so only the order within each group
counts. Three registers keep the last write, the slant only ever goes one way, and indents add up in
any order until a sum is cut off at an end of its range. -/
namespace Typesetter

/-! ## What directives write -/

/-- Directives whose order counts among one another. -/
inductive Directive.Group where
  | weight
  | size
  | fill
  | indent
  deriving DecidableEq

namespace Directive

def group? : Directive → Option Group
  | .bold | .regular => some .weight
  | .large | .normal => some .size
  | .fill | .noFill => some .fill
  | .indent _ => some .indent
  | .italics | .paragraph => none

def weight? : Directive → Option Weight
  | .bold => some .bold
  | .regular => some .regular
  | _ => none

def size? : Directive → Option TypeSize
  | .large => some .large
  | .normal => some .normal
  | _ => none

def fill? : Directive → Option Fill
  | .fill => some .fill
  | .noFill => some .noFill
  | _ => none

def amount? : Directive → Option Indent
  | .indent amount => some amount
  | _ => none

def members (g : Group) (ds : List Directive) : List Directive :=
  ds.filter fun d => d.group? = some g

/-- The directives in another order, but with that of each group. -/
structure Reorders (ds es : List Directive) : Prop where
  perm : es.Perm ds
  groups : ∀ g, members g es = members g ds

def exactSum (ds : List Directive) : Int := ((ds.filterMap amount?).map Indent.levels).sum

end Directive

/-- The last of some values, or the one before them if there are none. -/
def lastWrite {α : Type} (start : α) (writes : List α) : α := writes.getLast?.getD start

/-- A sum from left to right that is cut off at the ends of the range after every term. -/
def saturatingSum (start : Int) (amounts : List Indent) : Int :=
  amounts.foldl (fun n amount => max (-2147483648) (min (n + amount.levels) 2147483647)) start

namespace Formatting

/-- What each register holds after some directives, in terms of those that write to it. -/
structure Follows (f : Formatting) (ds : List Directive) (g : Formatting) : Prop where
  weight : g.weight = lastWrite f.weight (ds.filterMap Directive.weight?)
  slant : g.slant = .italics ↔ f.slant = .italics ∨ .italics ∈ ds
  size : g.size = lastWrite f.size (ds.filterMap Directive.size?)
  fill : g.fill = lastWrite f.fill (ds.filterMap Directive.fill?)
  indent : g.indent.levels = saturatingSum f.indent.levels (ds.filterMap Directive.amount?)

/-- No sum of indents along the way leaves the range of levels. -/
def StaysInRange (f : Formatting) (ds : List Directive) : Prop :=
  ∀ before, before <+: ds →
    -2147483648 ≤ f.indent.levels + Directive.exactSum before ∧
      f.indent.levels + Directive.exactSum before ≤ 2147483647

instance (f : Formatting) (ds : List Directive) : Decidable (f.StaysInRange ds) :=
  decidable_of_iff (∀ before ∈ ds.inits, -2147483648 ≤ f.indent.levels + Directive.exactSum before ∧
    f.indent.levels + Directive.exactSum before ≤ 2147483647) (by simp only [List.mem_inits]; rfl)

variable {f g : Formatting} {ds es : List Directive}

/-! ## One directive after the other -/

theorem lastWrite_cons {α : Type} (write? : Directive → Option α) (start : α) (d : Directive)
    (ds : List Directive) : lastWrite start ((d :: ds).filterMap write?) =
      lastWrite ((write? d).getD start) (ds.filterMap write?) := by
  cases hd : write? d with
  | none => rw [List.filterMap_cons_none hd, Option.getD_none]
  | some a =>
    rw [List.filterMap_cons_some hd, Option.getD_some, lastWrite, List.getLast?_cons,
      Option.getD_some, lastWrite]

theorem Follows.nil (f : Formatting) : f.Follows [] f :=
  ⟨rfl, by simp, rfl, rfl, rfl⟩

theorem Follows.cons {d : Directive} (h : (f.apply d).Follows ds g) : f.Follows (d :: ds) g := by
  have hweight : (f.apply d).weight = d.weight?.getD f.weight := by cases d <;> rfl
  have hsize : (f.apply d).size = d.size?.getD f.size := by cases d <;> rfl
  have hfill : (f.apply d).fill = d.fill?.getD f.fill := by cases d <;> rfl
  constructor
  · rw [h.weight, hweight, lastWrite_cons]
  · rw [h.slant]
    cases d <;> simp [apply]
  · rw [h.size, hsize, lastWrite_cons]
  · rw [h.fill, hfill, lastWrite_cons]
  · rw [h.indent]
    cases d <;> rfl

theorem follows_foldl (f : Formatting) (ds : List Directive) :
    f.Follows ds (ds.foldl apply f) := by
  induction ds generalizing f with
  | nil => exact .nil f
  | cons d rest ih => exact (ih (f.apply d)).cons

theorem Follows.unique {g' : Formatting} (h : f.Follows ds g) (h' : f.Follows ds g') : g = g' := by
  have hslant : g.slant = .italics ↔ g'.slant = .italics := h.slant.trans h'.slant.symm
  have hweight := h.weight.trans h'.weight.symm
  have hsize := h.size.trans h'.size.symm
  have hfill := h.fill.trans h'.fill.symm
  have hindent := Indent.ext (h.indent.trans h'.indent.symm)
  have hsame : g.slant = g'.slant := by
    cases hg : g.slant <;> cases hg' : g'.slant <;> simp_all
  cases g
  cases g'
  simp_all

/-! ## Other orders -/

theorem filterMap_members {α : Type} {write? : Directive → Option α} {group : Directive.Group}
    (h : ∀ d, (write? d).isSome → d.group? = some group) (ds : List Directive) :
    (Directive.members group ds).filterMap write? = ds.filterMap write? := by
  rw [Directive.members, List.filterMap_filter]
  refine List.filterMap_congr fun d _ => ?_
  by_cases hd : d.group? = some group
  · simp [hd]
  · have hnone : write? d = none := by
      rw [← Option.not_isSome_iff_eq_none]
      exact mt (h d) hd
    simp [hd, hnone]

theorem Follows.reorder (h : f.Follows es g) (hes : Directive.Reorders ds es) :
    f.Follows ds g := by
  have hwrites : ∀ {α : Type} (write? : Directive → Option α) (group : Directive.Group),
      (∀ d, (write? d).isSome → d.group? = some group) →
      es.filterMap write? = ds.filterMap write? := by
    intro α write? group hgroup
    rw [← filterMap_members hgroup es, hes.groups, filterMap_members hgroup]
  constructor
  · rw [h.weight, hwrites _ .weight]
    intro d
    cases d <;> simp [Directive.weight?, Directive.group?]
  · rw [h.slant, hes.perm.mem_iff]
  · rw [h.size, hwrites _ .size]
    intro d
    cases d <;> simp [Directive.size?, Directive.group?]
  · rw [h.fill, hwrites _ .fill]
    intro d
    cases d <;> simp [Directive.fill?, Directive.group?]
  · rw [h.indent, hwrites _ .indent]
    intro d
    cases d <;> simp [Directive.amount?, Directive.group?]

/-! ## Sums within the range -/

theorem exactSum_cons (d : Directive) (ds : List Directive) :
    Directive.exactSum (d :: ds) = Directive.exactSum [d] + Directive.exactSum ds := by
  rw [← List.singleton_append, Directive.exactSum, List.filterMap_append, List.map_append,
    List.sum_append]
  rfl

theorem StaysInRange.cons {d : Directive} (h : f.StaysInRange (d :: ds)) :
    (f.apply d).indent.levels = f.indent.levels + Directive.exactSum [d] ∧
      (f.apply d).StaysInRange ds := by
  have hlevels : (f.apply d).indent.levels = f.indent.levels + Directive.exactSum [d] := by
    have hrange := h [d] ⟨ds, rfl⟩
    cases d with
    | indent amount =>
      have hsum : Directive.exactSum [.indent amount] = amount.levels := Int.add_zero _
      rw [hsum] at hrange ⊢
      simp only [apply, Indent.levels_add]
      omega
    | _ => exact (Int.add_zero _).symm
  refine ⟨hlevels, ?_⟩
  intro before hbefore
  have hrange := h (d :: before) ((List.prefix_cons_inj d).mpr hbefore)
  rw [exactSum_cons d before] at hrange
  rw [hlevels]
  omega

theorem StaysInRange.levels (h : f.StaysInRange ds) :
    (ds.foldl apply f).indent.levels = f.indent.levels + Directive.exactSum ds := by
  induction ds generalizing f with
  | nil => exact (Int.add_zero _).symm
  | cons d rest ih =>
    obtain ⟨hlevels, hrest⟩ := h.cons
    rw [List.foldl_cons, ih hrest, hlevels, exactSum_cons d rest]
    omega

theorem exactSum_perm (h : es.Perm ds) : Directive.exactSum es = Directive.exactSum ds :=
  ((h.filterMap _).map _).sum_eq

end Formatting

/-- After any directives each register holds what those that write to it say: the last weight, size
and fill, italics if there ever were any, and the saturating sum of the indents. So an order that
keeps that of each group comes to the same, and indents come to their exact sum in every order in
which no sum along the way leaves the range, which the level itself never does. -/
theorem five_registers (f : Formatting) (ds : List Directive) :
    f.Follows ds (ds.foldl Formatting.apply f) ∧
    (∀ es, Directive.Reorders ds es →
      es.foldl Formatting.apply f = ds.foldl Formatting.apply f) ∧
    (∀ es : List Directive, es.Perm ds → f.StaysInRange es →
      (es.foldl Formatting.apply f).indent.levels = f.indent.levels + Directive.exactSum ds) ∧
    -2147483648 ≤ (ds.foldl Formatting.apply f).indent.levels ∧
    (ds.foldl Formatting.apply f).indent.levels ≤ 2147483647 := by
  have hfollows := f.follows_foldl ds
  refine ⟨hfollows, ?_, ?_, Indent.least _, Indent.greatest _⟩
  · intro es hes
    exact ((f.follows_foldl es).reorder hes).unique hfollows
  · intro es hperm hrange
    rw [hrange.levels, Formatting.exactSum_perm hperm]

/-- From the greatest level, one more is cut off unless one less comes first. -/
theorem five_registers_atTheEnd :
    let f : Formatting := { indent := ⟨2147483647, by decide, by decide⟩ }
    let one : Indent := ⟨1, by decide, by decide⟩
    let back : Indent := ⟨-1, by decide, by decide⟩
    let ds : List Directive := [.bold, .indent one, .italics, .regular, .indent back, .large]
    let es : List Directive := [.large, .indent one, .bold, .indent back, .regular, .italics]
    let us : List Directive := [.indent back, .indent one, .italics, .bold, .regular, .large]
    Directive.Reorders ds es ∧ us.Perm ds ∧ f.StaysInRange us ∧
    ds.foldl Formatting.apply f =
      { size := .large, slant := .italics, indent := ⟨2147483646, by decide, by decide⟩ } ∧
    es.foldl Formatting.apply f = ds.foldl Formatting.apply f ∧
    (us.foldl Formatting.apply f).indent.levels = 2147483647 := by
  intro f one back ds es us
  obtain ⟨-, hreorder, hexact, -⟩ := five_registers f ds
  have hes : Directive.Reorders ds es := ⟨by decide, by intro g; cases g <;> rfl⟩
  have hus : us.Perm ds := by decide
  have hrange : f.StaysInRange us := by decide
  exact ⟨hes, hus, hrange, rfl, hreorder es hes, hexact us hus hrange⟩

end Typesetter
