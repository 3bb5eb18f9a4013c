import Mathlib.Data.List.Nodup
import Mathlib.Data.List.Perm.Subperm
import Typesetter.Config.Reader

/-! # The entries of a configuration

A configuration is one entry for each field. Entries of different fields do not meet, so they may be
put in any order. -/
namespace Typesetter
open Numeric (Single)

namespace Field

theorem mem_all (f : Field) : f ∈ all := by
  cases f with
  | measure m => cases m <;> decide
  | title => decide
  | author => decide

theorem name_injective {f g : Field} (h : f.name = g.name) : f = g := by
  have hall : ∀ f ∈ all, ∀ g ∈ all, f.name = g.name → f = g := by decide
  exact hall f f.mem_all g g.mem_all h

theorem ofName?_eq_some_iff {name : String} {f : Field} :
    ofName? name = some f ↔ name = f.name := by
  constructor
  · intro h
    have hname := List.find?_some h
    exact (of_decide_eq_true hname).symm
  · rintro rfl
    cases h : ofName? f.name with
    | none =>
      have hnone := List.find?_eq_none.mp h f f.mem_all
      simp at hnone
    | some g =>
      have hname := List.find?_some h
      rw [name_injective (of_decide_eq_true hname)]

end Field

namespace Config

inductive Entry where
  | measure (measure : Measure) (value : Single)
  | title (value : Option String)
  | author (value : Option String)

namespace Entry

def field : Entry → Field
  | measure m _ => .measure m
  | title _ => .title
  | author _ => .author

variable {e : Entry}

theorem field_eq_measure_iff {m : Measure} : e.field = .measure m ↔ ∃ v, measure m v = e := by
  cases e <;> simp [field, eq_comm]

theorem field_eq_title_iff : e.field = .title ↔ ∃ v, title v = e := by
  cases e <;> simp [field]

theorem field_eq_author_iff : e.field = .author ↔ ∃ v, author v = e := by
  cases e <;> simp [field]

theorem length_le_of_nodup {entries : List Entry} (h : (entries.map field).Nodup) :
    entries.length ≤ Field.all.length := by
  have hsub := (List.subperm_of_subset h fun f _ => f.mem_all).length_le
  rwa [List.length_map] at hsub

end Entry

def put (c : Config) : Entry → Config
  | .measure m v => c.set m v
  | .title v => { c with title := v }
  | .author v => { c with author := v }

def entry (c : Config) : Field → Entry
  | .measure m => .measure m (c.get m)
  | .title => .title c.title
  | .author => .author c.author

def ofEntries (entries : List Entry) : Config := entries.foldl put {}

theorem get_set (c : Config) (m n : Measure) (v : Single) :
    (c.set m v).get n = if n = m then v else c.get n := by
  cases m <;> cases n <;> rfl

theorem set_texts (c : Config) (m : Measure) (v : Single) :
    (c.set m v).title = c.title ∧ (c.set m v).author = c.author := by
  cases m <;> exact ⟨rfl, rfl⟩

theorem ext_entry {c d : Config} (h : ∀ f, c.entry f = d.entry f) : c = d := by
  have hget : ∀ m, c.get m = d.get m := fun m => (Entry.measure.inj (h (.measure m))).2
  have htitle : c.title = d.title := Entry.title.inj (h .title)
  have hauthor : c.author = d.author := Entry.author.inj (h .author)
  cases c
  cases d
  simp only [Config.mk.injEq]
  exact ⟨hget .pageWidth, hget .pageHeight, hget .pageMargin, hget .normalFontSize,
    hget .largeFontSize, hget .indentUnit, hget .lineSpacing, hget .paragraphSpacing, htitle,
    hauthor⟩

theorem entry_put (c : Config) (e : Entry) (f : Field) :
    (c.put e).entry f = if f = e.field then e else c.entry f := by
  cases e with
  | measure m v =>
    obtain ⟨htitle, hauthor⟩ := c.set_texts m v
    cases f with
    | measure n =>
      simp only [put, entry, Entry.field, get_set, Field.measure.injEq]
      split
      · rename_i h
        rw [h]
      · rfl
    | title => simp only [put, entry, htitle, Entry.field, reduceCtorEq, if_false]
    | author => simp only [put, entry, hauthor, Entry.field, reduceCtorEq, if_false]
  | title v => cases f <;> rfl
  | author v => cases f <;> rfl

theorem put_comm (c : Config) {d e : Entry} (h : d.field ≠ e.field) :
    (c.put d).put e = (c.put e).put d := by
  apply ext_entry
  intro f
  simp only [entry_put]
  split
  · rename_i he
    rw [if_neg (he ▸ h.symm)]
  · rfl

theorem entry_foldl_of_not_mem (c : Config) {f : Field} :
    ∀ {entries : List Entry}, f ∉ entries.map Entry.field →
      (entries.foldl put c).entry f = c.entry f := by
  intro entries
  induction entries generalizing c with
  | nil => exact fun _ => rfl
  | cons e entries ih =>
    intro h
    obtain ⟨hne, hrest⟩ := not_or.mp (List.mem_cons.not.mp h)
    rw [List.foldl_cons, ih _ hrest, entry_put, if_neg hne]

theorem entry_foldl_of_mem (c : Config) {e : Entry} :
    ∀ {entries : List Entry}, (entries.map Entry.field).Nodup → e ∈ entries →
      (entries.foldl put c).entry e.field = e := by
  intro entries
  induction entries generalizing c with
  | nil => exact fun _ h => absurd h List.not_mem_nil
  | cons d entries ih =>
    intro hnodup h
    obtain ⟨hd, hrest⟩ := List.nodup_cons.mp hnodup
    rw [List.foldl_cons]
    rcases List.mem_cons.mp h with rfl | h
    · rw [entry_foldl_of_not_mem _ hd, entry_put, if_pos rfl]
    · exact ih _ hrest h

theorem ofEntries_perm {entries others : List Entry} (hnodup : (entries.map Entry.field).Nodup)
    (h : entries.Perm others) : ofEntries entries = ofEntries others := by
  refine h.foldl_eq' (fun d hd e he c => ?_) ({} : Config)
  by_cases hfield : d.field = e.field
  · rw [List.inj_on_of_nodup_map hnodup hd he hfield]
  · exact c.put_comm hfield

end Config
end Typesetter
