import Typesetter.CommandLine.Options

/-! # Accepted arguments

A list of arguments that is accepted as a conversion asks for at least one copy, wherever in the
list the number stands and however it is attached to its option. -/
namespace Typesetter.CommandLine

theorem exists_of_map_eq_ok {α β : Type} {x : Except UsageFault α} {f : α → β} {y : β}
    (h : x.map f = .ok y) : ∃ v, x = .ok v ∧ f v = y := by
  cases x with
  | error e => cases h
  | ok v => exact ⟨v, rfl, Except.ok.inj h⟩

def Given.Counted (g : Given) : Prop := ∀ n ∈ g.copies, 0 < n

namespace Given

theorem count_pos {old : Option Nat} {value : String} {n : Nat} (h : count old value = .ok n) :
    0 < n := by
  unfold count at h
  split at h
  · cases h
  · split at h
    · split at h
      · rename_i hrange
        obtain rfl := Except.ok.inj h
        omega
      · cases h
    · cases h

namespace Counted
variable {g g' : Given}

theorem set (h : g.Counted) {s : Setting} {value : String} (hs : g.set s value = .ok g') :
    g'.Counted := by
  cases s with
  | input =>
    by_cases hinput : g.input.isSome = true
    · simp [Given.set, hinput] at hs
    · simp only [Given.set, hinput] at hs
      obtain ⟨v, -, rfl⟩ := exists_of_map_eq_ok hs
      exact h
  | output =>
    obtain ⟨v, -, rfl⟩ := exists_of_map_eq_ok hs
    exact h
  | config =>
    obtain ⟨v, -, rfl⟩ := exists_of_map_eq_ok hs
    exact h
  | copies =>
    obtain ⟨n, hcount, rfl⟩ := exists_of_map_eq_ok hs
    intro m hm
    obtain rfl := Option.some.inj hm
    exact count_pos hcount

theorem setVerbose (h : g.Counted) (hs : g.setVerbose = .ok g') : g'.Counted := by
  unfold Given.setVerbose at hs
  split at hs
  · cases hs
  · obtain rfl := Except.ok.inj hs
    exact h

theorem options_copies (h : g.Counted) : 0 < g.options.copies := by
  unfold options
  cases hg : g.copies with
  | none => exact Nat.one_pos
  | some n => exact h n hg

end Counted
end Given

/-- An argument keeps the number of copies positive, and by itself it starts no conversion. -/
inductive Step.Counted : Step → Prop where
  | go {g} (h : g.Counted) : Step.Counted (.go g)
  | await {s g} (h : g.Counted) : Step.Counted (.await s g)
  | help : Step.Counted (.stop .help)
  | version : Step.Counted (.stop .version)

theorem Given.Counted.set_go {g : Given} (h : g.Counted) {s : Setting} {value : String}
    {step : Step} (hs : (g.set s value).map Step.go = .ok step) : step.Counted := by
  obtain ⟨g', hg, rfl⟩ := exists_of_map_eq_ok hs
  exact .go (h.set hg)

theorem counted_readLetters {argument : String} {g : Given} (h : g.Counted) {letters : List Char}
    {step : Step} (hs : readLetters argument g letters = .ok step) : step.Counted := by
  fun_induction readLetters argument g letters with
  | case1 g =>
    obtain rfl := Except.ok.inj hs
    exact .go h
  | case2 g rest =>
    obtain rfl := Except.ok.inj hs
    exact .help
  | case3 g rest =>
    obtain rfl := Except.ok.inj hs
    exact .version
  | case4 g rest e he => cases hs
  | case5 g rest g' hg ih => exact ih (h.setVerbose hg) hs
  | case6 => cases hs
  | case7 =>
    obtain rfl := Except.ok.inj hs
    exact .await h
  | case8 => exact h.set_go hs
  | case9 => exact h.set_go hs

theorem counted_readWord {argument : String} {g : Given} (h : g.Counted) {word : List Char}
    {step : Step} (hs : readWord argument g word = .ok step) : step.Counted := by
  unfold readWord at hs
  dsimp only at hs
  split at hs
  · obtain rfl := Except.ok.inj hs
    exact .await h
  · exact h.set_go hs
  · -- A word without a setting is a flag, which takes no value.
    split at hs
    · split at hs
      · cases hs
      · obtain rfl := Except.ok.inj hs
        exact .help
    · split at hs
      · cases hs
      · obtain rfl := Except.ok.inj hs
        exact .version
    · split at hs
      · cases hs
      · obtain ⟨g', hg, rfl⟩ := exists_of_map_eq_ok hs
        exact .go (h.setVerbose hg)
    · cases hs

theorem counted_readArgument {argument : String} {g : Given} (h : g.Counted) {step : Step}
    (hs : readArgument g argument = .ok step) : step.Counted := by
  unfold readArgument at hs
  split at hs
  · exact counted_readWord h hs
  · exact counted_readLetters h hs
  · exact h.set_go hs

theorem copies_pos_readInputs {arguments : List String} {g : Given} (h : g.Counted) {o : Options}
    (ho : readInputs g arguments = .ok (.convert o)) : 0 < o.copies := by
  obtain ⟨g', hfold, hg⟩ := exists_of_map_eq_ok ho
  obtain rfl := Request.convert.inj hg
  clear ho hg
  induction arguments generalizing g with
  | nil =>
    obtain rfl : g = g' := Except.ok.inj hfold
    exact h.options_copies
  | cons argument rest ih =>
    rw [List.foldlM_cons] at hfold
    cases hset : g.set .input argument with
    | error e => simp [hset, bind, Except.bind] at hfold
    | ok next =>
      rw [hset] at hfold
      exact ih (h.set hset) hfold

theorem copies_pos_readArguments {arguments : List String} {g : Given} (h : g.Counted)
    {o : Options} (ho : readArguments g arguments = .ok (.convert o)) : 0 < o.copies := by
  fun_induction readArguments g arguments with
  | case1 g =>
    obtain rfl := Request.convert.inj (Except.ok.inj ho)
    exact h.options_copies
  | case2 g rest => exact copies_pos_readInputs h ho
  | case3 => cases ho
  | case4 g argument rest hne request hread =>
    -- What stops the reading asks for no conversion.
    cases counted_readArgument h hread with
    | help => cases ho
    | version => cases ho
  | case5 g argument rest hne next hread ih =>
    cases counted_readArgument h hread with
    | go hnext => exact ih hnext ho
  | case6 => cases ho
  | case7 => cases ho
  | case8 => cases ho
  | case9 g argument hne s waiting hread value rest hvalue next hset ih =>
    cases counted_readArgument h hread with
    | await hwaiting => exact ih (hwaiting.set hset) ho

theorem copies_pos_of_read {arguments : List String} {o : Options}
    (h : Request.read arguments = .ok (.convert o)) : 0 < o.copies :=
  copies_pos_readArguments (fun _ hn => by cases hn) h

end Typesetter.CommandLine
