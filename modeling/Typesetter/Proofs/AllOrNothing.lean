import Typesetter.CommandLine.Run
import Typesetter.Proofs.Arguments
import Typesetter.Proofs.Copies
import Typesetter.Proofs.Navigation
import Typesetter.Proofs.ValidConfig

/-! # All or nothing

A run of the program either writes its one file or leaves the file system as it was. Of all that is
wrong with a run the first in a fixed order is blamed, and each of these faults is a matter of the
files it is about alone. -/
namespace Typesetter

/-! ## The first malformed line -/

/-- The first malformed line, told without interpreting any. -/
def SourceLine.firstMalformed (number : Nat) : List String → Option MalformedIndent
  | [] => none
  | text :: rest =>
    match read number text with
    | .error e => some e
    | .ok _ => firstMalformed (number + 1) rest

theorem Interpreter.failure_runFrom (i : Interpreter) (number : Nat) (events : Array Event)
    (texts : List String) :
    (i.runFrom number events texts).failure = SourceLine.firstMalformed number texts := by
  induction texts generalizing i number events with
  | nil => rfl
  | cons text rest ih =>
    rw [runFrom, SourceLine.firstMalformed]
    cases SourceLine.read number text with
    | error e => rfl
    | ok l => exact ih _ _ _

theorem failure_convertFrom (s : Stylesheet) (texts : List String) (total remaining : Nat)
    (events : Array Event) : (convertFrom s texts total (remaining + 1) events).failure =
      SourceLine.firstMalformed 1 texts := by
  rw [← Interpreter.failure_runFrom { stylesheet := s } 1 #[] texts]
  cases hrun : (Interpreter.run { stylesheet := s } texts).failure with
  | none => exact (convertFrom_of_run hrun total _ events).1.trans hrun.symm
  | some e =>
    exact (convertFrom_of_failed_run hrun remaining.succ_pos total events).1.trans hrun.symm

/-! ## Writing a file -/

namespace FileSystem
variable {fs after : FileSystem} {path : String} {bytes : List UInt8}

structure Written (fs after : FileSystem) (path : String) (bytes : List UInt8) : Prop where
  place : ∃ l, fs.locate path = .ok l ∧
    ∀ m, after.find? m = if m = l then some (.file bytes) else fs.find? m
  rest : after = { fs with entries := after.entries }
  read : fs.unreadable? path = none → after.read path = .ok bytes

theorem descend_put {l : Location} (e : Entry) (hne : l ≠ []) (h : fs.find? l ≠ some .directory)
    {m m' : Location} {name : String} (hm : fs.descend m name = .ok m') :
    (fs.put l e).descend m name = .ok m' := by
  have hml : m ≠ l := by
    rintro rfl
    unfold descend directoryFault? at hm
    cases hf : fs.find? m with
    | none => simp [hf] at hm
    | some entry =>
      cases entry with
      | file bytes => simp [hf] at hm
      | directory => exact h hf
  have hfind : (fs.put l e).find? m = fs.find? m := by
    rw [find?_put e hne, if_neg hml]
  unfold descend directoryFault? at hm ⊢
  rw [hfind]
  exact hm

theorem locate_put {l m : Location} (e : Entry) (hne : l ≠ []) (h : fs.find? l ≠ some .directory)
    (hm : fs.locate path = .ok m) : (fs.put l e).locate path = .ok m := by
  unfold locate follow at hm ⊢
  have hstart : (fs.put l e).start path = fs.start path := rfl
  rw [hstart]
  cases hs : fs.start path with
  | error fault => simp [hs, bind, Except.bind] at hm
  | ok first =>
    simp only [hs, bind, Except.bind] at hm ⊢
    clear hs
    generalize pathNames path = names at hm ⊢
    induction names generalizing first with
    | nil => exact hm
    | cons name names ih =>
      rw [List.foldlM_cons] at hm ⊢
      cases hd : fs.descend first name with
      | error fault => simp [hd, bind, Except.bind] at hm
      | ok next =>
        rw [hd] at hm
        rw [descend_put e hne h hd]
        exact ih next hm

theorem target_eq_ok {l : Location} (h : fs.target path = .ok l) :
    endsInSlash path = false ∧ fs.locate path = .ok l ∧ fs.find? l ≠ some .directory := by
  unfold target at h
  split at h
  · cases h
  · rename_i hslash
    cases hl : fs.locate path with
    | error fault => simp [hl] at h
    | ok m =>
      simp only [hl] at h
      split at h
      · cases h
      · rename_i hdir
        obtain rfl := Except.ok.inj h
        exact ⟨by simpa using hslash, rfl, hdir⟩

theorem written_of_write (h : fs.write path bytes = (.ok (), after)) :
    Written fs after path bytes := by
  unfold write at h
  split at h
  · cases h
  · split at h
    · cases h
    · rename_i l htarget
      obtain ⟨hslash, hl, hdir⟩ := target_eq_ok htarget
      obtain rfl := (Prod.mk.inj h).2
      -- The root is a directory, so it is no place for a file.
      have hne : l ≠ [] := by
        rintro rfl
        exact hdir rfl
      refine ⟨⟨l, hl, fun m => find?_put _ hne m⟩, rfl, fun hreadable => ?_⟩
      have hunread : (fs.put l (.file bytes)).unreadable? path = none := hreadable
      simp [read, hunread, locate_put _ hne hdir hl, find?_put _ hne, hslash]

end FileSystem

namespace CommandLine

/-! ## What can be wrong -/

def Options.document (o : Options) (config : Config) (source : String) : Document :=
  ⟨config, (convert config.stylesheet source o.copies).paragraphs⟩

def Options.Prints (o : Options) (fs : FileSystem) (stamp : Stamp) (bytes : List UInt8) : Prop :=
  ∃ c source, o.readConfig fs.read = .ok c ∧ Reader.text fs.read o.input = .ok source ∧
    SourceLine.firstMalformed 1 (Text.lines source) = none ∧
    (o.document c source).bytes stamp = .ok bytes

/-- What is wrong with a run, each fault with its place in the order of blame. An output may refuse
whatever is written there, or only the document. -/
inductive Options.Blames (o : Options) (fs : FileSystem) (stamp : Stamp) : Nat → Error → Prop where
  | configUnreadable {path e} (given : o.config = some path)
      (unread : Reader.text fs.read path = .error e) : Blames o fs stamp 1 e
  | configText {path text fault} (given : o.config = some path)
      (known : Reader.text fs.read path = .ok text) (wrong : Config.read text = .error fault) :
      Blames o fs stamp 2 (.configText fault)
  | configValues {path text c fault} (given : o.config = some path)
      (known : Reader.text fs.read path = .ok text) (right : Config.read text = .ok c)
      (wrong : c.fault? = some fault) : Blames o fs stamp 3 (.config fault)
  | inputUnreadable {e} (unread : Reader.text fs.read o.input = .error e) : Blames o fs stamp 4 e
  | directive {source e} (known : Reader.text fs.read o.input = .ok source)
      (wrong : SourceLine.firstMalformed 1 (Text.lines source) = some e) :
      Blames o fs stamp 5 (.malformedIndent e)
  | outputUnwritable {fault}
      (refused : ∀ bytes, (fs.write o.output bytes).1 = .error fault) :
      Blames o fs stamp 6 (.unsaved fault)
  | documentUnwritable {bytes fault} (printed : o.Prints fs stamp bytes)
      (refused : (fs.write o.output bytes).1 = .error fault) : Blames o fs stamp 6 (.unsaved fault)

theorem Options.Prints.unique {o : Options} {fs : FileSystem} {stamp : Stamp}
    {bytes bytes' : List UInt8} (h : o.Prints fs stamp bytes) (h' : o.Prints fs stamp bytes') :
    bytes' = bytes := by
  obtain ⟨c, source, hc, hsource, -, hbytes⟩ := h
  obtain ⟨c', source', hc', hsource', -, hbytes'⟩ := h'
  obtain rfl := Except.ok.inj (hc.symm.trans hc')
  obtain rfl := Except.ok.inj (hsource.symm.trans hsource')
  exact Except.ok.inj (hbytes'.symm.trans hbytes)

namespace Options.Blames
variable {o : Options} {fs : FileSystem} {stamp : Stamp} {place place' : Nat} {e e' : Error}

theorem config_unique (h : o.Blames fs stamp place e) (hplace : place ≤ 3)
    (h' : o.Blames fs stamp place' e') (hplace' : place' ≤ 3) : place' = place ∧ e' = e := by
  cases h <;> cases h' <;> simp_all

theorem input_unique (h : o.Blames fs stamp place e) (hplace : 4 ≤ place ∧ place ≤ 5)
    (h' : o.Blames fs stamp place' e') (hplace' : 4 ≤ place' ∧ place' ≤ 5) :
    place' = place ∧ e' = e := by
  cases h <;> cases h' <;> simp_all

theorem unsaved_of_output (h : o.Blames fs stamp 6 e) : ∃ fault, e = .unsaved fault ∧
    ((∀ bytes, (fs.write o.output bytes).1 = .error fault) ∨
      ∃ bytes, o.Prints fs stamp bytes ∧ (fs.write o.output bytes).1 = .error fault) := by
  cases h with
  | outputUnwritable refused => exact ⟨_, rfl, Or.inl refused⟩
  | documentUnwritable printed refused => exact ⟨_, rfl, Or.inr ⟨_, printed, refused⟩⟩

theorem output_unique (h : o.Blames fs stamp 6 e) (h' : o.Blames fs stamp 6 e') : e' = e := by
  have hsame : ∀ bytes {fault fault'}, (fs.write o.output bytes).1 = .error fault →
      (fs.write o.output bytes).1 = .error fault' → Error.unsaved fault' = .unsaved fault :=
    fun _ _ _ hwrite hwrite' => congrArg _ (Except.error.inj (hwrite'.symm.trans hwrite))
  obtain ⟨fault, rfl, hall | ⟨bytes, hprints, hwrite⟩⟩ := h.unsaved_of_output
  · obtain ⟨fault', rfl, hall' | ⟨bytes', -, hwrite'⟩⟩ := h'.unsaved_of_output
    · exact hsame [] (hall []) (hall' [])
    · exact hsame bytes' (hall bytes') hwrite'
  · obtain ⟨fault', rfl, hall' | ⟨bytes', hprints', hwrite'⟩⟩ := h'.unsaved_of_output
    · exact hsame bytes hwrite (hall' bytes)
    · obtain rfl := hprints.unique hprints'
      exact hsame bytes' hwrite hwrite'

end Options.Blames

/-- The fault that is blamed: no other comes before it. -/
structure Options.ToBlame (o : Options) (fs : FileSystem) (stamp : Stamp) (place : Nat)
    (e : Error) : Prop where
  blamed : o.Blames fs stamp place e
  first : ∀ place' e', o.Blames fs stamp place' e' → place < place' ∨ place' = place ∧ e' = e

namespace Options
variable {o : Options} {fs : FileSystem} {stamp : Stamp} {place place' : Nat} {e e' : Error}
variable {wording : Wording}

theorem ToBlame.unique (h : o.ToBlame fs stamp place e) (h' : o.ToBlame fs stamp place' e') :
    place' = place ∧ e' = e := by
  rcases h.first _ _ h'.blamed with hlt | hsame
  · rcases h'.first _ _ h.blamed with hgt | ⟨rfl, -⟩ <;> omega
  · exact hsame

theorem Blames.config_toBlame (h : o.Blames fs stamp place e) (hplace : place ≤ 3) :
    o.ToBlame fs stamp place e := by
  refine ⟨h, fun place' e' h' => ?_⟩
  by_cases hplace' : place' ≤ 3
  · exact Or.inr (h.config_unique hplace h' hplace')
  · exact Or.inl (by omega)

theorem Blames.input_toBlame (h : o.Blames fs stamp place e) (hplace : 4 ≤ place ∧ place ≤ 5)
    (hconfig : ∀ place' e', o.Blames fs stamp place' e' → 4 ≤ place') :
    o.ToBlame fs stamp place e := by
  refine ⟨h, fun place' e' h' => ?_⟩
  have hfour := hconfig place' e' h'
  by_cases hplace' : place' ≤ 5
  · exact Or.inr (h.input_unique hplace h' ⟨hfour, hplace'⟩)
  · exact Or.inl (by omega)

theorem Blames.output_toBlame (h : o.Blames fs stamp 6 e)
    (hsix : ∀ place e, o.Blames fs stamp place e → place = 6) : o.ToBlame fs stamp 6 e := by
  refine ⟨h, fun place' e' h' => ?_⟩
  obtain rfl := hsix place' e' h'
  exact Or.inr ⟨rfl, h.output_unique h'⟩

/-! ## The steps of a run -/

theorem exists_blames_of_readConfig (h : o.readConfig fs.read = .error e) (stamp : Stamp) :
    ∃ place, o.Blames fs stamp place e ∧ place ≤ 3 := by
  unfold readConfig at h
  cases hc : o.config with
  | none => simp [hc] at h
  | some path =>
    simp only [hc, Reader.config] at h
    cases ht : Reader.text fs.read path with
    | error e' =>
      rw [ht] at h
      obtain rfl : e' = e := Except.error.inj h
      exact ⟨1, .configUnreadable hc ht, by decide⟩
    | ok text =>
      rw [ht] at h
      change Config.ofJson text = .error e at h
      unfold Config.ofJson at h
      cases hr : Config.read text with
      | error fault =>
        simp only [hr, Except.error.injEq] at h
        exact ⟨2, h ▸ .configText hc ht hr, by decide⟩
      | ok c =>
        simp only [hr] at h
        cases hf : c.fault? with
        | none => simp [hf] at h
        | some fault =>
          simp only [hf, Except.error.injEq] at h
          exact ⟨3, h ▸ .configValues hc ht hr hf, by decide⟩

theorem four_le_of_readConfig {c : Config} (h : o.readConfig fs.read = .ok c)
    (hb : o.Blames fs stamp place e) : 4 ≤ place := by
  cases hb with
  | configUnreadable given unread =>
    simp [readConfig, given, Reader.config, unread, bind, Except.bind] at h
  | configText given known wrong =>
    simp [readConfig, given, Reader.config, known, bind, Except.bind, Config.ofJson, wrong] at h
  | configValues given known right wrong =>
    simp [readConfig, given, Reader.config, known, bind, Except.bind, Config.ofJson, right,
      wrong] at h
  | _ => omega

theorem run_of_readConfig_error (h : o.readConfig fs.read = .error e) (stamp : Stamp)
    (wording : Wording) : o.run fs stamp wording = .ok (fs, failure wording [] e) := by
  rw [run, plan, h]

theorem run_of_text_error {c : Config} (hc : o.readConfig fs.read = .ok c)
    (h : Reader.text fs.read o.input = .error e) (stamp : Stamp) (wording : Wording) :
    o.run fs stamp wording = .ok (fs, failure wording [] e) := by
  simp only [run, plan, hc, h]

theorem run_of_malformed {c : Config} {source : String} {malformed : MalformedIndent}
    (hc : o.readConfig fs.read = .ok c) (hsource : Reader.text fs.read o.input = .ok source)
    (h : (convert c.stylesheet source o.copies).failure = some malformed) (stamp : Stamp)
    (wording : Wording) : ∃ notices,
      o.run fs stamp wording = .ok (fs, failure wording notices (.malformedIndent malformed)) := by
  simp only [run, plan, hc, hsource, h]
  exact ⟨_, rfl⟩

theorem run_of_render {c : Config} {source : String} {r : Rendering}
    (hc : o.readConfig fs.read = .ok c) (hsource : Reader.text fs.read o.input = .ok source)
    (h : (convert c.stylesheet source o.copies).failure = none)
    (hr : (o.document c source).render = .ok r) (stamp : Stamp) (wording : Wording) :
    ∃ notices, o.run fs stamp wording = match fs.write o.output (r.file c stamp).bytes with
      | (.error fault, after) => .ok (after, failure wording notices (.unsaved fault))
      | (.ok (), after) => .ok (after, o.success notices) := by
  unfold document at hr
  simp only [run, plan, hc, hsource, h, hr]
  exact ⟨_, rfl⟩

end Options

/-! ## Whole runs -/

/-- A run that writes: nothing is wrong with it, and its file holds the document of the source. -/
structure Options.Succeeds (o : Options) (fs after : FileSystem) (stamp : Stamp) : Prop where
  faultless : ∀ place e, ¬ o.Blames fs stamp place e
  written : ∃ c source bytes, o.readConfig fs.read = .ok c ∧
    Reader.text fs.read o.input = .ok source ∧ (o.document c source).bytes stamp = .ok bytes ∧
    fs.Written after o.output bytes

/-- A run that fails: the file system is as it was, and the first fault is told. A fault of the
configuration is told whatever the input and the output are. -/
structure Options.Fails (o : Options) (fs after : FileSystem) (stamp : Stamp) (wording : Wording)
    (report : Report) : Prop where
  unchanged : after = fs
  blame : ∃ place e, o.ToBlame fs stamp place e ∧
    report.notices.getLast? = some (.text ("Error: " ++ e.message wording)) ∧
    (place ≤ 3 → ∀ (o' : Options) (fs' : FileSystem) (stamp' : Stamp), o'.config = o.config →
      (∀ path ∈ o.config, fs'.read path = fs.read path) →
      o'.run fs' stamp' wording = .ok (fs', report))

theorem Options.readConfig_congr {o o' : Options} {read read' : Reader}
    (ho : o'.config = o.config) (hread : ∀ path ∈ o.config, read' path = read path) :
    o'.readConfig read' = o.readConfig read := by
  unfold readConfig
  rw [ho]
  cases hc : o.config with
  | none => rfl
  | some path => simp only [Reader.config, Reader.text, hread path hc]

theorem getLast?_failure (wording : Wording) (notices : List Notice) (e : Error) :
    (failure wording notices e).notices.getLast? =
      some (.text ("Error: " ++ e.message wording)) :=
  List.getLast?_concat

namespace Options
variable {o : Options} {fs : FileSystem} {stamp : Stamp} {wording : Wording} {place : Nat}
variable {e : Error} {c : Config} {source : String}

theorem ToBlame.fails (h : o.ToBlame fs stamp place e) (hplace : 3 < place)
    (notices : List Notice) : o.Fails fs fs stamp wording (failure wording notices e) :=
  ⟨rfl, place, e, h, getLast?_failure wording notices e, fun hle => absurd hle (by omega)⟩

theorem fails_of_readConfig (h : o.readConfig fs.read = .error e) :
    o.Fails fs fs stamp wording (failure wording [] e) := by
  obtain ⟨place, hblames, hplace⟩ := exists_blames_of_readConfig h stamp
  refine ⟨rfl, place, e, hblames.config_toBlame hplace, getLast?_failure wording [] e, ?_⟩
  intro _ o' fs' stamp' ho' hread
  exact run_of_readConfig_error ((readConfig_congr ho' hread).trans h) stamp' wording

theorem fails_of_input (hc : o.readConfig fs.read = .ok c) (hplace : 4 ≤ place ∧ place ≤ 5)
    (h : o.Blames fs stamp place e) (notices : List Notice) :
    o.Fails fs fs stamp wording (failure wording notices e) :=
  (h.input_toBlame hplace fun _ _ => four_le_of_readConfig hc).fails hplace.1 notices

theorem eq_six_of_proper (hc : o.readConfig fs.read = .ok c)
    (hsource : Reader.text fs.read o.input = .ok source)
    (hproper : SourceLine.firstMalformed 1 (Text.lines source) = none)
    (h : o.Blames fs stamp place e) : place = 6 := by
  have hfour := four_le_of_readConfig hc h
  cases h with
  | inputUnreadable unread => simp [hsource] at unread
  | directive known wrong =>
    obtain rfl := Except.ok.inj (hsource.symm.trans known)
    simp [hproper] at wrong
  | outputUnwritable | documentUnwritable => rfl
  | _ => omega

theorem fails_of_output (hsix : ∀ place e, o.Blames fs stamp place e → place = 6)
    {bytes : List UInt8} (hprints : o.Prints fs stamp bytes) {fault : FileFault}
    (h : (fs.write o.output bytes).1 = .error fault) (notices : List Notice) :
    o.Fails fs fs stamp wording (failure wording notices (.unsaved fault)) := by
  have hblames : o.Blames fs stamp 6 (.unsaved fault) := .documentUnwritable hprints h
  exact (hblames.output_toBlame hsix).fails (by decide) notices

theorem not_blames_of_write (hsix : ∀ place e, o.Blames fs stamp place e → place = 6)
    {bytes : List UInt8} (hprints : o.Prints fs stamp bytes)
    (h : (fs.write o.output bytes).1 = .ok ()) : ∀ place e, ¬ o.Blames fs stamp place e := by
  intro place e hblames
  obtain rfl := hsix place e hblames
  obtain ⟨fault, -, hall | ⟨bytes', hprints', hwrite⟩⟩ := hblames.unsaved_of_output
  · cases h.symm.trans (hall bytes)
  · obtain rfl := hprints.unique hprints'
    cases h.symm.trans hwrite

theorem accepted_of_readConfig {read : Reader} (h : o.readConfig read = .ok c) : c.Accepted := by
  unfold readConfig at h
  cases hc : o.config with
  | none =>
    simp only [hc] at h
    obtain rfl := Except.ok.inj h
    exact (Config.fault?_eq_none_iff {}).mp (by decide +kernel)
  | some path =>
    simp only [hc, Reader.config] at h
    cases ht : read.text path with
    | error e' => simp [ht, bind, Except.bind] at h
    | ok text =>
      rw [ht] at h
      exact Config.accepted_of_ofJson h

theorem render_isOk_of_readConfig {read : Reader} (h : o.readConfig read = .ok c)
    (hb : ¬ c.Boundless) (source : String) : ∃ r, (o.document c source).render = .ok r :=
  Document.render_isOk_of_accepted (accepted_of_readConfig h) hb

theorem render_isOk_of_default {read : Reader} (ho : o.config = none)
    (h : o.readConfig read = .ok c) (source : String) :
    ∃ r, (o.document c source).render = .ok r := by
  refine render_isOk_of_readConfig h (fun hb => ?_) source
  rw [readConfig, ho] at h
  obtain rfl : ({} : Config) = c := Except.ok.inj h
  exact absurd hb.width (by decide)

end Options

/-- If rendering is possible and no refused write leaves traces, a run ends with code 0 or 1. With 0
exactly the output file is written, and it is the document of the source; with 1 nothing is changed,
and what is blamed comes first among all that is wrong. -/
theorem run_all_or_nothing (arguments : List String) (o : Options)
    (ho : Request.read arguments = .ok (.convert o)) (fs : FileSystem) (stamp : Stamp)
    (wording : Wording)
    (hrender : ∀ c source, o.readConfig fs.read = .ok c →
      Reader.text fs.read o.input = .ok source →
      (convert c.stylesheet source o.copies).failure = none →
      ∃ r, (o.document c source).render = .ok r)
    (htraceless : ∀ bytes fault after,
      fs.write o.output bytes = (.error fault, after) → after = fs) :
    ∃ after report, o.run fs stamp wording = .ok (after, report) ∧
      (report.code = 0 ∧ o.Succeeds fs after stamp ∨
        report.code = 1 ∧ o.Fails fs after stamp wording report) := by
  obtain ⟨more, hcopies⟩ := Nat.exists_eq_succ_of_ne_zero (copies_pos_of_read ho).ne'
  cases hc : o.readConfig fs.read with
  | error e =>
    exact ⟨fs, _, Options.run_of_readConfig_error hc stamp wording,
      Or.inr ⟨rfl, o.fails_of_readConfig hc⟩⟩
  | ok c =>
    cases hsource : Reader.text fs.read o.input with
    | error e =>
      exact ⟨fs, _, Options.run_of_text_error hc hsource stamp wording,
        Or.inr ⟨rfl, Options.fails_of_input hc (by decide) (.inputUnreadable hsource) _⟩⟩
    | ok source =>
      have hfirst : (convert c.stylesheet source o.copies).failure =
          SourceLine.firstMalformed 1 (Text.lines source) := by
        rw [hcopies]
        exact failure_convertFrom _ _ _ _ _
      cases hm : SourceLine.firstMalformed 1 (Text.lines source) with
      | some malformed =>
        obtain ⟨notices, hrun⟩ :=
          Options.run_of_malformed hc hsource (hfirst.trans hm) stamp wording
        exact ⟨fs, _, hrun,
          Or.inr ⟨rfl, Options.fails_of_input hc (by decide) (.directive hsource hm) _⟩⟩
      | none =>
        have hproper := hfirst.trans hm
        obtain ⟨r, hr⟩ := hrender c source hc hsource hproper
        obtain ⟨notices, hrun⟩ := Options.run_of_render hc hsource hproper hr stamp wording
        have hsix : ∀ place e, o.Blames fs stamp place e → place = 6 :=
          fun _ _ => Options.eq_six_of_proper hc hsource hm
        have hbytes : (o.document c source).bytes stamp = .ok (r.file c stamp).bytes := by
          rw [Document.bytes, hr]
          rfl
        have hprints : o.Prints fs stamp (r.file c stamp).bytes :=
          ⟨c, source, hc, hsource, hm, hbytes⟩
        rcases hw : fs.write o.output (r.file c stamp).bytes with ⟨outcome, after⟩
        rw [hw] at hrun
        have hfirst := congrArg Prod.fst hw
        cases outcome with
        | error fault =>
          obtain rfl := htraceless _ _ _ hw
          exact ⟨after, _, hrun, Or.inr ⟨rfl, Options.fails_of_output hsix hprints hfirst _⟩⟩
        | ok =>
          exact ⟨after, _, hrun, Or.inl ⟨rfl, Options.not_blames_of_write hsix hprints hfirst, c,
            source, _, hc, hsource, hbytes, FileSystem.written_of_write hw⟩⟩

def someEntries : List (Location × Entry) :=
  [(["page.json"], .file "\x7b\"normalFontSize\": 0\x7d".toUTF8.toList),
    (["text"], .file "one".toUTF8.toList), (["draft"], .file "one\n.indent x".toUTF8.toList),
    (["kept"], .file [1, 2, 3])]

def someFiles : FileSystem where
  entries := someEntries
  unwritable? path _ :=
    if path = "kept" then some ⟨.other "Permission denied (os error 13)", someEntries⟩ else none

theorem someFiles_traceless (path : String) (bytes : List UInt8) (fault : FileFault)
    (after : FileSystem) (h : someFiles.write path bytes = (.error fault, after)) :
    after = someFiles := by
  unfold FileSystem.write at h
  split at h
  · rename_i refusal hrefusal
    simp only [someFiles, Option.ite_none_right_eq_some, Option.some.injEq] at hrefusal
    obtain ⟨-, rfl⟩ := hrefusal
    exact (Prod.mk.inj h).2.symm
  · split at h
    · exact (Prod.mk.inj h).2.symm
    · cases h

theorem someFiles_write (bytes : List UInt8) :
    (someFiles.write "text" bytes).1 = .ok () := by
  have htarget : someFiles.target "text" = .ok ["text"] := by decide +kernel
  have hfree : someFiles.unwritable? "text" bytes = none := rfl
  rw [FileSystem.write, hfree, htarget]

theorem pageContents?_one {o : Options} {stamp : Stamp} {bytes : List UInt8}
    (h : (o.document {} "one").bytes stamp = .ok bytes) (ho : o.copies = 1) :
    Pdf.pageContents? bytes =
      some [Pdf.ascii "BT\n36 794 Td\n0 0 Td\n/Helvetica 12 Tf\n(one) Tj\nET"] := by
  have hpages : ((o.document {} "one").render.map fun r =>
      r.pages.map fun page => Pdf.contentBytes page.content.toList) =
      .ok [Pdf.ascii "BT\n36 794 Td\n0 0 Td\n/Helvetica 12 Tf\n(one) Tj\nET"] := by
    unfold Options.document
    rw [ho]
    decide +kernel
  obtain ⟨r, hr⟩ : ∃ r, (o.document {} "one").render = .ok r := by
    cases hr : (o.document {} "one").render with
    | error fault => simp [hr, Except.map] at hpages
    | ok r => exact ⟨r, rfl⟩
  rw [hr] at hpages
  rw [Document.bytes, hr] at h
  obtain rfl := Except.ok.inj h
  exact (Document.pageContents?_eq hr stamp).trans (congrArg some (Except.ok.inj hpages))

/-- A run over its own input, which turns into the document, and a run into a file that cannot be
written. In a third run a value of the configuration, a directive of the source and the output are
all at fault; the value is blamed. Both failures leave all files as they are. -/
theorem run_all_or_nothing_threeRuns :
    let fs := someFiles
    let stamp : Stamp := ⟨⟨"20240101000000", 0⟩, []⟩
    let wording : Wording := fun _ => "expected value at line 1 column 1"
    let itself : Options := { input := "text", output := "text" }
    let refused : Options := { input := "text", output := "kept" }
    let worst : Options := { input := "draft", output := "kept", config := some "page.json" }
    (Request.read ["text", "--output=text"] = .ok (.convert itself) ∧
      ∃ after report bytes, itself.run fs stamp wording = .ok (after, report) ∧ report.code = 0 ∧
        itself.Succeeds fs after stamp ∧ after.read "text" = .ok bytes ∧
        Pdf.pageContents? bytes =
          some [Pdf.ascii "BT\n36 794 Td\n0 0 Td\n/Helvetica 12 Tf\n(one) Tj\nET"]) ∧
    (Request.read ["text", "--output=kept"] = .ok (.convert refused) ∧
      ∃ report, refused.run fs stamp wording = .ok (fs, report) ∧ report.code = 1 ∧
        report.notices.getLast? =
          some (.text "Error: failed to write document: Permission denied (os error 13)")) ∧
    (Request.read ["draft", "--output=kept", "-c", "page.json"] = .ok (.convert worst) ∧
      worst.Blames fs stamp 3 (.config (.notPositive .normalFontSize 0)) ∧
      worst.Blames fs stamp 5 (.malformedIndent ⟨2, ".indent x", .notInteger⟩) ∧
      worst.Blames fs stamp 6 (.unsaved (.other "Permission denied (os error 13)")) ∧
      ∃ report, worst.run fs stamp wording = .ok (fs, report) ∧ report.code = 1 ∧
        report.notices.getLast? =
          some (.text "Error: invalid config: normalFontSize must be positive, got 0")) := by
  intro fs stamp wording itself refused worst
  have hsource : Reader.text fs.read "text" = .ok "one" := by decide +kernel
  have hproper : SourceLine.firstMalformed 1 (Text.lines "one") = none := by decide
  have hkept : ∀ bytes,
      (fs.write "kept" bytes).1 = .error (.other "Permission denied (os error 13)") :=
    fun _ => rfl
  refine ⟨?itself, ?refused, ?worst⟩
  case itself =>
    have ho : Request.read ["text", "--output=text"] = .ok (.convert itself) := by decide +kernel
    obtain ⟨after, report, hrun, ⟨hcode, hsucceeds⟩ | ⟨-, -, place, e, hblame, -, -⟩⟩ :=
      run_all_or_nothing _ itself ho fs stamp wording
        (fun _ source hc _ _ => Options.render_isOk_of_default rfl hc source)
        fun _ => someFiles_traceless _ _
    · obtain ⟨c, source, bytes, hc, hread, hbytes, hwritten⟩ := hsucceeds.written
      obtain rfl : ({} : Config) = c := Except.ok.inj hc
      obtain rfl : "one" = source := Except.ok.inj (hsource.symm.trans hread)
      exact ⟨ho, after, report, bytes, hrun, hcode, hsucceeds, hwritten.read rfl,
        pageContents?_one hbytes rfl⟩
    · -- Nothing is left to blame but the output, and the output can be written.
      obtain rfl := Options.eq_six_of_proper (c := {}) rfl hsource hproper hblame.blamed
      obtain ⟨fault, -, hall | ⟨bytes, -, hrefused⟩⟩ := hblame.blamed.unsaved_of_output
      · cases (someFiles_write []).symm.trans (hall [])
      · cases (someFiles_write bytes).symm.trans hrefused
  case refused =>
    have ho : Request.read ["text", "--output=kept"] = .ok (.convert refused) := by decide +kernel
    have hblames : refused.Blames fs stamp 6
        (.unsaved (.other "Permission denied (os error 13)")) := .outputUnwritable hkept
    obtain ⟨after, report, hrun, ⟨-, hsucceeds⟩ | ⟨hcode, rfl, place, e, hblame, hlast, -⟩⟩ :=
      run_all_or_nothing _ refused ho fs stamp wording
        (fun _ source hc _ _ => Options.render_isOk_of_default rfl hc source)
        fun _ => someFiles_traceless _ _
    · exact absurd hblames (hsucceeds.faultless 6 _)
    · have hfirst := hblames.output_toBlame fun _ _ =>
        Options.eq_six_of_proper (c := {}) rfl hsource hproper
      obtain ⟨rfl, rfl⟩ := hfirst.unique hblame
      refine ⟨ho, report, hrun, hcode, ?_⟩
      rw [hlast]
      decide +kernel
  case worst =>
    have ho : Request.read ["draft", "--output=kept", "-c", "page.json"] =
        .ok (.convert worst) := by
      decide +kernel
    have hjson : Reader.text fs.read "page.json" = .ok "\x7b\"normalFontSize\": 0\x7d" := by
      decide +kernel
    have hdraft : Reader.text fs.read "draft" = .ok "one\n.indent x" := by decide +kernel
    have hvalue : worst.Blames fs stamp 3 (.config (.notPositive .normalFontSize 0)) :=
      .configValues rfl hjson (c := { normalFontSize := 0 }) (by decide +kernel) (by decide +kernel)
    have hconfig : ∀ c, worst.readConfig fs.read ≠ .ok c := by
      intro c hc
      exact absurd (Options.four_le_of_readConfig hc hvalue) (by decide)
    obtain ⟨after, report, hrun, ⟨-, hsucceeds⟩ | ⟨hcode, rfl, place, e, hblame, hlast, -⟩⟩ :=
      run_all_or_nothing _ worst ho fs stamp wording (fun c _ hc => absurd hc (hconfig c))
        fun _ => someFiles_traceless _ _
    · exact absurd hvalue (hsucceeds.faultless 3 _)
    · obtain ⟨rfl, rfl⟩ := (hvalue.config_toBlame (by decide)).unique hblame
      refine ⟨ho, hvalue, .directive hdraft (by decide), .outputUnwritable hkept, report, hrun,
        hcode, ?_⟩
      rw [hlast]
      decide +kernel

end CommandLine
end Typesetter
