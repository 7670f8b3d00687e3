/-
  DefineFold.Proofs.Command.Snapshot

  A run over a directory whose output may lie among its sources. Each source is read at its turn and
  not before, so that it can be what an earlier one has become, and of two sources that go to one
  place the later one counts. `Sees` is the text that a source has at its turn and `Leaves` what is
  in the end where it goes, both from the file system before the run alone.

  A run without a failure leaves at a target the rewriting of what its source was before the run
  just if that is what `Leaves` says (`Options.run_directory_snapshot_iff`). With the output right
  where the sources are it always does; with the output somewhere below them it need not.
-/

import DefineFold.Proofs.Command.Directory

namespace DefineFold

open FileSystem

namespace Options

section

variable (o : Options) (grammar : Grammar) (pass : Pass) (outDir : String) (fs : FileSystem)

/-! ## Texts at their turn -/

/-- What comes of a text that is the source at a path. -/
def rewriting? (path text : String) : Option String :=
  (o.languageFor? path).bind fun language =>
    (pass.run (.ofString text) (grammar language text) path).toOption.map Outcome.code

theorem exists_outcome_iff {path code : String} :
    (∃ outcome, o.handle grammar pass fs path = .ok outcome ∧ outcome.code = code) ↔
      ∃ text, readSource fs path = .ok text ∧ o.rewriting? grammar pass path text = some code := by
  rw [handle]
  simp only [rewriting?]
  cases o.languageFor? path with
  | none => simp
  | some language =>
    simp only [passOverFile, Option.bind_some]
    cases readSource fs path with
    | error fault => simp
    | ok text =>
      simp only [Except.ok.injEq, exists_eq_left']
      cases pass.run (.ofString text) (grammar language text) path with
      | error fault => simp [Except.toOption]
      | ok outcome => simp [Except.toOption]

/-- The text that the source at a path has at its turn, behind the given sources: what has come of
    the last of them that goes to where it lies, and its own text if none of them does. -/
inductive Sees : List String → String → String → Prop
  | own {front : List String} {path text : String} :
      (∀ place, fs.LeadsTo path place → ¬ o.GoesTo outDir fs front place) →
        readSource fs path = .ok text → Sees front path text
  | written {before between : List String} {earlier path text code : String}
      {place : List String} :
      fs.LeadsTo path place → fs.LeadsTo (FilePath.target o.path earlier outDir) place →
        ¬ o.GoesTo outDir fs between place → Sees before earlier text →
          o.rewriting? grammar pass earlier text = some code →
            Sees (before ++ earlier :: between) path code

/-- What a run leaves at a place: the code of the last source that goes there, from the text that
    this one has at its turn. A device takes every code and keeps none. -/
def LeavesAt (paths : List String) (place : List String) (code : String) : Prop :=
  fs.root.at? place = some .device ∧ code = "" ∨
    fs.root.at? place ≠ some .device ∧ ∃ before last rest text,
      paths = before ++ last :: rest ∧ fs.LeadsTo (FilePath.target o.path last outDir) place ∧
      ¬ o.GoesTo outDir fs rest place ∧ o.Sees grammar pass outDir fs before last text ∧
      o.rewriting? grammar pass last text = some code

/-- What a run leaves where a source goes. -/
def Leaves (paths : List String) (path code : String) : Prop :=
  ∃ place, fs.LeadsTo (FilePath.target o.path path outDir) place ∧
    o.LeavesAt grammar pass outDir fs paths place code

/-- Where a source goes, the files have the rewriting of what it was before the run. -/
def Rewrites (files : FileSystem) (path : String) : Prop :=
  ∃ outcome, o.handle grammar pass fs path = .ok outcome ∧
    files.read (FilePath.target o.path path outDir) = .ok outcome.code

/-! ## Runs without a failure -/

/-- So far every source has been handled, and written where it goes. -/
def Succeeds (front : List String) : Prop :=
  (o.after grammar pass outDir fs front).2 = none ∧
    (o.after grammar pass outDir fs front).1.failed = 0

/-- Everything that a turn does where nothing fails. -/
theorem succeeds_concat_iff (front : List String) (path : String) :
    o.Succeeds grammar pass outDir fs (front ++ [path]) ↔
      o.Succeeds grammar pass outDir fs front ∧ ∃ outcome,
        o.handle grammar pass (o.after grammar pass outDir fs front).1.files path = .ok outcome ∧
        writeText (o.after grammar pass outDir fs front).1.files
          (FilePath.target o.path path outDir) outcome.code =
            ((o.after grammar pass outDir fs (front ++ [path])).1.files, none) := by
  rw [Succeeds, after_concat, Succeeds]
  cases hended : (o.after grammar pass outDir fs front).2 with
  | some failure => simp [hended]
  | none =>
    rw [if_neg (by simp)]
    rcases o.handleOne_cases grammar pass outDir (o.after grammar pass outDir fs front).1 path
      with ⟨failure, text, hhandle, -, hone⟩ | ⟨outcome, files, fault, hhandle, hwrite, hone⟩ |
        ⟨outcome, files, hhandle, hwrite, hone⟩
    · simp [hone, hhandle]
    · simp [hone, hhandle, hwrite]
    · simp [hone, hhandle, hwrite]

theorem Succeeds.of_append {front rest : List String}
    (h : o.Succeeds grammar pass outDir fs (front ++ rest)) :
    o.Succeeds grammar pass outDir fs front := by
  induction rest using List.reverseRecOn with
  | nil => rwa [List.append_nil] at h
  | append_singleton rest path ih =>
    rw [← List.append_assoc, succeeds_concat_iff] at h
    exact ih h.1

end

section

variable {o : Options} {grammar : Grammar} {pass : Pass} {outDir : String} {fs : FileSystem}

/-- Later turns write where their sources go, and nowhere else. -/
theorem Succeeds.grows {front rest : List String}
    (h : o.Succeeds grammar pass outDir fs (front ++ rest)) :
    FileSystem.Grows (o.GoesTo outDir fs rest) (o.after grammar pass outDir fs front).1.files
      (o.after grammar pass outDir fs (front ++ rest)).1.files := by
  induction rest using List.reverseRecOn with
  | nil =>
    rw [List.append_nil]
    exact .refl _ _
  | append_singleton rest path ih =>
    rw [← List.append_assoc, succeeds_concat_iff] at h
    obtain ⟨hrest, outcome, -, hwrite⟩ := h
    rw [← List.append_assoc]
    -- The last turn writes at the place to which its target leads, or at none if that is a device.
    obtain ⟨place, hplace, hstep⟩ := exists_place_of_writeText hwrite
    have hplace' := hplace.of_grows (o.grows_after grammar pass outDir fs (front ++ rest))
    have hkept := ih hrest
    rcases hstep with ⟨hstep, -⟩ | ⟨hstep, -⟩
    · apply (hkept.trans hstep).mono
      rintro other (⟨path', hpath', hother⟩ | rfl)
      · exact ⟨path', List.mem_append_left _ hpath', hother⟩
      · exact ⟨path, List.mem_append_right _ List.mem_cons_self, hplace'⟩
    · apply (hkept.trans hstep).mono
      rintro other (⟨path', hpath', hother⟩ | hfalse)
      · exact ⟨path', List.mem_append_left _ hpath', hother⟩
      · exact hfalse.elim

/-- A turn finds the place where its source goes, and what it has written is there until another
    source goes to the same place. -/
theorem Succeeds.exists_outcome {before rest : List String} {path : String}
    (h : o.Succeeds grammar pass outDir fs (before ++ path :: rest)) :
    ∃ outcome place,
      o.handle grammar pass (o.after grammar pass outDir fs before).1.files path = .ok outcome ∧
      fs.LeadsTo (FilePath.target o.path path outDir) place ∧
      (o.after grammar pass outDir fs (before ++ path :: rest)).1.files.locate .follow
        (FilePath.target o.path path outDir) = .ok (.found place) ∧
      (fs.root.at? place ≠ some .device → ¬ o.GoesTo outDir fs rest place →
        (o.after grammar pass outDir fs (before ++ path :: rest)).1.files.root.at? place =
          some (.file (some outcome.code))) := by
  rw [List.append_cons] at h ⊢
  have hgrows := h.grows
  obtain ⟨-, outcome, hhandle, hwrite⟩ := (succeeds_concat_iff ..).mp h.of_append
  obtain ⟨place, hlocate, htext⟩ := locate_of_writeText hwrite
  have hnow := o.grows_after grammar pass outDir fs (before ++ [path])
  have hplace := (leadsTo_of_locate (.refl (fun _ => False) _) hlocate nofun nofun).of_grows hnow
  refine ⟨outcome, place, hhandle, hplace, locate_of_grows hgrows hlocate nofun nofun, ?_⟩
  intro hdevice hlast
  rcases htext with htext | hnew
  · exact (hgrows.root.texts _ hlast).mpr htext
  · -- A device would have been there from the start.
    rcases hnow.root.plain hnew with hplain | hold
    · exact hplain.elim
    · exact absurd hold hdevice

theorem exists_last_of_goesTo {front : List String} {place : List String}
    (h : o.GoesTo outDir fs front place) :
    ∃ before last between, front = before ++ last :: between ∧
      fs.LeadsTo (FilePath.target o.path last outDir) place ∧
      ¬ o.GoesTo outDir fs between place := by
  induction front using List.reverseRecOn with
  | nil =>
    obtain ⟨path, hpath, -⟩ := h
    simp at hpath
  | append_singleton front path ih =>
    by_cases hlast : fs.LeadsTo (FilePath.target o.path path outDir) place
    · refine ⟨front, path, [], rfl, hlast, ?_⟩
      rintro ⟨other, hother, -⟩
      simp at hother
    · obtain ⟨other, hother, hleads⟩ := h
      rcases List.mem_append.mp hother with hother | hother
      · obtain ⟨before, last, between, rfl, hgoes, hbetween⟩ := ih ⟨other, hother, hleads⟩
        refine ⟨before, last, between ++ [path], by simp, hgoes, ?_⟩
        rintro ⟨x, hx, hxleads⟩
        rcases List.mem_append.mp hx with hx | hx
        · exact hbetween ⟨x, hx, hxleads⟩
        · exact hlast (List.mem_singleton.mp hx ▸ hxleads)
      · exact absurd (List.mem_singleton.mp hother ▸ hleads) hlast

/-! ## Sources where they lie -/

/-- A file lies at a place, where its path leads however the file system grows. -/
structure Lies (fs : FileSystem) (path : String) (place : List String) : Prop where
  isFile : ∃ text, fs.root.at? place = some (.file text)
  locate {written : List String → Prop} {new : FileSystem} : FileSystem.Grows written fs new →
    new.locate .follow path = .ok (.found place)
  read {written : List String → Prop} {new : FileSystem} : FileSystem.Grows written fs new →
    ¬ written place → readSource new path = readSource fs path

theorem admits_of_readSource {fs : FileSystem} {path text : String}
    (h : readSource fs path = .ok text) : Admits path := by
  rw [readSource] at h
  split at h
  · rename_i hfile
    rw [FileSystem.isFile] at hfile
    split at hfile
    · rename_i hentry
      obtain ⟨names, hlocate, -⟩ := locate_of_entry hentry
      exact (locate_eq_ok hlocate).1
    · simp at hfile
  · simp at h

theorem readSource_of_holds {fs : FileSystem} {path text : String} {place : List String}
    (h : fs.Holds path place text) : readSource fs path = .ok text := by
  have hfile : fs.isFile path = true := by
    rw [FileSystem.isFile, entry_of_locate h.1 h.2]
  rw [readSource, if_pos hfile, h.read]

/-- Every source of a run without a failure lies somewhere. -/
theorem Succeeds.lies {paths : List String} (h : o.Succeeds grammar pass outDir fs paths)
    (hregular : fs.root.isRegular = true) {walk : Walk} (hwalk : walk.Faithful fs isKept o.path)
    (hdirectory : fs.isDirectory o.path = true)
    (hpaths : collectSources walk fs o.path = .ok paths) {path : String} (hpath : path ∈ paths) :
    ∃ place, Lies fs path place := by
  obtain ⟨-, source, entries, hroot, hentries, hnames⟩ :=
    exists_names_of_collectSources hregular hwalk hdirectory hpaths
  obtain ⟨names, hfile⟩ := hnames path hpath
  -- It has been read at its turn, so that its path is one that the file system admits.
  obtain ⟨before, rest, rfl⟩ := List.append_of_mem hpath
  obtain ⟨outcome, -, hhandle, -⟩ := h.exists_outcome
  obtain ⟨text, hread, -⟩ := (o.exists_outcome_iff grammar pass _).mp ⟨outcome, hhandle, rfl⟩
  have hadmits := admits_of_readSource hread
  refine ⟨source ++ names, ?_, fun hgrows => ?_, fun hgrows hwritten => ?_⟩
  · rw [Entry.at?_append, hentries]
    exact hfile.isFile
  · exact locate_of_isFileBelow hgrows hroot hentries hfile hadmits
  · exact readSource_of_grows hgrows hroot hentries hfile hwritten

theorem Lies.ne_device {path : String} {place : List String} (h : Lies fs path place) :
    fs.root.at? place ≠ some .device := by
  obtain ⟨text, hfile⟩ := h.isFile
  rw [hfile]
  simp

theorem Lies.leadsTo_iff {path : String} {place : List String} (h : Lies fs path place)
    (goal : List String) : fs.LeadsTo path goal ↔ goal = place := by
  have hplace : fs.LeadsTo path place :=
    leadsTo_of_locate (.refl (fun _ => False) fs) (h.locate (.refl (fun _ => False) fs)) nofun nofun
  constructor
  · exact fun hgoal => Leads.unique hgoal hplace
  · rintro rfl
    exact hplace

/-! ## What is read and what is left -/

section

variable {paths : List String} (hlies : ∀ path ∈ paths, ∃ place, Lies fs path place)

include hlies

/-- A source to which an earlier one goes is what has come of the last of these. -/
theorem Succeeds.readSource_of_leadsTo {before between : List String} {earlier path : String}
    {place : List String} (hpath : path ∈ paths)
    (h : o.Succeeds grammar pass outDir fs (before ++ earlier :: between))
    (hplace : fs.LeadsTo path place)
    (hearlier : fs.LeadsTo (FilePath.target o.path earlier outDir) place)
    (hbetween : ¬ o.GoesTo outDir fs between place) :
    ∃ outcome,
      o.handle grammar pass (o.after grammar pass outDir fs before).1.files earlier =
        .ok outcome ∧
      readSource (o.after grammar pass outDir fs (before ++ earlier :: between)).1.files path =
        .ok outcome.code := by
  obtain ⟨here, hhere⟩ := hlies path hpath
  obtain rfl := (hhere.leadsTo_iff place).mp hplace
  obtain ⟨outcome, goal, hhandle, hgoal, -, htext⟩ := h.exists_outcome
  obtain rfl := Leads.unique hgoal hearlier
  refine ⟨outcome, hhandle, readSource_of_holds ⟨hhere.locate (o.grows_after ..), ?_⟩⟩
  exact htext hhere.ne_device hbetween

theorem Sees.readSource {front : List String} {path text : String}
    (h : o.Sees grammar pass outDir fs front path text)
    (hsucceeds : o.Succeeds grammar pass outDir fs front) (hfront : ∀ x ∈ front, x ∈ paths)
    (hpath : path ∈ paths) :
    DefineFold.readSource (o.after grammar pass outDir fs front).1.files path = .ok text := by
  induction h with
  | @own front path text hnone hread =>
    -- Nothing has been written to where the source lies.
    obtain ⟨here, hhere⟩ := hlies path hpath
    have hplace := (hhere.leadsTo_iff here).mpr rfl
    rw [hhere.read (o.grows_after grammar pass outDir fs front) (hnone here hplace), hread]
  | @written before between earlier path text code place hplace hearlier hbetween _ hcode ih =>
    have hmem : earlier ∈ paths := hfront earlier (by simp)
    have hread := ih hsucceeds.of_append (fun x hx => hfront x (List.mem_append_left _ hx)) hmem
    obtain ⟨outcome, hhandle, hnow⟩ :=
      hsucceeds.readSource_of_leadsTo hlies hpath hplace hearlier hbetween
    obtain ⟨outcome', hhandle', rfl⟩ :=
      (o.exists_outcome_iff grammar pass _).mpr ⟨text, hread, hcode⟩
    rw [hhandle] at hhandle'
    rw [hnow, Except.ok.inj hhandle']

/-- At its turn a source is read as the text that it then has. -/
theorem Succeeds.readSource_iff {front : List String} {path text : String}
    (h : o.Succeeds grammar pass outDir fs front) (hfront : ∀ x ∈ front, x ∈ paths)
    (hpath : path ∈ paths) :
    DefineFold.readSource (o.after grammar pass outDir fs front).1.files path = .ok text ↔
      o.Sees grammar pass outDir fs front path text := by
  refine ⟨fun hread => ?_, fun hsees => hsees.readSource hlies h hfront hpath⟩
  -- On the sources in front: the one that has written this one is among them, with fewer in front.
  induction hn : front.length using Nat.strongRecOn generalizing front path text with
  | ind n ih =>
    obtain ⟨here, hhere⟩ := hlies path hpath
    have hplace := (hhere.leadsTo_iff here).mpr rfl
    by_cases hgoes : o.GoesTo outDir fs front here
    · obtain ⟨before, earlier, between, rfl, hearlier, hbetween⟩ := exists_last_of_goesTo hgoes
      obtain ⟨outcome, hhandle, hnow⟩ :=
        h.readSource_of_leadsTo hlies hpath hplace hearlier hbetween
      obtain rfl := Except.ok.inj (hnow.symm.trans hread)
      obtain ⟨text, hearlierRead, hcode⟩ :=
        (o.exists_outcome_iff grammar pass _).mp ⟨outcome, hhandle, rfl⟩
      refine .written hplace hearlier hbetween ?_ hcode
      refine ih before.length ?_ h.of_append (fun x hx => hfront x (List.mem_append_left _ hx))
        (hfront earlier (by simp)) hearlierRead rfl
      rw [← hn, List.length_append, List.length_cons]
      omega
    · refine .own (fun place hplace' => ?_) ?_
      · obtain rfl := (hhere.leadsTo_iff place).mp hplace'
        exact hgoes
      · rw [← hhere.read (o.grows_after grammar pass outDir fs front) hgoes]
        exact hread

omit hlies in
theorem Succeeds.exists_target (h : o.Succeeds grammar pass outDir fs paths) {path : String}
    (hpath : path ∈ paths) :
    ∃ place, fs.LeadsTo (FilePath.target o.path path outDir) place ∧
      (o.after grammar pass outDir fs paths).1.files.locate .follow
        (FilePath.target o.path path outDir) = .ok (.found place) := by
  obtain ⟨before, rest, rfl⟩ := List.append_of_mem hpath
  obtain ⟨-, place, -, hplace, hlocate, -⟩ := h.exists_outcome
  exact ⟨place, hplace, hlocate⟩

omit hlies in
theorem read_of_device {path : String} {place : List String}
    (hdevice : fs.root.at? place = some .device)
    (hlocate : (o.after grammar pass outDir fs paths).1.files.locate .follow path =
      .ok (.found place)) :
    (o.after grammar pass outDir fs paths).1.files.read path = .ok "" := by
  obtain ⟨e, he, halike⟩ := (o.grows_after grammar pass outDir fs paths).root.kept hdevice
  cases e with
  | device => rw [FileSystem.read, entry_of_locate hlocate he]
  | _ => exact halike.elim

/-- Of the last source that goes to a place, the code is there in the end. -/
theorem Succeeds.read_iff_rewriting?
    (h : o.Succeeds grammar pass outDir fs paths) {path code last : String}
    {before rest place : List String} (hdevice : fs.root.at? place ≠ some .device)
    (hlocate : (o.after grammar pass outDir fs paths).1.files.locate .follow path =
      .ok (.found place))
    (heq : paths = before ++ last :: rest)
    (hlast : fs.LeadsTo (FilePath.target o.path last outDir) place)
    (hrest : ¬ o.GoesTo outDir fs rest place) :
    (o.after grammar pass outDir fs paths).1.files.read path = .ok code ↔
      ∃ text, o.Sees grammar pass outDir fs before last text ∧
        o.rewriting? grammar pass last text = some code := by
  subst heq
  obtain ⟨outcome, goal, hhandle, hgoal, -, htext⟩ := h.exists_outcome
  obtain rfl := Leads.unique hgoal hlast
  rw [Holds.read ⟨hlocate, htext hdevice hrest⟩, Except.ok.injEq]
  have hsees : ∀ {text}, o.Sees grammar pass outDir fs before last text ↔
      DefineFold.readSource (o.after grammar pass outDir fs before).1.files last = .ok text :=
    (h.of_append.readSource_iff hlies (fun x hx => List.mem_append_left _ hx) (by simp)).symm
  simp only [hsees]
  rw [← o.exists_outcome_iff grammar pass]
  simp [hhandle]

/-- What a run without a failure leaves where a source goes. -/
theorem Succeeds.read_target_iff (h : o.Succeeds grammar pass outDir fs paths) {path code : String}
    (hpath : path ∈ paths) :
    (o.after grammar pass outDir fs paths).1.files.read (FilePath.target o.path path outDir) =
        .ok code ↔
      o.Leaves grammar pass outDir fs paths path code := by
  obtain ⟨place, hplace, hlocate⟩ := h.exists_target hpath
  have hleaves : o.Leaves grammar pass outDir fs paths path code ↔
      o.LeavesAt grammar pass outDir fs paths place code := by
    constructor
    · rintro ⟨place', hplace', hcases⟩
      rwa [Leads.unique hplace hplace']
    · exact fun hcases => ⟨place, hplace, hcases⟩
  rw [hleaves, LeavesAt]
  by_cases hdevice : fs.root.at? place = some .device
  · rw [read_of_device hdevice hlocate, Except.ok.injEq]
    simp [hdevice, eq_comm]
  · simp only [hdevice, false_and, false_or, ne_eq, not_false_eq_true, true_and]
    constructor
    · intro hcode
      obtain ⟨before, last, rest, heq, hlast, hrest⟩ :=
        exists_last_of_goesTo ⟨path, hpath, hplace⟩
      obtain ⟨text, htext⟩ :=
        (h.read_iff_rewriting? hlies hdevice hlocate heq hlast hrest).mp hcode
      exact ⟨before, last, rest, text, heq, hlast, hrest, htext⟩
    · rintro ⟨before, last, rest, text, heq, hlast, hrest, htext⟩
      exact (h.read_iff_rewriting? hlies hdevice hlocate heq hlast hrest).mpr ⟨text, htext⟩

/-- Where no source before it has gone to where a source lies, and none behind it goes to the same
    place, the rewriting of what was there before the run is there in the end. -/
theorem Succeeds.rewrites_of_apart {front rest : List String} {path : String}
    (h : o.Succeeds grammar pass outDir fs (front ++ path :: rest)) (hpath : path ∈ paths)
    (hsource : ∀ place, fs.LeadsTo path place → ¬ o.GoesTo outDir fs front place)
    (htarget : ∀ place, fs.LeadsTo (FilePath.target o.path path outDir) place →
      fs.root.at? place ≠ some .device ∧ ¬ o.GoesTo outDir fs rest place) :
    o.Rewrites grammar pass outDir fs
      (o.after grammar pass outDir fs (front ++ path :: rest)).1.files path := by
  obtain ⟨here, hhere⟩ := hlies path hpath
  obtain ⟨outcome, place, hhandle, hplace, hlocate, htext⟩ := h.exists_outcome
  have hkept := hhere.read (o.grows_after grammar pass outDir fs front)
    (hsource here ((hhere.leadsTo_iff here).mpr rfl))
  obtain ⟨hdevice, hrest⟩ := htarget place hplace
  refine ⟨outcome, ?_, Holds.read ⟨hlocate, htext hdevice hrest⟩⟩
  rw [← o.handle_of_readSource grammar pass hkept]
  exact hhandle

end

/-- A file that lies somewhere lies under its names. -/
theorem Lies.eq_append {root path : String} {place source names : List String}
    {entries : List (String × Entry)} (h : Lies fs path place)
    (hroot : fs.locate .follow root = .ok (.found source))
    (hentries : fs.root.at? source = some (.directory entries))
    (hfile : IsFileBelow root (.directory entries) names path) : place = source ++ names := by
  have hlocate := h.locate (.refl (fun _ => False) fs)
  have hbelow := locate_of_isFileBelow (.refl (fun _ => False) fs) hroot hentries hfile
    (locate_eq_ok hlocate).1
  exact Place.found.inj (Except.ok.inj (hlocate.symm.trans hbelow))

/-- Two files below a directory do not lie at one place. -/
theorem Lies.unique {root path path' : String} {place source names names' : List String}
    {entries : List (String × Entry)} (h : Lies fs path place) (h' : Lies fs path' place)
    (hroot : fs.locate .follow root = .ok (.found source))
    (hentries : fs.root.at? source = some (.directory entries))
    (hfile : IsFileBelow root (.directory entries) names path)
    (hfile' : IsFileBelow root (.directory entries) names' path') : path = path' := by
  have heq := h.eq_append hroot hentries hfile
  rw [h'.eq_append hroot hentries hfile'] at heq
  obtain rfl := List.append_cancel_left heq
  exact hfile.below.unique hfile'.below

/-- From a directory to itself a source goes to where it lies. -/
theorem leadsTo_of_leadsTo_target {root path : String} {place names here goal : List String}
    {e : Entry} (hroot : root ≠ "") (hfile : IsFileBelow root e names path)
    (hplace : fs.LeadsTo root place) (hout : fs.LeadsTo outDir place)
    (hhere : fs.LeadsTo path here)
    (h : fs.LeadsTo (FilePath.target root path outDir) goal) : goal = here := by
  obtain ⟨above, habove, hgoal⟩ := exists_of_leadsTo_target hroot hfile h
  obtain ⟨above', habove', hnames⟩ := exists_of_leadsTo_below hfile.below hhere
  obtain rfl := Leads.unique hout habove
  obtain rfl := Leads.unique hplace habove'
  exact Leads.unique hgoal hnames

/-- In a run from a directory to itself the sources do not meet. -/
theorem Succeeds.rewrites_of_same {paths : List String}
    (h : o.Succeeds grammar pass outDir fs paths) (hregular : fs.root.isRegular = true)
    {walk : Walk} (hwalk : walk.Faithful fs isKept o.path)
    (hdirectory : fs.isDirectory o.path = true)
    (hpaths : collectSources walk fs o.path = .ok paths) {place : List String}
    (hplace : fs.LeadsTo o.path place) (hout : fs.LeadsTo outDir place)
    {path : String} (hpath : path ∈ paths) :
    o.Rewrites grammar pass outDir fs (o.after grammar pass outDir fs paths).1.files path := by
  have hlies : ∀ x ∈ paths, ∃ here, Lies fs x here :=
    fun x hx => h.lies hregular hwalk hdirectory hpaths hx
  obtain ⟨hnodup, source, entries, hroot, hentries, hnames⟩ :=
    exists_names_of_collectSources hregular hwalk hdirectory hpaths
  have hne : o.path ≠ "" := (locate_eq_ok hroot).1.2.1
  have hself : ∀ {x goal here}, x ∈ paths → Lies fs x here →
      fs.LeadsTo (FilePath.target o.path x outDir) goal → goal = here := by
    intro x goal here hx hhere hgoal
    obtain ⟨names, hfile⟩ := hnames x hx
    exact leadsTo_of_leadsTo_target hne hfile hplace hout ((hhere.leadsTo_iff here).mpr rfl) hgoal
  have hapart : ∀ {x y here}, x ∈ paths → y ∈ paths → Lies fs x here →
      fs.LeadsTo (FilePath.target o.path y outDir) here → x = y := by
    intro x y here hx hy hhere hgoal
    obtain ⟨there, hthere⟩ := hlies y hy
    obtain rfl := hself hy hthere hgoal
    obtain ⟨names, hfile⟩ := hnames x hx
    obtain ⟨names', hfile'⟩ := hnames y hy
    exact hhere.unique hthere hroot hentries hfile hfile'
  obtain ⟨here, hhere⟩ := hlies path hpath
  obtain ⟨front, rest, rfl⟩ := List.append_of_mem hpath
  rw [List.nodup_append, List.nodup_cons] at hnodup
  refine h.rewrites_of_apart hlies hpath (fun goal hgoal => ?_) (fun goal hgoal => ?_)
  · obtain rfl := (hhere.leadsTo_iff goal).mp hgoal
    rintro ⟨other, hother, hleads⟩
    obtain rfl := hapart hpath (List.mem_append_left _ hother) hhere hleads
    exact hnodup.2.2 path hother path List.mem_cons_self rfl
  · obtain rfl := hself hpath hhere hgoal
    refine ⟨hhere.ne_device, ?_⟩
    rintro ⟨other, hother, hleads⟩
    have hmem : other ∈ front ++ path :: rest := by simp [hother]
    obtain rfl := hapart hpath hmem hhere hleads
    exact hnodup.2.1.1 hother

end

/-! ## Outcomes -/

/-- A directory run without a failure. Where a source goes, the rewriting of what it was before the
    run is there in the end just if that is what the run leaves there (`Leaves`): the last source
    that goes there counts, and the text that it has at its turn, which an earlier source may have
    written. Nothing goes wrong for a source that lies where no earlier one goes, and that goes
    where no later one does. So the output may be the directory of the sources itself. -/
theorem run_directory_snapshot_iff {o : Options} (tools : Tools) {fs : FileSystem}
    {baseDir outDir : String} {defines : Defines} {paths : List String}
    (hvalid : o.validate fs = .ok ())
    (hdefines : o.loadDefines tools.formats fs baseDir = .ok defines)
    (hdirectory : fs.isDirectory o.path = true) (hout : o.outDir = some outDir)
    (hwalk : tools.walk.Faithful fs isKept o.path)
    (hpaths : collectSources tools.walk fs o.path = .ok paths)
    (hregular : fs.root.isRegular = true) (hsuccess : (o.run tools fs baseDir).failure = none) :
    (∀ path ∈ paths,
      o.Rewrites tools.grammar (o.pass defines) outDir fs (o.run tools fs baseDir).files path ↔
      ∃ outcome, o.handle tools.grammar (o.pass defines) fs path = .ok outcome ∧
        o.Leaves tools.grammar (o.pass defines) outDir fs paths path outcome.code) ∧
    (∀ front path rest, paths = front ++ path :: rest →
      (∀ place, fs.LeadsTo path place → ¬ o.GoesTo outDir fs front place) →
      (∀ place, fs.LeadsTo (FilePath.target o.path path outDir) place →
        fs.root.at? place ≠ some .device ∧ ¬ o.GoesTo outDir fs rest place) →
      o.Rewrites tools.grammar (o.pass defines) outDir fs (o.run tools fs baseDir).files path) ∧
    ∀ place, fs.LeadsTo o.path place → fs.LeadsTo outDir place → ∀ path ∈ paths,
      o.Rewrites tools.grammar (o.pass defines) outDir fs (o.run tools fs baseDir).files path := by
  rw [run_eq_runDirectory hvalid hdefines hdirectory hout] at hsuccess ⊢
  obtain ⟨hfiles, hfailure⟩ := o.runDirectory_cases tools (o.pass defines) hpaths
  -- A run has no failure just if it goes through to the end and no source has failed.
  have hsucceeds : o.Succeeds tools.grammar (o.pass defines) outDir fs paths := by
    rw [hsuccess] at hfailure
    simp only [Option.isSome_none, Bool.false_eq_true, false_iff, not_or, not_and,
      Bool.not_eq_true, Option.isSome_eq_false_iff, Option.isNone_iff_eq_none] at hfailure
    exact ⟨hfailure.1, Nat.eq_zero_of_not_pos (hfailure.2 hfailure.1)⟩
  have hlies : ∀ path ∈ paths, ∃ place, Lies fs path place :=
    fun path hpath => hsucceeds.lies hregular hwalk hdirectory hpaths hpath
  rw [hfiles]
  refine ⟨fun path hpath => ?_, ?_, fun place hplace houtplace path hpath => ?_⟩
  · simp only [Rewrites, hsucceeds.read_target_iff hlies hpath]
  · rintro front path rest rfl hsource htarget
    exact hsucceeds.rewrites_of_apart hlies (by simp) hsource htarget
  · exact hsucceeds.rewrites_of_same hregular hwalk hdirectory hpaths hplace houtplace hpath

end Options

namespace Sample

/-- The directory `src` in the working directory `/w`, with one source next to the output and one
    where the first one goes. -/
def nested : FileSystem where
  root := .directory [("w", .directory [
    ("src", .directory [("a.js", .file (some "B;")),
      ("z", .directory [("a.js", .file (some "C;"))])])])]
  workingDirectory := ["w"]

def nestedGrammar : Grammar :=
  .ofSources [⟨.javaScript, "B;", statementTree⟩, ⟨.javaScript, "C;", statementTree⟩]

def nestedTools : Tools :=
  .standard nestedGrammar

/-- From `src` to a directory below it. -/
def nestedOptions : Options :=
  { directoryOptions with outDir := some "src/z" }

def nestedPaths : List String :=
  ["src/a.js", "src/z/a.js"]

end Sample

namespace Options

/-- The second source is what the first one has become when its turn comes. -/
theorem run_directory_snapshot_iff_nested :
    Sample.nestedOptions.validate Sample.nested = .ok () ∧
    Sample.nestedOptions.loadDefines Sample.nestedTools.formats Sample.nested "/w" =
      .ok Sample.directoryDefines ∧
    Sample.nested.isDirectory "src" = true ∧
    Sample.nestedTools.walk.Faithful Sample.nested isKept "src" ∧
    collectSources Sample.nestedTools.walk Sample.nested "src" = .ok Sample.nestedPaths ∧
    Sample.nested.root.isRegular = true ∧
    (Sample.nestedOptions.run Sample.nestedTools Sample.nested "/w").failure = none ∧
    Sample.nestedOptions.Rewrites Sample.nestedTools.grammar
      (Sample.nestedOptions.pass Sample.directoryDefines) "src/z" Sample.nested
      (Sample.nestedOptions.run Sample.nestedTools Sample.nested "/w").files "src/a.js" ∧
    ¬ ∃ outcome, Sample.nestedOptions.handle Sample.nestedTools.grammar
        (Sample.nestedOptions.pass Sample.directoryDefines) Sample.nested "src/z/a.js" =
          .ok outcome ∧
      Sample.nestedOptions.Leaves Sample.nestedTools.grammar
        (Sample.nestedOptions.pass Sample.directoryDefines) "src/z" Sample.nested
        Sample.nestedPaths "src/z/a.js" outcome.code := by
  have hvalid : Sample.nestedOptions.validate Sample.nested = .ok () := by decide +kernel
  have hdefines : Sample.nestedOptions.loadDefines Sample.nestedTools.formats Sample.nested "/w" =
    .ok Sample.directoryDefines := rfl
  have hdirectory : Sample.nested.isDirectory "src" = true := by decide +kernel
  have hpaths : collectSources Sample.nestedTools.walk Sample.nested "src" =
    .ok Sample.nestedPaths := by decide +kernel
  have hregular : Sample.nested.root.isRegular = true := by decide +kernel
  have hwalk : Sample.nestedTools.walk.Faithful Sample.nested isKept "src" :=
    FileSystem.walk_faithful isKept_of_depth_eq_zero hregular "src"
  have hsuccess : (Sample.nestedOptions.run Sample.nestedTools Sample.nested "/w").failure =
    none := by decide +kernel
  obtain ⟨hleaves, -, -⟩ := run_directory_snapshot_iff Sample.nestedTools hvalid hdefines
    hdirectory rfl hwalk hpaths hregular hsuccess
  refine ⟨hvalid, hdefines, hdirectory, hwalk, hpaths, hregular, hsuccess, ?_, ?_⟩
  · obtain ⟨outcome, houtcome, hcode⟩ : ∃ outcome,
        Sample.nestedOptions.handle Sample.nestedTools.grammar
          (Sample.nestedOptions.pass Sample.directoryDefines) Sample.nested "src/a.js" =
            .ok outcome ∧
        outcome.code = "B;" :=
      (exists_outcome_iff ..).mpr ⟨"B;", by decide +kernel, by decide +kernel⟩
    refine ⟨outcome, houtcome, ?_⟩
    rw [hcode]
    decide +kernel
  · rw [← hleaves "src/z/a.js" (by decide)]
    rintro ⟨outcome, houtcome, hread⟩
    obtain ⟨outcome', houtcome', hcode⟩ : ∃ outcome,
        Sample.nestedOptions.handle Sample.nestedTools.grammar
          (Sample.nestedOptions.pass Sample.directoryDefines) Sample.nested "src/z/a.js" =
            .ok outcome ∧
        outcome.code = "C;" :=
      (exists_outcome_iff ..).mpr ⟨"C;", by decide +kernel, by decide +kernel⟩
    rw [houtcome] at houtcome'
    rw [Except.ok.inj houtcome', hcode] at hread
    -- It is the rewriting of the first source that is there.
    exact absurd hread (by decide +kernel)

end Options

end DefineFold
