/-
  DefineFold.Proofs.Command.Directory

  A run over a directory. Its sources are handled one after the other, and each of them as if it
  were alone: what has been written before changes nothing that is read (`Options.handle_after`).
  A source that cannot be handled costs no other one anything. A target that is refused ends the
  run, and costs all the sources whose turn has not come yet (`Options.run_directory_outcome`).
-/

import Mathlib.Data.List.Induction
import DefineFold.Command.Run
import DefineFold.Proofs.Files.Sources
import DefineFold.Proofs.Pass.Walk

namespace DefineFold

/-! ## Steps -/

theorem Progress.forEach_concat (step : Progress → String → Progress × Option Failure)
    (p : Progress) (front : List String) (path : String) :
    p.forEach step (front ++ [path]) =
      if (p.forEach step front).2.isSome then p.forEach step front
      else step (p.forEach step front).1 path := by
  induction front generalizing p with
  | nil =>
    rw [List.nil_append, Progress.forEach, Progress.forEach]
    split
    · rename_i p' f hstep
      exact hstep.symm
    · rename_i p' hstep
      exact hstep.symm
  | cons first front ih =>
    rw [List.cons_append, Progress.forEach, Progress.forEach]
    split
    · rfl
    · exact ih _

namespace Options

section

variable (o : Options) (grammar : Grammar) (pass : Pass) (outDir : String)

/-- Everything that handling one source can do. -/
theorem handleOne_cases (p : Progress) (path : String) :
    (∃ failure text, o.handle grammar pass p.files path = .error failure ∧
      text = (if o.verbosity = .quiet then "" else warning path failure) ∧
      o.handleOne grammar pass outDir p path =
        ({ p with failed := p.failed + 1, warnings := p.warnings ++ text }, none)) ∨
    (∃ outcome files fault, o.handle grammar pass p.files path = .ok outcome ∧
      writeText p.files (FilePath.target o.path path outDir) outcome.code = (files, some fault) ∧
      o.handleOne grammar pass outDir p path =
        ({ p with files := files }, some (.file fault))) ∨
    ∃ outcome files, o.handle grammar pass p.files path = .ok outcome ∧
      writeText p.files (FilePath.target o.path path outDir) outcome.code = (files, none) ∧
      o.handleOne grammar pass outDir p path =
        ({ p with files := files, results := (path, outcome) :: p.results }, none) := by
  cases hhandle : o.handle grammar pass p.files path with
  | error failure =>
    refine .inl ⟨failure, _, rfl, rfl, ?_⟩
    simp only [handleOne, hhandle]
  | ok outcome =>
    rcases hwrite : writeText p.files (FilePath.target o.path path outDir) outcome.code with
      ⟨files, _ | fault⟩
    · refine .inr (.inr ⟨outcome, files, rfl, hwrite, ?_⟩)
      simp only [handleOne, hhandle, hwrite]
    · refine .inr (.inl ⟨outcome, files, fault, rfl, hwrite, ?_⟩)
      simp only [handleOne, hhandle, hwrite]

theorem handle_of_readSource {fs fs' : FileSystem} {path : String}
    (h : readSource fs' path = readSource fs path) :
    o.handle grammar pass fs' path = o.handle grammar pass fs path := by
  rw [handle, handle]
  split
  · rfl
  · rw [passOverFile, passOverFile, h]

end

/-! ## Runs -/

section

variable (o : Options) (grammar : Grammar) (pass : Pass) (outDir : String) (fs : FileSystem)

/-- How far a run has come after some sources, and the failure that has ended it. -/
def after (front : List String) : Progress × Option Failure :=
  o.handleAll grammar pass outDir ⟨fs, [], 0, ""⟩ front

/-- A source can be handled, but what comes of it is refused where it goes, after some sources. -/
def Refuses (front : List String) (path : String) : Prop :=
  ∃ outcome, o.handle grammar pass fs path = .ok outcome ∧
    (writeText (o.after grammar pass outDir fs front).1.files
      (FilePath.target o.path path outDir) outcome.code).2.isSome = true

/-- One of the sources is refused when its turn comes. -/
def Stops (paths : List String) : Prop :=
  ∃ front path rest, paths = front ++ path :: rest ∧ o.Refuses grammar pass outDir fs front path

/-- A place to which one of the sources goes. -/
def GoesTo (paths place : List String) : Prop :=
  ∃ path ∈ paths, fs.LeadsTo (FilePath.target o.path path outDir) place

theorem after_concat (front : List String) (path : String) :
    o.after grammar pass outDir fs (front ++ [path]) =
      if (o.after grammar pass outDir fs front).2.isSome then o.after grammar pass outDir fs front
      else o.handleOne grammar pass outDir (o.after grammar pass outDir fs front).1 path :=
  Progress.forEach_concat _ _ front path

theorem stops_concat_iff (front : List String) (path : String) :
    o.Stops grammar pass outDir fs (front ++ [path]) ↔
      o.Stops grammar pass outDir fs front ∨ o.Refuses grammar pass outDir fs front path := by
  constructor
  · rintro ⟨front', path', rest, heq, hrefuses⟩
    rcases List.eq_nil_or_concat rest with rfl | ⟨rest, last, rfl⟩
    · obtain ⟨rfl, hpath⟩ := List.append_inj' heq rfl
      obtain rfl := List.singleton_inj.mp hpath
      exact .inr hrefuses
    · rw [List.concat_eq_append, ← List.cons_append, ← List.append_assoc] at heq
      exact .inl ⟨front', path', rest, (List.append_inj' heq rfl).1, hrefuses⟩
  · rintro (⟨front', path', rest, rfl, hrefuses⟩ | hrefuses)
    · exact ⟨front', path', rest ++ [path], by simp, hrefuses⟩
    · exact ⟨front, path, [], rfl, hrefuses⟩

/-- What is written is where the sources go that have had their turn. -/
theorem grows_after (front : List String) :
    FileSystem.Grows (o.GoesTo outDir fs front) fs
      (o.after grammar pass outDir fs front).1.files := by
  induction front using List.reverseRecOn with
  | nil => exact .refl _ _
  | append_singleton front path ih =>
    have hkept : FileSystem.Grows (o.GoesTo outDir fs (front ++ [path])) fs
        (o.after grammar pass outDir fs front).1.files := by
      apply ih.mono
      rintro place ⟨other, hother, hplace⟩
      exact ⟨other, List.mem_append_left _ hother, hplace⟩
    rw [after_concat]
    split
    · exact hkept
    · rcases o.handleOne_cases grammar pass outDir (o.after grammar pass outDir fs front).1 path
        with ⟨failure, text, -, -, hone⟩ | ⟨outcome, files, fault, -, hwrite, hone⟩ |
          ⟨outcome, files, -, hwrite, hone⟩
      · rw [hone]
        exact hkept
      · rw [hone]
        exact (hkept.trans (FileSystem.grows_of_writeText_refused hwrite)).mono (by simp)
      · rw [hone]
        obtain ⟨place, hplace, hstep⟩ := FileSystem.exists_place_of_writeText hwrite
        have hplace' := hplace.of_grows ih
        rcases hstep with ⟨hstep, -⟩ | ⟨hstep, -⟩
        · apply (hkept.trans hstep).mono
          rintro other (hother | rfl)
          · exact hother
          · exact ⟨path, List.mem_append_right _ List.mem_cons_self, hplace'⟩
        · exact (hkept.trans hstep).mono (by simp)

end

section

variable {o : Options} (grammar : Grammar) (pass : Pass) {outDir : String} {fs : FileSystem}
  {walk : Walk} {paths : List String} (hscan : fs.Scan walk o.path outDir paths)

include hscan

/-- What has been written before changes nothing about a source. -/
theorem handle_after {front : List String} (hfront : ∀ path ∈ front, path ∈ paths)
    {path : String} (hpath : path ∈ paths) :
    o.handle grammar pass (o.after grammar pass outDir fs front).1.files path =
      o.handle grammar pass fs path := by
  apply handle_of_readSource
  apply hscan.readSource_eq (o.grows_after grammar pass outDir fs front) ?_ hpath
  rintro place ⟨other, hother, hplace⟩
  exact ⟨other, hfront other hother, hplace⟩

/-- Everything that the turn of a source can do: nothing if the run has ended, else to pass the
    source over, to end the run, or to write. -/
theorem after_concat_cases {front : List String} (hfront : ∀ path ∈ front, path ∈ paths)
    {path : String} (hpath : path ∈ paths) :
    ((o.after grammar pass outDir fs front).2.isSome = true ∧
      o.after grammar pass outDir fs (front ++ [path]) = o.after grammar pass outDir fs front) ∨
    (o.after grammar pass outDir fs front).2 = none ∧
      ((∃ failure, o.handle grammar pass fs path = .error failure ∧
        (o.after grammar pass outDir fs (front ++ [path])).1.files =
          (o.after grammar pass outDir fs front).1.files ∧
        (o.after grammar pass outDir fs (front ++ [path])).1.failed =
          (o.after grammar pass outDir fs front).1.failed + 1 ∧
        (o.after grammar pass outDir fs (front ++ [path])).2 = none) ∨
      ∃ outcome fault, o.handle grammar pass fs path = .ok outcome ∧
        writeText (o.after grammar pass outDir fs front).1.files
          (FilePath.target o.path path outDir) outcome.code =
            ((o.after grammar pass outDir fs (front ++ [path])).1.files, fault) ∧
        (o.after grammar pass outDir fs (front ++ [path])).1.failed =
          (o.after grammar pass outDir fs front).1.failed ∧
        (o.after grammar pass outDir fs (front ++ [path])).2 = fault.map .file) := by
  cases hended : (o.after grammar pass outDir fs front).2 with
  | some failure =>
    refine .inl ⟨rfl, ?_⟩
    rw [after_concat, hended, if_pos Option.isSome_some]
  | none =>
    refine .inr ⟨rfl, ?_⟩
    rw [after_concat, hended, if_neg (by simp), ← handle_after grammar pass hscan hfront hpath]
    rcases o.handleOne_cases grammar pass outDir (o.after grammar pass outDir fs front).1 path
      with ⟨failure, text, hhandle, -, hone⟩ | ⟨outcome, files, fault, hhandle, hwrite, hone⟩ |
        ⟨outcome, files, hhandle, hwrite, hone⟩
    · rw [hone]
      exact .inl ⟨failure, hhandle, rfl, rfl, rfl⟩
    · rw [hone]
      exact .inr ⟨outcome, some fault, hhandle, hwrite, rfl, rfl⟩
    · rw [hone]
      exact .inr ⟨outcome, none, hhandle, hwrite, rfl, rfl⟩

/-- A run ends early if and only if a source is refused. -/
theorem isSome_after_iff {front : List String} (hfront : ∀ path ∈ front, path ∈ paths) :
    (o.after grammar pass outDir fs front).2.isSome = true ↔
      o.Stops grammar pass outDir fs front := by
  induction front using List.reverseRecOn with
  | nil =>
    constructor
    · intro h
      simp [after, handleAll, Progress.forEach] at h
    · rintro ⟨front, path, rest, hnil, -⟩
      simp at hnil
  | append_singleton front path ih =>
    have hfront' : ∀ other ∈ front, other ∈ paths :=
      fun other hother => hfront other (List.mem_append_left _ hother)
    have hpath := hfront path (List.mem_append_right _ List.mem_cons_self)
    rw [stops_concat_iff, ← ih hfront']
    rcases after_concat_cases grammar pass hscan hfront' hpath with
      ⟨hended, hsame⟩ | ⟨hgoes, ⟨failure, hhandle, -, -, hnone⟩ |
        ⟨outcome, fault, hhandle, hwrite, -, hfault⟩⟩
    · simp [hsame, hended]
    · rw [hnone, hgoes]
      simp [Refuses, hhandle]
    · rw [hfault, hgoes]
      simp [Refuses, hhandle, hwrite]

/-- The failures that are counted are those of the sources that cannot be handled. -/
theorem failed_after_iff {front : List String} (hfront : ∀ path ∈ front, path ∈ paths)
    (hgoes : (o.after grammar pass outDir fs front).2 = none) :
    0 < (o.after grammar pass outDir fs front).1.failed ↔
      ∃ path ∈ front, ∃ failure, o.handle grammar pass fs path = .error failure := by
  induction front using List.reverseRecOn with
  | nil => simp [after, handleAll, Progress.forEach]
  | append_singleton front path ih =>
    have hfront' : ∀ other ∈ front, other ∈ paths :=
      fun other hother => hfront other (List.mem_append_left _ hother)
    have hpath := hfront path (List.mem_append_right _ List.mem_cons_self)
    have hlast : (∃ other ∈ front ++ [path], ∃ failure,
        o.handle grammar pass fs other = .error failure) ↔
          (∃ other ∈ front, ∃ failure, o.handle grammar pass fs other = .error failure) ∨
            ∃ failure, o.handle grammar pass fs path = .error failure := by
      simp [or_and_right, exists_or]
    rw [hlast]
    rcases after_concat_cases grammar pass hscan hfront' hpath with
      ⟨hended, hsame⟩ | ⟨hgoes', ⟨failure, hhandle, -, hfailed, -⟩ |
        ⟨outcome, fault, hhandle, -, hfailed, -⟩⟩
    · rw [hsame] at hgoes
      simp [hgoes] at hended
    · rw [hfailed]
      exact ⟨fun _ => .inr ⟨failure, hhandle⟩, fun _ => Nat.succ_pos _⟩
    · rw [hfailed, ih hfront' hgoes', hhandle]
      simp

omit hscan in
/-- Once a run has ended, no turn changes anything. -/
theorem after_append_of_isSome {front : List String}
    (hended : (o.after grammar pass outDir fs front).2.isSome = true) (rest : List String) :
    o.after grammar pass outDir fs (front ++ rest) = o.after grammar pass outDir fs front := by
  induction rest using List.reverseRecOn with
  | nil => rw [List.append_nil]
  | append_singleton rest path ih =>
    rw [← List.append_assoc, after_concat, ih, if_pos hended]

/-- What has been written where a source goes is there in the end. -/
theorem exists_holds_after {front rest : List String} {path : String}
    (hsub : ∀ other ∈ front ++ path :: rest, other ∈ paths) (hrest : path ∉ rest)
    {outcome : Outcome} (hhandle : o.handle grammar pass fs path = .ok outcome)
    (hgoes : ¬ o.Stops grammar pass outDir fs (front ++ [path])) :
    ∃ place, fs.LeadsTo (FilePath.target o.path path outDir) place ∧
      (o.after grammar pass outDir fs (front ++ path :: rest)).1.files.Holds
        (FilePath.target o.path path outDir) place outcome.code := by
  have hpath : path ∈ paths := hsub path (List.mem_append_right _ List.mem_cons_self)
  have hgrows := o.grows_after grammar pass outDir fs
  induction rest using List.reverseRecOn with
  | nil =>
    have hfront : ∀ other ∈ front, other ∈ paths :=
      fun other hother => hsub other (List.mem_append_left _ hother)
    rcases after_concat_cases grammar pass hscan hfront hpath with
      ⟨hended, -⟩ | ⟨-, ⟨failure, herror, -⟩ | ⟨outcome', fault, hok, hwrite, -, hfault⟩⟩
    · exact absurd ((isSome_after_iff grammar pass hscan hfront).mp hended)
        fun hstops => hgoes ((o.stops_concat_iff grammar pass outDir fs front path).mpr
          (.inl hstops))
    · simp [hhandle] at herror
    · obtain rfl := Except.ok.inj (hhandle.symm.trans hok)
      cases fault with
      | some fault =>
        refine absurd ?_ hgoes
        rw [stops_concat_iff]
        exact .inr ⟨outcome, hhandle, by simp [hwrite]⟩
      | none =>
        obtain ⟨place, hplace, hstep⟩ := FileSystem.exists_place_of_writeText hwrite
        have hplace' := hplace.of_grows (hgrows front)
        rcases hstep with ⟨-, hholds⟩ | ⟨-, hdevice⟩
        · exact ⟨place, hplace', hholds⟩
        · -- There is no device in the tree.
          rcases (hgrows front).root.plain hdevice with hplain | hold
          · exact hplain.elim
          · exact absurd hold (hscan.not_device hpath hplace')
  | append_singleton rest last ih =>
    have hsub' : ∀ other ∈ front ++ path :: rest, other ∈ paths := by
      intro other hother
      apply hsub
      rw [← List.cons_append, ← List.append_assoc]
      exact List.mem_append_left _ hother
    have hlast : last ∈ paths := hsub last (by simp)
    have hne : path ≠ last := by
      rintro rfl
      exact hrest (List.mem_append_right _ List.mem_cons_self)
    obtain ⟨place, hplace, hholds⟩ :=
      ih hsub' fun hmem => hrest (List.mem_append_left _ hmem)
    refine ⟨place, hplace, ?_⟩
    rw [← List.cons_append, ← List.append_assoc]
    rcases after_concat_cases grammar pass hscan hsub' hlast with
      ⟨-, hsame⟩ | ⟨-, ⟨failure, -, hfiles, -⟩ | ⟨outcome', fault, -, hwrite, -⟩⟩
    · rwa [hsame]
    · rwa [hfiles]
    · cases fault with
      | some fault =>
        exact hholds.of_grows (FileSystem.grows_of_writeText_refused hwrite) id
      | none =>
        obtain ⟨place', hplace', hstep⟩ := FileSystem.exists_place_of_writeText hwrite
        rcases hstep with ⟨hstep, -⟩ | ⟨hstep, -⟩
        · -- Another source goes to another place.
          refine hholds.of_grows hstep ?_
          rintro rfl
          exact hne (hscan.eq_of_leadsTo hpath hlast hplace (hplace'.of_grows (hgrows _)))
        · exact hholds.of_grows hstep id

/-- Where a source goes that is refused, or whose turn never comes, nothing has been written by
    anything but the sources before it. -/
theorem grows_after_of_stops {front : List String} {path : String}
    (hsub : ∀ other ∈ front ++ [path], other ∈ paths)
    (hstops : o.Stops grammar pass outDir fs (front ++ [path])) (rest : List String) :
    FileSystem.Grows (o.GoesTo outDir fs front) fs
      (o.after grammar pass outDir fs (front ++ path :: rest)).1.files := by
  have hended := (isSome_after_iff grammar pass hscan hsub).mpr hstops
  have hfront : ∀ other ∈ front, other ∈ paths :=
    fun other hother => hsub other (List.mem_append_left _ hother)
  have hpath := hsub path (List.mem_append_right _ List.mem_cons_self)
  have hgrows := o.grows_after grammar pass outDir fs front
  rw [List.append_cons, after_append_of_isSome grammar pass hended]
  rcases after_concat_cases grammar pass hscan hfront hpath with
    ⟨-, hsame⟩ | ⟨-, ⟨failure, -, -, -, hnone⟩ | ⟨outcome, fault, -, hwrite, -, hfault⟩⟩
  · rwa [hsame]
  · simp [hnone] at hended
  · cases fault with
    | some fault =>
      exact (hgrows.trans (FileSystem.grows_of_writeText_refused hwrite)).mono (by simp)
    | none => simp [hfault] at hended

end

/-! ## Outcomes -/

theorem run_eq_runDirectory {o : Options} {tools : Tools} {fs : FileSystem}
    {baseDir outDir : String} {defines : Defines} (hvalid : o.validate fs = .ok ())
    (hdefines : o.loadDefines tools.formats fs baseDir = .ok defines)
    (hdirectory : fs.isDirectory o.path = true) (hout : o.outDir = some outDir) :
    o.run tools fs baseDir = o.runDirectory tools (o.pass defines) fs outDir := by
  rw [run, hvalid]
  simp only [hdefines, hdirectory, if_true, hout]

theorem runDirectory_cases (o : Options) (tools : Tools) (pass : Pass) {fs : FileSystem}
    {outDir : String} {paths : List String}
    (hpaths : collectSources tools.walk fs o.path = .ok paths) :
    (o.runDirectory tools pass fs outDir).files =
        (o.after tools.grammar pass outDir fs paths).1.files ∧
      ((o.runDirectory tools pass fs outDir).failure.isSome = true ↔
        (o.after tools.grammar pass outDir fs paths).2.isSome = true ∨
          (o.after tools.grammar pass outDir fs paths).2 = none ∧
            0 < (o.after tools.grammar pass outDir fs paths).1.failed) := by
  rw [runDirectory, hpaths]
  simp only [after]
  rcases o.handleAll tools.grammar pass outDir ⟨fs, [], 0, ""⟩ paths with ⟨p, _ | failure⟩
  · simp
  · simp

/-- One bad file and the others. Over a directory whose sources go to a tree of their own, no two
    files go to the same path; the run fails if and only if a source cannot be handled or is
    refused where it goes; and what comes of a source that can be handled is where it goes, unless
    it or a source before it has been refused: then what was there is left as it was. That is so
    because a file is refused before anything in it is touched; a disk that runs full halfway
    would leave the refused file cut short. -/
theorem run_directory_outcome {o : Options} (tools : Tools) {fs : FileSystem}
    {baseDir outDir : String} {defines : Defines} {paths : List String}
    (hvalid : o.validate fs = .ok ())
    (hdefines : o.loadDefines tools.formats fs baseDir = .ok defines)
    (hdirectory : fs.isDirectory o.path = true) (hout : o.outDir = some outDir)
    (hwalk : tools.walk.Faithful fs isKept o.path)
    (hpaths : collectSources tools.walk fs o.path = .ok paths)
    (hregular : fs.root.isRegular = true) (hapart : fs.Apart o.path outDir) :
    (paths.map fun path => FilePath.target o.path path outDir).Nodup ∧
    ((o.run tools fs baseDir).failure.isSome = true ↔
      (∃ path ∈ paths, ∃ failure,
        o.handle tools.grammar (o.pass defines) fs path = .error failure) ∨
        o.Stops tools.grammar (o.pass defines) outDir fs paths) ∧
    ∀ front path rest outcome, paths = front ++ path :: rest →
      o.handle tools.grammar (o.pass defines) fs path = .ok outcome →
        (¬ o.Stops tools.grammar (o.pass defines) outDir fs (front ++ [path]) →
          (o.run tools fs baseDir).files.read (FilePath.target o.path path outDir) =
            .ok outcome.code) ∧
        (o.Stops tools.grammar (o.pass defines) outDir fs (front ++ [path]) →
          ∀ place, fs.LeadsTo (FilePath.target o.path path outDir) place → ∀ text,
            ((o.run tools fs baseDir).files.root.at? place = some (.file text) ↔
              fs.root.at? place = some (.file text))) := by
  have hscan : fs.Scan tools.walk o.path outDir paths :=
    ⟨hregular, hdirectory, hwalk, hpaths, hapart⟩
  rw [run_eq_runDirectory hvalid hdefines hdirectory hout]
  obtain ⟨hfiles, hfailure⟩ := o.runDirectory_cases tools (o.pass defines) hpaths
  have hstops := isSome_after_iff tools.grammar (o.pass defines) hscan (fun _ h => h)
  refine ⟨?_, ?_, ?_⟩
  · apply hscan.nodup.map_on
    exact fun path hpath path' hpath' => hscan.eq_of_target_eq hpath hpath'
  · rw [hfailure, ← hstops]
    cases hended : (o.after tools.grammar (o.pass defines) outDir fs paths).2 with
    | some failure => simp
    | none =>
      rw [failed_after_iff tools.grammar (o.pass defines) hscan (fun _ h => h) hended]
      simp
  · rintro front path rest outcome rfl hhandle
    have hnodup := hscan.nodup
    rw [hfiles]
    constructor
    · intro hgoes
      have hrest : path ∉ rest := (List.nodup_cons.mp (List.nodup_append.mp hnodup).2.1).1
      obtain ⟨place, -, hholds⟩ := exists_holds_after tools.grammar (o.pass defines) hscan
        (fun _ h => h) hrest hhandle hgoes
      exact hholds.read
    · intro hends place hplace text
      have hsub : ∀ other ∈ front ++ [path], other ∈ front ++ path :: rest := by
        intro other hother
        rw [List.append_cons]
        exact List.mem_append_left _ hother
      have hgrows := grows_after_of_stops tools.grammar (o.pass defines) hscan hsub hends rest
      apply hgrows.root.texts text
      -- Another source before it goes to another place.
      rintro ⟨other, hother, hplace'⟩
      obtain rfl := hscan.eq_of_leadsTo (List.mem_append_left _ hother)
        (List.mem_append_right _ List.mem_cons_self) hplace' hplace
      exact (List.nodup_append.mp hnodup).2.2 other hother other List.mem_cons_self rfl

end Options

/-! ## A small directory

Four sources, of which the first is no text. The directory of the third one cannot be made, since
there is a file in its place. -/

namespace Sample

def directory : FileSystem where
  root := .directory [("w", .directory [
    ("src", .directory [("a.js", .file none), ("b.js", .file (some "A;")),
      ("c", .directory [("x.js", .file (some "A;"))]), ("d.js", .file (some "A;"))]),
    ("out", .directory [("c", .file (some "taken"))])])]
  workingDirectory := ["w"]

/-- `A;` is one statement. -/
def statementTree : Tree :=
  part (.other "program") true 0 2 []
    [part (.other "expression_statement") true 0 2 []
      [part .identifier true 0 1 [] [], token ";" 1 2 []]]

def directoryGrammar : Grammar :=
  .ofSources [⟨.javaScript, "A;", statementTree⟩]

def directoryTools : Tools :=
  .standard directoryGrammar

/-- From `src` to `out`, with the number one for the name `A`. -/
def directoryOptions : Options where
  path := "src"
  config := none
  defines := ["A=1"]
  outputFile := none
  outDir := some "out"
  language := none
  noFold := false
  allowFalsy := false
  legacyOrder := false
  summary := false
  verbose := 0
  quiet := false

def directoryDefines : Defines :=
  Defines.empty.override [("A", .integer 1)]

def directoryPaths : List String :=
  ["src/a.js", "src/b.js", "src/c/x.js", "src/d.js"]

theorem directory_apart : directory.Apart "src" "out" :=
  FileSystem.apart_of_locate rfl rfl (by decide) (by decide) rfl rfl

end Sample

namespace Options

/-- The second source is where it goes, and the fourth one is lost. -/
theorem run_directory_outcome_sample :
    Sample.directoryOptions.validate Sample.directory = .ok () ∧
    Sample.directoryOptions.loadDefines Sample.directoryTools.formats Sample.directory "/w" =
      .ok Sample.directoryDefines ∧
    Sample.directory.isDirectory "src" = true ∧
    Sample.directoryTools.walk.Faithful Sample.directory isKept "src" ∧
    collectSources Sample.directoryTools.walk Sample.directory "src" = .ok Sample.directoryPaths ∧
    Sample.directory.root.isRegular = true ∧
    (Sample.directoryOptions.run Sample.directoryTools Sample.directory "/w").failure.isSome =
      true ∧
    (Sample.directoryOptions.run Sample.directoryTools Sample.directory "/w").files.read
      "out/b.js" = .ok "1;" ∧
    ∀ text, (Sample.directoryOptions.run Sample.directoryTools Sample.directory
      "/w").files.root.at? ["w", "out", "d.js"] ≠ some (.file text) := by
  have hvalid : Sample.directoryOptions.validate Sample.directory = .ok () := by decide +kernel
  have hdefines : Sample.directoryOptions.loadDefines Sample.directoryTools.formats
    Sample.directory "/w" = .ok Sample.directoryDefines := rfl
  have hdirectory : Sample.directory.isDirectory "src" = true := by decide +kernel
  have hpaths : collectSources Sample.directoryTools.walk Sample.directory "src" =
    .ok Sample.directoryPaths := by decide +kernel
  have hregular : Sample.directory.root.isRegular = true := by decide +kernel
  have hwalk : Sample.directoryTools.walk.Faithful Sample.directory isKept "src" :=
    FileSystem.walk_faithful isKept_of_depth_eq_zero hregular "src"
  have hscan : Sample.directory.Scan Sample.directoryTools.walk "src" "out" Sample.directoryPaths :=
    ⟨hregular, hdirectory, hwalk, hpaths, Sample.directory_apart⟩
  obtain ⟨-, hfailure, hfiles⟩ := run_directory_outcome Sample.directoryTools hvalid hdefines
    hdirectory rfl hwalk hpaths hregular Sample.directory_apart
  -- Each of the three sources that are texts can be handled.
  have hhandle : ∀ path ∈ Sample.directoryPaths.tail, ∃ outcome,
      Sample.directoryOptions.handle Sample.directoryTools.grammar
        (Sample.directoryOptions.pass Sample.directoryDefines) Sample.directory path = .ok outcome ∧
      outcome.code = "1;" := by
    have hcode : ∀ path ∈ Sample.directoryPaths.tail,
        (Sample.directoryOptions.handle Sample.directoryTools.grammar
          (Sample.directoryOptions.pass Sample.directoryDefines) Sample.directory path).map
            Outcome.code = .ok "1;" := by
      decide +kernel
    intro path hpath
    specialize hcode path hpath
    cases hpass : Sample.directoryOptions.handle Sample.directoryTools.grammar
        (Sample.directoryOptions.pass Sample.directoryDefines) Sample.directory path with
    | error failure => simp [hpass, Except.map] at hcode
    | ok outcome => exact ⟨outcome, rfl, by simpa [hpass, Except.map] using hcode⟩
  refine ⟨hvalid, hdefines, hdirectory, hwalk, hpaths, hregular, ?_, ?_, ?_⟩
  · exact hfailure.mpr (.inl ⟨"src/a.js", by decide, _, rfl⟩)
  · obtain ⟨outcome, houtcome, hcode⟩ := hhandle "src/b.js" (by decide)
    have hgoes : ¬ Sample.directoryOptions.Stops Sample.directoryTools.grammar
        (Sample.directoryOptions.pass Sample.directoryDefines) "out" Sample.directory
        ["src/a.js", "src/b.js"] := by
      rw [← isSome_after_iff _ _ hscan (by decide)]
      decide +kernel
    have hread := (hfiles ["src/a.js"] "src/b.js" _ outcome rfl houtcome).1 hgoes
    rw [hcode] at hread
    exact hread
  · obtain ⟨outcome, houtcome, -⟩ := hhandle "src/d.js" (by decide)
    have hstops : Sample.directoryOptions.Stops Sample.directoryTools.grammar
        (Sample.directoryOptions.pass Sample.directoryDefines) "out" Sample.directory
        ["src/a.js", "src/b.js", "src/c/x.js", "src/d.js"] := by
      rw [← isSome_after_iff _ _ hscan (by decide)]
      decide +kernel
    intro text
    have hplace : Sample.directory.LeadsTo "out/d.js" ["w", "out", "d.js"] := by
      have hpieces : FilePath.pieces "out/d.js" = ["out", "d.js"] := by decide +kernel
      have hstart : Sample.directory.startOf "out/d.js" = ["w"] := by decide +kernel
      rw [FileSystem.LeadsTo, hpieces, hstart]
      have hout : FileSystem.LeadStep Sample.directory.root ["w"] "out" ["w", "out"] [] :=
        .down (by decide) (by simp [Sample.directory, Entry.at?, Entry.child?])
      have hfile : FileSystem.LeadStep Sample.directory.root ["w", "out"] "d.js"
          ["w", "out", "d.js"] [] :=
        .down (by decide) (by simp [Sample.directory, Entry.at?, Entry.child?])
      exact .step hout (.step hfile (.done _))
    rw [Ne, (hfiles ["src/a.js", "src/b.js", "src/c/x.js"] "src/d.js" [] outcome rfl
      houtcome).2 hstops _ hplace]
    simp [Sample.directory, Entry.at?, Entry.child?]

end Options

end DefineFold
