/-
  DefineFold.Command.Run

  A run of the command line on a file system: checks of the options, the defines, one source
  or all sources below a directory, and what is printed. A source of a directory that cannot
  be handled is passed over with a warning; a target that cannot be written ends the run.
-/

import DefineFold.Command.Options
import DefineFold.Defines.Load
import DefineFold.Files.Store
import DefineFold.Json.Writer
import DefineFold.Pass.Run

namespace DefineFold

/-! ## Failures -/

/-- What is wrong with options that could be read. -/
inductive OptionFault where
  | pathMissing (path : String)
  | pathOdd (path : String)
  | nothingToDefine
  | outDirRequired
  | outputFileForDirectory
deriving DecidableEq, Repr

/-- The wording of a fault. -/
def OptionFault.message : OptionFault → String
  | .pathMissing path => "Path does not exist: " ++ path
  | .pathOdd path => "Path is neither a file nor a directory: " ++ path
  | .nothingToDefine => "Nothing to define: pass --config and/or --define"
  | .outDirRequired => "--out-dir is required when --path is a directory"
  | .outputFileForDirectory => "-O/--output-file only applies to a single input file"

/-- Why a run or a part of it fails. -/
inductive Failure where
  | options (fault : OptionFault)
  | config (path : String) (fault : ConfigFault)
  | define (fault : ConfigFault)
  | unknownLanguage (path : String)
  | file (fault : FileFault)
  | source (fault : SyntaxFault)
  | someFailed (failed total : Nat)
deriving DecidableEq, Repr

namespace Failure

/-- The wording of a failure. -/
def message : Failure → String
  | .options _ => "Invalid arguments"
  | .config path _ => "Failed to load defines from " ++ path
  | .define fault => fault.message
  | .unknownLanguage path =>
    "Could not detect language of " ++ path ++ ". Please specify --language"
  | .file fault => fault.message
  | .source fault => fault.message
  | .someFailed failed total =>
    natText failed ++ " of " ++ natText total ++ " files could not be rewritten"

/-- What lies behind a failure, in words, the nearest cause first. -/
def causes : Failure → List String
  | .options fault => [fault.message]
  | .config _ fault => [fault.message]
  | .file fault => fault.causes
  | _ => []

/-- The failure and what lies behind it on one line. -/
def line (f : Failure) : String :=
  f.causes.foldl (fun text cause => text ++ ": " ++ cause) f.message

/-- A text with one string in front of its first line and another in front of each further
    one. -/
def indent (first further : String) (s : String) : String :=
  first ++ String.ofList (s.toList.flatMap fun c =>
    if c = '\n' then '\n' :: further.toList else [c])

/-- A cause with its number in front. -/
def numbered (cause : String × Nat) : String :=
  indent ("    " ++ natText cause.2 ++ ": ") "       " cause.1

/-- The failure as the last thing that a run prints. Several causes are numbered from zero. -/
def report (f : Failure) : String :=
  let first := "Error: " ++ f.message ++ "\n"
  match f.causes with
  | [] => first
  | [cause] => first ++ "\nCaused by:\n" ++ indent "    " "    " cause ++ "\n"
  | causes =>
    causes.zipIdx.foldl (fun text cause => text ++ numbered cause ++ "\n")
      (first ++ "\nCaused by:\n")

end Failure

/-! ## Checks and defines -/

/-- Checks options against a file system. -/
def Options.validate (o : Options) (fs : FileSystem) : Except OptionFault Unit :=
  if fs.exists? o.path then
    if fs.isFile o.path || fs.isDirectory o.path then
      if o.config.isNone && o.defines.isEmpty then .error .nothingToDefine
      else if fs.isDirectory o.path then
        if o.outDir.isNone then .error .outDirRequired
        else if o.outputFile.isSome then .error .outputFileForDirectory
        else .ok ()
      else .ok ()
    else .error (.pathOdd o.path)
  else .error (.pathMissing o.path)

/-- The pairs of the command line in their order. -/
def parsePairs (formats : Formats) : List String → Except Failure (List (String × Value))
  | [] => .ok []
  | text :: rest =>
    match parseDefine formats text with
    | .error fault => .error (.define fault)
    | .ok pair =>
      match parsePairs formats rest with
      | .error e => .error e
      | .ok pairs => .ok (pair :: pairs)

/-- The defines of a run: those of the file, with the pairs in front. -/
def Options.loadDefines (o : Options) (formats : Formats) (fs : FileSystem) (baseDir : String) :
    Except Failure Defines := do
  let base ←
    match o.config with
    | none => .ok Defines.empty
    | some path =>
      match DefineFold.loadDefines formats fs baseDir (.file path) with
      | .ok defines => .ok defines
      | .error fault => .error (.config path fault)
  let pairs ← parsePairs formats o.defines
  return base.override pairs

/-- The pass that the options ask for. -/
def Options.pass (o : Options) (defines : Defines) : Pass :=
  .ofDefines defines o.fold o.resolveOptions

/-! ## Sources -/

/-- How sources become trees: by the language and the text. -/
abbrev Grammar := Language → String → Tree

/-- A source that has been parsed. -/
structure ParsedSource where
  language : Language
  text : String
  tree : Tree

/-- The tree of a source that no grammar accepts: one faulty node. -/
def Tree.refused (text : String) : Tree :=
  .node
    { kind := .other "ERROR"
      named := true
      missing := false
      faulty := true
      start := 0
      stop := textLength text
      fields := [] }
    []

/-- The grammar that accepts the given sources and no others. -/
def Grammar.ofSources (sources : List ParsedSource) : Grammar :=
  fun language text =>
    match sources.find? fun s => s.language == language && s.text == text with
    | some s => s.tree
    | none => .refused text

/-- What a run leaves to others: to make trees of sources, to read the formats of configurations,
    and to walk through directories. -/
structure Tools where
  grammar : Grammar
  formats : Formats
  walk : Walk

/-- The tools with a given grammar, and with the readers and the walk that come along. -/
def Tools.standard (grammar : Grammar) : Tools :=
  ⟨grammar, .standard, FileSystem.walk⟩

/-- Runs a pass over a file in a given language. -/
def passOverFile (grammar : Grammar) (pass : Pass) (fs : FileSystem) (path : String)
    (language : Language) : Except Failure Outcome :=
  match readSource fs path with
  | .error fault => .error (.file fault)
  | .ok text =>
    match pass.run (.ofString text) (grammar language text) path with
    | .error fault => .error (.source fault)
    | .ok outcome => .ok outcome

/-- Runs a pass over a file in the language that the options and the path tell. -/
def Options.handle (o : Options) (grammar : Grammar) (pass : Pass) (fs : FileSystem)
    (path : String) : Except Failure Outcome :=
  match o.languageFor? path with
  | none => .error (.unknownLanguage path)
  | some language => passOverFile grammar pass fs path language

/-! ## Summaries -/

/-- An edit as part of a summary. -/
def Edit.toValue (e : Edit) : Value :=
  let kind : Entries :=
    match e.kind with
    | .fold => [("kind", .string "fold")]
    | .substitution path => [("kind", .string "substitution"), ("path", .string path)]
  .object ([("start_byte", .integer e.start), ("end_byte", .integer e.stop),
    ("line", .integer e.line), ("column", .integer e.column), ("original", .string e.oldText),
    ("replacement", .string e.newText)] ++ kind)

/-- What a summary says about one source. -/
def summaryOf (path : String) (o : Outcome) : Value :=
  .object [("path", .string path), ("substitutions", .integer o.substitutions),
    ("folds", .integer o.folds), ("edits", .array (o.edits.map Edit.toValue))]

/-- The summary of sources as text. -/
def summaryText (results : List (String × Outcome)) : String :=
  Json.pretty (.array (results.map fun r => summaryOf r.1 r.2)) ++ "\n"

/-! ## Runs -/

/-- What a run leaves behind. -/
structure RunResult where
  files : FileSystem
  stdout : String
  stderr : String
  failure : Option Failure

namespace RunResult

/-- The code with which the run ends. -/
def exitCode (r : RunResult) : Nat :=
  if r.failure.isSome then 1 else 0

/-- Everything that the run prints to the second stream. -/
def report (r : RunResult) : String :=
  match r.failure with
  | some f => r.stderr ++ f.report
  | none => r.stderr

end RunResult

/-- The warning about a source that is passed over. -/
def warning (path : String) (f : Failure) : String :=
  " WARN skipped file path=" ++ path ++ " error=" ++ f.line ++ "\n"

/-- The state of a run over a directory. -/
structure Progress where
  files : FileSystem
  /-- The sources that were handled, the last one first. -/
  results : List (String × Outcome)
  failed : Nat
  warnings : String

/-- Takes a step for each source, one after the other, up to the first failure. -/
def Progress.forEach (step : Progress → String → Progress × Option Failure) (p : Progress) :
    List String → Progress × Option Failure
  | [] => (p, none)
  | path :: rest =>
    match step p path with
    | (p, some f) => (p, some f)
    | (p, none) => p.forEach step rest

/-- Handles one source. A source that cannot be handled is counted and passed over; a target
    that cannot be written is a failure of the run. -/
def Options.handleOne (o : Options) (grammar : Grammar) (pass : Pass) (outDir : String)
    (p : Progress) (path : String) : Progress × Option Failure :=
  match o.handle grammar pass p.files path with
  | .ok outcome =>
    match writeText p.files (FilePath.target o.path path outDir) outcome.code with
    | (files, some fault) => ({ p with files := files }, some (.file fault))
    | (files, none) => ({ p with files := files, results := (path, outcome) :: p.results }, none)
  | .error f =>
    let text := if o.verbosity = .quiet then "" else warning path f
    ({ p with failed := p.failed + 1, warnings := p.warnings ++ text }, none)

/-- Handles sources one after the other; a target that cannot be written ends the run. -/
def Options.handleAll (o : Options) (grammar : Grammar) (pass : Pass) (outDir : String)
    (p : Progress) (paths : List String) : Progress × Option Failure :=
  p.forEach (o.handleOne grammar pass outDir) paths

/-- A run over a directory. -/
def Options.runDirectory (o : Options) (tools : Tools) (pass : Pass) (fs : FileSystem)
    (outDir : String) : RunResult :=
  match collectSources tools.walk fs o.path with
  | .error fault => ⟨fs, "", "", some (.file fault)⟩
  | .ok paths =>
    let (p, stopped) := o.handleAll tools.grammar pass outDir ⟨fs, [], 0, ""⟩ paths
    match stopped with
    | some f => ⟨p.files, "", p.warnings, some f⟩
    | none =>
      let summary := if o.summary then summaryText p.results.reverse else ""
      let failure := if 0 < p.failed then some (.someFailed p.failed paths.length) else none
      ⟨p.files, "", p.warnings ++ summary, failure⟩

/-- A run over one file. -/
def Options.runFile (o : Options) (grammar : Grammar) (pass : Pass) (fs : FileSystem) :
    RunResult :=
  match o.handle grammar pass fs o.path with
  | .error f => ⟨fs, "", "", some f⟩
  | .ok outcome =>
    let summary := if o.summary then summaryText [(o.path, outcome)] else ""
    match o.outputFile with
    | none => ⟨fs, outcome.code, summary, none⟩
    | some target =>
      match writeText fs target outcome.code with
      | (fs, some fault) => ⟨fs, "", "", some (.file fault)⟩
      | (fs, none) => ⟨fs, "", summary, none⟩

/-- A run with options that have been read. The base directory is an absolute path to the
    working directory. -/
def Options.run (o : Options) (tools : Tools) (fs : FileSystem) (baseDir : String) : RunResult :=
  match o.validate fs with
  | .error fault => ⟨fs, "", "", some (.options fault)⟩
  | .ok () =>
    match o.loadDefines tools.formats fs baseDir with
    | .error f => ⟨fs, "", "", some f⟩
    | .ok defines =>
      let pass := o.pass defines
      if fs.isDirectory o.path then
        match o.outDir with
        | none => ⟨fs, "", "", some (.options .outDirRequired)⟩
        | some outDir => o.runDirectory tools pass fs outDir
      else o.runFile tools.grammar pass fs

end DefineFold
