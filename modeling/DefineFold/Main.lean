/-
  DefineFold.Main

  The command line. What the options name is read into a file system, the run is computed on
  it, and the files that it changed are written back. The tree of a source lies beside it, in
  a file of the same name with `.tree.json` behind it.
-/

import DefineFold.Command.Run
import DefineFold.Tree.Record

namespace DefineFold

/-! ## Reading -/

/-- What lies at a path of the machine, with everything below it. Links are followed. -/
partial def readEntry (path : String) : IO (Option Entry) := do
  let place := (← IO.currentDir) / path
  if ← place.isDir then
    let mut entries := []
    for e in ← place.readDir do
      if let some below ← readEntry (FilePath.join path e.fileName) then
        entries := (e.fileName, below) :: entries
    return some (.directory entries)
  else if ← place.pathExists then
    match (← place.metadata).type with
    | .file => return some (.file (String.fromUTF8? (← IO.FS.readBinFile place)))
    | _ => return some .device
  else return none

/-- The names that a path passes through from the root, one list for each step. -/
def namesOnWay (start : List String) : List String → List (List String)
  | [] => [start]
  | piece :: rest =>
    if piece = "" ∨ piece = "." then namesOnWay start rest
    else if piece = ".." then start :: namesOnWay start.dropLast rest
    else start :: namesOnWay (start ++ [piece]) rest

/-- The absolute path that names spell. -/
def absolutePath (names : List String) : String :=
  "/" ++ FilePath.joinPieces names

/-- Adds what lies on the way to a path and at its end. Of the directories on the way nothing
    else is added. -/
def addPath (fs : FileSystem) (path : String) : IO FileSystem := do
  let start := if FilePath.isAbsolute path then [] else fs.workingDirectory
  let way := namesOnWay start (FilePath.pieces path)
  let mut fs := fs
  for names in way.dropLast do
    if (fs.root.at? names).isNone then
      if ← ((← IO.currentDir) / absolutePath names).isDir then
        fs := fs.put names (.directory [])
      else
        fs := (← readEntry (absolutePath names)).elim fs (fs.put names)
  if let some names := way.getLast? then
    fs := (← readEntry (absolutePath names)).elim fs (fs.put names)
  return fs

/-- The file that holds the tree of a source. -/
def treeFile (path : String) : String :=
  path ++ ".tree.json"

/-- The part of the machine that the options name. -/
def readMachine (o : Options) : IO FileSystem := do
  let home := (FilePath.pieces (← IO.currentDir).toString).filter (· ≠ "")
  let mut fs : FileSystem := ⟨.directory [], home⟩
  for names in namesOnWay [] home do
    if (fs.root.at? names).isNone then fs := fs.put names (.directory [])
  for path in [o.path, treeFile o.path] ++ o.config.toList ++ o.outputFile.toList
      ++ o.outDir.toList do
    fs ← addPath fs path
  return fs

/-- The sources of a run whose trees lie beside them. -/
def parsedSources (o : Options) (fs : FileSystem) : List ParsedSource :=
  let paths :=
    if fs.isDirectory o.path then
      (collectSources FileSystem.walk fs o.path).toOption.getD []
    else [o.path]
  paths.filterMap fun path => do
    let language ← o.languageFor? path
    let text ← (fs.read path).toOption
    let record ← (fs.read (treeFile path)).toOption
    let tree ← (Json.parse? record).bind Tree.ofValue?
    some ⟨language, text, tree⟩

/-! ## Running -/

/-- Writes files to the machine, each under its name from the root. -/
def writeFiles (files : List (String × Option String)) : IO Unit := do
  for (name, text) in files do
    let path := "/" ++ name
    IO.FS.createDirAll ((FilePath.parent? path).getD "/")
    IO.FS.writeFile path (text.getD "")

/-- Runs the command line and answers the code with which the program ends. -/
def runCommand (args : List String) : IO Nat := do
  match Options.parse args with
  | .error .help =>
    IO.print usage
    return UsageFault.exitCode .help
  | .error fault =>
    IO.eprint ("error: " ++ fault.message ++ "\n\n" ++ usage)
    return fault.exitCode
  | .ok o =>
    let before ← readMachine o
    let r := o.run (.standard (.ofSources (parsedSources o before))) before
      (absolutePath before.workingDirectory)
    writeFiles (r.files.changesIn before [])
    IO.print r.stdout
    IO.eprint r.report
    return r.exitCode

end DefineFold

/-- The program. -/
def main (args : List String) : IO UInt32 := do
  return UInt32.ofNat (← DefineFold.runCommand args)
