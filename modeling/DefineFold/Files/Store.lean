/-
  DefineFold.Files.Store

  Sources in a file system: finding them on a walk, reading one, and writing one to a place whose
  directories may be missing.
-/

import DefineFold.Files.Language
import DefineFold.Files.Walk

namespace DefineFold

/-- What can go wrong with files. -/
inductive FileFault where
  | notFound (path : String)
  | unreadable (path : String) (reason : OsError)
  | unwritable (path : String) (reason : OsError)
  /-- Below the first path, the directory at the second one cannot be read. -/
  | unscannable (root path : String) (reason : OsError)
deriving DecidableEq, Repr

namespace FileFault

/-- What lies behind a fault, in words, the nearest cause first. -/
def causes : FileFault → List String
  | .notFound _ => []
  | .unreadable _ reason => [reason.message]
  | .unwritable _ reason => [reason.message]
  | .unscannable _ path reason =>
    ["IO error for operation on " ++ path ++ ": " ++ reason.message, reason.message]

/-- The wording of a fault. -/
def message : FileFault → String
  | .notFound path => "file not found: " ++ path
  | .unreadable path reason => "failed to read file '" ++ path ++ "': " ++ reason.message
  | .unwritable path reason => "failed to write file '" ++ path ++ "': " ++ reason.message
  | .unscannable root path reason =>
    "failed to scan directory '" ++ root ++ "': IO error for operation on " ++ path ++ ": "
      ++ reason.message

end FileFault

/-! ## Finding sources -/

/-- Directories of these names are not entered. -/
def excludedDirectories : List String :=
  ["node_modules"]

/-- Whether a scan keeps an entry: it passes over hidden names, and over directories of others'
    packages. Where it begins, no name counts. -/
def isKept (v : Visit) : Bool :=
  if v.depth = 0 then true
  else if v.name.toList.head? = some '.' then false
  else !(v.fileType == .directory && excludedDirectories.contains v.name)

/-- Whether an entry is a source: a regular file in a language that its extension tells. -/
def isSource (v : Visit) : Bool :=
  v.fileType == .file && (Language.ofPath? v.path).isSome

/-- The paths of the sources that a walk visits. The first error ends the scan. -/
def sourcesOf (root : String) : List (Except WalkFault Visit) → Except FileFault (List String)
  | [] => .ok []
  | .error fault :: _ => .error (.unscannable root fault.path fault.reason)
  | .ok v :: rest =>
    match sourcesOf root rest with
    | .error fault => .error fault
    | .ok found => .ok (if isSource v then v.path :: found else found)

/-- The sources below a path, in the order of their components. -/
def collectSources (walk : Walk) (fs : FileSystem) (root : String) :
    Except FileFault (List String) :=
  match sourcesOf root (walk fs isKept root) with
  | .error fault => .error fault
  | .ok found => .ok (FilePath.sort found)

/-! ## Reading and writing -/

/-- The text of a source. -/
def readSource (fs : FileSystem) (path : String) : Except FileFault String :=
  if fs.isFile path then
    match fs.read path with
    | .ok text => .ok text
    | .error e => .error (.unreadable path e)
  else .error (.notFound path)

/-- Writes a text to a path and makes the directories that it takes. Directories that have been
    made stay, even if the file is refused. -/
def writeText (fs : FileSystem) (path text : String) : FileSystem × Option FileFault :=
  let above := (FilePath.parent? path).getD ""
  match FileSystem.makeDirectories (path.toList.length + 1) fs above with
  | (fs, some e) => (fs, some (.unwritable above e))
  | (fs, none) =>
    match fs.write path text with
    | .error e => (fs, some (.unwritable path e))
    | .ok fs => (fs, none)

end DefineFold
