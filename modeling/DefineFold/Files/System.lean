/-
  DefineFold.Files.System

  A file system as a value: directories, files, symbolic links and devices below one root,
  and a working directory. Paths are followed name by name; links are followed on the way,
  and at the end where an operation asks for it.

  There are no permissions, and no disk is full or fails. An operation is refused for where its
  path leads and for nothing else, and one that is refused has changed no file: there is no
  partial write. Names are text.
-/

import DefineFold.Files.Path
import DefineFold.Text.Source

namespace DefineFold

/-- Why the operating system refuses an operation. -/
inductive OsError where
  | notFound
  | exists
  | notDirectory
  | isDirectory
  | nameTooLong
  | linkLoop
  | nulInName
  | notText
deriving DecidableEq, Repr

/-- The wording of an error. -/
def OsError.message : OsError → String
  | .notFound => "No such file or directory (os error 2)"
  | .exists => "File exists (os error 17)"
  | .notDirectory => "Not a directory (os error 20)"
  | .isDirectory => "Is a directory (os error 21)"
  | .nameTooLong => "File name too long (os error 36)"
  | .linkLoop => "Too many levels of symbolic links (os error 40)"
  | .nulInName => "file name contained an unexpected NUL byte"
  | .notText => "stream did not contain valid UTF-8"

/-- What a name in a directory can stand for. -/
inductive Entry where
  /-- A file with its text; there is none if the bytes of the file are no UTF-8. -/
  | file (text : Option String)
  /-- A file that keeps nothing. -/
  | device
  /-- A symbolic link with the path it points to. -/
  | link (target : String)
  | directory (entries : List (String × Entry))
deriving Inhabited

namespace Entry

/-- Whether an entry is a directory. -/
def isDirectory : Entry → Bool
  | .directory _ => true
  | _ => false

/-- The entry with a name in a directory. -/
def child? : Entry → String → Option Entry
  | .directory entries, name => (entries.find? fun e => e.1 == name).map (·.2)
  | _, _ => none

/-- The entry that names lead to, one after the other. -/
def at? : Entry → List String → Option Entry
  | e, [] => some e
  | e, name :: rest => (e.child? name).bind (·.at? rest)

/-- Puts an entry under a name. -/
def putName (name : String) (new : Entry) : List (String × Entry) → List (String × Entry)
  | [] => [(name, new)]
  | (n, e) :: rest => if n = name then (n, new) :: rest else (n, e) :: putName name new rest

/-- Puts an entry where names lead to; the directories on the way must be there. -/
def put (new : Entry) : Entry → List String → Entry
  | _, [] => new
  | .directory entries, name :: rest =>
    match entries.find? fun e => e.1 == name with
    | some (_, below) => .directory (putName name (put new below rest) entries)
    | none => if rest.isEmpty then .directory (putName name new entries) else .directory entries
  | e, _ :: _ => e

end Entry

/-- A file system with the names that lead to its working directory. -/
structure FileSystem where
  root : Entry
  workingDirectory : List String
deriving Inhabited

namespace FileSystem

/-- Where a path leads to. -/
inductive Place where
  /-- To something that exists, under these names. -/
  | found (names : List String)
  /-- To a name that is free in a directory. -/
  | free (directory : List String) (name : String)
deriving DecidableEq, Repr

/-- The longest name, in bytes. -/
def nameLimit : Nat :=
  255

/-- The longest path, in bytes. -/
def pathLimit : Nat :=
  4095

/-- How many links are followed on one way. -/
def linkLimit : Nat :=
  40

/-- What is done with the last name of a path. -/
inductive LastName where
  /-- If it is a link, it is followed. -/
  | follow
  /-- It stands for itself, unless a slash comes behind it. -/
  | keep
  /-- It is to become a file: a link is followed, and no slash may come behind the name. -/
  | create
deriving DecidableEq, Repr

/-- The way from the root to a place: the names on it with what they stand for, the last name
    first. -/
abbrev Trail := List (String × Entry)

/-- What lies at the end of a way. -/
def Trail.here (root : Entry) : Trail → Entry
  | [] => root
  | (_, e) :: _ => e

/-- The names on a way, the first one first. -/
def Trail.names (trail : Trail) : List String :=
  (trail.map (·.1)).reverse

/-- Goes on along names one after the other. -/
def Trail.extend? (root : Entry) (trail : Trail) : List String → Option Trail
  | [] => some trail
  | name :: rest =>
    match (trail.here root).child? name with
    | some e => Trail.extend? root ((name, e) :: trail) rest
    | none => none

/-- Follows the pieces of a path from a place. The first argument bounds the number of pieces
    met, the second the number of links. -/
def follow (root : Entry) (last : LastName) :
    Nat → Nat → Trail → List String → Except OsError Place
  | 0, _, _, _ => .error .linkLoop
  | _ + 1, _, trail, [] => .ok (.found trail.names)
  | fuel + 1, links, trail, piece :: rest =>
    match trail.here root with
    | .directory entries =>
      if piece = "" ∨ piece = "." then follow root last fuel links trail rest
      else if piece = ".." then follow root last fuel links trail.tail rest
      else if last = .create ∧ rest.isEmpty = false ∧ rest.all (· = "") then .error .isDirectory
      else if nameLimit < textLength piece then .error .nameTooLong
      else
        match entries.find? fun e => e.1 == piece with
        | none =>
          if rest.all (· = "") then .ok (.free trail.names piece) else .error .notFound
        | some (_, .link target) =>
          if rest.isEmpty ∧ last = .keep then .ok (.found (trail.names ++ [piece]))
          else if target = "" then .error .notFound
          else
            match links with
            | 0 => .error .linkLoop
            | links + 1 =>
              let start := if FilePath.isAbsolute target then [] else trail
              follow root last fuel links start (FilePath.pieces target ++ rest)
        | some (_, e) => follow root last fuel links ((piece, e) :: trail) rest
    | _ => .error .notDirectory

mutual

/-- The number of pieces in the targets of all links below an entry. -/
def linkPieces : Entry → Nat
  | .link target => (FilePath.pieces target).length
  | .directory entries => linkPiecesOf entries
  | _ => 0

/-- The number of pieces in the targets of all links below entries. -/
def linkPiecesOf : List (String × Entry) → Nat
  | [] => 0
  | (_, e) :: rest => linkPieces e + linkPiecesOf rest

end

/-- Where a path leads to from the working directory. -/
def locate (fs : FileSystem) (last : LastName) (path : String) : Except OsError Place :=
  if path.toList.contains '\x00' then .error .nulInName
  else if path = "" then .error .notFound
  else if pathLimit < textLength path then .error .nameTooLong
  else
    let pieces := FilePath.pieces path
    let names := if FilePath.isAbsolute path then [] else fs.workingDirectory
    let fuel := pieces.length + 1 + (linkLimit + 1) * (linkPieces fs.root + 1)
    match Trail.extend? fs.root [] names with
    | some start => follow fs.root last fuel linkLimit start pieces
    | none => .error .notFound

/-- The entry that a path leads to. -/
def entry (fs : FileSystem) (last : LastName) (path : String) : Except OsError Entry :=
  match fs.locate last path with
  | .error e => .error e
  | .ok (.free _ _) => .error .notFound
  | .ok (.found names) =>
    match fs.root.at? names with
    | some e => .ok e
    | none => .error .notFound

/-- Whether a path leads to anything. -/
def exists? (fs : FileSystem) (path : String) : Bool :=
  match fs.entry .follow path with
  | .ok _ => true
  | .error _ => false

/-- Whether a path leads to a regular file. -/
def isFile (fs : FileSystem) (path : String) : Bool :=
  match fs.entry .follow path with
  | .ok (.file _) => true
  | _ => false

/-- Whether a path leads to a directory. -/
def isDirectory (fs : FileSystem) (path : String) : Bool :=
  match fs.entry .follow path with
  | .ok (.directory _) => true
  | _ => false

/-- The text of the file at a path. -/
def read (fs : FileSystem) (path : String) : Except OsError String :=
  match fs.entry .follow path with
  | .error e => .error e
  | .ok (.file (some text)) => .ok text
  | .ok (.file none) => .error .notText
  | .ok .device => .ok ""
  | .ok (.directory _) => .error .isDirectory
  | .ok (.link _) => .error .linkLoop

/-- Puts an entry under the given names. -/
def put (fs : FileSystem) (names : List String) (e : Entry) : FileSystem :=
  { fs with root := Entry.put e fs.root names }

/-- Writes a file, which is made if the path leads to a free name. -/
def write (fs : FileSystem) (path text : String) : Except OsError FileSystem :=
  match fs.locate .create path with
  | .error e => .error e
  | .ok (.free directory name) => .ok (fs.put (directory ++ [name]) (.file (some text)))
  | .ok (.found names) =>
    match fs.root.at? names with
    | some (.file _) => .ok (fs.put names (.file (some text)))
    | some .device => .ok fs
    | some (.directory _) => .error .isDirectory
    | some (.link _) => .error .linkLoop
    | none => .error .notFound

/-- Makes one directory. -/
def makeDirectory (fs : FileSystem) (path : String) : Except OsError FileSystem :=
  match fs.locate .keep path with
  | .error e => .error e
  | .ok (.free directory name) => .ok (fs.put (directory ++ [name]) (.directory []))
  | .ok (.found _) => .error .exists

/-- Makes one directory, unless the path leads to one. The file system comes back as it is if
    the directory is refused. -/
def ensureDirectory (fs : FileSystem) (path : String) : FileSystem × Option OsError :=
  match fs.makeDirectory path with
  | .ok fs => (fs, none)
  | .error e => (fs, if fs.isDirectory path then none else some e)

/-- Makes a directory and those it lies in, as far as they are missing. What has been made
    stays, even if a later one is refused. The first argument bounds how many there are. -/
def makeDirectories : Nat → FileSystem → String → FileSystem × Option OsError
  | 0, fs, _ => (fs, none)
  | fuel + 1, fs, path =>
    if path = "" then (fs, none)
    else
      match fs.makeDirectory path, FilePath.parent? path with
      | .error .notFound, some above =>
        match makeDirectories fuel fs above with
        | (fs, some e) => (fs, some e)
        | (fs, none) => fs.ensureDirectory path
      | _, _ => fs.ensureDirectory path

/-! ## Listing -/

mutual

/-- The files below an entry with their texts, the names with slashes between them. -/
def filesBelow (front : String) : Entry → List (String × Option String)
  | .file text => [(front, text)]
  | .directory entries => filesOfEntries front entries
  | _ => []

/-- The files below the entries of a directory. -/
def filesOfEntries (front : String) : List (String × Entry) → List (String × Option String)
  | [] => []
  | (name, e) :: rest =>
    filesBelow (if front = "" then name else front ++ "/" ++ name) e ++ filesOfEntries front rest

end

/-- The files below the directory that names lead to. -/
def filesIn (fs : FileSystem) (names : List String) : List (String × Option String) :=
  match fs.root.at? names with
  | some e => filesBelow "" e
  | none => []

/-- Puts a file before all those whose names do not come earlier. -/
def insertByName (f : String × Option String) :
    List (String × Option String) → List (String × Option String)
  | [] => [f]
  | g :: gs =>
    if FilePath.compareChars f.1.toList g.1.toList != .gt then f :: g :: gs
    else g :: insertByName f gs

/-- The files below a directory that are new or have changed since, by name. -/
def changesIn (fs before : FileSystem) (names : List String) : List (String × Option String) :=
  let old := before.filesIn names
  ((fs.filesIn names).filter fun f => !old.contains f).foldr insertByName []

/-- The files below the working directory that are new or have changed since, by name. -/
def changesSince (fs before : FileSystem) : List (String × Option String) :=
  fs.changesIn before fs.workingDirectory

end FileSystem

end DefineFold
