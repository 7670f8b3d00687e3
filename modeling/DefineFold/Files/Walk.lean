/-
  DefineFold.Files.Walk

  Walks through a directory tree. A walk is told where to begin and which entries to keep, and
  answers with what it visits and with the errors on its way. Who carries it out is left open
  (`Walk`); `FileSystem.walk` is the one through a file system that is a value.
-/

import DefineFold.Files.System

namespace DefineFold

/-- What a visited entry is. Neither links nor devices are told apart any further. -/
inductive FileType where
  | file
  | directory
  | other
deriving DecidableEq, Repr

/-- What an entry is by itself: a link is a link, whatever it leads to. -/
def Entry.fileType : Entry → FileType
  | .file _ => .file
  | .directory _ => .directory
  | _ => .other

/-- What a walk tells about an entry. -/
structure Visit where
  path : String
  /-- How many names lead to the entry from where the walk begins. -/
  depth : Nat
  /-- The last name of the path. -/
  name : String
  fileType : FileType
deriving DecidableEq, Repr

/-- The visit of an entry with a name in a directory. -/
def Visit.child (path : String) (depth : Nat) (name : String) (e : Entry) : Visit :=
  ⟨FilePath.join path name, depth + 1, name, e.fileType⟩

/-- An error on the way, and the path at which it comes up. -/
structure WalkFault where
  path : String
  reason : OsError
deriving DecidableEq, Repr

/-- Goes down from a path, and turns back at the entries that are not kept. What comes out is in
    the order of the visits. -/
abbrev Walk := FileSystem → (Visit → Bool) → String → List (Except WalkFault Visit)

namespace FileSystem

mutual

/-- The way below an entry at a path. A directory whose path is too long cannot be read. -/
def walkBelow (keep : Visit → Bool) (path : String) (depth : Nat) :
    Entry → List (Except WalkFault Visit)
  | .directory entries =>
    if pathLimit < textLength path then [.error ⟨path, .nameTooLong⟩]
    else walkAmong keep path depth entries
  | _ => []

/-- The way through the entries of a directory at a path. -/
def walkAmong (keep : Visit → Bool) (path : String) (depth : Nat) :
    List (String × Entry) → List (Except WalkFault Visit)
  | [] => []
  | (name, e) :: rest =>
    let v := Visit.child path depth name e
    if keep v then
      .ok v :: walkBelow keep v.path v.depth e ++ walkAmong keep path depth rest
    else walkAmong keep path depth rest

end

/-- The visit of what a path itself stands for. -/
def visitRoot (root : String) (e : Entry) : Visit :=
  ⟨root, 0, (FilePath.fileName? root).getD root, e.fileType⟩

/-- A walk through a file system. A link is not followed, unless it is where the walk begins. -/
def walk : Walk := fun fs keep root =>
  match fs.entry .keep root, fs.entry .follow root with
  | .error e, _ => [.error ⟨root, e⟩]
  | .ok _, .error e => [.error ⟨root, e⟩]
  | .ok e, .ok top =>
    let v := visitRoot root e
    if keep v then .ok v :: walkBelow keep root v.depth top else []

end FileSystem

end DefineFold
