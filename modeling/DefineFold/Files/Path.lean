/-
  DefineFold.Files.Path

  Paths of files as text. Names are separated by slashes; empty names count for nothing, and
  neither does a dot except as the first name of a relative path. What is cut out of a path
  keeps the spelling of what lies between its names.
-/

namespace DefineFold

namespace FilePath

/-- Cuts characters at every slash. -/
def splitSlashes : List Char → List (List Char)
  | [] => [[]]
  | c :: cs =>
    if c = '/' then [] :: splitSlashes cs
    else
      match splitSlashes cs with
      | [] => [[c]]
      | part :: parts => (c :: part) :: parts

/-- The pieces of a path between its slashes, empty ones included. -/
def pieces (path : String) : List String :=
  (splitSlashes path.toList).map String.ofList

/-- Pieces with a slash between them. -/
def joinPieces : List String → String
  | [] => ""
  | piece :: rest => rest.foldl (fun text piece => text ++ "/" ++ piece) piece

/-- Whether a path starts at the root. -/
def isAbsolute (path : String) : Bool :=
  path.toList.head? == some '/'

/-- One path below another; an absolute path stays what it is. -/
def join (base path : String) : String :=
  if isAbsolute path then path
  else if base = "" ∨ base.toList.getLast? = some '/' then base ++ path
  else base ++ "/" ++ path

/-! ## Components -/

/-- What a path is made of. -/
inductive Component where
  | root
  | current
  | parent
  | name (text : String)
deriving DecidableEq, Repr, Inhabited

/-- The component that a piece stands for, `first` being whether it is the first piece. -/
def component? (first : Bool) (piece : String) : Option Component :=
  if piece = "" then none
  else if piece = "." then (if first then some .current else none)
  else if piece = ".." then some .parent
  else some (.name piece)

/-- The pieces of a path, each with its component if it has one. -/
def marked (path : String) : List (String × Option Component) :=
  match pieces path with
  | [] => []
  | p :: ps => (p, component? true p) :: ps.map fun q => (q, component? false q)

/-- The components of a path. -/
def components (path : String) : List Component :=
  let body := (marked path).filterMap (·.2)
  if isAbsolute path then .root :: body else body

/-- The rank of a component among the others. -/
def Component.rank : Component → Nat
  | .root => 0
  | .current => 1
  | .parent => 2
  | .name _ => 3

/-- The order of two texts by their characters. -/
def compareChars : List Char → List Char → Ordering
  | [], [] => .eq
  | [], _ :: _ => .lt
  | _ :: _, [] => .gt
  | a :: as, b :: bs =>
    if a.toNat < b.toNat then .lt
    else if b.toNat < a.toNat then .gt
    else compareChars as bs

/-- The order of two components. -/
def Component.compare : Component → Component → Ordering
  | .name a, .name b => compareChars a.toList b.toList
  | a, b => Ord.compare a.rank b.rank

/-- The order of two lists of components. -/
def compareComponents : List Component → List Component → Ordering
  | [], [] => .eq
  | [], _ :: _ => .lt
  | _ :: _, [] => .gt
  | a :: as, b :: bs =>
    match a.compare b with
    | .eq => compareComponents as bs
    | other => other

/-- Puts a path before all those that do not come earlier, each with its components. -/
def insertSorted (x : List Component × String) :
    List (List Component × String) → List (List Component × String)
  | [] => [x]
  | y :: rest =>
    if compareComponents x.1 y.1 != .gt then x :: y :: rest else y :: insertSorted x rest

/-- Paths in the order of their components. -/
def sort (paths : List String) : List String :=
  ((paths.map fun p => (components p, p)).foldr insertSorted []).map (·.2)

/-! ## Parts of a path -/

/-- The last name of a path, unless the path ends in a step upwards. -/
def fileName? (path : String) : Option String :=
  match (components path).getLast? with
  | some (.name text) => some text
  | _ => none

/-- What stands behind the last dot of a name, unless the dot comes first. -/
def extensionOf? (name : String) : Option String :=
  let tail := name.toList.reverse.takeWhile (· ≠ '.')
  let front := name.toList.reverse.drop (tail.length + 1)
  if tail.length = name.toList.length ∨ front.isEmpty then none
  else some (String.ofList tail.reverse)

/-- The extension of the last name of a path. -/
def extension? (path : String) : Option String :=
  (fileName? path).bind extensionOf?

/-- Marked pieces without those at the end that count for nothing. -/
def trimEnd (marks : List (String × Option Component)) : List (String × Option Component) :=
  (marks.reverse.dropWhile fun m => m.2.isNone).reverse

/-- The text of marked pieces. -/
def markedText (marks : List (String × Option Component)) : String :=
  joinPieces (marks.map (·.1))

/-- The text of marked pieces without those at the end that count for nothing. If that is all
    of them, the root is left of an absolute path. -/
def trimmedText (absolute : Bool) (marks : List (String × Option Component)) : String :=
  match trimEnd marks with
  | [] => if absolute then "/" else ""
  | kept => markedText kept

/-- The path without its last component. The root and the empty path have no parent. -/
def parent? (path : String) : Option String :=
  let marks := trimEnd (marked path)
  if marks.isEmpty then none else some (trimmedText (isAbsolute path) marks.dropLast)

/-- Drops as many marked pieces as it takes to pass the given number of components. -/
def dropComponents : Nat → List (String × Option Component) → List (String × Option Component)
  | _, [] => []
  | 0, (p, some c) :: rest => (p, some c) :: rest
  | n, (_, none) :: rest => dropComponents n rest
  | n + 1, (_, some _) :: rest => dropComponents n rest

/-- The rest of a path after another one, if it starts with its components. -/
def relativeTo? (root path : String) : Option String :=
  let front := components root
  if front.isPrefixOf (components path) then
    if front.isEmpty then some (trimmedText (isAbsolute path) (marked path))
    else
      let skipped := if isAbsolute path then front.length - 1 else front.length
      some (trimmedText false (dropComponents skipped (marked path)))
  else none

/-- Where a file found below `root` goes below `outDir`: to the same place, or right below it
    if it does not lie below `root`. -/
def target (root path outDir : String) : String :=
  match relativeTo? root path with
  | some relative => join outDir relative
  | none => join outDir ((fileName? path).getD path)

end FilePath

end DefineFold
