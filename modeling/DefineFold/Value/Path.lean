/-
  DefineFold.Value.Path

  Paths: the ways from the root of a configuration to the places below it. Every place has
  one path, in pre-order, the places of nested containers included. Candidates are
  compared with the dotted form of a path, which two different paths may share.
-/

import DefineFold.Text.Source
import DefineFold.Value.Literal

namespace DefineFold

/-- The segments with a dot between them. -/
def joinDots (segments : List String) : String :=
  String.ofList (joinChars ['.'] (segments.map String.toList))

/-- Cuts characters at every dot. -/
def splitDots : List Char → List (List Char)
  | [] => [[]]
  | c :: cs =>
    if c = '.' then [] :: splitDots cs
    else
      match splitDots cs with
      | [] => [[c]]
      | part :: parts => (c :: part) :: parts

/-- A path with its dotted form. -/
structure Path where
  segments : List String
  dotted : String
  dotted_eq : dotted = joinDots segments
deriving DecidableEq

namespace Path

/-- The path with the given segments. -/
def ofSegments (segments : List String) : Path :=
  ⟨segments, joinDots segments, rfl⟩

instance : Inhabited Path :=
  ⟨ofSegments []⟩

/-- The number of segments. -/
def depth (p : Path) : Nat :=
  p.segments.length

end Path

/-! ## Order of paths -/

/-- Which of several paths is offered first. -/
inductive PathOrder where
  /-- By falling byte length of the dotted form; paths of one length keep their order. -/
  | longestFirst
  /-- In the order of enumeration. -/
  | enumeration
deriving DecidableEq, Repr, Inhabited

/-- Puts a path before all those that are not longer, each with its length. -/
def insertLongest (x : Nat × Path) : List (Nat × Path) → List (Nat × Path)
  | [] => [x]
  | y :: rest => if y.1 ≤ x.1 then x :: y :: rest else y :: insertLongest x rest

/-- The paths by falling length of their dotted form. -/
def sortLongest (paths : List Path) : List Path :=
  ((paths.map fun p => (textLength p.dotted, p)).foldr insertLongest []).map (·.2)

/-- The paths in the given order. -/
def PathOrder.arrange : PathOrder → List Path → List Path
  | .longestFirst, paths => sortLongest paths
  | .enumeration, paths => paths

/-! ## Paths of a value -/

namespace Value

mutual

/-- The segments of all places below a value, with `front` before each. -/
def placesBelow (front : List String) : Value → List (List String)
  | .array items => placesOfItems front 0 items
  | .object entries => placesOfEntries front entries
  | _ => []

/-- The places of the items of an array from an index on. -/
def placesOfItems (front : List String) (index : Nat) : List Value → List (List String)
  | [] => []
  | v :: vs =>
    (front ++ [natText index])
      :: (placesBelow (front ++ [natText index]) v ++ placesOfItems front (index + 1) vs)

/-- The places of the entries of an object. -/
def placesOfEntries (front : List String) : List (String × Value) → List (List String)
  | [] => []
  | (key, v) :: rest =>
    (front ++ [key]) :: (placesBelow (front ++ [key]) v ++ placesOfEntries front rest)

end

/-- The paths of a value in pre-order. -/
def enumerate (v : Value) : List Path :=
  (v.placesBelow []).map Path.ofSegments

/-- The paths of a value in the given order. -/
def paths (v : Value) (order : PathOrder) : List Path :=
  order.arrange v.enumerate

end Value

end DefineFold
