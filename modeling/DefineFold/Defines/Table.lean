/-
  DefineFold.Defines.Table

  Tables: defines together with their paths, listed once for all candidates. The first path
  that matches a candidate decides it, even where its value is one that is not substituted.
-/

import DefineFold.Defines.Basic
import DefineFold.Defines.Candidate

namespace DefineFold

/-- How candidates are resolved. -/
structure ResolveOptions where
  order : PathOrder
  /-- Whether false, zero, the empty text and null are substituted too. -/
  allowFalsy : Bool
deriving DecidableEq, Repr

instance : Inhabited ResolveOptions :=
  ⟨⟨.longestFirst, false⟩⟩

/-- The value found for a candidate, and where. -/
structure Replacement where
  path : Path
  value : Value

/-- The replacement at a path of a configuration. -/
def replacementAt? (config : Value) (allowFalsy : Bool) (path : Path) : Option Replacement :=
  match config.lookup? path.segments with
  | none => none
  | some value => if value.isFalsy && !allowFalsy then none else some ⟨path, value⟩

/-- The replacement for a candidate among listed paths of a configuration. -/
def resolveAmong? (config : Value) (paths : List Path) (allowFalsy : Bool) (form : Form)
    (candidate : Candidate) : Option Replacement :=
  match paths.find? fun path => form.accepts candidate path.dotted with
  | none => none
  | some path => replacementAt? config allowFalsy path

/-- The replacement for a candidate in a configuration. -/
def resolve? (config : Value) (options : ResolveOptions) (form : Form) (candidate : Candidate) :
    Option Replacement :=
  resolveAmong? config (config.paths options.order) options.allowFalsy form candidate

/-- Defines with their paths. -/
structure Table where
  defines : Defines
  options : ResolveOptions
  paths : List Path
  paths_eq : paths = defines.root.paths options.order
  /-- The defines for `typeof` expressions. -/
  typeofRoot : Value
  typeofRoot_eq : typeofRoot = defines.typeofNamespace.root
  typeofPaths : List Path
  typeofPaths_eq : typeofPaths = typeofRoot.paths options.order

namespace Table

/-- The table of some defines. -/
def build (defines : Defines) (options : ResolveOptions) : Table :=
  ⟨defines, options, _, rfl, _, rfl, _, rfl⟩

/-- The replacement for a candidate. -/
def resolve? (t : Table) (form : Form) (candidate : Candidate) : Option Replacement :=
  resolveAmong? t.defines.root t.paths t.options.allowFalsy form candidate

/-- Puts the mark of `typeof` keys back in front of the first segment. -/
def markTypeof (path : Path) : Path :=
  match path.segments with
  | [] => path
  | first :: rest => Path.ofSegments ((Defines.typeofMark ++ first) :: rest)

/-- The replacement for the operand of `typeof`, its path spelled as in the configuration. -/
def resolveTypeof? (t : Table) (name : String) : Option Replacement :=
  (resolveAmong? t.typeofRoot t.typeofPaths t.options.allowFalsy .typeofOperand
    (.typeofOperand name)).map fun r => { r with path := markTypeof r.path }

end Table

end DefineFold
