/-
  DefineFold.Files.Language

  The languages of sources, by name and by the extension of a file.
-/

import DefineFold.Files.Path
import DefineFold.Text.Radix

namespace DefineFold

/-- A language in which sources are written. -/
inductive Language where
  | javaScript
  | typeScript
  | tsx
deriving DecidableEq, Repr, Inhabited

namespace Language

/-- The name of a language. -/
def name : Language → String
  | .javaScript => "javascript"
  | .typeScript => "typescript"
  | .tsx => "tsx"

/-- The language with a given name or extension, in any case. The names consist of letters
    that no character outside of ASCII turns into, so only ASCII letters are lowered. -/
def ofName? (text : String) : Option Language :=
  let lower := String.ofList (text.toList.map lowerAscii)
  if ["javascript", "js", "jsx", "mjs", "cjs"].contains lower then some .javaScript
  else if ["typescript", "ts", "mts", "cts"].contains lower then some .typeScript
  else if lower = "tsx" then some .tsx
  else none

/-- The language that the extension of a path tells. -/
def ofPath? (path : String) : Option Language :=
  (FilePath.extension? path).bind ofName?

end Language

end DefineFold
