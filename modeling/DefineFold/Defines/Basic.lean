/-
  DefineFold.Defines.Basic

  Defines: the configuration of a pass, a mapping from names to values. Pairs from the
  command line are put in front of those from a file, so that their paths come first.
-/

import DefineFold.Text.Quoted
import DefineFold.Value.Basic

namespace DefineFold

/-- What can be wrong with a configuration. -/
inductive ConfigFault where
  | notFound (path : String)
  | unreadable (path : String) (reason : String)
  | malformed (path : String)
  | unsupported (format : String)
  | notAMapping (found : String)
  | invalidDefine (define : String)
deriving DecidableEq, Repr

/-- The wording of a fault. -/
def ConfigFault.message : ConfigFault → String
  | .notFound path => "config file not found: " ++ path
  | .unreadable path reason => "failed to read config file '" ++ path ++ "': " ++ reason
  | .malformed path => "failed to parse config file '" ++ path ++ "'"
  | .unsupported format =>
    "unsupported config format: " ++ format ++ " (expected json or yaml)"
  | .notAMapping found => "config root must be a mapping, found " ++ found
  | .invalidDefine define => "invalid define '" ++ define ++ "': expected KEY=VALUE"

/-- How texts in the formats of configurations become values. -/
structure Formats where
  json? : String → Option Value
  yaml? : String → Option Value

/-- The configuration of a pass. -/
structure Defines where
  entries : Entries
deriving Inhabited

namespace Defines

/-- No defines at all. -/
def empty : Defines :=
  ⟨[]⟩

/-- The defines of a configuration value, which is a mapping or null. -/
def ofValue : Value → Except ConfigFault Defines
  | .object entries => .ok ⟨entries⟩
  | .null => .ok empty
  | other => .error (.notAMapping other.shapeName)

/-- The defines as one value. -/
def root (d : Defines) : Value :=
  .object d.entries

/-- The number of top-level entries. -/
def size (d : Defines) : Nat :=
  d.entries.length

/-- Whether there are no entries. -/
def isEmpty (d : Defines) : Bool :=
  d.entries.isEmpty

/-- The value of a top-level key. -/
def get? (d : Defines) (key : String) : Option Value :=
  Entries.find? key d.entries

/-- Puts a value under a top-level key. -/
def insert (d : Defines) (key : String) (value : Value) : Defines :=
  ⟨Entries.insert key value d.entries⟩

/-- Puts pairs in front of the entries. Of a repeated key the first place and the last value
    count, and an entry whose key is among the pairs is dropped. -/
def override (d : Defines) (pairs : List (String × Value)) : Defines :=
  if pairs.isEmpty then d
  else
    let front := Entries.ofList pairs
    ⟨front ++ d.entries.filter fun e => !Entries.hasKey e.1 front⟩

/-- What stands before the name in a key for `typeof` expressions. -/
def typeofMark : String :=
  "typeof "

/-- The rest of a text after a given beginning. -/
def afterMark? (mark key : String) : Option String :=
  if mark.toList.isPrefixOf key.toList then
    some (String.ofList (key.toList.drop mark.toList.length))
  else none

/-- The entries for `typeof` expressions, each under the name alone. -/
def typeofEntries : Entries → Entries
  | [] => []
  | (key, v) :: rest =>
    match afterMark? typeofMark key with
    | some name => (name, v) :: typeofEntries rest
    | none => typeofEntries rest

/-- The defines for `typeof` expressions. -/
def typeofNamespace (d : Defines) : Defines :=
  ⟨typeofEntries d.entries⟩

end Defines

/-! ## Pairs from the command line -/

/-- The text before the first equals sign and the text after it. -/
def splitEquals? (seen : List Char) : List Char → Option (List Char × List Char)
  | [] => none
  | c :: cs => if c = '=' then some (seen.reverse, cs) else splitEquals? (c :: seen) cs

/-- Reads a pair `KEY=VALUE`. The value is JSON where it can be read as such, and otherwise a
    text, of which one pair of quotes is taken off. -/
def parseDefine (formats : Formats) (define : String) : Except ConfigFault (String × Value) :=
  match splitEquals? [] define.toList with
  | none => .error (.invalidDefine define)
  | some (before, after) =>
    let key := String.ofList (trimChars before)
    if key = "" then .error (.invalidDefine define)
    else
      let raw := String.ofList after
      .ok (key, (formats.json? (trim raw)).getD (.string (unquote raw)))

end DefineFold
