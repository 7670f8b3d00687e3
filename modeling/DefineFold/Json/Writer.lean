/-
  DefineFold.Json.Writer

  Configuration values as JSON text, on one line or indented by two spaces. Object keys are
  written in their order.
-/

import DefineFold.Number.Text
import DefineFold.Value.Literal

namespace DefineFold

namespace Json

/-- One character as it stands inside a JSON text. -/
def textChar (c : Char) : List Char :=
  if c = '"' then ['\\', '"']
  else if c = '\\' then ['\\', '\\']
  else if c = '\n' then ['\\', 'n']
  else if c = '\r' then ['\\', 'r']
  else if c = '\t' then ['\\', 't']
  else if c.toNat = 0x08 then ['\\', 'b']
  else if c.toNat = 0x0C then ['\\', 'f']
  else if c.toNat < 0x20 then '\\' :: 'u' :: hexText 4 c.toNat
  else [c]

/-- A text in quotes. -/
def textChars (s : String) : List Char :=
  '"' :: (s.toList.flatMap textChar ++ ['"'])

/-- A line break and the spaces of an indentation. -/
def newLine (level : Nat) : List Char :=
  '\n' :: List.replicate (2 * level) ' '

mutual

/-- A value on one line. -/
def compactChars : Value → List Char
  | .null => "null".toList
  | .bool b => if b then "true".toList else "false".toList
  | .integer n => (intText n).toList
  | .double x => (numberLiteral x).toList
  | .string s => textChars s
  | .array items => '[' :: (joinChars [','] (compactItems items) ++ [']'])
  | .object entries => '\x7b' :: (joinChars [','] (compactMembers entries) ++ ['\x7d'])

/-- The items of an array on one line. -/
def compactItems : List Value → List (List Char)
  | [] => []
  | v :: vs => compactChars v :: compactItems vs

/-- The members of an object on one line. -/
def compactMembers : List (String × Value) → List (List Char)
  | [] => []
  | (key, v) :: rest => (textChars key ++ ':' :: compactChars v) :: compactMembers rest

end

mutual

/-- A value with every item and member on a line of its own, indented. -/
def prettyChars (level : Nat) : Value → List Char
  | .null => "null".toList
  | .bool b => if b then "true".toList else "false".toList
  | .integer n => (intText n).toList
  | .double x => (numberLiteral x).toList
  | .string s => textChars s
  | .array [] => ['[', ']']
  | .array (v :: vs) =>
    '[' :: (joinChars [','] (prettyItems (level + 1) (v :: vs)) ++ newLine level ++ [']'])
  | .object [] => ['\x7b', '\x7d']
  | .object (e :: es) =>
    '\x7b' :: (joinChars [','] (prettyMembers (level + 1) (e :: es)) ++ newLine level ++ ['\x7d'])

/-- The items of an array, each after its line break. -/
def prettyItems (level : Nat) : List Value → List (List Char)
  | [] => []
  | v :: vs => (newLine level ++ prettyChars level v) :: prettyItems level vs

/-- The members of an object, each after its line break. -/
def prettyMembers (level : Nat) : List (String × Value) → List (List Char)
  | [] => []
  | (key, v) :: rest =>
    (newLine level ++ textChars key ++ ':' :: ' ' :: prettyChars level v)
      :: prettyMembers level rest

end

/-- The JSON text of a value on one line. -/
def compact (v : Value) : String :=
  String.ofList (compactChars v)

/-- The JSON text of a value over several lines, indented by two spaces. -/
def pretty (v : Value) : String :=
  String.ofList (prettyChars 0 v)

end Json

end DefineFold
