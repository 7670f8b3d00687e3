/-
  DefineFold.Value.Literal

  A configuration value as a JavaScript literal expression.
-/

import DefineFold.Number.Text
import DefineFold.Text.Letter
import DefineFold.Text.Quoted
import DefineFold.Value.Basic

namespace DefineFold

/-- The texts one after the other with a separator between them. -/
def joinChars (separator : List Char) : List (List Char) → List Char
  | [] => []
  | [text] => text
  | text :: rest => text ++ separator ++ joinChars separator rest

/-- A key in an object literal: plain names stand as they are, the others are quoted. -/
def keyChars (key : String) : List Char :=
  if isPlainName key then key.toList else quoteChars key.toList

namespace Value

mutual

/-- The characters of the literal of a value. -/
def literalChars : Value → List Char
  | .null => "null".toList
  | .bool true => "true".toList
  | .bool false => "false".toList
  | .integer n => (intText n).toList
  | .double x => (numberLiteral x).toList
  | .string s => quoteChars s.toList
  | .array items => '[' :: (joinChars [',', ' '] (itemLiterals items) ++ [']'])
  | .object [] => ['\x7b', '\x7d']
  | .object (e :: es) =>
    '\x7b' :: ' ' :: (joinChars [',', ' '] (memberLiterals (e :: es)) ++ [' ', '\x7d'])

/-- The literals of the items of an array. -/
def itemLiterals : List Value → List (List Char)
  | [] => []
  | v :: vs => literalChars v :: itemLiterals vs

/-- The members of an object literal. -/
def memberLiterals : List (String × Value) → List (List Char)
  | [] => []
  | (key, v) :: rest => (keyChars key ++ ':' :: ' ' :: literalChars v) :: memberLiterals rest

end

/-- The literal of a value. -/
def literal (v : Value) : String :=
  String.ofList v.literalChars

end Value

end DefineFold
