/-
  DefineFold.Value.Basic

  Configuration values: what a JSON or YAML document holds. The entries of an object keep
  the order in which their keys first came.
-/

import DefineFold.Text.Radix

namespace DefineFold

/-- A configuration value. Integers are those of 64 bits, signed or unsigned, and are kept
    exact; every other number is a double. -/
inductive Value where
  | null
  | bool (b : Bool)
  | integer (n : Int)
  | double (x : Float)
  | string (s : String)
  | array (items : List Value)
  | object (entries : List (String × Value))
deriving Inhabited

/-- The entries of an object, in order. -/
abbrev Entries := List (String × Value)

namespace Entries

/-- The value under a key. -/
def find? (key : String) : Entries → Option Value
  | [] => none
  | (k, v) :: rest => if k = key then some v else find? key rest

/-- Whether a key is present. -/
def hasKey (key : String) (entries : Entries) : Bool :=
  entries.any fun e => e.1 == key

/-- Puts a value under a key: in the place that the key has, or at the end. -/
def insert (key : String) (value : Value) : Entries → Entries
  | [] => [(key, value)]
  | (k, v) :: rest => if k = key then (k, value) :: rest else (k, v) :: insert key value rest

/-- The entries put in one after the other. -/
def ofList (pairs : List (String × Value)) : Entries :=
  pairs.foldl (fun entries e => Entries.insert e.1 e.2 entries) []

end Entries

namespace Value

/-- What messages call a value of this shape. -/
def shapeName : Value → String
  | .null => "null"
  | .bool _ => "boolean"
  | .integer _ => "number"
  | .double _ => "number"
  | .string _ => "string"
  | .array _ => "array"
  | .object _ => "mapping"

/-- The values that count as "no replacement": null, false, both zeros and the empty text. -/
def isFalsy : Value → Bool
  | .null => true
  | .bool b => !b
  | .integer n => n == 0
  | .double x => x == 0.0
  | .string s => s == ""
  | .array _ => false
  | .object _ => false

/-- The value one segment below. An array is entered by a decimal index of 64 bits, which may
    have a plus sign and zeros in front. -/
def child? : Value → String → Option Value
  | .object entries, segment => Entries.find? segment entries
  | .array items, segment => (unsigned? 10 (Nat.pow 2 64) segment.toList).bind (items[·]?)
  | _, _ => none

/-- The value that the segments lead to. -/
def lookup? : Value → List String → Option Value
  | v, [] => some v
  | v, segment :: rest => (v.child? segment).bind (·.lookup? rest)

end Value

end DefineFold
