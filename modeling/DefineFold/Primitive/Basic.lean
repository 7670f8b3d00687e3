/-
  DefineFold.Primitive.Basic

  The primitive values of JavaScript, as far as they can be known before a program runs,
  and the conversions between them.
-/

import DefineFold.Number.Text
import DefineFold.Primitive.Numeral
import DefineFold.Text.Quoted
import DefineFold.Value.Basic

namespace DefineFold

/-- A primitive value. -/
inductive Primitive where
  | undefined
  | null
  | bool (b : Bool)
  | number (x : Float)
  | string (s : String)
deriving DecidableEq, Inhabited

namespace Primitive

/-- The primitive value of a configuration value; arrays and objects have none. -/
def ofValue? : Value → Option Primitive
  | .null => some .null
  | .bool b => some (.bool b)
  | .integer n => some (.number (Float.ofInt n))
  | .double x => some (.number x)
  | .string s => some (.string s)
  | .array _ => none
  | .object _ => none

/-- Whether the value counts as true in a condition. -/
def isTruthy : Primitive → Bool
  | .undefined => false
  | .null => false
  | .bool b => b
  | .number x => x != 0.0 && !x.isNaN
  | .string s => s != ""

/-- What `typeof` answers. -/
def typeName : Primitive → String
  | .undefined => "undefined"
  | .null => "object"
  | .bool _ => "boolean"
  | .number _ => "number"
  | .string _ => "string"

/-- The conversion to a number. -/
def toNumber : Primitive → Float
  | .undefined => Double.nan
  | .null => 0.0
  | .bool b => if b then 1.0 else 0.0
  | .number x => x
  | .string s => numberOfText s

/-- The conversion to a string. -/
def toText : Primitive → String
  | .undefined => "undefined"
  | .null => "null"
  | .bool b => if b then "true" else "false"
  | .number x => numberText x
  | .string s => s

/-- The value as a literal expression. -/
def literal : Primitive → String
  | .undefined => "undefined"
  | .null => "null"
  | .bool b => if b then "true" else "false"
  | .number x => numberLiteral x
  | .string s => quote s

/-- A number that is not finite. -/
def isNonFinite : Primitive → Bool
  | .number x => !x.isFinite
  | _ => false

end Primitive

end DefineFold
