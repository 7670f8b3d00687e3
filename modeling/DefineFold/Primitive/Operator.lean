/-
  DefineFold.Primitive.Operator

  The binary and unary operators of JavaScript on primitive values.
-/

import DefineFold.Primitive.Basic
import DefineFold.Text.Units

namespace DefineFold

/-! ## Binary operators -/

/-- A binary operator. -/
inductive BinaryOp where
  | add
  | sub
  | mul
  | div
  | rem
  | pow
  | shiftLeft
  | shiftRight
  | shiftRightUnsigned
  | bitAnd
  | bitOr
  | bitXor
  | eq
  | notEq
  | strictEq
  | strictNotEq
  | less
  | lessEq
  | greater
  | greaterEq
  | logicalAnd
  | logicalOr
  | nullish
  | isIn
  | instanceOf
deriving DecidableEq, Repr, Inhabited

/-- The families of binary operators. -/
inductive OpFamily where
  | arithmetic
  | bitwise
  | comparison
  | logical
  | relational
deriving DecidableEq, Repr

namespace BinaryOp

/-- Every binary operator. -/
def all : List BinaryOp :=
  [.add, .sub, .mul, .div, .rem, .pow, .shiftLeft, .shiftRight, .shiftRightUnsigned, .bitAnd,
   .bitOr, .bitXor, .eq, .notEq, .strictEq, .strictNotEq, .less, .lessEq, .greater, .greaterEq,
   .logicalAnd, .logicalOr, .nullish, .isIn, .instanceOf]

/-- The token of an operator. -/
def token : BinaryOp → String
  | .add => "+"
  | .sub => "-"
  | .mul => "*"
  | .div => "/"
  | .rem => "%"
  | .pow => "**"
  | .shiftLeft => "<<"
  | .shiftRight => ">>"
  | .shiftRightUnsigned => ">>>"
  | .bitAnd => "&"
  | .bitOr => "|"
  | .bitXor => "^"
  | .eq => "=="
  | .notEq => "!="
  | .strictEq => "==="
  | .strictNotEq => "!=="
  | .less => "<"
  | .lessEq => "<="
  | .greater => ">"
  | .greaterEq => ">="
  | .logicalAnd => "&&"
  | .logicalOr => "||"
  | .nullish => "??"
  | .isIn => "in"
  | .instanceOf => "instanceof"

/-- The operator with the given token. -/
def ofToken? (token : String) : Option BinaryOp :=
  all.find? fun op => op.token == token

/-- The family of an operator. -/
def family : BinaryOp → OpFamily
  | .add | .sub | .mul | .div | .rem | .pow => .arithmetic
  | .shiftLeft | .shiftRight | .shiftRightUnsigned | .bitAnd | .bitOr | .bitXor => .bitwise
  | .eq | .notEq | .strictEq | .strictNotEq | .less | .lessEq | .greater | .greaterEq =>
    .comparison
  | .logicalAnd | .logicalOr | .nullish => .logical
  | .isIn | .instanceOf => .relational

/-- Whether an expression with this operator can be folded. Logical operators choose between
    their operands, and the last two look at objects. -/
def isFoldable (op : BinaryOp) : Bool :=
  op.family == .arithmetic || op.family == .bitwise || op.family == .comparison

end BinaryOp

/-! ## Equality and order -/

namespace Primitive

/-- Equality without conversion. -/
def strictEq : Primitive → Primitive → Bool
  | .undefined, .undefined => true
  | .null, .null => true
  | .bool a, .bool b => a == b
  | .number a, .number b => a == b
  | .string a, .string b => a == b
  | _, _ => false

/-- Whether the value is `undefined` or `null`. -/
def isNullish : Primitive → Bool
  | .undefined => true
  | .null => true
  | _ => false

/-- One for a boolean, which converting makes a number. -/
def boolCount : Primitive → Nat
  | .bool _ => 1
  | _ => 0

/-- Equality with conversion: `undefined` and `null` equal each other alone, booleans count as
    numbers, the left one first, and a string next to a number is converted. -/
def looseEq (a b : Primitive) : Bool :=
  if a.isNullish && b.isNullish then true
  else if a.isNullish || b.isNullish then false
  else
    match a, b with
    | .bool _, b => looseEq (.number a.toNumber) b
    | a, .bool _ => looseEq a (.number b.toNumber)
    | .number _, .string _ => a.toNumber == b.toNumber
    | .string _, .number _ => a.toNumber == b.toNumber
    | _, _ => strictEq a b
termination_by a.boolCount + b.boolCount
decreasing_by all_goals simp [boolCount]

/-- The order of two doubles, none if one of them is not a number. -/
def compareNumbers (x y : Float) : Option Ordering :=
  if x < y then some .lt
  else if y < x then some .gt
  else if x == y then some .eq
  else none

/-- The order of two values: strings by their UTF-16 code units, everything else as numbers. -/
def compare : Primitive → Primitive → Option Ordering
  | .string a, .string b => some (compareText a b)
  | a, b => compareNumbers a.toNumber b.toNumber

/-- A power. Unlike IEEE powers, one or minus one to an infinite power, and anything to the
    power of a NaN, is not a number. -/
def power (x y : Float) : Float :=
  if y.isNaN || (x.abs == 1.0 && y.isInf) then Double.nan else Float.pow x y

/-- An operation on the low 32 bits of two numbers, its result taken as signed. -/
def onWords (f : BitVec 32 → BitVec 32 → BitVec 32) (a b : Primitive) : Primitive :=
  .number (Float.ofInt (f (Double.word32 a.toNumber) (Double.word32 b.toNumber)).toInt)

/-- The count of a shift: the low five bits. -/
def shiftCount (w : BitVec 32) : Nat :=
  w.toNat % 32

/-- The sum of two numbers, or the two texts in a row if one of the values is a string. -/
def plus : Primitive → Primitive → Primitive
  | .string a, b => .string (a ++ b.toText)
  | a, .string b => .string (a.toText ++ b)
  | a, b => .number (a.toNumber + b.toNumber)

end Primitive

/-- The value of an operator on two primitive values. The operators that cannot be folded have
    none. -/
def BinaryOp.result? (op : BinaryOp) (a b : Primitive) : Option Primitive :=
  match op with
  | .add => some (Primitive.plus a b)
  | .sub => some (.number (a.toNumber - b.toNumber))
  | .mul => some (.number (a.toNumber * b.toNumber))
  | .div => some (.number (a.toNumber / b.toNumber))
  | .rem => some (.number (Double.remainder a.toNumber b.toNumber))
  | .pow => some (.number (Primitive.power a.toNumber b.toNumber))
  | .shiftLeft => some (Primitive.onWords (fun x y => x <<< Primitive.shiftCount y) a b)
  | .shiftRight => some (Primitive.onWords (fun x y => x.sshiftRight (Primitive.shiftCount y)) a b)
  | .shiftRightUnsigned =>
    let count := Primitive.shiftCount (Double.word32 b.toNumber)
    some (.number (Float.ofNat ((Double.word32 a.toNumber).toNat >>> count)))
  | .bitAnd => some (Primitive.onWords (· &&& ·) a b)
  | .bitOr => some (Primitive.onWords (· ||| ·) a b)
  | .bitXor => some (Primitive.onWords (· ^^^ ·) a b)
  | .eq => some (.bool (Primitive.looseEq a b))
  | .notEq => some (.bool (!Primitive.looseEq a b))
  | .strictEq => some (.bool (Primitive.strictEq a b))
  | .strictNotEq => some (.bool (!Primitive.strictEq a b))
  | .less => some (.bool (Primitive.compare a b == some .lt))
  | .lessEq => some (.bool (Primitive.compare a b == some .lt || Primitive.compare a b == some .eq))
  | .greater => some (.bool (Primitive.compare a b == some .gt))
  | .greaterEq =>
    some (.bool (Primitive.compare a b == some .gt || Primitive.compare a b == some .eq))
  | .logicalAnd => none
  | .logicalOr => none
  | .nullish => none
  | .isIn => none
  | .instanceOf => none

/-! ## Unary operators -/

/-- A unary operator. -/
inductive UnaryOp where
  | neg
  | pos
  | bitNot
  | logicalNot
  | typeOf
  | void
deriving DecidableEq, Repr, Inhabited

namespace UnaryOp

/-- Every unary operator. -/
def all : List UnaryOp :=
  [.neg, .pos, .bitNot, .logicalNot, .typeOf, .void]

/-- The token of an operator. -/
def token : UnaryOp → String
  | .neg => "-"
  | .pos => "+"
  | .bitNot => "~"
  | .logicalNot => "!"
  | .typeOf => "typeof"
  | .void => "void"

/-- The operator with the given token. -/
def ofToken? (token : String) : Option UnaryOp :=
  all.find? fun op => op.token == token

/-- The value of an operator on a primitive value. -/
def apply (op : UnaryOp) (a : Primitive) : Primitive :=
  match op with
  | .neg => .number (-a.toNumber)
  | .pos => .number a.toNumber
  | .bitNot => .number (Float.ofInt (~~~(Double.word32 a.toNumber)).toInt)
  | .logicalNot => .bool (!a.isTruthy)
  | .typeOf => .string a.typeName
  | .void => .undefined

end UnaryOp

end DefineFold
