/-
  DefineFold.Proofs.Value.Sign

  Minus signs in new texts. A literal begins with one just if it is that of a negative number, and
  never ends with one. Put in the place of a node it keeps its sign at the front unless the node
  right around the place is of a kind for which it gets parentheses (`Site.guardsSign`).
-/

import DefineFold.Proofs.Edit.Neighbours
import DefineFold.Proofs.Value.Opening

namespace DefineFold

/-- Whether a text begins with a minus sign. -/
def beginsWithMinus (text : List Char) : Bool :=
  text.head?.any (· == '-')

/-- Whether a text ends with a minus sign. -/
def endsInMinus (text : List Char) : Bool :=
  text.getLast?.any (· == '-')

theorem head?_of_beginsWithMinus {text : List Char} (h : beginsWithMinus text = true) :
    text.head? = some '-' := by
  obtain ⟨c, hc, hminus⟩ := (Option.any_eq_true _ _).mp h
  rw [hc, beq_iff_eq.mp hminus]

theorem beginsWithMinus_of_beginsWithDigit {text : List Char} (h : beginsWithDigit text = true) :
    beginsWithMinus text = false := by
  obtain ⟨c, hc, hdigit⟩ := (Option.any_eq_true _ _).mp h
  rw [beginsWithMinus, hc, Option.any_some, beq_eq_false_iff_ne]
  rintro rfl
  exact absurd hdigit (by decide)

theorem endsInMinus_eq_false {text : List Char} (h : text.getLast? ≠ some '-') :
    endsInMinus text = false := by
  rw [← Bool.not_eq_true, endsInMinus, Option.any_eq_true]
  rintro ⟨c, hc, hminus⟩
  rw [hc, beq_iff_eq.mp hminus] at h
  exact h rfl

theorem endsInMinus_concat {c : Char} (h : c ≠ '-') (text : List Char) :
    endsInMinus (text ++ [c]) = false := by
  rw [endsInMinus, List.getLast?_concat, Option.any_some, beq_eq_false_iff_ne]
  exact h

theorem endsInMinus_append {xs ys : List Char} (h : ys ≠ []) :
    endsInMinus (xs ++ ys) = endsInMinus ys :=
  any_getLast?_append h

/-! ## Negative numbers -/

/-- Whether a number has a sign, negative zero included. -/
def numberNegative (x : Float) : Bool :=
  match Double.parts x with
  | .nan => false
  | .infinite negative => negative
  | .finite negative _ _ => negative

theorem beginsWithMinus_numberLiteral (x : Float) :
    beginsWithMinus (numberLiteral x).toList = numberNegative x := by
  rw [numberNegative]
  cases hparts : Double.parts x with
  | nan =>
    rw [numberLiteral_of_nan hparts]
    decide
  | infinite negative =>
    rw [numberLiteral_of_infinite hparts]
    cases negative <;> decide
  | finite negative m q =>
    cases negative with
    | true =>
      rw [beginsWithMinus, head?_numberLiteral_of_negative hparts]
      rfl
    | false => exact beginsWithMinus_of_beginsWithDigit (beginsWithDigit_numberLiteral hparts)

theorem beginsWithMinus_intText (n : Int) :
    beginsWithMinus (intText n).toList = decide (n < 0) := by
  cases n with
  | ofNat n =>
    rw [beginsWithMinus_of_beginsWithDigit (beginsWithDigit_intText_ofNat n)]
    exact (decide_eq_false (by simp)).symm
  | negSucc n =>
    rw [beginsWithMinus, head?_intText_negSucc, decide_eq_true (Int.negSucc_lt_zero n)]
    rfl

/-! ## Literals -/

namespace Primitive

/-- A number with a sign. -/
def isNegative : Primitive → Bool
  | .number x => numberNegative x
  | _ => false

theorem beginsWithMinus_literal (v : Primitive) :
    beginsWithMinus v.literal.toList = v.isNegative := by
  cases v with
  | undefined => decide
  | null => decide
  | bool b => cases b <;> decide
  | number x => exact beginsWithMinus_numberLiteral x
  | string s =>
    rw [literal, quote, String.toList_ofList]
    rfl

theorem endsInMinus_literal (v : Primitive) : endsInMinus v.literal.toList = false := by
  cases v with
  | undefined => decide
  | null => decide
  | bool b => cases b <;> decide
  | number x => exact endsInMinus_eq_false (getLast?_numberLiteral_ne x)
  | string s =>
    rw [literal, quote, String.toList_ofList, quoteChars, ← List.cons_append]
    exact endsInMinus_concat (by decide) _

end Primitive

namespace Value

/-- A number with a sign. -/
def isNegative : Value → Bool
  | .integer n => decide (n < 0)
  | .double x => numberNegative x
  | _ => false

theorem beginsWithMinus_literal (v : Value) : beginsWithMinus v.literal.toList = v.isNegative := by
  rw [literal, String.toList_ofList]
  cases v with
  | null => decide
  | bool b => cases b <;> decide
  | integer n => exact beginsWithMinus_intText n
  | double x => exact beginsWithMinus_numberLiteral x
  | string s => rfl
  | array items => rfl
  | object entries => cases entries <;> rfl

theorem endsInMinus_literal (v : Value) : endsInMinus v.literal.toList = false := by
  rw [literal, String.toList_ofList]
  cases v with
  | null => decide
  | bool b => cases b <;> decide
  | integer n => exact endsInMinus_eq_false (getLast?_intText_ne n)
  | double x => exact endsInMinus_eq_false (getLast?_numberLiteral_ne x)
  | string s =>
    rw [literalChars, quoteChars, ← List.cons_append]
    exact endsInMinus_concat (by decide) _
  | array items =>
    rw [literalChars, ← List.cons_append]
    exact endsInMinus_concat (by decide) _
  | object entries =>
    cases entries with
    | nil => decide
    | cons e es =>
      rw [literalChars, ← List.cons_append, ← List.cons_append, endsInMinus_append (by decide)]
      decide

end Value

/-! ## Literals in place of nodes -/

namespace Site

/-- Whether a literal with a sign gets parentheses in the place of a node. The node right around it
    decides, and no other. -/
def guardsSign (s : Site) : Bool :=
  match s.parentKind? with
  | some .memberExpression => s.fills .object
  | some .subscriptExpression => s.fills .object
  | some .unaryExpression => true
  | some .updateExpression => true
  | some .binaryExpression => true
  | some .callExpression => s.fills .function
  | some .newExpression => s.fills .constructor
  | _ => false

theorem needsParens_of_minus (s : Site) {literal : String}
    (h : literal.toList.head? = some '-') : s.needsParens literal = s.guardsSign := by
  simp only [needsParens, h, guardsSign]
  rw [if_neg (by decide), if_pos (by decide)]
  cases s.parentKind? with
  | none => rfl
  | some kind => cases kind <;> simp

/-- In the place of a node the text of a literal begins with a sign if the literal does and nothing
    asks for parentheses. -/
theorem beginsWithMinus_fit (s : Site) (literal : String) :
    beginsWithMinus (s.fit literal).toList =
      (beginsWithMinus literal.toList && !s.guardsSign) := by
  have hparens : beginsWithMinus ("(" ++ literal ++ ")").toList = false := by
    simp [beginsWithMinus]
  rw [fit]
  cases hminus : beginsWithMinus literal.toList with
  | true =>
    rw [s.needsParens_of_minus (head?_of_beginsWithMinus hminus), Bool.true_and]
    cases s.guardsSign with
    | true => exact hparens
    | false => exact hminus
  | false =>
    -- Parentheses for another reason put no sign at the front either.
    rw [Bool.false_and]
    split
    · exact hparens
    · exact hminus

theorem endsInMinus_fit (s : Site) {literal : String} (h : endsInMinus literal.toList = false) :
    endsInMinus (s.fit literal).toList = false := by
  rw [fit]
  split
  · rw [String.toList_append]
    exact endsInMinus_concat (by decide) _
  · exact h

theorem endsInMinus_replacementText (s : Site) (src : Source) (v : Value) :
    endsInMinus (s.replacementText src v).toList = false := by
  have hfit := s.endsInMinus_fit v.endsInMinus_literal
  simp only [replacementText]
  split
  · rw [String.toList_append, endsInMinus_append (s.fit_ne_nil v.literal_ne_nil)]
    exact hfit
  · exact hfit

end Site

end DefineFold
