/-
  DefineFold.Proofs.Value.Literal

  Literals are never empty: neither those of configuration values nor those of primitive
  values, with or without parentheses around them.
-/

import DefineFold.Pass.Run

namespace DefineFold

/-! ## Numbers -/

theorem positional_ne_nil {digits : List Char} (h : digits ≠ []) (leading : Int) :
    positional digits leading ≠ [] := by
  simp only [positional]
  split
  · exact List.cons_ne_nil _ _
  · split
    · exact List.append_ne_nil_of_left_ne_nil h _
    · exact List.append_ne_nil_of_right_ne_nil _ (List.cons_ne_nil _ _)

theorem scientific_ne_nil (digits : List Char) (leading : Int) :
    scientific digits leading ≠ [] :=
  List.append_ne_nil_of_right_ne_nil _ (List.cons_ne_nil _ _)

theorem decimalChars_ne_nil (style : NumberStyle) (d : Decimal) : decimalChars style d ≠ [] := by
  simp only [decimalChars]
  split
  · exact positional_ne_nil Nat.toDigits_ne_nil _
  · exact scientific_ne_nil _ _

theorem numberText_ne_nil (x : Float) : (numberText x).toList ≠ [] := by
  rw [numberText]
  split
  · decide
  · split <;> decide
  · split
    · decide
    · simp only [String.toList_ofList]
      split
      · exact List.cons_ne_nil _ _
      · exact decimalChars_ne_nil _ _

theorem numberLiteral_ne_nil (x : Float) : (numberLiteral x).toList ≠ [] := by
  rw [numberLiteral]
  split
  · decide
  · exact numberText_ne_nil x

theorem intText_ne_nil (n : Int) : (intText n).toList ≠ [] := by
  cases n with
  | ofNat n =>
    rw [intText, natText, String.toList_ofList]
    exact Nat.toDigits_ne_nil
  | negSucc n =>
    rw [intText, String.toList_append]
    exact List.append_ne_nil_of_left_ne_nil (by decide) _

/-! ## Values -/

theorem Primitive.literal_ne_nil (v : Primitive) : v.literal.toList ≠ [] := by
  cases v with
  | undefined => decide
  | null => decide
  | bool b => cases b <;> decide
  | number x => exact numberLiteral_ne_nil x
  | string s =>
    rw [literal, quote, String.toList_ofList]
    exact List.cons_ne_nil _ _

theorem Value.literal_ne_nil (v : Value) : v.literal.toList ≠ [] := by
  rw [literal, String.toList_ofList]
  cases v with
  | null => decide
  | bool b => cases b <;> decide
  | integer n => exact intText_ne_nil n
  | double x => exact numberLiteral_ne_nil x
  | string s => exact List.cons_ne_nil _ _
  | array items => exact List.cons_ne_nil _ _
  | object entries => cases entries <;> exact List.cons_ne_nil _ _

/-! ## Literals in place of nodes -/

theorem Site.fit_ne_nil (s : Site) {literal : String} (h : literal.toList ≠ []) :
    (s.fit literal).toList ≠ [] := by
  rw [fit]
  split
  · simp
  · exact h

theorem Site.replacementText_ne_nil (s : Site) (src : Source) (v : Value) :
    (s.replacementText src v).toList ≠ [] := by
  have hfit := s.fit_ne_nil v.literal_ne_nil
  simp only [replacementText]
  split
  · rw [String.toList_append]
    exact List.append_ne_nil_of_right_ne_nil _ hfit
  · exact hfit

end DefineFold
