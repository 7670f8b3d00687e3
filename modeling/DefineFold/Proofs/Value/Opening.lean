/-
  DefineFold.Proofs.Value.Opening

  How new texts begin. At the start of a line some characters make it go on from the line before,
  where a word, a digit or a quote would begin a statement of its own. Which values have a text
  that begins with such a character is said by `Value.continues` and `Primitive.continues`: those of
  arrays, of objects, which are put in parentheses, of numbers with a sign, and, where they are put
  in parentheses too, of all numbers.
-/

import DefineFold.Proofs.Number.Text

namespace DefineFold

/-! ## Characters -/

/-- The characters with which a line goes on from the line before: those that can stand between
    two expressions, or between an expression and what is done with it. -/
def isContinuation (c : Char) : Bool :=
  ['(', '[', '-', '+', '/', '\x60'].contains c

/-- Whether a text begins with such a character. -/
def continuesLine (text : List Char) : Bool :=
  text.head?.any isContinuation

/-- Whether a text begins with a digit. -/
def beginsWithDigit (text : List Char) : Bool :=
  text.head?.any isDigit

/-- A digit begins a statement of its own. -/
theorem not_isContinuation_of_isDigit {c : Char} (h : isDigit c = true) :
    isContinuation c = false := by
  rw [isContinuation, List.contains_eq_mem, decide_eq_false_iff_not]
  intro hmem
  revert h
  simp only [List.mem_cons, List.not_mem_nil, or_false] at hmem
  rcases hmem with rfl | rfl | rfl | rfl | rfl | rfl <;> decide

theorem beginsWithDigit_append {text : List Char} (h : beginsWithDigit text = true)
    (rest : List Char) : beginsWithDigit (text ++ rest) = true := by
  cases text with
  | nil => simp [beginsWithDigit] at h
  | cons c text => exact h

/-! ## Numbers -/

theorem beginsWithDigit_toDigits (n : Nat) : beginsWithDigit (Nat.toDigits 10 n) = true := by
  cases hdigits : Nat.toDigits 10 n with
  | nil => exact absurd hdigits Nat.toDigits_ne_nil
  | cons c rest => exact isDigit_of_mem_toDigits (hdigits ▸ List.mem_cons_self)

theorem beginsWithDigit_intText_ofNat (n : Nat) :
    beginsWithDigit (intText (.ofNat n)).toList = true := by
  rw [intText_ofNat_toList]
  exact beginsWithDigit_toDigits n

theorem head?_intText_negSucc (n : Nat) : (intText (.negSucc n)).toList.head? = some '-' := by
  rw [intText_negSucc_toList]
  rfl

theorem beginsWithDigit_positional {digits : List Char} (h : beginsWithDigit digits = true)
    (leading : Int) : beginsWithDigit (positional digits leading) = true := by
  simp only [positional]
  split
  · rfl
  · split
    · exact beginsWithDigit_append h _
    · cases digits with
      | nil => simp [beginsWithDigit] at h
      | cons c rest => exact h

theorem beginsWithDigit_scientific {digits : List Char} (h : beginsWithDigit digits = true)
    (leading : Int) : beginsWithDigit (scientific digits leading) = true := by
  simp only [scientific]
  apply beginsWithDigit_append
  split
  · exact h
  · exact h

theorem beginsWithDigit_decimalChars (style : NumberStyle) (d : Decimal) :
    beginsWithDigit (decimalChars style d) = true := by
  simp only [decimalChars]
  split
  · exact beginsWithDigit_positional (beginsWithDigit_toDigits _) _
  · exact beginsWithDigit_scientific (beginsWithDigit_toDigits _) _

section NumberLiteral

variable {x : Float} {negative : Bool} {m : Nat} {q : Int}

/-- The literal of a negative number begins with its sign, negative zero included. -/
theorem head?_numberLiteral_of_negative (h : Double.parts x = .finite true m q) :
    (numberLiteral x).toList.head? = some '-' := by
  rw [numberLiteral, h]
  split
  · decide
  · rename_i hnonzero
    have hm : m ≠ 0 := by
      rintro rfl
      exact hnonzero q rfl
    simp [numberText, h, hm]

theorem beginsWithDigit_numberLiteral (h : Double.parts x = .finite false m q) :
    beginsWithDigit (numberLiteral x).toList = true := by
  have htext : numberLiteral x = numberText x := by simp [numberLiteral, h]
  rw [htext, numberText, h]
  by_cases hm : m = 0
  · simp only [hm, if_true]
    decide
  · simp only [hm, if_false, Bool.false_eq_true, String.toList_ofList]
    exact beginsWithDigit_decimalChars _ _

end NumberLiteral

/-- Whether the text of a number continues the line before, with or without an access to it. -/
def numberContinues (accessed : Bool) (x : Float) : Bool :=
  match Double.parts x with
  | .nan => false
  | .infinite negative => negative
  | .finite negative _ _ => negative || accessed

/-! ## Literals in place of nodes -/

namespace Site

/-- Whether a node is what is accessed in the node right around it. -/
def isAccessed (s : Site) : Bool :=
  match s.parentKind? with
  | some .memberExpression => s.fills .object
  | some .subscriptExpression => s.fills .object
  | _ => false

/-- Of the literals that begin with a digit those that are accessed are put in parentheses. -/
theorem needsParens_of_isDigit (s : Site) {literal : String} {c : Char}
    (hhead : literal.toList.head? = some c) (hdigit : isDigit c = true) :
    s.needsParens literal = s.isAccessed := by
  have hbrace : c ≠ '\x7b' := by
    rintro rfl
    exact absurd hdigit (by decide)
  have hsign : c ≠ '-' := by
    rintro rfl
    exact absurd hdigit (by decide)
  simp only [needsParens, hhead, hbrace, hdigit, isAccessed]
  cases s.parentKind? with
  | none => simp
  | some kind => cases kind <;> simp [hsign]

/-- A literal continues the line before if it begins with a brace or a digit for which it is put in
    parentheses, or begins with a continuation itself. -/
theorem continuesLine_fit (s : Site) {literal : String} {c : Char}
    (hhead : literal.toList.head? = some c) :
    continuesLine (s.fit literal).toList =
      (decide (c = '\x7b') || isContinuation c || isDigit c && s.isAccessed) := by
  have hliteral : continuesLine literal.toList = isContinuation c := by
    rw [continuesLine, hhead]
    rfl
  have hparens : continuesLine ("(" ++ literal ++ ")").toList = true := by
    simp [continuesLine, isContinuation]
  have hfit : continuesLine (s.fit literal).toList =
      (s.needsParens literal || isContinuation c) := by
    rw [fit]
    cases s.needsParens literal with
    | true => exact hparens
    | false => exact hliteral
  rw [hfit]
  by_cases hbrace : c = '\x7b'
  · simp [needsParens, hhead, hbrace]
  by_cases hsign : c = '-'
  · -- With parentheses or without, a minus sign continues the line.
    simp [hsign, isContinuation]
  cases hdigit : isDigit c with
  | true =>
    rw [s.needsParens_of_isDigit hhead hdigit, not_isContinuation_of_isDigit hdigit]
    simp [hbrace]
  | false =>
    have hneeds : s.needsParens literal = false := by
      simp [needsParens, hhead, hbrace, hdigit, hsign]
    rw [hneeds]
    simp [hbrace]

theorem continuesLine_fit_of_beginsWithDigit (s : Site) {literal : String}
    (h : beginsWithDigit literal.toList = true) :
    continuesLine (s.fit literal).toList = s.isAccessed := by
  rw [beginsWithDigit, Option.any_eq_true] at h
  obtain ⟨c, hhead, hdigit⟩ := h
  have hbrace : c ≠ '\x7b' := by
    rintro rfl
    exact absurd hdigit (by decide)
  rw [s.continuesLine_fit hhead, not_isContinuation_of_isDigit hdigit, hdigit]
  simp [hbrace]

theorem continuesLine_fit_number (s : Site) (x : Float) :
    continuesLine (s.fit (numberLiteral x)).toList = numberContinues s.isAccessed x := by
  rw [numberContinues]
  cases hparts : Double.parts x with
  | nan =>
    rw [numberLiteral_of_nan hparts, s.continuesLine_fit (c := 'N') (by decide)]
    rfl
  | infinite negative =>
    rw [numberLiteral_of_infinite hparts]
    cases negative with
    | true => exact s.continuesLine_fit (c := '-') (by decide)
    | false => exact s.continuesLine_fit (c := 'I') (by decide)
  | finite negative m q =>
    cases negative with
    | true => exact s.continuesLine_fit (head?_numberLiteral_of_negative hparts)
    | false =>
      exact s.continuesLine_fit_of_beginsWithDigit (beginsWithDigit_numberLiteral hparts)

end Site

/-! ## Values -/

/-- Whether the text of a primitive value continues the line before. -/
def Primitive.continues (accessed : Bool) : Primitive → Bool
  | .number x => numberContinues accessed x
  | _ => false

theorem Primitive.continuesLine_fit (v : Primitive) (s : Site) :
    continuesLine (s.fit v.literal).toList = v.continues s.isAccessed := by
  cases v with
  | undefined => exact s.continuesLine_fit (c := 'u') (by decide)
  | null => exact s.continuesLine_fit (c := 'n') (by decide)
  | bool b =>
    cases b with
    | true => exact s.continuesLine_fit (c := 't') (by decide)
    | false => exact s.continuesLine_fit (c := 'f') (by decide)
  | number x => exact s.continuesLine_fit_number x
  | string text =>
    refine s.continuesLine_fit (c := '"') ?_
    rw [literal, quote, String.toList_ofList]
    rfl

/-- Whether the text of a value continues the line before. -/
def Value.continues (accessed : Bool) : Value → Bool
  | .integer n => decide (n < 0) || accessed
  | .double x => numberContinues accessed x
  | .array _ => true
  | .object _ => true
  | _ => false

theorem Value.continuesLine_fit (v : Value) (s : Site) :
    continuesLine (s.fit v.literal).toList = v.continues s.isAccessed := by
  have hchars : v.literal.toList = v.literalChars := by rw [literal, String.toList_ofList]
  cases v with
  | null => exact s.continuesLine_fit (c := 'n') (by rw [hchars]; rfl)
  | bool b =>
    cases b with
    | true => exact s.continuesLine_fit (c := 't') (by rw [hchars]; rfl)
    | false => exact s.continuesLine_fit (c := 'f') (by rw [hchars]; rfl)
  | integer n =>
    cases n with
    | ofNat n =>
      have hdigit : beginsWithDigit (literal (.integer (.ofNat n))).toList = true := by
        rw [hchars]
        exact beginsWithDigit_intText_ofNat n
      have hsign : ¬Int.ofNat n < 0 := by simp
      rw [s.continuesLine_fit_of_beginsWithDigit hdigit, continues, decide_eq_false hsign,
        Bool.false_or]
    | negSucc n =>
      have hhead : (literal (.integer (.negSucc n))).toList.head? = some '-' := by
        rw [hchars]
        exact head?_intText_negSucc n
      have hsign : Int.negSucc n < 0 := Int.negSucc_lt_zero n
      rw [s.continuesLine_fit hhead, continues, decide_eq_true hsign]
      rfl
  | double x =>
    have htext : literal (.double x) = numberLiteral x := String.ofList_toList
    rw [htext]
    exact s.continuesLine_fit_number x
  | string text => exact s.continuesLine_fit (c := '"') (by rw [hchars]; rfl)
  | array items => exact s.continuesLine_fit (c := '[') (by rw [hchars]; rfl)
  | object entries =>
    have hhead : (literal (.object entries)).toList.head? = some '\x7b' := by
      rw [hchars]
      cases entries <;> rfl
    exact s.continuesLine_fit hhead

/-- Whether the text that replaces a read continues the line before. That of a shorthand property
    begins with its name. -/
def Site.continuesWith (s : Site) (src : Source) (v : Value) : Bool :=
  if s.kind = .shorthandPropertyIdentifier then continuesLine (s.tree.text src).toList
  else v.continues s.isAccessed

theorem Site.continuesLine_replacementText (s : Site) (src : Source) (v : Value) :
    continuesLine (s.replacementText src v).toList = s.continuesWith src v := by
  simp only [replacementText, continuesWith]
  split
  · rw [String.toList_append, String.toList_append]
    cases (s.tree.text src).toList with
    | nil => rfl
    | cons c rest => rfl
  · exact v.continuesLine_fit s

end DefineFold
