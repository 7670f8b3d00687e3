/-
  DefineFold.Proofs.Number.Text

  The characters of the texts of numbers: digits, the marks of a sign, a point and an exponent, and
  the letters of the numbers that have none. A sign may stand in front and behind the mark of the
  exponent, but never at the end.
-/

import DefineFold.Proofs.Value.Literal

namespace DefineFold

/-- The characters of the texts of numbers. -/
def isNumberChar (c : Char) : Bool :=
  isDigit c || ['.', 'e', '+', '-', 'N', 'a', 'I', 'n', 'f', 'i', 't', 'y'].contains c

/-! ## Digits -/

theorem isDigit_of_mem_toDigits {n : Nat} {c : Char} (h : c ∈ Nat.toDigits 10 n) :
    isDigit c = true := by
  have hdigit : c.isDigit = true := Nat.isDigit_of_mem_toDigits (by omega) (by omega) h
  rw [Char.isDigit_iff_toNat] at hdigit
  simp only [isDigit, Bool.and_eq_true, decide_eq_true_eq]
  exact hdigit

theorem getLast?_toDigits_ne (n : Nat) : (Nat.toDigits 10 n).getLast? ≠ some '-' := by
  intro h
  exact absurd (isDigit_of_mem_toDigits (List.mem_of_getLast? h)) (by decide)

theorem getLast?_sign_ne {text : List Char} (hne : text ≠ []) (h : text.getLast? ≠ some '-') :
    ('-' :: text).getLast? ≠ some '-' := by
  cases text with
  | nil => exact absurd rfl hne
  | cons c text => rwa [List.getLast?_cons_cons]

/-! ## Decimals -/

/-- Without an exponent there are digits and one point. -/
theorem mem_positional {digits : List Char} (hdigits : ∀ c ∈ digits, isDigit c = true)
    {leading : Int} {c : Char} (h : c ∈ positional digits leading) :
    isDigit c = true ∨ c = '.' := by
  have hzero : ∀ {n : Nat}, c ∈ List.replicate n '0' → isDigit c = true := by
    intro n hc
    rw [List.eq_of_mem_replicate hc]
    decide
  simp only [positional] at h
  split at h
  · simp only [List.mem_cons, List.mem_append] at h
    rcases h with rfl | rfl | hc | hc
    · exact .inl (by decide)
    · exact .inr rfl
    · exact .inl (hzero hc)
    · exact .inl (hdigits c hc)
  · split at h
    · rcases List.mem_append.mp h with hc | hc
      · exact .inl (hdigits c hc)
      · exact .inl (hzero hc)
    · rw [List.mem_append, List.mem_cons] at h
      rcases h with hc | rfl | hc
      · exact .inl (hdigits c (List.mem_of_mem_take hc))
      · exact .inr rfl
      · exact .inl (hdigits c (List.mem_of_mem_drop hc))

theorem mem_scientific {digits : List Char} (hdigits : ∀ c ∈ digits, isDigit c = true)
    {leading : Int} {c : Char} (h : c ∈ scientific digits leading) :
    isDigit c = true ∨ c ∈ ['.', 'e', '+', '-'] := by
  simp only [scientific, List.mem_append, List.mem_cons] at h
  rcases h with hc | rfl | rfl | hc
  · split at hc
    · simp only [List.mem_cons] at hc hdigits
      grind
    · exact .inl (hdigits c hc)
  · exact .inr (by decide)
  · split
    · exact .inr (by decide)
    · exact .inr (by decide)
  · exact .inl (isDigit_of_mem_toDigits hc)

/-- The digits of the exponent come last. -/
theorem getLast?_scientific (digits : List Char) (leading : Int) :
    (scientific digits leading).getLast? = (Nat.toDigits 10 leading.natAbs).getLast? := by
  simp only [scientific]
  cases hdigits : Nat.toDigits 10 leading.natAbs with
  | nil => exact absurd hdigits Nat.toDigits_ne_nil
  | cons c rest =>
    rw [List.getLast?_append, List.getLast?_cons_cons, List.getLast?_cons_cons,
      List.getLast?_cons, Option.some_or]

/-- The characters of decimals: digits, and the marks of a point, an exponent and its sign. -/
theorem mem_decimalChars {style : NumberStyle} {d : Decimal} {c : Char}
    (h : c ∈ decimalChars style d) : isDigit c = true ∨ c ∈ ['.', 'e', '+', '-'] := by
  have hdigits : ∀ e ∈ Nat.toDigits 10 d.digits, isDigit e = true :=
    fun e he => isDigit_of_mem_toDigits he
  simp only [decimalChars] at h
  split at h
  · rcases mem_positional hdigits h with hc | rfl
    · exact .inl hc
    · exact .inr (by decide)
  · exact mem_scientific hdigits h

theorem isNumberChar_of_mem_decimalChars {style : NumberStyle} {d : Decimal} {c : Char}
    (h : c ∈ decimalChars style d) : isNumberChar c = true := by
  rw [isNumberChar, Bool.or_eq_true]
  refine (mem_decimalChars h).imp_right fun hc => ?_
  simp only [List.mem_cons, List.not_mem_nil, or_false] at hc
  rcases hc with rfl | rfl | rfl | rfl <;> decide

theorem getLast?_decimalChars_ne (style : NumberStyle) (d : Decimal) :
    (decimalChars style d).getLast? ≠ some '-' := by
  simp only [decimalChars]
  split
  · intro h
    rcases mem_positional (fun e he => isDigit_of_mem_toDigits he) (List.mem_of_getLast? h) with
      hc | hc
    · exact absurd hc (by decide)
    · exact absurd hc (by decide)
  · rw [getLast?_scientific]
    exact getLast?_toDigits_ne _

/-! ## Numbers -/

section NumberLiteral

variable {x : Float} {negative : Bool} {m : Nat} {q : Int}

theorem numberLiteral_of_nan (h : Double.parts x = .nan) : numberLiteral x = "NaN" := by
  simp [numberLiteral, numberText, h]

theorem numberLiteral_of_infinite (h : Double.parts x = .infinite negative) :
    numberLiteral x = if negative then "-Infinity" else "Infinity" := by
  simp [numberLiteral, numberText, h]

/-- The literal of a finite number is one of the two zeros, or a decimal with or without a sign. -/
theorem numberLiteral_of_finite (h : Double.parts x = .finite negative m q) :
    numberLiteral x ∈ ["0", "-0"] ∨
      ∃ d, (numberLiteral x).toList = decimalChars numberStyle d ∨
        (numberLiteral x).toList = '-' :: decimalChars numberStyle d := by
  rw [numberLiteral, h]
  split
  · exact .inl (by decide)
  · rw [numberText, h]
    simp only
    split
    · exact .inl (by decide)
    · refine .inr ⟨Shortest.decimal m q, ?_⟩
      rw [String.toList_ofList]
      split
      · exact .inr rfl
      · exact .inl rfl

end NumberLiteral

/-- The literal of a number is one of five words, or a decimal with or without a sign. -/
theorem numberLiteral_cases (x : Float) :
    numberLiteral x ∈ ["NaN", "Infinity", "-Infinity", "0", "-0"] ∨
      ∃ d, (numberLiteral x).toList = decimalChars numberStyle d ∨
        (numberLiteral x).toList = '-' :: decimalChars numberStyle d := by
  cases h : Double.parts x with
  | nan =>
    rw [numberLiteral_of_nan h]
    exact .inl (by decide)
  | infinite negative =>
    rw [numberLiteral_of_infinite h]
    cases negative <;> exact .inl (by decide)
  | finite negative m q =>
    refine (numberLiteral_of_finite h).imp_left fun hzero => ?_
    simp only [List.mem_cons, List.not_mem_nil, or_false] at hzero ⊢
    exact .inr (.inr (.inr hzero))

/-- The characters of finite numbers are those of decimals. -/
theorem mem_numberLiteral_of_finite {x : Float} {negative : Bool} {m : Nat} {q : Int}
    (h : Double.parts x = .finite negative m q) {c : Char} (hc : c ∈ (numberLiteral x).toList) :
    isDigit c = true ∨ c ∈ ['.', 'e', '+', '-'] := by
  rcases numberLiteral_of_finite h with hword | ⟨d, hx | hx⟩
  · have hall : ∀ text ∈ ["0", "-0"],
        text.toList.all (fun e => isDigit e || ['.', 'e', '+', '-'].contains e) = true := by decide
    simpa using List.all_eq_true.mp (hall _ hword) c hc
  · rw [hx] at hc
    exact mem_decimalChars hc
  · rw [hx, List.mem_cons] at hc
    rcases hc with rfl | hc
    · exact .inr (by decide)
    · exact mem_decimalChars hc

theorem isNumberChar_of_mem_numberLiteral {x : Float} {c : Char}
    (h : c ∈ (numberLiteral x).toList) : isNumberChar c = true := by
  rcases numberLiteral_cases x with hword | ⟨d, hx | hx⟩
  · have hall : ∀ text ∈ ["NaN", "Infinity", "-Infinity", "0", "-0"],
        text.toList.all isNumberChar = true := by decide
    exact List.all_eq_true.mp (hall _ hword) c h
  · rw [hx] at h
    exact isNumberChar_of_mem_decimalChars h
  · rw [hx, List.mem_cons] at h
    rcases h with rfl | h
    · decide
    · exact isNumberChar_of_mem_decimalChars h

theorem getLast?_numberLiteral_ne (x : Float) : (numberLiteral x).toList.getLast? ≠ some '-' := by
  rcases numberLiteral_cases x with hword | ⟨d, hx | hx⟩
  · have hall : ∀ text ∈ ["NaN", "Infinity", "-Infinity", "0", "-0"],
        text.toList.getLast? ≠ some '-' := by decide
    exact hall _ hword
  · rw [hx]
    exact getLast?_decimalChars_ne _ d
  · rw [hx]
    exact getLast?_sign_ne (decimalChars_ne_nil _ d) (getLast?_decimalChars_ne _ d)

theorem intText_negSucc_toList (n : Nat) :
    (intText (.negSucc n)).toList = '-' :: Nat.toDigits 10 (n + 1) := by
  simp [intText, natText]

theorem intText_ofNat_toList (n : Nat) : (intText (.ofNat n)).toList = Nat.toDigits 10 n := by
  rw [intText, natText, String.toList_ofList]

theorem isNumberChar_of_mem_intText {n : Int} {c : Char} (h : c ∈ (intText n).toList) :
    isNumberChar c = true := by
  rw [isNumberChar, Bool.or_eq_true]
  cases n with
  | ofNat n =>
    rw [intText_ofNat_toList] at h
    exact .inl (isDigit_of_mem_toDigits h)
  | negSucc n =>
    rw [intText_negSucc_toList, List.mem_cons] at h
    rcases h with rfl | h
    · exact .inr (by decide)
    · exact .inl (isDigit_of_mem_toDigits h)

theorem getLast?_intText_ne (n : Int) : (intText n).toList.getLast? ≠ some '-' := by
  cases n with
  | ofNat n =>
    rw [intText_ofNat_toList]
    exact getLast?_toDigits_ne n
  | negSucc n =>
    rw [intText_negSucc_toList]
    exact getLast?_sign_ne Nat.toDigits_ne_nil (getLast?_toDigits_ne (n + 1))

end DefineFold
