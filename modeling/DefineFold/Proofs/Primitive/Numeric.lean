/-
  DefineFold.Proofs.Primitive.Numeric

  The strings that convert to a number, and those that should. The numeric literals of the language
  are stated as a grammar: decimals with an optional sign, point and exponent, the signed word
  `Infinity`, and prefixed digits without a sign. `isNaN_numberOfChars` says which trimmed texts
  have a number: the literals with prefixed digits of up to 64 bits, and besides prefixed digits
  with a plus sign among them. `toNumber_isNaN_iff` puts the white space around them, of which
  trimming has a notion of its own.
-/

import DefineFold.Proofs.Primitive.Prefixed

namespace DefineFold

/-! ## The grammar -/

/-- One decimal digit or more. -/
def IsDigits (cs : List Char) : Prop :=
  cs ≠ [] ∧ ∀ c ∈ cs, isDigit c = true

/-- A sign or none. -/
def IsSign (cs : List Char) : Prop :=
  cs = [] ∨ cs = ['+'] ∨ cs = ['-']

/-- An exponent or none. -/
inductive IsExponent : List Char → Prop
  | none : IsExponent []
  | some {mark : Char} {sign digits : List Char} :
      mark = 'e' ∨ mark = 'E' → IsSign sign → IsDigits digits →
        IsExponent (mark :: (sign ++ digits))

/-- A decimal without a sign. There is a digit before the point or behind it. -/
inductive IsDecimal : List Char → Prop
  | whole {whole exponent : List Char} :
      IsDigits whole → IsExponent exponent → IsDecimal (whole ++ exponent)
  | point {whole fraction exponent : List Char} :
      IsDigits whole → fraction = [] ∨ IsDigits fraction → IsExponent exponent →
        IsDecimal (whole ++ '.' :: (fraction ++ exponent))
  | fraction {fraction exponent : List Char} :
      IsDigits fraction → IsExponent exponent → IsDecimal ('.' :: (fraction ++ exponent))

/-- A numeric literal as the text of a string. -/
inductive IsNumericLiteral : List Char → Prop
  | decimal {sign body : List Char} :
      IsSign sign → IsDecimal body → IsNumericLiteral (sign ++ body)
  | infinity {sign : List Char} : IsSign sign → IsNumericLiteral (sign ++ "Infinity".toList)
  | prefixed (p : PrefixedNumber) : IsNumericLiteral p.chars

/-- A text that converts to a number: nothing or a numeric literal, with white space around it. -/
def IsNumericText (s : String) : Prop :=
  strip isSpace s.toList = [] ∨ IsNumericLiteral (strip isSpace s.toList)

/-! ## Reading decimals -/

theorem splitDigits_append {digits rest : List Char} (h : ∀ c ∈ digits, isDigit c = true)
    (hrest : rest.head?.any isDigit = false) : splitDigits (digits ++ rest) = (digits, rest) := by
  rw [splitDigits, List.takeWhile_append_of_pos h, List.dropWhile_append_of_pos h]
  cases rest with
  | nil => simp
  | cons c rest =>
    have hc : isDigit c = false := hrest
    simp [hc]

theorem splitDigits_point {digits more : List Char} (h : ∀ c ∈ digits, isDigit c = true) :
    splitDigits (digits ++ '.' :: more) = (digits, '.' :: more) :=
  splitDigits_append h rfl

theorem splitSign_append {sign cs : List Char} (hsign : IsSign sign)
    (hcs : ∀ c ∈ cs.head?, c ≠ '+' ∧ c ≠ '-') : (splitSign (sign ++ cs)).2 = cs := by
  rcases hsign with rfl | rfl | rfl
  · rw [List.nil_append, splitSign.eq_def]
    split
    · exact absurd rfl (hcs '-' rfl).2
    · exact absurd rfl (hcs '+' rfl).1
    · rfl
  · rfl
  · rfl

theorem exists_splitSign (cs : List Char) :
    ∃ sign, IsSign sign ∧ cs = sign ++ (splitSign cs).2 := by
  rw [splitSign.eq_def]
  split
  · exact ⟨['-'], .inr (.inr rfl), rfl⟩
  · exact ⟨['+'], .inr (.inl rfl), rfl⟩
  · exact ⟨[], .inl rfl, rfl⟩

theorem ne_sign_of_isDigit {c : Char} (h : isDigit c = true) : c ≠ '+' ∧ c ≠ '-' := by
  constructor <;> rintro rfl <;> exact absurd h (by decide)

theorem isSome_exponentPart?_iff {cs : List Char} :
    (exponentPart? cs).isSome = true ↔ IsExponent cs := by
  constructor
  · intro h
    cases cs with
    | nil => exact .none
    | cons mark cs =>
      obtain ⟨sign, hsign, hcs⟩ := exists_splitSign cs
      simp only [exponentPart?] at h
      split at h
      · rename_i hmark
        split at h
        · simp at h
        · rename_i hdigits
          rw [hcs]
          exact .some hmark hsign (by simpa [IsDigits] using hdigits)
      · simp at h
  · rintro (_ | ⟨hmark, hsign, hne, hdigits⟩)
    · rfl
    · rename_i mark sign digits
      have hbody : (splitSign (sign ++ digits)).2 = digits :=
        splitSign_append hsign fun c hc => ne_sign_of_isDigit (hdigits c (List.mem_of_mem_head? hc))
      simp only [exponentPart?, if_pos hmark, hbody]
      rw [if_neg]
      · rfl
      · simpa [hne] using hdigits

/-- An exponent does not begin with a digit or a point. -/
theorem IsExponent.head? {cs : List Char} (h : IsExponent cs) :
    cs.head?.any isDigit = false ∧ ∀ more, cs ≠ '.' :: more := by
  cases h with
  | none => simp
  | some hmark _ _ => rcases hmark with rfl | rfl <;> simp <;> decide

theorem isSome_unsignedDecimal?_of_point {cs whole more fraction rest : List Char}
    (h : splitDigits cs = (whole, '.' :: more)) (hmore : splitDigits more = (fraction, rest)) :
    (unsignedDecimal? cs).isSome = true ↔ ¬(whole = [] ∧ fraction = []) ∧ IsExponent rest := by
  simp only [unsignedDecimal?, h, hmore, ← isSome_exponentPart?_iff, List.isEmpty_iff]
  split
  · simp_all
  · rename_i hne
    simp only [hne, not_false_eq_true, true_and]
    cases exponentPart? rest <;> simp

theorem isSome_unsignedDecimal?_of_whole {cs whole rest : List Char}
    (h : splitDigits cs = (whole, rest)) (hrest : ∀ more, rest ≠ '.' :: more) :
    (unsignedDecimal? cs).isSome = true ↔ whole ≠ [] ∧ IsExponent rest := by
  simp only [unsignedDecimal?, h, ← isSome_exponentPart?_iff, List.isEmpty_iff, and_true]
  split
  · simp_all
  · rename_i hne
    simp only [ne_eq, hne, not_false_eq_true, true_and]
    cases exponentPart? rest <;> simp

theorem splitDigits_eq (cs : List Char) :
    cs = (splitDigits cs).1 ++ (splitDigits cs).2 ∧
      ∀ c ∈ (splitDigits cs).1, isDigit c = true := by
  refine ⟨List.takeWhile_append_dropWhile.symm, fun c hc => ?_⟩
  simpa using List.all_eq_true.mp List.all_takeWhile c hc

/-- Exactly the decimals of the grammar are read. -/
theorem isSome_unsignedDecimal?_iff {cs : List Char} :
    (unsignedDecimal? cs).isSome = true ↔ IsDecimal cs := by
  constructor
  · intro h
    obtain ⟨hcs, hwhole⟩ := splitDigits_eq cs
    generalize hsplit : splitDigits cs = found at hcs hwhole
    obtain ⟨whole, rest⟩ := found
    by_cases hpoint : ∃ more, rest = '.' :: more
    · obtain ⟨more, rfl⟩ := hpoint
      obtain ⟨hmore, hfraction⟩ := splitDigits_eq more
      generalize hsplit' : splitDigits more = found at hmore hfraction
      obtain ⟨fraction, rest⟩ := found
      obtain ⟨hne, hexponent⟩ := (isSome_unsignedDecimal?_of_point hsplit hsplit').mp h
      rw [hcs, hmore]
      by_cases hempty : whole = []
      · rw [hempty]
        exact .fraction ⟨fun hnil => hne ⟨hempty, hnil⟩, hfraction⟩ hexponent
      · refine .point ⟨hempty, hwhole⟩ ?_ hexponent
        exact (Decidable.em (fraction = [])).imp_right fun hnil => ⟨hnil, hfraction⟩
    · rw [not_exists] at hpoint
      obtain ⟨hne, hexponent⟩ := (isSome_unsignedDecimal?_of_whole hsplit hpoint).mp h
      rw [hcs]
      exact .whole ⟨hne, hwhole⟩ hexponent
  · intro h
    cases h with
    | whole hwhole hexponent =>
      have hsplit := splitDigits_append hwhole.2 hexponent.head?.1
      exact (isSome_unsignedDecimal?_of_whole hsplit hexponent.head?.2).mpr ⟨hwhole.1, hexponent⟩
    | point hwhole hfraction hexponent =>
      have hdigits : ∀ c ∈ _, isDigit c = true := hfraction.elim (fun h => by simp [h]) (·.2)
      have hsplit := splitDigits_append hdigits hexponent.head?.1
      exact (isSome_unsignedDecimal?_of_point (splitDigits_point hwhole.2) hsplit).mpr
        ⟨fun h => hwhole.1 h.1, hexponent⟩
    | fraction hfraction hexponent =>
      have hsplit := splitDigits_append hfraction.2 hexponent.head?.1
      have hnone : ∀ c ∈ ([] : List Char), isDigit c = true := List.forall_mem_nil _
      exact (isSome_unsignedDecimal?_of_point (splitDigits_point hnone) hsplit).mpr
        ⟨fun h => hfraction.1 h.2, hexponent⟩

theorem isCount_of_unsignedDecimal? {cs : List Char} {x : Float}
    (h : unsignedDecimal? cs = some x) : Double.IsCount x := by
  have hvalue : ∀ {exponent : Option Int} {m : Nat} {k : Int},
      (exponent.bind fun e => some (decimalValue m (e - k))) = some x → Double.IsCount x := by
    intro exponent m k hx
    obtain ⟨e, -, hx⟩ := Option.bind_eq_some_iff.mp hx
    obtain rfl := Option.some.inj hx
    exact Double.isCount_decimalValue _ _
  simp only [unsignedDecimal?] at h
  split at h
  · split at h
    · simp at h
    · exact hvalue h
  · split at h
    · simp at h
    · exact hvalue h

/-! ## Characters of numbers -/

theorem isDecimalChar_of_isDigit {c : Char} (h : isDigit c = true) : isDecimalChar c = true := by
  simp [isDecimalChar, h]

theorem IsSign.forall_isDecimalChar {cs : List Char} (h : IsSign cs) :
    ∀ c ∈ cs, isDecimalChar c = true := by
  rw [← List.all_eq_true]
  rcases h with rfl | rfl | rfl <;> rfl

theorem IsExponent.forall_isDecimalChar {cs : List Char} (h : IsExponent cs) :
    ∀ c ∈ cs, isDecimalChar c = true := by
  cases h with
  | none => simp
  | some hmark hsign hdigits =>
    intro c hc
    rw [List.mem_cons, List.mem_append] at hc
    rcases hc with rfl | hc | hc
    · rcases hmark with rfl | rfl <;> decide
    · exact hsign.forall_isDecimalChar c hc
    · exact isDecimalChar_of_isDigit (hdigits.2 c hc)

theorem IsDecimal.forall_isDecimalChar {cs : List Char} (h : IsDecimal cs) :
    ∀ c ∈ cs, isDecimalChar c = true := by
  intro c hc
  cases h with
  | whole hwhole hexponent =>
    rcases List.mem_append.mp hc with hc | hc
    · exact isDecimalChar_of_isDigit (hwhole.2 c hc)
    · exact hexponent.forall_isDecimalChar c hc
  | point hwhole hfraction hexponent =>
    rw [List.mem_append, List.mem_cons, List.mem_append] at hc
    rcases hc with hc | rfl | hc | hc
    · exact isDecimalChar_of_isDigit (hwhole.2 c hc)
    · decide
    · rcases hfraction with rfl | hfraction
      · simp at hc
      · exact isDecimalChar_of_isDigit (hfraction.2 c hc)
    · exact hexponent.forall_isDecimalChar c hc
  | fraction hfraction hexponent =>
    rw [List.mem_cons, List.mem_append] at hc
    rcases hc with rfl | hc | hc
    · decide
    · exact isDecimalChar_of_isDigit (hfraction.2 c hc)
    · exact hexponent.forall_isDecimalChar c hc

theorem IsDecimal.ne_nil {cs : List Char} (h : IsDecimal cs) : cs ≠ [] := by
  cases h with
  | whole hwhole hexponent => simp [hwhole.1]
  | point hwhole hfraction hexponent => simp
  | fraction hfraction hexponent => simp

/-- A decimal begins with a digit or a point. -/
theorem IsDecimal.head? {cs : List Char} (h : IsDecimal cs) :
    ∀ c ∈ cs.head?, c ≠ '+' ∧ c ≠ '-' := by
  have hdigits : ∀ {ds rest : List Char}, IsDigits ds →
      ∀ c ∈ (ds ++ rest).head?, c ≠ '+' ∧ c ≠ '-' := by
    rintro (_ | ⟨d, ds⟩) rest hds c hc
    · exact absurd rfl hds.1
    · obtain rfl : d = c := Option.some.inj hc
      exact ne_sign_of_isDigit (hds.2 d List.mem_cons_self)
  cases h with
  | whole hwhole hexponent => exact hdigits hwhole
  | point hwhole hfraction hexponent => exact hdigits hwhole
  | fraction hfraction hexponent =>
    intro c hc
    obtain rfl : '.' = c := Option.some.inj hc
    decide

theorem isVisible_of_isDecimalChar {c : Char} (h : isDecimalChar c = true) :
    isVisible c = true := by
  simp only [isDecimalChar, isDigit, isVisible, Bool.or_eq_true, Bool.and_eq_true, beq_iff_eq,
    decide_eq_true_eq] at *
  rcases h with ((((h | rfl) | rfl) | rfl) | rfl) | rfl
  · omega
  all_goals decide

theorem IsNumericLiteral.forall_isVisible {cs : List Char} (h : IsNumericLiteral cs) :
    ∀ c ∈ cs, isVisible c = true := by
  intro c hc
  cases h with
  | decimal hsign hbody =>
    rcases List.mem_append.mp hc with hc | hc
    · exact isVisible_of_isDecimalChar (hsign.forall_isDecimalChar c hc)
    · exact isVisible_of_isDecimalChar (hbody.forall_isDecimalChar c hc)
  | infinity hsign =>
    have hword := List.all_eq_true.mp (show "Infinity".toList.all isVisible = true by decide)
    rcases List.mem_append.mp hc with hc | hc
    · exact isVisible_of_isDecimalChar (hsign.forall_isDecimalChar c hc)
    · exact hword c hc
  | prefixed p => exact p.isVisible_of_mem_chars hc

/-! ## Trimmed texts -/

/-- Prefixed digits of more than 64 bits. -/
def IsWide (cs : List Char) : Prop :=
  ∃ p : PrefixedNumber, cs = p.chars ∧ 2 ^ 64 ≤ p.value

/-- Prefixed digits of up to 64 bits, with a plus sign before the first of them. -/
def IsSignedPrefixed (cs : List Char) : Prop :=
  ∃ p : PrefixedNumber, cs = '0' :: p.letter :: '+' :: p.digits ∧ p.value < 2 ^ 64

/-- The characters that announce digits of a radix. -/
theorem radixPrefix?_eq_some {cs digits : List Char} {radix : Nat}
    (h : radixPrefix? cs = some (radix, digits)) :
    ∃ (mark : RadixMark) (letter : Char), radix = mark.radix ∧
      (letter = mark.lower ∨ letter = mark.upper) ∧ cs = '0' :: letter :: digits := by
  rw [radixPrefix?.eq_def] at h
  split at h
  · obtain ⟨rfl, rfl⟩ := Prod.mk.inj (Option.some.inj h)
    exact ⟨.hexadecimal, 'x', rfl, .inl rfl, rfl⟩
  · obtain ⟨rfl, rfl⟩ := Prod.mk.inj (Option.some.inj h)
    exact ⟨.hexadecimal, 'X', rfl, .inr rfl, rfl⟩
  · obtain ⟨rfl, rfl⟩ := Prod.mk.inj (Option.some.inj h)
    exact ⟨.octal, 'o', rfl, .inl rfl, rfl⟩
  · obtain ⟨rfl, rfl⟩ := Prod.mk.inj (Option.some.inj h)
    exact ⟨.octal, 'O', rfl, .inr rfl, rfl⟩
  · obtain ⟨rfl, rfl⟩ := Prod.mk.inj (Option.some.inj h)
    exact ⟨.binary, 'b', rfl, .inl rfl, rfl⟩
  · obtain ⟨rfl, rfl⟩ := Prod.mk.inj (Option.some.inj h)
    exact ⟨.binary, 'B', rfl, .inr rfl, rfl⟩
  · simp at h

theorem not_hasDigit_plus (mark : RadixMark) : mark.hasDigit '+' = false := by
  rw [RadixMark.hasDigit, Bool.and_eq_false_iff]
  exact .inl (by decide)

/-- Digits below a bound, with a plus sign in front or without. -/
theorem isSome_unsigned?_iff {mark : RadixMark} {cs : List Char} {bound : Nat} :
    (unsigned? mark.radix bound cs).isSome = true ↔
      ∃ ds, (cs = ds ∨ cs = '+' :: ds) ∧ ds ≠ [] ∧ (∀ c ∈ ds, mark.hasDigit c = true) ∧
        digitsValue mark.radix ds < bound := by
  have hread : ∀ ds, ((digits? mark.radix ds).filter (· < bound)).isSome = true ↔
      ds ≠ [] ∧ (∀ c ∈ ds, mark.hasDigit c = true) ∧ digitsValue mark.radix ds < bound := by
    intro ds
    rw [RadixMark.digits?_eq, ← List.all_eq_true, ← and_assoc]
    by_cases hds : ds ≠ [] ∧ ds.all mark.hasDigit = true
    · rw [if_pos hds, and_iff_right hds, Option.filter_some]
      split <;> simp_all
    · rw [if_neg hds]
      exact iff_of_false (by simp) fun h => hds h.1
  have hplus : ∀ ds, ¬ ∀ c ∈ '+' :: ds, mark.hasDigit c = true := by
    intro ds h
    exact Bool.false_ne_true ((not_hasDigit_plus mark).symm.trans (h '+' List.mem_cons_self))
  rw [unsigned?.eq_def]
  split
  · rename_i rest
    rw [hread]
    constructor
    · exact fun h => ⟨rest, .inr rfl, h⟩
    · rintro ⟨ds, rfl | heq, h⟩
      · exact absurd h.2.1 (hplus _)
      · rwa [(List.cons.inj heq).2]
  · rename_i hsign
    rw [hread]
    constructor
    · exact fun h => ⟨cs, .inl rfl, h⟩
    · rintro ⟨ds, rfl | heq, h⟩
      · exact h
      · exact absurd heq (hsign ds)

/-- Texts that announce digits have a number where the digits have one. -/
theorem isNaN_numberOfChars_of_letter {mark : RadixMark} {letter : Char} {digits : List Char}
    (hletter : letter = mark.lower ∨ letter = mark.upper) :
    (numberOfChars ('0' :: letter :: digits)).isNaN = false ↔
      (unsigned? mark.radix (2 ^ 64) digits).isSome = true := by
  have hbound : Nat.pow 2 64 = 2 ^ 64 := rfl
  rw [numberOfChars, if_neg (by simp), RadixMark.radixPrefix?_of_letter hletter]
  simp only [hbound]
  cases unsigned? mark.radix (2 ^ 64) digits with
  | some n => exact iff_of_true (Double.isCount_toFloat _).isNaN_eq_false rfl
  | none => decide

theorem IsWide.isNaN {cs : List Char} (h : IsWide cs) : (numberOfChars cs).isNaN = true := by
  obtain ⟨p, rfl, hwide⟩ := h
  rw [← Bool.not_eq_false, PrefixedNumber.chars, isNaN_numberOfChars_of_letter p.letter_eq,
    p.unsigned?_digits, if_neg (Nat.not_lt.mpr hwide)]
  simp

theorem IsSignedPrefixed.isNaN {cs : List Char} (h : IsSignedPrefixed cs) :
    (numberOfChars cs).isNaN = false := by
  obtain ⟨p, rfl, hlt⟩ := h
  rw [isNaN_numberOfChars_of_letter p.letter_eq, isSome_unsigned?_iff]
  exact ⟨p.digits, .inr rfl, p.digits_ne, p.hasDigit, hlt⟩

/-- Decimals announce no digits of another radix, and are not the word. -/
theorem numberOfChars_of_decimal {cs : List Char} (hne : cs ≠ [])
    (h : ∀ c ∈ cs, isDecimalChar c = true) :
    numberOfChars cs = (decimal? cs).getD Double.nan := by
  have hmark : radixPrefix? cs = none := by
    rw [Option.eq_none_iff_forall_not_mem]
    rintro ⟨radix, digits⟩ hsome
    obtain ⟨mark, letter, -, hletter, rfl⟩ := radixPrefix?_eq_some hsome
    have hchar := h letter (by simp)
    cases mark <;> rcases hletter with rfl | rfl <;> exact absurd hchar (by decide)
  have hword : 'I' ∉ cs := fun hI => absurd (h 'I' hI) (by decide)
  rw [numberOfChars, if_neg (by simpa using hne), hmark]
  simp only
  rw [if_neg, if_neg, if_pos (List.all_eq_true.mpr h)]
  · rintro rfl
    exact hword (by decide)
  · rintro (rfl | rfl)
    · exact hword (by decide)
    · exact hword (by decide)

/-- A literal has a number unless its digits are too many. -/
theorem IsNumericLiteral.isNaN {cs : List Char} (h : IsNumericLiteral cs) (hwide : ¬ IsWide cs) :
    (numberOfChars cs).isNaN = false := by
  cases h with
  | decimal hsign hbody =>
    rename_i sign body
    have hread := splitSign_append hsign hbody.head?
    obtain ⟨x, hx⟩ := Option.isSome_iff_exists.mp (isSome_unsignedDecimal?_iff.mpr hbody)
    have hne : sign ++ body ≠ [] := fun hnil => hbody.ne_nil (List.append_eq_nil_iff.mp hnil).2
    rw [numberOfChars_of_decimal hne]
    · simp only [decimal?, hread, hx, Option.map_some, Option.getD_some]
      exact Double.isNaN_applySign (isCount_of_unsignedDecimal? hx).isNaN_eq_false _
    · intro c hc
      rcases List.mem_append.mp hc with hc | hc
      · exact hsign.forall_isDecimalChar c hc
      · exact hbody.forall_isDecimalChar c hc
  | infinity hsign => rcases hsign with rfl | rfl | rfl <;> decide
  | prefixed p =>
    have hlt : p.value < 2 ^ 64 := Nat.lt_of_not_le fun hle => hwide ⟨p, rfl, hle⟩
    rw [PrefixedNumber.chars, isNaN_numberOfChars_of_letter p.letter_eq, p.unsigned?_digits,
      if_pos hlt]
    rfl

/-- What has a number is a literal, or prefixed digits with a sign among them. -/
theorem cases_of_isNaN_numberOfChars {cs : List Char} (h : (numberOfChars cs).isNaN = false) :
    cs = [] ∨ IsNumericLiteral cs ∨ IsSignedPrefixed cs := by
  by_cases hne : cs = []
  · exact .inl hne
  right
  cases hmark : radixPrefix? cs with
  | some found =>
    obtain ⟨radix, digits⟩ := found
    obtain ⟨mark, letter, rfl, hletter, rfl⟩ := radixPrefix?_eq_some hmark
    rw [isNaN_numberOfChars_of_letter hletter, isSome_unsigned?_iff] at h
    obtain ⟨ds, rfl | rfl, hds, hdigits, hlt⟩ := h
    · exact .inl (.prefixed ⟨mark, letter, digits, hletter, hds, hdigits⟩)
    · exact .inr ⟨⟨mark, letter, ds, hletter, hds, hdigits⟩, rfl, hlt⟩
  | none =>
    -- Without a mark it is the word, or a decimal that is read.
    left
    rw [numberOfChars, if_neg (by simpa using hne), hmark] at h
    simp only at h
    split at h
    · rename_i hword
      rcases hword with rfl | rfl
      · exact .infinity (.inl rfl)
      · exact .infinity (.inr (.inl rfl))
    · split at h
      · rename_i hword
        subst hword
        exact .infinity (.inr (.inr rfl))
      · split at h
        · obtain ⟨sign, hsign, hcs⟩ := exists_splitSign cs
          cases hread : unsignedDecimal? (splitSign cs).2 with
          | some x =>
            rw [hcs]
            exact .decimal hsign (isSome_unsignedDecimal?_iff.mp (by rw [hread]; rfl))
          | none =>
            have hnone : decimal? cs = none := by
              simp only [decimal?, hread, Option.map_none]
            rw [hnone] at h
            exact absurd h (by decide)
        · exact absurd h (by decide)

/-- The trimmed texts that have a number. -/
theorem isNaN_numberOfChars {cs : List Char} :
    (numberOfChars cs).isNaN = false ↔
      cs = [] ∨ (IsNumericLiteral cs ∧ ¬ IsWide cs) ∨ IsSignedPrefixed cs := by
  constructor
  · intro h
    have hwide : ¬ IsWide cs := fun hwide => Bool.false_ne_true (h.symm.trans hwide.isNaN)
    rcases cases_of_isNaN_numberOfChars h with hnil | hliteral | hsigned
    · exact .inl hnil
    · exact .inr (.inl ⟨hliteral, hwide⟩)
    · exact .inr (.inr hsigned)
  · rintro (rfl | ⟨hliteral, hwide⟩ | hsigned)
    · decide
    · exact hliteral.isNaN hwide
    · exact hsigned.isNaN

/-! ## Texts -/

/-- Texts of the grammar without a number: with a byte order mark beside the literal, or with more
    digits than 64 bits hold. -/
def IsMissed (s : String) : Prop :=
  '\ufeff' ∈ s.toList ∨ IsWide (strip isSpace s.toList)

/-- Texts with a number that are not of the grammar: with a plus sign behind a radix mark, or with
    the control character U+0085 for white space. -/
def IsTolerated (s : String) : Prop :=
  IsSignedPrefixed (trimChars s.toList) ∨
    '\u0085' ∈ s.toList ∧ (trimChars s.toList = [] ∨
      IsNumericLiteral (trimChars s.toList) ∧ ¬ IsWide (trimChars s.toList))

/-- What has a number is made of visible characters. -/
theorem isVisible_of_isNaN_numberOfChars {cs : List Char} (h : (numberOfChars cs).isNaN = false) :
    ∀ c ∈ cs, isVisible c = true := by
  rcases cases_of_isNaN_numberOfChars h with rfl | hliteral | ⟨p, rfl, -⟩
  · simp
  · exact hliteral.forall_isVisible
  · intro c hc
    by_cases hplus : c = '+'
    · rw [hplus]
      decide
    · refine p.isVisible_of_mem_chars ?_
      simpa [PrefixedNumber.chars, hplus] using hc

theorem IsTolerated.isNaN {s : String} (h : IsTolerated s) :
    (numberOfChars (trimChars s.toList)).isNaN = false := by
  rw [isNaN_numberOfChars]
  rcases h with hsigned | ⟨-, hnil | hliteral⟩
  · exact .inr (.inr hsigned)
  · exact .inl hnil
  · exact .inr (.inl hliteral)

theorem IsNumericText.forall_isVisible {s : String} (h : IsNumericText s) :
    ∀ c ∈ strip isSpace s.toList, isVisible c = true := by
  rcases h with hnil | hliteral
  · simp [hnil]
  · exact hliteral.forall_isVisible

/-- A byte order mark is not trimmed, and no literal has one. -/
theorem isNaN_numberOfChars_of_mark {s : String} (h : '\ufeff' ∈ s.toList) :
    (numberOfChars (trimChars s.toList)).isNaN = true := by
  have hkept : '\ufeff' ∈ trimChars s.toList := by
    rw [trimChars_eq_strip]
    exact mem_strip h (by decide)
  rw [← Bool.not_eq_false]
  intro hnumber
  exact absurd (isVisible_of_isNaN_numberOfChars hnumber _ hkept) (by decide)

/-- The other character on which the two notions of white space differ is in no text of the
    grammar. -/
theorem not_isNumericText_of_next {s : String} (h : '\u0085' ∈ s.toList) : ¬ IsNumericText s :=
  fun htext => absurd (htext.forall_isVisible _ (mem_strip h (by decide))) (by decide)

theorem not_isWide_nil : ¬ IsWide [] := by
  rintro ⟨p, hp, -⟩
  simp [PrefixedNumber.chars] at hp

theorem IsWide.not_isSignedPrefixed {cs : List Char} (h : IsWide cs) : ¬ IsSignedPrefixed cs :=
  fun hsigned => Bool.false_ne_true (hsigned.isNaN.symm.trans h.isNaN)

/-- The conversion of a string has no number just for the missed texts of the grammar and for the
    texts outside of it that are not tolerated. -/
theorem Primitive.toNumber_isNaN_iff (s : String) :
    (Primitive.string s).toNumber.isNaN = true ↔
      (IsNumericText s ∧ IsMissed s) ∨ (¬ IsNumericText s ∧ ¬ IsTolerated s) := by
  show (numberOfChars (trimChars s.toList)).isNaN = true ↔ _
  by_cases hmark : '\ufeff' ∈ s.toList
  · have hnan := isNaN_numberOfChars_of_mark hmark
    refine iff_of_true hnan ?_
    by_cases htext : IsNumericText s
    · exact .inl ⟨htext, .inl hmark⟩
    · exact .inr ⟨htext, fun h => Bool.false_ne_true (h.isNaN.symm.trans hnan)⟩
  by_cases hnext : '\u0085' ∈ s.toList
  · have htext := not_isNumericText_of_next hnext
    have htolerated : IsTolerated s ↔ (numberOfChars (trimChars s.toList)).isNaN = false := by
      rw [isNaN_numberOfChars, IsTolerated, and_iff_right hnext, or_comm, or_assoc]
    rw [htolerated, Bool.not_eq_false]
    simp [htext]
  · -- The two notions of white space agree on the text, and only the digits matter.
    have hsame : strip isSpace s.toList = trimChars s.toList := by
      rw [trimChars_eq_strip]
      exact strip_congr fun c hc =>
        isSpace_eq_isBlank (fun h => hmark (h ▸ hc)) (fun h => hnext (h ▸ hc))
    rw [← Bool.not_eq_false, isNaN_numberOfChars, IsNumericText, IsMissed, IsTolerated, hsame]
    have hwide := @IsWide.not_isSignedPrefixed (trimChars s.toList)
    generalize trimChars s.toList = core at *
    by_cases hnil : core = []
    · subst hnil
      simp [not_isWide_nil, hmark]
    · simp only [hnil, hmark, hnext, false_or, false_and, or_false]
      tauto

-- Two texts outside of the grammar that are tolerated, and two of it that are missed.
example :
    (Primitive.string "0x+1").toNumber.isNaN = false ∧
      (Primitive.string "\u00851").toNumber.isNaN = false ∧
      (Primitive.string "\ufeff1").toNumber.isNaN = true ∧
      (Primitive.string "0x10000000000000000").toNumber.isNaN = true := by
  decide +kernel

end DefineFold
