/-
  DefineFold.Proofs.Primitive.Prefixed

  Numbers in hexadecimal, octal and binary digits behind their mark, read in the two ways that there
  are. As a literal, digits are accumulated in doubles. Up to 53 bits that is exact
  (`accumulated_of_lt`), and behind them digits are lost one after the other (`accumulated_append`),
  so that what comes out is the first front with more bits rounded by itself. As the text of a
  string, digits are a number of 64 bits, which is rounded once. `numeral?_eq_toNumber_iff` says
  when the two are the same.
-/

import DefineFold.Primitive.Basic
import DefineFold.Proofs.Number.Rounding
import DefineFold.Proofs.Text.Blank
import DefineFold.Proofs.Text.Spelling

namespace DefineFold

/-! ## Marks -/

/-- What a letter behind a zero says about the digits that follow. -/
inductive RadixMark where
  | hexadecimal
  | octal
  | binary
deriving DecidableEq, Repr

namespace RadixMark

/-- The bits of one digit. -/
def bits : RadixMark → Nat
  | .hexadecimal => 4
  | .octal => 3
  | .binary => 1

/-- The number of digits that there are. -/
def radix (mark : RadixMark) : Nat :=
  2 ^ mark.bits

/-- The letter of the mark in lower case. -/
def lower : RadixMark → Char
  | .hexadecimal => 'x'
  | .octal => 'o'
  | .binary => 'b'

/-- The letter of the mark in upper case. -/
def upper : RadixMark → Char
  | .hexadecimal => 'X'
  | .octal => 'O'
  | .binary => 'B'

/-- Whether a character is one of the digits. -/
def hasDigit (mark : RadixMark) (c : Char) : Bool :=
  isHexDigit c && decide (digitValue c < mark.radix)

theorem digitValue_lt {mark : RadixMark} {c : Char} (h : mark.hasDigit c = true) :
    digitValue c < mark.radix := by
  simp only [hasDigit, Bool.and_eq_true, decide_eq_true_eq] at h
  exact h.2

theorem radix_le (mark : RadixMark) : mark.radix ≤ 16 := by
  cases mark <;> decide

theorem digitValue?_eq (mark : RadixMark) (c : Char) :
    digitValue? mark.radix c = if mark.hasDigit c then some (digitValue c) else none := by
  have hradix := mark.radix_le
  simp only [digitValue?, hasDigit, isHexDigit, digitValue]
  grind

theorem hasDigit_lowerAscii {mark : RadixMark} {c : Char} (h : mark.hasDigit c = true) :
    mark.hasDigit (lowerAscii c) = true ∧ digitValue (lowerAscii c) = digitValue c := by
  simp only [hasDigit, isHexDigit, Bool.and_eq_true, Bool.or_eq_true, decide_eq_true_eq] at h
  obtain ⟨hhex, hlt⟩ := h
  rw [lowerAscii]
  split
  · rename_i hupper
    have hcode : (Char.ofNat (c.toNat + 32)).toNat = c.toNat + 32 := toNat_ofNat_of_lt (by omega)
    have hvalue : digitValue (Char.ofNat (c.toNat + 32)) = digitValue c := by
      rw [digitValue, digitValue, hcode]
      grind
    refine ⟨?_, hvalue⟩
    simp only [hasDigit, isHexDigit, hvalue, hcode, Bool.and_eq_true, Bool.or_eq_true,
      decide_eq_true_eq]
    omega
  · refine ⟨?_, rfl⟩
    simp only [hasDigit, isHexDigit, Bool.and_eq_true, Bool.or_eq_true, decide_eq_true_eq]
    exact ⟨hhex, hlt⟩

theorem digitsFrom?_eq (mark : RadixMark) (acc : Nat) (ds : List Char) :
    digitsFrom? mark.radix acc ds =
      if ds.all mark.hasDigit then some (ds.foldl (fun n c => n * mark.radix + digitValue c) acc)
      else none := by
  induction ds generalizing acc with
  | nil => rfl
  | cons c ds ih =>
    rw [digitsFrom?, digitValue?_eq, List.all_cons, List.foldl_cons]
    cases hc : mark.hasDigit c with
    | true => exact ih _
    | false => rfl

/-- A run of digits writes its value. -/
theorem digits?_eq (mark : RadixMark) (ds : List Char) :
    digits? mark.radix ds =
      if ds ≠ [] ∧ ds.all mark.hasDigit then some (digitsValue mark.radix ds) else none := by
  rw [digits?, digitsFrom?_eq]
  cases ds with
  | nil => rfl
  | cons c ds =>
    simp only [List.isEmpty_cons, Bool.false_eq_true, if_false, ne_eq, reduceCtorEq,
      not_false_eq_true, true_and]
    rfl

/-- The letter of a mark behind a zero announces the digits. -/
theorem radixPrefix?_of_letter {mark : RadixMark} {letter : Char}
    (h : letter = mark.lower ∨ letter = mark.upper) (digits : List Char) :
    radixPrefix? ('0' :: letter :: digits) = some (mark.radix, digits) := by
  cases mark <;> rcases h with rfl | rfl <;> rfl

end RadixMark

/-! ## Values of digits -/

theorem digitsValue_concat (radix : Nat) (ds : List Char) (c : Char) :
    digitsValue radix (ds ++ [c]) = digitsValue radix ds * radix + digitValue c := by
  rw [digitsValue, List.foldl_append]
  rfl

theorem digitsValue_append (radix : Nat) (front back : List Char) :
    digitsValue radix (front ++ back) =
      digitsValue radix front * radix ^ back.length + digitsValue radix back := by
  induction back using List.reverseRecOn with
  | nil => simp [digitsValue]
  | append_singleton back c ih =>
    rw [← List.append_assoc, digitsValue_concat, digitsValue_concat, ih, Nat.add_mul, Nat.mul_assoc,
      ← Nat.pow_succ, List.length_append, List.length_singleton, Nat.add_assoc]

/-- Digits are put behind others as so many bits. -/
theorem digitsValue_append_bits (mark : RadixMark) (front back : List Char) :
    digitsValue mark.radix (front ++ back) =
      digitsValue mark.radix front * 2 ^ (mark.bits * back.length) +
        digitsValue mark.radix back := by
  rw [digitsValue_append, RadixMark.radix, ← Nat.pow_mul]

/-- More digits do not write a smaller number. -/
theorem digitsValue_le_append (mark : RadixMark) (front back : List Char) :
    digitsValue mark.radix front ≤ digitsValue mark.radix (front ++ back) := by
  have hpow : 0 < mark.radix ^ back.length := Nat.pow_pos (Nat.two_pow_pos _)
  rw [digitsValue_append]
  exact Nat.le_add_right_of_le (Nat.le_mul_of_pos_right _ hpow)

/-- Digits that are all zeros write zero, and no others do. -/
theorem digitsValue_ne_zero_iff (mark : RadixMark) (ds : List Char) :
    digitsValue mark.radix ds ≠ 0 ↔ ∃ c ∈ ds, digitValue c ≠ 0 := by
  have hradix : mark.radix ≠ 0 := Nat.ne_of_gt (Nat.two_pow_pos _)
  induction ds using List.reverseRecOn with
  | nil => simp [digitsValue]
  | append_singleton ds c ih =>
    rw [digitsValue_concat]
    simp only [List.mem_append, List.mem_singleton, or_and_right, exists_or, exists_eq_left, ← ih,
      ne_eq, Nat.add_eq_zero_iff, Nat.mul_eq_zero, hradix, or_false]
    exact Decidable.not_and_iff_or_not

/-- So many digits write a number of so many bits. -/
theorem digitsValue_lt_two_pow {mark : RadixMark} {ds : List Char}
    (h : ∀ c ∈ ds, mark.hasDigit c = true) :
    digitsValue mark.radix ds < 2 ^ (mark.bits * ds.length) := by
  induction ds using List.reverseRecOn with
  | nil => simp [digitsValue]
  | append_singleton ds c ih =>
    have hds := ih fun d hd => h d (List.mem_append_left _ hd)
    have hc : digitValue c < mark.radix :=
      RadixMark.digitValue_lt (h c (List.mem_append_right _ (List.mem_singleton_self c)))
    rw [digitsValue_concat, List.length_append, List.length_singleton, Nat.mul_add, Nat.mul_one,
      Nat.pow_add]
    calc digitsValue mark.radix ds * mark.radix + digitValue c
        < (digitsValue mark.radix ds + 1) * mark.radix := by
          rw [Nat.add_mul]
          omega
      _ ≤ 2 ^ (mark.bits * ds.length) * mark.radix := Nat.mul_le_mul_right _ hds

/-! ## Digits accumulated in doubles -/

/-- The double that digits come to when each is added to the multiple of those before. -/
def accumulated (mark : RadixMark) (ds : List Char) : Float :=
  ds.foldl (fun x c => x * Float.ofNat mark.radix + Float.ofNat (digitValue c)) 0.0

theorem accumulated_concat (mark : RadixMark) (ds : List Char) (c : Char) :
    accumulated mark (ds ++ [c]) =
      accumulated mark ds * Float.ofNat mark.radix + Float.ofNat (digitValue c) := by
  rw [accumulated, List.foldl_append]
  rfl

theorem radixValueFrom?_map_lowerAscii {mark : RadixMark} {ds : List Char}
    (h : ∀ c ∈ ds, mark.hasDigit c = true) (acc : Float) :
    radixValueFrom? mark.radix acc (ds.map lowerAscii) =
      some (ds.foldl (fun x c => x * Float.ofNat mark.radix + Float.ofNat (digitValue c)) acc) := by
  induction ds generalizing acc with
  | nil => rfl
  | cons c ds ih =>
    obtain ⟨hlower, hvalue⟩ := RadixMark.hasDigit_lowerAscii (h c List.mem_cons_self)
    rw [List.map_cons, radixValueFrom?, RadixMark.digitValue?_eq, if_pos hlower, hvalue,
      List.foldl_cons]
    exact ih (fun d hd => h d (List.mem_cons_of_mem _ hd)) _

theorem isFactor_ofNat_radix (mark : RadixMark) : Double.IsFactor (Float.ofNat mark.radix) := by
  unfold Double.IsFactor
  cases mark <;> decide

/-- However many digits there are, no NaN comes out. -/
theorem isCount_accumulated (mark : RadixMark) (ds : List Char) :
    Double.IsCount (accumulated mark ds) := by
  induction ds using List.reverseRecOn with
  | nil => exact Double.isCount_ofScientific 0 true 1
  | append_singleton ds c ih =>
    rw [accumulated_concat]
    exact (ih.mul (isFactor_ofNat_radix mark)).add (Double.isCount_ofScientific _ false 0)

section

open Double

variable {mark : RadixMark} {ds : List Char}

/-- One more digit behind a number that doubles can be. -/
theorem nearest_step {n : Nat} {c : Char} (hexact : IsExact n) (hlog : n.log2 < 900)
    (hc : mark.hasDigit c = true) :
    nearest n * Float.ofNat mark.radix + Float.ofNat (digitValue c) =
      nearest (n * mark.radix + digitValue c) := by
  have hradix := mark.radix_le
  have hvalue := RadixMark.digitValue_lt hc
  have hbits : mark.bits ≤ 4 := by cases mark <;> decide
  have hexactRadix : IsExact mark.radix := isExact_of_lt (by omega)
  have hexactDigit : IsExact (digitValue c) := isExact_of_lt (by omega)
  have hlogRadix : mark.radix.log2 < 5 := log2_lt_of_lt (by decide) (by omega)
  have hlogDigit : (digitValue c).log2 < 5 := log2_lt_of_lt (by decide) (by omega)
  rw [ofNat_eq_nearest, ofNat_eq_nearest,
    nearest_mul hexact hexactRadix (by omega) (by omega) (by omega)]
  rcases Nat.eq_zero_or_pos n with rfl | hpos
  · rw [Nat.zero_mul]
    exact nearest_add (isExact_of_lt (by decide)) hexactDigit (by decide) (by omega)
  · have hshift : (n * mark.radix).log2 = n.log2 + mark.bits :=
      log2_mul_two_pow (Nat.ne_of_gt hpos) _
    exact nearest_add (hexact.mul_two_pow (Nat.ne_of_gt hpos) _) hexactDigit (by omega) (by omega)

/-- The digit with which 53 bits are reached is rounded with the ones before, all at once. -/
theorem accumulated_concat_of_lt {c : Char} (hc : mark.hasDigit c = true)
    (hlt : digitsValue mark.radix ds < 2 ^ 53)
    (hds : accumulated mark ds = nearest (digitsValue mark.radix ds)) :
    accumulated mark (ds ++ [c]) = nearest (digitsValue mark.radix (ds ++ [c])) := by
  have hlog : (digitsValue mark.radix ds).log2 < 53 := log2_lt_of_lt (by decide) hlt
  rw [accumulated_concat, hds, nearest_step (isExact_of_lt hlt) (by omega) hc, digitsValue_concat]

/-- Below 53 bits nothing is rounded. -/
theorem accumulated_of_lt (h : ∀ c ∈ ds, mark.hasDigit c = true)
    (hlt : digitsValue mark.radix ds < 2 ^ 53) :
    accumulated mark ds = nearest (digitsValue mark.radix ds) := by
  induction ds using List.reverseRecOn with
  | nil => rfl
  | append_singleton ds c ih =>
    have hle := digitsValue_le_append mark ds [c]
    have hc := h c (List.mem_append_right _ (List.mem_singleton_self c))
    have hds := ih (fun d hd => h d (List.mem_append_left _ hd)) (by omega)
    exact accumulated_concat_of_lt hc (by omega) hds

/-- One more digit behind 53 bits: less than half of the last place. -/
theorem nearest_step_of_log2 {n : Nat} {c : Char} (hexact : IsExact n) (hlow : 53 ≤ n.log2)
    (hlog : n.log2 < 900) (hc : mark.hasDigit c = true) :
    nearest n * Float.ofNat mark.radix + Float.ofNat (digitValue c) = nearest (n * mark.radix) := by
  have hne : n ≠ 0 := by
    rintro rfl
    simp at hlow
  have hshift : (n * mark.radix).log2 = n.log2 + mark.bits := log2_mul_two_pow hne _
  have hsmall : 2 * digitValue c < 2 ^ ((n * mark.radix).log2 - 52) :=
    calc 2 * digitValue c < 2 * mark.radix :=
          Nat.mul_lt_mul_of_pos_left (RadixMark.digitValue_lt hc) (by decide)
      _ = 2 ^ (mark.bits + 1) := by rw [RadixMark.radix, Nat.pow_succ']
      _ ≤ 2 ^ ((n * mark.radix).log2 - 52) := Nat.pow_le_pow_right (by decide) (by omega)
  rw [nearest_step hexact hlog hc]
  exact nearest_add_of_lt (hexact.mul_two_pow hne _) (by omega) hsmall

/-- Behind 53 bits digits are lost one after the other, and what is left is rounded already. -/
theorem accumulated_append {front back : List Char}
    (h : ∀ c ∈ back, mark.hasDigit c = true)
    (hfront : accumulated mark front = nearest (digitsValue mark.radix front))
    (hlow : 53 ≤ (digitsValue mark.radix front).log2)
    (hhigh : (digitsValue mark.radix front).log2 + mark.bits * back.length < 800) :
    accumulated mark (front ++ back) =
      nearest (rounded (digitsValue mark.radix front) * 2 ^ (mark.bits * back.length)) := by
  generalize digitsValue mark.radix front = n at *
  have hpos := Nat.ne_of_gt (rounded_pos (n := n) (by omega))
  have hrounded : n.log2 ≤ (rounded n).log2 ∧ (rounded n).log2 ≤ n.log2 + 1 := by
    rcases rounded_cases (n := n) (by omega) with ⟨-, hlog, -⟩ | ⟨-, hlog, -⟩ <;> omega
  induction back using List.reverseRecOn with
  | nil =>
    have hsame := (nearest_append_iff (t := 0) (k := 0) hlow (by decide) (by omega)).mpr (by simp)
    rw [List.append_nil, hfront, List.length_nil, Nat.mul_zero, ← hsame]
    simp
  | append_singleton back c ih =>
    have hlength : mark.bits * (back ++ [c]).length = mark.bits * back.length + mark.bits := by
      rw [List.length_append, List.length_singleton, Nat.mul_add, Nat.mul_one]
    have hlog := log2_mul_two_pow hpos (mark.bits * back.length)
    have hback := ih (fun d hd => h d (List.mem_append_left _ hd)) (by omega)
    rw [← List.append_assoc, accumulated_concat, hback,
      nearest_step_of_log2 ((isExact_rounded (by omega)).mul_two_pow hpos _) (by omega) (by omega)
        (h c (List.mem_append_right _ (List.mem_singleton_self c))),
      hlength, Nat.pow_add, Nat.mul_assoc]
    rfl

theorem exists_first_rounded (h : 2 ^ 53 ≤ digitsValue mark.radix ds) :
    ∃ front c back, ds = front ++ c :: back ∧ digitsValue mark.radix front < 2 ^ 53 ∧
      2 ^ 53 ≤ digitsValue mark.radix (front ++ [c]) := by
  induction ds using List.reverseRecOn with
  | nil => simp [digitsValue] at h
  | append_singleton ds c ih =>
    by_cases hlt : digitsValue mark.radix ds < 2 ^ 53
    · exact ⟨ds, c, [], rfl, hlt, h⟩
    · obtain ⟨front, d, back, rfl, hfront, hnext⟩ := ih (Nat.le_of_not_lt hlt)
      exact ⟨front, d, back ++ [c], by simp, hfront, hnext⟩

/-- A front of the digits is half way above an even double, and there is more behind it than zeros:
    it goes down when it is rounded, and the whole number would go up. -/
def RoundsTwice (mark : RadixMark) (ds : List Char) : Prop :=
  ∃ front back, ds = front ++ back ∧ TiesDown (digitsValue mark.radix front) ∧
    ∃ c ∈ back, digitValue c ≠ 0

/-- It is enough to look at the first front that is rounded. -/
theorem roundsTwice_iff {front back : List Char} {c : Char}
    (h : ∀ d ∈ front ++ c :: back, mark.hasDigit d = true)
    (hfront : digitsValue mark.radix front < 2 ^ 53)
    (hnext : 2 ^ 53 ≤ digitsValue mark.radix (front ++ [c])) :
    RoundsTwice mark (front ++ c :: back) ↔
      digitsValue mark.radix back ≠ 0 ∧ TiesDown (digitsValue mark.radix (front ++ [c])) := by
  have hsplit : front ++ c :: back = front ++ [c] ++ back := by simp
  constructor
  · rintro ⟨front', back', heq, hties, hback⟩
    -- A shorter front has too few bits for a tie.
    have hlong : ∀ more, front' ++ more ≠ front := by
      rintro more rfl
      have hle := digitsValue_le_append mark front' more
      exact not_tiesDown_of_lt (by omega) hties
    rcases List.append_eq_append_iff.mp heq with ⟨mid, rfl, hrest⟩ | ⟨mid, hmid, -⟩
    · cases mid with
      | nil => exact absurd (by simp) (hlong [])
      | cons d mid =>
        obtain ⟨rfl, rfl⟩ := List.cons.inj hrest
        have hdigits : ∀ d ∈ mid, mark.hasDigit d = true := fun d hd => h d (by simp [hd])
        have hlog : 53 ≤ (digitsValue mark.radix (front ++ [c])).log2 :=
          (Nat.le_log2 (by omega)).mpr hnext
        -- A longer one is a tie by its first 54 bits alone.
        rw [← List.singleton_append, ← List.append_assoc, digitsValue_append_bits] at hties
        refine ⟨?_, (hties.of_append hlog (digitsValue_lt_two_pow hdigits)).2⟩
        rw [digitsValue_ne_zero_iff]
        obtain ⟨d, hd, hne⟩ := hback
        exact ⟨d, List.mem_append_right _ hd, hne⟩
    · exact absurd hmid.symm (hlong mid)
  · rintro ⟨hback, hties⟩
    exact ⟨front ++ [c], back, hsplit, hties, (digitsValue_ne_zero_iff mark back).mp hback⟩

/-- Up to 64 bits, digits come to the double nearest to the number that they write, unless a front
    of them is rounded the wrong way. -/
theorem accumulated_eq_nearest_iff (h : ∀ c ∈ ds, mark.hasDigit c = true)
    (hlt : digitsValue mark.radix ds < 2 ^ 64) :
    accumulated mark ds = nearest (digitsValue mark.radix ds) ↔ ¬ RoundsTwice mark ds := by
  by_cases hsmall : digitsValue mark.radix ds < 2 ^ 53
  · refine iff_of_true (accumulated_of_lt h hsmall) ?_
    rintro ⟨front, back, rfl, hties, -⟩
    have hle := digitsValue_le_append mark front back
    exact not_tiesDown_of_lt (by omega) hties
  · obtain ⟨front, c, back, rfl, hfront, hnext⟩ := exists_first_rounded (Nat.le_of_not_lt hsmall)
    have hsplit : front ++ c :: back = front ++ [c] ++ back := by simp
    have hback : ∀ d ∈ back, mark.hasDigit d = true := fun d hd => h d (by simp [hd])
    have hlow : 53 ≤ (digitsValue mark.radix (front ++ [c])).log2 :=
      (Nat.le_log2 (by omega)).mpr hnext
    -- The digit that goes beyond 53 bits makes for one rounding. The digits behind it are lost, and
    -- would have mattered for a tie alone.
    have hlast := accumulated_concat_of_lt (h c (by simp)) hfront
      (accumulated_of_lt (fun d hd => h d (by simp [hd])) hfront)
    have hvalue := digitsValue_append_bits mark (front ++ [c]) back
    rw [← hsplit] at hvalue
    have htail := digitsValue_lt_two_pow hback
    have hlog := log2_append (n := digitsValue mark.radix (front ++ [c])) (by omega) htail
    have hbound := log2_lt_of_lt (by decide) hlt
    rw [hvalue, hlog] at hbound
    rw [roundsTwice_iff h hfront hnext, hvalue, hsplit,
      accumulated_append hback hlast hlow (by omega), eq_comm]
    exact nearest_append_iff hlow htail (by omega)

end

/-! ## Prefixed numbers -/

/-- A number in digits of a radix behind its mark. -/
structure PrefixedNumber where
  mark : RadixMark
  letter : Char
  digits : List Char
  letter_eq : letter = mark.lower ∨ letter = mark.upper
  digits_ne : digits ≠ []
  hasDigit : ∀ c ∈ digits, mark.hasDigit c = true

namespace PrefixedNumber

/-- The characters of the number. -/
def chars (p : PrefixedNumber) : List Char :=
  '0' :: p.letter :: p.digits

/-- The text of the number. -/
def text (p : PrefixedNumber) : String :=
  String.ofList p.chars

/-- The number that is written. -/
def value (p : PrefixedNumber) : Nat :=
  digitsValue p.mark.radix p.digits

variable (p : PrefixedNumber)

/-- A hexadecimal digit or the letter of a mark. -/
theorem mem_chars :
    ∀ c ∈ p.chars, isHexDigit c = true ∨ c ∈ ['x', 'X', 'o', 'O', 'b', 'B'] := by
  obtain ⟨mark, letter, digits, hletter, -, hdigits⟩ := p
  intro c h
  simp only [chars, List.mem_cons] at h
  rcases h with rfl | rfl | hc
  · exact .inl (by decide)
  · cases mark <;> rcases hletter with rfl | rfl <;> exact .inr (by decide)
  · have hdigit := hdigits c hc
    rw [RadixMark.hasDigit, Bool.and_eq_true] at hdigit
    exact .inl hdigit.1

theorem isVisible_of_mem_chars {c : Char} (h : c ∈ p.chars) : isVisible c = true := by
  rcases p.mem_chars c h with hdigit | hletter
  · simp only [isHexDigit, isVisible, Bool.or_eq_true, Bool.and_eq_true, decide_eq_true_eq] at *
    omega
  · have hall : ['x', 'X', 'o', 'O', 'b', 'B'].all isVisible = true := by decide
    exact List.all_eq_true.mp hall c hletter

theorem trimChars_chars : trimChars p.chars = p.chars := by
  rw [trimChars_eq_strip]
  exact strip_of_forall fun _ hc => isBlank_of_isVisible (p.isVisible_of_mem_chars hc)

theorem radixMark?_map_chars :
    radixMark? (p.chars.map lowerAscii) = some (p.mark.radix, p.digits.map lowerAscii) := by
  obtain ⟨mark, letter, digits, hletter, -, -⟩ := p
  cases mark <;> rcases hletter with rfl | rfl <;> rfl

/-- A literal is read as what its digits come to. -/
theorem numeral?_text : numeral? p.text = some (accumulated p.mark p.digits) := by
  have hfilter : p.chars.filter (· ≠ '_') = p.chars := by
    rw [List.filter_eq_self]
    intro c hc
    rw [decide_eq_true_eq]
    rintro rfl
    exact absurd (p.mem_chars _ hc) (by decide)
  have hlast : p.chars.getLast? ≠ some 'n' := fun heq =>
    absurd (p.mem_chars _ (List.mem_of_getLast? heq)) (by decide)
  rw [numeral?, text, String.toList_ofList, p.trimChars_chars, hfilter, plainNumeral?, if_neg hlast,
    p.radixMark?_map_chars]
  show radixValue? p.mark.radix (p.digits.map lowerAscii) = _
  rw [radixValue?, if_neg (by simpa using p.digits_ne), radixValueFrom?_map_lowerAscii p.hasDigit]
  rfl

theorem unsigned?_digits (bound : Nat) :
    unsigned? p.mark.radix bound p.digits = if p.value < bound then some p.value else none := by
  have hdigits : digits? p.mark.radix p.digits = some p.value := by
    rw [RadixMark.digits?_eq, if_pos ⟨p.digits_ne, List.all_eq_true.mpr p.hasDigit⟩]
    rfl
  rw [unsigned?.eq_def]
  split
  · -- No digit is a sign.
    rename_i rest heq
    have hplus := p.hasDigit '+' (heq ▸ List.mem_cons_self)
    rw [RadixMark.hasDigit, Bool.and_eq_true] at hplus
    exact absurd hplus.1 (by decide)
  · rw [hdigits, Option.filter_some]
    simp only [decide_eq_true_eq]

/-- A string is converted through 64 bits. -/
theorem toNumber_text :
    (Primitive.string p.text).toNumber =
      if p.value < 2 ^ 64 then Double.nearest p.value else Double.nan := by
  have hbound : Nat.pow 2 64 = 2 ^ 64 := rfl
  show numberOfChars (trimChars p.text.toList) = _
  rw [text, String.toList_ofList, p.trimChars_chars, numberOfChars,
    if_neg (by simp [chars]), chars, RadixMark.radixPrefix?_of_letter p.letter_eq]
  simp only [p.unsigned?_digits, hbound]
  by_cases hlt : p.value < 2 ^ 64
  · rw [if_pos hlt, if_pos hlt]
    show Float.ofModel (.ofNat (UInt64.ofNat p.value).toNat) = Double.nearest p.value
    rw [UInt64.toNat_ofNat_of_lt' hlt]
    rfl
  · rw [if_neg hlt, if_neg hlt]

/-- Prefixed digits as a literal and as the text of a string. The literal always has a number. The
    string has the double nearest to the number that is written up to 64 bits, and none from there
    on. The two agree just for a number of up to 64 bits that is not rounded twice. -/
theorem numeral?_eq_toNumber_iff (p : PrefixedNumber) :
    (∃ x, numeral? p.text = some x ∧ x.isNaN = false) ∧
      (Primitive.string p.text).toNumber =
        (if p.value < 2 ^ 64 then Double.nearest p.value else Double.nan) ∧
      (numeral? p.text = some (Primitive.string p.text).toNumber ↔
        p.value < 2 ^ 64 ∧ ¬ RoundsTwice p.mark p.digits) := by
  have hcount := (isCount_accumulated p.mark p.digits).isNaN_eq_false
  refine ⟨⟨_, p.numeral?_text, hcount⟩, p.toNumber_text, ?_⟩
  rw [p.numeral?_text, p.toNumber_text, Option.some_inj]
  by_cases hlt : p.value < 2 ^ 64
  · rw [if_pos hlt, and_iff_right hlt]
    exact accumulated_eq_nearest_iff p.hasDigit hlt
  · rw [if_neg hlt]
    refine iff_of_false ?_ fun h => hlt h.1
    intro heq
    rw [heq] at hcount
    exact absurd hcount (by decide)

-- Digits on which both ways have a number, and not the same one.
example :
    numeral? "0x200000000000011" ≠ some (Primitive.string "0x200000000000011").toNumber := by
  decide +kernel

end PrefixedNumber

end DefineFold
