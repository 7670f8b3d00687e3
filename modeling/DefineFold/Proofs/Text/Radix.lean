/-
  DefineFold.Proofs.Text.Radix

  Decimal texts of natural numbers, read back. A run of digits writes a number just if it is the
  decimal text of that number with zeros in front (`digits?_eq_some_iff`), and where a sign is
  allowed there may be one plus before all of them (`unsigned?_eq_some_iff`).
-/

import DefineFold.Text.Radix
import Mathlib.Tactic.IntervalCases

namespace DefineFold

/-- The decimal digits are the characters of the numbers below ten. -/
theorem digitValue?_eq_some_iff {c : Char} {d : Nat} :
    digitValue? 10 c = some d ↔ d < 10 ∧ c = Nat.digitChar d := by
  constructor
  · intro h
    obtain ⟨hvalue, hlt⟩ := Option.filter_eq_some_iff.mp h
    have hd : d < 10 := by simpa using hlt
    refine ⟨hd, ?_⟩
    -- Letters stand for ten and more.
    have hcode : c.toNat = 48 + d := by
      split at hvalue
      · have := Option.some.inj hvalue
        omega
      · split at hvalue
        · have := Option.some.inj hvalue
          omega
        · split at hvalue
          · have := Option.some.inj hvalue
            omega
          · simp at hvalue
    rw [← Char.toNat_inj, hcode]
    interval_cases d <;> rfl
  · rintro ⟨hd, rfl⟩
    interval_cases d <;> rfl

theorem digitsFrom?_append (radix acc : Nat) (xs ys : List Char) :
    digitsFrom? radix acc (xs ++ ys) =
      (digitsFrom? radix acc xs).bind (digitsFrom? radix · ys) := by
  induction xs generalizing acc with
  | nil => rfl
  | cons x xs ih =>
    rw [List.cons_append, digitsFrom?, digitsFrom?]
    split
    · exact ih _
    · rfl

theorem digitsFrom?_digitChar (acc : Nat) {d : Nat} (hd : d < 10) :
    digitsFrom? 10 acc [Nat.digitChar d] = some (acc * 10 + d) := by
  simp only [digitsFrom?, digitValue?_eq_some_iff.mpr ⟨hd, rfl⟩]

/-- The decimal text of a number writes the number. -/
theorem digitsFrom?_toDigits (n : Nat) : digitsFrom? 10 0 (Nat.toDigits 10 n) = some n := by
  induction n using Nat.strong_induction_on with
  | _ n ih =>
    rw [Nat.toDigits_eq_if (by omega)]
    split
    · rename_i hlt
      rw [digitsFrom?_digitChar 0 hlt]
      simp
    · have hquot : n / 10 < n := by omega
      rw [digitsFrom?_append, ih _ hquot, Option.bind_some,
        digitsFrom?_digitChar _ (Nat.mod_lt n (by omega)), Nat.div_add_mod']

theorem digitsFrom?_zeros (zeros : Nat) (cs : List Char) :
    digitsFrom? 10 0 (List.replicate zeros '0' ++ cs) = digitsFrom? 10 0 cs := by
  induction zeros with
  | zero => rfl
  | succ zeros ih =>
    have hzero : digitValue? 10 '0' = some 0 := by decide
    rw [List.replicate_succ, List.cons_append, digitsFrom?, hzero]
    exact ih

/-- Digits behind a number that is not zero go on with its decimal text. -/
theorem toDigits_append_of_digitsFrom? {acc n : Nat} {cs : List Char} (hacc : 0 < acc)
    (h : digitsFrom? 10 acc cs = some n) : Nat.toDigits 10 acc ++ cs = Nat.toDigits 10 n := by
  induction cs generalizing acc with
  | nil =>
    obtain rfl : acc = n := Option.some.inj h
    rw [List.append_nil]
  | cons c cs ih =>
    rw [digitsFrom?] at h
    split at h
    · rename_i d hdigit
      obtain ⟨hd, rfl⟩ := digitValue?_eq_some_iff.mp hdigit
      have htext := Nat.toDigits_append_toDigits (b := 10) (by omega) hacc hd
      rw [Nat.toDigits_of_lt_base hd] at htext
      rw [← ih (by omega) h, Nat.mul_comm acc 10, ← htext, List.append_assoc]
      rfl
    · simp at h

theorem exists_zeros_of_digitsFrom? {cs : List Char} {n : Nat} (hne : cs ≠ [])
    (h : digitsFrom? 10 0 cs = some n) :
    ∃ zeros, cs = List.replicate zeros '0' ++ Nat.toDigits 10 n := by
  induction cs with
  | nil => exact absurd rfl hne
  | cons c cs ih =>
    rw [digitsFrom?] at h
    split at h
    · rename_i d hdigit
      obtain ⟨hd, rfl⟩ := digitValue?_eq_some_iff.mp hdigit
      rw [Nat.zero_mul, Nat.zero_add] at h
      by_cases hzero : d = 0
      · subst hzero
        cases cs with
        | nil =>
          obtain rfl : 0 = n := Option.some.inj h
          exact ⟨0, rfl⟩
        | cons next cs =>
          obtain ⟨zeros, hzeros⟩ := ih (List.cons_ne_nil _ _) h
          exact ⟨zeros + 1, by rw [hzeros, List.replicate_succ]; rfl⟩
      · refine ⟨0, ?_⟩
        rw [← toDigits_append_of_digitsFrom? (by omega) h, Nat.toDigits_of_lt_base hd]
        rfl
    · simp at h

/-- A run of digits is the decimal text of the number that it writes, behind zeros. -/
theorem digits?_eq_some_iff {cs : List Char} {n : Nat} :
    digits? 10 cs = some n ↔
      ∃ zeros, cs = List.replicate zeros '0' ++ Nat.toDigits 10 n := by
  rw [digits?]
  constructor
  · intro h
    split at h
    · simp at h
    · rename_i hne
      exact exists_zeros_of_digitsFrom? (by simpa using hne) h
  · rintro ⟨zeros, rfl⟩
    rw [if_neg, digitsFrom?_zeros, digitsFrom?_toDigits]
    simp

/-- A number below a bound is read from its decimal text, with zeros and a plus sign in front or
    without. -/
theorem unsigned?_eq_some_iff {bound n : Nat} {cs : List Char} :
    unsigned? 10 bound cs = some n ↔
      n < bound ∧ ∃ zeros, cs = List.replicate zeros '0' ++ Nat.toDigits 10 n ∨
        cs = '+' :: (List.replicate zeros '0' ++ Nat.toDigits 10 n) := by
  have hread : ∀ digits, (digits? 10 digits).filter (· < bound) = some n ↔
      n < bound ∧ ∃ zeros, digits = List.replicate zeros '0' ++ Nat.toDigits 10 n := by
    intro digits
    rw [Option.filter_eq_some_iff, digits?_eq_some_iff, decide_eq_true_eq, and_comm]
  -- No digit is a plus sign.
  have hplus : ∀ zeros rest,
      '+' :: rest ≠ List.replicate zeros '0' ++ Nat.toDigits 10 n := by
    intro zeros rest heq
    have hread := digits?_eq_some_iff.mpr ⟨zeros, heq⟩
    have hsign : digitValue? 10 '+' = none := by decide
    simp [digits?, digitsFrom?, hsign] at hread
  rw [unsigned?.eq_def]
  split
  · rename_i digits
    rw [hread]
    simp [hplus]
  · rename_i hsign
    rw [hread]
    constructor
    · rintro ⟨hlt, zeros, h⟩
      exact ⟨hlt, zeros, .inl h⟩
    · rintro ⟨hlt, zeros, h | h⟩
      · exact ⟨hlt, zeros, h⟩
      · exact absurd h (hsign _)

end DefineFold
