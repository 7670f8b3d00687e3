/-
  DefineFold.Proofs.Text.Units

  Code units say what they are the code units of. A unit that is no surrogate is a character by
  itself, and a surrogate comes in a pair that makes one; no character has a surrogate for its
  number. So code units are told apart character by character (`charUnits_append_inj`), and two
  texts with the same code units are one text (`units_injective`). Texts are in the lexicographic
  order of their code units (`compareText_eq_lt_iff`), which leaves no two texts at one place.
-/

import Mathlib.Data.List.Lex
import Mathlib.Order.Compare
import DefineFold.Text.Units

namespace DefineFold

/-- No character has the number of a surrogate, or one beyond the last code point. -/
theorem toNat_scalar (c : Char) :
    c.toNat < 0xD800 ∨ 0xE000 ≤ c.toNat ∧ c.toNat < 0x110000 := by
  rcases c.valid with h | ⟨hlow, hhigh⟩
  · exact Or.inl h
  · exact Or.inr ⟨hlow, hhigh⟩

theorem charUnits_ne_nil (c : Char) : charUnits c ≠ [] := by
  rw [charUnits]
  split
  · exact List.cons_ne_nil _ _
  · exact List.cons_ne_nil _ _

/-- The first of several characters can be told from their code units. -/
theorem charUnits_append_inj {c d : Char} {us vs : List Nat}
    (h : charUnits c ++ us = charUnits d ++ vs) : c = d ∧ us = vs := by
  have hc := toNat_scalar c
  have hd := toNat_scalar d
  simp only [charUnits] at h
  split at h
  · split at h
    · obtain ⟨hunit, hrest⟩ := List.cons.inj h
      exact ⟨Char.toNat_inj.mp hunit, hrest⟩
    · -- The first unit of a pair is no character by itself.
      have hunit := (List.cons.inj h).1
      omega
  · split at h
    · have hunit := (List.cons.inj h).1
      omega
    · obtain ⟨hhigh, hrest⟩ := List.cons.inj h
      obtain ⟨hlow, hrest⟩ := List.cons.inj hrest
      refine ⟨Char.toNat_inj.mp ?_, hrest⟩
      -- The two units are the quotient and the remainder of one number.
      omega

theorem units_injective {s t : String} (h : units s = units t) : s = t := by
  rw [units, units] at h
  apply String.toList_inj.mp
  generalize s.toList = cs at h
  generalize t.toList = ds at h
  induction cs generalizing ds with
  | nil =>
    cases ds with
    | nil => rfl
    | cons d ds =>
      rw [List.flatMap_cons] at h
      exact absurd h.symm (List.append_ne_nil_of_left_ne_nil (charUnits_ne_nil d) _)
  | cons c cs ih =>
    rw [List.flatMap_cons] at h
    cases ds with
    | nil => exact absurd h (List.append_ne_nil_of_left_ne_nil (charUnits_ne_nil c) _)
    | cons d ds =>
      rw [List.flatMap_cons] at h
      obtain ⟨rfl, hrest⟩ := charUnits_append_inj h
      rw [ih ds hrest]

/-! ## Order -/

/-- Lists are told apart by their heads, or else by what comes behind. -/
theorem compares_cons {α : Type} [LT α] {a b : α} {as bs : List α} {first rest : Ordering}
    (hfirst : first.Compares a b) (hrest : rest.Compares as bs) :
    (first.then rest).Compares (a :: as) (b :: bs) := by
  cases first with
  | lt => exact List.cons_lt_cons_iff.mpr (.inl hfirst)
  | gt => exact List.cons_lt_cons_iff.mpr (.inl hfirst)
  | eq =>
    obtain rfl : a = b := hfirst
    cases rest with
    | lt => exact List.cons_lt_cons_iff.mpr (.inr ⟨rfl, hrest⟩)
    | gt => exact List.cons_lt_cons_iff.mpr (.inr ⟨rfl, hrest⟩)
    | eq => exact congrArg (a :: ·) hrest

theorem compareUnits_cons (a b : Nat) (as bs : List Nat) :
    compareUnits (a :: as) (b :: bs) = (cmp a b).then (compareUnits as bs) := by
  rw [compareUnits, cmp, cmpUsing]
  split
  · rfl
  · split <;> rfl

theorem compareUnits_compares (us vs : List Nat) : (compareUnits us vs).Compares us vs := by
  induction us generalizing vs with
  | nil =>
    cases vs with
    | nil => exact rfl
    | cons v vs => exact List.nil_lt_cons v vs
  | cons u us ih =>
    cases vs with
    | nil => exact List.nil_lt_cons u us
    | cons v vs =>
      rw [compareUnits_cons]
      exact compares_cons (cmp_compares u v) (ih vs)

theorem compareText_eq_lt_iff {s t : String} : compareText s t = .lt ↔ units s < units t :=
  (compareUnits_compares _ _).eq_lt

/-- Texts at the same place have the same code units, and so they are one text. -/
theorem compareText_eq_eq_iff {s t : String} : compareText s t = .eq ↔ s = t := by
  rw [compareText, (compareUnits_compares _ _).eq_eq]
  exact ⟨units_injective, congrArg units⟩

theorem compareText_swap (s t : String) : compareText s t = (compareText t s).swap := by
  have hturned := Ordering.compares_swap.mpr (compareUnits_compares (units t) (units s))
  exact (compareUnits_compares (units s) (units t)).inj hturned

end DefineFold
