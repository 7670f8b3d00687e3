/-
  DefineFold.Proofs.Primitive.Finite

  Finite numbers. The numbers of a configuration are integers of 64 bits and finite doubles
  (`Value.isFinite`), and so are those of everything that is found in it. As primitive values they
  stay finite, since an integer of 64 bits is rounded to a finite double (`isFinite_ofInt`). The
  literal of a value that is no NaN and no infinity is not one of the words for these, in
  parentheses or without (`Primitive.literal_ne_word`).
-/

import DefineFold.Primitive.Basic
import DefineFold.Proofs.Number.Exact
import DefineFold.Proofs.Number.Text

namespace DefineFold

/-! ## Integers as finite doubles -/

namespace Double

open Float.Model

theorem parts_of_isFinite {x : Float} (h : x.isFinite = true) :
    ∃ negative m q, parts x = .finite negative m q := by
  have hfinite : x.toModel.unpack.isFinite = true := h
  rw [parts_eq]
  cases hunpack : x.toModel.unpack with
  | notANumber => simp [hunpack, UnpackedFloat.isFinite] at hfinite
  | infinity sign => simp [hunpack, UnpackedFloat.isFinite] at hfinite
  | zero sign => exact ⟨_, _, _, rfl⟩
  | finite sign m e hm => exact ⟨_, _, _, rfl⟩

section

variable {n : Nat}

theorem isFinite_nearest (hlog : n.log2 < 1000) : (nearest n).isFinite = true := by
  show (nearest n).toModel.unpack.isFinite = true
  rcases Nat.eq_zero_or_pos n with rfl | hn
  · rfl
  · rw [unpack_nearest hn hlog, nearestParts, carry]
    split <;> rfl

theorem isFinite_neg_nearest (hlog : n.log2 < 1000) : (-nearest n).isFinite = true := by
  show (UnpackedFloat.unpack .binary64
    (UnpackedFloat.pack .binary64 (nearest n).toModel.unpack.neg)).isFinite = true
  rcases Nat.eq_zero_or_pos n with rfl | hn
  · rfl
  · obtain ⟨hlow, hhigh⟩ := significand_bounds (Nat.ne_of_gt hn)
    rw [unpack_nearest hn hlog, nearestParts, carry]
    -- Both forms of the rounded number are in the range of doubles, with either sign.
    split
    · rename_i hfits
      exact congrArg UnpackedFloat.isFinite
        (unpack_pack_finite .negative _ hlow hfits (by omega) (by omega))
    · exact congrArg UnpackedFloat.isFinite
        (unpack_pack_finite .negative _ (by decide) (by decide) (by omega) (by omega))

end

/-- Integers of 64 bits, with a sign or without, are finite as doubles. -/
theorem isFinite_ofInt {z : Int} (hlow : -2 ^ 63 ≤ z) (hhigh : z < 2 ^ 64) :
    (Float.ofInt z).isFinite = true := by
  cases z with
  | ofNat n =>
    have hlog : n.log2 < 64 := log2_lt_of_lt (by decide) (by simp at hhigh; omega)
    show (Float.ofNat n).isFinite = true
    rw [ofNat_eq_nearest]
    exact isFinite_nearest (by omega)
  | negSucc n =>
    have hlog : (n + 1).log2 < 64 := log2_lt_of_lt (by decide) (by omega)
    show (-Float.ofNat (n + 1)).isFinite = true
    rw [ofNat_eq_nearest]
    exact isFinite_neg_nearest (by omega)

end Double

/-! ## Configurations -/

namespace Value

mutual

/-- Whether all numbers in a value are those that documents can have: integers of 64 bits, with a
    sign or without, and finite doubles. -/
def isFinite : Value → Bool
  | .integer n => decide (-2 ^ 63 ≤ n) && decide (n < 2 ^ 64)
  | .double x => x.isFinite
  | .array items => areFinite items
  | .object entries => haveFinite entries
  | _ => true

/-- The same for all items of an array. -/
def areFinite : List Value → Bool
  | [] => true
  | v :: vs => isFinite v && areFinite vs

/-- The same for the values of all entries. -/
def haveFinite : List (String × Value) → Bool
  | [] => true
  | (_, v) :: rest => isFinite v && haveFinite rest

end

theorem isFinite_of_areFinite {items : List Value} (h : areFinite items = true) :
    ∀ v ∈ items, v.isFinite = true := by
  induction items with
  | nil => simp
  | cons v vs ih =>
    rw [areFinite, Bool.and_eq_true] at h
    intro u hu
    rcases List.mem_cons.mp hu with rfl | hu
    · exact h.1
    · exact ih h.2 u hu

theorem isFinite_of_haveFinite {entries : Entries} (h : haveFinite entries = true) {key : String}
    {v : Value} (hv : Entries.find? key entries = some v) : v.isFinite = true := by
  induction entries with
  | nil => simp [Entries.find?] at hv
  | cons e rest ih =>
    rw [haveFinite, Bool.and_eq_true] at h
    rw [Entries.find?] at hv
    split at hv
    · obtain rfl := Option.some.inj hv
      exact h.1
    · exact ih h.2 hv

/-- What lies one segment below a value with finite numbers has finite numbers. -/
theorem isFinite_of_child? {v u : Value} (h : v.isFinite = true) {segment : String}
    (hu : v.child? segment = some u) : u.isFinite = true := by
  cases v with
  | object entries =>
    rw [isFinite] at h
    exact isFinite_of_haveFinite h hu
  | array items =>
    rw [isFinite] at h
    obtain ⟨n, -, hitem⟩ := Option.bind_eq_some_iff.mp hu
    exact isFinite_of_areFinite h u (List.mem_of_getElem? hitem)
  | _ => simp [child?] at hu

theorem isFinite_of_lookup? {v u : Value} (h : v.isFinite = true) {segments : List String}
    (hu : v.lookup? segments = some u) : u.isFinite = true := by
  induction segments generalizing v with
  | nil =>
    obtain rfl : v = u := Option.some.inj hu
    exact h
  | cons segment rest ih =>
    rw [lookup?, Option.bind_eq_some_iff] at hu
    obtain ⟨c, hc, hrest⟩ := hu
    exact ih (isFinite_of_child? h hc) hrest

end Value

/-! ## Primitive values -/

namespace Primitive

/-- A configured number is finite as a primitive value. -/
theorem isNonFinite_of_ofValue? {v : Value} (h : v.isFinite = true) {x : Primitive}
    (hx : ofValue? v = some x) : x.isNonFinite = false := by
  cases v with
  | integer n =>
    obtain rfl : .number (Float.ofInt n) = x := Option.some.inj hx
    rw [Value.isFinite, Bool.and_eq_true, decide_eq_true_eq, decide_eq_true_eq] at h
    rw [isNonFinite, Double.isFinite_ofInt h.1 h.2]
    rfl
  | double d =>
    obtain rfl : .number d = x := Option.some.inj hx
    rw [Value.isFinite] at h
    rw [isNonFinite, h]
    rfl
  | array items => simp [ofValue?] at hx
  | object entries => simp [ofValue?] at hx
  | _ =>
    obtain rfl := Option.some.inj hx
    rfl

/-- The words for numbers that are not finite. -/
def nonFiniteWords : List String :=
  ["NaN", "Infinity", "-Infinity"]

/-- The literal of any other value is none of these words, in parentheses or without. -/
theorem literal_ne_word {v : Primitive} (h : v.isNonFinite = false) {word : String}
    (hword : word ∈ nonFiniteWords ++ nonFiniteWords.map fun w => "(" ++ w ++ ")") :
    v.literal ≠ word := by
  intro heq
  subst heq
  cases v with
  | number x =>
    -- A word has a letter that no finite number is written with.
    have hletter : ∀ w ∈ nonFiniteWords ++ nonFiniteWords.map fun w => "(" ++ w ++ ")",
        'N' ∈ w.toList ∨ 'I' ∈ w.toList := by decide
    have hfinite : x.isFinite = true := by simpa [isNonFinite] using h
    obtain ⟨negative, m, q, hparts⟩ := Double.parts_of_isFinite hfinite
    rcases hletter _ hword with hc | hc
    · exact absurd (mem_numberLiteral_of_finite hparts hc) (by decide)
    · exact absurd (mem_numberLiteral_of_finite hparts hc) (by decide)
  | string s =>
    have hquote : ∀ w ∈ nonFiniteWords ++ nonFiniteWords.map fun w => "(" ++ w ++ ")",
        w.toList.head? ≠ some '"' := by decide
    exact hquote _ hword (by simp [literal, quote, quoteChars])
  | bool b => cases b <;> revert hword <;> decide
  | _ => revert hword; decide

end Primitive

end DefineFold
