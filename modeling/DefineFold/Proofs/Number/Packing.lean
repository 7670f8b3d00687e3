/-
  DefineFold.Proofs.Number.Packing

  Which doubles are no NaN. Packing keeps a sign, and what is not a NaN stays none (`HasSign`). The
  doubles with a positive sign, infinity among them, are closed under sums and under products and
  quotients with a finite number above zero (`IsCount`), and so every decimal that is read is one
  (`isCount_decimalValue`).
-/

import Mathlib
import DefineFold.Number.Decimal

namespace DefineFold

namespace Double

open Float.Model

/-! ## Packing -/

/-- No NaN, and with the given sign. -/
def HasSign (sign : UnpackedFloat.Sign) : UnpackedFloat → Prop
  | .infinity own => own = sign
  | .notANumber => False
  | .zero own => own = sign
  | .finite own _ _ _ => own = sign

/-- Only a full exponent with a mantissa beside it is unpacked as a NaN. -/
theorem hasSign_unpack (sign : UnpackedFloat.Sign) {exponent : BitVec 11} {mantissa : BitVec 52}
    (h : exponent = -1#11 → mantissa = 0#52) :
    HasSign sign (UnpackedFloat.unpack .binary64
      (UnpackedFloat.packComponents .binary64 sign exponent mantissa)) := by
  simp only [UnpackedFloat.unpack, UnpackedFloat.unpackMantissa_packComponents,
    UnpackedFloat.unpackExponent_packComponents, UnpackedFloat.unpackSign_packComponents,
    UnpackedFloat.Sign.ofBitVec_toBitVec]
  by_cases hfull : exponent = -1#11
  · rw [if_pos hfull, if_pos (h hfull)]
    rfl
  · rw [if_neg hfull]
    split
    · split
      · rfl
      · rfl
    · rfl

/-- Packing makes no NaN and keeps the sign. -/
theorem HasSign.unpack_pack {sign : UnpackedFloat.Sign} {u : UnpackedFloat} (h : HasSign sign u) :
    HasSign sign (UnpackedFloat.unpack .binary64 (UnpackedFloat.pack .binary64 u)) := by
  cases u with
  | notANumber => exact h.elim
  | infinity own =>
    obtain rfl : own = sign := h
    exact hasSign_unpack own fun _ => rfl
  | zero own =>
    obtain rfl : own = sign := h
    exact hasSign_unpack own fun _ => rfl
  | finite own m e hm =>
    obtain rfl : own = sign := h
    simp only [UnpackedFloat.pack]
    split
    · exact hasSign_unpack own fun _ => rfl
    · rename_i hfits
      split
      · -- An exponent that fits is not the full one.
        refine hasSign_unpack own fun hfull => ?_
        have hnat := congrArg BitVec.toNat hfull
        simp only [BitVec.toNat_ofNat, BitVec.reduceNeg] at hnat
        omega
      · exact hasSign_unpack own fun hfull => absurd hfull (by decide)

/-! ## Operations -/

theorem hasSign_roundWithAccuracy (sign : UnpackedFloat.Sign) (m : Nat) (e : Int)
    (accuracy : UnpackedFloat.Accuracy) :
    HasSign sign (UnpackedFloat.roundWithAccuracy .binary64 sign m e accuracy) := by
  rw [UnpackedFloat.roundWithAccuracy]
  simp only
  split
  · rfl
  · rfl

theorem hasSign_normalize {m : Int} (hm : 0 ≤ m) (e : Int) :
    HasSign .positive (UnpackedFloat.normalize .binary64 m e .positive) := by
  rw [UnpackedFloat.normalize]
  split
  · rename_i hlt
    rw [Int.compare_eq_lt] at hlt
    omega
  · rfl
  · exact hasSign_roundWithAccuracy _ _ _ _

section

variable {u v : UnpackedFloat} {m : Nat} {e : Int} {hm : 0 < m}

theorem HasSign.neg {sign : UnpackedFloat.Sign} (h : HasSign sign u) : HasSign (-sign) u.neg := by
  cases u <;> simp only [HasSign] at h <;> subst_vars
  all_goals rfl

theorem HasSign.add (hu : HasSign .positive u) (hv : HasSign .positive v) :
    HasSign .positive (UnpackedFloat.add .binary64 u v) := by
  cases u <;> cases v <;> simp only [HasSign] at hu hv <;> subst_vars
  case finite.finite =>
    exact hasSign_normalize (Int.add_nonneg (Int.natCast_nonneg _) (Int.natCast_nonneg _)) _
  all_goals rfl

theorem HasSign.mul_finite (hu : HasSign .positive u) :
    HasSign .positive (UnpackedFloat.mul .binary64 u (.finite .positive m e hm)) := by
  cases u <;> simp only [HasSign] at hu <;> subst_vars
  case finite => exact hasSign_roundWithAccuracy _ _ _ _
  all_goals rfl

theorem HasSign.div_finite (hu : HasSign .positive u) :
    HasSign .positive (UnpackedFloat.div .binary64 u (.finite .positive m e hm)) := by
  cases u <;> simp only [HasSign] at hu <;> subst_vars
  case finite => exact hasSign_roundWithAccuracy _ _ _ _
  all_goals rfl

end

theorem hasSign_ofScientific (m : Nat) (e : Int) :
    HasSign .positive (UnpackedFloat.ofScientific .binary64 m e) := by
  rw [UnpackedFloat.ofScientific]
  split
  · rfl
  · rename_i hm
    split
    · rfl
    · split
      · rfl
      · split
        · exact HasSign.mul_finite (u := .finite _ _ _ _) rfl
        · exact HasSign.div_finite (u := .finite _ _ _ _) rfl

/-! ## Doubles -/

theorem isNaN_eq_false_iff {x : Float} :
    x.isNaN = false ↔ ∃ sign, HasSign sign x.toModel.unpack := by
  show x.toModel.unpack.isNaN = false ↔ _
  cases x.toModel.unpack with
  | notANumber => simp [UnpackedFloat.isNaN, HasSign]
  | infinity sign => exact ⟨fun _ => ⟨sign, rfl⟩, fun _ => rfl⟩
  | zero sign => exact ⟨fun _ => ⟨sign, rfl⟩, fun _ => rfl⟩
  | finite sign m e hm => exact ⟨fun _ => ⟨sign, rfl⟩, fun _ => rfl⟩

theorem isNaN_applySign {x : Float} (h : x.isNaN = false) (negative : Bool) :
    (applySign negative x).isNaN = false := by
  cases negative with
  | false => exact h
  | true =>
    obtain ⟨sign, hsign⟩ := isNaN_eq_false_iff.mp h
    exact isNaN_eq_false_iff.mpr ⟨-sign, hsign.neg.unpack_pack⟩

/-- What digits without a sign can write: zero, more, or infinity. -/
def IsCount (x : Float) : Prop :=
  HasSign .positive x.toModel.unpack

theorem IsCount.isNaN_eq_false {x : Float} (h : IsCount x) : x.isNaN = false :=
  isNaN_eq_false_iff.mpr ⟨.positive, h⟩

/-- Finite and above zero. -/
def isFactor : UnpackedFloat → Bool
  | .finite .positive _ _ _ => true
  | _ => false

/-- A finite double above zero. -/
def IsFactor (x : Float) : Prop :=
  isFactor x.toModel.unpack = true

theorem IsFactor.exists_finite {x : Float} (h : IsFactor x) :
    ∃ m e hm, x.toModel.unpack = .finite .positive m e hm := by
  rw [IsFactor] at h
  cases hu : x.toModel.unpack with
  | finite sign m e hm =>
    cases sign with
    | positive => exact ⟨m, e, hm, rfl⟩
    | negative => simp [hu, isFactor] at h
  | _ => simp [hu, isFactor] at h

section

variable {x y : Float}

theorem IsCount.add (hx : IsCount x) (hy : IsCount y) : IsCount (x + y) :=
  HasSign.unpack_pack (HasSign.add hx hy)

theorem IsCount.mul (hx : IsCount x) (hy : IsFactor y) : IsCount (x * y) := by
  obtain ⟨m, e, hm, hy⟩ := hy.exists_finite
  apply HasSign.unpack_pack
  rw [hy]
  exact HasSign.mul_finite hx

theorem IsCount.div (hx : IsCount x) (hy : IsFactor y) : IsCount (x / y) := by
  obtain ⟨m, e, hm, hy⟩ := hy.exists_finite
  apply HasSign.unpack_pack
  rw [hy]
  exact HasSign.div_finite hx

end

theorem isCount_toFloat (n : UInt64) : IsCount n.toFloat :=
  HasSign.unpack_pack (hasSign_normalize (Int.natCast_nonneg _) _)

theorem isFactor_powerOfTen :
    ∀ i : Fin 23, IsFactor (Float.exactlyRepresentablePowersOfTen.getD i 0.0) := by
  unfold IsFactor
  decide

theorem isCount_ofScientific (m : Nat) (negative : Bool) (e : Nat) :
    IsCount (Float.ofScientific m negative e) := by
  rw [Float.ofScientific]
  split
  · rename_i hsmall
    have hpower := isFactor_powerOfTen ⟨e, by omega⟩
    have hsize : e < Float.exactlyRepresentablePowersOfTen.size := by
      show e < 23
      omega
    rw [Array.getD, dif_pos hsize] at hpower
    have hcount := isCount_toFloat m.toUInt64
    cases negative with
    | true => exact hcount.div hpower
    | false => exact hcount.mul hpower
  · exact (hasSign_ofScientific m _).unpack_pack

theorem isCount_decimalValue (m : Nat) (e : Int) : IsCount (decimalValue m e) := by
  rw [decimalValue]
  split
  · exact isCount_ofScientific 0 true 1
  · split
    · exact HasSign.unpack_pack (u := .infinity .positive) rfl
    · split
      · exact isCount_ofScientific 0 true 1
      · split
        · exact isCount_ofScientific m true _
        · exact isCount_ofScientific m false _

end Double

end DefineFold
