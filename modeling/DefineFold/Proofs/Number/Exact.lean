/-
  DefineFold.Proofs.Number.Exact

  The numbers that doubles stand for. A finite double is a rational number (`rational?`), read off
  what the arithmetic on doubles unpacks; the parts that are read off the bits are the same
  (`parts_eq`). So truncation takes the exact number to the next integer on the way to zero
  (`truncate_eq_wholePart`), however large or small it is. Integers below `2 ^ 53` are doubles
  without rounding (`rational?_ofInt`).
-/

import DefineFold.Proofs.Number.Rounding

namespace DefineFold

namespace Double

open Float.Model

/-! ## Bits -/

theorem toNat_unpackExponent (b : BitVec 64) :
    (@UnpackedFloat.unpackExponent .binary64 b).toNat = b.toNat / 2 ^ 52 % 2 ^ 11 := by
  simp [UnpackedFloat.unpackExponent, BitVec.extractLsb_toNat, Nat.shiftRight_eq_div_pow]

theorem toNat_unpackMantissa (b : BitVec 64) :
    (@UnpackedFloat.unpackMantissa .binary64 b).toNat = b.toNat % 2 ^ 52 := by
  simp [UnpackedFloat.unpackMantissa, BitVec.extractLsb_toNat]

theorem toNat_unpackSign (b : BitVec 64) :
    (@UnpackedFloat.unpackSign .binary64 b).toNat = b.toNat / 2 ^ 63 := by
  have hlt := b.isLt
  simp only [UnpackedFloat.unpackSign, BitVec.toNat_cast, BitVec.extractLsb_toNat,
    Nat.shiftRight_eq_div_pow]
  omega

/-- Whether a sign is a minus. -/
def isMinus : UnpackedFloat.Sign → Bool
  | .negative => true
  | .positive => false

theorem isMinus_unpackSign (b : BitVec 64) :
    isMinus (.ofBitVec (@UnpackedFloat.unpackSign .binary64 b)) =
      decide (2 ^ 63 ≤ b.toNat) := by
  have hsign := toNat_unpackSign b
  have hzero : @UnpackedFloat.unpackSign .binary64 b = 0#1 ↔ b.toNat / 2 ^ 63 = 0 := by
    rw [← hsign]
    exact BitVec.toNat_eq
  rw [UnpackedFloat.Sign.ofBitVec]
  simp only [hzero]
  split
  · exact (decide_eq_false (by omega)).symm
  · exact (decide_eq_true (by omega)).symm

/-- The first bit of a mantissa is not written. -/
theorem toNat_one_append (m : BitVec 52) : (1#1 ++ m).toNat = 2 ^ 52 + m.toNat := by
  rw [BitVec.toNat_append, ← Nat.shiftLeft_add_eq_or_of_lt m.isLt, Nat.shiftLeft_eq]
  rfl

/-- The parts of a double that has been unpacked. -/
def partsOf : UnpackedFloat → DoubleParts
  | .notANumber => .nan
  | .infinity sign => .infinite (isMinus sign)
  | .zero sign => .finite (isMinus sign) 0 (-1074)
  | .finite sign m e _ => .finite (isMinus sign) m e

/-- The parts that are read off the bits are those with which doubles are computed. -/
theorem parts_eq (x : Float) : parts x = partsOf x.toModel.unpack := by
  obtain ⟨b, hb⟩ : ∃ b, x.toModel.toBits.toBitVec = b := ⟨_, rfl⟩
  have hbits : x.toBits.toNat = b.toNat := by
    rw [← hb]
    rfl
  have hunpack : x.toModel.unpack = UnpackedFloat.unpack .binary64 b := by
    rw [← hb]
    rfl
  -- The questions that are asked about the fields, as questions about numbers.
  have hfull : @UnpackedFloat.unpackExponent .binary64 b = -1#11 ↔
      b.toNat / 2 ^ 52 % 2 ^ 11 = 2047 := by
    rw [← toNat_unpackExponent]
    exact BitVec.toNat_eq
  have hnone : @UnpackedFloat.unpackExponent .binary64 b = 0#11 ↔
      b.toNat / 2 ^ 52 % 2 ^ 11 = 0 := by
    rw [← toNat_unpackExponent]
    exact BitVec.toNat_eq
  have hzero : @UnpackedFloat.unpackMantissa .binary64 b = 0#52 ↔
      b.toNat % 2 ^ 52 = 0 := by
    rw [← toNat_unpackMantissa]
    exact BitVec.toNat_eq
  rw [hunpack, parts, hbits]
  simp only [UnpackedFloat.unpack, hfull, hnone, hzero, Nat.pow_eq, toNat_one_append,
    toNat_unpackExponent, toNat_unpackMantissa]
  split
  · split <;> simp only [partsOf, isMinus_unpackSign]
  · split
    · rename_i hexponent
      split
      · rename_i hmantissa
        simp only [partsOf, isMinus_unpackSign, hmantissa]
      · simp [partsOf, isMinus_unpackSign, Format.exponentBias, hexponent]
    · simp only [partsOf, isMinus_unpackSign]
      simp [Format.exponentBias]

/-! ## Exact numbers -/

/-- The number that a double stands for. An infinity or a NaN stands for none. -/
def rational? (x : Float) : Option ℚ :=
  match x.toModel.unpack with
  | .zero _ => some 0
  | .finite sign m e _ => some (sign.apply m * 2 ^ e)
  | _ => none

/-- The integer next to a number on the way to zero. -/
def towardZero (q : ℚ) : ℤ :=
  if 0 ≤ q then ⌊q⌋ else ⌈q⌉

/-- The integer next to a double on the way to zero; zero if the double stands for no number. -/
def wholePart (x : Float) : ℤ :=
  (rational? x).elim 0 towardZero

/-- The integer between zero and the number that is nearest to it, from the parts of the number;
    zero if it is not finite. -/
def truncate (x : Float) : Int :=
  match parts x with
  | .finite negative m e =>
    withSign negative (if 0 ≤ e then m * Nat.pow 2 e.toNat else m / Nat.pow 2 (-e).toNat)
  | _ => 0

theorem towardZero_neg (q : ℚ) : towardZero (-q) = -towardZero q := by
  rw [towardZero, towardZero]
  rcases lt_trichotomy q 0 with h | rfl | h
  · rw [if_pos (by linarith), if_neg (by linarith), Int.floor_neg]
  · simp
  · rw [if_neg (by linarith), if_pos (le_of_lt h), Int.ceil_neg]

theorem towardZero_mul_two_pow (m : ℕ) (e : ℤ) :
    towardZero (m * 2 ^ e) =
      ((if 0 ≤ e then m * 2 ^ e.toNat else m / 2 ^ (-e).toNat : ℕ) : ℤ) := by
  have hnonneg : (0 : ℚ) ≤ m * 2 ^ e := by positivity
  rw [towardZero, if_pos hnonneg]
  split
  · rename_i he
    obtain ⟨k, rfl⟩ := Int.eq_ofNat_of_zero_le he
    rw [zpow_natCast, Int.toNat_natCast]
    exact_mod_cast Int.floor_natCast (m * 2 ^ k)
  · rename_i he
    obtain ⟨k, rfl⟩ : ∃ k : ℕ, e = -k := ⟨(-e).toNat, by omega⟩
    rw [zpow_neg, zpow_natCast, ← div_eq_mul_inv, neg_neg, Int.toNat_natCast]
    exact_mod_cast Rat.floor_natCast_div_natCast m (2 ^ k)

/-- Bits are cut off the same way on both sides of zero. -/
theorem withSign_towardZero (negative : Bool) (m : ℕ) (e : ℤ) :
    withSign negative (if 0 ≤ e then m * Nat.pow 2 e.toNat else m / Nat.pow 2 (-e).toNat) =
      towardZero (withSign negative m * 2 ^ e) := by
  cases negative with
  | false =>
    show _ = towardZero (((m : ℤ) : ℚ) * 2 ^ e)
    rw [Int.cast_natCast, towardZero_mul_two_pow]
    rfl
  | true =>
    show _ = towardZero (((-m : ℤ) : ℚ) * 2 ^ e)
    rw [Int.cast_neg, Int.cast_natCast, neg_mul, towardZero_neg, towardZero_mul_two_pow]
    rfl

theorem truncate_eq_wholePart (x : Float) : truncate x = wholePart x := by
  rw [truncate, parts_eq, wholePart, rational?]
  cases x.toModel.unpack with
  | notANumber => rfl
  | infinity sign => rfl
  | zero sign =>
    have hzero : withSign (isMinus sign) 0 = 0 := by cases sign <;> rfl
    simp only [partsOf, withSign_towardZero, hzero, Option.elim_some]
    rw [Int.cast_zero, zero_mul]
  | finite sign m e hm =>
    have hsign : withSign (isMinus sign) m = sign.apply m := by cases sign <;> rfl
    simp only [partsOf, withSign_towardZero, hsign, Option.elim_some]

/-! ## Integers as doubles -/

theorem significand_mul_zpow {n : ℕ} (h : IsExact n) :
    (significand n : ℚ) * 2 ^ ((n.log2 : ℤ) - 52) = n := by
  have hmul : (significand n : ℚ) * 2 ^ n.log2 = n * 2 ^ 52 := by exact_mod_cast h.significand_mul
  rw [zpow_sub₀ (by norm_num), zpow_natCast, ← mul_div_assoc, hmul]
  norm_num

section

variable {n : ℕ}

theorem rational?_nearest (h : n < 2 ^ 53) : rational? (nearest n) = some (n : ℚ) := by
  rcases Nat.eq_zero_or_pos n with rfl | hn
  · rfl
  · have hlog : n.log2 < 53 := log2_lt_of_lt (by decide) h
    have hexact := isExact_of_lt h
    rw [rational?, unpack_nearest hn (by omega), hexact.nearestParts_eq hn]
    show some (((significand n : ℤ) : ℚ) * 2 ^ ((n.log2 : ℤ) - 52)) = _
    rw [Int.cast_natCast, significand_mul_zpow hexact]

theorem unpack_neg_nearest (h : n < 2 ^ 53) (hn : 0 < n) :
    (-nearest n).toModel.unpack =
      .finite .negative (significand n) (n.log2 - 52) (significand_pos hn) := by
  have hlog : n.log2 < 53 := log2_lt_of_lt (by decide) h
  have hexact := isExact_of_lt h
  have hlow := (significand_bounds (Nat.ne_of_gt hn)).1
  show UnpackedFloat.unpack _ (UnpackedFloat.pack _ (nearest n).toModel.unpack.neg) = _
  rw [unpack_nearest hn (by omega), hexact.nearestParts_eq hn]
  exact unpack_pack_finite .negative _ hlow hexact.significand_lt (by omega) (by omega)

theorem rational?_neg_nearest (h : n < 2 ^ 53) (hn : 0 < n) :
    rational? (-nearest n) = some (-n : ℚ) := by
  rw [rational?, unpack_neg_nearest h hn]
  show some (((-(significand n : ℤ) : ℤ) : ℚ) * 2 ^ ((n.log2 : ℤ) - 52)) = _
  rw [Int.cast_neg, Int.cast_natCast, neg_mul, significand_mul_zpow (isExact_of_lt h)]

end

theorem rational?_ofNat {n : ℕ} (h : n < 2 ^ 53) : rational? (Float.ofNat n) = some (n : ℚ) := by
  rw [ofNat_eq_nearest, rational?_nearest h]

theorem rational?_ofInt {z : ℤ} (h : z.natAbs < 2 ^ 53) :
    rational? (Float.ofInt z) = some (z : ℚ) := by
  cases z with
  | ofNat n => exact rational?_ofNat h
  | negSucc n =>
    have hlt : n + 1 < 2 ^ 53 := h
    show rational? (-Float.ofNat (n + 1)) = _
    rw [ofNat_eq_nearest, rational?_neg_nearest hlt (Nat.succ_pos n), Int.negSucc_eq]
    push_cast
    rfl

end Double

end DefineFold
