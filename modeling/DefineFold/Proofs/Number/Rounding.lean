/-
  DefineFold.Proofs.Number.Rounding

  Natural numbers as doubles. `nearest n` is the double of a number, which has its first 53 bits
  with the rest rounded off, a half going to the even neighbour (`significand`). Sums and products
  of numbers that doubles can be are the doubles nearest to the sums and products (`nearest_add`,
  `nearest_mul`). Rounding a number before more bits are put behind it is the same as rounding with
  the bits there, but for one case, a half that would have gone down (`nearest_append_iff`).
-/

import DefineFold.Proofs.Number.Packing

namespace DefineFold

namespace Double

open Float.Model
open UnpackedFloat (ExtendedMantissa)

/-! ## Halves -/

/-- `n / 2 ^ k` to the nearest number, a half to the even one. -/
def halfEven (n k : Nat) : Nat :=
  if 2 * (n % 2 ^ k) < 2 ^ k then n / 2 ^ k
  else if 2 * (n % 2 ^ k) = 2 ^ k then n / 2 ^ k + n / 2 ^ k % 2
  else n / 2 ^ k + 1

theorem halfEven_mul_two_pow (n k j : Nat) : halfEven (n * 2 ^ j) (k + j) = halfEven n k := by
  have hpow : 0 < 2 ^ j := Nat.two_pow_pos j
  have hdiv : n * 2 ^ j / 2 ^ (k + j) = n / 2 ^ k := by
    rw [Nat.pow_add, Nat.mul_div_mul_right _ _ hpow]
  have hmod : 2 * (n * 2 ^ j % 2 ^ (k + j)) = 2 * (n % 2 ^ k) * 2 ^ j := by
    rw [Nat.pow_add, Nat.mul_mod_mul_right, Nat.mul_assoc]
  have hlt : 2 * (n % 2 ^ k) * 2 ^ j < 2 ^ k * 2 ^ j ↔ 2 * (n % 2 ^ k) < 2 ^ k :=
    Nat.mul_lt_mul_right hpow
  have heq : 2 * (n % 2 ^ k) * 2 ^ j = 2 ^ k * 2 ^ j ↔ 2 * (n % 2 ^ k) = 2 ^ k :=
    Nat.mul_left_inj (Nat.ne_of_gt hpow)
  rw [halfEven, halfEven, hdiv, hmod, Nat.pow_add]
  simp only [hlt, heq]

theorem halfEven_bounds (n k : Nat) :
    n / 2 ^ k ≤ halfEven n k ∧ halfEven n k ≤ n / 2 ^ k + 1 := by
  rw [halfEven]
  split
  · omega
  · split <;> omega

theorem le_or_mod_ne_zero_iff {r p : Nat} (h : r < p) :
    p ≤ 2 * r ∨ 2 * r % p ≠ 0 ↔ 2 * r ≠ 0 := by
  by_cases hhalf : p ≤ 2 * r
  · exact ⟨fun _ => by omega, fun _ => .inl hhalf⟩
  · rw [Nat.mod_eq_of_lt (Nat.lt_of_not_le hhalf)]
    exact ⟨fun h => h.resolve_left hhalf, .inr⟩

/-- What is shifted out is kept as far as rounding has to know it. -/
theorem shiftRight_exact (n k : Nat) :
    ExtendedMantissa.ofMantissaAndAccuracy n .exact >>> k =
      ⟨n / 2 ^ k, decide (2 ^ k ≤ 2 * (n % 2 ^ k)), decide (2 * (n % 2 ^ k) % 2 ^ k ≠ 0)⟩ := by
  show k.repeat ExtendedMantissa.shiftRightOne _ = _
  induction k with
  | zero => simp [Nat.repeat, ExtendedMantissa.ofMantissaAndAccuracy, Nat.mod_one]
  | succ k ih =>
    have hpow : 0 < 2 ^ k := Nat.two_pow_pos k
    have hmod := Nat.mod_lt n hpow
    have hnext : n % 2 ^ (k + 1) = n % 2 ^ k + 2 ^ k * (n / 2 ^ k % 2) := by
      rw [Nat.pow_succ, Nat.mod_mul]
    have hdouble : 2 * (n % 2 ^ (k + 1)) % 2 ^ (k + 1) = 2 * (n % 2 ^ k) := by
      rw [Nat.pow_succ, Nat.mul_comm (2 ^ k) 2, Nat.mul_mod_mul_left, ← Nat.mul_comm (2 ^ k) 2,
        Nat.mod_mul_right_mod]
    rw [Nat.repeat, ih, ExtendedMantissa.shiftRightOne, hdouble, hnext, Nat.pow_succ,
      ← Nat.div_div_eq_div_mul]
    have hbit : (n / 2 ^ k % 2 != 0) =
        decide (2 ^ k * 2 ≤ 2 * (n % 2 ^ k + 2 ^ k * (n / 2 ^ k % 2))) := by
      rcases Nat.mod_two_eq_zero_or_one (n / 2 ^ k) with hbit | hbit
      · rw [hbit]
        exact (decide_eq_false (by omega)).symm
      · rw [hbit]
        exact (decide_eq_true (by omega)).symm
    have hsticky := le_or_mod_ne_zero_iff hmod
    rw [hbit, ← Bool.decide_or, decide_eq_decide.mpr hsticky]

theorem roundedMantissa_shiftRight (n k : Nat) :
    (ExtendedMantissa.ofMantissaAndAccuracy n .exact >>> k).roundedMantissa = halfEven n k := by
  have hmod := Nat.mod_lt n (Nat.two_pow_pos k)
  rw [shiftRight_exact, halfEven]
  by_cases hlt : 2 * (n % 2 ^ k) < 2 ^ k
  · have hround : decide (2 ^ k ≤ 2 * (n % 2 ^ k)) = false := by
      simpa using hlt
    rw [if_pos hlt, hround]
    cases decide (2 * (n % 2 ^ k) % 2 ^ k ≠ 0) <;> rfl
  · have hround : decide (2 ^ k ≤ 2 * (n % 2 ^ k)) = true := by
      simpa using hlt
    rw [if_neg hlt, hround]
    by_cases heq : 2 * (n % 2 ^ k) = 2 ^ k
    · rw [if_pos heq, heq, Nat.mod_self]
      rfl
    · have hsticky : 2 * (n % 2 ^ k) % 2 ^ k ≠ 0 := by
        rw [Nat.mod_eq_sub_mod (by omega), Nat.mod_eq_of_lt (by omega)]
        omega
      rw [if_neg heq, decide_eq_true hsticky]
      rfl

/-! ## Rounding -/

theorem log2_lt_of_lt {n k : Nat} (hk : 0 < k) (h : n < 2 ^ k) : n.log2 < k := by
  by_cases hn : n = 0
  · rw [hn, Nat.log2_zero]
    exact hk
  · exact (Nat.log2_lt hn).mpr h

theorem ne_zero_of_log2 {n : Nat} (h : 0 < n.log2) : n ≠ 0 := by
  rintro rfl
  simp at h

theorem log2_mul_two_pow {n : Nat} (hn : n ≠ 0) (k : Nat) : (n * 2 ^ k).log2 = n.log2 + k := by
  have hpow : 0 < 2 ^ k := Nat.two_pow_pos k
  rw [Nat.log2_eq_iff (Nat.mul_ne_zero hn (Nat.ne_of_gt hpow)), Nat.pow_add,
    Nat.add_right_comm n.log2 k 1, Nat.pow_add 2 (n.log2 + 1) k]
  exact ⟨Nat.mul_le_mul_right _ (Nat.log2_self_le hn),
    Nat.mul_lt_mul_of_pos_right Nat.lt_log2_self hpow⟩

theorem mul_two_pow_lt (n : Nat) : n * 2 ^ 52 < 2 ^ 53 * 2 ^ n.log2 := by
  have hpow : 2 ^ (n.log2 + 1) * 2 ^ 52 = 2 ^ 53 * 2 ^ n.log2 := by
    rw [← Nat.pow_add, ← Nat.pow_add, Nat.add_assoc, Nat.add_comm]
  rw [← hpow]
  exact Nat.mul_lt_mul_of_pos_right Nat.lt_log2_self (Nat.two_pow_pos 52)

/-- The 53 bits of a number above zero that a double keeps, or one more than they can be. -/
def significand (n : Nat) : Nat :=
  halfEven (n * 2 ^ 52) n.log2

theorem significand_mul_two_pow {n : Nat} (hn : n ≠ 0) (k : Nat) :
    significand (n * 2 ^ k) = significand n := by
  rw [significand, log2_mul_two_pow hn, Nat.mul_right_comm, halfEven_mul_two_pow, significand]

theorem significand_eq_halfEven {n : Nat} (h : 52 ≤ n.log2) :
    significand n = halfEven n (n.log2 - 52) := by
  obtain ⟨k, hk⟩ : ∃ k, n.log2 = k + 52 := ⟨n.log2 - 52, by omega⟩
  rw [significand, hk, halfEven_mul_two_pow, Nat.add_sub_cancel]

theorem significand_bounds {n : Nat} (hn : n ≠ 0) :
    2 ^ 52 ≤ significand n ∧ significand n ≤ 2 ^ 53 := by
  have hpow : 0 < 2 ^ n.log2 := Nat.two_pow_pos _
  obtain ⟨hlow, hhigh⟩ := halfEven_bounds (n * 2 ^ 52) n.log2
  have hfloor : 2 ^ 52 ≤ n * 2 ^ 52 / 2 ^ n.log2 := by
    rw [Nat.le_div_iff_mul_le hpow, Nat.mul_comm]
    exact Nat.mul_le_mul_right _ (Nat.log2_self_le hn)
  have hceil : n * 2 ^ 52 / 2 ^ n.log2 < 2 ^ 53 := by
    rw [Nat.div_lt_iff_lt_mul hpow]
    exact mul_two_pow_lt n
  rw [significand]
  omega

/-- A mantissa with one bit too many is halved. -/
def carry (sign : UnpackedFloat.Sign) (m : Nat) (e : Int) (hm : 0 < m) : UnpackedFloat :=
  if m < 2 ^ 53 then .finite sign m e hm else .finite sign (2 ^ 52) (e + 1) (by decide)

theorem shiftToTargetExponent_of_lt {m : Nat} {e : Int} (hm : m < 2 ^ 53) (he : -1074 ≤ e) :
    UnpackedFloat.shiftToTargetExponent .binary64 m e .exact = (⟨m, false, false⟩, e) := by
  have hlog : m.log2 < 53 := log2_lt_of_lt (by decide) hm
  have hshift : (Format.binary64.targetExponent (totalExponent m e) - e).toNat = 0 := by
    simp only [Format.targetExponent, totalExponent, Format.mantissaBits, Format.minExponent]
    omega
  simp only [UnpackedFloat.shiftToTargetExponent, UnpackedFloat.shiftToExponent, hshift]
  simp [shiftRight_exact, Nat.mod_one]

theorem shiftToTargetExponent_two_pow {e : Int} (he : -1074 ≤ e) :
    UnpackedFloat.shiftToTargetExponent .binary64 (2 ^ 53) e .exact =
      (⟨2 ^ 52, false, false⟩, e + 1) := by
  have hshift : (Format.binary64.targetExponent (totalExponent (2 ^ 53) e) - e).toNat = 1 := by
    simp only [Format.targetExponent, totalExponent, Format.mantissaBits, Format.minExponent,
      Nat.log2_two_pow]
    omega
  simp only [UnpackedFloat.shiftToTargetExponent, UnpackedFloat.shiftToExponent, hshift,
    shiftRight_exact]
  rfl

/-- Rounding a number that is not too small and has bits enough. -/
theorem roundWithAccuracy_exact (sign : UnpackedFloat.Sign) {m : Nat} {e : Int}
    (hm : 52 ≤ m.log2) (he : -1022 ≤ e + m.log2) (hpos : 0 < significand m) :
    UnpackedFloat.roundWithAccuracy .binary64 sign m e .exact =
      carry sign (significand m) (e + m.log2 - 52) hpos := by
  have hne : m ≠ 0 := ne_zero_of_log2 (by omega)
  have hshift : (Format.binary64.targetExponent (totalExponent m e) - e).toNat = m.log2 - 52 := by
    simp only [Format.targetExponent, totalExponent, Format.mantissaBits, Format.minExponent]
    omega
  have hexp : e + ((m.log2 - 52 : Nat) : Int) = e + m.log2 - 52 := by omega
  -- The bits behind the first 53 are shifted out, and the mantissa is rounded by them.
  have hfirst : UnpackedFloat.shiftToTargetExponent .binary64 m e .exact =
      (ExtendedMantissa.ofMantissaAndAccuracy m .exact >>> (m.log2 - 52), e + m.log2 - 52) := by
    simp only [UnpackedFloat.shiftToTargetExponent, UnpackedFloat.shiftToExponent, hshift, hexp]
  obtain ⟨hlow, hhigh⟩ := significand_bounds hne
  simp only [UnpackedFloat.roundWithAccuracy, hfirst, roundedMantissa_shiftRight,
    ← significand_eq_halfEven hm]
  rw [carry]
  -- The second shift undoes a carry and does nothing without one.
  by_cases hlt : significand m < 2 ^ 53
  · simp only [shiftToTargetExponent_of_lt hlt (show -1074 ≤ e + m.log2 - 52 by omega),
      Nat.ne_of_gt hpos, hlt, dite_false, if_true]
  · have hmax : significand m = 2 ^ 53 := by omega
    simp only [hmax, shiftToTargetExponent_two_pow (show -1074 ≤ e + m.log2 - 52 by omega)]
    rfl

theorem significand_pos {n : Nat} (hn : 0 < n) : 0 < significand n :=
  Nat.lt_of_lt_of_le (by decide) (significand_bounds (Nat.ne_of_gt hn)).1

/-- Rounding a number that is not too small. -/
theorem round_eq (sign : UnpackedFloat.Sign) {m : Nat} {e : Int} (hm : 0 < m)
    (he : -1022 ≤ e + m.log2) :
    UnpackedFloat.round .binary64 sign m e =
      carry sign (significand m) (e + m.log2 - 52) (significand_pos hm) := by
  have hne : m ≠ 0 := Nat.ne_of_gt hm
  have hshift : (e - Format.binary64.targetExponent (totalExponent m e)).toNat = 52 - m.log2 := by
    simp only [Format.targetExponent, totalExponent, Format.mantissaBits, Format.minExponent]
    omega
  -- A number with fewer bits gets zeros behind it first, which change no significand.
  have hlog := log2_mul_two_pow hne (52 - m.log2)
  have hpos : 0 < m * 2 ^ (52 - m.log2) := Nat.mul_pos hm (Nat.two_pow_pos _)
  simp only [UnpackedFloat.round, UnpackedFloat.decreaseExponent, hshift, Nat.shiftLeft_eq]
  rw [roundWithAccuracy_exact sign (by omega) (by omega) (significand_pos hpos)]
  simp only [significand_mul_two_pow hne, hlog]
  congr 1
  omega

/-! ## Doubles of natural numbers -/

/-- What has 53 bits and an exponent in range is unpacked as it was packed. -/
theorem unpack_pack_finite (sign : UnpackedFloat.Sign) {m : Nat} {e : Int} (hpos : 0 < m)
    (hlow : 2 ^ 52 ≤ m) (hhigh : m < 2 ^ 53) (he : -1074 ≤ e) (he' : e ≤ 971) :
    UnpackedFloat.unpack .binary64 (UnpackedFloat.pack .binary64 (.finite sign m e hpos)) =
      .finite sign m e hpos := by
  -- What stands in the eleven bits of the exponent, neither all zeros nor all ones.
  obtain ⟨field, hfield⟩ : ∃ field : Nat, (field : Int) = e + 1075 := ⟨(e + 1075).toNat, by omega⟩
  have hbiased : (e + Format.binary64.exponentBias +
      Format.binary64.mantissaBitsWithoutImplicit).toNat = field := by
    simp only [Format.exponentBias]
    omega
  have hlog : m.log2 + 1 = Format.binary64.mantissaBits := by
    have := (Nat.log2_eq_iff (Nat.ne_of_gt hpos)).mpr ⟨hlow, hhigh⟩
    simp only [Format.mantissaBits]
    omega
  have hfull : BitVec.ofNat 11 field ≠ -1#11 := by
    intro h
    have := congrArg BitVec.toNat h
    simp only [BitVec.toNat_ofNat, BitVec.reduceNeg] at this
    omega
  have hempty : BitVec.ofNat 11 field ≠ 0#11 := by
    intro h
    have := congrArg BitVec.toNat h
    simp only [BitVec.toNat_ofNat] at this
    omega
  -- The first bit is not written, and is put back.
  have hmantissa : (1#1 ++ BitVec.ofNat 52 m).toNat = m := by
    rw [BitVec.toNat_append, ← Nat.shiftLeft_add_eq_or_of_lt (BitVec.isLt _), BitVec.toNat_ofNat,
      Nat.shiftLeft_eq]
    simp
    omega
  simp only [UnpackedFloat.pack, hbiased]
  rw [if_neg (by omega), if_pos hlog]
  simp only [UnpackedFloat.unpack, UnpackedFloat.unpackMantissa_packComponents,
    UnpackedFloat.unpackExponent_packComponents, UnpackedFloat.unpackSign_packComponents,
    UnpackedFloat.Sign.ofBitVec_toBitVec, hfull, hempty, if_false, hmantissa]
  congr 1
  simp only [Format.exponentBias, BitVec.toNat_ofNat]
  omega

/-- The double nearest to a number. -/
def nearest (n : Nat) : Float :=
  .ofModel (.ofNat n)

/-- The bits and the exponent of the double nearest to a number. -/
def nearestParts (n : Nat) (hn : 0 < n) : UnpackedFloat :=
  carry .positive (significand n) (n.log2 - 52) (significand_pos hn)

theorem normalize_natCast {m : Nat} (hm : 0 < m) (e : Int) :
    UnpackedFloat.normalize .binary64 m e .positive =
      UnpackedFloat.round .binary64 .positive m e := by
  have hcompare : compare (m : Int) 0 = .gt := by
    rw [Int.compare_eq_gt]
    omega
  rw [UnpackedFloat.normalize, hcompare]
  rfl

theorem ofNat_eq_nearestParts {n : Nat} (hn : 0 < n) :
    UnpackedFloat.ofNat .binary64 n = nearestParts n hn := by
  rw [UnpackedFloat.ofNat, UnpackedFloat.ofInt, normalize_natCast hn,
    round_eq .positive hn (by omega), nearestParts]
  congr 1
  omega

theorem unpack_nearest_zero : (nearest 0).toModel.unpack = .zero .positive := by
  rfl

theorem unpack_nearest {n : Nat} (hn : 0 < n) (hlog : n.log2 < 1000) :
    (nearest n).toModel.unpack = nearestParts n hn := by
  obtain ⟨hlow, hhigh⟩ := significand_bounds (Nat.ne_of_gt hn)
  show UnpackedFloat.unpack _ (UnpackedFloat.pack _ (UnpackedFloat.ofNat .binary64 n)) = _
  rw [ofNat_eq_nearestParts hn, nearestParts, carry]
  split
  · rename_i hfits
    exact unpack_pack_finite _ _ hlow hfits (by omega) (by omega)
  · exact unpack_pack_finite _ _ (by decide) (by decide) (by omega) (by omega)

/-- A number that a double can be: the bits behind its first 53 are zeros. -/
def IsExact (n : Nat) : Prop :=
  2 ^ n.log2 ∣ n * 2 ^ 52

theorem IsExact.significand_mul {n : Nat} (h : IsExact n) :
    significand n * 2 ^ n.log2 = n * 2 ^ 52 := by
  have hmod : n * 2 ^ 52 % 2 ^ n.log2 = 0 := Nat.mod_eq_zero_of_dvd h
  rw [significand, halfEven, hmod, if_pos (Nat.two_pow_pos _), Nat.div_mul_cancel h]

theorem IsExact.significand_lt {n : Nat} (h : IsExact n) : significand n < 2 ^ 53 := by
  have hpow : 0 < 2 ^ n.log2 := Nat.two_pow_pos _
  apply Nat.lt_of_mul_lt_mul_right (a := 2 ^ n.log2)
  rw [h.significand_mul]
  exact mul_two_pow_lt n

theorem IsExact.nearestParts_eq {n : Nat} (h : IsExact n) (hn : 0 < n) :
    nearestParts n hn = .finite .positive (significand n) (n.log2 - 52) (significand_pos hn) := by
  rw [nearestParts, carry, if_pos h.significand_lt]

/-- Bits that stand for a number under an exponent are rounded as the number is. -/
theorem carry_eq_nearestParts {m n k j : Nat} {e : Int} (hm : 0 < m) (hn : 0 < n)
    (h : m * 2 ^ k = n * 2 ^ j) (he : e = k - j) :
    carry .positive (significand m) (e + m.log2 - 52) (significand_pos hm) = nearestParts n hn := by
  have hsignificand : significand m = significand n := by
    rw [← significand_mul_two_pow (Nat.ne_of_gt hm) k, h,
      significand_mul_two_pow (Nat.ne_of_gt hn) j]
  have hlog : m.log2 + k = n.log2 + j := by
    rw [← log2_mul_two_pow (Nat.ne_of_gt hm), h, log2_mul_two_pow (Nat.ne_of_gt hn)]
  have hexp : e + m.log2 - 52 = n.log2 - 52 := by omega
  simp only [nearestParts, hsignificand, hexp]

section

variable {a b : Nat}

theorem add_nearestParts (ha : 0 < a) (hb : 0 < b) (hexact : IsExact a) (hexact' : IsExact b) :
    UnpackedFloat.add .binary64 (nearestParts a ha) (nearestParts b hb) =
      nearestParts (a + b) (Nat.add_pos_left ha b) := by
  rw [hexact.nearestParts_eq, hexact'.nearestParts_eq]
  simp only [UnpackedFloat.add, UnpackedFloat.decreaseExponent, UnpackedFloat.Sign.apply]
  -- Both are written with the lower of the two exponents.
  obtain ⟨low, hlow⟩ : ∃ low : Nat, min ((a.log2 : Int) - 52) (b.log2 - 52) = low - 52 ∧
      low ≤ a.log2 ∧ low ≤ b.log2 := ⟨min a.log2 b.log2, by omega, by omega, by omega⟩
  obtain ⟨hmin, hla, hlb⟩ := hlow
  have hshift : ((a.log2 : Int) - 52 - (low - 52)).toNat = a.log2 - low := by omega
  have hshift' : ((b.log2 : Int) - 52 - (low - 52)).toNat = b.log2 - low := by omega
  rw [hmin, hshift, hshift', Nat.shiftLeft_eq, Nat.shiftLeft_eq]
  have hsum : (significand a * 2 ^ (a.log2 - low) + significand b * 2 ^ (b.log2 - low)) * 2 ^ low =
      (a + b) * 2 ^ 52 := by
    rw [Nat.add_mul, Nat.mul_assoc, Nat.mul_assoc, ← Nat.pow_add, ← Nat.pow_add,
      Nat.sub_add_cancel hla, Nat.sub_add_cancel hlb, hexact.significand_mul,
      hexact'.significand_mul, Nat.add_mul]
  have hpos : 0 < significand a * 2 ^ (a.log2 - low) + significand b * 2 ^ (b.log2 - low) :=
    Nat.add_pos_left (Nat.mul_pos (significand_pos ha) (Nat.two_pow_pos _)) _
  have hlog := congrArg Nat.log2 hsum
  rw [log2_mul_two_pow (Nat.ne_of_gt hpos), log2_mul_two_pow (by omega)] at hlog
  rw [← Int.natCast_add, normalize_natCast hpos, round_eq .positive hpos (by omega)]
  exact carry_eq_nearestParts hpos _ hsum rfl

theorem mul_nearestParts (ha : 0 < a) (hb : 0 < b) (hexact : IsExact a) (hexact' : IsExact b) :
    UnpackedFloat.mul .binary64 (nearestParts a ha) (nearestParts b hb) =
      nearestParts (a * b) (Nat.mul_pos ha hb) := by
  have hlow := (significand_bounds (Nat.ne_of_gt ha)).1
  have hlow' := (significand_bounds (Nat.ne_of_gt hb)).1
  have hpos : 0 < significand a * significand b :=
    Nat.mul_pos (significand_pos ha) (significand_pos hb)
  have hproduct : significand a * significand b * 2 ^ (a.log2 + b.log2) = a * b * 2 ^ 104 := by
    calc significand a * significand b * 2 ^ (a.log2 + b.log2)
        = significand a * 2 ^ a.log2 * (significand b * 2 ^ b.log2) := by
          rw [Nat.pow_add, Nat.mul_mul_mul_comm]
      _ = a * b * (2 ^ 52 * 2 ^ 52) := by
          rw [hexact.significand_mul, hexact'.significand_mul, Nat.mul_mul_mul_comm]
      _ = a * b * 2 ^ 104 := by rw [← Nat.pow_add]
  have hbits : 104 ≤ (significand a * significand b).log2 := by
    rw [Nat.le_log2 (Nat.ne_of_gt hpos)]
    calc 2 ^ 104 = 2 ^ 52 * 2 ^ 52 := by rw [← Nat.pow_add]
      _ ≤ significand a * significand b := Nat.mul_le_mul hlow hlow'
  rw [hexact.nearestParts_eq, hexact'.nearestParts_eq]
  simp only [UnpackedFloat.mul]
  show UnpackedFloat.roundWithAccuracy .binary64 .positive _ _ .exact = _
  rw [roundWithAccuracy_exact .positive (by omega) (by omega) (significand_pos hpos)]
  exact carry_eq_nearestParts hpos _ hproduct (by omega)

/-- Adding two numbers that doubles can be gives the double nearest to the sum. -/
theorem nearest_add (ha : IsExact a) (hb : IsExact b) (hlt : a.log2 < 1000) (hlt' : b.log2 < 1000) :
    nearest a + nearest b = nearest (a + b) := by
  show Float.ofModel (.pack (UnpackedFloat.add .binary64 (nearest a).toModel.unpack
    (nearest b).toModel.unpack)) = _
  rcases Nat.eq_zero_or_pos a with rfl | hapos
  · rcases Nat.eq_zero_or_pos b with rfl | hbpos
    · rfl
    · rw [unpack_nearest_zero, unpack_nearest hbpos hlt', hb.nearestParts_eq, Nat.zero_add, nearest,
        Float.Model.ofNat, ofNat_eq_nearestParts hbpos, hb.nearestParts_eq]
      rfl
  · rcases Nat.eq_zero_or_pos b with rfl | hbpos
    · rw [unpack_nearest_zero, unpack_nearest hapos hlt, ha.nearestParts_eq, Nat.add_zero, nearest,
        Float.Model.ofNat, ofNat_eq_nearestParts hapos, ha.nearestParts_eq]
      rfl
    · rw [unpack_nearest hapos hlt, unpack_nearest hbpos hlt', add_nearestParts hapos hbpos ha hb,
        nearest, Float.Model.ofNat, ofNat_eq_nearestParts]

/-- Multiplying two numbers that doubles can be gives the double nearest to the product. -/
theorem nearest_mul (ha : IsExact a) (hb : IsExact b) (hlt : a.log2 < 1000)
    (hlt' : b.log2 < 1000) (hbpos : 0 < b) : nearest a * nearest b = nearest (a * b) := by
  show Float.ofModel (.pack (UnpackedFloat.mul .binary64 (nearest a).toModel.unpack
    (nearest b).toModel.unpack)) = _
  rcases Nat.eq_zero_or_pos a with rfl | hapos
  · rw [unpack_nearest_zero, unpack_nearest hbpos hlt', hb.nearestParts_eq, Nat.zero_mul]
    rfl
  · rw [unpack_nearest hapos hlt, unpack_nearest hbpos hlt', mul_nearestParts hapos hbpos ha hb,
      nearest, Float.Model.ofNat, ofNat_eq_nearestParts]

end

/-! ## Numbers that doubles can be -/

theorem isExact_of_lt {n : Nat} (h : n < 2 ^ 53) : IsExact n := by
  have hlog : n.log2 < 53 := log2_lt_of_lt (by decide) h
  exact Nat.dvd_trans (Nat.pow_dvd_pow 2 (Nat.le_of_lt_succ hlog)) (Nat.dvd_mul_left _ _)

theorem IsExact.mul_two_pow {n : Nat} (h : IsExact n) (hn : n ≠ 0) (k : Nat) :
    IsExact (n * 2 ^ k) := by
  rw [IsExact, log2_mul_two_pow hn, Nat.pow_add, Nat.mul_right_comm]
  exact Nat.mul_dvd_mul_right h _

/-- The double of a literal for a number with at most 53 bits, which is multiplied by one. -/
theorem ofNat_eq_nearest_of_lt {n : Nat} (h : n < 2 ^ 53) : Float.ofNat n = nearest n := by
  have hlog : n.log2 < 53 := log2_lt_of_lt (by decide) h
  have hword : n.toUInt64.toFloat = nearest n := by
    have htoNat : n.toUInt64.toNat = n := Nat.mod_eq_of_lt (by omega)
    show nearest n.toUInt64.toNat = nearest n
    rw [htoNat]
  have hone : Float.ofBits 0x3FF0000000000000 = nearest 1 := by decide
  show Float.ofScientific n false 0 = nearest n
  rw [Float.ofScientific, dif_pos ⟨h, by decide⟩]
  show n.toUInt64.toFloat * Float.ofBits 0x3FF0000000000000 = nearest n
  rw [hword, hone, nearest_mul (isExact_of_lt h) (isExact_of_lt (by decide)) (by omega) (by decide)
    (by decide), Nat.mul_one]

/-- The double of a literal for a number with more bits, which is rounded at once. -/
theorem ofNat_eq_nearest_of_le {n : Nat} (h : 2 ^ 53 ≤ n) : Float.ofNat n = nearest n := by
  have hn : 0 < n := by omega
  have hpos : 0 < n * 2 ^ 53 := Nat.mul_pos hn (Nat.two_pow_pos 53)
  have hlog : (n * 2 ^ 53).log2 = n.log2 + 53 := log2_mul_two_pow (Nat.ne_of_gt hn) 53
  have hbits : Format.binary64.exponentBits = 11 := rfl
  have hparts : UnpackedFloat.ofScientific .binary64 n 0 = nearestParts n hn := by
    rw [UnpackedFloat.ofScientific, dif_neg (Nat.ne_of_gt hn), hbits, if_neg (by decide),
      if_neg (by omega), if_pos (by decide)]
    show UnpackedFloat.roundWithAccuracy .binary64 .positive (n <<< 53 * 1) (-53) .exact = _
    rw [Nat.mul_one, Nat.shiftLeft_eq,
      roundWithAccuracy_exact .positive (by omega) (by omega) (significand_pos hpos)]
    exact carry_eq_nearestParts (k := 0) (j := 53) hpos hn (Nat.mul_one _) (by decide)
  show Float.ofScientific n false 0 = nearest n
  rw [Float.ofScientific, dif_neg (by omega)]
  show Float.ofModel (.pack (UnpackedFloat.ofScientific .binary64 n 0)) = nearest n
  rw [hparts, nearest, Float.Model.ofNat, ofNat_eq_nearestParts hn]

/-- The double of a number, however many bits it has. -/
theorem ofNat_eq_nearest (n : Nat) : Float.ofNat n = nearest n := by
  rcases Nat.lt_or_ge n (2 ^ 53) with h | h
  · exact ofNat_eq_nearest_of_lt h
  · exact ofNat_eq_nearest_of_le h

/-- A number of at least 53 bits, rounded to the first 53 of them. -/
def rounded (n : Nat) : Nat :=
  significand n * 2 ^ (n.log2 - 52)

theorem significand_of_log2 {m : Nat} (h : m.log2 = 52) : significand m = m := by
  rw [significand_eq_halfEven (Nat.le_of_eq h.symm), h]
  simp [halfEven, Nat.mod_one]

section

variable {n : Nat}

theorem rounded_cases (h : 52 ≤ n.log2) :
    significand n < 2 ^ 53 ∧ (rounded n).log2 = n.log2 ∧ significand (rounded n) = significand n ∨
      significand n = 2 ^ 53 ∧ (rounded n).log2 = n.log2 + 1 ∧
        significand (rounded n) = 2 ^ 52 := by
  have hn : n ≠ 0 := ne_zero_of_log2 (by omega)
  obtain ⟨hlow, hhigh⟩ := significand_bounds hn
  by_cases hlt : significand n < 2 ^ 53
  · have hlog : (significand n).log2 = 52 := (Nat.log2_eq_iff (by omega)).mpr ⟨hlow, hlt⟩
    refine .inl ⟨hlt, ?_, ?_⟩
    · rw [rounded, log2_mul_two_pow (by omega), hlog]
      omega
    · rw [rounded, significand_mul_two_pow (by omega), significand_of_log2 hlog]
  · have hmax : significand n = 2 ^ 53 := by omega
    refine .inr ⟨hmax, ?_, ?_⟩
    · rw [rounded, hmax, ← Nat.pow_add, Nat.log2_two_pow]
      omega
    · rw [rounded, hmax, ← Nat.pow_add, ← Nat.one_mul (2 ^ _),
        significand_mul_two_pow (by decide)]
      rfl

theorem isExact_rounded (h : 52 ≤ n.log2) : IsExact (rounded n) := by
  have hn : n ≠ 0 := ne_zero_of_log2 (by omega)
  have hlow := (significand_bounds hn).1
  rcases rounded_cases h with ⟨hlt, -, -⟩ | ⟨hmax, -, -⟩
  · exact (isExact_of_lt hlt).mul_two_pow (by omega) _
  · rw [rounded, hmax, ← Nat.pow_add, ← Nat.one_mul (2 ^ _)]
    exact (isExact_of_lt (by decide)).mul_two_pow (by decide) _

theorem rounded_pos (h : 52 ≤ n.log2) : 0 < rounded n := by
  have hn : n ≠ 0 := ne_zero_of_log2 (by omega)
  exact Nat.mul_pos (significand_pos (Nat.pos_of_ne_zero hn)) (Nat.two_pow_pos _)

/-- A number that has been rounded, with zeros behind it. -/
theorem nearestParts_rounded_mul (h : 52 ≤ n.log2) (k : Nat) (hpos : 0 < rounded n * 2 ^ k)
    (hn : 0 < significand n) :
    nearestParts (rounded n * 2 ^ k) hpos =
      carry .positive (significand n) (n.log2 + k - 52) hn := by
  have hne := Nat.ne_of_gt (rounded_pos h)
  rcases rounded_cases h with ⟨hlt, hlog, hsignificand⟩ | ⟨hmax, hlog, hsignificand⟩
  · simp only [nearestParts, significand_mul_two_pow hne, log2_mul_two_pow hne, hlog, hsignificand]
    congr 1
  · simp only [nearestParts, significand_mul_two_pow hne, log2_mul_two_pow hne, hlog, hsignificand,
      hmax, carry]
    simp
    omega

end

/-! ## Bits behind the first ones -/

theorem log2_append {n t k : Nat} (hn : n ≠ 0) (ht : t < 2 ^ k) :
    (n * 2 ^ k + t).log2 = n.log2 + k := by
  have hpow : 0 < 2 ^ k := Nat.two_pow_pos k
  have hprod : 0 < n * 2 ^ k := Nat.mul_pos (Nat.pos_of_ne_zero hn) hpow
  rw [Nat.log2_eq_iff (by omega), Nat.pow_add, Nat.add_right_comm n.log2 k 1,
    Nat.pow_add 2 (n.log2 + 1) k]
  constructor
  · have := Nat.mul_le_mul_right (2 ^ k) (Nat.log2_self_le hn)
    omega
  · calc n * 2 ^ k + t < (n + 1) * 2 ^ k := by
          rw [Nat.add_mul]
          omega
      _ ≤ 2 ^ (n.log2 + 1) * 2 ^ k := Nat.mul_le_mul_right _ Nat.lt_log2_self

theorem append_div {n t j : Nat} (ht : t < 2 ^ j) (k : Nat) :
    (n * 2 ^ j + t) / 2 ^ (k + j) = n / 2 ^ k := by
  rw [Nat.add_comm k j, Nat.pow_add, ← Nat.div_div_eq_div_mul, Nat.mul_comm n,
    Nat.mul_add_div (Nat.two_pow_pos j), Nat.div_eq_of_lt ht, Nat.add_zero]

theorem append_mod {n t j : Nat} (ht : t < 2 ^ j) (k : Nat) :
    (n * 2 ^ j + t) % 2 ^ (k + j) = n % 2 ^ k * 2 ^ j + t := by
  rw [Nat.add_comm k j, Nat.pow_add, Nat.mod_mul, Nat.mul_comm n, Nat.mul_add_mod,
    Nat.mod_eq_of_lt ht, Nat.mul_add_div (Nat.two_pow_pos j), Nat.div_eq_of_lt ht, Nat.add_zero,
    Nat.add_comm, Nat.mul_comm (2 ^ j)]

/-- Bits that are further behind change what rounding does to a half alone, which is one no longer.
    It matters where the half would have gone down to an even number. -/
theorem halfEven_append_iff {n t k j : Nat} (hk : 0 < k) (ht : t < 2 ^ j) :
    halfEven (n * 2 ^ j + t) (k + j) = halfEven n k ↔
      ¬ (t ≠ 0 ∧ 2 * (n % 2 ^ k) = 2 ^ k ∧ n / 2 ^ k % 2 = 0) := by
  have hpow : 0 < 2 ^ j := Nat.two_pow_pos j
  have heven : 2 ^ k = 2 * 2 ^ (k - 1) := by
    rw [← Nat.pow_succ']
    congr 1
    omega
  have hexpand : 2 * (n % 2 ^ k * 2 ^ j + t) = 2 * (n % 2 ^ k) * 2 ^ j + 2 * t := by
    rw [Nat.mul_add, Nat.mul_assoc]
  rw [halfEven, halfEven, append_div ht, append_mod ht, hexpand, Nat.pow_add]
  -- From here on the quotient and the remainder are any numbers, and `half` is half of the divisor.
  generalize n / 2 ^ k = q
  generalize n % 2 ^ k = r
  generalize 2 ^ j = s at *
  generalize 2 ^ k = p at *
  generalize 2 ^ (k - 1) = half at *
  subst heven
  rcases Nat.lt_trichotomy r half with hlt | rfl | hgt
  · -- Below a half by one of the bits before at least.
    have hbelow : (r + 1) * s ≤ half * s := Nat.mul_le_mul_right s hlt
    rw [Nat.add_mul] at hbelow
    have hleft : 2 * r * s + 2 * t < 2 * half * s := by
      rw [Nat.mul_assoc, Nat.mul_assoc]
      omega
    rw [if_pos hleft, if_pos (by omega)]
    simp
    omega
  · -- A half, and it stays one where nothing but zeros follows.
    rw [if_neg (Nat.not_lt.mpr (Nat.le_add_right _ _)), if_neg (Nat.lt_irrefl _), if_pos rfl]
    by_cases hzero : t = 0
    · rw [if_pos (by omega)]
      simp [hzero]
    · rw [if_neg (by omega)]
      simp [hzero]
      omega
  · -- Above a half, whatever follows.
    have habove : half * s < r * s := Nat.mul_lt_mul_of_pos_right hgt hpow
    have hright : 2 * half * s < 2 * r * s + 2 * t := by
      rw [Nat.mul_assoc, Nat.mul_assoc]
      omega
    rw [if_neg (Nat.not_lt.mpr (Nat.le_of_lt hright)), if_neg (Nat.ne_of_gt hright),
      if_neg (by omega), if_neg (by omega)]
    simp
    omega

/-- A mantissa of 53 bits, or the next number, is told by what it is carried to. -/
theorem carry_inj {m m' : Nat} {e : Int} (hm : 2 ^ 52 ≤ m ∧ m ≤ 2 ^ 53)
    (hm' : 2 ^ 52 ≤ m' ∧ m' ≤ 2 ^ 53) (hpos : 0 < m) (hpos' : 0 < m') :
    carry .positive m e hpos = carry .positive m' e hpos' ↔ m = m' := by
  rw [carry, carry]
  constructor
  · intro h
    -- Only one of the two carried moves the exponent.
    split at h <;> split at h <;> injection h <;> omega
  · rintro rfl
    rfl

/-- Doubles of numbers in range are equal where their bits and exponents are. -/
theorem nearest_eq_iff {a b : Nat} (ha : 0 < a) (hb : 0 < b) (hlt : a.log2 < 1000)
    (hlt' : b.log2 < 1000) : nearest a = nearest b ↔ nearestParts a ha = nearestParts b hb := by
  constructor
  · intro h
    rw [← unpack_nearest ha hlt, ← unpack_nearest hb hlt', h]
  · intro h
    rw [nearest, nearest, Float.Model.ofNat, Float.Model.ofNat, ofNat_eq_nearestParts ha,
      ofNat_eq_nearestParts hb, h]

/-- A number half way between two doubles of which the lower one has the even mantissa: 53 bits, the
    last of them a zero, and behind them a one and nothing but zeros. -/
def TiesDown (n : Nat) : Prop :=
  ∃ m j, 2 ^ 51 ≤ m ∧ m < 2 ^ 52 ∧ n = (4 * m + 1) * 2 ^ j

theorem log2_four_mul {m : Nat} (hlow : 2 ^ 51 ≤ m) (hhigh : m < 2 ^ 52) :
    (4 * m + 1).log2 = 53 :=
  (Nat.log2_eq_iff (by omega)).mpr ⟨by omega, by omega⟩

theorem TiesDown.log2_ge {n : Nat} (h : TiesDown n) : 53 ≤ n.log2 := by
  obtain ⟨m, j, hlow, hhigh, rfl⟩ := h
  rw [log2_mul_two_pow (by omega), log2_four_mul hlow hhigh]
  omega

/-- Behind a number of 54 bits or more a tie has zeros alone, and the number is one already. -/
theorem TiesDown.of_append {n t k : Nat} (h : TiesDown (n * 2 ^ k + t)) (hn : 53 ≤ n.log2)
    (ht : t < 2 ^ k) : t = 0 ∧ TiesDown n := by
  obtain ⟨m, j, hlow, hhigh, heq⟩ := h
  have hne : n ≠ 0 := ne_zero_of_log2 (by omega)
  have hlog := log2_append hne ht
  rw [heq, log2_mul_two_pow (by omega), log2_four_mul hlow hhigh] at hlog
  -- There are as many zeros as the bits behind at least, since 54 bits come before these.
  obtain ⟨i, rfl⟩ : ∃ i, j = i + k := ⟨j - k, by omega⟩
  rw [Nat.pow_add, ← Nat.mul_assoc] at heq
  have hzero : t = 0 := by
    have hmod := congrArg (· % 2 ^ k) heq
    simpa [Nat.mod_eq_of_lt ht] using hmod
  subst hzero
  exact ⟨rfl, m, i, hlow, hhigh, Nat.mul_right_cancel (Nat.two_pow_pos k) heq⟩

theorem not_tiesDown_of_lt {n : Nat} (h : n < 2 ^ 53) : ¬ TiesDown n := by
  intro hties
  have hlow := hties.log2_ge
  have hhigh : n.log2 < 53 := log2_lt_of_lt (by decide) h
  omega

/-- A tie by the remainder, and the even one below it by the quotient. -/
theorem tiesDown_iff {n : Nat} (h : 53 ≤ n.log2) :
    TiesDown n ↔ 2 * (n % 2 ^ (n.log2 - 52)) = 2 ^ (n.log2 - 52) ∧
      n / 2 ^ (n.log2 - 52) % 2 = 0 := by
  constructor
  · rintro ⟨m, j, hlow, hhigh, rfl⟩
    have hpow : 0 < 2 ^ j := Nat.two_pow_pos j
    have hshift : 53 + j - 52 = 1 + j := by omega
    rw [log2_mul_two_pow (by omega), log2_four_mul hlow hhigh, hshift, Nat.pow_add,
      Nat.mul_mod_mul_right, Nat.mul_div_mul_right _ _ hpow]
    constructor
    · rw [← Nat.mul_assoc]
      congr 1
      omega
    · omega
  · rintro ⟨hhalf, heven⟩
    obtain ⟨j, hj⟩ : ∃ j, n.log2 = 53 + j := ⟨n.log2 - 53, by omega⟩
    have hshift : n.log2 - 52 = 1 + j := by omega
    have hne : n ≠ 0 := ne_zero_of_log2 (by omega)
    rw [hshift] at hhalf heven
    -- The quotient is even: 52 bits and a zero.
    obtain ⟨m, hm⟩ : ∃ m, n / 2 ^ (1 + j) = 2 * m := ⟨n / 2 ^ (1 + j) / 2, by omega⟩
    have hn : n = (4 * m + 1) * 2 ^ j := by
      have hdiv := Nat.div_add_mod n (2 ^ (1 + j))
      rw [hm, Nat.pow_add] at hdiv
      rw [Nat.pow_add] at hhalf
      rw [Nat.mul_mul_mul_comm] at hdiv
      rw [Nat.add_mul, Nat.mul_assoc, Nat.mul_comm m]
      omega
    have hbits : (4 * m + 1).log2 = 53 := by
      rw [hn, log2_mul_two_pow (by omega)] at hj
      omega
    obtain ⟨hlow, hhigh⟩ := (Nat.log2_eq_iff (by omega)).mp hbits
    exact ⟨m, j, by omega, by omega, hn⟩

/-- Bits that are behind a number which doubles can be, and less than half of its last place. -/
theorem nearest_add_of_lt {a d : Nat} (ha : IsExact a) (hlog : 53 ≤ a.log2)
    (hd : 2 * d < 2 ^ (a.log2 - 52)) : nearest (a + d) = nearest a := by
  have hne : a ≠ 0 := ne_zero_of_log2 (by omega)
  obtain ⟨k, hk⟩ : ∃ k, a.log2 = k + 52 := ⟨a.log2 - 52, by omega⟩
  rw [hk, Nat.add_sub_cancel] at hd
  -- The number is its 53 bits with zeros behind them, where the bits fit in.
  have hm : a = significand a * 2 ^ k := by
    have hexact := ha.significand_mul
    rw [hk, Nat.pow_add, ← Nat.mul_assoc] at hexact
    exact (Nat.mul_right_cancel (by decide) hexact).symm
  have hsum : (a + d).log2 = a.log2 := by
    have hpos := significand_pos (Nat.pos_of_ne_zero hne)
    have happend := log2_append (n := significand a) (t := d) (k := k) (by omega) (by omega)
    have hwhole := log2_mul_two_pow (n := significand a) (by omega) k
    rw [← hm] at happend hwhole
    rw [happend, hwhole]
  have hsignificand : significand (a + d) = significand a := by
    have hmod : (a + d) % 2 ^ k = d := by
      rw [hm, Nat.add_comm, Nat.add_mul_mod_self_right, Nat.mod_eq_of_lt (by omega)]
    have hdiv : (a + d) / 2 ^ k = significand a := by
      rw [hm, Nat.add_comm, Nat.add_mul_div_right _ _ (Nat.two_pow_pos k),
        Nat.div_eq_of_lt (by omega), Nat.zero_add, ← hm]
    rw [significand_eq_halfEven (by omega), hsum, hk, Nat.add_sub_cancel, halfEven, hmod, if_pos hd,
      hdiv]
  rw [nearest, nearest, Float.Model.ofNat, Float.Model.ofNat,
    ofNat_eq_nearestParts (Nat.pos_of_ne_zero hne),
    ofNat_eq_nearestParts (Nat.add_pos_left (Nat.pos_of_ne_zero hne) d)]
  simp only [nearestParts, hsignificand, hsum]

/-- Rounding a number before bits are put behind it is rounding with the bits there, unless it is
    half way above an even one and there is a one among the bits. -/
theorem nearest_append_iff {n t k : Nat} (hn : 53 ≤ n.log2) (ht : t < 2 ^ k)
    (hfits : n.log2 + k < 999) :
    nearest (n * 2 ^ k + t) = nearest (rounded n * 2 ^ k) ↔ ¬ (t ≠ 0 ∧ TiesDown n) := by
  have hne : n ≠ 0 := ne_zero_of_log2 (by omega)
  have hpos : 0 < n * 2 ^ k + t :=
    Nat.add_pos_left (Nat.mul_pos (Nat.pos_of_ne_zero hne) (Nat.two_pow_pos k)) t
  have hpos' : 0 < rounded n * 2 ^ k := Nat.mul_pos (rounded_pos (by omega)) (Nat.two_pow_pos k)
  have hlog : (n * 2 ^ k + t).log2 = n.log2 + k := log2_append hne ht
  have hbound := significand_bounds hne
  -- Rounding may give one bit more, which is carried into the exponent on the other side too.
  have hlog' : (rounded n * 2 ^ k).log2 ≤ n.log2 + 1 + k := by
    rw [log2_mul_two_pow (Nat.ne_of_gt (rounded_pos (by omega)))]
    rcases rounded_cases (n := n) (by omega) with ⟨-, hrounded, -⟩ | ⟨-, hrounded, -⟩ <;> omega
  have hsignificand : significand (n * 2 ^ k + t) =
      halfEven (n * 2 ^ k + t) (n.log2 - 52 + k) := by
    rw [significand_eq_halfEven (by omega), hlog]
    congr 1
    omega
  have hexp : (((n * 2 ^ k + t).log2 : Nat) : Int) - 52 = n.log2 + k - 52 := by
    rw [hlog, Int.natCast_add]
  rw [nearest_eq_iff hpos hpos' (by omega) (by omega),
    nearestParts_rounded_mul (by omega) k hpos' (significand_pos (Nat.pos_of_ne_zero hne))]
  simp only [nearestParts, hexp]
  rw [carry_inj (significand_bounds (Nat.ne_of_gt hpos)) hbound, hsignificand,
    significand_eq_halfEven (by omega), halfEven_append_iff (by omega) ht, tiesDown_iff hn]

end Double

end DefineFold
