/-
  DefineFold.Proofs.Number.Word

  The low 32 bits of a double. They are computed on doubles: the fraction is cut off, the remainder
  by `2 ^ 32` is taken and brought above zero, and what is left is cast. Every step is exact, since
  it is about integers that have no more bits than a mantissa: the fraction goes without rounding
  (`rational?_trunc`), a remainder has the digits of one of its two numbers (`rational?_remainder`),
  and the one sum is an integer below `2 ^ 53` (`rational?_add`). So the bits are those of the
  integer on the way to zero (`word32_eq_ofInt`), however far beyond 32 bits it lies.
-/

import DefineFold.Proofs.Number.Exact

namespace DefineFold

namespace Double

open Float.Model
open UnpackedFloat (ExtendedMantissa)

/-! ## Parts -/

/-- The number that the parts of a double stand for. -/
def numberOfParts? : DoubleParts → Option ℚ
  | .finite negative m e => some (withSign negative m * 2 ^ e)
  | _ => none

theorem rational?_eq_numberOfParts? (x : Float) : rational? x = numberOfParts? (parts x) := by
  rw [parts_eq, rational?]
  cases x.toModel.unpack with
  | notANumber => rfl
  | infinity sign => rfl
  | zero sign => cases sign <;> simp [partsOf, numberOfParts?, isMinus, withSign]
  | finite sign m e hm => cases sign <;> rfl

theorem exists_parts_of_rational? {x : Float} {q : ℚ} (h : rational? x = some q) :
    ∃ negative m e, parts x = .finite negative m e ∧ q = withSign negative m * 2 ^ e := by
  rw [rational?_eq_numberOfParts?] at h
  cases hparts : parts x with
  | nan => simp [hparts, numberOfParts?] at h
  | infinite negative => simp [hparts, numberOfParts?] at h
  | finite negative m e =>
    rw [hparts] at h
    exact ⟨negative, m, e, rfl, (Option.some.inj h).symm⟩

/-- How long a mantissa is, and how far an exponent goes. -/
theorem parts_bounds {x : Float} {negative : Bool} {m : ℕ} {e : ℤ}
    (h : parts x = .finite negative m e) : m < 2 ^ 53 ∧ -1074 ≤ e ∧ e ≤ 971 := by
  simp only [parts, Nat.pow_eq] at h
  have hfraction : x.toBits.toNat % 2 ^ 52 < 2 ^ 52 := Nat.mod_lt _ (by decide)
  have hfield : x.toBits.toNat / 2 ^ 52 % 2 ^ 11 < 2 ^ 11 := Nat.mod_lt _ (by decide)
  split at h
  · split at h <;> cases h
  · split at h
    · cases h
      omega
    · cases h
      omega

/-! ## Doubles that are put together -/

/-- Bits whose exponent is not the full one are kept. -/
theorem toNat_toBits_ofBits {n : ℕ} (hn : n < 2 ^ 64) (h : n / 2 ^ 52 % 2 ^ 11 ≠ 2047) :
    (Float.ofBits (UInt64.ofNat n)).toBits.toNat = n := by
  have hword : (UInt64.ofNat n).toBitVec.toNat = n := Nat.mod_eq_of_lt hn
  have hnan : @UnpackedFloat.isNaNBits .binary64 (UInt64.ofNat n).toBitVec = false := by
    rw [UnpackedFloat.isNaNBits, decide_eq_false_iff_not]
    rintro ⟨hfull, -⟩
    apply h
    rw [← hword, ← toNat_unpackExponent, hfull]
    rfl
  show (UnpackedFloat.pack .binary64 (UnpackedFloat.unpack .binary64
    (UInt64.ofNat n).toBitVec)).toNat = n
  rw [UnpackedFloat.pack_unpack, hnan]
  exact hword

theorem parts_ofParts_zero (negative : Bool) (e : ℤ) :
    parts (ofParts negative 0 e) = .finite negative 0 (-1074) := by
  show parts (Float.ofBits (UInt64.ofNat ((if negative then Nat.pow 2 63 else 0) + 0))) = _
  cases negative <;> decide +kernel

/-- Bits with an exponent that is neither all zeros nor all ones. -/
theorem parts_ofBits (negative : Bool) {field fraction : ℕ} (hpos : 0 < field)
    (hfield : field < 2047) (hfraction : fraction < 2 ^ 52) :
    parts (Float.ofBits (UInt64.ofNat ((if negative then 2 ^ 63 else 0) +
        (field * 2 ^ 52 + fraction)))) =
      .finite negative (2 ^ 52 + fraction) ((field : ℤ) - 1075) := by
  obtain ⟨n, hn, hexponent, hmantissa, hsign, hlt⟩ : ∃ n : ℕ,
      (if negative then 2 ^ 63 else 0) + (field * 2 ^ 52 + fraction) = n ∧
      n / 2 ^ 52 % 2 ^ 11 = field ∧ n % 2 ^ 52 = fraction ∧
      decide (2 ^ 63 ≤ n) = negative ∧ n < 2 ^ 64 := by
    refine ⟨_, rfl, ?_⟩
    cases negative
    · rw [if_neg (by decide)]
      exact ⟨by omega, by omega, decide_eq_false (by omega), by omega⟩
    · rw [if_pos rfl]
      exact ⟨by omega, by omega, decide_eq_true (by omega), by omega⟩
  rw [hn, parts]
  simp only [Nat.pow_eq]
  rw [toNat_toBits_ofBits hlt (by omega), hexponent, hmantissa, hsign, if_neg (by omega),
    if_neg (by omega)]

section

variable {m : ℕ} {e : ℤ}

/-- A number with a first bit is put together from the bits behind it. -/
theorem parts_ofParts (negative : Bool) (hpos : 0 < m) (hm : m < 2 ^ 53)
    (hlow : -1022 ≤ e + m.log2) (hhigh : e + m.log2 ≤ 1023) :
    parts (ofParts negative m e) =
      .finite negative (m * 2 ^ (52 - m.log2)) (e + m.log2 - 52) := by
  have hlog : m.log2 < 53 := log2_lt_of_lt (by decide) hm
  -- The mantissa has 53 bits, of which the first is not written.
  have hbits : (m * 2 ^ (52 - m.log2)).log2 = 52 := by
    rw [log2_mul_two_pow (Nat.ne_of_gt hpos)]
    omega
  obtain ⟨hfirst, hlast⟩ := (Nat.log2_eq_iff
    (Nat.ne_of_gt (Nat.mul_pos hpos (Nat.two_pow_pos _)))).mp hbits
  obtain ⟨field, hfield⟩ : ∃ field : ℕ, e + m.log2 + 1023 = field :=
    ⟨(e + m.log2 + 1023).toNat, by omega⟩
  have hnotlow : ¬ (field : ℤ) ≤ 0 := by omega
  simp only [ofParts, Nat.pow_eq, if_neg (Nat.ne_of_gt hpos), hfield, if_neg hnotlow,
    Int.toNat_natCast]
  have hwhole : 2 ^ 52 + (m * 2 ^ (52 - m.log2) - 2 ^ 52) = m * 2 ^ (52 - m.log2) := by omega
  have hexp : (field : ℤ) - 1075 = e + m.log2 - 52 := by omega
  rw [parts_ofBits negative (by omega) (by omega) (by omega), hwhole, hexp]

/-- What is put together stands for the number that it is put together from. -/
theorem rational?_ofParts (negative : Bool) (hm : m < 2 ^ 53)
    (hlow : m ≠ 0 → -1022 ≤ e + m.log2) (hhigh : m ≠ 0 → e + m.log2 ≤ 1023) :
    rational? (ofParts negative m e) = some (withSign negative m * 2 ^ e : ℚ) := by
  rcases Nat.eq_zero_or_pos m with rfl | hpos
  · rw [rational?_eq_numberOfParts?, parts_ofParts_zero, numberOfParts?]
    cases negative <;> simp [withSign]
  · have hne := Nat.ne_of_gt hpos
    have hlog : m.log2 < 53 := log2_lt_of_lt (by decide) hm
    have hexp : e + m.log2 - 52 = e - ((52 - m.log2 : ℕ) : ℤ) := by omega
    rw [rational?_eq_numberOfParts?, parts_ofParts negative hpos hm (hlow hne) (hhigh hne),
      numberOfParts?, hexp, zpow_sub₀ (by norm_num), zpow_natCast]
    have htwo : (2 : ℚ) ^ (52 - m.log2) ≠ 0 := by positivity
    cases negative <;> simp only [withSign] <;> push_cast <;> field_simp

end

/-! ## Truncation -/

theorem isSome_rational? (x : Float) : (rational? x).isSome = x.isFinite := by
  show _ = x.toModel.unpack.isFinite
  rw [rational?]
  cases x.toModel.unpack <;> rfl

theorem truncate_of_not_isFinite {x : Float} (h : x.isFinite = false) : truncate x = 0 := by
  rw [← isSome_rational?, Option.isSome_eq_false_iff, Option.isNone_iff_eq_none] at h
  rw [truncate_eq_wholePart, wholePart, h]
  rfl

/-- The fraction is cut off without rounding. -/
theorem rational?_trunc {x : Float} (h : x.isFinite = true) :
    rational? (trunc x) = some (truncate x : ℚ) := by
  rw [← isSome_rational?, Option.isSome_iff_exists] at h
  obtain ⟨q, hq⟩ := h
  obtain ⟨negative, m, e, hparts, rfl⟩ := exists_parts_of_rational? hq
  have hm := (parts_bounds hparts).1
  rw [trunc, truncate, hparts]
  simp only [Nat.pow_eq]
  split
  · rename_i he
    obtain ⟨k, rfl⟩ := Int.eq_ofNat_of_zero_le he
    rw [hq, zpow_natCast, Int.toNat_natCast]
    cases negative <;> simp [withSign]
  · have hle := Nat.div_le_self m (2 ^ (-e).toNat)
    have hlog : (m / 2 ^ (-e).toNat).log2 < 53 := log2_lt_of_lt (by decide) (by omega)
    rw [rational?_ofParts negative (by omega) (fun _ => by omega) (fun _ => by omega), zpow_zero,
      mul_one]

/-! ## Remainders -/

theorem mul_zpow_eq_iff {r n : ℕ} {low : ℤ} :
    (r : ℚ) * 2 ^ low = n ↔ r * 2 ^ low.toNat = n * 2 ^ (-low).toNat := by
  rcases le_total 0 low with hlow | hlow
  · obtain ⟨k, rfl⟩ := Int.eq_ofNat_of_zero_le hlow
    have hk : (-(k : ℤ)).toNat = 0 := by omega
    rw [zpow_natCast, Int.toNat_natCast, hk, pow_zero, Nat.mul_one]
    exact_mod_cast Iff.rfl
  · obtain ⟨k, rfl⟩ : ∃ k : ℕ, low = -k := ⟨(-low).toNat, by omega⟩
    have hk : (-(k : ℤ)).toNat = 0 := by omega
    rw [zpow_neg, zpow_natCast, mul_inv_eq_iff_eq_mul₀ (by positivity), neg_neg, Int.toNat_natCast,
      hk, pow_zero, Nat.mul_one]
    exact_mod_cast Iff.rfl

/-- Remainders of multiples of a power of two are multiples of it. -/
theorem mod_mul_zpow {M D a d : ℕ} {low : ℤ} (hM : (M : ℚ) * 2 ^ low = a)
    (hD : (D : ℚ) * 2 ^ low = d) : ((M % D : ℕ) : ℚ) * 2 ^ low = (a % d : ℕ) := by
  rw [mul_zpow_eq_iff] at hM hD ⊢
  rw [← Nat.mul_mod_mul_right, hM, hD, Nat.mul_mod_mul_right]

/-- A multiple of a power of two that is a number has the bits below the point. -/
theorem log2_ge_of_mul_zpow {r n : ℕ} {low : ℤ} (h : (r : ℚ) * 2 ^ low = n) (hr : r ≠ 0) :
    0 ≤ low + r.log2 := by
  rw [mul_zpow_eq_iff] at h
  have hn : n ≠ 0 := by
    rintro rfl
    rw [Nat.zero_mul, Nat.mul_eq_zero] at h
    exact h.elim hr (by positivity)
  have hlog := congrArg Nat.log2 h
  rw [log2_mul_two_pow hr, log2_mul_two_pow hn] at hlog
  omega

theorem shift_mul_zpow (m : ℕ) {e low : ℤ} (h : low ≤ e) :
    ((m * 2 ^ (e - low).toNat : ℕ) : ℚ) * 2 ^ low = m * 2 ^ e := by
  obtain ⟨k, rfl⟩ : ∃ k : ℕ, e = low + k := ⟨(e - low).toNat, by omega⟩
  have hk : (low + k - low).toNat = k := by omega
  rw [hk, zpow_add₀ (by norm_num), zpow_natCast]
  push_cast
  ring

section

variable {negative : Bool} {m : ℕ} {e z : ℤ}

theorem natAbs_eq_of_parts (h : (z : ℚ) = withSign negative m * 2 ^ e) :
    (z.natAbs : ℚ) = m * 2 ^ e := by
  have hpow : (0 : ℚ) < 2 ^ e := by positivity
  rw [Nat.cast_natAbs, Int.cast_abs, h, abs_mul, abs_of_pos hpow]
  cases negative <;> simp [withSign]

theorem eq_withSign_natAbs (h : (z : ℚ) = withSign negative m * 2 ^ e) :
    z = withSign negative z.natAbs := by
  have hnonneg : (0 : ℚ) ≤ m * 2 ^ e := by positivity
  cases negative with
  | false =>
    have hz : (0 : ℚ) ≤ z := by simpa [h, withSign] using hnonneg
    have hz' : 0 ≤ z := by exact_mod_cast hz
    show z = z.natAbs
    omega
  | true =>
    have hz : (z : ℚ) ≤ 0 := by
      rw [h]
      simpa [withSign] using hnonneg
    have hz' : z ≤ 0 := by exact_mod_cast hz
    show z = -z.natAbs
    omega

theorem withSign_mul_eq (negative : Bool) {a b : ℕ} {c : ℚ} (h : (a : ℚ) * c = b) :
    (withSign negative a : ℚ) * c = withSign negative b := by
  cases negative <;> simp [withSign, h]

theorem tmod_withSign (negative : Bool) (a d : ℕ) :
    (withSign negative a).tmod d = withSign negative (a % d) := by
  cases negative with
  | false => rfl
  | true =>
    show (-(a : ℤ)).tmod d = -((a % d : ℕ) : ℤ)
    rw [Int.neg_tmod]
    rfl

end

/-- Remainders of integers are not rounded: they have no more bits than the longer one of the
    mantissas. -/
theorem rational?_remainder {x y : Float} {z : ℤ} {d : ℕ} (hx : rational? x = some (z : ℚ))
    (hy : rational? y = some (d : ℚ)) (hd : 0 < d) :
    rational? (remainder x y) = some ((z.tmod d : ℤ) : ℚ) := by
  obtain ⟨negative, m, e, hparts, hz⟩ := exists_parts_of_rational? hx
  obtain ⟨negative', m', e', hparts', hdivisor⟩ := exists_parts_of_rational? hy
  have hdvalue : (d : ℚ) = m' * 2 ^ e' := natAbs_eq_of_parts (z := d) hdivisor
  have hm' : m' ≠ 0 := by
    rintro rfl
    rw [Nat.cast_zero, zero_mul, Nat.cast_eq_zero] at hdvalue
    omega
  obtain ⟨hmlt, hlow, hhigh⟩ := parts_bounds hparts
  obtain ⟨hmlt', hlow', hhigh'⟩ := parts_bounds hparts'
  rw [remainder, hparts, hparts']
  simp only [if_neg hm', Nat.pow_eq]
  -- Both numbers are multiples of the same power of two, and so is the remainder.
  obtain ⟨low, hmin, hle, hle', heither⟩ : ∃ low, min e e' = low ∧ low ≤ e ∧ low ≤ e' ∧
      (e - low = 0 ∨ e' - low = 0) := ⟨min e e', rfl, by omega, by omega, by omega⟩
  rw [hmin]
  have hvalue := mod_mul_zpow ((shift_mul_zpow m hle).trans (natAbs_eq_of_parts hz).symm)
    ((shift_mul_zpow m' hle').trans hdvalue.symm)
  have hlt : m * 2 ^ (e - low).toNat % (m' * 2 ^ (e' - low).toNat) < 2 ^ 53 := by
    have hpos : 0 < m' * 2 ^ (e' - low).toNat :=
      Nat.mul_pos (Nat.pos_of_ne_zero hm') (Nat.two_pow_pos _)
    rcases heither with hsame | hsame
    · have hmod := Nat.mod_le (m * 2 ^ (e - low).toNat) (m' * 2 ^ (e' - low).toNat)
      simp only [hsame, Int.toNat_zero, pow_zero, Nat.mul_one] at hmod ⊢
      omega
    · have hmod := Nat.mod_lt (m * 2 ^ (e - low).toNat) hpos
      simp only [hsame, Int.toNat_zero, pow_zero, Nat.mul_one] at hmod ⊢
      omega
  generalize m * 2 ^ (e - low).toNat % (m' * 2 ^ (e' - low).toNat) = r at *
  have hlog : r.log2 < 53 := log2_lt_of_lt (by decide) hlt
  rw [rational?_ofParts negative hlt
    (fun hr => by have := log2_ge_of_mul_zpow hvalue hr; omega) (fun _ => by omega)]
  congr 1
  calc (withSign negative r : ℚ) * 2 ^ low = withSign negative (z.natAbs % d) :=
        withSign_mul_eq negative hvalue
    _ = (z.tmod d : ℤ) := by
        rw [eq_withSign_natAbs hz, tmod_withSign, ← eq_withSign_natAbs hz]

/-! ## Signs and sums -/

theorem lt_zero_iff {x : Float} {q : ℚ} (h : rational? x = some q) : x < 0.0 ↔ q < 0 := by
  have hzero : (0.0 : Float).toModel.unpack = .zero .positive := by rfl
  show x.lt 0.0 = true ↔ q < 0
  rw [Float.lt, decide_eq_true_eq]
  show Float.Model.lt x.toModel (0.0 : Float).toModel = true ↔ q < 0
  rw [Float.Model.lt, hzero, UnpackedFloat.lt]
  rw [rational?] at h
  cases hu : x.toModel.unpack with
  | notANumber => simp [hu] at h
  | infinity sign => simp [hu] at h
  | zero sign =>
    obtain rfl : 0 = q := by simpa [hu] using h
    simp [UnpackedFloat.compare]
  | finite sign m e hm =>
    obtain rfl : (sign.apply m : ℚ) * 2 ^ e = q := by simpa [hu] using h
    have hm' : (0 : ℚ) < m * 2 ^ e := by positivity
    cases sign with
    | positive => simpa [UnpackedFloat.compare, UnpackedFloat.Sign.apply] using le_of_lt hm'
    | negative => simpa [UnpackedFloat.compare, UnpackedFloat.Sign.apply] using hm'

theorem exists_finite_of_rational? {x : Float} {q : ℚ} (h : rational? x = some q) (hq : q ≠ 0) :
    ∃ sign m e hm, x.toModel.unpack = .finite sign m e hm ∧ q = sign.apply m * 2 ^ e := by
  rw [rational?] at h
  cases hu : x.toModel.unpack with
  | notANumber => simp [hu] at h
  | infinity sign => simp [hu] at h
  | zero sign =>
    rw [hu] at h
    exact absurd (Option.some.inj h).symm hq
  | finite sign m e hm =>
    rw [hu] at h
    exact ⟨sign, m, e, hm, rfl, (Option.some.inj h).symm⟩

theorem apply_natCast_mul (sign : UnpackedFloat.Sign) (a b : ℕ) :
    ((sign.apply (a * b : ℕ) : ℤ) : ℚ) = sign.apply a * b := by
  cases sign <;> simp [UnpackedFloat.Sign.apply]

/-- A sum that is a number with few bits is not rounded. -/
theorem rational?_add {x y : Float} {p q : ℚ} {n : ℕ} (hx : rational? x = some p)
    (hy : rational? y = some q) (hp : p ≠ 0) (hq : q ≠ 0) (hsum : p + q = n) (hpos : 0 < n)
    (hlt : n < 2 ^ 53) : rational? (x + y) = some (n : ℚ) := by
  obtain ⟨sign, m, e, hm, hu, rfl⟩ := exists_finite_of_rational? hx hp
  obtain ⟨sign', m', e', hm', hu', rfl⟩ := exists_finite_of_rational? hy hq
  rw [← rational?_nearest hlt, nearest, Float.Model.ofNat, ofNat_eq_nearestParts hpos]
  show rational? (Float.ofModel (.pack (UnpackedFloat.add .binary64 x.toModel.unpack
    y.toModel.unpack))) = _
  rw [hu, hu']
  congr 3
  simp only [UnpackedFloat.add, UnpackedFloat.decreaseExponent, Nat.shiftLeft_eq]
  obtain ⟨low, hmin, hle, hle'⟩ : ∃ low, min e e' = low ∧ low ≤ e ∧ low ≤ e' :=
    ⟨min e e', rfl, by omega, by omega⟩
  rw [hmin]
  have hvalue : ((sign.apply (m * 2 ^ (e - low).toNat : ℕ) +
      sign'.apply (m' * 2 ^ (e' - low).toNat : ℕ) : ℤ) : ℚ) * 2 ^ low = n := by
    rw [← hsum, Int.cast_add, add_mul, apply_natCast_mul, apply_natCast_mul]
    have hshift := shift_mul_zpow m hle
    have hshift' := shift_mul_zpow m' hle'
    cases sign <;> cases sign' <;> simp [UnpackedFloat.Sign.apply] at * <;> linarith
  generalize sign.apply (m * 2 ^ (e - low).toNat : ℕ) +
    sign'.apply (m' * 2 ^ (e' - low).toNat : ℕ) = mantissa at *
  have hmantissa : 0 < mantissa := by
    have hpow : (0 : ℚ) < 2 ^ low := by positivity
    have hnq : (0 : ℚ) < n := by exact_mod_cast hpos
    rw [← hvalue] at hnq
    exact_mod_cast pos_of_mul_pos_left hnq hpow.le
  obtain ⟨k, rfl⟩ := Int.eq_ofNat_of_zero_le hmantissa.le
  have hk : 0 < k := by exact_mod_cast hmantissa
  rw [Int.cast_natCast] at hvalue
  have hlog := log2_ge_of_mul_zpow hvalue (Nat.ne_of_gt hk)
  rw [normalize_natCast hk, round_eq .positive hk (by omega)]
  exact carry_eq_nearestParts hk hpos (mul_zpow_eq_iff.mp hvalue) (by omega)

/-! ## The cast -/

theorem toNat_toUInt32 {x : Float} {n : ℕ} (h : rational? x = some (n : ℚ)) (hlt : n < 2 ^ 32) :
    x.toUInt32.toNat = n := by
  have hvalue : UnpackedFloat.toInt 0 (UInt32.size - 1) x.toModel.unpack = n := by
    rw [rational?] at h
    cases hu : x.toModel.unpack with
    | notANumber => simp [hu] at h
    | infinity sign => simp [hu] at h
    | zero sign =>
      have hzero : (0 : ℚ) = n := by simpa [hu] using h
      have hzero' : 0 = n := by exact_mod_cast hzero
      rw [← hzero']
      rfl
    | finite sign m e hm =>
      rw [hu] at h
      have hn : (sign.apply m : ℚ) * 2 ^ e = n := Option.some.inj h
      have hpos : (0 : ℚ) < m * 2 ^ e := by positivity
      cases sign with
      | negative =>
        rw [UnpackedFloat.Sign.apply] at hn
        push_cast at hn
        have hnonneg : (0 : ℚ) ≤ n := by positivity
        linarith
      | positive =>
        have hwhole : m * 2 ^ e.toNat = n * 2 ^ (-e).toNat :=
          mul_zpow_eq_iff.mp (by simpa [UnpackedFloat.Sign.apply] using hn)
        have hleft : (e - 0).toNat = e.toNat := by omega
        have hright : (0 - (e - e.toNat)).toNat = (-e).toNat := by omega
        simp only [UnpackedFloat.toInt, UnpackedFloat.roundToInt, UnpackedFloat.decreaseExponent,
          UnpackedFloat.shiftToExponent, shiftRight_exact, UnpackedFloat.Sign.apply, hleft, hright,
          Nat.shiftLeft_eq, hwhole]
        rw [Nat.mul_div_cancel _ (Nat.two_pow_pos _)]
  show (UInt32.ofNatClamp
    (UnpackedFloat.toInt 0 (UInt32.size - 1) x.toModel.unpack).toNat).toNat = n
  rw [hvalue, Int.toNat_natCast, UInt32.ofNatClamp]
  have hsize : n < UInt32.size := hlt
  rw [dif_pos hsize]
  rfl

/-! ## The bits -/

/-- The integer that is left is between zero and the divisor. -/
theorem rational?_remEuclid {x y : Float} {z : ℤ} {d : ℕ} (hx : rational? x = some (z : ℚ))
    (hy : rational? y = some (d : ℚ)) (habs : y.abs = y) (hd : 0 < d) (hlt : d < 2 ^ 53) :
    rational? (remEuclid x y) = some ((z % d : ℤ) : ℚ) := by
  have hrem := rational?_remainder hx hy hd
  have hcongruent : z % d = z.tmod d % d := by
    conv_lhs => rw [← Int.mul_tdiv_add_tmod z d]
    exact Int.mul_add_emod_self_left _ _ _
  have hpos : (0 : ℤ) < d := by exact_mod_cast hd
  have hbelow : z.tmod d < d := Int.tmod_lt_of_pos z hpos
  have habove : -d < z.tmod d := by
    have := Int.lt_tmod_of_pos z hpos
    omega
  rw [remEuclid]
  simp only [lt_zero_iff hrem, habs]
  split
  · rename_i hneg
    have hneg' : z.tmod d < 0 := by exact_mod_cast hneg
    have hmod : z % d = z.tmod d + d := by
      rw [hcongruent, ← Int.add_emod_right, Int.emod_eq_of_lt (by omega) (by omega)]
    obtain ⟨n, hn⟩ := Int.eq_ofNat_of_zero_le (show 0 ≤ z.tmod d + d by omega)
    have hsum : ((z.tmod d : ℤ) : ℚ) + d = n := by exact_mod_cast hn
    rw [hmod, hn, rational?_add hrem hy (ne_of_lt hneg) (by positivity) hsum (by omega) (by omega)]
    rfl
  · rename_i hneg
    have hnonneg : 0 ≤ z.tmod d := by
      by_contra h
      exact hneg (by exact_mod_cast Int.not_le.mp h)
    rw [hrem, hcongruent, Int.emod_eq_of_lt hnonneg hbelow]

/-- The low 32 bits are those of the integer next to the number on the way to zero. -/
theorem word32_eq_ofInt (x : Float) : word32 x = BitVec.ofInt 32 (truncate x) := by
  rw [word32]
  cases hfinite : x.isFinite with
  | false =>
    rw [truncate_of_not_isFinite hfinite]
    rfl
  | true =>
    have hdivisor : (4294967296.0 : Float) = nearest (2 ^ 32) := by decide +kernel
    have hrem := rational?_remEuclid (rational?_trunc hfinite) (rational?_nearest (by decide))
      (show (nearest (2 ^ 32)).abs = nearest (2 ^ 32) by decide +kernel) (by decide) (by decide)
    rw [← hdivisor] at hrem
    obtain ⟨n, hn⟩ := Int.eq_ofNat_of_zero_le
      (Int.emod_nonneg (truncate x) (show ((2 ^ 32 : ℕ) : ℤ) ≠ 0 by decide))
    have hlt : n < 2 ^ 32 := by omega
    rw [hn, Int.cast_natCast] at hrem
    apply BitVec.eq_of_toNat_eq
    rw [BitVec.toNat_ofInt, hn]
    exact toNat_toUInt32 hrem hlt

end Double

end DefineFold
