/-
  DefineFold.Proofs.Primitive.Bitwise

  The bitwise operators as operations on integers. An operand is cut to an integer of any size and
  taken modulo `2 ^ 32`; what the operators do to such integers is said with the arithmetic of
  integers and with bits that go on to the left for ever (`BinaryOp.integer?`). The words of 32 bits
  on which they are computed are those of the integers (`Double.word32_eq_ofInt`) and have the same
  bits (`testBit_toInt`), and every result is small enough to be a double, so that nothing is
  rounded (`bitwise_exact`).
-/

import DefineFold.Primitive.Operator
import DefineFold.Proofs.Number.Word

namespace DefineFold

/-! ## Bits of integers -/

/-- Integers with the same bits are equal. -/
theorem eq_of_testBit_eq {m n : ℤ} (h : ∀ i, m.testBit i = n.testBit i) : m = n := by
  -- Far enough to the left all bits are those of the sign.
  have hfar : ∀ a b : ℕ, ∃ i, a.testBit i = false ∧ b.testBit i = false := by
    intro a b
    refine ⟨a + b, Nat.testBit_lt_two_pow ?_, Nat.testBit_lt_two_pow ?_⟩
    · exact Nat.lt_of_le_of_lt (Nat.le_add_right a b) Nat.lt_two_pow_self
    · exact Nat.lt_of_le_of_lt (Nat.le_add_left b a) Nat.lt_two_pow_self
  cases m with
  | ofNat a =>
    cases n with
    | ofNat b => exact congrArg Int.ofNat (Nat.eq_of_testBit_eq h)
    | negSucc b =>
      obtain ⟨i, ha, hb⟩ := hfar a b
      have hi := h i
      simp [Int.testBit, ha, hb] at hi
  | negSucc a =>
    cases n with
    | ofNat b =>
      obtain ⟨i, ha, hb⟩ := hfar a b
      have hi := h i
      simp [Int.testBit, ha, hb] at hi
    | negSucc b =>
      have hbits : ∀ i, a.testBit i = b.testBit i := by
        intro i
        simpa [Int.testBit] using h i
      exact congrArg Int.negSucc (Nat.eq_of_testBit_eq hbits)

/-- A word read with a sign has its own bits, and its first one before them for ever. -/
theorem testBit_toInt {w : ℕ} (x : BitVec w) (i : ℕ) :
    x.toInt.testBit i = if i < w then x.getLsbD i else x.msb := by
  cases hmsb : x.msb with
  | false =>
    rw [BitVec.toInt_eq_msb_cond, hmsb]
    show x.toNat.testBit i = _
    split
    · rfl
    · rename_i hi
      exact BitVec.getLsbD_of_ge x i (Nat.le_of_not_lt hi)
  | true =>
    have hlt := x.isLt
    have hneg : x.toInt = Int.negSucc (2 ^ w - (x.toNat + 1)) := by
      rw [BitVec.toInt_eq_msb_cond, hmsb, if_pos rfl, Int.negSucc_eq]
      omega
    rw [hneg]
    show (!(2 ^ w - (x.toNat + 1)).testBit i) = _
    rw [Nat.testBit_two_pow_sub_succ hlt]
    split
    · rename_i hi
      rw [decide_eq_true hi, Bool.true_and, Bool.not_not]
      rfl
    · rename_i hi
      rw [decide_eq_false hi]
      rfl

/-- Words that are combined bit by bit are combined as integers. -/
theorem toInt_eq_of_bits {w : ℕ} (f : Bool → Bool → Bool) {x y z : BitVec w} {n : ℤ}
    (hbits : ∀ i, z.getLsbD i = f (x.getLsbD i) (y.getLsbD i)) (hmsb : z.msb = f x.msb y.msb)
    (hn : ∀ i, n.testBit i = f (x.toInt.testBit i) (y.toInt.testBit i)) : z.toInt = n := by
  apply eq_of_testBit_eq
  intro i
  rw [hn, testBit_toInt, testBit_toInt, testBit_toInt, hbits, hmsb]
  split <;> rfl

/-! ## Integers of 32 bits -/

/-- An integer modulo `2 ^ 32`, read with a sign. -/
def signedWord (z : ℤ) : ℤ :=
  z.bmod (2 ^ 32)

/-- An integer modulo `2 ^ 32`, read without a sign. -/
def unsignedWord (z : ℤ) : ℤ :=
  z % 2 ^ 32

/-- How far an integer shifts. -/
def shiftBy (z : ℤ) : ℕ :=
  (z % 32).toNat

/-- What a bitwise operator makes of two integers of any size. -/
def BinaryOp.integer? (op : BinaryOp) (x y : ℤ) : Option ℤ :=
  match op with
  | .shiftLeft => some (signedWord (signedWord x * 2 ^ shiftBy y))
  | .shiftRight => some (signedWord x / 2 ^ shiftBy y)
  | .shiftRightUnsigned => some (unsignedWord x / 2 ^ shiftBy y)
  | .bitAnd => some (Int.land (signedWord x) (signedWord y))
  | .bitOr => some (Int.lor (signedWord x) (signedWord y))
  | .bitXor => some (Int.xor (signedWord x) (signedWord y))
  | _ => none

/-- Where the results of a bitwise operator lie. -/
def BinaryOp.wordRange (op : BinaryOp) : Set ℤ :=
  if op = .shiftRightUnsigned then Set.Ico 0 (2 ^ 32) else Set.Ico (-2 ^ 31) (2 ^ 31)

/-! ## Words of doubles -/

namespace Double

theorem toInt_word32 (x : Float) : (word32 x).toInt = signedWord (wholePart x) := by
  rw [word32_eq_ofInt, truncate_eq_wholePart, BitVec.toInt_ofInt, signedWord]

theorem toNat_word32 (x : Float) : ((word32 x).toNat : ℤ) = unsignedWord (wholePart x) := by
  rw [word32_eq_ofInt, truncate_eq_wholePart, BitVec.toNat_ofInt, unsignedWord]
  exact Int.toNat_of_nonneg (by omega)

theorem shiftCount_word32 (x : Float) :
    Primitive.shiftCount (word32 x) = shiftBy (wholePart x) := by
  have hword := toNat_word32 x
  rw [unsignedWord] at hword
  rw [Primitive.shiftCount, shiftBy]
  omega

end Double

theorem toInt_shiftLeft_eq (x : BitVec 32) (k : ℕ) :
    (x <<< k).toInt = signedWord (x.toInt * 2 ^ k) := by
  rw [BitVec.toInt_shiftLeft, signedWord, BitVec.toInt_eq_toNat_bmod, Int.bmod_mul_bmod,
    Nat.shiftLeft_eq, Int.natCast_mul, Int.natCast_pow]
  rfl

theorem toInt_sshiftRight_eq (x : BitVec 32) (k : ℕ) :
    (x.sshiftRight k).toInt = x.toInt / 2 ^ k := by
  rw [BitVec.toInt_sshiftRight, Int.shiftRight_eq_div_pow, Int.natCast_pow]
  rfl

/-- Turning every bit over reflects an integer at a half below zero. -/
theorem toInt_not_eq (x : BitVec 32) : (~~~x).toInt = -x.toInt - 1 := by
  have hlt := x.isLt
  rw [BitVec.toInt_eq_toNat_cond, BitVec.toInt_eq_toNat_cond, BitVec.toNat_not]
  split <;> split <;> omega

/-! ## Operators -/

namespace Primitive

/-- The integer to which a value is cut. -/
def wholeNumber (a : Primitive) : ℤ :=
  Double.wholePart a.toNumber

/-- The value is a number, and it is exactly this integer. -/
def IsInteger (a : Primitive) (n : ℤ) : Prop :=
  ∃ x, a = .number x ∧ Double.rational? x = some (n : ℚ)

theorem isInteger_toInt (w : BitVec 32) :
    IsInteger (.number (Float.ofInt w.toInt)) w.toInt ∧ w.toInt ∈ Set.Ico (-2 ^ 31) (2 ^ 31) := by
  have hlow := BitVec.le_toInt w
  have hhigh := BitVec.toInt_lt (x := w)
  exact ⟨⟨_, rfl, Double.rational?_ofInt (by omega)⟩, hlow, hhigh⟩

/-- An operation on words, by what it does to integers. -/
theorem isInteger_onWords (f : BitVec 32 → BitVec 32 → BitVec 32) (a b : Primitive) {n : ℤ}
    (h : (f (Double.word32 a.toNumber) (Double.word32 b.toNumber)).toInt = n) :
    (onWords f a b).IsInteger n ∧ n ∈ Set.Ico (-2 ^ 31) (2 ^ 31) := by
  rw [← h]
  exact isInteger_toInt _

/-- A shift that reads its word without a sign. -/
theorem isInteger_unsigned (a : Primitive) (k : ℕ) :
    IsInteger (.number (Float.ofNat ((Double.word32 a.toNumber).toNat >>> k)))
        (unsignedWord a.wholeNumber / 2 ^ k) ∧
      unsignedWord a.wholeNumber / 2 ^ k ∈ Set.Ico 0 (2 ^ 32) := by
  have hlt := (Double.word32 a.toNumber).isLt
  have hle := Nat.div_le_self (Double.word32 a.toNumber).toNat (2 ^ k)
  have hcast : (((Double.word32 a.toNumber).toNat / 2 ^ k : ℕ) : ℤ) =
      unsignedWord a.wholeNumber / 2 ^ k := by
    rw [wholeNumber, ← Double.toNat_word32, Int.natCast_ediv, Int.natCast_pow]
    rfl
  rw [Nat.shiftRight_eq_div_pow, ← hcast]
  refine ⟨⟨_, rfl, ?_⟩, ?_, ?_⟩
  · rw [Double.rational?_ofNat (by omega)]
    rfl
  · exact Int.natCast_nonneg _
  · omega

end Primitive

/-- The bitwise operators compute integers, and round none of them. -/
theorem bitwise_exact (a b : Primitive) :
    (∀ op : BinaryOp, op.family = .bitwise →
      ∃ v n, op.result? a b = some v ∧ op.integer? a.wholeNumber b.wholeNumber = some n ∧
        v.IsInteger n ∧ n ∈ op.wordRange) ∧
    (UnaryOp.bitNot.apply a).IsInteger (-signedWord a.wholeNumber - 1) ∧
      -signedWord a.wholeNumber - 1 ∈ Set.Ico (-2 ^ 31) (2 ^ 31) := by
  have hleft : (Double.word32 a.toNumber).toInt = signedWord a.wholeNumber :=
    Double.toInt_word32 a.toNumber
  have hright : (Double.word32 b.toNumber).toInt = signedWord b.wholeNumber :=
    Double.toInt_word32 b.toNumber
  have hcount : Primitive.shiftCount (Double.word32 b.toNumber) = shiftBy b.wholeNumber :=
    Double.shiftCount_word32 b.toNumber
  refine ⟨?_, ?_⟩
  · intro op hop
    cases op with
    | shiftLeft =>
      refine ⟨_, _, rfl, rfl, Primitive.isInteger_onWords _ a b ?_⟩
      rw [hcount, toInt_shiftLeft_eq, hleft]
    | shiftRight =>
      refine ⟨_, _, rfl, rfl, Primitive.isInteger_onWords _ a b ?_⟩
      rw [hcount, toInt_sshiftRight_eq, hleft]
    | shiftRightUnsigned =>
      refine ⟨_, _, rfl, rfl, ?_⟩
      rw [hcount]
      exact Primitive.isInteger_unsigned a _
    -- These three work on every bit alone, so that words and integers agree bit by bit.
    | bitAnd =>
      refine ⟨_, _, rfl, rfl, Primitive.isInteger_onWords _ a b ?_⟩
      rw [← hleft, ← hright]
      exact toInt_eq_of_bits and (fun _ => BitVec.getLsbD_and) BitVec.msb_and (Int.testBit_land _ _)
    | bitOr =>
      refine ⟨_, _, rfl, rfl, Primitive.isInteger_onWords _ a b ?_⟩
      rw [← hleft, ← hright]
      exact toInt_eq_of_bits or (fun _ => BitVec.getLsbD_or) BitVec.msb_or (Int.testBit_lor _ _)
    | bitXor =>
      refine ⟨_, _, rfl, rfl, Primitive.isInteger_onWords _ a b ?_⟩
      rw [← hleft, ← hright]
      exact toInt_eq_of_bits xor (fun _ => BitVec.getLsbD_xor) BitVec.msb_xor
        (Int.testBit_lxor _ _)
    | _ => cases hop
  · have hnot : (~~~Double.word32 a.toNumber).toInt = -signedWord a.wholeNumber - 1 := by
      rw [toInt_not_eq, hleft]
    rw [← hnot]
    exact Primitive.isInteger_toInt _

/-- A fraction beyond 32 bits below zero, shifted further than a word is long. -/
theorem bitwise_exact_far :
    BinaryOp.shiftRightUnsigned.family = .bitwise ∧
    ∃ v, BinaryOp.shiftRightUnsigned.result? (.number (-4294967298.5)) (.number 33.0) = some v ∧
      v.IsInteger 2147483647 := by
  obtain ⟨v, n, hv, hn, hint, -⟩ :=
    (bitwise_exact (.number (-4294967298.5)) (.number 33.0)).1 .shiftRightUnsigned rfl
  have hleft : Primitive.wholeNumber (.number (-4294967298.5)) = -4294967298 :=
    (Double.truncate_eq_wholePart _).symm.trans (by decide +kernel)
  have hright : Primitive.wholeNumber (.number 33.0) = 33 :=
    (Double.truncate_eq_wholePart _).symm.trans (by decide +kernel)
  rw [hleft, hright] at hn
  cases hn
  exact ⟨rfl, v, hv, hint⟩

end DefineFold
