/-
  DefineFold.Proofs.Primitive.Comparison

  How the comparison operators fit together. Doubles are compared by one order, in which only a NaN
  has no place (`compareNumbers_eq`), and turning two doubles around turns it around. Hence the
  order of two values is turned around with them (`Primitive.compare_swap`), and equality with
  conversion does not care which of the two comes first (`Primitive.looseEq_comm`). Where the two
  have one type, it is equality without conversion (`Primitive.strictEq_iff`).

  Main statements: the laws that tie the operators together (`comparisons_coherent`), and the order
  of strings, which is that of their code units (`holds_string_order`).
-/

import Mathlib.Logic.ExistsUnique
import DefineFold.Primitive.Operator
import DefineFold.Proofs.Text.Units

namespace DefineFold

/-- An order that may be missing, turned around. -/
theorem map_swap_eq_some_iff {o : Option Ordering} {order : Ordering} :
    o.map Ordering.swap = some order ↔ o = some order.swap := by
  cases o with
  | none => simp
  | some other => cases other <;> cases order <;> simp

/-! ## Doubles -/

namespace Double

open Float.Model

/-- Exponents first and mantissas then, turned around. -/
theorem magnitude_swap (m n : Nat) (d e : Int) :
    (compare d e).then (compare m n) = ((compare e d).then (compare n m)).swap := by
  rw [Ordering.swap_then, Int.compare_swap, Nat.compare_swap]

theorem unpacked_compare_swap (u v : UnpackedFloat) :
    u.compare v = (v.compare u).map Ordering.swap := by
  cases u with
  | notANumber => cases v <;> rfl
  | infinity sign => cases sign <;> rcases v with (_ | _) | _ | _ | ⟨_ | _⟩ <;> rfl
  | zero sign => rcases v with (_ | _) | _ | _ | ⟨_ | _⟩ <;> rfl
  | finite sign m e hm =>
    cases v with
    | notANumber => cases sign <;> rfl
    | infinity other => cases sign <;> cases other <;> rfl
    | zero other => cases sign <;> rfl
    | finite other n d hn =>
      -- Only two numbers of one sign are told apart by their exponents and mantissas.
      cases sign <;> cases other
      · exact congrArg (some ∘ Ordering.swap) (magnitude_swap m n e d)
      · rfl
      · rfl
      · exact congrArg some (magnitude_swap m n e d)

theorem isNone_unpacked_compare (u v : UnpackedFloat) :
    (u.compare v).isNone = (u.isNaN || v.isNaN) := by
  rcases u with (_ | _) | _ | _ | ⟨_ | _⟩ <;> rcases v with (_ | _) | _ | _ | ⟨_ | _⟩ <;> rfl

theorem compare_swap (x y : Float) :
    x.toModel.compare y.toModel = (y.toModel.compare x.toModel).map Ordering.swap :=
  unpacked_compare_swap _ _

theorem compare_eq_none_iff (x y : Float) :
    x.toModel.compare y.toModel = none ↔ x.isNaN = true ∨ y.isNaN = true := by
  rw [← Option.isNone_iff_eq_none, ← Bool.or_eq_true]
  exact Bool.eq_iff_iff.mp (isNone_unpacked_compare _ _)

theorem beq_iff {x y : Float} : (x == y) = true ↔ x.toModel.compare y.toModel = some .eq := by
  show (x.toModel.compare y.toModel == some .eq) = true ↔ _
  exact beq_iff_eq

theorem lt_iff {x y : Float} : x < y ↔ x.toModel.compare y.toModel = some .lt := by
  show decide ((x.toModel.compare y.toModel == some .lt) = true) = true ↔ _
  rw [decide_eq_true_eq]
  exact beq_iff_eq

theorem beq_comm (x y : Float) : (x == y) = (y == x) := by
  rw [Bool.eq_iff_iff, beq_iff, beq_iff, compare_swap x y, map_swap_eq_some_iff]
  exact Iff.rfl

end Double

namespace Primitive

/-- The three questions that are asked one after the other are one comparison. -/
theorem compareNumbers_eq (x y : Float) : compareNumbers x y = x.toModel.compare y.toModel := by
  rw [compareNumbers]
  simp only [Double.lt_iff, Double.beq_iff, Double.compare_swap y x]
  cases x.toModel.compare y.toModel with
  | none => simp
  | some order => cases order <;> simp

/-! ## Order of values -/

theorem compare_of_not_strings {a b : Primitive} (h : ∀ s t, ¬ (a = .string s ∧ b = .string t)) :
    compare a b = a.toNumber.toModel.compare b.toNumber.toModel := by
  rw [← compareNumbers_eq]
  cases a with
  | string s =>
    cases b with
    | string t => exact absurd ⟨rfl, rfl⟩ (h s t)
    | _ => rfl
  | _ => rfl

theorem compare_swap (a b : Primitive) : compare a b = (compare b a).map Ordering.swap := by
  by_cases h : ∃ s t, a = .string s ∧ b = .string t
  · obtain ⟨s, t, rfl, rfl⟩ := h
    exact congrArg some (compareText_swap s t)
  · have hab : ∀ s t, ¬ (a = .string s ∧ b = .string t) := fun s t hst => h ⟨s, t, hst⟩
    have hba : ∀ s t, ¬ (b = .string s ∧ a = .string t) := fun s t hst => h ⟨t, s, hst.symm⟩
    rw [compare_of_not_strings hab, compare_of_not_strings hba]
    exact Double.compare_swap _ _

/-- Two values that are compared as numbers, with a NaN among them. -/
def MeetsNaN (a b : Primitive) : Prop :=
  (∀ s t, ¬ (a = .string s ∧ b = .string t)) ∧
    (a.toNumber.isNaN = true ∨ b.toNumber.isNaN = true)

theorem compare_eq_none_iff (a b : Primitive) : compare a b = none ↔ MeetsNaN a b := by
  by_cases h : ∃ s t, a = .string s ∧ b = .string t
  · obtain ⟨s, t, rfl, rfl⟩ := h
    -- Strings always have an order.
    exact ⟨fun hnone => by simp [compare] at hnone, fun hnan => absurd ⟨rfl, rfl⟩ (hnan.1 s t)⟩
  · have hab : ∀ s t, ¬ (a = .string s ∧ b = .string t) := fun s t hst => h ⟨s, t, hst⟩
    rw [compare_of_not_strings hab, Double.compare_eq_none_iff]
    exact ⟨fun hnan => ⟨hab, hnan⟩, And.right⟩

/-! ## Equality of values -/

theorem strictEq_comm (a b : Primitive) : strictEq a b = strictEq b a := by
  cases a <;> cases b <;> simp only [strictEq]
  case bool.bool p q => exact Bool.beq_comm
  case number.number x y => exact Double.beq_comm x y
  case string.string s t => exact BEq.comm

/-- A boolean as the number it converts to; everything else as it is. -/
def boolToNumber : Primitive → Primitive
  | .bool b => .number (if b then 1.0 else 0.0)
  | v => v

/-- Equality of two values of which none is a boolean or nullish. -/
def looseEqPlain : Primitive → Primitive → Bool
  | .number a, .string b => a == numberOfText b
  | .string a, .number b => numberOfText a == b
  | a, b => strictEq a b

theorem boolCount_boolToNumber (a : Primitive) : a.boolToNumber.boolCount = 0 := by
  cases a <;> rfl

theorem isNullish_boolToNumber (a : Primitive) : a.boolToNumber.isNullish = a.isNullish := by
  cases a <;> rfl

theorem looseEq_of_isNullish_or {a b : Primitive} (h : (a.isNullish || b.isNullish) = true) :
    looseEq a b = (a.isNullish && b.isNullish) := by
  rw [looseEq.eq_def, if_pos h]
  cases a.isNullish && b.isNullish <;> rfl

/-- A boolean on the left is converted first. -/
theorem looseEq_left (a b : Primitive) : looseEq a b = looseEq a.boolToNumber b := by
  cases a with
  | bool p =>
    cases hb : b.isNullish with
    | false =>
      rw [looseEq.eq_def, hb]
      rfl
    | true =>
      rw [looseEq_of_isNullish_or (by rw [hb, Bool.or_true]),
        looseEq_of_isNullish_or (by rw [hb, Bool.or_true]), isNullish_boolToNumber]
  | _ => rfl

/-- A boolean on the right is converted where there is none on the left. -/
theorem looseEq_right {a : Primitive} (ha : a.boolCount = 0) (b : Primitive) :
    looseEq a b = looseEq a b.boolToNumber := by
  cases b with
  | bool q =>
    cases a with
    | bool p => simp [boolCount] at ha
    | _ => simp [looseEq.eq_def _ (.bool q), looseEq_of_isNullish_or, isNullish, boolToNumber,
        toNumber]
  | _ => rfl

/-- Without booleans nothing is converted but a string next to a number. -/
theorem looseEq_of_boolCount {a b : Primitive} (ha : a.boolCount = 0) (hb : b.boolCount = 0) :
    looseEq a b = if a.isNullish || b.isNullish then a.isNullish && b.isNullish
      else looseEqPlain a b := by
  rw [looseEq.eq_def]
  cases a <;> cases b <;> simp [boolCount, isNullish, looseEqPlain, toNumber] at *

/-- What is asked of two values one after the other, the left one first, can be asked of both at
    once. -/
theorem looseEq_eq (a b : Primitive) :
    looseEq a b = if a.isNullish || b.isNullish then a.isNullish && b.isNullish
      else looseEqPlain a.boolToNumber b.boolToNumber := by
  rw [looseEq_left, looseEq_right (boolCount_boolToNumber a),
    looseEq_of_boolCount (boolCount_boolToNumber a) (boolCount_boolToNumber b),
    isNullish_boolToNumber, isNullish_boolToNumber]

theorem looseEqPlain_comm (a b : Primitive) : looseEqPlain a b = looseEqPlain b a := by
  cases a <;> cases b <;> simp only [looseEqPlain]
  case number.string x t => exact Double.beq_comm x (numberOfText t)
  case string.number s y => exact Double.beq_comm (numberOfText s) y
  all_goals exact strictEq_comm _ _

theorem looseEq_comm (a b : Primitive) : looseEq a b = looseEq b a := by
  rw [looseEq_eq, looseEq_eq, Bool.or_comm, Bool.and_comm, looseEqPlain_comm]

/-- Within one type nothing is converted but booleans, and these are told apart as numbers too. -/
theorem strictEq_iff (a b : Primitive) :
    strictEq a b = true ↔ a.typeName = b.typeName ∧ looseEq a b = true := by
  cases a with
  | bool p =>
    cases b with
    | bool q =>
      rw [looseEq_eq]
      cases p <;> cases q <;> decide
    | _ => simp [strictEq, typeName]
  | _ => cases b <;> simp [strictEq, typeName, looseEq_eq, isNullish, boolToNumber, looseEqPlain]

theorem looseEq_of_isNullish {a : Primitive} (h : a.isNullish = true) (b : Primitive) :
    looseEq a b = true ↔ b = .null ∨ b = .undefined := by
  rw [looseEq_eq, h]
  cases b <;> simp [isNullish]

end Primitive

/-! ## Operators -/

namespace BinaryOp

/-- The operator answers `true`. -/
def Holds (op : BinaryOp) (a b : Primitive) : Prop :=
  op.result? a b = some (.bool true)

instance (op : BinaryOp) (a b : Primitive) : Decidable (op.Holds a b) :=
  inferInstanceAs (Decidable (_ = _))

section

variable {a b : Primitive}

theorem holds_eq : BinaryOp.eq.Holds a b ↔ Primitive.looseEq a b = true := by
  simp [Holds, result?]

theorem holds_strictEq : BinaryOp.strictEq.Holds a b ↔ Primitive.strictEq a b = true := by
  simp [Holds, result?]

theorem holds_less : BinaryOp.less.Holds a b ↔ Primitive.compare a b = some .lt := by
  simp [Holds, result?]

theorem holds_greater : BinaryOp.greater.Holds a b ↔ Primitive.compare a b = some .gt := by
  simp [Holds, result?]

theorem holds_lessEq :
    BinaryOp.lessEq.Holds a b ↔
      Primitive.compare a b = some .lt ∨ Primitive.compare a b = some .eq := by
  simp [Holds, result?]

theorem holds_greaterEq :
    BinaryOp.greaterEq.Holds a b ↔
      Primitive.compare a b = some .gt ∨ Primitive.compare a b = some .eq := by
  simp [Holds, result?]

end

/-- The laws of the comparison operators. -/
theorem comparisons_coherent (a b : Primitive) :
    (∀ op : BinaryOp, op.family = .comparison → ∃ v, op.result? a b = some (.bool v)) ∧
    (BinaryOp.eq.Holds a b ↔ BinaryOp.eq.Holds b a) ∧
    (BinaryOp.strictEq.Holds a b ↔ a.typeName = b.typeName ∧ BinaryOp.eq.Holds a b) ∧
    (BinaryOp.less.Holds a b ↔ BinaryOp.greater.Holds b a) ∧
    (BinaryOp.lessEq.Holds a b ↔ BinaryOp.greaterEq.Holds b a) ∧
    (BinaryOp.lessEq.Holds a b ↔
      BinaryOp.less.Holds a b ∨
        ¬ BinaryOp.less.Holds a b ∧ ¬ BinaryOp.greater.Holds a b ∧ ¬ Primitive.MeetsNaN a b) ∧
    (BinaryOp.eq.Holds .null b ↔ b = .null ∨ b = .undefined) ∧
    (BinaryOp.eq.Holds .undefined b ↔ b = .null ∨ b = .undefined) := by
  simp only [holds_eq, holds_strictEq, holds_less, holds_greater, holds_lessEq, holds_greaterEq,
    ← Primitive.compare_eq_none_iff]
  refine ⟨?_, ?_, Primitive.strictEq_iff a b, ?_, ?_, ?_, Primitive.looseEq_of_isNullish rfl b,
    Primitive.looseEq_of_isNullish rfl b⟩
  · intro op hop
    cases op <;> first | exact ⟨_, rfl⟩ | cases hop
  · rw [Primitive.looseEq_comm]
  · rw [Primitive.compare_swap b a, map_swap_eq_some_iff]
    exact Iff.rfl
  · rw [Primitive.compare_swap b a, map_swap_eq_some_iff, map_swap_eq_some_iff]
    exact Iff.rfl
  · -- One of the three orders, or none; only the last leaves both comparisons open.
    cases Primitive.compare a b with
    | none => simp
    | some order => cases order <;> simp

/-- A text that is no number is neither before a number nor behind it. -/
theorem comparisons_coherent_text :
    BinaryOp.lessEq.family = .comparison ∧
    (∃ v, BinaryOp.lessEq.result? (.string "x") (.number 1.0) = some (.bool v)) ∧
    ¬ BinaryOp.lessEq.Holds (.string "x") (.number 1.0) ∧
    ¬ BinaryOp.greaterEq.Holds (.number 1.0) (.string "x") := by
  obtain ⟨hresult, -, -, -, hturned, -⟩ := comparisons_coherent (.string "x") (.number 1.0)
  have hnot : ¬ BinaryOp.lessEq.Holds (.string "x") (.number 1.0) := by decide +kernel
  exact ⟨rfl, hresult .lessEq rfl, hnot, fun hholds => hnot (hturned.mpr hholds)⟩

/-- The operator that holds of two strings in a given order. -/
def ofOrder : Ordering → BinaryOp
  | .lt => .less
  | .eq => .strictEq
  | .gt => .greater

theorem holds_string_iff (op : BinaryOp) (s t : String) :
    op ∈ [BinaryOp.less, .strictEq, .greater] ∧ op.Holds (.string s) (.string t) ↔
      op = ofOrder (compareText s t) := by
  -- Equality looks at the characters; that it agrees with the order is what needs code units.
  have hstrict : Primitive.strictEq (.string s) (.string t) = true ↔ compareText s t = .eq := by
    rw [compareText_eq_eq_iff]
    exact beq_iff_eq
  constructor
  · rintro ⟨hop, hholds⟩
    simp only [List.mem_cons, List.not_mem_nil, or_false] at hop
    rcases hop with rfl | rfl | rfl
    · rw [Option.some.inj (holds_less.mp hholds)]
      rfl
    · rw [hstrict.mp (holds_strictEq.mp hholds)]
      rfl
    · rw [Option.some.inj (holds_greater.mp hholds)]
      rfl
  · rintro rfl
    cases horder : compareText s t with
    | lt => exact ⟨by decide, holds_less.mpr (congrArg some horder)⟩
    | eq => exact ⟨by decide, holds_strictEq.mpr (hstrict.mpr horder)⟩
    | gt => exact ⟨by decide, holds_greater.mpr (congrArg some horder)⟩

/-- Strings are in the order of their code units, and one of three operators holds of any two. -/
theorem holds_string_order (s t u : String) :
    (∃! op, op ∈ [BinaryOp.less, .strictEq, .greater] ∧ op.Holds (.string s) (.string t)) ∧
    (BinaryOp.less.Holds (.string s) (.string t) → BinaryOp.less.Holds (.string t) (.string u) →
      BinaryOp.less.Holds (.string s) (.string u)) ∧
    (BinaryOp.less.Holds (.string s) (.string t) ↔ units s < units t) ∧
    (BinaryOp.lessEq.Holds (.string s) (.string t) ∧
      BinaryOp.greaterEq.Holds (.string s) (.string t) ↔ s = t) := by
  have hless : ∀ s t, BinaryOp.less.Holds (.string s) (.string t) ↔ units s < units t := by
    intro s t
    rw [holds_less, ← compareText_eq_lt_iff]
    exact Option.some_inj
  refine ⟨?_, ?_, hless s t, ?_⟩
  · simp only [holds_string_iff]
    exact existsUnique_eq
  · intro hst htu
    rw [hless] at hst htu ⊢
    exact List.lt_trans hst htu
  · rw [holds_lessEq, holds_greaterEq, ← compareText_eq_eq_iff]
    simp only [Primitive.compare]
    cases compareText s t <;> simp

/-- A character above U+FFFF comes before U+E000, the other way round than by code points. -/
theorem holds_string_order_surrogate :
    BinaryOp.less.Holds (.string "a") (.string "😀") ∧
      BinaryOp.less.Holds (.string "😀") (.string "\uE000") ∧
      BinaryOp.less.Holds (.string "a") (.string "\uE000") := by
  have hfirst : BinaryOp.less.Holds (.string "a") (.string "😀") := by decide
  have hsecond : BinaryOp.less.Holds (.string "😀") (.string "\uE000") := by decide
  exact ⟨hfirst, hsecond, (holds_string_order _ _ _).2.1 hfirst hsecond⟩

end BinaryOp

end DefineFold
