/-
  DefineFold.Proofs.Pass.Evaluation

  The value of an expression and how deep one looks. `valueByKind?_cases` says what an
  expression with a value can be, and `valueByKind?_mono` that its value depends on the values
  of its operands alone. So a value found within some depth is found within every greater one
  (`evaluateWithin?_mono`), and `Evaluates` is evaluation without a limit.
-/

import DefineFold.Pass.Evaluate
import DefineFold.Proofs.Tree.Grammar

namespace DefineFold

/-- The parts of an expression that its value is made of. -/
def Tree.operands (t : Tree) : List Tree :=
  match t.kind with
  | .parenthesizedExpression => t.firstNamed?.toList
  | .unaryExpression => (t.child? .argument).toList
  | .binaryExpression => (t.child? .left).toList ++ (t.child? .right).toList
  | _ => []

theorem Tree.mem_children_of_mem_operands {t x : Tree} (h : x ∈ t.operands) :
    x ∈ t.children := by
  rw [operands] at h
  split at h
  · exact List.mem_of_find?_eq_some (Option.mem_toList.mp h)
  · exact List.mem_of_find?_eq_some (Option.mem_toList.mp h)
  · rcases List.mem_append.mp h with h | h
    · exact List.mem_of_find?_eq_some (Option.mem_toList.mp h)
    · exact List.mem_of_find?_eq_some (Option.mem_toList.mp h)
  · exact absurd h List.not_mem_nil

/-- Only composite expressions have operands. -/
theorem Tree.isComposite_of_mem_operands {t x : Tree} (h : x ∈ t.operands) :
    t.kind.isComposite = true := by
  rw [operands] at h
  split at h
  · rename_i hkind
    rw [hkind]
    rfl
  · rename_i hkind
    rw [hkind]
    rfl
  · rename_i hkind
    rw [hkind]
    rfl
  · exact absurd h List.not_mem_nil

/-- The value of an expression depends on the values of its operands alone. -/
theorem valueByKind?_mono {src : Source} {f g : Tree → Option Primitive} {t : Tree}
    {v : Primitive} (hfg : ∀ x ∈ t.operands, ∀ w, f x = some w → g x = some w)
    (h : valueByKind? src f t = some v) : valueByKind? src g t = some v := by
  rw [Tree.operands] at hfg
  rw [valueByKind?] at h ⊢
  -- Three kinds ask for the values of parts; all others have their value or none by themselves.
  cases hkind : t.kind <;> simp only [hkind] at h hfg ⊢
  case parenthesizedExpression =>
    obtain ⟨x, hx, hfx⟩ := Option.bind_eq_some_iff.mp h
    rw [hx]
    exact hfg x (Option.mem_toList.mpr hx) v hfx
  case unaryExpression =>
    simp only [Option.bind_eq_bind, Option.bind_eq_some_iff] at h ⊢
    obtain ⟨op, hop, x, hx, w, hfx, hv⟩ := h
    exact ⟨op, hop, x, hx, w, hfg x (Option.mem_toList.mpr hx) w hfx, hv⟩
  case binaryExpression =>
    simp only [Option.bind_eq_bind, Option.bind_eq_some_iff] at h ⊢
    obtain ⟨op, hop, h⟩ := h
    refine ⟨op, hop, ?_⟩
    split at h
    · rename_i hfoldable
      simp only [Option.bind_eq_some_iff] at h
      obtain ⟨l, hl, r, hr, a, hfl, b, hfr, hv⟩ := h
      rw [if_pos hfoldable, hl, hr]
      simp only [Option.bind_some]
      rw [hfg l (List.mem_append_left _ (Option.mem_toList.mpr hl)) a hfl,
        hfg r (List.mem_append_right _ (Option.mem_toList.mpr hr)) b hfr]
      exact hv
    · simp at h
  all_goals exact h

/-- What an expression with a value is: a literal, the name `undefined`, or an expression whose
    operands have values. -/
theorem valueByKind?_cases {src : Source} {f : Tree → Option Primitive} {s : Site}
    {v : Primitive} (h : valueByKind? src f s.tree = some v) :
    s.isLiteral = true ∨ (s.kind = .identifier ∧ s.tree.text src = "undefined") ∨
      (s.kind = .parenthesizedExpression ∧ ∃ x w, s.tree.firstNamed? = some x ∧ f x = some w) ∨
      (s.kind = .unaryExpression ∧ ∃ x w, s.tree.child? .argument = some x ∧ f x = some w) ∨
      (s.kind = .binaryExpression ∧ ∃ l r a b, s.tree.child? .left = some l ∧
        s.tree.child? .right = some r ∧ f l = some a ∧ f r = some b) := by
  rw [valueByKind?] at h
  split at h
  case h_1 hkind | h_2 hkind | h_4 hkind | h_5 hkind | h_6 hkind | h_7 hkind =>
    exact Or.inl (by rw [Site.isLiteral, Site.kind, hkind])
  case h_3 hkind =>
    -- A template has a value only if nothing is substituted in it.
    rw [templateValue?] at h
    split at h
    · simp at h
    · rename_i hplain
      refine Or.inl ?_
      rw [Site.isLiteral, Site.kind, hkind]
      simpa using hplain
  case h_8 hkind =>
    split at h
    · rename_i htext
      exact Or.inr (Or.inl ⟨hkind, htext⟩)
    · simp at h
  case h_9 hkind =>
    obtain ⟨x, hx, hfx⟩ := Option.bind_eq_some_iff.mp h
    exact Or.inr (Or.inr (Or.inl ⟨hkind, x, v, hx, hfx⟩))
  case h_10 hkind =>
    simp only [Option.bind_eq_bind, Option.bind_eq_some_iff] at h
    obtain ⟨op, hop, x, hx, w, hfx, hv⟩ := h
    exact Or.inr (Or.inr (Or.inr (Or.inl ⟨hkind, x, w, hx, hfx⟩)))
  case h_11 hkind =>
    simp only [Option.bind_eq_bind, Option.bind_eq_some_iff] at h
    obtain ⟨op, hop, h⟩ := h
    split at h
    · simp only [Option.bind_eq_some_iff] at h
      obtain ⟨l, hl, r, hr, a, hfl, b, hfr, hv⟩ := h
      exact Or.inr (Or.inr (Or.inr (Or.inr ⟨hkind, l, r, a, b, hl, hr, hfl, hfr⟩)))
    · simp at h
  case h_12 => simp at h

/-! ## Depth -/

section Depth

variable {src : Source} {pending : EditSet}

/-- The value of an expression that an edit stands for. -/
theorem evaluateWithin?_of_matching? {depth : Nat} {t : Tree} {e : Edit}
    (h : pending.matching? t.start t.stop = some e) :
    evaluateWithin? src pending (depth + 1) t = e.value := by
  rw [evaluateWithin?, h]

/-- The value of an expression that no edit stands for. -/
theorem evaluateWithin?_eq_some_iff {depth : Nat} {t : Tree} {v : Primitive}
    (h : pending.matching? t.start t.stop = none) :
    evaluateWithin? src pending (depth + 1) t = some v ↔
      valueByKind? src (evaluateWithin? src pending depth) t = some v ∧ v.isNonFinite = false := by
  rw [evaluateWithin?, h]
  simp [Option.filter_eq_some_iff]

/-- A value found within some depth is found within one more. -/
theorem evaluateWithin?_succ {depth : Nat} {t : Tree} {v : Primitive}
    (h : evaluateWithin? src pending depth t = some v) :
    evaluateWithin? src pending (depth + 1) t = some v := by
  induction depth generalizing t v with
  | zero => simp [evaluateWithin?] at h
  | succ depth ih =>
    cases hmatch : pending.matching? t.start t.stop with
    | some e =>
      -- An edit answers on every depth.
      rw [evaluateWithin?_of_matching? hmatch] at h ⊢
      exact h
    | none =>
      rw [evaluateWithin?_eq_some_iff hmatch] at h ⊢
      exact ⟨valueByKind?_mono (fun x _ w hw => ih hw) h.1, h.2⟩

/-- A value found within some depth is found within every greater one. -/
theorem evaluateWithin?_mono {depth depth' : Nat} {t : Tree} {v : Primitive}
    (hle : depth ≤ depth') (h : evaluateWithin? src pending depth t = some v) :
    evaluateWithin? src pending depth' t = some v := by
  induction hle with
  | refl => exact h
  | step _ ih => exact evaluateWithin?_succ ih

end Depth

/-- An expression has a value if it is looked into deep enough. -/
def Evaluates (src : Source) (pending : EditSet) (t : Tree) (v : Primitive) : Prop :=
  ∃ depth, ∀ depth', depth ≤ depth' → evaluateWithin? src pending depth' t = some v

theorem Evaluates.of_evaluateWithin? {src : Source} {pending : EditSet} {depth : Nat} {t : Tree}
    {v : Primitive} (h : evaluateWithin? src pending depth t = some v) :
    Evaluates src pending t v :=
  ⟨depth, fun _ hle => evaluateWithin?_mono hle h⟩

/-- One depth is enough for several expressions that have values. -/
theorem exists_depth_of_evaluates {src : Source} {pending : EditSet}
    {f : Tree → Option Primitive} {xs : List Tree}
    (h : ∀ x ∈ xs, ∀ w, f x = some w → Evaluates src pending x w) :
    ∃ depth, ∀ x ∈ xs, ∀ w, f x = some w → evaluateWithin? src pending depth x = some w := by
  induction xs with
  | nil => exact ⟨0, fun x hx => absurd hx List.not_mem_nil⟩
  | cons x xs ih =>
    obtain ⟨depth, hxs⟩ := ih fun y hy => h y (List.mem_cons_of_mem _ hy)
    cases hfx : f x with
    | none =>
      refine ⟨depth, fun y hy w hw => ?_⟩
      rcases List.mem_cons.mp hy with rfl | hy
      · simp [hfx] at hw
      · exact hxs y hy w hw
    | some u =>
      -- The greater of the two depths is enough for all of them.
      obtain ⟨depth', hx⟩ := h x List.mem_cons_self u hfx
      refine ⟨max depth depth', fun y hy w hw => ?_⟩
      rcases List.mem_cons.mp hy with rfl | hy
      · rw [← hw, hfx]
        exact hx _ (Nat.le_max_right _ _)
      · exact evaluateWithin?_mono (Nat.le_max_left _ _) (hxs y hy w hw)

/-- Where no edit stands for an expression, it has the value that its operands give it once each
    of them has its own. -/
theorem Evaluates.of_operands {src : Source} {pending : EditSet} {f : Tree → Option Primitive}
    {t : Tree} {v : Primitive} (hnone : pending.matching? t.start t.stop = none)
    (hv : valueByKind? src f t = some v) (hfinite : v.isNonFinite = false)
    (hoperands : ∀ x ∈ t.operands, ∀ w, f x = some w → Evaluates src pending x w) :
    Evaluates src pending t v := by
  obtain ⟨depth, hall⟩ := exists_depth_of_evaluates hoperands
  have hvalue : evaluateWithin? src pending (depth + 1) t = some v := by
    rw [evaluateWithin?_eq_some_iff hnone]
    exact ⟨valueByKind?_mono hall hv, hfinite⟩
  exact .of_evaluateWithin? hvalue

end DefineFold
