/-
  DefineFold.Proofs.Pass.Finite

  Numbers that are not finite never enter a pass. An evaluation refuses them, but not where an edit
  stands for the expression: there the value of the edit is taken as it is. So that no evaluation
  has such a value depends on what is recorded, and what is recorded on what has been evaluated.
  The invariant that holds the two together is `Edit.IsFinite`, of all edits at every moment of a
  walk (`isFinite_of_isMoment`).
-/

import DefineFold.Proofs.Pass.Evaluation
import DefineFold.Proofs.Pass.Moments
import DefineFold.Proofs.Pass.Provenance
import DefineFold.Proofs.Primitive.Finite

namespace DefineFold

/-- The value that an edit stands for is not a NaN and not infinite, and a fold writes its value. -/
structure Edit.IsFinite (e : Edit) : Prop where
  value : ∀ v, e.value = some v → v.isNonFinite = false
  text : e.isFold = true → ∃ v, e.value = some v ∧
    (e.newText = v.literal ∨ e.newText = "(" ++ v.literal ++ ")")

/-- Where edits stand for finite values, no expression has any other value. -/
theorem isNonFinite_of_evaluateWithin? {src : Source} {pending : EditSet}
    (h : ∀ e ∈ pending.toList, e.IsFinite) {depth : Nat} {t : Tree} {v : Primitive}
    (hv : evaluateWithin? src pending depth t = some v) : v.isNonFinite = false := by
  cases depth with
  | zero => simp [evaluateWithin?] at hv
  | succ depth =>
    cases hmatch : pending.matching? t.start t.stop with
    | some e =>
      rw [evaluateWithin?_of_matching? hmatch] at hv
      exact (h e (EditSet.matching?_eq_some_iff.mp hmatch).1).value v hv
    | none => exact ((evaluateWithin?_eq_some_iff hmatch).mp hv).2

/-- The fold of an expression writes a finite value. -/
theorem Site.isFinite_of_fold? {s : Site} {src : Source} {pending : EditSet}
    (h : ∀ e ∈ pending.toList, e.IsFinite) {e : Edit} (he : s.fold? src pending = some e) :
    e.IsFinite := by
  obtain ⟨around, op, value, -, -, -, hvalue, rfl⟩ := Site.fold?_eq_some_iff.mp he
  refine ⟨fun v hv => ?_, fun _ => ⟨value, rfl, around.fit_eq_or value.literal⟩⟩
  obtain rfl : value = v := Option.some.inj hv
  exact isNonFinite_of_evaluateWithin? h hvalue

namespace Edit

/-- A fold that writes a finite value is none of the words for other numbers. -/
theorem IsFinite.newText_ne {e : Edit} (h : e.IsFinite) (hfold : e.isFold = true) {word : String}
    (hword : word ∈ Primitive.nonFiniteWords) :
    e.newText ≠ word ∧ e.newText ≠ "(" ++ word ++ ")" := by
  obtain ⟨v, hvalue, htext⟩ := h.text hfold
  have hfinite := h.value v hvalue
  have hbare : v.literal ≠ word :=
    Primitive.literal_ne_word hfinite (List.mem_append_left _ hword)
  have hwrapped : v.literal ≠ "(" ++ word ++ ")" :=
    Primitive.literal_ne_word hfinite
      (List.mem_append_right _ (List.mem_map.mpr ⟨word, hword, rfl⟩))
  rcases htext with htext | htext
  · rw [htext]
    exact ⟨hbare, hwrapped⟩
  · rw [htext]
    have hopen : ∀ w ∈ Primitive.nonFiniteWords, w.toList.head? ≠ some '(' := by decide
    constructor
    · rintro rfl
      exact hopen _ hword (by simp)
    · intro heq
      have hchars := congrArg String.toList heq
      simp only [String.toList_append, List.append_cancel_left_eq, List.append_cancel_right_eq,
        String.toList_inj] at hchars
      exact hbare hchars

end Edit

namespace Pass

variable {p : Pass} {src : Source}

/-- The substitution of a read stands for a finite value if the configuration has no others. -/
theorem isFinite_substitution (hconfig : p.table.defines.root.isFinite = true) {s : Site}
    {r : Replacement} (h : p.answer? src s = some r) : (s.substitution src r).IsFinite := by
  refine ⟨fun v hv => ?_, fun hfold => by simp at hfold⟩
  obtain ⟨dotted, -, hanswer⟩ := answerFor?_of_answer? h
  obtain ⟨-, hlookup, -⟩ := Value.answerFor?_eq_some_iff.mp hanswer
  exact Primitive.isNonFinite_of_ofValue? (Value.isFinite_of_lookup? hconfig hlookup) hv

/-- At every moment of a walk all edits stand for finite values. -/
theorem isFinite_of_isMoment (hconfig : p.table.defines.root.isFinite = true) {t : Tree}
    {m : Moment} (h : p.IsMoment src t m) : ∀ e ∈ m.edits.toList, e.IsFinite := by
  refine isMoment_induction (motive := fun edits => ∀ e ∈ edits.toList, e.IsFinite) ?_ ?_ ?_ h
  · exact fun e he => absurd he List.not_mem_nil
  · intro edits s r hanswer hedits
    exact EditSet.forall_mem_insert (isFinite_substitution hconfig hanswer) hedits
  · -- A fold is evaluated with the edits that it is put in among.
    intro edits s e hfold hedits
    exact EditSet.forall_mem_insert (Site.isFinite_of_fold? hedits hfold) hedits

/-- With a configuration of finite numbers, at every moment of a walk over any tree no edit stands
    for a NaN or an infinity, no expression has one as its value, and no fold has the word for one
    as its new text, in parentheses or without. The edits of an outcome are those of a moment. -/
theorem moments_finite (p : Pass) (src : Source) (t : Tree)
    (hconfig : p.table.defines.root.isFinite = true) :
    (∀ m, p.IsMoment src t m →
      (∀ e ∈ m.edits.toList, ∀ v, e.value = some v → v.isNonFinite = false) ∧
      (∀ x v, evaluate? src m.edits x = some v → v.isNonFinite = false) ∧
      ∀ e ∈ m.edits.toList, e.isFold = true → ∀ word ∈ ["NaN", "Infinity", "-Infinity"],
        e.newText ≠ word ∧ e.newText ≠ "(" ++ word ++ ")") ∧
    ∀ path o, p.run src t path = .ok o →
      ∃ m, p.IsMoment src t m ∧ p.next? src m = none ∧ o.edits = m.edits.toList := by
  refine ⟨fun m hm => ?_, fun path o hrun => ?_⟩
  · have hfinite := isFinite_of_isMoment hconfig hm
    exact ⟨fun e he => (hfinite e he).value,
      fun x v hv => isNonFinite_of_evaluateWithin? hfinite hv,
      fun e he hfold word hword => (hfinite e he).newText_ne hfold hword⟩
  · refine ⟨_, isMoment_edits p src t, rfl, ?_⟩
    rw [run] at hrun
    split at hrun
    · cases hrun
    · cases hrun
      rfl

end Pass

namespace Sample

def quotientSource : Source :=
  .ofString "N/0;N+1;"

/-- `N`, an operator and a number, from the given byte on. -/
def countStatement (op : String) (start : Nat) : Tree :=
  part (.other "expression_statement") true start (start + 4) []
    [part .binaryExpression true start (start + 3) []
      [part .identifier true start (start + 1) [.left] [],
       token op (start + 1) (start + 2) [.operator],
       part .numberLiteral true (start + 2) (start + 3) [.right] []],
     token ";" (start + 3) (start + 4) []]

def quotientTree : Tree :=
  part (.other "program") true 0 8 [] [countStatement "/" 0, countStatement "+" 4]

def countPass : Pass :=
  .ofDefines ⟨[("N", .integer 1)]⟩ true default

end Sample

/-- The quotient `N/0` is not folded, while the sum `N+1` is, and nothing is infinite then. -/
theorem Pass.moments_finite_quotient :
    Sample.countPass.table.defines.root.isFinite = true ∧
      (Sample.countPass.edits Sample.quotientSource Sample.quotientTree).toList.map
        (fun e => (e.start, e.stop, e.newText, e.isFold)) =
          [(0, 1, "1", false), (4, 7, "2", true)] ∧
      ∀ x v, evaluate? Sample.quotientSource
        (Sample.countPass.edits Sample.quotientSource Sample.quotientTree) x = some v →
          v.isNonFinite = false := by
  have hconfig : Sample.countPass.table.defines.root.isFinite = true := by decide
  refine ⟨hconfig, by decide +kernel, ?_⟩
  obtain ⟨hmoments, -⟩ :=
    moments_finite Sample.countPass Sample.quotientSource Sample.quotientTree hconfig
  obtain ⟨-, hvalues, -⟩ :=
    hmoments _ (isMoment_edits Sample.countPass Sample.quotientSource Sample.quotientTree)
  simpa only [Moment.edits] using hvalues

end DefineFold
