/-
  DefineFold.Proofs.Pass.Moments

  The walk of a pass as a run of small steps. The walk is a recursion over the tree; `Pass.next?`
  says what it does at one moment, with the nodes that are still ahead kept in a list. A moment
  between the substitution of a read and the fold around it is one of its own, so that the edits
  which an evaluation is made with are those of a moment.

  Walking into a node is going on until the nodes ahead are those behind it (`proceeds_visit`), so
  that the steps from the root end with the edits of the pass (`isMoment_edits`). What a step can do
  to the edits is said by `edits_of_next?`, and `isMoment_induction` makes an invariant of whatever
  these insertions keep.
-/

import DefineFold.Proofs.Pass.Walk
import Mathlib.Logic.Relation

namespace DefineFold

/-- A moment of a walk. -/
inductive Moment where
  /-- Nodes are still to be come upon, the next one first. -/
  | walking (ahead : List Site) (edits : EditSet)
  /-- A read has been substituted, and the expression around it may be folded. -/
  | folding (read : Site) (ahead : List Site) (edits : EditSet)

/-- The edits recorded by then. -/
def Moment.edits : Moment → EditSet
  | .walking _ edits => edits
  | .folding _ _ edits => edits

namespace Pass

/-- The moment after. A walk is over when no node is ahead. -/
def next? (p : Pass) (src : Source) : Moment → Option Moment
  | .walking [] _ => none
  | .walking (s :: ahead) edits =>
    if p.maxDepth < s.level then some (.walking ahead edits)
    else if edits.covers s.tree.start s.tree.stop then some (.walking ahead edits)
    else
      match p.answer? src s with
      | some r => some (.folding s ahead (edits.insert (s.substitution src r)))
      | none => some (.walking (s.below ++ ahead) edits)
  | .folding s ahead edits =>
    if p.fold then
      match s.fold? src edits with
      | some e => some (.walking ahead (edits.insert e))
      | none => some (.walking ahead edits)
    else some (.walking ahead edits)

/-- One moment comes after another, some steps later. -/
def Proceeds (p : Pass) (src : Source) : Moment → Moment → Prop :=
  Relation.ReflTransGen fun m m' => p.next? src m = some m'

/-- The first moment of a walk. Without defines no node is looked at. -/
def firstMoment (p : Pass) (t : Tree) : Moment :=
  .walking (if p.table.defines.isEmpty then [] else [Site.root t]) .empty

/-- The moments of the walk over a tree. -/
def IsMoment (p : Pass) (src : Source) (t : Tree) (m : Moment) : Prop :=
  p.Proceeds src (p.firstMoment t) m

section

variable {p : Pass} {src : Source}

/-! ## What a step does -/

/-- A step leaves the edits as they are, or puts in the substitution of an answered read, or the
    fold around a read. -/
theorem edits_of_next? {m m' : Moment} (h : p.next? src m = some m') :
    m'.edits = m.edits ∨
      (∃ s r, p.answer? src s = some r ∧ m'.edits = m.edits.insert (s.substitution src r)) ∨
      ∃ (s : Site) (e : Edit), s.fold? src m.edits = some e ∧ m'.edits = m.edits.insert e := by
  cases m with
  | walking ahead edits =>
    cases ahead with
    | nil => simp [next?] at h
    | cons s ahead =>
      rw [next?] at h
      split at h
      · obtain rfl := Option.some.inj h
        exact Or.inl rfl
      split at h
      · obtain rfl := Option.some.inj h
        exact Or.inl rfl
      split at h
      · rename_i r hanswer
        obtain rfl := Option.some.inj h
        exact Or.inr (Or.inl ⟨s, r, hanswer, rfl⟩)
      · obtain rfl := Option.some.inj h
        exact Or.inl rfl
  | folding s ahead edits =>
    rw [next?] at h
    split at h
    · split at h
      · rename_i e hfold
        obtain rfl := Option.some.inj h
        exact Or.inr (Or.inr ⟨s, e, hfold, rfl⟩)
      · obtain rfl := Option.some.inj h
        exact Or.inl rfl
    · obtain rfl := Option.some.inj h
      exact Or.inl rfl

/-- What holds without edits and is kept by every insertion that a step can make holds at every
    moment of a walk. -/
theorem isMoment_induction {motive : EditSet → Prop} (start : motive .empty)
    (substitution : ∀ {edits : EditSet} {s : Site} {r : Replacement}, p.answer? src s = some r →
      motive edits → motive (edits.insert (s.substitution src r)))
    (fold : ∀ {edits : EditSet} {s : Site} {e : Edit}, s.fold? src edits = some e →
      motive edits → motive (edits.insert e))
    {t : Tree} {m : Moment} (h : p.IsMoment src t m) : motive m.edits := by
  unfold IsMoment Proceeds at h
  induction h with
  | refl => exact start
  | tail _ hnext ih =>
    rcases edits_of_next? hnext with heq | ⟨s, r, hanswer, heq⟩ | ⟨s, e, hfold, heq⟩
    · rw [heq]
      exact ih
    · rw [heq]
      exact substitution hanswer ih
    · rw [heq]
      exact fold hfold ih

/-! ## The walk as a run -/

theorem Proceeds.step {m m' m'' : Moment} (h : p.next? src m = some m')
    (hrest : p.Proceeds src m' m'') : p.Proceeds src m m'' :=
  Relation.ReflTransGen.head h hrest

/-- Behind the substitution of a read the walk goes on with what is recorded of it. -/
theorem proceeds_record (s : Site) (r : Replacement) (ahead : List Site) (edits : EditSet) :
    p.Proceeds src (.folding s ahead (edits.insert (s.substitution src r)))
      (.walking ahead (p.record src s r edits)) := by
  have hnext : p.next? src (.folding s ahead (edits.insert (s.substitution src r))) =
      some (.walking ahead (p.record src s r edits)) := by
    simp only [next?, record]
    split
    · cases s.fold? src (edits.insert (s.substitution src r)) <;> rfl
    · rfl
  exact .step hnext .refl

/-- Walking into several nodes one after the other, given that walking into each of them is going
    on until it is passed. -/
theorem proceeds_foldl {parts : List Site}
    (hparts : ∀ c ∈ parts, ∀ ahead edits, p.Proceeds src (.walking (c :: ahead) edits)
      (.walking ahead (p.visit src c.level c.above edits c.tree)))
    (ahead : List Site) (edits : EditSet) :
    p.Proceeds src (.walking (parts ++ ahead) edits) (.walking ahead
      (parts.foldl (fun edits c => p.visit src c.level c.above edits c.tree) edits)) := by
  induction parts generalizing edits with
  | nil => exact .refl
  | cons c parts ih =>
    refine (hparts c List.mem_cons_self (parts ++ ahead) edits).trans ?_
    exact ih (fun x hx => hparts x (List.mem_cons_of_mem _ hx)) _

/-- Walking into a node is going on until it is passed. -/
theorem proceeds_visit (s : Site) (ahead : List Site) (edits : EditSet) :
    p.Proceeds src (.walking (s :: ahead) edits)
      (.walking ahead (p.visit src s.level s.above edits s.tree)) := by
  induction s using Site.below_induction generalizing ahead edits with
  | step s ih =>
    rw [visit_eq]
    split
    · rename_i hdepth
      exact .step (by rw [next?, if_pos hdepth]) .refl
    rename_i hdepth
    split
    · rename_i hcovers
      exact .step (by rw [next?, if_neg hdepth, if_pos hcovers]) .refl
    rename_i hcovers
    split
    · -- A read is substituted, and the next step settles the fold around it.
      rename_i r hanswer
      refine .step ?_ (proceeds_record s r ahead edits)
      rw [next?, if_neg hdepth, if_neg hcovers, hanswer]
    · -- The parts come first, then what was ahead.
      rename_i hanswer
      rw [visitAll_eq_foldl]
      refine .step ?_ (proceeds_foldl (fun c hc ahead edits => ih c hc ahead edits) ahead edits)
      rw [next?, if_neg hdepth, if_neg hcovers, hanswer]

/-- A walk comes to its end with the edits of the pass. -/
theorem isMoment_edits (p : Pass) (src : Source) (t : Tree) :
    p.IsMoment src t (.walking [] (p.edits src t)) := by
  rw [IsMoment, firstMoment, edits]
  split
  · exact .refl
  · exact proceeds_visit (Site.root t) [] .empty

end

end Pass
end DefineFold
