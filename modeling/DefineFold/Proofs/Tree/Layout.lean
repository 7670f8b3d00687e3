/-
  DefineFold.Proofs.Tree.Layout

  Trees that fit their source. A parser promises four things about each node: its range can
  be cut out of the source, its parts lie inside it, they follow each other without
  overlapping, and a node that could be a read is not empty. From these local promises follow
  the two facts that the pass rests on: of two nodes in pre-order the earlier one lies around
  the later or before it (`preorder_within`), and any two nodes are nested or apart
  (`nested_or_apart`).
-/

import DefineFold.Pass.Form
import DefineFold.Proofs.Text.Slice
import DefineFold.Proofs.Tree.Within

namespace DefineFold

namespace Site

/-- Whether a node is a read of one of the forms. -/
def isCandidate (s : Site) : Bool :=
  Form.all.any (·.handles s)

/-- How a node has to lie in its source, and its parts in it. -/
structure Fits (src : Source) (s : Site) : Prop where
  /-- The range lies in the source, in order, and between characters. -/
  cut : (src.slice? s.tree.start s.tree.stop).isSome
  /-- The parts lie inside. -/
  inside : ∀ c ∈ s.tree.children, s.tree.start ≤ c.start ∧ c.stop ≤ s.tree.stop
  /-- The parts follow each other. -/
  apart : s.tree.children.Pairwise fun a b => a.stop ≤ b.start
  /-- A read is not empty. -/
  solid : s.isCandidate → s.tree.start < s.tree.stop

instance (src : Source) (s : Site) : Decidable (s.Fits src) :=
  decidable_of_iff
    ((src.slice? s.tree.start s.tree.stop).isSome ∧
      (∀ c ∈ s.tree.children, s.tree.start ≤ c.start ∧ c.stop ≤ s.tree.stop) ∧
      (s.tree.children.Pairwise fun a b => a.stop ≤ b.start) ∧
      (s.isCandidate → s.tree.start < s.tree.stop))
    ⟨fun ⟨cut, inside, apart, solid⟩ => ⟨cut, inside, apart, solid⟩,
      fun h => ⟨h.cut, h.inside, h.apart, h.solid⟩⟩

end Site

/-- A tree that fits its source: every node of it does. -/
def Tree.WellFormed (t : Tree) (src : Source) : Prop :=
  ∀ s ∈ Site.list t, s.Fits src

instance (t : Tree) (src : Source) : Decidable (t.WellFormed src) :=
  inferInstanceAs (Decidable (∀ s ∈ Site.list t, s.Fits src))

namespace Site

theorem isCandidate_of_handles {f : Form} {s : Site} (h : f.handles s = true) :
    s.isCandidate = true := by
  rw [isCandidate, List.any_eq_true]
  refine ⟨f, ?_, h⟩
  cases f <;> decide

/-- The text of a node that fits is the slice of its range. -/
theorem Fits.slice?_eq_text {src : Source} {s : Site} (h : s.Fits src) :
    src.slice? s.tree.start s.tree.stop = some (s.tree.text src) := by
  obtain ⟨text, htext⟩ := Option.isSome_iff_exists.mp h.cut
  rw [Tree.text, Source.slice, htext]
  rfl

theorem Fits.below_inside {src : Source} {s c : Site} (h : s.Fits src) (hc : c ∈ s.below) :
    s.tree.start ≤ c.tree.start ∧ c.tree.stop ≤ s.tree.stop :=
  h.inside c.tree (tree_mem_of_mem_below hc)

theorem Fits.below_apart {src : Source} {s : Site} (h : s.Fits src) :
    s.below.Pairwise fun a b => a.tree.stop ≤ b.tree.start :=
  List.pairwise_map.mpr h.apart

/-! ## Ranges of nested nodes -/

/-- A node inside another has its range inside the other's. -/
theorem range_of_mem_within {src : Source} {q s : Site} (hfits : ∀ x ∈ s.within, x.Fits src)
    (hq : q ∈ s.within) : s.tree.start ≤ q.tree.start ∧ q.tree.stop ≤ s.tree.stop := by
  induction s using below_induction with
  | step s ih =>
    rcases mem_within_iff.mp hq with rfl | ⟨c, hc, hqc⟩
    · exact ⟨Nat.le_refl _, Nat.le_refl _⟩
    · have hin := (hfits s (mem_within_self s)).below_inside hc
      have hrec := ih c hc
        (fun x hx => hfits x (within_trans (mem_within_of_mem_below hc) hx)) hqc
      omega

/-- Of two nodes in pre-order the earlier one lies around the later or before it. -/
theorem preorder_within {src : Source} {s : Site} (hfits : ∀ x ∈ s.within, x.Fits src) :
    s.within.Pairwise fun a b => a ∈ b.ancestors ∨ a.tree.stop ≤ b.tree.start := by
  induction s using below_induction with
  | step s ih =>
    have hfitsBelow : ∀ c ∈ s.below, ∀ x ∈ c.within, x.Fits src := fun c hc x hx =>
      hfits x (within_trans (mem_within_of_mem_below hc) hx)
    rw [within_eq, List.pairwise_cons, List.pairwise_flatMap]
    refine ⟨?_, fun c hc => ih c hc (hfitsBelow c hc), ?_⟩
    · intro b hb
      obtain ⟨c, hc, hbc⟩ := List.mem_flatMap.mp hb
      left
      apply mem_ancestors_of_mem_within hbc
      rw [ancestors_of_mem_below hc]
      exact List.mem_cons_self
    · -- Nodes from two different parts: the ranges of the parts keep them apart.
      refine (hfits s (mem_within_self s)).below_apart.imp_of_mem ?_
      intro c d hc hd hcd x hx y hy
      right
      have hxc := range_of_mem_within (hfitsBelow c hc) hx
      have hyd := range_of_mem_within (hfitsBelow d hd) hy
      omega

end Site

namespace Tree.WellFormed

variable {t : Tree} {src : Source} {s q : Site}

theorem fits_within (h : t.WellFormed src) (hs : s ∈ Site.list t) :
    ∀ x ∈ s.within, x.Fits src :=
  fun x hx => h x (Site.mem_list_of_mem_within hs hx)

theorem range_of_mem_within (h : t.WellFormed src) (hs : s ∈ Site.list t)
    (hq : q ∈ s.within) : s.tree.start ≤ q.tree.start ∧ q.tree.stop ≤ s.tree.stop :=
  Site.range_of_mem_within (h.fits_within hs) hq

/-- Of two nodes of a tree in pre-order the earlier one lies around the later or before it. -/
theorem preorder_list (h : t.WellFormed src) :
    (Site.list t).Pairwise fun a b => a ∈ b.ancestors ∨ a.tree.stop ≤ b.tree.start :=
  @Site.preorder_within src (Site.root t) h

/-- Any two nodes of a tree are nested or apart. -/
theorem nested_or_apart (h : t.WellFormed src) (hs : s ∈ Site.list t) (hq : q ∈ Site.list t) :
    q ∈ s.within ∨ s ∈ q.within ∨ s.tree.stop ≤ q.tree.start ∨ q.tree.stop ≤ s.tree.start := by
  -- The one that comes first in pre-order lies around the other or before it.
  obtain ⟨i, hi, rfl⟩ := List.getElem_of_mem hs
  obtain ⟨j, hj, rfl⟩ := List.getElem_of_mem hq
  have hpre := List.pairwise_iff_getElem.mp h.preorder_list
  rcases Nat.lt_trichotomy i j with hij | rfl | hij
  · rcases hpre i j hi hj hij with haround | hapart
    · exact Or.inl (Site.mem_list_of_ancestor hq haround).2
    · exact Or.inr (Or.inr (Or.inl hapart))
  · exact Or.inl (Site.mem_within_self _)
  · rcases hpre j i hj hi hij with haround | hapart
    · exact Or.inr (Or.inl (Site.mem_list_of_ancestor hs haround).2)
    · exact Or.inr (Or.inr (Or.inr hapart))

/-- Two parts of a node with a byte in common are one. -/
theorem eq_of_overlap_below {a b : Site} (h : t.WellFormed src) (hs : s ∈ Site.list t)
    (ha : a ∈ s.below) (hb : b ∈ s.below) (hab : a.tree.start < b.tree.stop)
    (hba : b.tree.start < a.tree.stop) : a = b := by
  have halist := Site.mem_list_of_mem_within hs (Site.mem_within_of_mem_below ha)
  have hblist := Site.mem_list_of_mem_within hs (Site.mem_within_of_mem_below hb)
  -- They are on one level, so that neither lies around the other.
  have hlevel : a.level = b.level := by
    rw [Site.level, Site.above_of_mem_below ha, Site.level, Site.above_of_mem_below hb]
  rcases h.nested_or_apart halist hblist with hnest | hnest | hapart | hapart
  · rcases Site.mem_within_or_ancestor hnest with heq | haround
    · exact heq.symm
    · have hlt := Site.level_lt_of_mem_ancestors haround
      omega
  · rcases Site.mem_within_or_ancestor hnest with heq | haround
    · exact heq
    · have hlt := Site.level_lt_of_mem_ancestors haround
      omega
  · omega
  · omega

end Tree.WellFormed

end DefineFold
