/-
  DefineFold.Proofs.Tree.Fault

  Which bad node a search finds. `Site.firstBad?` is the first bad node inside a node in
  pre-order, and unfolds into the node itself and the first of its parts that has one
  (`Site.firstBad?_eq`). The search from the top never comes back out of a part that it has gone
  into, and it need not: it goes into a part only if there is a bad node in it, so that the search
  does find one, and in the parts before there is none (`Tree.seekBad?_eq`).
-/

import DefineFold.Proofs.Tree.Within
import DefineFold.Tree.Fault

namespace DefineFold

namespace Site

/-- A node of which the source is to blame. -/
def isBad (s : Site) : Bool :=
  s.tree.head.isBad

/-- The first bad node inside a node, itself included, in pre-order. -/
def firstBad? (s : Site) : Option Site :=
  s.within.find? isBad

/-- A node that is not bad leaves the question to its parts, one after the other. -/
theorem firstBad?_eq (s : Site) :
    s.firstBad? = if s.isBad then some s else s.below.findSome? firstBad? := by
  rw [firstBad?, within_eq, List.find?_cons, List.find?_flatMap]
  cases s.isBad <;> rfl

theorem firstBad?_of_isBad {s : Site} (h : s.isBad = true) : s.firstBad? = some s := by
  rw [firstBad?_eq, if_pos h]

/-- The trees of the nodes right below are the parts. -/
theorem map_tree_below (s : Site) : s.below.map tree = s.tree.children := by
  rw [below, List.map_map]
  exact List.map_id _

theorem isSome_firstBad?_root {t : Tree} :
    (root t).firstBad?.isSome = true ↔ ∃ s ∈ Site.list t, s.isBad = true :=
  List.find?_isSome

end Site

namespace Tree

/-- The first bad node of a tree in pre-order. -/
def firstBad? (t : Tree) : Option Node :=
  (Site.root t).firstBad?.map (·.tree.head)

/-! ## Bad nodes anywhere -/

/-- Several trees have a bad node in them if one of them has. -/
theorem hasBadIn_map {parts : List Site}
    (hparts : ∀ c ∈ parts, c.tree.hasBad = c.firstBad?.isSome) :
    hasBadIn (parts.map Site.tree) = (parts.findSome? Site.firstBad?).isSome := by
  induction parts with
  | nil => rfl
  | cons c parts ih =>
    have hrest := ih fun x hx => hparts x (List.mem_cons_of_mem _ hx)
    rw [List.map_cons, hasBadIn, hparts c List.mem_cons_self, hrest, List.findSome?_cons]
    cases c.firstBad? <;> rfl

/-- A tree has a bad node in it if there is a first one. -/
theorem hasBad_eq (s : Site) : s.tree.hasBad = s.firstBad?.isSome := by
  induction s using Site.below_induction with
  | step s ih =>
    have hparts := hasBadIn_map ih
    rw [Site.map_tree_below] at hparts
    have hunfold : s.tree.hasBad = (s.isBad || hasBadIn s.tree.children) := by
      obtain ⟨⟨head, children⟩, above⟩ := s
      rw [hasBad]
      rfl
    rw [hunfold, hparts, Site.firstBad?_eq]
    cases s.isBad <;> rfl

/-! ## The search -/

/-- A search in several trees finds the first bad node in them: it goes into the first tree that
    has one, and finds what a search in that tree finds. -/
theorem seekBadIn?_map {parts : List Site}
    (hparts : ∀ c ∈ parts, c.tree.seekBad? = c.firstBad?.map Site.tree) :
    seekBadIn? (parts.map Site.tree) = (parts.findSome? Site.firstBad?).map Site.tree := by
  induction parts with
  | nil => rfl
  | cons c parts ih =>
    have hrest := ih fun x hx => hparts x (List.mem_cons_of_mem _ hx)
    rw [List.map_cons, seekBadIn?, hrest, hparts c List.mem_cons_self, hasBad_eq,
      List.findSome?_cons]
    cases hfirst : c.firstBad? with
    | some x => simp
    | none =>
      have hbad : c.tree.head.isBad = false := by
        cases h : c.tree.head.isBad with
        | false => rfl
        | true => simp [Site.firstBad?_of_isBad h] at hfirst
      simp [hbad]

/-- The search from the top of a tree finds the first bad node in pre-order. -/
theorem seekBad?_eq (s : Site) : s.tree.seekBad? = s.firstBad?.map Site.tree := by
  induction s using Site.below_induction with
  | step s ih =>
    have hparts := seekBadIn?_map ih
    rw [Site.map_tree_below] at hparts
    have hunfold : s.tree.seekBad? =
        if s.isBad then some s.tree
        else if s.tree.hasBad then seekBadIn? s.tree.children else none := by
      obtain ⟨⟨head, children⟩, above⟩ := s
      rw [seekBad?]
      rfl
    rw [hunfold, hparts, hasBad_eq, Site.firstBad?_eq]
    split
    · rfl
    · -- Without a bad node in the parts there is nothing to find in them either.
      cases s.below.findSome? Site.firstBad? <;> rfl

/-! ## Faults -/

/-- The fault of a source is that of the first bad node of its tree. The root is never blamed for
    want of a node. -/
theorem fault?_eq_map (t : Tree) (src : Source) (path : String) :
    t.fault? src path = (Site.root t).firstBad?.map fun s => s.tree.head.fault src path := by
  have hsearch : t.seekBad? = (Site.root t).firstBad?.map Site.tree := seekBad?_eq (.root t)
  have hbad : t.hasBad = (Site.root t).firstBad?.isSome := hasBad_eq (.root t)
  rw [fault?, hbad, hsearch]
  cases (Site.root t).firstBad? <;> rfl

theorem fault?_eq (t : Tree) (src : Source) (path : String) :
    t.fault? src path = t.firstBad?.map fun n => n.fault src path := by
  rw [fault?_eq_map, firstBad?, Option.map_map]
  rfl

end Tree

end DefineFold
