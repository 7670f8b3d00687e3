/-
  DefineFold.Proofs.Tree.Within

  The nodes inside a node. `Site.within` lists a node and everything below it in pre-order,
  and unfolds into the node and the lists of the nodes right below it; every later argument
  about trees goes by that equation and by `Site.below_induction`. The nodes around a node
  are `Site.ancestors`, and the two directions are tied together by `mem_within_or_ancestor`
  and, for the nodes of a whole tree, by `mem_list_of_ancestor`.
-/

import DefineFold.Tree.Basic

namespace DefineFold
namespace Site

/-- The nodes right below a node. -/
def below (s : Site) : List Site :=
  s.tree.children.map fun c => ⟨c, s.tree :: s.above⟩

/-- A node and all nodes in it, in pre-order. -/
def within (s : Site) : List Site :=
  listOnto s.above [] s.tree

/-- The level of a node, the root being on level zero. -/
def level (s : Site) : Nat :=
  s.above.length

/-- The sites of nodes that lie around each other, the nearest first. -/
def around : List Tree → List Site
  | [] => []
  | p :: rest => ⟨p, rest⟩ :: around rest

/-- The nodes around a node, its parent first. -/
def ancestors (s : Site) : List Site :=
  around s.above

/-! ## Induction -/

/-- What holds of a node whenever it holds of the nodes right below it holds of every node. -/
theorem below_induction {motive : Site → Prop}
    (step : ∀ s : Site, (∀ c ∈ s.below, motive c) → motive s) (s : Site) : motive s := by
  obtain ⟨t, above⟩ := s
  -- A tree holds a list of trees, so that the recursor has a motive for each of the two.
  refine @Tree.rec (fun t => ∀ above, motive ⟨t, above⟩)
    (fun ts => ∀ t ∈ ts, ∀ above, motive ⟨t, above⟩) ?_ ?_ ?_ t above
  · intro head children ih above
    apply step
    intro c hc
    obtain ⟨child, hchild, rfl⟩ := List.mem_map.mp hc
    exact ih child hchild _
  · intro t ht
    exact absurd ht List.not_mem_nil
  · intro head tail ihHead ihTail t ht
    rcases List.mem_cons.mp ht with rfl | ht
    · exact ihHead
    · exact ihTail t ht

/-! ## Unfolding the list of nodes -/

mutual

/-- The nodes that are to come behind a tree can be appended afterwards. -/
theorem listOnto_eq_append (above : List Tree) (later : List Site) :
    (t : Tree) → listOnto above later t = listOnto above [] t ++ later
  | .node head children => by
    simp only [listOnto, List.cons_append]
    rw [listAllOnto_eq_append _ later children]

/-- The nodes that are to come behind several trees can be appended afterwards. -/
theorem listAllOnto_eq_append (above : List Tree) (later : List Site) :
    (ts : List Tree) → listAllOnto above later ts = listAllOnto above [] ts ++ later
  | [] => by simp [listAllOnto]
  | t :: ts => by
    simp only [listAllOnto]
    rw [listOnto_eq_append above (listAllOnto above later ts) t,
      listOnto_eq_append above (listAllOnto above [] ts) t,
      listAllOnto_eq_append above later ts, List.append_assoc]

end

theorem listAllOnto_eq_flatMap (above : List Tree) (ts : List Tree) :
    listAllOnto above [] ts = (ts.map fun c => (⟨c, above⟩ : Site)).flatMap within := by
  induction ts with
  | nil => rfl
  | cons t ts ih =>
    simp only [listAllOnto, List.map_cons, List.flatMap_cons]
    rw [listOnto_eq_append, ih]
    rfl

/-- A node comes first, then what lies in the nodes right below it, one after the other. -/
theorem within_eq (s : Site) : s.within = s :: s.below.flatMap within := by
  obtain ⟨⟨head, children⟩, above⟩ := s
  simp only [within, below, listOnto, Tree.children]
  rw [listAllOnto_eq_flatMap]

theorem list_eq_within (t : Tree) : Site.list t = (Site.root t).within :=
  rfl

/-! ## Membership -/

theorem mem_within_self (s : Site) : s ∈ s.within := by
  rw [within_eq]
  exact List.mem_cons_self

theorem mem_within_iff {q s : Site} :
    q ∈ s.within ↔ q = s ∨ ∃ c ∈ s.below, q ∈ c.within := by
  rw [within_eq, List.mem_cons, List.mem_flatMap]

theorem above_of_mem_below {c s : Site} (h : c ∈ s.below) : c.above = s.tree :: s.above := by
  obtain ⟨child, -, rfl⟩ := List.mem_map.mp h
  rfl

theorem tree_mem_of_mem_below {c s : Site} (h : c ∈ s.below) : c.tree ∈ s.tree.children := by
  obtain ⟨child, hchild, rfl⟩ := List.mem_map.mp h
  exact hchild

theorem mem_below_of_mem_children {t : Tree} {s : Site} (h : t ∈ s.tree.children) :
    (⟨t, s.tree :: s.above⟩ : Site) ∈ s.below :=
  List.mem_map.mpr ⟨t, h, rfl⟩

/-- The child that fills a field is right below, and fills it. -/
theorem mem_below_of_child? {s : Site} {f : Field} {x : Tree} (h : s.tree.child? f = some x) :
    (⟨x, s.tree :: s.above⟩ : Site) ∈ s.below ∧ x.fills f = true := by
  rw [Tree.child?] at h
  have hfills := List.find?_some h
  exact ⟨mem_below_of_mem_children (List.mem_of_find?_eq_some h), hfills⟩

theorem mem_below_of_firstNamed? {s : Site} {x : Tree} (h : s.tree.firstNamed? = some x) :
    (⟨x, s.tree :: s.above⟩ : Site) ∈ s.below ∧ x.head.named = true := by
  rw [Tree.firstNamed?] at h
  have hnamed := List.find?_some h
  exact ⟨mem_below_of_mem_children (List.mem_of_find?_eq_some h), hnamed⟩

theorem mem_within_of_mem_below {c s : Site} (h : c ∈ s.below) : c ∈ s.within :=
  mem_within_iff.mpr (Or.inr ⟨c, h, mem_within_self c⟩)

/-- Nothing but itself lies in a leaf. -/
theorem eq_of_mem_within_of_leaf {q s : Site} (h : s.tree.children = []) (hq : q ∈ s.within) :
    q = s := by
  rcases mem_within_iff.mp hq with heq | ⟨c, hc, -⟩
  · exact heq
  · have hchild := tree_mem_of_mem_below hc
    rw [h] at hchild
    exact absurd hchild List.not_mem_nil

theorem within_trans {q r s : Site} (hr : r ∈ s.within) (hq : q ∈ r.within) : q ∈ s.within := by
  induction s using below_induction with
  | step s ih =>
    rcases mem_within_iff.mp hr with rfl | ⟨c, hc, hrc⟩
    · exact hq
    · exact mem_within_iff.mpr (Or.inr ⟨c, hc, ih c hc hrc⟩)

theorem mem_list_of_mem_within {t : Tree} {q s : Site} (hs : s ∈ Site.list t)
    (hq : q ∈ s.within) : q ∈ Site.list t := by
  rw [list_eq_within] at hs ⊢
  exact within_trans hs hq

/-- Nodes inside a node are on its level or further down. -/
theorem level_le_of_mem_within {q s : Site} (h : q ∈ s.within) : s.level ≤ q.level := by
  induction s using below_induction with
  | step s ih =>
    rcases mem_within_iff.mp h with rfl | ⟨c, hc, hqc⟩
    · exact Nat.le_refl _
    · have hlevel : c.level = s.level + 1 := by
        simp [level, above_of_mem_below hc]
      have := ih c hc hqc
      omega

/-! ## Ancestors -/

theorem ancestors_of_mem_below {c s : Site} (h : c ∈ s.below) :
    c.ancestors = s :: s.ancestors := by
  rw [ancestors, above_of_mem_below h]
  rfl

/-- The nodes around a node are on higher levels. -/
theorem level_lt_of_mem_ancestors {a s : Site} (h : a ∈ s.ancestors) : a.level < s.level := by
  rw [ancestors] at h
  rw [level, level]
  -- The nodes around are a list of their own; its tails are the nodes around each of them.
  generalize s.above = above at h
  induction above with
  | nil => exact absurd h List.not_mem_nil
  | cons p above ih =>
    rw [List.length_cons]
    rcases List.mem_cons.mp h with rfl | h
    · exact Nat.lt_succ_self _
    · exact Nat.lt_succ_of_lt (ih h)

/-- The nodes around a node stay around the nodes inside it. -/
theorem mem_ancestors_of_mem_within {a q s : Site} (hq : q ∈ s.within) (ha : a ∈ s.ancestors) :
    a ∈ q.ancestors := by
  induction s using below_induction with
  | step s ih =>
    rcases mem_within_iff.mp hq with rfl | ⟨c, hc, hqc⟩
    · exact ha
    · apply ih c hc hqc
      rw [ancestors_of_mem_below hc]
      exact List.mem_cons_of_mem _ ha

/-- A node inside another is that node or has it around. -/
theorem mem_within_or_ancestor {q s : Site} (h : q ∈ s.within) : q = s ∨ s ∈ q.ancestors := by
  rcases mem_within_iff.mp h with rfl | ⟨c, hc, hqc⟩
  · exact Or.inl rfl
  · right
    apply mem_ancestors_of_mem_within hqc
    rw [ancestors_of_mem_below hc]
    exact List.mem_cons_self

/-- What stands in the front of a list made of parts stands in the front of one of the parts. -/
theorem exists_front_of_flatMap_eq_append {α β : Type} (f : α → List β) {parts : List α}
    {front back : List β} {x : β} (hsplit : parts.flatMap f = front ++ back) (hx : x ∈ front) :
    ∃ a ∈ parts, ∃ front' back', f a = front' ++ back' ∧ x ∈ front' ∧ front' ⊆ front := by
  induction parts generalizing front with
  | nil =>
    have hnil : front = [] := (List.append_eq_nil_iff.mp hsplit.symm).1
    exact absurd (hnil ▸ hx) List.not_mem_nil
  | cons a parts ih =>
    rw [List.flatMap_cons] at hsplit
    -- The front either takes in the whole first part and goes on, or ends inside it.
    rcases List.append_eq_append_iff.mp hsplit with ⟨mid, rfl, hrest⟩ | ⟨mid, hwhole, -⟩
    · rcases List.mem_append.mp hx with hx | hx
      · exact ⟨a, List.mem_cons_self, f a, [], (List.append_nil _).symm, hx,
          List.subset_append_left _ _⟩
      · obtain ⟨b, hb, front', back', heq, hx', hsub⟩ := ih hrest hx
        exact ⟨b, List.mem_cons_of_mem _ hb, front', back', heq, hx',
          fun y hy => List.mem_append_right _ (hsub hy)⟩
    · exact ⟨a, List.mem_cons_self, front, mid, hwhole, hx, fun y hy => hy⟩

/-- The nodes before a place in pre-order hold the parent of each of them. -/
theorem parent_mem_of_within_eq_append {s q : Site} {front back : List Site}
    (hsplit : s.within = front ++ back) (hq : q ∈ front) :
    q = s ∨ ∃ p ∈ front, q ∈ p.below := by
  induction s using below_induction generalizing front back with
  | step s ih =>
    rw [within_eq] at hsplit
    rcases front with _ | ⟨x, front⟩
    · exact absurd hq List.not_mem_nil
    obtain ⟨rfl, htail⟩ := List.cons.inj hsplit
    rcases List.mem_cons.mp hq with rfl | hq
    · exact Or.inl rfl
    right
    -- Behind the node itself the front is made of the lists of its parts.
    obtain ⟨c, hc, front', back', heq, hq', hsub⟩ :=
      exists_front_of_flatMap_eq_append within htail hq
    rcases ih c hc heq hq' with rfl | ⟨p, hp, hpq⟩
    · exact ⟨s, List.mem_cons_self, hc⟩
    · exact ⟨p, List.mem_cons_of_mem _ (hsub hp), hpq⟩

/-- Every node of a tree but the root is right below another. -/
theorem eq_root_or_mem_below {t : Tree} {q : Site} (hq : q ∈ Site.list t) :
    q = Site.root t ∨ ∃ p ∈ Site.list t, q ∈ p.below := by
  rw [list_eq_within] at hq ⊢
  exact parent_mem_of_within_eq_append (List.append_nil _).symm hq

/-- The nodes of a tree before a place in pre-order hold all nodes around each of them, and
    each lies in those around it. -/
theorem ancestor_mem_of_list_eq_append {t : Tree} {q a : Site} {front back : List Site}
    (hsplit : Site.list t = front ++ back) (hq : q ∈ front) (ha : a ∈ q.ancestors) :
    a ∈ front ∧ q ∈ a.within := by
  -- Going up from a node to its parent lowers the level by one, so this is an induction on it.
  have hmain : ∀ (n : Nat) (q : Site), q.level = n → q ∈ front → a ∈ q.ancestors →
      a ∈ front ∧ q ∈ a.within := by
    intro n
    induction n with
    | zero =>
      intro q hlevel _ ha
      have habove : q.above = [] := List.length_eq_zero_iff.mp hlevel
      rw [ancestors, habove] at ha
      exact absurd ha List.not_mem_nil
    | succ n ih =>
      intro q hlevel hq ha
      rcases parent_mem_of_within_eq_append (list_eq_within t ▸ hsplit) hq with
        rfl | ⟨p, hp, hpq⟩
      · exact absurd ha List.not_mem_nil
      · rw [ancestors_of_mem_below hpq] at ha
        have hqp : q ∈ p.within := mem_within_of_mem_below hpq
        rcases List.mem_cons.mp ha with rfl | ha
        · exact ⟨hp, hqp⟩
        · have hplevel : p.level = n := by
            have : q.level = p.level + 1 := by simp [level, above_of_mem_below hpq]
            omega
          obtain ⟨hfront, hwithin⟩ := ih p hplevel hp ha
          exact ⟨hfront, within_trans hwithin hqp⟩
  exact hmain q.level q rfl hq ha

/-- The nodes around a node of a tree are nodes of the tree, and it lies in them. -/
theorem mem_list_of_ancestor {t : Tree} {q a : Site} (hq : q ∈ Site.list t)
    (ha : a ∈ q.ancestors) : a ∈ Site.list t ∧ q ∈ a.within :=
  ancestor_mem_of_list_eq_append (List.append_nil _).symm hq ha

end Site
end DefineFold
