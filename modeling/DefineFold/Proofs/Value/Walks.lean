/-
  DefineFold.Proofs.Value.Walks

  The paths of a graph are the keys of its walks. A walk starts at the root and goes from
  container to container; it is told by the numbers of the children that it takes, since a
  container may have a key twice, also for the same child. Listed are the walks that pass no
  container twice, the node at which they end apart (`Graph.paths_eq_walks`): a container that
  was passed before can be reached once more but not left.

  The listing takes a container for a different thing in each place (`Graph.childrenBelow`), by
  the containers above it. In this way the graph becomes something without cycles, to which
  listing in pre-order applies.
-/

import DefineFold.Proofs.Value.Preorder
import DefineFold.Value.Graph
import Mathlib.Data.List.Nodup
import Mathlib.Data.List.Perm.Subperm

namespace DefineFold

namespace Graph

/-! ## Nodes with the containers above them -/

/-- The children of a node below some containers. One of these containers is not entered again. -/
def childrenBelow (g : Graph) (node : List Nat × Nat) : List (String × (List Nat × Nat)) :=
  if node.2 ∈ node.1 then []
  else ((g.children? node.2).getD []).map fun c => (c.1, (node.2 :: node.1, c.2))

theorem placesBelow_eq (g : Graph) (above : List Nat) (front : List String) (i : Nat) :
    g.placesBelow above front i =
      (g.childrenBelow (above, i)).flatMap fun c =>
        (front ++ [c.1]) :: g.placesBelow c.2.1 (front ++ [c.1]) c.2.2 := by
  rw [placesBelow, childrenBelow]
  split
  · rename_i hleaf
    simp [hleaf]
  · rename_i children hchildren
    by_cases hentered : i ∈ above
    · simp [hentered]
    · simp [hentered, hchildren, List.flatMap_map]

/-- Each child has one more container above it. -/
theorem unentered_lt_of_mem_childrenBelow {g : Graph} {node child : List Nat × Nat}
    {key : String} (h : (key, child) ∈ g.childrenBelow node) :
    g.unentered child.1 < g.unentered node.1 := by
  rw [childrenBelow] at h
  split at h
  · simp at h
  · rename_i hfresh
    obtain ⟨c, hc, heq⟩ := List.mem_map.mp h
    obtain ⟨-, rfl⟩ := Prod.mk.inj heq
    cases hchildren : g.children? node.2 with
    | none => simp [hchildren] at hc
    | some children => exact unentered_cons_lt (lt_length_of_children? hchildren) hfresh

theorem wellFounded_childrenBelow (g : Graph) :
    WellFounded fun child node => ∃ key, (key, child) ∈ g.childrenBelow node :=
  Subrelation.wf (fun ⟨_, h⟩ => unentered_lt_of_mem_childrenBelow h)
    (measure fun node : List Nat × Nat => g.unentered node.1).wf

/-- What stands before the places below a node can be put there afterwards. -/
theorem placesBelow_eq_map (g : Graph) (node : List Nat × Nat) (front : List String) :
    g.placesBelow node.1 front node.2 = (g.placesBelow node.1 [] node.2).map (front ++ ·) := by
  induction node using g.wellFounded_childrenBelow.induction generalizing front with
  | _ node ih =>
    rw [placesBelow_eq g node.1 front, placesBelow_eq g node.1 [], List.map_flatMap]
    apply List.flatMap_congr
    intro c hc
    rw [ih c.2 ⟨c.1, hc⟩ (front ++ [c.1]), ih c.2 ⟨c.1, hc⟩ ([] ++ [c.1])]
    simp [Function.comp_def]

theorem placesBelow_eq_flatMap (g : Graph) (node : List Nat × Nat) :
    g.placesBelow node.1 [] node.2 =
      (g.childrenBelow node).flatMap fun c =>
        ([] :: g.placesBelow c.2.1 [] c.2.2).map (c.1 :: ·) := by
  rw [placesBelow_eq]
  apply List.flatMap_congr
  intro c _
  rw [placesBelow_eq_map g c.2]
  simp

/-! ## Walks -/

/-- The steps of a walk from a node, each with its key and the node that it leads to. The walk
    is given by the numbers of the children that it takes. -/
def walk? (g : Graph) : Nat → List Nat → Option (List (String × Nat))
  | _, [] => some []
  | i, n :: rest =>
    match ((g.children? i).getD [])[n]? with
    | none => none
    | some c => (g.walk? c.2 rest).map (c :: ·)

/-- The nodes of a walk from a node but the last one. They are containers, since the walk
    leaves them. -/
def passed (i : Nat) (steps : List (String × Nat)) : List Nat :=
  (i :: steps.map Prod.snd).dropLast

/-- The node at which a walk from a node ends. -/
def lastNode (i : Nat) (steps : List (String × Nat)) : Nat :=
  (steps.map Prod.snd).getLastD i

theorem passed_cons (i : Nat) (c : String × Nat) (steps : List (String × Nat)) :
    passed i (c :: steps) = i :: passed c.2 steps :=
  rfl

theorem passed_append_lastNode (i : Nat) (steps : List (String × Nat)) :
    passed i steps ++ [lastNode i steps] = i :: steps.map Prod.snd := by
  induction steps generalizing i with
  | nil => rfl
  | cons c steps ih =>
    rw [passed_cons, List.cons_append, List.map_cons, ← ih c.2]
    cases steps <;> rfl

theorem walk?_cons_eq_some_iff {g : Graph} {i n : Nat} {rest : List Nat}
    {steps : List (String × Nat)} :
    g.walk? i (n :: rest) = some steps ↔
      ∃ c more, ((g.children? i).getD [])[n]? = some c ∧ g.walk? c.2 rest = some more ∧
        steps = c :: more := by
  rw [walk?]
  cases hchild : ((g.children? i).getD [])[n]? with
  | none => simp
  | some c =>
    simp only [Option.map_eq_some_iff, Option.some.injEq]
    constructor
    · rintro ⟨more, hmore, rfl⟩
      exact ⟨c, more, rfl, hmore, rfl⟩
    · rintro ⟨_, more, rfl, hmore, rfl⟩
      exact ⟨more, hmore, rfl⟩

/-- Going on by one child. -/
theorem walk?_append_singleton {g : Graph} {i : Nat} {walk : List Nat}
    {steps : List (String × Nat)} (h : g.walk? i walk = some steps) (n : Nat) :
    g.walk? i (walk ++ [n]) =
      (((g.children? (lastNode i steps)).getD [])[n]?).map fun c => steps ++ [c] := by
  induction walk generalizing i steps with
  | nil =>
    obtain rfl : [] = steps := Option.some.inj h
    rw [List.nil_append, walk?]
    simp only [lastNode, List.map_nil, List.getLastD_nil]
    cases ((g.children? i).getD [])[n]? <;> rfl
  | cons m walk ih =>
    obtain ⟨c, more, hchild, hmore, rfl⟩ := walk?_cons_eq_some_iff.mp h
    have hlast : lastNode i (c :: more) = lastNode c.2 more := by
      cases more <;> rfl
    rw [List.cons_append, walk?, hchild, hlast]
    simp only
    rw [ih hmore, Option.map_map]
    rfl

/-- Whether a walk exists and passes no container twice. -/
def PassesOnce (g : Graph) (walk : List Nat) : Prop :=
  ∃ steps, g.walk? 0 walk = some steps ∧ (passed 0 steps).Nodup

/-- The ways down from a node below some containers are the walks from the node that pass
    neither these containers nor any container twice. -/
theorem exists_descend?_iff {g : Graph} {above : List Nat} {i : Nat} {walk : List Nat}
    {keys : List String} :
    (∃ node, descend? g.childrenBelow (above, i) walk = some (keys, node)) ↔
      ∃ steps, g.walk? i walk = some steps ∧ keys = steps.map Prod.fst ∧
        (passed i steps).Nodup ∧ ∀ j ∈ passed i steps, j ∉ above := by
  induction walk generalizing above i keys with
  | nil => simp [descend?, walk?, passed, eq_comm]
  | cons n walk ih =>
    -- A step can be taken from a container that was not entered before.
    have hstep : ∀ c, (g.childrenBelow (above, i))[n]? = some c ↔
        i ∉ above ∧ ∃ j, ((g.children? i).getD [])[n]? = some (c.1, j) ∧
          c.2 = (i :: above, j) := by
      intro c
      by_cases hentered : i ∈ above
      · simp [childrenBelow, hentered]
      · simp only [childrenBelow, hentered, if_false, List.getElem?_map, Option.map_eq_some_iff,
          not_false_eq_true, true_and]
        constructor
        · rintro ⟨d, hd, rfl⟩
          exact ⟨d.2, hd, rfl⟩
        · rintro ⟨j, hj, heq⟩
          exact ⟨_, hj, by rw [← heq]⟩
    simp only [descend?_cons_eq_some_iff, walk?_cons_eq_some_iff]
    constructor
    · rintro ⟨node, c, keysBelow, hchild, hbelow, rfl⟩
      obtain ⟨hfresh, j, hj, hc⟩ := (hstep c).mp hchild
      rw [hc] at hbelow
      obtain ⟨steps, hsteps, rfl, hnodup, havoid⟩ := ih.mp ⟨node, hbelow⟩
      refine ⟨_, ⟨(c.1, j), steps, hj, hsteps, rfl⟩, rfl, ?_, ?_⟩
      · rw [passed_cons, List.nodup_cons]
        exact ⟨fun hmem => havoid i hmem List.mem_cons_self, hnodup⟩
      · intro k hk
        rcases List.mem_cons.mp (passed_cons .. ▸ hk) with rfl | hk
        · exact hfresh
        · exact fun habove => havoid k hk (List.mem_cons_of_mem _ habove)
    · rintro ⟨_, ⟨c, steps, hj, hsteps, rfl⟩, rfl, hnodup, havoid⟩
      rw [passed_cons] at hnodup havoid
      obtain ⟨hi, hnodup⟩ := List.nodup_cons.mp hnodup
      have havoid' : ∀ k ∈ passed c.2 steps, k ∉ i :: above := by
        intro k hk hmem
        rcases List.mem_cons.mp hmem with rfl | hmem
        · exact hi hk
        · exact havoid k (List.mem_cons_of_mem _ hk) hmem
      obtain ⟨node, hnode⟩ := ih.mpr ⟨steps, hsteps, rfl, hnodup, havoid'⟩
      exact ⟨node, (c.1, (i :: above, c.2)), _,
        (hstep _).mpr ⟨havoid i List.mem_cons_self, c.2, hj, rfl⟩, hnode, rfl⟩

theorem isSome_descend?_iff {g : Graph} {walk : List Nat} :
    (descend? g.childrenBelow ([], 0) walk).isSome = true ↔ g.PassesOnce walk := by
  constructor
  · intro h
    obtain ⟨⟨keys, node⟩, hnode⟩ := Option.isSome_iff_exists.mp h
    obtain ⟨steps, hsteps, -, hnodup, -⟩ := exists_descend?_iff.mp ⟨node, hnode⟩
    exact ⟨steps, hsteps, hnodup⟩
  · rintro ⟨steps, hsteps, hnodup⟩
    obtain ⟨node, hnode⟩ := exists_descend?_iff.mpr
      ⟨steps, hsteps, rfl, hnodup, fun _ _ => List.not_mem_nil⟩
    rw [hnode]
    rfl

/-! ## How far walks go -/

/-- The containers of a graph. -/
def containers (g : Graph) : List Nat :=
  (List.range g.nodes.length).filter fun i => (g.children? i).isSome

theorem mem_containers_of_mem_passed {g : Graph} {i : Nat} {walk : List Nat}
    {steps : List (String × Nat)} (h : g.walk? i walk = some steps) :
    ∀ j ∈ passed i steps, j ∈ g.containers := by
  induction walk generalizing i steps with
  | nil =>
    obtain rfl : [] = steps := Option.some.inj h
    simp [passed]
  | cons n walk ih =>
    obtain ⟨c, more, hchild, hmore, rfl⟩ := walk?_cons_eq_some_iff.mp h
    intro j hj
    rcases List.mem_cons.mp (passed_cons .. ▸ hj) with rfl | hj
    · cases hchildren : g.children? j with
      | none => simp [hchildren] at hchild
      | some children =>
        rw [containers, List.mem_filter, List.mem_range]
        exact ⟨lt_length_of_children? hchildren, by rw [hchildren]; rfl⟩
    · exact ih hmore j hj

theorem length_passed {g : Graph} {i : Nat} {walk : List Nat} {steps : List (String × Nat)}
    (h : g.walk? i walk = some steps) : (passed i steps).length = walk.length := by
  induction walk generalizing i steps with
  | nil =>
    obtain rfl : [] = steps := Option.some.inj h
    rfl
  | cons n walk ih =>
    obtain ⟨c, more, hchild, hmore, rfl⟩ := walk?_cons_eq_some_iff.mp h
    rw [passed_cons, List.length_cons, List.length_cons, ih hmore]

/-- A walk that passes no container twice has no more steps than there are containers. -/
theorem PassesOnce.length_le {g : Graph} {walk : List Nat} (h : g.PassesOnce walk) :
    walk.length ≤ g.containers.length := by
  obtain ⟨steps, hsteps, hnodup⟩ := h
  rw [← length_passed hsteps]
  exact (List.subperm_of_subset hnodup (mem_containers_of_mem_passed hsteps)).length_le

/-- A walk can be carried on from its last node by any child of it, unless it is a container that
    was passed before. -/
theorem passesOnce_append_iff {g : Graph} {walk : List Nat} {steps : List (String × Nat)}
    (hsteps : g.walk? 0 walk = some steps) (hnodup : (passed 0 steps).Nodup) (n : Nat) :
    g.PassesOnce (walk ++ [n]) ↔
      lastNode 0 steps ∉ passed 0 steps ∧
        n < ((g.children? (lastNode 0 steps)).getD []).length := by
  have hpassed : ∀ c, passed 0 (steps ++ [c]) = passed 0 steps ++ [lastNode 0 steps] := by
    intro c
    rw [passed_append_lastNode, passed, List.map_append, ← List.cons_append]
    exact List.dropLast_concat
  rw [PassesOnce, walk?_append_singleton hsteps]
  constructor
  · rintro ⟨more, hmore, hfresh⟩
    obtain ⟨c, hc, rfl⟩ := Option.map_eq_some_iff.mp hmore
    rw [hpassed, ← List.concat_eq_append, List.nodup_concat] at hfresh
    exact ⟨hfresh.1, (List.getElem?_eq_some_iff.mp hc).1⟩
  · rintro ⟨hfresh, hn⟩
    refine ⟨_, Option.map_eq_some_iff.mpr ⟨_, List.getElem?_eq_getElem hn, rfl⟩, ?_⟩
    rw [hpassed, ← List.concat_eq_append, List.nodup_concat]
    exact ⟨hfresh, hnodup⟩

/-! ## The paths of a graph -/

/-- The paths of a graph in their own order are the keys of the non-empty walks from the root that
    pass no container twice, each walk once, in pre-order by the numbers of children. Such a walk
    has no more steps than there are containers. From its last node it goes on to every child,
    wherever that node is reached, unless the walk has passed it. -/
theorem paths_eq_walks (g : Graph) :
    ∃ walks : List (List Nat),
      walks.Pairwise (· < ·) ∧
      (∀ walk, walk ∈ walks ↔ walk ≠ [] ∧ g.PassesOnce walk) ∧
      List.Forall₂ (fun walk path => ∃ steps,
          g.walk? 0 walk = some steps ∧ path.segments = steps.map Prod.fst)
        walks (g.paths .enumeration) ∧
      (∀ walk ∈ walks, walk.length ≤ g.containers.length) ∧
      ∀ walk ∈ walks, ∀ steps, g.walk? 0 walk = some steps → ∀ n,
        (walk ++ [n] ∈ walks ↔ lastNode 0 steps ∉ passed 0 steps ∧
          n < ((g.children? (lastNode 0 steps)).getD []).length) := by
  obtain ⟨walks, hlisted⟩ := exists_listed g.wellFounded_childrenBelow
    g.placesBelow_eq_flatMap ([], 0)
  have hmem : ∀ walk, walk ∈ walks ↔ walk ≠ [] ∧ g.PassesOnce walk := by
    intro walk
    rw [hlisted.mem_iff, isSome_descend?_iff]
  refine ⟨walks, hlisted.rising, hmem, ?_, ?_, ?_⟩
  · rw [paths, PathOrder.arrange, List.forall₂_map_right_iff]
    refine hlisted.keys.imp ?_
    intro walk keys hkeys
    obtain ⟨steps, hsteps, rfl, -⟩ := exists_descend?_iff.mp hkeys
    exact ⟨steps, hsteps, rfl⟩
  · intro walk hwalk
    exact ((hmem walk).mp hwalk).2.length_le
  · intro walk hwalk steps hsteps n
    obtain ⟨steps', hsteps', hnodup⟩ := ((hmem walk).mp hwalk).2
    obtain rfl : steps = steps' := Option.some.inj (hsteps.symm.trans hsteps')
    rw [hmem, passesOnce_append_iff hsteps hnodup]
    simp

/-- The root holds itself and, twice under one key, a container that holds a leaf. -/
example :
    (Graph.mk [some [("me", 0), ("x", 1), ("x", 1)], some [("v", 2)], none]).PassesOnce [2, 0] := by
  exact ⟨[("x", 1), ("v", 2)], rfl, by decide⟩

end Graph

end DefineFold
