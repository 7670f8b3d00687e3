/-
  DefineFold.Value.Graph

  Paths in a graph of containers, where containers may be shared and may hold one of those
  that they lie in. A container that is already on the way from the root is listed once
  more but not entered.
-/

import DefineFold.Value.Path

namespace DefineFold

/-- A graph: each node is a leaf, or a container with keys that lead to other nodes by
    number. Node 0 is the root. -/
structure Graph where
  nodes : List (Option (List (String × Nat)))
deriving Repr, Inhabited

namespace Graph

/-- The children of a container; a leaf has none to speak of. -/
def children? (g : Graph) (i : Nat) : Option (List (String × Nat)) :=
  (g.nodes[i]?).join

/-- How many nodes are not among those above. -/
def unentered (g : Graph) (above : List Nat) : Nat :=
  (List.range g.nodes.length).countP fun i => !above.contains i

theorem lt_length_of_children? {g : Graph} {i : Nat} {children : List (String × Nat)}
    (h : g.children? i = some children) : i < g.nodes.length := by
  rw [children?, Option.join_eq_some_iff] at h
  exact (List.getElem?_eq_some_iff.mp h).1

/-- To enter a container leaves fewer of them. -/
theorem unentered_cons_lt {g : Graph} {above : List Nat} {i : Nat}
    (hi : i < g.nodes.length) (hfresh : i ∉ above) :
    g.unentered (i :: above) < g.unentered above := by
  have hsplit : g.unentered (i :: above) =
      ((List.range g.nodes.length).filter fun j => !above.contains j).countP (· ≠ i) := by
    rw [List.countP_filter, unentered]
    apply List.countP_congr
    intro j _
    by_cases hj : j = i <;> simp [hj]
  have hmem : i ∈ (List.range g.nodes.length).filter fun j => !above.contains j := by
    rw [List.mem_filter]
    exact ⟨List.mem_range.mpr hi, by simpa using hfresh⟩
  rw [hsplit, unentered, List.countP_eq_length_filter, List.countP_eq_length_filter,
    List.length_filter_lt_length_iff_exists]
  exact ⟨i, hmem, by simp⟩

/-- The places below a node. The containers on the way to it are in `above`; there are only so
    many, so that the ways come to an end. -/
def placesBelow (g : Graph) (above : List Nat) (front : List String) (i : Nat) :
    List (List String) :=
  match _hchildren : g.children? i with
  | none => []
  | some children =>
    if _hentered : i ∈ above then []
    else
      children.flatMap fun (key, j) =>
        (front ++ [key]) :: g.placesBelow (i :: above) (front ++ [key]) j
termination_by g.unentered above
decreasing_by exact unentered_cons_lt (lt_length_of_children? _hchildren) _hentered

/-- The paths of a graph in the given order. -/
def paths (g : Graph) (order : PathOrder) : List Path :=
  order.arrange ((g.placesBelow [] [] 0).map Path.ofSegments)

end Graph

end DefineFold
