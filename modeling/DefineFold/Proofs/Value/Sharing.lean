/-
  DefineFold.Proofs.Value.Sharing

  A configuration value as a graph. In memory a value is a graph of containers, and the paths of the
  graph are listed with a look at the containers on the way. A node holds a value if its children
  hold the values right inside, in order and under their keys (`Graph.Lays`); values that look alike
  may lie in one place. As a container holds more than what lies in it, no container is on the way
  to itself, and the look at the way changes nothing (`Graph.placesBelow_eq_of_lays`). So the paths
  of the value are those of the graph (`Graph.paths_eq_of_lays`).
-/

import DefineFold.Proofs.Value.Locations
import DefineFold.Proofs.Value.Walks

namespace DefineFold

/-- Lists that are related member by member give the same, if related members do. -/
theorem flatMap_eq_of_forall₂ {α β γ : Type} {R : α → β → Prop} {f : α → List γ} {g : β → List γ}
    {xs : List α} {ys : List β} (h : List.Forall₂ R xs ys)
    (hfg : ∀ x, ∀ y ∈ ys, R x y → f x = g y) : xs.flatMap f = ys.flatMap g := by
  induction h with
  | nil => rfl
  | @cons x y xs ys hxy _ ih =>
    rw [List.flatMap_cons, List.flatMap_cons, hfg x y List.mem_cons_self hxy,
      ih fun a b hb => hfg a b (List.mem_cons_of_mem _ hb)]

/-- Lists that are related to one list are related to each other through its members. -/
theorem forall₂_of_common {α β γ : Type} {R : α → β → Prop} {S : α → γ → Prop} {xs : List α}
    {ys : List β} {zs : List γ} (hR : List.Forall₂ R xs ys) (hS : List.Forall₂ S xs zs) :
    List.Forall₂ (fun y z => ∃ x, R x y ∧ S x z) ys zs := by
  induction hR generalizing zs with
  | nil =>
    cases hS
    exact .nil
  | cons hy _ ih =>
    cases hS with
    | cons hz hrest => exact .cons ⟨_, hy, hz⟩ (ih hrest)

namespace Value

/-- Below a value there are more places than below each value inside. -/
theorem length_placesBelow_lt {v : Value} {c : String × Value} (h : c ∈ v.children) :
    (c.2.placesBelow []).length < (v.placesBelow []).length := by
  have hsub : (([] :: c.2.placesBelow []).map (c.1 :: ·)).Sublist (v.placesBelow []) := by
    rw [placesBelow_eq_flatMap v]
    exact List.sublist_flatten_of_mem (List.mem_map.mpr ⟨c, h, rfl⟩)
  have hle := hsub.length_le
  rw [List.length_map, List.length_cons] at hle
  omega

end Value

namespace Graph

/-- Which values are held by which nodes: the children of a node hold what lies right inside of the
    value that it holds, under the same keys. -/
structure Lays (g : Graph) (holds : Nat → Value → Prop) : Prop where
  children : ∀ i v, holds i v →
    List.Forall₂ (fun c d => c.1 = d.1 ∧ holds c.2 d.2) ((g.children? i).getD []) v.children

namespace Lays

variable {g : Graph} {holds : Nat → Value → Prop}

/-- Values that one node holds have the same places. -/
theorem placesBelow_eq (h : g.Lays holds) {i : Nat} {u v : Value} (hu : holds i u)
    (hv : holds i v) : u.placesBelow [] = v.placesBelow [] := by
  induction v using Value.wellFounded_children.induction generalizing i u with
  | _ v ih =>
    -- Both are the places of the node, each of whose children holds a value on either side.
    rw [Value.placesBelow_eq_flatMap u, Value.placesBelow_eq_flatMap v]
    apply flatMap_eq_of_forall₂ (forall₂_of_common (h.children i u hu) (h.children i v hv))
    rintro c d hd ⟨n, hc, hd'⟩
    rw [← hc.1, hd'.1, ih d.2 ⟨d.1, hd⟩ hc.2 hd'.2]

end Lays

/-- The places below a node are those below the value that it holds, if each container above holds
    more. -/
theorem placesBelow_eq_of_lays {g : Graph} {holds : Nat → Value → Prop} (h : g.Lays holds)
    {above : List Nat} {i : Nat} {v : Value} (hv : holds i v)
    (habove : ∀ j ∈ above, ∀ u, holds j u →
      (v.placesBelow []).length < (u.placesBelow []).length) :
    g.placesBelow above [] i = v.placesBelow [] := by
  induction v using Value.wellFounded_children.induction generalizing above i with
  | _ v ih =>
    have hfresh : i ∉ above := fun hi => Nat.lt_irrefl _ (habove i hi v hv)
    have hchildren : g.childrenBelow (above, i) =
        ((g.children? i).getD []).map fun c => (c.1, (i :: above, c.2)) := by
      rw [childrenBelow, if_neg hfresh]
    rw [placesBelow_eq_flatMap g (above, i), hchildren, List.flatMap_map,
      Value.placesBelow_eq_flatMap v]
    apply flatMap_eq_of_forall₂ (h.children i v hv)
    rintro c d hd ⟨hkey, hd'⟩
    have hlt := Value.length_placesBelow_lt hd
    rw [hkey, ih d.2 ⟨d.1, hd⟩ hd']
    intro j hj u hu
    rcases List.mem_cons.mp hj with rfl | hj
    · rw [h.placesBelow_eq hu hv]
      exact hlt
    · exact Nat.lt_trans hlt (habove j hj u hu)

/-- A value has the paths of every graph whose root holds it. -/
theorem paths_eq_of_lays {g : Graph} {holds : Nat → Value → Prop} (h : g.Lays holds) {v : Value}
    (hv : holds 0 v) (order : PathOrder) : v.paths order = g.paths order := by
  have hplaces : g.placesBelow [] [] 0 = v.placesBelow [] :=
    placesBelow_eq_of_lays h hv fun j hj => absurd hj List.not_mem_nil
  rw [Value.paths, Value.enumerate, paths, hplaces]

/-! ## A graph for each value -/

/-- Going on by one child. -/
theorem descend?_append_singleton {v u : Value} {address : List Nat} {keys : List String}
    (h : descend? Value.children v address = some (keys, u)) {n : Nat} {c : String × Value}
    (hc : u.children[n]? = some c) :
    descend? Value.children v (address ++ [n]) = some (keys ++ [c.1], c.2) := by
  induction address generalizing v keys with
  | nil =>
    obtain ⟨rfl, rfl⟩ := Prod.mk.inj (Option.some.inj h)
    exact descend?_cons_eq_some_iff.mpr ⟨c, [], hc, rfl, rfl⟩
  | cons m address ih =>
    obtain ⟨d, below, hd, hbelow, rfl⟩ := descend?_cons_eq_some_iff.mp h
    exact descend?_cons_eq_some_iff.mpr ⟨d, below ++ [c.1], hd, ih hbelow, rfl⟩

/-- The graph with a node for each of some addresses in a value, the containers apart from each
    other. -/
def ofAddresses (v : Value) (addresses : List (List Nat)) : Graph :=
  ⟨addresses.map fun address =>
    (descend? Value.children v address).map fun found =>
      found.2.children.zipIdx.map fun x => (x.1.1, addresses.idxOf (address ++ [x.2]))⟩

/-- Each value lies in memory in some way, nothing of it shared. -/
theorem exists_lays (v : Value) :
    ∃ (g : Graph) (holds : Nat → Value → Prop), g.Lays holds ∧ holds 0 v := by
  obtain ⟨below, hlisted⟩ := exists_listed Value.wellFounded_children
    Value.placesBelow_eq_flatMap v
  refine ⟨ofAddresses v ([] :: below), fun i u => ∃ address keys,
    ([] :: below)[i]? = some address ∧ descend? Value.children v address = some (keys, u), ?_,
    [], [], rfl, rfl⟩
  constructor
  rintro i u ⟨address, keys, hi, hu⟩
  have hnode : ((ofAddresses v ([] :: below)).children? i).getD [] =
      u.children.zipIdx.map fun x => (x.1.1, ([] :: below).idxOf (address ++ [x.2])) := by
    rw [children?, ofAddresses, List.getElem?_map, hi]
    simp [hu]
  rw [hnode, List.forall₂_map_left_iff]
  conv => arg 3; rw [← List.zipIdx_map_fst 0 u.children]
  rw [List.forall₂_map_right_iff, List.forall₂_same]
  intro x hx
  have hbelow := descend?_append_singleton hu (List.mem_zipIdx_iff_getElem?.mp hx)
  have hmem : address ++ [x.2] ∈ [] :: below := by
    refine List.mem_cons_of_mem _ ((hlisted.mem_iff _).mpr ⟨by simp, ?_⟩)
    rw [hbelow]
    rfl
  exact ⟨rfl, address ++ [x.2], keys ++ [x.1.1], List.getElem?_idxOf hmem, hbelow⟩

/-- The listing of a value is that of a graph. -/
theorem exists_paths_eq (v : Value) : ∃ g : Graph, ∀ order, v.paths order = g.paths order := by
  obtain ⟨g, holds, hlays, hroot⟩ := exists_lays v
  exact ⟨g, paths_eq_of_lays hlays hroot⟩

end Graph

end DefineFold
