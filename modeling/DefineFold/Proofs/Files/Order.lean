/-
  DefineFold.Proofs.Files.Order

  The order of paths. Paths are compared component by component, and names character by character.
  That is the lexicographic order of lists of numbers that stand for the components (`orderKey`), so
  that it is a linear order, and paths of different components never share a place in it
  (`components_eq_of_orderKey_eq`). Sorting puts paths in this order and loses none
  (`increasing_sort`, `sort_perm`), and a list in this order is known by its members
  (`Increasing.eq_of_mem_iff`).
-/

import DefineFold.Proofs.Files.Paths
import DefineFold.Proofs.Text.Units

namespace DefineFold

namespace FilePath

/-! ## Comparison -/

/-- The characters of a name; other components have none. -/
def Component.chars : Component → List Char
  | .name text => text.toList
  | _ => []

/-- The numbers that stand for a component: its rank, and then its characters. -/
def Component.key (c : Component) : List ℕ :=
  c.rank :: c.chars.map Char.toNat

/-- The numbers that stand for the components of a path. -/
def orderKey (path : String) : List (List ℕ) :=
  (components path).map Component.key

theorem compareChars_eq (as bs : List Char) :
    compareChars as bs = compareUnits (as.map Char.toNat) (bs.map Char.toNat) := by
  induction as generalizing bs with
  | nil => cases bs <;> rfl
  | cons a as ih =>
    cases bs with
    | nil => rfl
    | cons b bs => rw [compareChars, List.map_cons, List.map_cons, compareUnits, ih]

theorem Component.compare_compares (a b : Component) : (a.compare b).Compares a.key b.key := by
  have hthen : a.compare b = (cmp a.rank b.rank).then (compareChars a.chars b.chars) := by
    cases a <;> cases b <;> rfl
  rw [hthen, compareChars_eq]
  exact compares_cons (cmp_compares _ _) (compareUnits_compares _ _)

theorem compareComponents_compares (as bs : List Component) :
    (compareComponents as bs).Compares (as.map Component.key) (bs.map Component.key) := by
  induction as generalizing bs with
  | nil =>
    cases bs with
    | nil => exact rfl
    | cons b bs => exact List.nil_lt_cons _ _
  | cons a as ih =>
    cases bs with
    | nil => exact List.nil_lt_cons _ _
    | cons b bs =>
      have hthen : compareComponents (a :: as) (b :: bs) =
          (a.compare b).then (compareComponents as bs) := by
        rw [compareComponents]
        cases a.compare b <;> rfl
      rw [hthen]
      exact compares_cons (Component.compare_compares a b) (ih bs)

theorem Component.key_injective : Function.Injective Component.key := by
  intro a b h
  obtain ⟨hrank, hchars⟩ := List.cons.inj h
  have hcodes : a.chars = b.chars :=
    List.map_injective_iff.mpr (fun c d hcd => Char.toNat_inj.mp hcd) hchars
  cases a with
  | name s =>
    cases b with
    | name t => exact congrArg name (String.ext hcodes)
    | _ => simp [rank] at hrank
  | _ =>
    cases b <;> simp [rank] at hrank
    rfl

/-- Paths at one place in the order have the same components. -/
theorem components_eq_of_orderKey_eq {path path' : String} (h : orderKey path = orderKey path') :
    components path = components path' :=
  List.map_injective_iff.mpr Component.key_injective h

/-- Below one directory, no two paths share a place in the order. -/
theorem Below.eq_of_orderKey_eq {root path path' : String} {names names' : List String}
    (hroot : root ≠ "") (hbelow : Below root names path) (hbelow' : Below root names' path')
    (hnames : ∀ name ∈ names, IsSegment name) (hnames' : ∀ name ∈ names', IsSegment name)
    (h : orderKey path = orderKey path') : path = path' := by
  have hcomponents := components_eq_of_orderKey_eq h
  rw [hbelow.components_eq hroot hnames, hbelow'.components_eq hroot hnames'] at hcomponents
  have hsame := List.append_cancel_left hcomponents
  obtain rfl : names = names' := List.map_injective_iff.mpr (fun _ _ => Component.name.inj) hsame
  exact hbelow.unique hbelow'

/-! ## Sorting -/

theorem insertSorted_perm (x : List Component × String)
    (paths : List (List Component × String)) : (insertSorted x paths).Perm (x :: paths) := by
  induction paths with
  | nil => exact .refl _
  | cons y paths ih =>
    rw [insertSorted]
    split
    · exact .refl _
    · exact (ih.cons y).trans (.swap x y paths)

theorem foldr_insertSorted_perm (marks : List (List Component × String)) :
    (marks.foldr insertSorted []).Perm marks := by
  induction marks with
  | nil => exact .refl _
  | cons x marks ih => exact (insertSorted_perm x _).trans (ih.cons x)

theorem sort_perm (paths : List String) : (sort paths).Perm paths := by
  have hsort := (foldr_insertSorted_perm (paths.map fun p => (components p, p))).map (·.2)
  rwa [List.map_map, show (·.2) ∘ (fun p => (components p, p)) = id from rfl, List.map_id] at hsort

/-- The order in which a path is put among others. -/
def NotAfter (x y : List Component × String) : Prop :=
  x.1.map Component.key ≤ y.1.map Component.key

theorem pairwise_insertSorted (x : List Component × String)
    {marks : List (List Component × String)} (h : marks.Pairwise NotAfter) :
    (insertSorted x marks).Pairwise NotAfter := by
  induction marks with
  | nil => exact List.pairwise_singleton _ _
  | cons y marks ih =>
    obtain ⟨hy, hmarks⟩ := List.pairwise_cons.mp h
    have hcompares := compareComponents_compares x.1 y.1
    rw [insertSorted]
    split
    · rename_i hfirst
      have hxy : NotAfter x y := hcompares.ne_gt.mp (by simpa using hfirst)
      refine List.pairwise_cons.mpr ⟨?_, h⟩
      intro z hz
      rcases List.mem_cons.mp hz with rfl | hz
      · exact hxy
      · exact le_trans hxy (hy z hz)
    · rename_i hlater
      have hyx : NotAfter y x := le_of_lt (hcompares.eq_gt.mp (by simpa using hlater))
      refine List.pairwise_cons.mpr ⟨?_, ih hmarks⟩
      intro z hz
      rcases List.mem_cons.mp ((insertSorted_perm x marks).mem_iff.mp hz) with rfl | hz
      · exact hyx
      · exact hy z hz

theorem pairwise_sort (paths : List String) :
    (sort paths).Pairwise fun p q => orderKey p ≤ orderKey q := by
  have hmarks : ∀ marks : List (List Component × String),
      (marks.foldr insertSorted []).Pairwise NotAfter := by
    intro marks
    induction marks with
    | nil => exact .nil
    | cons x marks ih => exact pairwise_insertSorted x ih
  have hperm := foldr_insertSorted_perm (paths.map fun p => (components p, p))
  rw [sort, List.pairwise_map]
  -- Every path that is put among the others has its own components with it.
  refine (hmarks _).imp_of_mem ?_
  intro x y hx hy hxy
  obtain ⟨p, -, rfl⟩ := List.mem_map.mp (hperm.mem_iff.mp hx)
  obtain ⟨q, -, rfl⟩ := List.mem_map.mp (hperm.mem_iff.mp hy)
  exact hxy

/-- A list of paths each of which comes before those behind it. -/
def Increasing (paths : List String) : Prop :=
  paths.Pairwise fun p q => orderKey p < orderKey q

instance (paths : List String) : Decidable (Increasing paths) :=
  inferInstanceAs (Decidable (List.Pairwise _ _))

theorem Increasing.nodup {paths : List String} (h : Increasing paths) : paths.Nodup := by
  refine h.imp ?_
  rintro p q hpq rfl
  exact lt_irrefl _ hpq

/-- Sorting leaves no two paths at one place, if there were none before. -/
theorem increasing_sort {paths : List String} (hnodup : paths.Nodup)
    (hplaces : ∀ p ∈ paths, ∀ q ∈ paths, orderKey p = orderKey q → p = q) :
    Increasing (sort paths) := by
  have hperm := sort_perm paths
  refine ((pairwise_sort paths).and (hperm.nodup_iff.mpr hnodup)).imp_of_mem ?_
  rintro p q hp hq ⟨hle, hne⟩
  refine lt_of_le_of_ne hle ?_
  intro heq
  exact hne (hplaces p (hperm.mem_iff.mp hp) q (hperm.mem_iff.mp hq) heq)

/-- Which paths there are decides in which row they stand. -/
theorem Increasing.eq_of_mem_iff {paths paths' : List String} (h : Increasing paths)
    (h' : Increasing paths') (hmem : ∀ path, path ∈ paths ↔ path ∈ paths') : paths = paths' := by
  refine List.Perm.eq_of_pairwise ?_ h h' ((List.perm_ext_iff_of_nodup h.nodup h'.nodup).mpr hmem)
  intro p q _ _ hpq hqp
  exact absurd hpq (lt_asymm hqp)

end FilePath

end DefineFold
