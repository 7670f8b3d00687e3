/-
  DefineFold.Proofs.Value.Locations

  The paths of a configuration and look-up along segments are two accounts of the same thing. The
  locations of a value are the addresses below it. Enumeration lists the segments of every
  location once and in pre-order, and the order by length is a stable sort of that. Look-up leads
  from the segments of a location to what lies there; whatever else it finds, it finds along the
  segments of one location, in which an index of an array was spelled with zeros or a plus sign in
  front (`Value.paths_eq_locations`).

  That keys tell the children of a value apart is what the values of documents have in common: an
  object has no key twice, and an array no more items than there are indices of 64 bits.
-/

import DefineFold.Proofs.Text.Radix
import DefineFold.Proofs.Value.Places
import DefineFold.Proofs.Value.Preorder
import DefineFold.Proofs.Value.Unambiguous
import Mathlib.Data.List.Nodup

namespace DefineFold

/-! ## The order by length -/

theorem insertLongest_perm (x : Nat × Path) (paths : List (Nat × Path)) :
    (insertLongest x paths).Perm (x :: paths) := by
  induction paths with
  | nil => exact .refl _
  | cons y paths ih =>
    rw [insertLongest]
    split
    · exact .refl _
    · exact (ih.cons y).trans (.swap x y paths)

theorem pairwise_insertLongest {x : Nat × Path} {paths : List (Nat × Path)}
    (h : paths.Pairwise fun y z => z.1 ≤ y.1) :
    (insertLongest x paths).Pairwise fun y z => z.1 ≤ y.1 := by
  induction paths with
  | nil => exact List.pairwise_singleton _ _
  | cons y paths ih =>
    obtain ⟨hy, hpaths⟩ := List.pairwise_cons.mp h
    rw [insertLongest]
    split
    · rename_i hle
      refine List.pairwise_cons.mpr ⟨?_, h⟩
      intro z hz
      rcases List.mem_cons.mp hz with rfl | hz
      · exact hle
      · exact Nat.le_trans (hy z hz) hle
    · rename_i hlonger
      refine List.pairwise_cons.mpr ⟨?_, ih hpaths⟩
      intro z hz
      rcases List.mem_cons.mp ((insertLongest_perm x paths).mem_iff.mp hz) with rfl | hz
      · omega
      · exact hy z hz

/-- A path is put before all others of its length. -/
theorem filter_insertLongest (n : Nat) (x : Nat × Path) (paths : List (Nat × Path)) :
    (insertLongest x paths).filter (·.1 == n) = (x :: paths).filter (·.1 == n) := by
  induction paths with
  | nil => rfl
  | cons y paths ih =>
    rw [insertLongest]
    split
    · rfl
    · rename_i hlonger
      rw [List.filter_cons, ih]
      by_cases hx : x.1 = n
      · -- What is passed is longer.
        have hy : y.1 ≠ n := by omega
        simp [hx, hy]
      · simp [List.filter_cons, hx]

/-- The paths with their lengths, sorted. -/
def longestFirst (paths : List Path) : List (Nat × Path) :=
  (paths.map fun p => (textLength p.dotted, p)).foldr insertLongest []

theorem longestFirst_perm (paths : List Path) :
    (longestFirst paths).Perm (paths.map fun p => (textLength p.dotted, p)) := by
  induction paths with
  | nil => exact .refl _
  | cons p paths ih => exact (insertLongest_perm _ _).trans (ih.cons _)

theorem fst_of_mem_longestFirst {paths : List Path} {x : Nat × Path}
    (h : x ∈ longestFirst paths) : x.1 = textLength x.2.dotted := by
  obtain ⟨p, -, rfl⟩ := List.mem_map.mp ((longestFirst_perm paths).mem_iff.mp h)
  rfl

theorem sortLongest_perm (paths : List Path) : (sortLongest paths).Perm paths := by
  have h := (longestFirst_perm paths).map Prod.snd
  rwa [List.map_map, show (Prod.snd ∘ fun p : Path => (textLength p.dotted, p)) = id from rfl,
    List.map_id] at h

/-- Sorted paths do not get longer. -/
theorem pairwise_sortLongest (paths : List Path) :
    (sortLongest paths).Pairwise fun p q => textLength q.dotted ≤ textLength p.dotted := by
  have hsorted : (longestFirst paths).Pairwise fun y z => z.1 ≤ y.1 := by
    induction paths with
    | nil => exact .nil
    | cons p paths ih => exact pairwise_insertLongest ih
  show ((longestFirst paths).map Prod.snd).Pairwise _
  rw [List.pairwise_map]
  refine hsorted.imp_of_mem ?_
  intro y z hy hz hle
  rwa [fst_of_mem_longestFirst hy, fst_of_mem_longestFirst hz] at hle

/-- Paths of one length stay in their order. -/
theorem filter_sortLongest (n : Nat) (paths : List Path) :
    (sortLongest paths).filter (textLength ·.dotted == n) =
      paths.filter (textLength ·.dotted == n) := by
  have hfilter : (longestFirst paths).filter (·.1 == n) =
      (paths.map fun p => (textLength p.dotted, p)).filter (·.1 == n) := by
    induction paths with
    | nil => rfl
    | cons p paths ih =>
      have hinsert := filter_insertLongest n (textLength p.dotted, p) (longestFirst paths)
      rw [List.filter_cons] at hinsert
      rw [List.map_cons, List.filter_cons, ← ih]
      exact hinsert
  show ((longestFirst paths).map Prod.snd).filter _ = _
  rw [List.filter_map]
  have hlength : (longestFirst paths).filter ((textLength ·.dotted == n) ∘ Prod.snd) =
      (longestFirst paths).filter (·.1 == n) := by
    apply List.filter_congr
    intro x hx
    rw [Function.comp_apply, fst_of_mem_longestFirst hx]
  rw [hlength, hfilter, List.filter_map, List.map_map]
  exact List.map_id _

namespace Value

/-! ## Locations -/

/-- The values right inside of a value, each under the segment that leads to it. -/
def children : Value → List (String × Value)
  | .array items => items.zipIdx.map fun x => (natText x.2, x.1)
  | .object entries => entries
  | _ => []

/-- What lies at an address in a value, and the segments on the way to it. -/
def locate? (v : Value) (address : List Nat) : Option (List String × Value) :=
  descend? children v address

theorem mem_parts_of_mem_children {v : Value} {c : String × Value} (h : c ∈ v.children) :
    c.2 ∈ v.parts := by
  cases v with
  | array items =>
    obtain ⟨x, hx, rfl⟩ := List.mem_map.mp h
    exact List.mem_of_getElem? (List.mem_zipIdx_iff_getElem?.mp hx)
  | object entries => exact List.mem_map.mpr ⟨c, h, rfl⟩
  | _ => simp [children] at h

theorem wellFounded_children : WellFounded fun u v => ∃ key, (key, u) ∈ children v :=
  Subrelation.wf (fun ⟨_, h⟩ => sizeOf_lt_of_mem_parts (mem_parts_of_mem_children h))
    (measure (sizeOf : Value → Nat)).wf

theorem placesOfItems_eq_flatMap (index : Nat) (items : List Value) :
    placesOfItems [] index items =
      ((items.zipIdx index).map fun x => (natText x.2, x.1)).flatMap entryPlaces := by
  induction items generalizing index with
  | nil => rfl
  | cons v vs ih =>
    rw [placesOfItems, ih, placesBelow_eq_map, List.zipIdx_cons, List.map_cons, List.flatMap_cons]
    simp [entryPlaces]

theorem placesBelow_eq_flatMap (v : Value) :
    v.placesBelow [] =
      v.children.flatMap fun c => ([] :: c.2.placesBelow []).map (c.1 :: ·) := by
  cases v with
  | array items =>
    rw [placesBelow]
    exact placesOfItems_eq_flatMap 0 items
  | object entries => exact placesBelow_object entries
  | _ => rfl

/-! ## Values of documents -/

mutual

/-- Whether no object in a value has a key twice and no array has more items than there are
    indices of 64 bits. -/
def isRegular : Value → Bool
  | .array items => decide (items.length ≤ 2 ^ 64) && areRegular items
  | .object entries => decide (entries.map Prod.fst).Nodup && haveRegular entries
  | _ => true

/-- The same for all items of an array. -/
def areRegular : List Value → Bool
  | [] => true
  | v :: vs => isRegular v && areRegular vs

/-- The same for the values of all entries. -/
def haveRegular : List (String × Value) → Bool
  | [] => true
  | (_, v) :: rest => isRegular v && haveRegular rest

end

theorem isRegular_of_areRegular {items : List Value} (h : areRegular items = true) :
    ∀ v ∈ items, v.isRegular = true := by
  induction items with
  | nil => simp
  | cons v vs ih =>
    rw [areRegular, Bool.and_eq_true] at h
    intro u hu
    rcases List.mem_cons.mp hu with rfl | hu
    · exact h.1
    · exact ih h.2 u hu

theorem isRegular_of_haveRegular {entries : Entries} (h : haveRegular entries = true) :
    ∀ e ∈ entries, e.2.isRegular = true := by
  induction entries with
  | nil => simp
  | cons e rest ih =>
    rw [haveRegular, Bool.and_eq_true] at h
    intro d hd
    rcases List.mem_cons.mp hd with rfl | hd
    · exact h.1
    · exact ih h.2 d hd

theorem isRegular_child {v : Value} (hv : v.isRegular = true) {c : String × Value}
    (hc : c ∈ v.children) : c.2.isRegular = true := by
  cases v with
  | array items =>
    rw [isRegular, Bool.and_eq_true] at hv
    exact isRegular_of_areRegular hv.2 _ (mem_parts_of_mem_children hc)
  | object entries =>
    rw [isRegular, Bool.and_eq_true] at hv
    exact isRegular_of_haveRegular hv.2 c hc
  | _ => simp [children] at hc

theorem getElem?_children_array {items : List Value} {n : Nat} {c : String × Value} :
    (array items).children[n]? = some c ↔ items[n]? = some c.2 ∧ c.1 = natText n := by
  rw [children, List.getElem?_map, List.getElem?_zipIdx, Nat.zero_add]
  cases hitem : items[n]? with
  | none => simp
  | some v =>
    obtain ⟨key, u⟩ := c
    simp [eq_comm, and_comm]

theorem find?_eq_some_of_nodup {entries : Entries} (hkeys : (entries.map Prod.fst).Nodup)
    {key : String} {v : Value} : Entries.find? key entries = some v ↔ (key, v) ∈ entries := by
  induction entries with
  | nil => simp [Entries.find?]
  | cons e rest ih =>
    obtain ⟨k, u⟩ := e
    rw [List.map_cons, List.nodup_cons] at hkeys
    rw [Entries.find?]
    split
    · rename_i hkey
      subst hkey
      have hrest : ∀ w, (k, w) ∉ rest := fun w hw => hkeys.1 (List.mem_map.mpr ⟨_, hw, rfl⟩)
      simp [hrest, eq_comm]
    · rename_i hkey
      rw [ih hkeys.2, List.mem_cons, Prod.mk.injEq]
      simp [Ne.symm hkey]

theorem natText_toList (n : Nat) : (natText n).toList = Nat.toDigits 10 n :=
  String.toList_ofList

/-- A text that spells an index: its decimal text, with zeros and a plus sign in front or
    without. -/
def SpellsIndex (i : Nat) (segment : String) : Prop :=
  ∃ zeros, segment.toList = List.replicate zeros '0' ++ (natText i).toList ∨
    segment.toList = '+' :: (List.replicate zeros '0' ++ (natText i).toList)

/-- Segments that lead down from a value, and the same with each index of an array in its decimal
    text. -/
inductive Respelled : Value → List String → List String → Prop where
  | nil (v : Value) : Respelled v [] []
  | entry {entries : Entries} {key : String} {v : Value} {segments plain : List String} :
    Entries.find? key entries = some v → Respelled v segments plain →
      Respelled (.object entries) (key :: segments) (key :: plain)
  | item {items : List Value} {i : Nat} {segment : String} {v : Value}
      {segments plain : List String} :
    items[i]? = some v → SpellsIndex i segment → Respelled v segments plain →
      Respelled (.array items) (segment :: segments) (natText i :: plain)

/-- The child under a segment of an array is the item at the index that the segment spells. -/
theorem child?_array_eq_some_iff {items : List Value} (hlength : items.length ≤ 2 ^ 64)
    {segment : String} {v : Value} :
    (array items).child? segment = some v ↔
      ∃ i, items[i]? = some v ∧ SpellsIndex i segment := by
  have hbound : ∀ {i}, items[i]? = some v → i < Nat.pow 2 64 := by
    intro i hi
    exact Nat.lt_of_lt_of_le (List.getElem?_eq_some_iff.mp hi).1 hlength
  rw [child?, Option.bind_eq_some_iff]
  simp only [unsigned?_eq_some_iff, SpellsIndex, natText_toList]
  constructor
  · rintro ⟨i, ⟨-, hspelled⟩, hi⟩
    exact ⟨i, hi, hspelled⟩
  · rintro ⟨i, hi, hspelled⟩
    exact ⟨i, ⟨hbound hi, hspelled⟩, hi⟩

theorem SpellsIndex.unique {i j : Nat} {segment : String} (hi : SpellsIndex i segment)
    (hj : SpellsIndex j segment) : i = j := by
  simp only [SpellsIndex, natText_toList] at hi hj
  have hreadi : unsigned? 10 (i + j + 1) segment.toList = some i :=
    unsigned?_eq_some_iff.mpr ⟨by omega, hi⟩
  have hreadj : unsigned? 10 (i + j + 1) segment.toList = some j :=
    unsigned?_eq_some_iff.mpr ⟨by omega, hj⟩
  exact Option.some.inj (hreadi.symm.trans hreadj)

theorem spellsIndex_natText (i : Nat) : SpellsIndex i (natText i) :=
  ⟨0, .inl rfl⟩

/-! ## Look-up -/

/-- The segments of the children of a value differ. -/
theorem nodup_children {v : Value} (hv : v.isRegular = true) :
    (v.children.map Prod.fst).Nodup := by
  cases v with
  | array items =>
    have hnumbers : (items.zipIdx.map Prod.snd).Nodup := by
      rw [List.zipIdx_map_snd]
      exact List.nodup_range'
    have hsegments : (array items).children.map Prod.fst =
        (items.zipIdx.map Prod.snd).map natText := by
      rw [children, List.map_map, List.map_map]
      rfl
    rw [hsegments]
    refine hnumbers.map ?_
    intro i j heq
    exact (spellsIndex_natText i).unique (heq ▸ spellsIndex_natText j)
  | object entries =>
    rw [isRegular, Bool.and_eq_true, decide_eq_true_eq] at hv
    exact hv.1
  | _ => exact List.nodup_nil

/-- The segment of a child leads to the child. -/
theorem child?_of_getElem?_children {v : Value} (hv : v.isRegular = true) {n : Nat}
    {c : String × Value} (h : v.children[n]? = some c) : v.child? c.1 = some c.2 := by
  cases v with
  | array items =>
    rw [isRegular, Bool.and_eq_true, decide_eq_true_eq] at hv
    obtain ⟨hitem, hsegment⟩ := getElem?_children_array.mp h
    rw [hsegment]
    exact (child?_array_eq_some_iff hv.1).mpr ⟨n, hitem, spellsIndex_natText n⟩
  | object entries =>
    rw [isRegular, Bool.and_eq_true, decide_eq_true_eq] at hv
    exact (find?_eq_some_of_nodup hv.1).mpr (List.mem_of_getElem? h)
  | _ => simp [children] at h

/-- The segments of a location lead to what lies there. -/
theorem lookup?_of_locate? {v : Value} (hv : v.isRegular = true) {address : List Nat}
    {segments : List String} {u : Value} (h : v.locate? address = some (segments, u)) :
    v.lookup? segments = some u := by
  induction address generalizing v segments with
  | nil =>
    obtain ⟨rfl, rfl⟩ := Prod.mk.inj (Option.some.inj h)
    rfl
  | cons n address ih =>
    obtain ⟨c, rest, hchild, hbelow, rfl⟩ := descend?_cons_eq_some_iff.mp h
    rw [lookup?, child?_of_getElem?_children hv hchild, Option.bind_some]
    exact ih (isRegular_child hv (List.mem_of_getElem? hchild)) hbelow

/-- Whatever is found along segments lies at a location, whose segments these are but for the
    spelling of indices. -/
theorem exists_locate?_of_lookup? {v : Value} (hv : v.isRegular = true)
    {segments : List String} {u : Value} (h : v.lookup? segments = some u) :
    ∃ address plain, v.locate? address = some (plain, u) ∧ v.Respelled segments plain := by
  induction segments generalizing v with
  | nil =>
    obtain rfl : v = u := Option.some.inj h
    exact ⟨[], [], rfl, .nil v⟩
  | cons segment segments ih =>
    obtain ⟨w, hchild, hrest⟩ := Option.bind_eq_some_iff.mp h
    -- The child that was found is the child with some number.
    have hstep : ∃ (n : Nat) (c : String), v.children[n]? = some (c, w) ∧
        ∀ plain, w.Respelled segments plain → v.Respelled (segment :: segments) (c :: plain) := by
      cases v with
      | array items =>
        rw [isRegular, Bool.and_eq_true, decide_eq_true_eq] at hv
        obtain ⟨i, hitem, hspelled⟩ := (child?_array_eq_some_iff hv.1).mp hchild
        exact ⟨i, natText i, getElem?_children_array.mpr ⟨hitem, rfl⟩,
          fun plain hplain => .item hitem hspelled hplain⟩
      | object entries =>
        rw [isRegular, Bool.and_eq_true, decide_eq_true_eq] at hv
        obtain ⟨n, hn⟩ := List.getElem?_of_mem ((find?_eq_some_of_nodup hv.1).mp hchild)
        exact ⟨n, segment, hn, fun plain hplain => .entry hchild hplain⟩
      | _ => simp [child?] at hchild
    obtain ⟨n, c, hnumber, hrespell⟩ := hstep
    obtain ⟨address, plain, hlocate, hplain⟩ :=
      ih (isRegular_child hv (List.mem_of_getElem? hnumber)) hrest
    exact ⟨n :: address, c :: plain,
      descend?_cons_eq_some_iff.mpr ⟨(c, w), plain, hnumber, hlocate, rfl⟩, hrespell plain hplain⟩

theorem Respelled.unique {v : Value} {segments plain plain' : List String}
    (h : v.Respelled segments plain) (h' : v.Respelled segments plain') : plain = plain' := by
  induction h generalizing plain' with
  | nil v =>
    cases h'
    rfl
  | entry hfind _ ih =>
    cases h' with
    | entry hfind' hrest' =>
      obtain rfl := Option.some.inj (hfind.symm.trans hfind')
      rw [ih hrest']
  | item hitem hspelled _ ih =>
    cases h' with
    | item hitem' hspelled' hrest' =>
      obtain rfl := hspelled.unique hspelled'
      obtain rfl := Option.some.inj (hitem.symm.trans hitem')
      rw [ih hrest']

/-- The segments of a location tell it from all others. -/
theorem locate?_inj {v : Value} (hv : v.isRegular = true) {p q : List Nat}
    {segments : List String} {u w : Value} (hp : v.locate? p = some (segments, u))
    (hq : v.locate? q = some (segments, w)) : p = q := by
  induction p generalizing v q segments with
  | nil =>
    obtain ⟨rfl, rfl⟩ := Prod.mk.inj (Option.some.inj hp)
    cases q with
    | nil => rfl
    | cons m q =>
      obtain ⟨c, rest, -, -, hsegments⟩ := descend?_cons_eq_some_iff.mp hq
      exact absurd hsegments.symm (List.cons_ne_nil _ _)
  | cons n p ih =>
    obtain ⟨c, rest, hc, hbelow, rfl⟩ := descend?_cons_eq_some_iff.mp hp
    cases q with
    | nil => simp [locate?, descend?] at hq
    | cons m q =>
      obtain ⟨d, rest', hd, hbelow', hsegments⟩ := descend?_cons_eq_some_iff.mp hq
      obtain ⟨hkey, rfl⟩ := List.cons_eq_cons.mp hsegments
      -- Children under one segment have one number.
      have hnumber : n = m := by
        have hlt : n < (v.children.map Prod.fst).length := by
          rw [List.length_map]
          exact (List.getElem?_eq_some_iff.mp hc).1
        rw [← List.getElem?_inj hlt (nodup_children hv), List.getElem?_map, List.getElem?_map,
          hc, hd, Option.map_some, Option.map_some, hkey]
      subst hnumber
      obtain rfl := Option.some.inj (hc.symm.trans hd)
      rw [ih (isRegular_child hv (List.mem_of_getElem? hc)) hbelow hbelow']

/-! ## Paths and locations -/

theorem paths_perm (v : Value) (order : PathOrder) : (v.paths order).Perm v.enumerate := by
  cases order with
  | longestFirst => exact sortLongest_perm _
  | enumeration => exact .refl _

theorem mem_paths_iff {v : Value} {order : PathOrder} {path : Path} :
    path ∈ v.paths order ↔ path.segments ∈ v.placesBelow [] := by
  rw [(v.paths_perm order).mem_iff, enumerate, List.mem_map]
  constructor
  · rintro ⟨segments, hmem, rfl⟩
    exact hmem
  · intro hmem
    refine ⟨path.segments, hmem, ?_⟩
    obtain ⟨segments, dotted, rfl⟩ := path
    rfl

theorem map_segments_enumerate (v : Value) :
    v.enumerate.map Path.segments = v.placesBelow [] := by
  rw [enumerate, List.map_map]
  exact List.map_id _

/-- The paths of a value in their own order are the segments of its locations, all but the root,
    each location once and in pre-order, and look-up leads along them to what lies there. Paths in
    the order by length are the same paths, sorted stably. No two paths have the same segments.
    Where look-up along any segments finds something, these are the segments of just one path that
    leads to the same value, but for the spelling of indices. -/
theorem paths_eq_locations (v : Value) (hv : v.isRegular = true) :
    ∃ locations : List (List Nat),
      locations.Pairwise (· < ·) ∧
      (∀ location, location ∈ locations ↔
        location ≠ [] ∧ (v.locate? location).isSome = true) ∧
      List.Forall₂ (fun location path => ∃ u,
          v.locate? location = some (path.segments, u) ∧ v.lookup? path.segments = some u)
        locations (v.paths .enumeration) ∧
      (v.paths .longestFirst).Perm (v.paths .enumeration) ∧
      (v.paths .longestFirst).Pairwise
        (fun p q => textLength q.dotted ≤ textLength p.dotted) ∧
      (∀ n, (v.paths .longestFirst).filter (textLength ·.dotted == n) =
        (v.paths .enumeration).filter (textLength ·.dotted == n)) ∧
      ∀ order,
        ((v.paths order).map Path.segments).Nodup ∧
        ∀ segments u, segments ≠ [] → v.lookup? segments = some u →
          ∃! path, path ∈ v.paths order ∧ v.Respelled segments path.segments ∧
            v.lookup? path.segments = some u := by
  obtain ⟨locations, hlisted⟩ := exists_listed wellFounded_children placesBelow_eq_flatMap v
  refine ⟨locations, hlisted.rising, hlisted.mem_iff, ?_, sortLongest_perm _,
    pairwise_sortLongest _, fun n => filter_sortLongest n _, ?_⟩
  · show List.Forall₂ _ locations ((v.placesBelow []).map Path.ofSegments)
    rw [List.forall₂_map_right_iff]
    refine hlisted.keys.imp ?_
    rintro location segments ⟨u, hu⟩
    exact ⟨u, hu, lookup?_of_locate? hv hu⟩
  · intro order
    constructor
    · rw [((v.paths_perm order).map Path.segments).nodup_iff, map_segments_enumerate]
      exact hlisted.nodup (locate?_inj hv)
    · intro segments u hne hlookup
      obtain ⟨location, plain, hlocate, hplain⟩ := exists_locate?_of_lookup? hv hlookup
      have hlocation : location ≠ [] := by
        rintro rfl
        obtain ⟨rfl, -⟩ := Prod.mk.inj (Option.some.inj hlocate)
        cases hplain
        exact hne rfl
      refine ⟨Path.ofSegments plain, ⟨?_, hplain, lookup?_of_locate? hv hlocate⟩, ?_⟩
      · exact mem_paths_iff.mpr (hlisted.mem_places_iff.mpr ⟨location, u, hlocation, hlocate⟩)
      · rintro ⟨other, _, rfl⟩ ⟨-, hother, -⟩
        obtain rfl := hother.unique hplain
        rfl

/-! ## An index with a sign

The segments spell the index 1 as `+01`; a second key has the dotted form of a path into the
array. -/

namespace Sample

def listed : Value :=
  .object [("list", .array [.integer 10, .object [("x", .string "y")]]), ("list.0", .null)]

end Sample

theorem paths_eq_locations_sample :
    Sample.listed.isRegular = true ∧
    ((Sample.listed.paths .longestFirst).map Path.segments).Nodup ∧
    Sample.listed.lookup? ["list", "+01", "x"] = some (.string "y") ∧
    ∃! path, path ∈ Sample.listed.paths .longestFirst ∧
      Sample.listed.Respelled ["list", "+01", "x"] path.segments ∧
      Sample.listed.lookup? path.segments = some (.string "y") := by
  have hregular : Sample.listed.isRegular = true := by decide +kernel
  have hlookup : Sample.listed.lookup? ["list", "+01", "x"] = some (.string "y") := rfl
  obtain ⟨-, -, -, -, -, -, -, hpaths⟩ := paths_eq_locations Sample.listed hregular
  obtain ⟨hnodup, hfound⟩ := hpaths .longestFirst
  exact ⟨hregular, hnodup, hlookup, hfound _ _ (List.cons_ne_nil _ _) hlookup⟩

end Value

end DefineFold
