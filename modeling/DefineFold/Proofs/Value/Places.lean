/-
  DefineFold.Proofs.Value.Places

  The places of a configuration, entry by entry. The places below a value do not depend on
  what stands before them (`placesBelow_eq_map`), so that the places of an object are those of
  its entries, one entry after the other (`placesBelow_object`), each under the key of its
  entry. With that, what is put behind an object is enumerated behind it (`enumerate_append`)
  and does not hide what stands before it (`lookup?_append_of_mem`, `lookup?_append_of_not_mem`).
-/

import DefineFold.Value.Path

namespace DefineFold

/-! ## Entries -/

namespace Entries

theorem find?_append (key : String) (xs ys : Entries) :
    find? key (xs ++ ys) = (find? key xs).or (find? key ys) := by
  induction xs with
  | nil => rfl
  | cons x xs ih =>
    obtain ⟨k, v⟩ := x
    rw [List.cons_append, find?, find?]
    split
    · rfl
    · exact ih

theorem find?_eq_none_iff {key : String} {entries : Entries} :
    find? key entries = none ↔ key ∉ entries.map Prod.fst := by
  induction entries with
  | nil => simp [find?]
  | cons e entries ih =>
    obtain ⟨k, v⟩ := e
    rw [find?, List.map_cons, List.mem_cons, not_or]
    split
    · rename_i hkey
      simp [hkey]
    · rename_i hkey
      rw [ih]
      constructor
      · intro h
        exact ⟨fun heq => hkey heq.symm, h⟩
      · intro h
        exact h.2

end Entries

namespace Value

/-! ## Places under a front -/

mutual

/-- What stands before the places below a value can be put there afterwards. -/
theorem placesBelow_eq_map (front : List String) :
    (v : Value) → v.placesBelow front = (v.placesBelow []).map (front ++ ·)
  | .null => rfl
  | .bool _ => rfl
  | .integer _ => rfl
  | .double _ => rfl
  | .string _ => rfl
  | .array items => by
    rw [placesBelow, placesBelow]
    exact placesOfItems_eq_map front 0 items
  | .object entries => by
    rw [placesBelow, placesBelow]
    exact placesOfEntries_eq_map front entries

/-- The same for the items of an array. -/
theorem placesOfItems_eq_map (front : List String) (index : Nat) :
    (items : List Value) →
      placesOfItems front index items = (placesOfItems [] index items).map (front ++ ·)
  | [] => rfl
  | v :: vs => by
    rw [placesOfItems, placesOfItems, placesOfItems_eq_map front (index + 1) vs,
      placesBelow_eq_map (front ++ [natText index]) v,
      placesBelow_eq_map ([] ++ [natText index]) v]
    simp [Function.comp_def]

/-- The same for the entries of an object. -/
theorem placesOfEntries_eq_map (front : List String) :
    (entries : List (String × Value)) →
      placesOfEntries front entries = (placesOfEntries [] entries).map (front ++ ·)
  | [] => rfl
  | (key, v) :: rest => by
    rw [placesOfEntries, placesOfEntries, placesOfEntries_eq_map front rest,
      placesBelow_eq_map (front ++ [key]) v, placesBelow_eq_map ([] ++ [key]) v]
    simp [Function.comp_def]

end

/-! ## Places of an object -/

/-- The places of one entry: that of its key, then those below its value. -/
def entryPlaces (e : String × Value) : List (List String) :=
  ([] :: e.2.placesBelow []).map (e.1 :: ·)

/-- The places of an object are those of its entries, one entry after the other. -/
theorem placesBelow_object (entries : Entries) :
    (Value.object entries).placesBelow [] = entries.flatMap entryPlaces := by
  rw [placesBelow]
  induction entries with
  | nil => rfl
  | cons e rest ih =>
    obtain ⟨key, v⟩ := e
    rw [placesOfEntries, List.flatMap_cons, ih, placesBelow_eq_map]
    simp [entryPlaces]

/-- The paths of one entry. -/
def entryPaths (e : String × Value) : List Path :=
  (entryPlaces e).map Path.ofSegments

theorem enumerate_object (entries : Entries) :
    (Value.object entries).enumerate = entries.flatMap entryPaths := by
  rw [enumerate, placesBelow_object, List.map_flatMap]
  rfl

theorem enumerate_append (xs ys : Entries) :
    (Value.object (xs ++ ys)).enumerate =
      (Value.object xs).enumerate ++ (Value.object ys).enumerate := by
  simp only [enumerate_object, List.flatMap_append]

/-- A path of an entry begins with the key of the entry. -/
theorem segments_of_mem_entryPaths {e : String × Value} {p : Path} (h : p ∈ entryPaths e) :
    ∃ rest, p.segments = e.1 :: rest := by
  obtain ⟨segments, hmem, rfl⟩ := List.mem_map.mp h
  obtain ⟨rest, -, rfl⟩ := List.mem_map.mp hmem
  exact ⟨rest, rfl⟩

/-- A path of an object begins with a key of the object. -/
theorem segments_of_mem_enumerate {entries : Entries} {p : Path}
    (h : p ∈ (Value.object entries).enumerate) :
    ∃ key ∈ entries.map Prod.fst, ∃ rest, p.segments = key :: rest := by
  rw [enumerate_object] at h
  obtain ⟨e, he, hp⟩ := List.mem_flatMap.mp h
  obtain ⟨rest, hrest⟩ := segments_of_mem_entryPaths hp
  exact ⟨e.1, List.mem_map.mpr ⟨e, he, rfl⟩, rest, hrest⟩

/-! ## Look-up in an object -/

theorem lookup?_object (entries : Entries) (key : String) (rest : List String) :
    (Value.object entries).lookup? (key :: rest) =
      (Entries.find? key entries).bind (·.lookup? rest) :=
  rfl

/-- What is put behind an object does not hide what lies under its keys. -/
theorem lookup?_append_of_mem {xs ys : Entries} {key : String} (rest : List String)
    (h : key ∈ xs.map Prod.fst) :
    (Value.object (xs ++ ys)).lookup? (key :: rest) =
      (Value.object xs).lookup? (key :: rest) := by
  rw [lookup?_object, lookup?_object, Entries.find?_append]
  cases hfind : Entries.find? key xs with
  | none => exact absurd h (Entries.find?_eq_none_iff.mp hfind)
  | some v => rfl

/-- Under the other keys lies what is put behind. -/
theorem lookup?_append_of_not_mem {xs ys : Entries} {key : String} (rest : List String)
    (h : key ∉ xs.map Prod.fst) :
    (Value.object (xs ++ ys)).lookup? (key :: rest) =
      (Value.object ys).lookup? (key :: rest) := by
  rw [lookup?_object, lookup?_object, Entries.find?_append, Entries.find?_eq_none_iff.mpr h]
  rfl

end Value
end DefineFold
