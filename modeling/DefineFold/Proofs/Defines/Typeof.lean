/-
  DefineFold.Proofs.Defines.Typeof

  The defines for `typeof` expressions as a part of all defines. They are looked up in a mapping
  of their own, with the mark taken off the keys and put back in front of the path that is
  found. That comes to the same as looking up the marked name in all defines
  (`Table.resolveTypeof?_eq`): the mark has no dot in it, so that a dotted form begins with the
  mark only if the first key on the path does (`exists_key_of_joinDots_eq`).
-/

import DefineFold.Proofs.Defines.Resolution
import Mathlib.Data.List.Find

namespace DefineFold

/-! ## Marked texts -/

/-- What begins a text with a dot in it and has no dot itself begins the part before the dot. -/
theorem isPrefix_of_isPrefix_append {xs ys zs : List Char} {c : Char} (hc : c ∉ xs)
    (h : xs <+: ys ++ c :: zs) : xs <+: ys := by
  rcases List.prefix_or_prefix_of_prefix h (List.prefix_append ys (c :: zs)) with hxs | hys
  · exact hxs
  · -- Past the part, the beginning could only go on with the dot.
    obtain ⟨more, rfl⟩ := hys
    rw [List.prefix_append_right_inj] at h
    cases more with
    | nil => simp
    | cons x more =>
      rw [List.cons_prefix_cons] at h
      rw [h.1] at hc
      simp at hc

theorem joinDots_cons_toList (key : String) (rest : List String) :
    (joinDots (key :: rest)).toList =
      key.toList ++ if rest.isEmpty then [] else '.' :: (joinDots rest).toList := by
  cases rest with
  | nil => simp [joinDots, joinChars]
  | cons next rest =>
    rw [joinDots, List.map_cons, joinChars_cons _ (by simp), String.toList_ofList]
    simp [joinDots]

namespace Defines

theorem afterMark?_eq_some_iff {mark key name : String} :
    afterMark? mark key = some name ↔ key = mark ++ name := by
  rw [afterMark?]
  constructor
  · intro h
    split at h
    · rename_i hmark
      obtain ⟨rest, hrest⟩ := List.isPrefixOf_iff_prefix.mp hmark
      obtain rfl := Option.some.inj h
      rw [← String.toList_inj, ← hrest, List.drop_left, String.toList_append,
        String.toList_ofList]
    · simp at h
  · rintro rfl
    have hmark : mark.toList.isPrefixOf (mark ++ name).toList = true := by
      rw [String.toList_append, List.isPrefixOf_iff_prefix]
      exact List.prefix_append _ _
    rw [if_pos hmark, String.toList_append, List.drop_left, String.ofList_toList]

/-- A path whose dotted form begins with the mark begins with a marked key. -/
theorem exists_key_of_joinDots_eq {key name : String} {rest : List String}
    (h : joinDots (key :: rest) = typeofMark ++ name) : ∃ first, key = typeofMark ++ first := by
  have hlist := congrArg String.toList h
  rw [joinDots_cons_toList, String.toList_append] at hlist
  have hmark : typeofMark.toList <+: key.toList := by
    split at hlist
    · rw [List.append_nil] at hlist
      rw [hlist]
      exact List.prefix_append _ _
    · apply isPrefix_of_isPrefix_append (c := '.') (by decide)
      rw [hlist]
      exact List.prefix_append _ _
  obtain ⟨first, hfirst⟩ := hmark
  refine ⟨String.ofList first, ?_⟩
  rw [← String.toList_inj, String.toList_append, String.toList_ofList, hfirst]

/-! ## Look-up -/

/-- The value under a name for `typeof` is that under the marked name among all entries. -/
theorem find?_typeofEntries (name : String) (entries : Entries) :
    Entries.find? name (typeofEntries entries) = Entries.find? (typeofMark ++ name) entries := by
  induction entries with
  | nil => rfl
  | cons e entries ih =>
    obtain ⟨key, v⟩ := e
    rw [typeofEntries, Entries.find?]
    cases hmark : afterMark? typeofMark key with
    | some first =>
      obtain rfl := afterMark?_eq_some_iff.mp hmark
      simp only
      rw [Entries.find?, ih]
      simp only [String.append_right_inj]
    | none =>
      have hne : key ≠ typeofMark ++ name := by
        intro heq
        rw [afterMark?_eq_some_iff.mpr heq] at hmark
        simp at hmark
      simp only
      rw [if_neg hne, ih]

end Defines

/-! ## Enumeration -/

namespace Table

/-- The mark put back in front of a path of an entry gives the path of the marked entry. -/
theorem map_markTypeof_entryPaths (first : String) (v : Value) :
    (Value.entryPaths (first, v)).map markTypeof =
      Value.entryPaths (Defines.typeofMark ++ first, v) := by
  simp only [Value.entryPaths, Value.entryPlaces, List.map_map]
  rfl

theorem markTypeof_dotted {path : Path} {first : String} {rest : List String}
    (h : path.segments = first :: rest) :
    (markTypeof path).dotted = Defines.typeofMark ++ path.dotted := by
  have hmark : markTypeof path = Path.ofSegments ((Defines.typeofMark ++ first) :: rest) := by
    rw [markTypeof, h]
  rw [hmark, path.dotted_eq, h, Path.ofSegments, ← String.toList_inj, String.toList_append,
    joinDots_cons_toList, joinDots_cons_toList, String.toList_append, List.append_assoc]

end Table

namespace Defines

/-- The first path with a marked dotted form among all entries is the first one with the form
    itself among those for `typeof`, marked. -/
theorem firstPath?_typeofMark (entries : Entries) (name : String) :
    (Value.object entries).firstPath? (typeofMark ++ name) =
      ((Value.object (typeofEntries entries)).firstPath? name).map Table.markTypeof := by
  simp only [Value.firstPath?, Value.enumerate_object]
  induction entries with
  | nil => rfl
  | cons e entries ih =>
    obtain ⟨key, v⟩ := e
    rw [List.flatMap_cons, List.find?_append, ih, typeofEntries]
    cases hmark : afterMark? typeofMark key with
    | some first =>
      -- A marked entry: its paths are those of the entry without the mark, each marked.
      obtain rfl := afterMark?_eq_some_iff.mp hmark
      simp only
      rw [List.flatMap_cons, List.find?_append, ← Table.map_markTypeof_entryPaths,
        List.find?_map]
      have hsame : (Value.entryPaths (first, v)).find?
            ((fun path => path.dotted == typeofMark ++ name) ∘ Table.markTypeof) =
          (Value.entryPaths (first, v)).find? (·.dotted == name) := by
        apply List.find?_congr
        intro path hpath
        obtain ⟨rest, hrest⟩ := Value.segments_of_mem_entryPaths hpath
        rw [Function.comp_apply, Table.markTypeof_dotted hrest, Bool.eq_iff_iff, beq_iff_eq,
          beq_iff_eq, String.append_right_inj]
      rw [hsame]
      cases (Value.entryPaths (first, v)).find? (·.dotted == name) <;> rfl
    | none =>
      -- Any other entry has no path with a marked dotted form.
      have hnone : (Value.entryPaths (key, v)).find? (·.dotted == typeofMark ++ name) = none := by
        rw [List.find?_eq_none]
        intro path hpath hdotted
        obtain ⟨rest, hrest⟩ := Value.segments_of_mem_entryPaths hpath
        rw [beq_iff_eq, path.dotted_eq, hrest] at hdotted
        obtain ⟨first, hfirst⟩ := exists_key_of_joinDots_eq hdotted
        rw [afterMark?_eq_some_iff.mpr hfirst] at hmark
        simp at hmark
      simp only
      rw [hnone]
      rfl

end Defines

/-- A `typeof` expression is answered as its marked name is among all defines. -/
theorem Table.resolveTypeof?_eq (t : Table) (name : String) :
    t.resolveTypeof? name =
      t.defines.root.answerFor? t.options.allowFalsy (Defines.typeofMark ++ name) := by
  have hmatch : Form.typeofOperand.accepts (.typeofOperand name) (Candidate.dotted
      (.typeofOperand name)) = true := by
    simp [Form.accepts, Candidate.dotted]
  rw [resolveTypeof?, t.typeofPaths_eq, t.typeofRoot_eq, resolveAmong?_eq, if_pos hmatch]
  show ((Value.object (Defines.typeofEntries t.defines.entries)).answerFor? t.options.allowFalsy
      name).map (fun r => { r with path := markTypeof r.path }) =
    (Value.object t.defines.entries).answerFor? t.options.allowFalsy (Defines.typeofMark ++ name)
  rw [Value.answerFor?, Value.answerFor?, Defines.firstPath?_typeofMark]
  cases hpath : (Value.object (Defines.typeofEntries t.defines.entries)).firstPath? name with
  | none => rfl
  | some path =>
    obtain ⟨first, -, rest, hsegments⟩ :=
      Value.segments_of_mem_enumerate (Value.dotted_of_firstPath? hpath).1
    have hmark : (markTypeof path).segments = (Defines.typeofMark ++ first) :: rest := by
      rw [markTypeof, hsegments]
      rfl
    simp only [Option.bind_some, Option.map_some]
    -- Both paths lead to the same value.
    rw [replacementAt?, replacementAt?, hsegments, hmark, Value.lookup?_object,
      Value.lookup?_object, Defines.find?_typeofEntries]
    cases (Entries.find? (Defines.typeofMark ++ first) t.defines.entries).bind (·.lookup? rest) with
    | none => rfl
    | some v =>
      simp only
      split
      · rfl
      · rfl

end DefineFold
