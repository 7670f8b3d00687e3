/-
  DefineFold.Proofs.Defines.Dotted

  Dotted forms taken apart again. Cutting at dots undoes joining with dots up to the dots that the
  segments bring with them: each segment is cut at its own dots (`splitDots_joinChars`). So a chain
  is what its own dotted form addresses just if no segment of it has a dot in it
  (`Form.accepts_joinDots_iff`), no other path addresses it (`Form.accepts_memberChain_iff`), and
  its dotted form is also that of the chain with each segment cut at its dots
  (`joinDots_cutSegments`).

  A form without a dot is that of one path at most, the path of a top-level key. A search for a bare
  name among all paths, nested ones and those of dotted or empty keys included, is therefore a
  look-up of the name in the mapping (`Table.resolve?_bareName`).
-/

import DefineFold.Proofs.Defines.Resolution

namespace DefineFold

/-! ## Cutting at dots -/

/-- A dot cuts a text in two, whatever dots are on either side of it. -/
theorem splitDots_append_dot (xs ys : List Char) :
    splitDots (xs ++ '.' :: ys) = splitDots xs ++ splitDots ys := by
  induction xs with
  | nil => rfl
  | cons c xs ih =>
    rw [List.cons_append, splitDots, splitDots, ih]
    split
    · rfl
    · -- The character goes to the front of the first part on both sides.
      cases hparts : splitDots xs with
      | nil => exact absurd hparts (splitDots_ne_nil xs)
      | cons part parts => rfl

theorem splitDots_of_not_mem {cs : List Char} (h : '.' ∉ cs) : splitDots cs = [cs] := by
  induction cs with
  | nil => rfl
  | cons c cs ih =>
    simp only [List.mem_cons, not_or] at h
    rw [splitDots, if_neg (Ne.symm h.1), ih h.2]

theorem not_mem_of_mem_splitDots {cs part : List Char} (h : part ∈ splitDots cs) :
    '.' ∉ part := by
  induction cs generalizing part with
  | nil =>
    obtain rfl := List.mem_singleton.mp h
    exact List.not_mem_nil
  | cons c cs ih =>
    rw [splitDots] at h
    split at h
    · rcases List.mem_cons.mp h with rfl | h
      · exact List.not_mem_nil
      · exact ih h
    · rename_i hc
      cases hparts : splitDots cs with
      | nil => exact absurd hparts (splitDots_ne_nil cs)
      | cons first rest =>
        simp only [hparts] at h ih
        rcases List.mem_cons.mp h with rfl | h
        · rw [List.mem_cons, not_or]
          exact ⟨Ne.symm hc, ih List.mem_cons_self⟩
        · exact ih (List.mem_cons_of_mem _ h)

/-- Parts with dots between them are cut where they were joined, and each at its own dots. -/
theorem splitDots_joinChars {parts : List (List Char)} (hne : parts ≠ []) :
    splitDots (joinChars ['.'] parts) = parts.flatMap splitDots := by
  induction parts with
  | nil => exact absurd rfl hne
  | cons part parts ih =>
    rw [List.flatMap_cons]
    cases parts with
    | nil => simp [joinChars]
    | cons next parts =>
      have hcons : next :: parts ≠ [] := List.cons_ne_nil _ _
      rw [joinChars_cons part hcons, List.append_assoc, List.singleton_append,
        splitDots_append_dot, ih hcons]

/-- Parts that are cut nowhere have no dot in them. -/
theorem flatMap_splitDots_eq_self_iff {parts : List (List Char)} :
    parts.flatMap splitDots = parts ↔ ∀ part ∈ parts, '.' ∉ part := by
  constructor
  · -- What is left of a list that is cut is made of parts without dots.
    intro h part hpart
    rw [← h] at hpart
    obtain ⟨whole, -, hmem⟩ := List.mem_flatMap.mp hpart
    exact not_mem_of_mem_splitDots hmem
  · intro h
    induction parts with
    | nil => rfl
    | cons part parts ih =>
      rw [List.flatMap_cons, splitDots_of_not_mem (h part List.mem_cons_self),
        ih fun p hp => h p (List.mem_cons_of_mem _ hp)]
      rfl

/-- A chain is what its own dotted form addresses just if no segment has a dot in it. -/
theorem Form.accepts_joinDots_iff {segments : List String} (hne : segments ≠ []) :
    Form.memberChain.accepts (.memberChain segments) (joinDots segments) = true ↔
      ∀ segment ∈ segments, '.' ∉ segment.toList := by
  have hmap : segments.map String.toList ≠ [] := by simpa using hne
  rw [Form.accepts, takesParts_iff, joinDots, String.toList_ofList, splitDots_joinChars hmap,
    flatMap_splitDots_eq_self_iff]
  simp only [List.mem_map, forall_exists_index, and_imp, forall_apply_eq_imp_iff₂]

/-- A chain is what a path addresses just if its segments are the parts of the path. -/
theorem Form.accepts_iff_splitDots {segments : List String} {path : String} :
    Form.memberChain.accepts (.memberChain segments) path = true ↔
      splitDots path.toList = segments.map String.toList :=
  takesParts_iff

/-- A path has parts, so that a chain without segments is never what it addresses. -/
theorem Form.ne_nil_of_accepts {segments : List String} {path : String}
    (h : Form.memberChain.accepts (.memberChain segments) path = true) : segments ≠ [] := by
  rintro rfl
  exact splitDots_ne_nil _ (Form.accepts_iff_splitDots.mp h)

/-- A chain is what a path addresses just if it has segments, none of them with a dot in it, that
    make up the path with dots between them. So one path at most addresses a chain. None addresses
    a chain without segments or with a dot in one, and a path that addresses a chain does not
    address what is left of it without one of its links. -/
theorem Form.accepts_memberChain_iff (segments : List String) (path : String) :
    (Form.memberChain.accepts (.memberChain segments) path = true ↔
      segments ≠ [] ∧ (∀ segment ∈ segments, '.' ∉ segment.toList) ∧ joinDots segments = path) ∧
    (∀ other, Form.memberChain.accepts (.memberChain segments) path = true →
      Form.memberChain.accepts (.memberChain segments) other = true → other = path) ∧
    ((segments = [] ∨ ∃ segment ∈ segments, '.' ∈ segment.toList) →
      Form.memberChain.accepts (.memberChain segments) path = false) ∧
    ∀ front link back, segments = front ++ link :: back →
      Form.memberChain.accepts (.memberChain segments) path = true →
      Form.memberChain.accepts (.memberChain (front ++ back)) path = false := by
  have hiff : Form.memberChain.accepts (.memberChain segments) path = true ↔
      segments ≠ [] ∧ (∀ segment ∈ segments, '.' ∉ segment.toList) ∧ joinDots segments = path := by
    constructor
    · intro h
      have hne := Form.ne_nil_of_accepts h
      obtain rfl : path = joinDots segments := Form.eq_dotted_of_accepts h
      exact ⟨hne, (Form.accepts_joinDots_iff hne).mp h, rfl⟩
    · rintro ⟨hne, hdots, rfl⟩
      exact (Form.accepts_joinDots_iff hne).mpr hdots
  refine ⟨hiff, fun other h hother => ?_, fun hbad => ?_, ?_⟩
  · rw [Form.eq_dotted_of_accepts h, Form.eq_dotted_of_accepts hother]
  · rw [← Bool.not_eq_true, hiff]
    rintro ⟨hne, hdots, -⟩
    rcases hbad with hnil | ⟨segment, hmem, hdot⟩
    · exact hne hnil
    · exact hdots segment hmem hdot
  · rintro front link back rfl h
    rw [← Bool.not_eq_true]
    intro hshort
    -- Both chains would have the parts of the path, but one of them has a segment more.
    rw [Form.accepts_iff_splitDots] at h hshort
    have hlength := congrArg List.length (h.symm.trans hshort)
    simp only [List.length_map, List.length_append, List.length_cons] at hlength
    omega

-- Empty texts are segments like all others.
theorem Form.accepts_memberChain_iff_empty_links :
    Form.memberChain.accepts (.memberChain ["", "a", ""]) ".a." = true ∧
      (∀ other, Form.memberChain.accepts (.memberChain ["", "a", ""]) other = true →
        other = ".a.") ∧
      Form.memberChain.accepts (.memberChain ["", "a"]) ".a." = false := by
  have hself : Form.memberChain.accepts (.memberChain ["", "a", ""]) ".a." = true := by
    decide +kernel
  obtain ⟨-, halone, -, hshort⟩ := Form.accepts_memberChain_iff ["", "a", ""] ".a."
  exact ⟨hself, fun other => halone other hself, hshort ["", "a"] "" [] rfl hself⟩

/-- The segments of a chain, each of them cut at its dots. -/
def cutSegments (segments : List String) : List String :=
  segments.flatMap fun segment => (splitDots segment.toList).map String.ofList

theorem map_toList_cutSegments (segments : List String) :
    (cutSegments segments).map String.toList = (segments.map String.toList).flatMap splitDots := by
  rw [cutSegments, List.map_flatMap, List.flatMap_map]
  simp [Function.comp_def]

theorem not_mem_of_mem_cutSegments {segments : List String} {segment : String}
    (h : segment ∈ cutSegments segments) : '.' ∉ segment.toList := by
  obtain ⟨whole, -, hmem⟩ := List.mem_flatMap.mp h
  obtain ⟨part, hpart, rfl⟩ := List.mem_map.mp hmem
  rw [String.toList_ofList]
  exact not_mem_of_mem_splitDots hpart

/-- Segments that are cut at their dots have the dotted form that they had before. -/
theorem joinDots_cutSegments {segments : List String} (hne : segments ≠ []) :
    joinDots (cutSegments segments) = joinDots segments := by
  have hmap : segments.map String.toList ≠ [] := by simpa using hne
  rw [joinDots, joinDots, map_toList_cutSegments, ← splitDots_joinChars hmap, joinChars_splitDots]

theorem cutSegments_ne_nil {segments : List String} (hne : segments ≠ []) :
    cutSegments segments ≠ [] := by
  have hmap : segments.map String.toList ≠ [] := by simpa using hne
  intro hnil
  have hcut := map_toList_cutSegments segments
  rw [hnil, List.map_nil, ← splitDots_joinChars hmap] at hcut
  exact splitDots_ne_nil _ hcut.symm

/-! ## Bare names -/

/-- A dotted form without a dot is that of a single segment. -/
theorem eq_singleton_of_joinDots {segments : List String} {name : String} (hne : segments ≠ [])
    (hjoin : joinDots segments = name) (hname : '.' ∉ name.toList) : segments = [name] := by
  cases segments with
  | nil => exact absurd rfl hne
  | cons segment rest =>
    cases rest with
    | nil => simpa [joinDots, joinChars] using hjoin
    | cons next rest =>
      -- Between two segments there is a dot.
      rw [← hjoin, joinDots, List.map_cons, joinChars_cons _ (by simp), String.toList_ofList]
        at hname
      simp at hname

namespace Value

variable {name : String} (hname : '.' ∉ name.toList)

include hname

theorem key_of_mem_entryPaths {e : String × Value} {path : Path} (hpath : path ∈ entryPaths e)
    (hdotted : path.dotted = name) : e.1 = name ∧ path = Path.ofSegments [name] := by
  obtain ⟨rest, hsegments⟩ := segments_of_mem_entryPaths hpath
  have hjoin : joinDots path.segments = name := by rw [← path.dotted_eq, hdotted]
  have hsingle := eq_singleton_of_joinDots (by rw [hsegments]; exact List.cons_ne_nil _ _) hjoin
    hname
  rw [hsegments] at hsingle
  refine ⟨(List.cons.inj hsingle).1, ?_⟩
  obtain ⟨segments, dotted, rfl⟩ := path
  obtain rfl : segments = [name] := hsegments.trans hsingle
  rfl

/-- Of the paths of one entry, that of its key alone can have a form without a dot. -/
theorem find?_entryPaths_bareName (e : String × Value) :
    (entryPaths e).find? (·.dotted == name) =
      if e.1 = name then some (Path.ofSegments [name]) else none := by
  split
  · -- The path of the key comes first, before those below its value.
    rename_i hkey
    have hfirst : ((Path.ofSegments [e.1]).dotted == name) = true := by
      simp [Path.ofSegments, joinDots, joinChars, hkey]
    rw [entryPaths, entryPlaces, List.map_cons, List.map_cons, List.find?_cons, hfirst, hkey]
  · rename_i hkey
    rw [List.find?_eq_none]
    intro path hpath hdotted
    exact hkey (key_of_mem_entryPaths hname hpath (beq_iff_eq.mp hdotted)).1

/-- The first path with a form without a dot is that of the key, if there is such a key. -/
theorem firstPath?_bareName (entries : Entries) :
    (object entries).firstPath? name =
      (Entries.find? name entries).map fun _ => Path.ofSegments [name] := by
  rw [firstPath?, enumerate_object]
  induction entries with
  | nil => rfl
  | cons e entries ih =>
    obtain ⟨key, v⟩ := e
    rw [List.flatMap_cons, List.find?_append, find?_entryPaths_bareName hname, ih, Entries.find?]
    split
    · rfl
    · rfl

/-- What is answered for a form without a dot stands under the key. -/
theorem answerFor?_bareName (entries : Entries) (allowFalsy : Bool) :
    (object entries).answerFor? allowFalsy name =
      ((Entries.find? name entries).filter fun v => !v.isFalsy || allowFalsy).map fun v =>
        ⟨Path.ofSegments [name], v⟩ := by
  rw [answerFor?, firstPath?_bareName hname]
  cases hfind : Entries.find? name entries with
  | none => rfl
  | some v =>
    -- The path of the key leads back to the value that was found under it.
    have hlookup : (object entries).lookup? (Path.ofSegments [name]).segments = some v := by
      show (object entries).lookup? [name] = some v
      rw [lookup?_object, hfind]
      rfl
    rw [Option.map_some, Option.bind_some, replacementAt?, hlookup]
    cases hfalsy : v.isFalsy <;> cases allowFalsy <;> simp [Option.filter, hfalsy]

end Value

/-- A search for a bare name is a look-up of the name in the mapping. It finds the path of the
    top-level key and the value under it if there is such a key, unless the value is falsy and such
    values are not wanted; and it finds nothing otherwise. The order of the paths plays no part. -/
theorem Table.resolve?_bareName (t : Table) {name : String} (hname : '.' ∉ name.toList) :
    t.resolve? .identifier (.identifier name) =
      ((t.defines.get? name).filter fun v => !v.isFalsy || t.options.allowFalsy).map (fun v =>
        ⟨Path.ofSegments [name], v⟩) ∧
    ∀ v, (∃ r, t.resolve? .identifier (.identifier name) = some r ∧ r.path.segments = [name] ∧
        r.value = v) ↔
      t.defines.get? name = some v ∧ (v.isFalsy = false ∨ t.options.allowFalsy = true) := by
  have hsearch : t.resolve? .identifier (.identifier name) =
      ((t.defines.get? name).filter fun v => !v.isFalsy || t.options.allowFalsy).map fun v =>
        ⟨Path.ofSegments [name], v⟩ := by
    have hmatch : Form.identifier.accepts (.identifier name) (Candidate.dotted (.identifier name)) =
        true := by
      simp [Form.accepts, Candidate.dotted]
    rw [Table.resolve?_eq, if_pos hmatch]
    exact Value.answerFor?_bareName hname t.defines.entries t.options.allowFalsy
  refine ⟨hsearch, fun v => ?_⟩
  rw [hsearch]
  simp only [Option.map_eq_some_iff, Option.filter_eq_some_iff, Bool.or_eq_true,
    Bool.not_eq_true']
  constructor
  · rintro ⟨r, ⟨w, hw, rfl⟩, -, rfl⟩
    exact hw
  · intro hv
    exact ⟨_, ⟨v, hv, rfl⟩, rfl, rfl⟩

/-! ## A name among nested, dotted and empty keys -/

namespace Sample

def versions : Defines :=
  ⟨[("app", .object [("VERSION", .string "9"), ("", .string "none")]), ("", .object [("a", .null)]),
    ("VERSION.major", .integer 1), ("VERSION", .string "1.2.3"), ("DEBUG", .bool false)]⟩

end Sample

theorem Table.resolve?_bareName_sample :
    '.' ∉ "VERSION".toList ∧ '.' ∉ "DEBUG".toList ∧
    ((Table.build Sample.versions default).resolve? .identifier (.identifier "VERSION")).map
      (·.path.segments) = some ["VERSION"] ∧
    ((Table.build Sample.versions default).resolve? .identifier (.identifier "DEBUG")).isNone =
      true := by
  have hversion : '.' ∉ "VERSION".toList := by decide
  have hdebug : '.' ∉ "DEBUG".toList := by decide
  refine ⟨hversion, hdebug, ?_, ?_⟩
  · rw [(Table.resolve?_bareName _ hversion).1]
    rfl
  · rw [(Table.resolve?_bareName _ hdebug).1]
    rfl

end DefineFold
