/-
  DefineFold.Proofs.Files.Paths

  Paths and their pieces. A path is its pieces with slashes between them (`joinPieces_pieces`), so
  a path is known by its pieces. One path below another has the pieces of both
  (`pieces_join`), but for the empty piece behind a slash at the end of the first one. Hence a file
  below one directory goes to the same names below another one (`Below.target`).
-/

import DefineFold.Files.Path

namespace DefineFold

namespace FilePath

/-! ## Pieces -/

theorem splitSlashes_ne_nil (cs : List Char) : splitSlashes cs ≠ [] := by
  cases cs with
  | nil => simp [splitSlashes]
  | cons c cs =>
    rw [splitSlashes]
    split
    · simp
    · split <;> simp

theorem splitSlashes_append_slash (front back : List Char) :
    splitSlashes (front ++ '/' :: back) = splitSlashes front ++ splitSlashes back := by
  induction front with
  | nil => simp [splitSlashes]
  | cons c front ih =>
    by_cases hc : c = '/'
    · simp only [List.cons_append, splitSlashes, hc, if_true, ih]
    · simp only [List.cons_append, splitSlashes, hc, if_false, ih]
      cases hsplit : splitSlashes front with
      | nil => exact absurd hsplit (splitSlashes_ne_nil front)
      | cons part parts => simp

theorem splitSlashes_of_not_mem {cs : List Char} (h : '/' ∉ cs) : splitSlashes cs = [cs] := by
  induction cs with
  | nil => rfl
  | cons c cs ih =>
    rw [List.mem_cons, not_or] at h
    simp only [splitSlashes, if_neg (Ne.symm h.1), ih h.2]

theorem pieces_ne_nil (path : String) : pieces path ≠ [] := by
  simpa [pieces] using splitSlashes_ne_nil path.toList

theorem pieces_append_slash (front back : String) :
    pieces (front ++ "/" ++ back) = pieces front ++ pieces back := by
  have htext : (front ++ "/" ++ back).toList = front.toList ++ '/' :: back.toList := by simp
  simp only [pieces]
  rw [htext, splitSlashes_append_slash, List.map_append]

theorem pieces_of_not_mem {name : String} (h : '/' ∉ name.toList) : pieces name = [name] := by
  rw [pieces, splitSlashes_of_not_mem h, List.map_singleton, String.ofList_toList]

theorem joinPieces_cons_cons (first second : String) (rest : List String) :
    joinPieces (first :: second :: rest) = first ++ "/" ++ joinPieces (second :: rest) := by
  simp only [joinPieces, List.foldl_cons]
  induction rest generalizing second with
  | nil => rfl
  | cons third rest ih =>
    rw [List.foldl_cons, List.foldl_cons, ← ih]
    simp only [String.append_assoc]

theorem pieces_joinPieces {names : List String} (hne : names ≠ [])
    (h : ∀ name ∈ names, '/' ∉ name.toList) : pieces (joinPieces names) = names := by
  induction names with
  | nil => exact absurd rfl hne
  | cons name names ih =>
    cases names with
    | nil => exact pieces_of_not_mem (h name List.mem_cons_self)
    | cons next names =>
      rw [joinPieces_cons_cons, pieces_append_slash, pieces_of_not_mem (h name List.mem_cons_self),
        ih (List.cons_ne_nil _ _) fun other hother => h other (List.mem_cons_of_mem _ hother)]
      rfl

/-- A path is its pieces with slashes between them. -/
theorem joinPieces_pieces (path : String) : joinPieces (pieces path) = path := by
  have hchars : ∀ cs, joinPieces ((splitSlashes cs).map String.ofList) = String.ofList cs := by
    intro cs
    induction cs with
    | nil => rfl
    | cons c cs ih =>
      cases hsplit : splitSlashes cs with
      | nil => exact absurd hsplit (splitSlashes_ne_nil cs)
      | cons part parts =>
        rw [hsplit, List.map_cons] at ih
        by_cases hc : c = '/'
        · simp only [splitSlashes, hc, if_true, hsplit, List.map_cons]
          rw [joinPieces_cons_cons, ih]
          apply String.ext
          simp
        · simp only [splitSlashes, hc, if_false, hsplit, List.map_cons]
          -- The character goes in front of the first piece, and so in front of the path.
          cases parts with
          | nil =>
            rw [joinPieces] at ih ⊢
            apply String.ext
            simpa using congrArg String.toList ih
          | cons next parts =>
            rw [List.map_cons, joinPieces_cons_cons] at ih ⊢
            apply String.ext
            simpa using congrArg String.toList ih
  have h := hchars path.toList
  rwa [String.ofList_toList] at h

theorem pieces_injective {path path' : String} (h : pieces path = pieces path') :
    path = path' := by
  rw [← joinPieces_pieces path, ← joinPieces_pieces path', h]

/-! ## Paths below paths -/

/-- The pieces that a path has in common with those below it. A slash at its end, or nothing at
    all, leaves no piece behind. -/
def stem (path : String) : List String :=
  if path = "" ∨ path.toList.getLast? = some '/' then (pieces path).dropLast else pieces path

theorem pieces_eq_stem (path : String) :
    pieces path = stem path ∨ pieces path = stem path ++ [""] := by
  rw [stem]
  split
  · rename_i hend
    refine .inr ?_
    rcases hend with rfl | hslash
    · rfl
    · obtain ⟨front, hfront⟩ := List.getLast?_eq_some_iff.mp hslash
      rw [pieces, hfront, splitSlashes_append_slash]
      simp [splitSlashes]
  · exact .inl rfl

theorem pieces_join {path : String} (h : isAbsolute path = false) (base : String) :
    pieces (join base path) = stem base ++ pieces path := by
  rw [join, if_neg (by simp [h]), stem]
  split
  · rename_i hend
    rcases hend with rfl | hslash
    · have hempty : ("" ++ path : String) = path := String.empty_append
      rw [hempty]
      rfl
    · obtain ⟨front, hfront⟩ := List.getLast?_eq_some_iff.mp hslash
      simp only [pieces, String.toList_append, hfront, List.append_assoc, List.singleton_append]
      rw [splitSlashes_append_slash, splitSlashes_append_slash]
      simp [splitSlashes]
  · exact pieces_append_slash base path

theorem isAbsolute_join {path : String} (h : isAbsolute path = false) (base : String) :
    isAbsolute (join base path) = isAbsolute base := by
  rw [join, if_neg (by simp [h])]
  cases hchars : base.toList with
  | nil =>
    obtain rfl : base = "" := by simpa using hchars
    simpa [isAbsolute] using h
  | cons c cs =>
    split <;> simp [isAbsolute, hchars]

/-- A text that a path can have as a name. -/
def IsSegment (name : String) : Prop :=
  name ≠ "" ∧ name ≠ "." ∧ name ≠ ".." ∧ '/' ∉ name.toList

instance (name : String) : Decidable (IsSegment name) :=
  inferInstanceAs (Decidable (_ ∧ _))

/-- A path has a directory's pieces and then names. -/
structure Below (root : String) (names : List String) (path : String) : Prop where
  pieces : pieces path = stem root ++ names
  isAbsolute : isAbsolute path = isAbsolute root

theorem isAbsolute_of_isSegment {name : String} (h : IsSegment name) : isAbsolute name = false := by
  rw [isAbsolute, beq_eq_false_iff_ne]
  intro hhead
  exact h.2.2.2 (List.mem_of_mem_head? hhead)

theorem isAbsolute_joinPieces {names : List String} (h : ∀ name ∈ names, IsSegment name) :
    isAbsolute (joinPieces names) = false := by
  cases names with
  | nil => rfl
  | cons name names =>
    have hname := h name List.mem_cons_self
    cases names with
    | nil => exact isAbsolute_of_isSegment hname
    | cons next names =>
      have hrelative := isAbsolute_of_isSegment hname
      rw [joinPieces_cons_cons]
      cases hchars : name.toList with
      | nil => exact absurd (by simpa using hchars) hname.1
      | cons c cs => simpa [isAbsolute, hchars] using hrelative

theorem below_join {name : String} (h : IsSegment name) (root : String) :
    Below root [name] (join root name) := by
  have hrelative := isAbsolute_of_isSegment h
  exact ⟨by rw [pieces_join hrelative, pieces_of_not_mem h.2.2.2], isAbsolute_join hrelative root⟩

theorem stem_join {name : String} (h : IsSegment name) (root : String) :
    stem (join root name) = stem root ++ [name] := by
  rw [← (below_join h root).pieces]
  rcases pieces_eq_stem (join root name) with hstem | hstem
  · exact hstem.symm
  · -- The last piece would be empty, but it is the name.
    have hpieces := (below_join h root).pieces
    rw [hstem] at hpieces
    have hlast := (List.append_inj' hpieces rfl).2
    exact absurd (List.singleton_inj.mp hlast).symm h.1

theorem Below.join {root name path : String} {names : List String} (hname : IsSegment name)
    (h : Below (FilePath.join root name) names path) : Below root (name :: names) path := by
  refine ⟨?_, h.isAbsolute.trans (isAbsolute_join (isAbsolute_of_isSegment hname) root)⟩
  rw [h.pieces, stem_join hname, List.append_assoc]
  rfl

theorem Below.unique {root path path' : String} {names : List String} (h : Below root names path)
    (h' : Below root names path') : path = path' :=
  pieces_injective (h.pieces.trans h'.pieces.symm)

/-- A path spells only one row of names below another path. -/
theorem Below.names_eq {root path : String} {names names' : List String}
    (h : Below root names path) (h' : Below root names' path) : names = names' :=
  List.append_cancel_left (h.pieces.symm.trans h'.pieces)

/-- Names put behind a path one after the other. -/
theorem below_foldl_join {names : List String} (hne : names ≠ [])
    (hnames : ∀ name ∈ names, IsSegment name) (root : String) :
    Below root names (names.foldl FilePath.join root) := by
  induction names generalizing root with
  | nil => exact absurd rfl hne
  | cons name names ih =>
    have hname := hnames name List.mem_cons_self
    cases names with
    | nil => exact below_join hname root
    | cons next names =>
      have hrest := ih (List.cons_ne_nil _ _)
        (fun other hother => hnames other (List.mem_cons_of_mem _ hother)) (FilePath.join root name)
      exact hrest.join hname

theorem Below.eq_foldl_join {root path : String} {names : List String} (h : Below root names path)
    (hne : names ≠ []) (hnames : ∀ name ∈ names, IsSegment name) :
    path = names.foldl FilePath.join root :=
  h.unique (below_foldl_join hne hnames root)

/-! ## The same place below another directory -/

/-- Pieces, each with its component if it has one. -/
def mark : List String → List (String × Option Component)
  | [] => []
  | p :: ps => (p, component? true p) :: ps.map fun q => (q, component? false q)

theorem marked_eq_mark (path : String) : marked path = mark (pieces path) := by
  rw [marked]
  cases pieces path with
  | nil => rfl
  | cons p ps => rfl

theorem mark_append {pieces : List String} (h : pieces ≠ []) (more : List String) :
    mark (pieces ++ more) = mark pieces ++ more.map fun q => (q, component? false q) := by
  cases pieces with
  | nil => exact absurd rfl h
  | cons p ps => simp [mark]

/-- A name with its component. -/
def markName (name : String) : String × Option Component :=
  (name, some (.name name))

theorem mark_names {names : List String} (h : ∀ name ∈ names, IsSegment name) :
    names.map (fun q => (q, component? false q)) = names.map markName := by
  apply List.map_congr_left
  intro name hname
  obtain ⟨hempty, hdot, hup, -⟩ := h name hname
  rw [component?, if_neg hempty, if_neg hdot, if_neg hup, markName]

theorem filterMap_markName (names : List String) :
    (names.map markName).filterMap (·.2) = names.map .name := by
  induction names with
  | nil => rfl
  | cons name names ih => exact congrArg (_ :: ·) ih

theorem stem_ne_nil {path : String} (h : path ≠ "") : stem path ≠ [] := by
  intro hnil
  rcases pieces_eq_stem path with hpieces | hpieces
  · exact pieces_ne_nil path (hpieces.trans hnil)
  · rw [hnil] at hpieces
    exact h (pieces_injective hpieces)

/-- The components of a path that are not the root. -/
def bodyOf (pieces : List String) : List Component :=
  (mark pieces).filterMap (·.2)

theorem bodyOf_stem {path : String} (h : path ≠ "") : bodyOf (pieces path) = bodyOf (stem path) := by
  rcases pieces_eq_stem path with hpieces | hpieces
  · rw [hpieces]
  · rw [hpieces, bodyOf, mark_append (stem_ne_nil h), List.filterMap_append, bodyOf]
    exact List.append_nil _

theorem components_eq (path : String) :
    components path = (if isAbsolute path then [.root] else []) ++ bodyOf (pieces path) := by
  rw [components, marked_eq_mark, bodyOf]
  split <;> rfl

theorem components_ne_nil {path : String} (h : path ≠ "") : components path ≠ [] := by
  rw [components_eq]
  split
  · simp
  · rename_i hrelative
    -- A path that does not start with a slash starts with a piece that is not empty.
    cases hchars : path.toList with
    | nil => exact absurd (by simpa using hchars) h
    | cons c cs =>
      have hc : c ≠ '/' := by
        rintro rfl
        simp [isAbsolute, hchars] at hrelative
      cases hsplit : splitSlashes cs with
      | nil => exact absurd hsplit (splitSlashes_ne_nil cs)
      | cons part parts =>
        have hfirst : (component? true (String.ofList (c :: part))).isSome = true := by
          rw [component?, if_neg (by simp)]
          split
          · rfl
          · split <;> rfl
        obtain ⟨component, hcomponent⟩ := Option.isSome_iff_exists.mp hfirst
        have hpieces : pieces path = String.ofList (c :: part) :: parts.map String.ofList := by
          rw [pieces, hchars, splitSlashes, if_neg hc, hsplit]
          rfl
        rw [hpieces, bodyOf, mark, hcomponent]
        simp

theorem dropComponents_append (front back : List (String × Option Component)) :
    dropComponents (front.filterMap (·.2)).length (front ++ back) = dropComponents 0 back := by
  induction front with
  | nil => rfl
  | cons mark front ih =>
    obtain ⟨piece, _ | component⟩ := mark
    · rw [List.cons_append, dropComponents]
      exact ih
    · exact ih

theorem trimmedText_markName {names : List String} (hne : names ≠ []) :
    trimmedText false (names.map markName) = joinPieces names := by
  have hfirst : markedText (names.map markName) = joinPieces names := by
    rw [markedText, List.map_map]
    exact congrArg joinPieces (List.map_id names)
  rcases List.eq_nil_or_concat names with rfl | ⟨front, last, rfl⟩
  · exact absurd rfl hne
  · have htrim : trimEnd ((front.concat last).map markName) = (front.concat last).map markName := by
      simp [trimEnd, markName]
    rw [trimmedText, htrim]
    split
    · rename_i hnil
      simp at hnil
    · exact hfirst

section

variable {root path : String} {names : List String} (h : Below root names path) (hroot : root ≠ "")
  (hnames : ∀ name ∈ names, IsSegment name)

include h hroot hnames

theorem Below.marked_eq : marked path = mark (stem root) ++ names.map markName := by
  rw [marked_eq_mark, h.pieces, mark_append (stem_ne_nil hroot), mark_names hnames]

/-- The components of a path below another one are those of both. -/
theorem Below.components_eq : components path = components root ++ names.map .name := by
  rw [FilePath.components_eq, FilePath.components_eq, h.isAbsolute, bodyOf_stem hroot, bodyOf,
    ← marked_eq_mark, h.marked_eq hroot hnames, List.filterMap_append, filterMap_markName,
    List.append_assoc, bodyOf]

end

theorem Below.relativeTo?_eq {root path : String} {names : List String} (h : Below root names path)
    (hroot : root ≠ "") (hne : names ≠ []) (hnames : ∀ name ∈ names, IsSegment name) :
    relativeTo? root path = some (joinPieces names) := by
  have hpassed : (if FilePath.isAbsolute path then (components root).length - 1
      else (components root).length) = ((mark (stem root)).filterMap (·.2)).length := by
    rw [FilePath.components_eq, h.isAbsolute, bodyOf_stem hroot, bodyOf]
    split <;> simp
  have hdropped : dropComponents 0 (names.map markName) = names.map markName := by
    cases names with
    | nil => exact absurd rfl hne
    | cons name names => rfl
  rw [relativeTo?, h.components_eq hroot hnames, if_pos (by simp),
    if_neg (by simpa using components_ne_nil hroot)]
  simp only [hpassed]
  rw [h.marked_eq hroot hnames, dropComponents_append, hdropped, trimmedText_markName hne]

/-- A file below one directory goes to the same names below another one. -/
theorem Below.target {root path : String} {names : List String} (h : Below root names path)
    (hroot : root ≠ "") (hne : names ≠ []) (hnames : ∀ name ∈ names, IsSegment name)
    (outDir : String) : Below outDir names (target root path outDir) := by
  have hrelative := isAbsolute_joinPieces hnames
  rw [FilePath.target, h.relativeTo?_eq hroot hne hnames]
  refine ⟨?_, isAbsolute_join hrelative outDir⟩
  rw [pieces_join hrelative, pieces_joinPieces hne fun name hname => (hnames name hname).2.2.2]

end FilePath

end DefineFold
