/-
  DefineFold.Proofs.Defines.Resolution

  Which path decides a candidate. Every comparison pins down one dotted form
  (`Form.eq_dotted_of_accepts`), and among the paths with one dotted form the order by length
  keeps the order of enumeration (`find?_sortLongest`). So a candidate is decided by the first
  path in enumeration with its dotted form, whatever the order asked for (`resolve?_eq`), and
  all that follows about resolution is about `Value.answerFor?`, which knows no order.

  Pairs from the command line are enumerated before the rest of the defines, and
  `resolve?_override` says what that comes to: they decide every candidate that one of their
  paths matches, and leave all others to the defines without their keys.
-/

import DefineFold.Defines.Table
import DefineFold.Proofs.Value.Places

namespace DefineFold

/-! ## Dotted forms -/

theorem splitDots_ne_nil (cs : List Char) : splitDots cs ≠ [] := by
  cases cs with
  | nil => exact List.cons_ne_nil _ _
  | cons c cs =>
    rw [splitDots]
    split
    · exact List.cons_ne_nil _ _
    · split
      · exact List.cons_ne_nil _ _
      · exact List.cons_ne_nil _ _

theorem joinChars_cons {separator : List Char} (text : List Char) {rest : List (List Char)}
    (h : rest ≠ []) :
    joinChars separator (text :: rest) = text ++ separator ++ joinChars separator rest := by
  cases rest with
  | nil => exact absurd rfl h
  | cons x rest => rfl

/-- The parts of a text with the dots put back are the text. -/
theorem joinChars_splitDots (cs : List Char) : joinChars ['.'] (splitDots cs) = cs := by
  induction cs with
  | nil => rfl
  | cons c cs ih =>
    have hne := splitDots_ne_nil cs
    rw [splitDots]
    split
    · rename_i hdot
      rw [joinChars_cons [] hne, ih, hdot]
      rfl
    · -- The character goes to the front of the first part.
      cases hparts : splitDots cs with
      | nil => exact absurd hparts hne
      | cons part parts =>
        rw [hparts] at ih
        cases parts with
        | nil =>
          simp only [joinChars] at ih ⊢
          rw [ih]
        | cons next parts =>
          rw [joinChars_cons _ (List.cons_ne_nil _ _)] at ih ⊢
          rw [← ih]
          rfl

/-- The only dotted form that a candidate can match. -/
def Candidate.dotted : Candidate → String
  | .memberChain segments => joinDots segments
  | .identifier name => name
  | .typeofOperand name => name

/-- Segments take parts one by one just if they are the same texts in the same order. -/
theorem takesParts_iff {segments : List String} {parts : List (List Char)} :
    takesParts segments parts = true ↔ parts = segments.map String.toList := by
  fun_induction takesParts segments parts with
  | case1 parts => rw [List.isEmpty_iff, List.map_nil]
  | case2 segment segments => simp
  | case3 segment segments part parts ih =>
    rw [Bool.and_eq_true, beq_iff_eq, ih, List.map_cons, List.cons.injEq]

namespace Form

theorem eq_dotted_of_accepts {f : Form} {c : Candidate} {dotted : String}
    (h : f.accepts c dotted = true) : dotted = c.dotted := by
  cases f <;> cases c <;> simp only [accepts, takesParts_iff, beq_iff_eq, Bool.false_eq_true] at h
  case memberChain.memberChain segments =>
    rw [Candidate.dotted, joinDots, ← h, joinChars_splitDots, String.ofList_toList]
  case identifier.identifier name => exact h.symm
  case typeofOperand.typeofOperand name => exact h.symm

/-- To match a candidate is to be its dotted form, if the candidate can be matched at all. -/
theorem accepts_eq (f : Form) (c : Candidate) (dotted : String) :
    f.accepts c dotted = (f.accepts c c.dotted && dotted == c.dotted) := by
  by_cases heq : dotted = c.dotted
  · simp [heq]
  · have hfalse : f.accepts c dotted = false := by
      cases h : f.accepts c dotted with
      | false => rfl
      | true => exact absurd (eq_dotted_of_accepts h) heq
    simp [hfalse, heq]

end Form

/-! ## The order by length -/

theorem mem_insertLongest {x y : Nat × Path} {paths : List (Nat × Path)} :
    y ∈ insertLongest x paths ↔ y = x ∨ y ∈ paths := by
  induction paths with
  | nil => simp [insertLongest]
  | cons z paths ih =>
    rw [insertLongest]
    split
    · simp
    · simp only [List.mem_cons, ih]
      exact or_left_comm

/-- A path is put before the paths of its own length, so that it is found first if it is what is
    looked for, as long as nothing longer is. -/
theorem find?_insertLongest {f : Nat × Path → Bool} {x : Nat × Path} {paths : List (Nat × Path)}
    (h : f x = true → ∀ y ∈ paths, f y = true → y.1 ≤ x.1) :
    (insertLongest x paths).find? f = (x :: paths).find? f := by
  induction paths with
  | nil => rfl
  | cons y paths ih =>
    rw [insertLongest]
    split
    · rfl
    · rename_i hlonger
      have hrest := ih fun hx z hz => h hx z (List.mem_cons_of_mem _ hz)
      rw [List.find?_cons, hrest]
      cases hx : f x with
      | false =>
        rw [List.find?_cons_of_neg (by simp [hx]), List.find?_cons_of_neg (by simp [hx])]
        rw [List.find?_cons]
      | true =>
        -- The longer path that is passed is not looked for.
        have hy : f y = false := by
          cases hy : f y with
          | false => rfl
          | true => exact absurd (h hx y List.mem_cons_self hy) hlonger
        rw [hy, List.find?_cons_of_pos hx, List.find?_cons_of_pos hx]

/-- Of the paths with one dotted form, sorting leaves the first one first. -/
theorem find?_sortLongest (paths : List Path) (dotted : String) :
    (sortLongest paths).find? (·.dotted == dotted) = paths.find? (·.dotted == dotted) := by
  rw [sortLongest, List.find?_map]
  -- Each path carries its own length, so that paths with one dotted form carry one length.
  have hmain : ((paths.map fun p => (textLength p.dotted, p)).foldr insertLongest []).find?
        (fun x => x.2.dotted == dotted) =
          (paths.map fun p => (textLength p.dotted, p)).find? (fun x => x.2.dotted == dotted) ∧
      ∀ x ∈ (paths.map fun p => (textLength p.dotted, p)).foldr insertLongest [],
        x.1 = textLength x.2.dotted := by
    induction paths with
    | nil => exact ⟨rfl, fun x hx => absurd hx List.not_mem_nil⟩
    | cons p paths ih =>
      obtain ⟨hfind, hlength⟩ := ih
      rw [List.map_cons, List.foldr_cons]
      constructor
      · rw [find?_insertLongest, List.find?_cons, List.find?_cons, hfind]
        intro hp y hy hyp
        simp only [beq_iff_eq] at hp hyp
        exact Nat.le_of_eq (by rw [hlength y hy, hyp, hp])
      · intro x hx
        rcases mem_insertLongest.mp hx with rfl | hx
        · rfl
        · exact hlength x hx
  have hcomp : ((fun p : Path => p.dotted == dotted) ∘ fun x : Nat × Path => x.2) =
      fun x => x.2.dotted == dotted := rfl
  rw [hcomp, hmain.1, List.find?_map, Option.map_map]
  simp [Function.comp_def]

/-! ## The path that decides -/

namespace Value

/-- The first path in enumeration with a dotted form. -/
def firstPath? (config : Value) (dotted : String) : Option Path :=
  config.enumerate.find? (·.dotted == dotted)

/-- What a configuration answers for a dotted form: the value at the first path with that form,
    unless it is falsy and such values are not wanted. -/
def answerFor? (config : Value) (allowFalsy : Bool) (dotted : String) : Option Replacement :=
  (config.firstPath? dotted).bind (replacementAt? config allowFalsy)

theorem find?_paths (config : Value) (order : PathOrder) (dotted : String) :
    (config.paths order).find? (·.dotted == dotted) = config.firstPath? dotted := by
  cases order with
  | longestFirst => exact find?_sortLongest _ _
  | enumeration => rfl

/-- The answer for a dotted form, taken apart. -/
theorem answerFor?_eq_some_iff {config : Value} {allowFalsy : Bool} {dotted : String}
    {r : Replacement} :
    config.answerFor? allowFalsy dotted = some r ↔
      config.firstPath? dotted = some r.path ∧ config.lookup? r.path.segments = some r.value ∧
        (r.value.isFalsy = true → allowFalsy = true) := by
  rw [answerFor?, Option.bind_eq_some_iff]
  constructor
  · rintro ⟨path, hpath, h⟩
    rw [replacementAt?] at h
    split at h
    · simp at h
    · rename_i value hvalue
      split at h
      · simp at h
      · rename_i hfalsy
        obtain rfl := Option.some.inj h
        refine ⟨hpath, hvalue, fun hv => ?_⟩
        simpa [hv] using hfalsy
  · rintro ⟨hpath, hvalue, hfalsy⟩
    refine ⟨r.path, hpath, ?_⟩
    rw [replacementAt?, hvalue]
    simp only
    rw [if_neg]
    intro h
    simp only [Bool.and_eq_true, Bool.not_eq_true'] at h
    simp [hfalsy h.1] at h

theorem dotted_of_firstPath? {config : Value} {dotted : String} {path : Path}
    (h : config.firstPath? dotted = some path) :
    path ∈ config.enumerate ∧ path.dotted = dotted := by
  rw [firstPath?] at h
  have hdotted := List.find?_some h
  exact ⟨List.mem_of_find?_eq_some h, by simpa using hdotted⟩

end Value

/-- A candidate is answered by its dotted form, whatever the order of the paths. -/
theorem resolveAmong?_eq (config : Value) (order : PathOrder) (allowFalsy : Bool) (f : Form)
    (c : Candidate) :
    resolveAmong? config (config.paths order) allowFalsy f c =
      if f.accepts c c.dotted then config.answerFor? allowFalsy c.dotted else none := by
  have hbind : resolveAmong? config (config.paths order) allowFalsy f c =
      ((config.paths order).find? fun path => f.accepts c path.dotted).bind
        (replacementAt? config allowFalsy) := by
    rw [resolveAmong?]
    cases (config.paths order).find? fun path => f.accepts c path.dotted <;> rfl
  rw [hbind]
  split
  · rename_i hmatch
    have hsame : (fun path : Path => f.accepts c path.dotted) = (·.dotted == c.dotted) := by
      funext path
      rw [f.accepts_eq, hmatch, Bool.true_and]
    rw [hsame, config.find?_paths order]
    rfl
  · rename_i hmatch
    have hnone : (config.paths order).find? (fun path => f.accepts c path.dotted) = none := by
      rw [List.find?_eq_none]
      intro path _
      rw [f.accepts_eq]
      simp [hmatch]
    rw [hnone]
    rfl

theorem resolve?_eq (config : Value) (options : ResolveOptions) (f : Form) (c : Candidate) :
    resolve? config options f c =
      if f.accepts c c.dotted then config.answerFor? options.allowFalsy c.dotted else none :=
  resolveAmong?_eq config options.order options.allowFalsy f c

theorem Table.resolve?_eq (t : Table) (f : Form) (c : Candidate) :
    t.resolve? f c =
      if f.accepts c c.dotted then t.defines.root.answerFor? t.options.allowFalsy c.dotted
      else none := by
  rw [Table.resolve?, t.paths_eq]
  exact resolveAmong?_eq _ _ _ f c

/-! ## Objects put behind each other -/

namespace Value

theorem firstPath?_append (xs ys : Entries) (dotted : String) :
    (Value.object (xs ++ ys)).firstPath? dotted =
      ((Value.object xs).firstPath? dotted).or ((Value.object ys).firstPath? dotted) := by
  rw [firstPath?, enumerate_append, List.find?_append]
  rfl

/-- Of two objects without common keys put behind each other, the first answers wherever it has a
    path, and the second everywhere else. -/
theorem answerFor?_append {xs ys : Entries}
    (hkeys : ∀ key ∈ ys.map Prod.fst, key ∉ xs.map Prod.fst) (allowFalsy : Bool)
    (dotted : String) :
    (Value.object (xs ++ ys)).answerFor? allowFalsy dotted =
      if ((Value.object xs).firstPath? dotted).isSome then
        (Value.object xs).answerFor? allowFalsy dotted
      else (Value.object ys).answerFor? allowFalsy dotted := by
  rw [answerFor?, answerFor?, answerFor?, firstPath?_append]
  cases hx : (Value.object xs).firstPath? dotted with
  | some path =>
    -- The path begins with a key of the first object, and leads to the same value.
    obtain ⟨key, hkey, rest, hsegments⟩ := segments_of_mem_enumerate (dotted_of_firstPath? hx).1
    simp only [Option.some_or, Option.isSome_some, if_true, Option.bind_some]
    rw [replacementAt?, replacementAt?, hsegments, lookup?_append_of_mem rest hkey]
  | none =>
    simp only [Option.none_or, Option.isSome_none, Bool.false_eq_true, if_false]
    cases hy : (Value.object ys).firstPath? dotted with
    | none => rfl
    | some path =>
      obtain ⟨key, hkey, rest, hsegments⟩ := segments_of_mem_enumerate (dotted_of_firstPath? hy).1
      simp only [Option.bind_some]
      rw [replacementAt?, replacementAt?, hsegments,
        lookup?_append_of_not_mem rest (hkeys key hkey)]

end Value

/-! ## Pairs from the command line -/

namespace Entries

theorem mem_keys_insert {key k : String} {value : Value} {entries : Entries} :
    k ∈ (insert key value entries).map Prod.fst ↔ k = key ∨ k ∈ entries.map Prod.fst := by
  induction entries with
  | nil => simp [insert]
  | cons e entries ih =>
    obtain ⟨k', v⟩ := e
    rw [insert]
    split
    · rename_i hkey
      simp [hkey]
    · simp only [List.map_cons, List.mem_cons, ih]
      exact or_left_comm

/-- Pairs put in one after the other have the keys of the pairs. -/
theorem mem_keys_ofList {k : String} {pairs : List (String × Value)} :
    k ∈ (ofList pairs).map Prod.fst ↔ k ∈ pairs.map Prod.fst := by
  have hfold : ∀ entries : Entries,
      k ∈ (pairs.foldl (fun entries e => insert e.1 e.2 entries) entries).map Prod.fst ↔
        k ∈ entries.map Prod.fst ∨ k ∈ pairs.map Prod.fst := by
    induction pairs with
    | nil => simp
    | cons e pairs ih =>
      intro entries
      rw [List.foldl_cons, ih, mem_keys_insert, List.map_cons, List.mem_cons, or_assoc]
      exact or_left_comm
  rw [ofList, hfold]
  simp

theorem hasKey_ofList (key : String) (pairs : List (String × Value)) :
    hasKey key (ofList pairs) = (pairs.map Prod.fst).contains key := by
  rw [Bool.eq_iff_iff, List.contains_iff_mem, ← mem_keys_ofList, hasKey, List.any_eq_true,
    List.mem_map]
  simp only [beq_iff_eq]

end Entries

namespace Defines

/-- The defines without the entries under some keys. -/
def without (d : Defines) (keys : List String) : Defines :=
  ⟨d.entries.filter fun e => !keys.contains e.1⟩

/-- Pairs put in front of defines are followed by the defines without their keys. -/
theorem override_root (d : Defines) (pairs : List (String × Value)) :
    (d.override pairs).root =
      .object (Entries.ofList pairs ++ (d.without (pairs.map Prod.fst)).entries) := by
  cases pairs with
  | nil => simp [override, without, root, Entries.ofList, List.filter_eq_self.mpr]
  | cons e pairs =>
    simp only [override, without, root, Entries.hasKey_ofList]
    rfl

theorem empty_override_root (pairs : List (String × Value)) :
    (empty.override pairs).root = .object (Entries.ofList pairs) := by
  rw [override_root]
  simp [without, empty]

end Defines

/-- Pairs from the command line win path by path. Where a path of the pairs alone matches a
    candidate, the pairs alone decide it, also by having a falsy value for it; every other
    candidate is decided by the defines without the keys of the pairs. The order of the paths and
    the wish for falsy values play no part. -/
theorem resolve?_override (d : Defines) (pairs : List (String × Value)) (options : ResolveOptions)
    (f : Form) (c : Candidate) :
    ((∃ q ∈ (Defines.empty.override pairs).root.enumerate, f.accepts c q.dotted = true) →
      resolve? (d.override pairs).root options f c =
        resolve? (Defines.empty.override pairs).root options f c) ∧
    ((∀ q ∈ (Defines.empty.override pairs).root.enumerate, f.accepts c q.dotted = false) →
      resolve? (d.override pairs).root options f c =
        resolve? (d.without (pairs.map Prod.fst)).root options f c) := by
  have hkeys : ∀ key ∈ (d.without (pairs.map Prod.fst)).entries.map Prod.fst,
      key ∉ (Entries.ofList pairs).map Prod.fst := by
    intro key hkey hmem
    obtain ⟨e, he, rfl⟩ := List.mem_map.mp hkey
    have hfree := (List.mem_filter.mp he).2
    rw [List.contains_iff_mem.mpr (Entries.mem_keys_ofList.mp hmem)] at hfree
    simp at hfree
  rw [Defines.empty_override_root, Defines.override_root]
  simp only [resolve?_eq, Value.answerFor?_append hkeys]
  constructor
  · rintro ⟨q, hq, hmatch⟩
    -- The path that matches has the dotted form of the candidate, so that there is a first one.
    have hsome : ((Value.object (Entries.ofList pairs)).firstPath? c.dotted).isSome = true := by
      rw [Value.firstPath?, List.find?_isSome]
      exact ⟨q, hq, by simpa using Form.eq_dotted_of_accepts hmatch⟩
    rw [if_pos hsome]
  · intro hnone
    split
    · rename_i hmatch
      have hnot : (Value.object (Entries.ofList pairs)).firstPath? c.dotted = none := by
        rw [Value.firstPath?, List.find?_eq_none]
        intro q hq hdotted
        have hfalse := hnone q hq
        rw [beq_iff_eq.mp hdotted, hmatch] at hfalse
        simp at hfalse
      rw [hnot]
      rfl
    · rfl

/-! ## A flat pair over a nested entry

The pairs spell `a.b` flat, and give it `false` in the end; the defines spell it nested. -/

namespace Sample

def fileDefines : Defines :=
  ⟨[("a", .object [("b", .string "nested")]), ("c", .string "old")]⟩

def linePairs : List (String × Value) :=
  [("a.b", .string "flat"), ("c", .string "new"), ("a.b", .bool false)]

end Sample

theorem resolve?_override_sample :
    (∃ q ∈ (Defines.empty.override Sample.linePairs).root.enumerate,
      Form.memberChain.accepts (.memberChain ["a", "b"]) q.dotted = true) ∧
    (resolve? (Sample.fileDefines.override Sample.linePairs).root default .memberChain
      (.memberChain ["a", "b"])).isNone = true ∧
    (∀ q ∈ (Defines.empty.override Sample.linePairs).root.enumerate,
      Form.identifier.accepts (.identifier "a") q.dotted = false) ∧
    (resolve? (Sample.fileDefines.override Sample.linePairs).root default .identifier
      (.identifier "a")).map (·.path.segments) = some ["a"] := by
  have hmatch : ∃ q ∈ (Defines.empty.override Sample.linePairs).root.enumerate,
      Form.memberChain.accepts (.memberChain ["a", "b"]) q.dotted = true := by
    decide +kernel
  have hnone : ∀ q ∈ (Defines.empty.override Sample.linePairs).root.enumerate,
      Form.identifier.accepts (.identifier "a") q.dotted = false := by
    decide +kernel
  refine ⟨hmatch, ?_, hnone, ?_⟩
  · rw [(resolve?_override _ _ _ _ _).1 hmatch]
    decide +kernel
  · rw [(resolve?_override _ _ _ _ _).2 hnone]
    decide +kernel

end DefineFold
