/-
  DefineFold.Proofs.Defines.Namespaces

  Defines for `typeof` expressions and all others live in one mapping, told apart by the mark at
  the beginning of their keys. A dotted form shows the mark just if the first key on the path does,
  and a read never asks for a form with the mark, nor a `typeof` expression for one without. So an
  answer depends on the entries of its own kind alone (`Value.answerFor?_filter`), and neither kind
  of entry can change what is answered for the other (`Table.namespaces_apart`).
-/

import DefineFold.Pass.Form
import DefineFold.Proofs.Defines.Typeof

namespace DefineFold

/-! ## Entries that can answer -/

theorem Entries.find?_filter {p : String → Bool} {key : String} (hkey : p key = true)
    (entries : Entries) : find? key (entries.filter (p ·.1)) = find? key entries := by
  induction entries with
  | nil => rfl
  | cons e entries ih =>
    obtain ⟨k, v⟩ := e
    rw [List.filter_cons, find?]
    by_cases hk : k = key
    · simp [hk, hkey, find?]
    · rw [if_neg hk]
      split
      · rw [find?, if_neg hk, ih]
      · exact ih

namespace Value

section

variable {p : String → Bool} {dotted : String}
  (hfirst : ∀ key rest, joinDots (key :: rest) = dotted → p key = true)

include hfirst

theorem firstPath?_filter (entries : Entries) :
    (object (entries.filter (p ·.1))).firstPath? dotted =
      (object entries).firstPath? dotted := by
  simp only [firstPath?, enumerate_object]
  induction entries with
  | nil => rfl
  | cons e entries ih =>
    rw [List.filter_cons]
    split
    · rw [List.flatMap_cons, List.flatMap_cons, List.find?_append, List.find?_append, ih]
    · -- An entry of another kind has no path with this form.
      rename_i hother
      have hnone : (entryPaths e).find? (·.dotted == dotted) = none := by
        rw [List.find?_eq_none]
        intro path hpath hdotted
        obtain ⟨rest, hrest⟩ := segments_of_mem_entryPaths hpath
        rw [beq_iff_eq, path.dotted_eq, hrest] at hdotted
        exact hother (hfirst e.1 rest hdotted)
      rw [List.flatMap_cons, List.find?_append, hnone, ih]
      rfl

/-- A dotted form is answered by the entries whose keys can begin a path with that form. -/
theorem answerFor?_filter (entries : Entries) (allowFalsy : Bool) :
    (object (entries.filter (p ·.1))).answerFor? allowFalsy dotted =
      (object entries).answerFor? allowFalsy dotted := by
  rw [answerFor?, answerFor?, firstPath?_filter hfirst]
  cases hpath : (object entries).firstPath? dotted with
  | none => rfl
  | some path =>
    obtain ⟨hmem, hdotted⟩ := dotted_of_firstPath? hpath
    obtain ⟨key, -, rest, hsegments⟩ := segments_of_mem_enumerate hmem
    rw [path.dotted_eq, hsegments] at hdotted
    simp only [Option.bind_some, replacementAt?, hsegments, lookup?_object,
      Entries.find?_filter (hfirst key rest hdotted)]

end

end Value

/-! ## Marked keys -/

namespace Defines

/-- Whether a key is one for `typeof` expressions. -/
def isMarked (key : String) : Bool :=
  typeofMark.toList.isPrefixOf key.toList

theorem isMarked_iff {key : String} : isMarked key = true ↔ ∃ name, key = typeofMark ++ name := by
  rw [isMarked, List.isPrefixOf_iff_prefix]
  constructor
  · rintro ⟨name, hname⟩
    refine ⟨String.ofList name, ?_⟩
    rw [← String.toList_inj, String.toList_append, String.toList_ofList, hname]
  · rintro ⟨name, rfl⟩
    rw [String.toList_append]
    exact List.prefix_append _ _

/-- The dotted form of a path that begins with a marked key begins with the mark. -/
theorem joinDots_marked (name : String) (rest : List String) :
    joinDots ((typeofMark ++ name) :: rest) = typeofMark ++ joinDots (name :: rest) := by
  rw [← String.toList_inj, String.toList_append, joinDots_cons_toList, joinDots_cons_toList,
    String.toList_append, List.append_assoc]

/-- A form with the mark is answered by the marked entries. -/
theorem answerFor?_marked (d : Defines) (allowFalsy : Bool) (name : String) :
    (Value.object (d.entries.filter (isMarked ·.1))).answerFor? allowFalsy (typeofMark ++ name) =
      d.root.answerFor? allowFalsy (typeofMark ++ name) := by
  apply Value.answerFor?_filter
  intro key rest hdotted
  exact isMarked_iff.mpr (exists_key_of_joinDots_eq hdotted)

/-- A form without the mark is answered by the other entries. -/
theorem answerFor?_unmarked (d : Defines) (allowFalsy : Bool) {dotted : String}
    (hdotted : isMarked dotted = false) :
    (Value.object (d.entries.filter (!isMarked ·.1))).answerFor? allowFalsy dotted =
      d.root.answerFor? allowFalsy dotted := by
  apply Value.answerFor?_filter (p := fun key => !isMarked key)
  rintro key rest rfl
  cases hkey : isMarked key with
  | false => rfl
  | true =>
    obtain ⟨name, rfl⟩ := isMarked_iff.mp hkey
    have hmarked := isMarked_iff.mpr ⟨_, joinDots_marked name rest⟩
    rw [hmarked] at hdotted
    simp at hdotted

theorem isMarked_eq_false_of_not_mem {text : String} (h : ' ' ∉ text.toList) :
    isMarked text = false := by
  cases htext : isMarked text with
  | false => rfl
  | true =>
    obtain ⟨name, rfl⟩ := isMarked_iff.mp htext
    rw [String.toList_append] at h
    exact absurd (List.mem_append_left _ (by decide)) h

/-- A chain shows the mark only if its first segment does. -/
theorem isMarked_joinDots_eq_false {segments : List String}
    (h : ∀ first ∈ segments.head?, ' ' ∉ first.toList) : isMarked (joinDots segments) = false := by
  cases segments with
  | nil => rfl
  | cons first rest =>
    cases hmarked : isMarked (joinDots (first :: rest)) with
    | false => rfl
    | true =>
      obtain ⟨name, hname⟩ := isMarked_iff.mp hmarked
      have hfirst := isMarked_iff.mpr (exists_key_of_joinDots_eq hname)
      rw [isMarked_eq_false_of_not_mem (h first rfl)] at hfirst
      simp at hfirst

end Defines

namespace Table

/-- Defines that agree on the entries without the mark answer alike for every candidate whose
    dotted form is without it. -/
theorem resolve?_congr {d e : Defines}
    (h : d.entries.filter (!Defines.isMarked ·.1) = e.entries.filter (!Defines.isMarked ·.1))
    (options : ResolveOptions) (form : Form) {c : Candidate}
    (hc : Defines.isMarked c.dotted = false) :
    (build d options).resolve? form c = (build e options).resolve? form c := by
  rw [Table.resolve?_eq, Table.resolve?_eq]
  show (if _ then d.root.answerFor? options.allowFalsy c.dotted else none) =
    if _ then e.root.answerFor? options.allowFalsy c.dotted else none
  rw [← Defines.answerFor?_unmarked d _ hc, ← Defines.answerFor?_unmarked e _ hc, h]

/-- Defines that agree on the marked entries answer alike for every `typeof` expression. -/
theorem resolveTypeof?_congr {d e : Defines}
    (h : d.entries.filter (Defines.isMarked ·.1) = e.entries.filter (Defines.isMarked ·.1))
    (options : ResolveOptions) (name : String) :
    (build d options).resolveTypeof? name = (build e options).resolveTypeof? name := by
  rw [Table.resolveTypeof?_eq, Table.resolveTypeof?_eq]
  show d.root.answerFor? options.allowFalsy _ = e.root.answerFor? options.allowFalsy _
  rw [← Defines.answerFor?_marked d, ← Defines.answerFor?_marked e, h]

/-- Two sets of defines with the same entries but for those for `typeof` answer alike for every
    name without blanks and every chain whose first segment has none; two with the same entries
    for `typeof` answer alike for every `typeof` expression. The order of the paths and the wish
    for falsy values play no part. -/
theorem namespaces_apart (d e : Defines) (options : ResolveOptions) :
    (d.entries.filter (!Defines.isMarked ·.1) = e.entries.filter (!Defines.isMarked ·.1) →
      ∀ form : Form,
        (∀ name : String, ' ' ∉ name.toList →
          (build d options).resolve? form (.identifier name) =
            (build e options).resolve? form (.identifier name)) ∧
        ∀ segments : List String, (∀ first ∈ segments.head?, ' ' ∉ first.toList) →
          (build d options).resolve? form (.memberChain segments) =
            (build e options).resolve? form (.memberChain segments)) ∧
    (d.entries.filter (Defines.isMarked ·.1) = e.entries.filter (Defines.isMarked ·.1) →
      ∀ (src : Source) (t : Tree),
        Form.typeofOperand.answer? (build d options) src t =
          Form.typeofOperand.answer? (build e options) src t) := by
  constructor
  · intro h form
    constructor
    · intro name hname
      exact resolve?_congr h options form (Defines.isMarked_eq_false_of_not_mem hname)
    · intro segments hsegments
      exact resolve?_congr h options form (Defines.isMarked_joinDots_eq_false hsegments)
  · intro h src t
    rw [Form.answer?, Form.answer?]
    cases t.typeofName? src with
    | none => rfl
    | some name => exact resolveTypeof?_congr h options name

/-! ## A name with a define of either kind

The first two sets have the same plain entries, the last two the same entries for what `typeof`
answers. -/

namespace Sample

def withWindow : Defines :=
  ⟨[("typeof window.A", .string "object"), ("A", .string "v"),
    ("a", .object [("b", .string "w")])]⟩

def withTypeofA : Defines :=
  ⟨[("A", .string "v"), ("typeof A", .object [("b", .bool true)]),
    ("a", .object [("b", .string "w")])]⟩

def onlyTypeofA : Defines :=
  ⟨[("A.b", .null), ("typeof A", .object [("b", .bool true)])]⟩

end Sample

theorem namespaces_apart_sample :
    Sample.withWindow.entries.filter (!Defines.isMarked ·.1) =
      Sample.withTypeofA.entries.filter (!Defines.isMarked ·.1) ∧
    (build Sample.withWindow default).resolve? .identifier (.identifier "A") =
      (build Sample.withTypeofA default).resolve? .identifier (.identifier "A") ∧
    (build Sample.withWindow default).resolve? .memberChain (.memberChain ["a", "b"]) =
      (build Sample.withTypeofA default).resolve? .memberChain (.memberChain ["a", "b"]) ∧
    Sample.withTypeofA.entries.filter (Defines.isMarked ·.1) =
      Sample.onlyTypeofA.entries.filter (Defines.isMarked ·.1) ∧
    ∀ src t, Form.typeofOperand.answer? (build Sample.withTypeofA default) src t =
      Form.typeofOperand.answer? (build Sample.onlyTypeofA default) src t := by
  have hplain : Sample.withWindow.entries.filter (!Defines.isMarked ·.1) =
      Sample.withTypeofA.entries.filter (!Defines.isMarked ·.1) := rfl
  have hmarked : Sample.withTypeofA.entries.filter (Defines.isMarked ·.1) =
      Sample.onlyTypeofA.entries.filter (Defines.isMarked ·.1) := rfl
  refine ⟨hplain, ?_, ?_, hmarked, ?_⟩
  · exact ((namespaces_apart _ _ default).1 hplain .identifier).1 "A" (by decide)
  · exact ((namespaces_apart _ _ default).1 hplain .memberChain).2 ["a", "b"] (by decide)
  · exact (namespaces_apart _ _ default).2 hmarked

end Table

end DefineFold
