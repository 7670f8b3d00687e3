/-
  DefineFold.Proofs.Pass.TypeofLinks

  Chains behind `typeof`. A chain is compared with a path segment by segment, but the operand of
  `typeof` by the dotted form of its chain, in which the dots of a segment are like those between
  two. So a `typeof` expression is answered as the chain with each segment cut at its dots would be,
  by the defines for `typeof`; that is what the chain itself asks for just if no segment of it has a
  dot in it (`typeof_cuts_segments`).
-/

import DefineFold.Proofs.Defines.Dotted
import DefineFold.Proofs.Pass.Spellings

namespace DefineFold

namespace Tree

theorem Spells.ne_nil {src : Source} {t : Tree} {names : List String} (h : t.Spells src names) :
    names ≠ [] := by
  cases h with
  | name _ => exact List.cons_ne_nil _ _
  | thisWord _ => exact List.cons_ne_nil _ _
  | link _ _ _ => exact List.concat_ne_nil _ _

/-- The name of a `typeof` expression with an access for its operand. -/
theorem typeofName?_of_access {src : Source} {t x : Tree} (hx : t.child? .argument = some x)
    (haccess : x.kind.isAccess = true) :
    t.typeofName? src = (x.segments? src).map joinDots := by
  rw [typeofName?, hx]
  rcases Kind.eq_of_isAccess haccess with hkind | hkind
  · simp only [hkind]
  · simp only [hkind]

end Tree

namespace Table

/-- The replacement for a chain among the defines for `typeof`, compared segment by segment, its
    path spelled as in the configuration. -/
def resolveTypeofChain? (t : Table) (segments : List String) : Option Replacement :=
  (resolveAmong? t.typeofRoot t.typeofPaths t.options.allowFalsy .memberChain
    (.memberChain segments)).map fun r => { r with path := markTypeof r.path }

/-- A chain without dots in its segments is looked up by its dotted form, and one with a dot finds
    nothing. -/
theorem resolveTypeofChain?_eq (t : Table) {segments : List String} (hne : segments ≠ []) :
    t.resolveTypeofChain? segments =
      if ∀ segment ∈ segments, '.' ∉ segment.toList then t.resolveTypeof? (joinDots segments)
      else none := by
  have hname : Form.typeofOperand.accepts (.typeofOperand (joinDots segments))
      (Candidate.dotted (.typeofOperand (joinDots segments))) = true := by
    simp [Form.accepts, Candidate.dotted]
  have hchain := Form.accepts_joinDots_iff hne
  rw [resolveTypeofChain?, resolveTypeof?, t.typeofPaths_eq, resolveAmong?_eq, resolveAmong?_eq,
    if_pos hname]
  -- Both searches are for one dotted form; only the chain may fail to be what it addresses.
  show Option.map _ (if Form.memberChain.accepts (.memberChain segments) (joinDots segments) then
    t.typeofRoot.answerFor? t.options.allowFalsy (joinDots segments) else none) = _
  by_cases hdots : ∀ segment ∈ segments, '.' ∉ segment.toList
  · rw [if_pos (hchain.mpr hdots), if_pos hdots]
    rfl
  · rw [if_neg (mt hchain.mp hdots), if_neg hdots]
    rfl

/-- What is found for the operand of `typeof` stands at the first path with its name, marked. -/
theorem exists_path_of_resolveTypeof? {t : Table} {name : String} {r : Replacement}
    (h : t.resolveTypeof? name = some r) :
    ∃ path, t.typeofPaths.find? (Form.typeofOperand.accepts (.typeofOperand name) ·.dotted) =
      some path ∧ path.dotted = name ∧ r.path = markTypeof path := by
  rw [resolveTypeof?] at h
  obtain ⟨found, hfound, rfl⟩ := Option.map_eq_some_iff.mp h
  rw [resolveAmong?] at hfound
  split at hfound
  · simp at hfound
  · rename_i path hpath
    have haccepts := List.find?_some hpath
    have hdotted : path.dotted = name := Form.eq_dotted_of_accepts haccepts
    have hsame : found.path = path := by
      rw [replacementAt?] at hfound
      split at hfound
      · simp at hfound
      · split at hfound
        · simp at hfound
        · exact congrArg Replacement.path (Option.some.inj hfound).symm
    exact ⟨path, hpath, hdotted, by rw [hsame]⟩

end Table

/-- A `typeof` expression with a chain for its operand is answered as the chain with each segment
    cut at its dots is by the defines for `typeof`. The path that is found addresses the chain
    itself just if no segment of the chain has a dot in it; and the answer is the one that the chain
    itself would have just if no segment has one, or nothing is found. -/
theorem typeof_cuts_segments (table : Table) (src : Source) {t x : Tree} {segments : List String}
    (hx : t.child? .argument = some x) (haccess : x.kind.isAccess = true)
    (hsegments : x.segments? src = some segments) :
    Form.typeofOperand.answer? table src t = table.resolveTypeofChain? (cutSegments segments) ∧
    (∀ r, Form.typeofOperand.answer? table src t = some r → ∃ path,
      table.typeofPaths.find?
          (Form.typeofOperand.accepts (.typeofOperand (joinDots segments)) ·.dotted) = some path ∧
        r.path = Table.markTypeof path ∧
        (Form.memberChain.accepts (.memberChain segments) path.dotted = true ↔
          ∀ segment ∈ segments, '.' ∉ segment.toList)) ∧
    (Form.typeofOperand.answer? table src t = table.resolveTypeofChain? segments ↔
      (∀ segment ∈ segments, '.' ∉ segment.toList) ∨
        Form.typeofOperand.answer? table src t = none) := by
  have hne : segments ≠ [] := (Tree.spells_of_segments? hsegments).ne_nil
  have hanswer : Form.typeofOperand.answer? table src t =
      table.resolveTypeof? (joinDots segments) := by
    rw [Form.answer?, Tree.typeofName?_of_access hx haccess, hsegments]
    rfl
  -- Cut at its dots, the chain has no dots left in its segments and still the same dotted form.
  have hcut : table.resolveTypeofChain? (cutSegments segments) =
      table.resolveTypeof? (joinDots segments) := by
    rw [table.resolveTypeofChain?_eq (cutSegments_ne_nil hne),
      if_pos fun segment hmem => not_mem_of_mem_cutSegments hmem, joinDots_cutSegments hne]
  refine ⟨hanswer.trans hcut.symm, fun r hr => ?_, ?_⟩
  · obtain ⟨path, hpath, hdotted, hmark⟩ :=
      Table.exists_path_of_resolveTypeof? (hanswer.symm.trans hr)
    refine ⟨path, hpath, hmark, ?_⟩
    rw [hdotted]
    exact Form.accepts_joinDots_iff hne
  · rw [hanswer, table.resolveTypeofChain?_eq hne]
    by_cases hdots : ∀ segment ∈ segments, '.' ∉ segment.toList
    · rw [if_pos hdots]
      exact iff_of_true rfl (Or.inl hdots)
    · rw [if_neg hdots]
      exact (or_iff_right hdots).symm

/-! ## A dot in a subscript

`typeof a["b.c"]` has two links, and finds what is defined for `typeof a.b.c`. -/

namespace Sample

def dottedSource : Source :=
  .ofString "typeof a[\"b.c\"];"

def dottedOperand : Tree :=
  part .subscriptExpression true 7 15 [.argument]
    [part .identifier true 7 8 [.object] [], token "[" 8 9 [],
     part .stringLiteral true 9 14 [.index] [], token "]" 14 15 []]

def dottedTypeof : Tree :=
  part .unaryExpression true 0 15 [] [token "typeof" 0 6 [.operator], dottedOperand]

def dottedTable : Table :=
  Table.build ⟨[("typeof a.b.c", .string "x")]⟩ default

end Sample

theorem typeof_cuts_segments_dotted :
    Sample.dottedTypeof.child? .argument = some Sample.dottedOperand ∧
    Sample.dottedOperand.segments? Sample.dottedSource = some ["a", "b.c"] ∧
    (Form.typeofOperand.answer? Sample.dottedTable Sample.dottedSource Sample.dottedTypeof).map
      (·.path.segments) = some ["typeof a.b.c"] ∧
    Form.typeofOperand.answer? Sample.dottedTable Sample.dottedSource Sample.dottedTypeof ≠
      Sample.dottedTable.resolveTypeofChain? ["a", "b.c"] := by
  have hx : Sample.dottedTypeof.child? .argument = some Sample.dottedOperand := rfl
  have hsegments : Sample.dottedOperand.segments? Sample.dottedSource = some ["a", "b.c"] := by
    decide +kernel
  have hfound : (Form.typeofOperand.answer? Sample.dottedTable Sample.dottedSource
      Sample.dottedTypeof).map (·.path.segments) = some ["typeof a.b.c"] := by
    decide +kernel
  obtain ⟨-, -, hagree⟩ := typeof_cuts_segments Sample.dottedTable Sample.dottedSource hx rfl
    hsegments
  refine ⟨hx, hsegments, hfound, fun hsame => ?_⟩
  rcases hagree.mp hsame with hdots | hnone
  · exact absurd hdots (by decide)
  · rw [hnone] at hfound
    simp at hfound

end DefineFold
