/-
  DefineFold.Proofs.Pass.Provenance

  Where substitutions come from. A read asks the defines for one dotted name
  (`Tree.dottedName?`), and whatever form it has, the answer is the one that the whole
  configuration gives for that name (`answerFor?_of_answer?`). Everything that a walk records is
  a fold or the substitution of an answered read (`visit_induction`), on any tree whatever, so
  that every substitution of a run has its path and its value in the configuration
  (`run_substitutions_justified`).

  The answers depend on the configuration and the wish for falsy values alone, and a run depends
  on its pass by the answers (`run_congr`). So the order of the paths, which only says where a
  search begins, never shows (`run_longestFirst_eq_enumeration`).
-/

import DefineFold.Proofs.Defines.Typeof
import DefineFold.Proofs.Pass.Walk
import Mathlib.Data.List.Basic

namespace DefineFold

/-- The dotted name for which a read asks the defines. -/
def Tree.dottedName? (t : Tree) (src : Source) : Option String :=
  match t.kind with
  | .memberExpression => (t.segments? src).map joinDots
  | .subscriptExpression => (t.segments? src).map joinDots
  | .unaryExpression => (t.typeofName? src).map (Defines.typeofMark ++ ·)
  | _ => some (t.text src)

/-! ## Answers -/

namespace Form

/-- The answer to a read is what the configuration answers for its dotted name. -/
theorem answerFor?_of_answer? {f : Form} {table : Table} {src : Source} {s : Site}
    {r : Replacement} (hhandles : f.handles s = true) (h : f.answer? table src s.tree = some r) :
    ∃ dotted, s.tree.dottedName? src = some dotted ∧
      table.defines.root.answerFor? table.options.allowFalsy dotted = some r := by
  cases f with
  | memberChain =>
    rw [answer?, Option.bind_eq_some_iff] at h
    obtain ⟨segments, hsegments, h⟩ := h
    rw [Table.resolve?_eq] at h
    split at h
    · refine ⟨joinDots segments, ?_, h⟩
      simp only [handles, Bool.and_eq_true, Bool.or_eq_true, decide_eq_true_eq] at hhandles
      have hkind : s.tree.kind = .memberExpression ∨ s.tree.kind = .subscriptExpression :=
        hhandles.1
      rw [Tree.dottedName?]
      rcases hkind with hkind | hkind <;> simp [hkind, hsegments]
    · simp at h
  | identifier =>
    rw [answer?, Table.resolve?_eq] at h
    split at h
    · refine ⟨s.tree.text src, ?_, h⟩
      simp only [handles, Bool.and_eq_true, Bool.or_eq_true, decide_eq_true_eq] at hhandles
      have hkind : s.tree.kind = .identifier ∨ s.tree.kind = .shorthandPropertyIdentifier :=
        hhandles.imp And.left id
      rw [Tree.dottedName?]
      rcases hkind with hkind | hkind <;> simp [hkind]
    · simp at h
  | typeofOperand =>
    rw [answer?, Option.bind_eq_some_iff] at h
    obtain ⟨name, hname, h⟩ := h
    rw [Table.resolveTypeof?_eq] at h
    refine ⟨Defines.typeofMark ++ name, ?_, h⟩
    simp only [handles, Bool.and_eq_true, decide_eq_true_eq] at hhandles
    have hkind : s.tree.kind = .unaryExpression := hhandles.1
    rw [Tree.dottedName?]
    simp [hkind, hname]

/-- Tables of the same defines that agree on falsy values answer alike. -/
theorem answer?_congr {table table' : Table} (hdefines : table.defines = table'.defines)
    (hfalsy : table.options.allowFalsy = table'.options.allowFalsy) (f : Form) (src : Source)
    (t : Tree) : f.answer? table src t = f.answer? table' src t := by
  cases f with
  | memberChain =>
    rw [answer?, answer?]
    congr
    funext segments
    rw [Table.resolve?_eq, Table.resolve?_eq, hdefines, hfalsy]
  | identifier =>
    rw [answer?, answer?, Table.resolve?_eq, Table.resolve?_eq, hdefines, hfalsy]
  | typeofOperand =>
    have hsame : table.resolveTypeof? = table'.resolveTypeof? := by
      funext name
      rw [Table.resolveTypeof?_eq, Table.resolveTypeof?_eq, hdefines, hfalsy]
    rw [answer?, answer?, hsame]

end Form

/-- A literal stands in place of a node as it is, or in one pair of parentheses. -/
theorem Site.fit_eq_or (s : Site) (literal : String) :
    s.fit literal = literal ∨ s.fit literal = "(" ++ literal ++ ")" := by
  rw [fit]
  split
  · exact Or.inr rfl
  · exact Or.inl rfl

namespace Pass

theorem answerFor?_of_answer? {p : Pass} {src : Source} {s : Site} {r : Replacement}
    (h : p.answer? src s = some r) :
    ∃ dotted, s.tree.dottedName? src = some dotted ∧
      p.table.defines.root.answerFor? p.table.options.allowFalsy dotted = some r := by
  rw [answer?, Option.bind_eq_some_iff] at h
  obtain ⟨f, hf, h⟩ := h
  rw [formOf?] at hf
  have hhandles := List.find?_some hf
  exact Form.answerFor?_of_answer? hhandles h

/-! ## What a walk records -/

/-- One record adds the substitution of the read, and perhaps a fold. -/
theorem record_induction {p : Pass} {src : Source} {motive : Edit → Prop}
    (hfold : ∀ e : Edit, e.isFold = true → motive e) {s : Site} {r : Replacement}
    (hsubstitution : motive (s.substitution src r)) {edits : EditSet}
    (hedits : ∀ e ∈ edits.toList, motive e) :
    ∀ e ∈ (p.record src s r edits).toList, motive e := by
  have hinserted := EditSet.forall_mem_insert hsubstitution hedits
  rcases p.record_cases src s r edits with heq | ⟨e, -, he, heq⟩
  · rw [heq]
    exact hinserted
  · rw [heq]
    obtain ⟨around, -, value, -, -, -, -, rfl⟩ := Site.fold?_eq_some_iff.mp he
    exact EditSet.forall_mem_insert (hfold _ rfl) hinserted

/-- What holds of all folds and of the substitution of each read that is answered, and not too
    deep, holds of everything that a walk records. -/
theorem visit_induction {p : Pass} {src : Source} {motive : Edit → Prop}
    (hfold : ∀ e : Edit, e.isFold = true → motive e) {s : Site}
    (hsubstitution : ∀ q ∈ s.within, ∀ r, p.replacement? src q = some r →
      motive (q.substitution src r))
    {edits : EditSet} (hedits : ∀ e ∈ edits.toList, motive e) :
    ∀ e ∈ (p.visit src s.level s.above edits s.tree).toList, motive e := by
  induction s using Site.below_induction generalizing edits with
  | step s ih =>
    rw [visit_eq]
    split
    · exact hedits
    rename_i hdepth
    split
    · exact hedits
    cases hanswer : p.answer? src s with
    | some r =>
      have hr : p.replacement? src s = some r :=
        replacement?_eq_some_iff.mpr ⟨by omega, hanswer⟩
      exact record_induction hfold (hsubstitution s (Site.mem_within_self s) r hr) hedits
    | none =>
      -- The parts are walked one after the other, each from what the earlier ones have left.
      simp only
      rw [visitAll_eq_foldl]
      refine List.foldlRecOn (motive := fun edits : EditSet => ∀ e ∈ edits.toList, motive e)
        s.below _ hedits fun edits hedits c hc => ?_
      refine ih c hc (fun q hq => ?_) hedits
      exact hsubstitution q (Site.within_trans (Site.mem_within_of_mem_below hc) hq)

/-- A substitution that a pass records is that of an answered read. -/
theorem exists_read_of_mem_edits {p : Pass} {src : Source} {t : Tree} {e : Edit}
    (he : e ∈ (p.edits src t).toList) (hfold : e.isFold = false) :
    ∃ s ∈ Site.list t, ∃ r, p.replacement? src s = some r ∧ e = s.substitution src r := by
  rw [edits] at he
  split at he
  · exact absurd he List.not_mem_nil
  · refine visit_induction (s := Site.root t)
      (motive := fun e => e.isFold = false → ∃ s ∈ Site.list t, ∃ r,
        p.replacement? src s = some r ∧ e = s.substitution src r) ?_ ?_ ?_ e he hfold
    · intro x hx hnot
      simp [hx] at hnot
    · intro q hq r hr _
      exact ⟨q, hq, r, hr, rfl⟩
    · intro x hx
      exact absurd hx List.not_mem_nil

/-- A run over a tree without faults has the edits of the pass. -/
theorem run_of_firstBad?_eq_none (p : Pass) (src : Source) {t : Tree} (path : String)
    (hclean : t.firstBad? = none) :
    ∃ code, p.run src t path = .ok ⟨code, (p.edits src t).toList⟩ := by
  rw [run, Tree.fault?_eq, hclean]
  exact ⟨_, rfl⟩

/-- Every substitution of a run over a tree without faults has its reason in the configuration. It
    replaces a node that asks for the dotted name that it reports; there is a path with that dotted
    form, and of all such paths the first in enumeration leads to a value of the configuration as it
    was given, the mark of `typeof` keys included, which is not falsy unless such values are wanted;
    and the new text is the literal of that value, in at most one pair of parentheses, and behind
    the name and a colon for a shorthand property. -/
theorem run_substitutions_justified (p : Pass) (src : Source) (t : Tree) (path : String)
    (hclean : t.firstBad? = none) :
    ∃ o, p.run src t path = .ok o ∧
      ∀ e ∈ o.edits, ∀ dotted, e.kind = .substitution dotted →
        ∃ s ∈ Site.list t, e.start = s.tree.start ∧ e.stop = s.tree.stop ∧
          e.oldText = s.tree.text src ∧ s.tree.dottedName? src = some dotted ∧
          ∃ q v, q.dotted = dotted ∧
            p.table.defines.root.enumerate.find? (·.dotted == dotted) = some q ∧
            p.table.defines.root.lookup? q.segments = some v ∧
            (v.isFalsy = true → p.table.options.allowFalsy = true) ∧
            ∃ literal, (literal = v.literal ∨ literal = "(" ++ v.literal ++ ")") ∧
              e.newText = if s.kind = .shorthandPropertyIdentifier then e.oldText ++ ": " ++ literal
                else literal := by
  obtain ⟨code, hrun⟩ := p.run_of_firstBad?_eq_none src path hclean
  refine ⟨_, hrun, fun e he dotted hkind => ?_⟩
  have hfold : e.isFold = false := by
    rw [Edit.isFold, hkind]
    rfl
  obtain ⟨s, hs, r, hr, rfl⟩ := exists_read_of_mem_edits he hfold
  obtain ⟨name, hname, hanswer⟩ := answerFor?_of_answer? (replacement?_eq_some_iff.mp hr).2
  obtain ⟨hpath, hvalue, hfalsy⟩ := Value.answerFor?_eq_some_iff.mp hanswer
  obtain ⟨-, hdotted⟩ := Value.dotted_of_firstPath? hpath
  -- The name that the read asks for is the dotted form of the path that it reports.
  obtain rfl : r.path.dotted = dotted := EditKind.substitution.inj hkind
  obtain rfl := hdotted
  exact ⟨s, hs, rfl, rfl, rfl, hname, r.path, r.value, rfl, hpath, hvalue, hfalsy,
    s.fit r.value.literal, s.fit_eq_or r.value.literal, rfl⟩

/-! ## Passes that answer alike -/

section Congruence

variable {p p' : Pass} {src : Source}

theorem record_congr (hfold : p.fold = p'.fold) (s : Site) (r : Replacement) (edits : EditSet) :
    p.record src s r edits = p'.record src s r edits := by
  rw [record, record, hfold]

theorem visit_congr (hfold : p.fold = p'.fold) (hdepth : p.maxDepth = p'.maxDepth)
    (hanswer : ∀ s, p.answer? src s = p'.answer? src s) (s : Site) (edits : EditSet) :
    p.visit src s.level s.above edits s.tree = p'.visit src s.level s.above edits s.tree := by
  induction s using Site.below_induction generalizing edits with
  | step s ih =>
    rw [visit_eq, visit_eq, hdepth, hanswer s, visitAll_eq_foldl, visitAll_eq_foldl]
    have hparts : s.below.foldl (fun edits c => p.visit src c.level c.above edits c.tree) edits =
        s.below.foldl (fun edits c => p'.visit src c.level c.above edits c.tree) edits :=
      List.foldl_ext _ _ _ fun edits c hc => ih c hc edits
    rw [hparts]
    cases p'.answer? src s with
    | none => rfl
    | some r => simp only [record_congr hfold]

/-- Passes over the same defines that answer alike, go equally deep and fold alike give the same
    result on every tree. -/
theorem run_congr (hempty : p.table.defines.isEmpty = p'.table.defines.isEmpty)
    (hfold : p.fold = p'.fold) (hdepth : p.maxDepth = p'.maxDepth)
    (hanswer : ∀ s, p.answer? src s = p'.answer? src s) (t : Tree) (path : String) :
    p.run src t path = p'.run src t path := by
  have hedits : p.edits src t = p'.edits src t := by
    rw [edits, edits, hempty]
    split
    · rfl
    · exact visit_congr hfold hdepth hanswer (Site.root t) .empty
  rw [run, run, hedits]

end Congruence

/-- The order of the paths changes nothing: no candidate of any form is resolved otherwise, in a
    configuration or in a table, and no run over any tree gives anything else. -/
theorem run_longestFirst_eq_enumeration (allowFalsy : Bool) :
    (∀ config f c, resolve? config ⟨.longestFirst, allowFalsy⟩ f c =
      resolve? config ⟨.enumeration, allowFalsy⟩ f c) ∧
    (∀ defines f c, (Table.build defines ⟨.longestFirst, allowFalsy⟩).resolve? f c =
      (Table.build defines ⟨.enumeration, allowFalsy⟩).resolve? f c) ∧
    ∀ defines forms fold maxDepth src t path,
      (⟨Table.build defines ⟨.longestFirst, allowFalsy⟩, forms, fold, maxDepth⟩ : Pass).run src t
          path =
        (⟨Table.build defines ⟨.enumeration, allowFalsy⟩, forms, fold, maxDepth⟩ : Pass).run src t
          path := by
  refine ⟨fun config f c => ?_, fun defines f c => ?_, ?_⟩
  · rw [resolve?_eq, resolve?_eq]
  · rw [Table.resolve?_eq, Table.resolve?_eq]
    rfl
  · intro defines forms fold maxDepth src t path
    refine run_congr (by rfl) (by rfl) (by rfl) (fun s => ?_) t path
    rw [answer?, answer?]
    congr
    funext f
    exact Form.answer?_congr (by rfl) (by rfl) f src s.tree

-- The two orders are different lists all the same.
example : ((Value.object [("a", .null), ("bc", .null)]).paths .longestFirst).map Path.dotted =
    ["bc", "a"] ∧
    ((Value.object [("a", .null), ("bc", .null)]).paths .enumeration).map Path.dotted =
      ["a", "bc"] := by
  decide +kernel

end Pass

/-! ## An expression with two paths

`typeof a.b;`, for which a nested and a flat entry have the same dotted form. -/

namespace Sample

def typeofSource : Source :=
  .ofString "typeof a.b;"

def typeofTree : Tree :=
  part (.other "program") true 0 11 []
    [part (.other "expression_statement") true 0 11 []
      [part .unaryExpression true 0 10 []
        [token "typeof" 0 6 [.operator],
         part .memberExpression true 7 10 [.argument]
          [part .identifier true 7 8 [.object] [], token "." 8 9 [],
           part .propertyIdentifier true 9 10 [.property] []]],
       token ";" 10 11 []]]

/-- The pass with the text `x` in a nested entry, and the text `y` in a flat one behind it. -/
def typeofPass : Pass :=
  .ofDefines ⟨[("typeof a", .object [("b", .string "x")]), ("typeof a.b", .string "y")]⟩ true
    default

end Sample

namespace Pass

theorem run_substitutions_justified_typeof :
    Sample.typeofTree.firstBad? = none ∧
      ∃ o, Sample.typeofPass.run Sample.typeofSource Sample.typeofTree "a.js" = .ok o ∧
        ∃ e ∈ o.edits, e.kind = .substitution "typeof a.b" ∧ e.newText = "\"x\"" ∧
          ∃ q v, Sample.typeofPass.table.defines.root.enumerate.find?
              (·.dotted == "typeof a.b") = some q ∧ q.segments = ["typeof a", "b"] ∧
            Sample.typeofPass.table.defines.root.lookup? q.segments = some v := by
  have hclean : Sample.typeofTree.firstBad? = none := by decide
  obtain ⟨o, hrun, hall⟩ := run_substitutions_justified Sample.typeofPass Sample.typeofSource
    Sample.typeofTree "a.js" hclean
  have houtcome : (Sample.typeofPass.run Sample.typeofSource Sample.typeofTree
      "a.js").toOption.map (·.edits) =
        some [⟨0, 10, 1, 1, "typeof a.b", "\"x\"", .substitution "typeof a.b",
          some (.string "x")⟩] := by
    decide +kernel
  rw [hrun] at houtcome
  have hedits : o.edits = [_] := Option.some.inj houtcome
  have hmem : _ ∈ o.edits := hedits ▸ List.mem_cons_self
  obtain ⟨s, -, -, -, -, -, q, v, -, hpath, hvalue, -⟩ := hall _ hmem "typeof a.b" rfl
  refine ⟨hclean, o, hrun, _, hmem, rfl, rfl, q, v, hpath, ?_, hvalue⟩
  have hsegments : (Sample.typeofPass.table.defines.root.enumerate.find?
      (·.dotted == "typeof a.b")).map (·.segments) = some ["typeof a", "b"] := by
    decide +kernel
  rw [hpath] at hsegments
  exact Option.some.inj hsegments

end Pass
end DefineFold
