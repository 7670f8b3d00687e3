/-
  DefineFold.Proofs.Pass.Output

  What a pass gives out. On a tree without faults that fits its source a pass succeeds; its
  edits are in order and disjoint, each has the range and the old text of a node, and the code
  is the source with the new texts between the gaps that the edits leave.

  A tree with a bad node anywhere in it is refused, whatever the pass would do, and the fault is
  that of the first bad node in pre-order (`run_refused_iff`).
-/

import DefineFold.Proofs.Edit.Splice
import DefineFold.Proofs.Pass.Walk

namespace DefineFold
namespace Pass

variable {p : Pass} {src : Source} {t : Tree}

/-- An edit that a pass makes to a tree that fits has the slice of its range as its old text. -/
theorem Makes.slice?_eq {e : Edit} (h : p.Makes src t e) (hw : t.WellFormed src) :
    src.slice? e.start e.stop = some e.oldText := by
  obtain ⟨s, hs, hstart, hstop, htext⟩ := h.exists_site
  rw [hstart, hstop, htext]
  exact (hw s hs).slice?_eq_text

/-- Sound edits can be put into the source. -/
theorem Sound.fitting {edits : EditSet} (h : p.Sound src t edits) (hw : t.WellFormed src) :
    EditSet.Fitting src edits.toList :=
  ⟨h.disjoint.apart, fun e he => (h.made e he).slice?_eq hw⟩

/-- A pass over a tree without faults gives out its edits, put into the source. -/
theorem run_eq_ok (hw : t.WellFormed src) (hclean : t.firstBad? = none) (path : String) :
    ∃ code, p.run src t path = .ok ⟨code, (p.edits src t).toList⟩ ∧
      (p.edits src t).splice? src = some code := by
  -- The edits can be put in, so that the outcome is never the source left as it is.
  obtain ⟨gaps, -, hnew, -⟩ := EditSet.exists_gaps ((sound_edits hw).fitting hw)
    src.isBoundary_zero fun e _ => Nat.zero_le e.start
  have hsplice : (p.edits src t).splice? src =
      some (String.ofList (EditSet.weave gaps ((p.edits src t).toList.map Edit.newText))) := by
    rw [EditSet.splice?, hnew]
    rfl
  refine ⟨_, ?_, hsplice⟩
  rw [run, Tree.fault?_eq, hclean]
  simp only [Option.map_none, hsplice, Option.getD_some]

/-- The code of an outcome, by computing the run that has it. -/
theorem code_of_run {path code : String} {o : Outcome} (hrun : p.run src t path = .ok o)
    (h : (p.run src t path).toOption.map Outcome.code = some code) : o.code = code := by
  rw [hrun] at h
  exact Option.some.inj h

/-- A pass over a tree that fits its source and has no faults succeeds. Its edits are in order
    and disjoint; a substitution has the range of a node that is not too deep and that a form
    handles, a fold that of a binary expression; old texts are slices of the source; and the
    code is what splicing gives: the gaps of the source with the new texts between them, which
    with the old texts between them are the source. -/
theorem run_weaves_disjoint_edits (p : Pass) (src : Source) (t : Tree) (path : String)
    (hw : t.WellFormed src) (hclean : t.firstBad? = none) :
    ∃ o, p.run src t path = .ok o ∧
      (o.edits.Pairwise fun a b => a.start < b.start ∧ a.stop ≤ b.start) ∧
      (∀ e ∈ o.edits, e.isFold = false → ∃ s ∈ Site.list t, s.level ≤ p.maxDepth ∧
        (∃ f ∈ p.forms, f.handles s = true) ∧ e.start = s.tree.start ∧ e.stop = s.tree.stop) ∧
      (∀ e ∈ o.edits, e.isFold = true → ∃ s ∈ Site.list t, s.kind = .binaryExpression ∧
        e.start = s.tree.start ∧ e.stop = s.tree.stop) ∧
      (∀ e ∈ o.edits, src.slice? e.start e.stop = some e.oldText) ∧
      (p.edits src t).splice? src = some o.code ∧
      ∃ gaps, EditSet.gapsFrom? src 0 o.edits = some gaps ∧
        o.code.toList = EditSet.weave gaps (o.edits.map Edit.newText) ∧
        src.chars = EditSet.weave gaps (o.edits.map Edit.oldText) := by
  have hsound := sound_edits (p := p) hw
  obtain ⟨code, hrun, hsplice⟩ := run_eq_ok (p := p) hw hclean path
  obtain ⟨gaps, hgaps, hnew, hold⟩ := EditSet.exists_gaps (hsound.fitting hw)
    src.isBoundary_zero fun e _ => Nat.zero_le e.start
  refine ⟨_, hrun, ?_, ?_, ?_, fun e he => (hsound.made e he).slice?_eq hw, hsplice,
    gaps, hgaps, ?_, ?_⟩
  · exact (p.edits src t).rising.and hsound.disjoint.apart
  · intro e he hfold
    cases hsound.made e he with
    | @substitution s r mem outermost =>
      obtain ⟨hlevel, hanswer⟩ := replacement?_eq_some_iff.mp outermost.found
      exact ⟨s, mem, hlevel, handles_of_answer? hanswer, rfl, rfl⟩
    | folding _ _ _ _ _ => simp at hfold
  · intro e he hfold
    cases hsound.made e he with
    | substitution _ _ => simp at hfold
    | @folding s _ _ value _ mem binary _ _ => exact ⟨s, mem, binary, rfl, rfl⟩
  · rw [EditSet.splice?, hnew] at hsplice
    rw [← Option.some.inj hsplice, String.toList_ofList]
  · have hall : dropBytes? src.chars 0 = some src.chars :=
      dropBytes?_eq_some_iff.mpr ⟨[], rfl, rfl⟩
    exact Option.some.inj (hall.symm.trans hold)

theorem run_weaves_disjoint_edits_sample :
    Sample.tree.WellFormed Sample.source ∧ Sample.tree.firstBad? = none ∧
      ∃ o gaps, (Sample.pass true).run Sample.source Sample.tree "a.js" = .ok o ∧
        EditSet.gapsFrom? Sample.source 0 o.edits = some gaps ∧
        o.code.toList = EditSet.weave gaps (o.edits.map Edit.newText) ∧
        Sample.source.chars = EditSet.weave gaps (o.edits.map Edit.oldText) := by
  refine ⟨Sample.tree_wellFormed, Sample.tree_firstBad?, ?_⟩
  obtain ⟨o, hrun, -, -, -, -, -, gaps, hgaps, hnew, hold⟩ :=
    run_weaves_disjoint_edits (Sample.pass true) Sample.source Sample.tree "a.js"
      Sample.tree_wellFormed Sample.tree_firstBad?
  exact ⟨o, gaps, hrun, hgaps, hnew, hold⟩

-- The read on its own is replaced, and the comparison is folded over the other one.
example : ((Sample.pass true).edits Sample.source Sample.tree).toList.map
    (fun e => (e.start, e.stop, e.newText, e.isFold)) =
      [(0, 1, "\"a\"", false), (8, 15, "true", true)] := by
  decide +kernel

/-! ## Refusal -/

theorem run_eq_error_iff {path : String} {fault : SyntaxFault} :
    p.run src t path = .error fault ↔ t.fault? src path = some fault := by
  rw [run]
  cases t.fault? src path <;> simp

/-- A pass refuses a source just if a bad node is anywhere in its tree, whatever the pass goes by.
    The search for the node to blame then ends at the first bad one in pre-order, and the fault
    names the line and the column at which that node begins. -/
theorem run_refused_iff (p : Pass) (src : Source) (t : Tree) (path : String) :
    ((∃ fault, p.run src t path = .error fault) ↔ ∃ s ∈ Site.list t, s.isBad = true) ∧
      ∀ q ∈ Site.list t, q.isBad = true →
        ∃ before s after, Site.list t = before ++ s :: after ∧ s.isBad = true ∧
          (∀ x ∈ before, x.isBad = false) ∧ t.seekBad? = some s.tree ∧
          ∃ fault, p.run src t path = .error fault ∧ fault.path = path ∧
            fault.line = (src.position s.tree.start).1 + 1 ∧
            fault.column = (src.position s.tree.start).2 + 1 := by
  have hfault := Tree.fault?_eq_map t src path
  have hsearch : t.seekBad? = (Site.root t).firstBad?.map Site.tree := Tree.seekBad?_eq (.root t)
  refine ⟨?_, fun q hq hbad => ?_⟩
  · simp only [run_eq_error_iff]
    rw [← Option.isSome_iff_exists, hfault, Option.isSome_map, Site.isSome_firstBad?_root]
  · obtain ⟨s, hs⟩ := Option.isSome_iff_exists.mp (Site.isSome_firstBad?_root.mpr ⟨q, hq, hbad⟩)
    rw [hs, Option.map_some] at hfault hsearch
    -- The first node in the list for which the test holds: none before it passes the test.
    obtain ⟨hself, before, after, hlist, hbefore⟩ := List.find?_eq_some_iff_append.mp hs
    exact ⟨before, s, after, hlist, hself, fun x hx => by simpa using hbefore x hx, hsearch, _,
      run_eq_error_iff.mpr hfault, rfl, rfl, rfl⟩

end Pass

/-! ## A source with two faults

A call without its closing parenthesis on the second line, and a brace behind it that fits
nowhere. -/

namespace Sample

def unclosedSource : Source :=
  .ofString "a;\nf(;\x7d"

def unclosedTree : Tree :=
  part (.other "program") true 0 7 []
    [part (.other "expression_statement") true 0 2 []
      [part .identifier true 0 1 [] [], token ";" 1 2 []],
     part (.other "expression_statement") true 3 6 []
      [part .callExpression true 3 5 []
        [part .identifier true 3 4 [.function] [],
         part (.other "arguments") true 4 5 []
          [token "(" 4 5 [], .node ⟨.other ")", false, true, false, 5, 5, []⟩ []]],
       token ";" 5 6 []],
     .node ⟨.other "ERROR", true, false, true, 6, 7, []⟩ [token "\x7d" 6 7 []]]

end Sample

namespace Pass

-- The theorem is asked about the second fault, and answers with the first.
theorem run_refused_iff_unclosed :
    (∃ q ∈ Site.list Sample.unclosedTree, q.isBad = true ∧ q.tree.start = 6) ∧
      ∃ s, Sample.unclosedTree.seekBad? = some s ∧ s.start = 5 ∧
        ∃ fault, (Sample.pass true).run Sample.unclosedSource Sample.unclosedTree "a.js" =
          .error fault ∧ fault.line = 2 ∧ fault.column = 3 := by
  have hsecond : ∃ q ∈ Site.list Sample.unclosedTree, q.isBad = true ∧ q.tree.start = 6 := by
    decide
  refine ⟨hsecond, ?_⟩
  obtain ⟨q, hq, hbad, -⟩ := hsecond
  obtain ⟨-, s, -, -, -, -, hsearch, fault, hrun, -, hline, hcolumn⟩ :=
    (run_refused_iff (Sample.pass true) Sample.unclosedSource Sample.unclosedTree "a.js").2 q hq
      hbad
  have hstart : s.tree.start = 5 := by
    have hfound : Sample.unclosedTree.seekBad?.map Tree.start = some 5 := by decide
    rw [hsearch] at hfound
    exact Option.some.inj hfound
  rw [hstart] at hline hcolumn
  exact ⟨s.tree, hsearch, hstart, fault, hrun, hline, hcolumn⟩

end Pass
end DefineFold
