/-
  DefineFold.Proofs.Pass.FoldedRun

  A pass that folds against the same pass without folding. When the walk replaces a read, the
  binary expression around it is free in the edits recorded by then (`Sound.free_of_enclosing`),
  so that what is known of free expressions applies to it: a fold covers replaced reads only,
  and its value is that of the expression after all substitutions. One step keeps this
  (`Faithful.step`), and so does the whole run (`faithful_edits`).
-/

import DefineFold.Proofs.Pass.Folding

namespace DefineFold
namespace Pass

/-- The walk of a pass comes upon a read that is not covered, with the given edits recorded. -/
structure Meets (p : Pass) (src : Source) (t : Tree) (s : Site) (r : Replacement)
    (edits : EditSet) : Prop where
  found : p.replacement? src s = some r
  uncovered : edits.covers s.tree.start s.tree.stop = false
  recorded : ∃ passed rest, Site.list t = passed ++ s :: rest ∧
    edits = passed.foldl (p.step src) .empty

variable {p : Pass} {src : Source} {t : Tree} {edits : EditSet} {s : Site} {r : Replacement}

/-! ## One fold -/

/-- The operator of a binary expression is apart from every read in the expression, so that no
    read has the whole range of the expression. -/
theorem range_ne_of_enclosing (hw : t.WellFormed src) (hg : t.Regular src)
    (hs : s ∈ Site.list t) (hread : s.isCandidate = true) {around : Site}
    (haround : around ∈ s.ancestors) (hbinary : around.kind = .binaryExpression)
    {op : BinaryOp} (hop : around.tree.binaryOp? = some op) :
    ¬(s.tree.start ≤ around.tree.start ∧ around.tree.stop ≤ s.tree.stop) := by
  rintro ⟨hstart, hstop⟩
  obtain ⟨hlist, -⟩ := Site.mem_list_of_ancestor hs haround
  -- The operator token.
  rw [Tree.binaryOp?, Option.bind_eq_some_iff] at hop
  obtain ⟨kind, hkind, -⟩ := hop
  rw [Tree.operatorKind?, Option.map_eq_some_iff] at hkind
  obtain ⟨token, htoken, -⟩ := hkind
  obtain ⟨hmem, hfills⟩ := Site.mem_below_of_child? htoken
  obtain ⟨haside, hsolid⟩ :=
    (hg around hlist).operator (by simp [hbinary, Kind.isComposite]) _ hmem hfills
  have hinside := (hw around hlist).below_inside hmem
  have hmemList := Site.mem_list_of_mem_within hlist (Site.mem_within_of_mem_below hmem)
  have hlevel := Site.level_lt_of_mem_ancestors haround
  have hne : s ≠ ⟨token, around.tree :: around.above⟩ := by
    rintro rfl
    rw [Site.not_isCandidate_of_isAside haside (Site.mem_within_self _)] at hread
    simp at hread
  rcases hw.nested_or_apart hs hmemList with hnest | hnest | hapart | hapart
  · -- The token does not lie in the read: its parent lies around the read.
    rcases Site.mem_within_or_ancestor hnest with heq | hancestor
    · exact hne heq.symm
    · rw [Site.ancestors_of_mem_below hmem] at hancestor
      rcases List.mem_cons.mp hancestor with rfl | hancestor
      · exact Nat.lt_irrefl _ hlevel
      · have := Site.level_lt_of_mem_ancestors hancestor
        omega
  · exact hne (Site.eq_of_mem_within_of_isAside haside hnest)
  · omega
  · omega

/-- Once a read that was not covered is replaced, no edit holds the binary expression around
    it. -/
theorem Sound.free_of_enclosing (h : p.Sound src t edits) (hw : t.WellFormed src)
    (hg : t.Regular src) (hs : s ∈ Site.list t) (hout : p.Outermost src s r)
    (hcovers : edits.covers s.tree.start s.tree.stop = false) {around : Site}
    (haround : around ∈ s.ancestors) (hbinary : around.kind = .binaryExpression)
    {op : BinaryOp} (hop : around.tree.binaryOp? = some op) :
    Free (edits.insert (s.substitution src r)) around := by
  rintro - e he ⟨hstart, hstop⟩
  have hsolid := solid_of_replacement? hw hs hout.found
  obtain ⟨hlist, hin⟩ := Site.mem_list_of_ancestor hs haround
  have hrange := hw.range_of_mem_within hlist hin
  rcases EditSet.eq_or_mem_of_mem_insert he with rfl | he
  · exact range_ne_of_enclosing hw hg hs (isCandidate_of_replacement? hout.found) haround hbinary
      hop ⟨hstart, hstop⟩
  · have hcov : edits.covers s.tree.start s.tree.stop = true :=
      (h.disjoint.covers_iff hsolid).mpr ⟨e, he, by omega, by omega⟩
    simp [hcov] at hcovers

/-- Faithful edits stay faithful when an edit is put in that is no fold, or the fold of a binary
    expression for its value. -/
theorem Faithful.insert (hf : p.Faithful src t edits) {e : Edit}
    (he : e.isFold = true → ∃ q ∈ Site.list t, q.kind = .binaryExpression ∧
      ∃ v, e = q.folding src v ∧ Evaluates src ((p.withFold false).edits src t) q.tree v) :
    p.Faithful src t (edits.insert e) :=
  EditSet.forall_mem_insert he hf

theorem Faithful.insert_substitution (hf : p.Faithful src t edits) (s : Site) (r : Replacement) :
    p.Faithful src t (edits.insert (s.substitution src r)) :=
  hf.insert fun hfold => absurd hfold (by simp)

/-- A fold is that of a binary expression of the tree in which all reads are covered, for the
    value that the expression has when all reads are replaced and nothing is folded. -/
theorem Faithful.fold? (hf : p.Faithful src t edits) (h : p.Sound src t edits)
    (hw : t.WellFormed src) (hg : t.Regular src) (hd : p.table.defines.isEmpty = false)
    (hs : s ∈ Site.list t) (hout : p.Outermost src s r)
    (hcovers : edits.covers s.tree.start s.tree.stop = false) {e : Edit}
    (he : s.fold? src (edits.insert (s.substitution src r)) = some e) :
    ∃ around ∈ Site.list t, around.kind = .binaryExpression ∧ s ∈ around.within ∧
      p.Settled src (edits.insert (s.substitution src r)) around ∧
      ∃ v, e = around.folding src v ∧
        Evaluates src ((p.withFold false).edits src t) around.tree v := by
  obtain ⟨around, op, v, haround, hop, -, hv, rfl⟩ := Site.fold?_eq_some_iff.mp he
  obtain ⟨hmem, hbinary⟩ := enclosingBinary?_mem haround
  obtain ⟨hlist, hin⟩ := Site.mem_list_of_ancestor hs hmem
  have hrange := hw.range_of_mem_within hlist hin
  have hsolid := solid_of_replacement? hw hs hout.found
  -- The expression is free once the read is replaced, and no read lies around it.
  have hfree := h.free_of_enclosing hw hg hs hout hcovers hmem hbinary hop
  have halone : ∀ a ∈ around.ancestors, p.replacement? src a = none := fun a ha =>
    hout.alone a (Site.mem_ancestors_of_mem_within hin ha)
  obtain ⟨hsettled, hvalue⟩ := (hf.insert_substitution s r).settled_and_evaluates
    (h.insert_substitution hw hs hout hcovers) hw hg hd hlist hfree (by omega) halone hv
  exact ⟨around, hlist, hbinary, hin, hsettled, v, rfl, hvalue⟩

/-! ## Step and run -/

/-- A step of the walk leaves faithful edits faithful. -/
theorem Faithful.step {passed rest : List Site} (hf : p.Faithful src t edits)
    (h : p.Progress src t passed edits) (hw : t.WellFormed src) (hg : t.Regular src)
    (hd : p.table.defines.isEmpty = false) (hsplit : Site.list t = passed ++ s :: rest) :
    p.Faithful src t (p.step src edits s) := by
  have hs : s ∈ Site.list t := by
    rw [hsplit]
    exact List.mem_append_right _ List.mem_cons_self
  cases hr : p.replacement? src s with
  | none =>
    rw [step_of_replacement?_eq_none hr]
    exact hf
  | some r =>
    cases hcovers : edits.covers s.tree.start s.tree.stop with
    | true =>
      rw [step_of_covers hcovers]
      exact hf
    | false =>
      rw [step_of_replacement? hcovers hr]
      have hout := h.outermost hw hsplit hr hcovers
      rcases p.record_cases src s r edits with heq | ⟨e, -, he, heq⟩
      · rw [heq]
        exact hf.insert_substitution s r
      · -- The fold is made against the edits that hold the substitution already.
        rw [heq]
        obtain ⟨around, hlist, hbinary, -, -, hvalue⟩ :=
          hf.fold? h.toSound hw hg hd hs hout hcovers he
        exact (hf.insert_substitution s r).insert fun _ => ⟨around, hlist, hbinary, hvalue⟩

/-- At any place in pre-order, the steps taken so far have recorded faithful edits. -/
theorem faithful_of_split (hw : t.WellFormed src) (hg : t.Regular src)
    (hd : p.table.defines.isEmpty = false) {passed rest : List Site}
    (hsplit : Site.list t = passed ++ rest) :
    p.Faithful src t (passed.foldl (p.step src) .empty) := by
  have hstart : p.Progress src t [] .empty ∧ p.Faithful src t .empty :=
    ⟨progress_of_split hw (List.nil_append _).symm, fun e he => absurd he List.not_mem_nil⟩
  have hrun := foldl_step_induction
    (motive := fun passed edits => p.Progress src t passed edits ∧ p.Faithful src t edits)
    hstart (fun hlist h => ⟨h.1.step hw hlist, h.2.step h.1 hw hg hd hlist⟩) hsplit
  exact hrun.2

/-- The edits of a pass are faithful. -/
theorem faithful_edits (hw : t.WellFormed src) (hg : t.Regular src) :
    p.Faithful src t (p.edits src t) := by
  cases hd : p.table.defines.isEmpty with
  | true =>
    rw [edits, if_pos hd]
    exact fun e he => absurd he List.not_mem_nil
  | false =>
    rw [edits_eq_foldl hw hd]
    exact faithful_of_split hw hg hd (List.append_nil _).symm

/-- The substitutions of a pass that folds are those of the pass without folding that lie in no
    fold. -/
theorem substitutions_eq_filter (hw : t.WellFormed src) :
    (p.edits src t).toList.filter (fun x => !x.isFold) =
      ((p.withFold false).edits src t).toList.filter fun x =>
        decide (∀ e ∈ (p.edits src t).toList, e.isFold = true → ¬x.Inside e) := by
  cases hd : p.table.defines.isEmpty with
  | true =>
    have hplain : (p.withFold false).table.defines.isEmpty = true := hd
    rw [edits, edits, if_pos hd, if_pos hplain]
    rfl
  | false =>
    have hsound := sound_edits (p := p) hw
    refine eq_of_rising ((p.edits src t).rising.filter _)
      (((p.withFold false).edits src t).rising.filter _) fun x => ?_
    simp only [List.mem_filter, Bool.not_eq_true', decide_eq_true_eq]
    rw [mem_edits_withFold_false hw hd]
    constructor
    · rintro ⟨hx, hxfold⟩
      have hxsolid := hsound.disjoint.solid x hx
      refine ⟨?_, ?_⟩
      · cases hsound.made x hx with
        | @substitution s r mem hout => exact ⟨s, mem, r, hout, rfl⟩
        | folding _ _ _ _ _ => simp at hxfold
      · -- A fold around it would overlap it, and be the same edit.
        rintro e he hefold ⟨hstart, hstop⟩
        obtain rfl := hsound.disjoint.eq_of_overlap hx he (by omega) (by omega)
        simp [hxfold] at hefold
    · rintro ⟨⟨s, hs, r, hout, rfl⟩, houtside⟩
      rcases substitution_mem_or_fold hw hd hs hout with hmem | ⟨e, he, hefold, hin⟩
      · exact ⟨hmem, rfl⟩
      · exact absurd hin (houtside e he hefold)

/-- When the walk comes upon a read that is not covered, a fold that it leads to holds no read that
    is still to be replaced. -/
theorem Meets.covers_of_inside (hm : p.Meets src t s r edits) (hw : t.WellFormed src)
    (hg : t.Regular src) (hd : p.table.defines.isEmpty = false) {e : Edit}
    (he : s.fold? src (edits.insert (s.substitution src r)) = some e) {x : Edit}
    (hx : x ∈ ((p.withFold false).edits src t).toList) (hinside : x.Inside e) :
    ∃ y ∈ (edits.insert (s.substitution src r)).toList, x.Inside y := by
  obtain ⟨passed, rest, hsplit, rfl⟩ := hm.recorded
  have hs : s ∈ Site.list t := by
    rw [hsplit]
    exact List.mem_append_right _ List.mem_cons_self
  have hprogress := progress_of_split (p := p) hw hsplit
  have hout := hprogress.outermost hw hsplit hm.found hm.uncovered
  obtain ⟨around, hlist, -, hin, hsettled, v, rfl, -⟩ :=
    (faithful_of_split hw hg hd hsplit).fold? hprogress.toSound hw hg hd hs hout hm.uncovered he
  obtain ⟨q, hq, r', hout', rfl⟩ := (mem_edits_withFold_false hw hd).mp hx
  have hsolid := solid_of_replacement? hw hq hout'.found
  obtain ⟨hstart, hstop⟩ := hinside
  simp only [Site.folding_start, Site.folding_stop, Site.substitution_start,
    Site.substitution_stop] at hstart hstop
  -- The read lies in the folded expression: around that no read has an answer.
  have hwithin : q ∈ around.within := by
    rcases hw.nested_or_apart hlist hq with hnest | hnest | hapart | hapart
    · exact hnest
    · rcases Site.mem_within_or_ancestor hnest with rfl | hancestor
      · exact Site.mem_within_self _
      · have hover := Site.mem_ancestors_of_mem_within hin hancestor
        exact absurd hover (hout.not_mem_ancestors hout'.found)
    · omega
    · omega
  have hdisjoint := (hprogress.insert_substitution hw hs hout hm.uncovered).disjoint
  exact (hdisjoint.covers_iff hsolid).mp (hsettled q hwithin r' hout')

/-- Folding while walking agrees with substituting everything first. On a tree as the grammars
    make them, the substitutions of the pass that folds are those of the pass that does not,
    less those inside a fold. Each fold is that of a binary expression, for the value that the
    expression has against the edits of the pass that does not fold, looked into as deep as it
    takes. And whenever the walk, step after step, comes upon a read and the fold of the
    expression around it is due, every read in the expression has been replaced by then. -/
theorem run_folds_substituted_values (p : Pass) (src : Source) (t : Tree) (path : String)
    (hw : t.WellFormed src) (hg : t.Regular src) (hclean : t.firstBad? = none) :
    ∃ plain folded, (p.withFold false).run src t path = .ok plain ∧
      (p.withFold true).run src t path = .ok folded ∧
      plain.edits = ((p.withFold false).edits src t).toList ∧
      (folded.edits.filter (fun x => !x.isFold) = plain.edits.filter fun x =>
        decide (∀ e ∈ folded.edits, e.isFold = true → ¬x.Inside e)) ∧
      (∀ e ∈ folded.edits, e.isFold = true → ∃ s ∈ Site.list t, s.kind = .binaryExpression ∧
        ∃ v, e = s.folding src v ∧
          Evaluates src ((p.withFold false).edits src t) s.tree v) ∧
      (p.table.defines.isEmpty = false → (p.withFold true).edits src t =
        (Site.list t).foldl ((p.withFold true).step src) .empty) ∧
      ∀ s r edits e, (p.withFold true).Meets src t s r edits →
        s.fold? src (edits.insert (s.substitution src r)) = some e →
        ∀ x ∈ plain.edits, x.Inside e →
          ∃ y ∈ (edits.insert (s.substitution src r)).toList, x.Inside y := by
  obtain ⟨code₀, hrun₀, -⟩ := run_eq_ok (p := p.withFold false) hw hclean path
  obtain ⟨code₁, hrun₁, -⟩ := run_eq_ok (p := p.withFold true) hw hclean path
  refine ⟨_, _, hrun₀, hrun₁, rfl, substitutions_eq_filter (p := p.withFold true) hw,
    faithful_edits (p := p.withFold true) hw hg,
    fun hd => edits_eq_foldl (p := p.withFold true) hw hd, ?_⟩
  intro s r edits e hmeets he x hx hin
  cases hd : p.table.defines.isEmpty with
  | true =>
    have hnone : (p.withFold false).edits src t = .empty := by
      rw [Pass.edits]
      exact if_pos hd
    simp only [hnone] at hx
    exact absurd hx List.not_mem_nil
  | false => exact hmeets.covers_of_inside hw hg hd he hx hin

theorem run_folds_substituted_values_sample :
    Sample.tree.WellFormed Sample.source ∧ Sample.tree.Regular Sample.source ∧
      Sample.tree.firstBad? = none ∧
      ∃ folded,
        ((Sample.pass true).withFold true).run Sample.source Sample.tree "a.js" = .ok folded ∧
        ∃ e ∈ folded.edits, ∃ s ∈ Site.list Sample.tree, ∃ v,
          e = s.folding Sample.source v ∧
          Evaluates Sample.source
            (((Sample.pass true).withFold false).edits Sample.source Sample.tree) s.tree v := by
  have hregular : Sample.tree.Regular Sample.source := by decide +kernel
  refine ⟨Sample.tree_wellFormed, hregular, Sample.tree_firstBad?, ?_⟩
  obtain ⟨plain, folded, -, hfolded, -, -, hvalues, -, -⟩ :=
    run_folds_substituted_values (Sample.pass true) Sample.source Sample.tree "a.js"
      Sample.tree_wellFormed hregular Sample.tree_firstBad?
  obtain ⟨code, hrun, -⟩ := run_eq_ok (p := (Sample.pass true).withFold true)
    Sample.tree_wellFormed Sample.tree_firstBad? "a.js"
  have hedits : folded.edits.any Edit.isFold = true := by
    rw [hrun] at hfolded
    rw [← Except.ok.inj hfolded]
    show (((Sample.pass true).withFold true).edits Sample.source Sample.tree).toList.any
      Edit.isFold = true
    decide +kernel
  obtain ⟨e, he, hfold⟩ := List.any_eq_true.mp hedits
  obtain ⟨s, hs, -, v, heq, hv⟩ := hvalues e he hfold
  exact ⟨folded, hfolded, e, he, s, hs, v, heq, hv⟩

end Pass
end DefineFold
