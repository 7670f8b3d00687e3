/-
  DefineFold.Proofs.Pass.Kept

  What a pass leaves alone, on trees as the grammars make them. Edits are made of reads that have
  an answer and of expressions that have a value. A node without a value keeps every expression
  around it from having one (`Unvalued.evaluateWithin?_eq_none`); and if it is neither a read nor
  a part of a chain, no read with an answer lies around it (`Wall.not_mem_within`).

  A static chain is `Unanswered` if neither it nor a node around it has an answer. No edit holds
  the whole of such a chain (`Unanswered.not_holds_edits`). But the walk goes on into the chain,
  and its shorter beginnings are reads like any other: if none of them has an answer the chain
  is kept, and otherwise the longest that has one is replaced (`Unanswered.substitution_mem`).
-/

import DefineFold.Proofs.Edit.Neighbours
import DefineFold.Proofs.Pass.Chains
import DefineFold.Proofs.Pass.FoldedRun
import DefineFold.Proofs.Pass.Provenance

namespace DefineFold

/-- The source of a node is left as it is: every edit is apart from it, and its text stands in the
    code between what is spliced before it and what is spliced behind it. -/
structure Outcome.Keeps (o : Outcome) (src : Source) (s : Site) : Prop where
  apart : ∀ e ∈ o.edits, e.stop ≤ s.tree.start ∨ s.tree.stop ≤ e.start
  text : ∃ pre post front back, o.edits = pre ++ post ∧
    EditSet.spliceBetween? src 0 s.tree.start pre = some front ∧
    EditSet.spliceBetween? src s.tree.stop src.size post = some back ∧
    o.code.toList = front ++ (s.tree.text src).toList ++ back

namespace Pass

variable {p : Pass} {src : Source} {t : Tree} {edits : EditSet} {s c : Site}

/-! ## Reads -/

/-- What has a replacement: a static chain, a shorthand property, or the question for the type of a
    static chain. -/
theorem read_of_replacement? {r : Replacement} (hr : p.replacement? src s = some r) :
    s.Static src ∨ s.kind = .shorthandPropertyIdentifier ∨
      s.kind = .unaryExpression ∧ s.tree.operatorKind? = some (.other "typeof") ∧
        ∃ x, s.tree.child? .argument = some x ∧ Site.Static src ⟨x, s.tree :: s.above⟩ := by
  obtain ⟨-, hanswer⟩ := replacement?_eq_some_iff.mp hr
  rw [answer?, Option.bind_eq_some_iff] at hanswer
  obtain ⟨f, hf, hanswer⟩ := hanswer
  rw [formOf?] at hf
  have hhandles := List.find?_some hf
  cases f with
  | memberChain =>
    obtain ⟨names, hnames, -⟩ := Option.bind_eq_some_iff.mp hanswer
    exact Or.inl (.of_segments? hnames)
  | identifier =>
    simp only [Form.handles, Bool.or_eq_true, Bool.and_eq_true, decide_eq_true_eq] at hhandles
    rcases hhandles with ⟨hkind, -⟩ | hkind
    · exact Or.inl (.word (by rw [hkind]; rfl))
    · exact Or.inr (Or.inl hkind)
  | typeofOperand =>
    simp only [Form.handles, Bool.and_eq_true, decide_eq_true_eq] at hhandles
    obtain ⟨name, hname, -⟩ := Option.bind_eq_some_iff.mp hanswer
    exact Or.inr (Or.inr ⟨hhandles.1, hhandles.2, Site.Static.of_typeofName? hname⟩)

theorem replacement?_of_isCandidate_eq_false (h : s.isCandidate = false) :
    p.replacement? src s = none := by
  rw [Option.eq_none_iff_forall_ne_some]
  intro r hr
  rw [isCandidate_of_replacement? hr] at h
  simp at h

/-- A static chain in a place where no literal may stand is no read. -/
theorem replacement?_of_isWritten (hstatic : c.Static src) (h : c.isWritten = true) :
    p.replacement? src c = none := by
  have hshorthand : c.kind ≠ .shorthandPropertyIdentifier := hstatic.kind_ne rfl
  have hunary : c.kind ≠ .unaryExpression := hstatic.kind_ne rfl
  apply replacement?_of_isCandidate_eq_false
  rw [Site.isCandidate, List.any_eq_false]
  intro f _
  cases f <;> simp [Form.handles, h, hshorthand, hunary]

/-- Replacements come from defines. -/
theorem isEmpty_of_replacement? {r : Replacement} (hr : p.replacement? src s = some r) :
    p.table.defines.isEmpty = false := by
  obtain ⟨name, -, hanswer⟩ := answerFor?_of_answer? (replacement?_eq_some_iff.mp hr).2
  obtain ⟨hpath, -⟩ := Value.answerFor?_eq_some_iff.mp hanswer
  cases hd : p.table.defines.isEmpty with
  | false => rfl
  | true =>
    rw [Defines.isEmpty, List.isEmpty_iff] at hd
    rw [Defines.root, hd, Value.firstPath?, Value.enumerate_object] at hpath
    simp at hpath

/-- An expression around a node that no edit holds is free. -/
theorem free_of_mem_within (hw : t.WellFormed src) (hs : s ∈ Site.list t) (hin : c ∈ s.within)
    (hnone : ∀ e ∈ edits.toList, ¬(e.start ≤ c.tree.start ∧ c.tree.stop ≤ e.stop)) :
    Free edits s := by
  rintro - e he ⟨hstart, hstop⟩
  have hrange := hw.range_of_mem_within hs hin
  exact hnone e he ⟨by omega, by omega⟩

/-- An edit has the range of a node in which something has a replacement. -/
theorem Sound.exists_read_within (h : p.Sound src t edits) {e : Edit} (he : e ∈ edits.toList) :
    ∃ x ∈ Site.list t, e.start = x.tree.start ∧ e.stop = x.tree.stop ∧
      ∃ q ∈ x.within, ∃ r, p.replacement? src q = some r := by
  cases h.made e he with
  | @substitution x r mem hout =>
    exact ⟨x, mem, rfl, rfl, x, Site.mem_within_self x, r, hout.found⟩
  | @folding x q r _ _ mem _ holds hout =>
    exact ⟨x, mem, rfl, rfl, q, holds, r, hout.found⟩

/-! ## What is apart from all edits -/

/-- A node that no edit holds is apart from all edits if and only if nothing in it has a
    replacement. -/
theorem apart_iff_replacement?_within (hw : t.WellFormed src) (hs : s ∈ Site.list t)
    (hnone : ∀ e ∈ (p.edits src t).toList, ¬(e.start ≤ s.tree.start ∧ s.tree.stop ≤ e.stop)) :
    (∀ e ∈ (p.edits src t).toList, e.stop ≤ s.tree.start ∨ s.tree.stop ≤ e.start) ↔
      ∀ q ∈ s.within, p.replacement? src q = none := by
  have hsound := sound_edits (p := p) hw
  constructor
  · intro hapart q hq
    rw [Option.eq_none_iff_forall_ne_some]
    intro r hr
    -- Some edit covers the read, and so has bytes in common with the node.
    have hqlist := Site.mem_list_of_mem_within hs hq
    have hsolid := solid_of_replacement? hw hqlist hr
    have hrange := hw.range_of_mem_within hs hq
    obtain ⟨e, he, hstart, hstop⟩ := (hsound.disjoint.covers_iff hsolid).mp
      (covers_edits hw (isEmpty_of_replacement? hr) hqlist hr)
    rcases hapart e he with hbefore | hbehind <;> omega
  · intro hall e he
    obtain ⟨x, hx, hstart, hstop, q, hq, r, hr⟩ := hsound.exists_read_within he
    rcases hw.nested_or_apart hs hx with hnest | hnest | hapart | hapart
    · rw [hall q (Site.within_trans hnest hq)] at hr
      simp at hr
    · have hrange := hw.range_of_mem_within hx hnest
      exact absurd ⟨by omega, by omega⟩ (hnone e he)
    · exact Or.inr (by omega)
    · exact Or.inl (by omega)

/-- What is apart from all edits is kept. -/
theorem keeps_iff_apart (hw : t.WellFormed src) (hs : s ∈ Site.list t) {code : String}
    (hsplice : (p.edits src t).splice? src = some code) :
    (⟨code, (p.edits src t).toList⟩ : Outcome).Keeps src s ↔
      ∀ e ∈ (p.edits src t).toList, e.stop ≤ s.tree.start ∨ s.tree.stop ≤ e.start := by
  constructor
  · exact Outcome.Keeps.apart
  · intro hapart
    refine ⟨hapart, ?_⟩
    rw [EditSet.splice?, Option.map_eq_some_iff] at hsplice
    obtain ⟨cs, hcs, rfl⟩ := hsplice
    rw [EditSet.spliceFrom?_eq_spliceBetween?] at hcs
    have hmid := Source.slice?_eq_some_iff.mp (hw s hs).slice?_eq_text
    have hfin := (Source.isBoundary_stop_of_chars? hmid).le_size
    obtain ⟨pre, post, front, back, hedits, hfront, hback, rfl⟩ :=
      EditSet.exists_spliceBetween?_of_apart hmid hapart (Nat.zero_le _) hfin hcs
    exact ⟨pre, post, front, back, hedits, hfront, hback, String.toList_ofList⟩

end Pass

/-! ## Nodes without value -/

namespace Site

/-- A node that has no value whatever its parts have, and is neither an aside nor a part of a
    literal: something in it is a read or a part of a chain. -/
structure Unvalued (src : Source) (y : Site) : Prop where
  valueless : ∀ f, valueByKind? src f y.tree = none
  part : y.isAside = false
  holds : ∃ q ∈ y.within, ¬q.isPlain = true

/-- A node without value that is plain itself. No edit is made of a node around it. -/
structure Wall (src : Source) (y : Site) : Prop extends y.Unvalued src where
  plain : y.isPlain = true

/-- A plain node that has no value and holds a read or a part of a chain is a wall. -/
theorem Wall.of_not_isPlain {src : Source} {y q : Site} (hplain : y.isPlain = true)
    (hvalueless : ∀ f, valueByKind? src f y.tree = none) (hq : q ∈ y.within)
    (hnot : ¬q.isPlain = true) : y.Wall src := by
  refine ⟨⟨hvalueless, ?_, q, hq, hnot⟩, hplain⟩
  cases haside : y.isAside with
  | false => rfl
  | true =>
    rw [eq_of_mem_within_of_isAside haside hq] at hnot
    exact absurd hplain hnot

section Around

variable {p : Pass} {src : Source} {t : Tree} {edits : EditSet} {x y : Site}

/-- Whatever lies around a node without value has none either, unless an edit holds the node. -/
theorem Unvalued.evaluateWithin?_eq_none (hy : y.Unvalued src) (hw : t.WellFormed src)
    (hg : t.Regular src) (hk : t.Chained) (h : p.Sound src t edits)
    (hnone : ∀ e ∈ edits.toList, ¬(e.start ≤ y.tree.start ∧ y.tree.stop ≤ e.stop))
    (hx : x ∈ Site.list t) (hin : y ∈ x.within) (depth : Nat) :
    evaluateWithin? src edits depth x.tree = none := by
  induction depth generalizing x with
  | zero => rfl
  | succ depth ih =>
    rw [Option.eq_none_iff_forall_ne_some]
    intro v hv
    cases hmatch : edits.matching? x.tree.start x.tree.stop with
    | some e =>
      obtain ⟨he, hstart, hstop⟩ := EditSet.matching?_eq_some_iff.mp hmatch
      have hrange := hw.range_of_mem_within hx hin
      exact hnone e he ⟨by omega, by omega⟩
    | none =>
      obtain ⟨hvalue, -⟩ := (evaluateWithin?_eq_some_iff hmatch).mp hv
      rcases mem_within_iff.mp hin with rfl | ⟨d, hd, hyd⟩
      · rw [hy.valueless] at hvalue
        simp at hvalue
      have hfree := Pass.free_of_mem_within hw hx hin hnone
      rcases h.literal_or_parts hw hg hx hfree hvalue with hliteral | ⟨-, hparts⟩
      · obtain ⟨q, hq, hnot⟩ := hy.holds
        exact hnot ((hk x hx).literal hliteral q (within_trans hin hq))
      · -- The part that the node lies in is no aside, and would have a value of its own.
        rcases hparts d hd with haside | ⟨w, hw'⟩
        · have hself := hy.part
          rw [eq_of_mem_within_of_isAside haside hyd, haside] at hself
          simp at hself
        · rw [ih (mem_list_of_mem_within hx (mem_within_of_mem_below hd)) hyd] at hw'
          simp at hw'

/-- A fold is made of a binary expression that has no such node in it. -/
theorem Unvalued.exists_of_isFold (hy : y.Unvalued src) (hw : t.WellFormed src)
    (hg : t.Regular src) (hk : t.Chained)
    (hnone : ∀ e ∈ ((p.withFold false).edits src t).toList,
      ¬(e.start ≤ y.tree.start ∧ y.tree.stop ≤ e.stop))
    {e : Edit} (he : e ∈ (p.edits src t).toList) (hfold : e.isFold = true) :
    ∃ x ∈ Site.list t, x.kind = .binaryExpression ∧ e.start = x.tree.start ∧
      e.stop = x.tree.stop ∧ y ∉ x.within := by
  obtain ⟨x, hx, hbinary, v, rfl, depth, hvalue⟩ := Pass.faithful_edits hw hg e he hfold
  refine ⟨x, hx, hbinary, rfl, rfl, fun hin => ?_⟩
  have hnovalue := hy.evaluateWithin?_eq_none hw hg hk (Pass.sound_edits hw) hnone hx hin depth
  rw [hvalue depth (Nat.le_refl depth)] at hnovalue
  simp at hnovalue

/-- A node without value is not empty, since reads and the parts of chains are not. -/
theorem Unvalued.solid (hy : y.Unvalued src) (hw : t.WellFormed src) (hk : t.Chained)
    (hmem : y ∈ Site.list t) : y.tree.start < y.tree.stop := by
  obtain ⟨q, hq, hnot⟩ := hy.holds
  have hqlist := mem_list_of_mem_within hmem hq
  have hrange := hw.range_of_mem_within hmem hq
  have hsolid : q.tree.start < q.tree.stop := by
    cases hcandidate : q.isCandidate with
    | true => exact (hw q hqlist).solid hcandidate
    | false =>
      cases hchain : q.kind.isChain with
      | true => exact (hk q hqlist).solid hchain
      | false => exact absurd (by rw [isPlain, hcandidate, hchain]; rfl) hnot
  omega

/-- A static chain does not reach across a wall. -/
theorem Wall.not_mem_within_static (hy : y.Wall src) (hk : t.Chained) (hx : x ∈ Site.list t)
    (hstatic : x.Static src) : y ∉ x.within := by
  intro hin
  obtain ⟨q, hq, hnot⟩ := hy.holds
  -- What is not plain in the wall would be a beginning of the chain, and the wall one too.
  rcases hstatic.beginsWith_or_plain (hk.within hx) (within_trans hin hq) with hbegins | hplain
  · rcases mem_within_or_ancestor hq with rfl | haround
    · exact hnot hy.plain
    · rcases hbegins.ancestors haround with habove | ⟨hxy, -, -⟩
      · have hlt := level_lt_of_mem_ancestors habove
        have hle := level_le_of_mem_within hin
        omega
      · exact (hstatic.of_beginsWith (hk.within hx) hxy).not_isPlain hy.plain
  · exact hnot hplain

/-- A read with an answer has no wall in it. -/
theorem Wall.not_mem_within (hy : y.Wall src) (hg : t.Regular src) (hk : t.Chained)
    (hx : x ∈ Site.list t) {r : Replacement} (hr : p.replacement? src x = some r) :
    y ∉ x.within := by
  intro hin
  have hne : y ≠ x := by
    rintro rfl
    have hplain := hy.plain
    simp [isPlain, Pass.isCandidate_of_replacement? hr] at hplain
  rcases Pass.read_of_replacement? hr with hstatic | hkind | ⟨hkind, -, z, hz, hstatic⟩
  · exact hy.not_mem_within_static hk hx hstatic hin
  · exact hne ((hk x hx).eq_of_mem_within (Or.inr hkind) hin)
  · rcases mem_within_iff.mp hin with heq | ⟨d, hd, hyd⟩
    · exact hne heq
    rcases (hg x hx).argument hkind d hd with haside | hfills
    · have hpart := hy.part
      rw [eq_of_mem_within_of_isAside haside hyd, haside] at hpart
      simp at hpart
    · -- The operand whose type is asked for is a static chain.
      obtain ⟨hmem, hzfills⟩ := mem_below_of_child? hz
      obtain rfl := eq_of_length_filter_le_one ((hg x hx).holder
        (by simp [hkind, Kind.isComposite]) .argument (by simp)) hd hmem hfills hzfills
      exact hy.not_mem_within_static hk
        (mem_list_of_mem_within hx (mem_within_of_mem_below hd)) hstatic hyd

/-- Every edit is made of a node that has no wall in it, if the wall has a sign of its own. -/
theorem Wall.exists_of_mem_edits (hy : y.Wall src) (hw : t.WellFormed src) (hg : t.Regular src)
    (hk : t.Chained) (hsigned : t.Signed) (hmem : y ∈ Site.list t)
    (hkind : y.kind.isSigned = true) {e : Edit} (he : e ∈ (p.edits src t).toList) :
    ∃ x ∈ Site.list t, e.start = x.tree.start ∧ e.stop = x.tree.stop ∧
      (e.isFold = true → x.kind = .binaryExpression) ∧ y ∉ x.within := by
  cases hfold : e.isFold with
  | false =>
    obtain ⟨x, hx, r, hr, rfl⟩ := Pass.exists_read_of_mem_edits he hfold
    exact ⟨x, hx, rfl, rfl, fun h => absurd h (by simp), hy.not_mem_within hg hk hx hr⟩
  | true =>
    have hnone : ∀ e ∈ ((p.withFold false).edits src t).toList,
        ¬(e.start ≤ y.tree.start ∧ y.tree.stop ≤ e.stop) := by
      rintro e he ⟨hstart, hstop⟩
      cases (Pass.sound_edits (p := p.withFold false) hw).made e he with
      | folding enabled _ _ _ _ => simp [Pass.withFold] at enabled
      | @substitution x r hx hout =>
        simp only [substitution_start, substitution_stop] at hstart hstop
        have houter := hy.not_mem_within hg hk hx hout.found
        have hsolid := hy.solid hw hk hmem
        -- A read over the whole of the wall would lie around it, or in one of its parts.
        rcases hw.nested_or_apart hmem hx with hnest | hnest | hapart | hapart
        · rcases mem_within_iff.mp hnest with rfl | ⟨d, hd, hxd⟩
          · exact houter (mem_within_self x)
          · have hrange := hw.range_of_mem_within
              (mem_list_of_mem_within hmem (mem_within_of_mem_below hd)) hxd
            exact hsigned y hmem hkind d hd ⟨by omega, by omega⟩
        · exact houter hnest
        · omega
        · omega
    obtain ⟨x, hx, hbinary, hstart, hstop, hyx⟩ :=
      hy.toUnvalued.exists_of_isFold hw hg hk hnone he hfold
    exact ⟨x, hx, hstart, hstop, fun _ => hbinary, hyx⟩

/-- No node around a wall has an answer, and neither has the wall. -/
theorem Wall.replacement?_eq_none (hy : y.Wall src) (hg : t.Regular src) (hk : t.Chained)
    (hmem : y ∈ Site.list t) {a : Site} (ha : a = y ∨ a ∈ y.ancestors) :
    p.replacement? src a = none := by
  rw [Option.eq_none_iff_forall_ne_some]
  intro r hr
  rcases ha with rfl | ha
  · exact hy.not_mem_within hg hk hmem hr (mem_within_self a)
  · obtain ⟨hlist, hin⟩ := mem_list_of_ancestor hmem ha
    exact hy.not_mem_within hg hk hlist hr hin

end Around

end Site

/-! ## Chains without an answer -/

namespace Pass

/-- A static chain of a tree without an answer, where no node around it has one and either it or
    the node right around it has no value. -/
structure Unanswered (p : Pass) (src : Source) (t : Tree) (c : Site) : Prop where
  mem : c ∈ Site.list t
  static : c.Static src
  silent : p.replacement? src c = none
  alone : ∀ a ∈ c.ancestors, p.replacement? src a = none
  unvalued : ∃ y : Site, (y = c ∨ c ∈ y.below) ∧ y.Unvalued src

namespace Unanswered

variable {p : Pass} {src : Source} {t : Tree} {c : Site}

/-- A static chain right in a wall has no answer if no literal may stand in its place. -/
theorem of_wall {y : Site} (hy : y.Wall src) (hg : t.Regular src) (hk : t.Chained)
    (hmem : y ∈ Site.list t) (hc : c ∈ y.below) (hstatic : c.Static src)
    (hwritten : c.isWritten = true) : p.Unanswered src t c := by
  have hclist := Site.mem_list_of_mem_within hmem (Site.mem_within_of_mem_below hc)
  refine ⟨hclist, hstatic, replacement?_of_isWritten hstatic hwritten, ?_, y, Or.inr hc,
    hy.toUnvalued⟩
  intro a ha
  rw [Site.ancestors_of_mem_below hc, List.mem_cons] at ha
  exact hy.replacement?_eq_none hg hk hmem ha

/-- No read with an answer has the range of the chain in its own. -/
theorem not_holds_of_replacement? (hc : p.Unanswered src t c) (hw : t.WellFormed src)
    (hk : t.Chained) {x : Site} (hx : x ∈ Site.list t) {r : Replacement}
    (hr : p.replacement? src x = some r) :
    ¬(x.tree.start ≤ c.tree.start ∧ c.tree.stop ≤ x.tree.stop) := by
  rintro ⟨hstart, hstop⟩
  have hin := hk.mem_within_of_holds hw hc.mem hc.static hx hstart hstop
  rcases Site.mem_within_or_ancestor hin with rfl | haround
  · rw [hc.silent] at hr
    simp at hr
  · rw [hc.alone x haround] at hr
    simp at hr

/-- No edit holds the whole of the chain. -/
theorem not_holds_edits (hc : p.Unanswered src t c) (hw : t.WellFormed src)
    (hg : t.Regular src) (hk : t.Chained) {e : Edit} (he : e ∈ (p.edits src t).toList) :
    ¬(e.start ≤ c.tree.start ∧ c.tree.stop ≤ e.stop) := by
  obtain ⟨y, hplace, hy⟩ := hc.unvalued
  have hylist : y ∈ Site.list t ∧ c ∈ y.within := by
    rcases hplace with rfl | hbelow
    · exact ⟨hc.mem, Site.mem_within_self y⟩
    · apply Site.mem_list_of_ancestor hc.mem
      rw [Site.ancestors_of_mem_below hbelow]
      exact List.mem_cons_self
  have hrange := hw.range_of_mem_within hylist.1 hylist.2
  have hnone : ∀ x ∈ ((p.withFold false).edits src t).toList,
      ¬(x.start ≤ y.tree.start ∧ y.tree.stop ≤ x.stop) := by
    rintro x hx ⟨hstart, hstop⟩
    cases (sound_edits (p := p.withFold false) hw).made x hx with
    | substitution mem hout =>
      simp only [Site.substitution_start, Site.substitution_stop] at hstart hstop
      exact hc.not_holds_of_replacement? hw hk mem hout.found ⟨by omega, by omega⟩
    | folding enabled _ _ _ _ => simp [withFold] at enabled
  cases hfold : e.isFold with
  | false =>
    obtain ⟨s, hs, r, hr, rfl⟩ := exists_read_of_mem_edits he hfold
    exact hc.not_holds_of_replacement? hw hk hs hr
  | true =>
    obtain ⟨x, hx, hbinary, hxstart, hxstop, hyx⟩ := hy.exists_of_isFold hw hg hk hnone he hfold
    rw [hxstart, hxstop]
    rintro ⟨hstart, hstop⟩
    have hin := hk.mem_within_of_holds hw hc.mem hc.static hx hstart hstop
    -- The expression lies around the chain, and so around the node without value.
    rcases hplace with rfl | hbelow
    · exact hyx hin
    rcases Site.mem_within_or_ancestor hin with rfl | haround
    · exact hc.static.kind_ne rfl hbinary
    · rw [Site.ancestors_of_mem_below hbelow] at haround
      rcases List.mem_cons.mp haround with rfl | haround
      · exact hyx (Site.mem_within_self x)
      · exact hyx (Site.mem_list_of_ancestor hylist.1 haround).2

/-- Nothing in the chain has a replacement if none of its shorter beginnings has one. -/
theorem replacement?_within_iff (hc : p.Unanswered src t c) (hk : t.Chained) :
    (∀ q ∈ c.within, p.replacement? src q = none) ↔
      ∀ q, c.BeginsWith q → q ≠ c → p.replacement? src q = none := by
  constructor
  · intro hall q hbegins _
    exact hall q hbegins.mem_within
  · intro hshorter q hq
    rcases hc.static.beginsWith_or_plain (hk.within hc.mem) hq with hbegins | hplain
    · by_cases heq : q = c
      · rw [heq, hc.silent]
      · exact hshorter q hbegins heq
    · simp only [Site.isPlain, Bool.and_eq_true, Bool.not_eq_true'] at hplain
      exact replacement?_of_isCandidate_eq_false hplain.1

/-- The chain is kept if and only if none of its shorter beginnings has a replacement. -/
theorem keeps_iff (hc : p.Unanswered src t c) (hw : t.WellFormed src) (hg : t.Regular src)
    (hk : t.Chained) {code : String} (hsplice : (p.edits src t).splice? src = some code) :
    (⟨code, (p.edits src t).toList⟩ : Outcome).Keeps src c ↔
      ∀ q, c.BeginsWith q → q ≠ c → p.replacement? src q = none := by
  rw [keeps_iff_apart hw hc.mem hsplice,
    apart_iff_replacement?_within hw hc.mem fun e he => hc.not_holds_edits hw hg hk he]
  exact hc.replacement?_within_iff hk

/-- The longest beginning of the chain that has a replacement is replaced. -/
theorem substitution_mem (hc : p.Unanswered src t c) (hw : t.WellFormed src)
    (hg : t.Regular src) (hk : t.Chained) {q : Site} {r : Replacement} (hbegins : c.BeginsWith q)
    (hr : p.replacement? src q = some r)
    (hlonger : ∀ x, c.BeginsWith x → x.BeginsWith q → x ≠ q → p.replacement? src x = none) :
    q.substitution src r ∈ (p.edits src t).toList := by
  have hq : q ∈ Site.list t := Site.mem_list_of_mem_within hc.mem hbegins.mem_within
  have hout : p.Outermost src q r := by
    refine ⟨hr, fun a ha => ?_⟩
    rcases hbegins.ancestors ha with ha | ⟨hca, haq, hne⟩
    · exact hc.alone a ha
    · exact hlonger a hca haq hne
  have hd := isEmpty_of_replacement? hr
  rcases substitution_mem_or_fold hw hd hq hout with hmem | ⟨e, he, hfold, hin⟩
  · exact hmem
  exfalso
  -- A fold in its place would be that of a binary expression around it, and around the chain too.
  obtain ⟨x, hx, hbinary, v, rfl, -⟩ := faithful_edits hw hg e he hfold
  have hstatic := hc.static.of_beginsWith (hk.within hc.mem) hbegins
  rcases Site.mem_within_or_ancestor (hk.mem_within_of_holds hw hq hstatic hx hin.1 hin.2) with
    rfl | haround
  · exact hstatic.kind_ne rfl hbinary
  · rcases hbegins.ancestors haround with haround | ⟨hcx, -, -⟩
    · have hrange := hw.range_of_mem_within hx (Site.mem_list_of_ancestor hc.mem haround).2
      exact hc.not_holds_edits hw hg hk he hrange
    · exact (hc.static.of_beginsWith (hk.within hc.mem) hcx).kind_ne rfl hbinary

end Unanswered

end Pass
end DefineFold
