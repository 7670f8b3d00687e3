/-
  DefineFold.Proofs.Pass.Folding

  Folding while walking, against substituting everything first. A fold is made in the middle of
  the walk, when some reads are replaced, some are still to come, and earlier folds have taken
  the place of the substitutions that they used. The edits of the two passes are compared at
  that moment: what has a value then has replaced reads only (`Sound.settled_of_evaluateWithin?`),
  and has the same value when all reads of the tree are replaced and nothing is folded
  (`Faithful.evaluates_of_evaluateWithin?`). Both go by induction on how deep one looks, with
  `Free` as what is known of the expression around: no edit holds the whole of it.
-/

import DefineFold.Proofs.Pass.Evaluation
import DefineFold.Proofs.Pass.Outermost

namespace DefineFold
namespace Pass

/-- No edit holds the whole of a node, an empty node apart. -/
def Free (edits : EditSet) (s : Site) : Prop :=
  s.tree.start < s.tree.stop →
    ∀ e ∈ edits.toList, ¬(e.start ≤ s.tree.start ∧ s.tree.stop ≤ e.stop)

section Nodes

variable {p : Pass} {src : Source} {t : Tree} {edits : EditSet} {s c : Site}

/-! ## Edits inside a free node -/

/-- An edit that holds a part of a free node is that of a node in the part. -/
theorem mem_within_of_holds (hw : t.WellFormed src) (hs : s ∈ Site.list t)
    (hfree : Free edits s) (hc : c ∈ s.below) (hsolid : c.tree.start < c.tree.stop) {e : Edit}
    (he : e ∈ edits.toList) (hstart : e.start ≤ c.tree.start) (hstop : c.tree.stop ≤ e.stop)
    {q : Site} (hq : q ∈ Site.list t) (hqstart : e.start = q.tree.start)
    (hqstop : e.stop = q.tree.stop) : q ∈ c.within := by
  have hclist := Site.mem_list_of_mem_within hs (Site.mem_within_of_mem_below hc)
  have hcs := (hw s hs).below_inside hc
  -- The edit cannot hold the free node itself.
  have hnot : s ∉ q.within := by
    intro hin
    have hrange := hw.range_of_mem_within hq hin
    exact hfree (by omega) e he ⟨by omega, by omega⟩
  rcases hw.nested_or_apart hclist hq with hnest | hnest | hapart | hapart
  · exact hnest
  · rcases Site.mem_within_or_ancestor hnest with rfl | haround
    · exact Site.mem_within_self c
    · rw [Site.ancestors_of_mem_below hc] at haround
      rcases List.mem_cons.mp haround with rfl | haround
      · exact absurd (Site.mem_within_self q) hnot
      · exact absurd (Site.mem_list_of_ancestor hs haround).2 hnot
  · omega
  · omega

/-- A part of a free node that no edit stands for is free. -/
theorem Sound.free_of_matching?_eq_none (h : p.Sound src t edits) (hw : t.WellFormed src)
    (hs : s ∈ Site.list t) (hfree : Free edits s) (hc : c ∈ s.below)
    (hnone : edits.matching? c.tree.start c.tree.stop = none) : Free edits c := by
  rintro hsolid e he ⟨hstart, hstop⟩
  obtain ⟨q, hq, hqstart, hqstop, -⟩ := (h.made e he).exists_site
  have hin := mem_within_of_holds hw hs hfree hc hsolid he hstart hstop hq hqstart hqstop
  have hclist := Site.mem_list_of_mem_within hs (Site.mem_within_of_mem_below hc)
  have hrange := hw.range_of_mem_within hclist hin
  exact EditSet.matching?_eq_none_iff.mp hnone e he ⟨by omega, by omega⟩

/-- No edit stands for an aside in a free node. -/
theorem Sound.matching?_of_isAside (h : p.Sound src t edits) (hw : t.WellFormed src)
    (hs : s ∈ Site.list t) (hfree : Free edits s) (hc : c ∈ s.below) (haside : c.isAside = true)
    (hkind : c.kind ≠ .binaryExpression) :
    edits.matching? c.tree.start c.tree.stop = none := by
  rw [EditSet.matching?_eq_none_iff]
  rintro e he ⟨hstart, hstop⟩
  have hesolid := h.disjoint.solid e he
  have heq : ∀ q ∈ Site.list t, e.start = q.tree.start → e.stop = q.tree.stop → q = c := by
    intro q hq hqstart hqstop
    exact Site.eq_of_mem_within_of_isAside haside (mem_within_of_holds hw hs hfree hc
      (by omega) he (by omega) (by omega) hq hqstart hqstop)
  cases h.made e he with
  | substitution mem hout =>
    obtain rfl := heq _ mem rfl rfl
    have hnone := Site.not_isCandidate_of_isAside haside (Site.mem_within_self _)
    exact absurd hout (not_outermost_of_isCandidate_eq_false hnone)
  | folding _ mem binary _ _ =>
    obtain rfl := heq _ mem rfl rfl
    exact hkind binary

/-- Every edit is apart from a read that is free: the reads in it are not outermost. -/
theorem Sound.apart_of_free (h : p.Sound src t edits) (hw : t.WellFormed src)
    (hs : s ∈ Site.list t) (hfree : Free edits s) {r : Replacement}
    (hr : p.replacement? src s = some r) {e : Edit} (he : e ∈ edits.toList) :
    e.stop ≤ s.tree.start ∨ s.tree.stop ≤ e.start := by
  have hsolid := solid_of_replacement? hw hs hr
  have hhold : ∀ q ∈ Site.list t, e.start = q.tree.start → e.stop = q.tree.stop →
      s ∉ q.within := by
    intro q hq hqstart hqstop hin
    have hrange := hw.range_of_mem_within hq hin
    exact hfree hsolid e he ⟨by omega, by omega⟩
  cases h.made e he with
  | @substitution q r' mem hout =>
    rcases hw.nested_or_apart hs mem with hnest | hnest | hapart | hapart
    · obtain rfl := hout.eq_of_mem_within hr hnest
      exact absurd (Site.mem_within_self _) (hhold _ mem rfl rfl)
    · exact absurd hnest (hhold _ mem rfl rfl)
    · exact Or.inr hapart
    · exact Or.inl hapart
  | @folding q x r' value _ mem _ holds hout =>
    rcases hw.nested_or_apart hs mem with hnest | hnest | hapart | hapart
    · obtain rfl := hout.eq_of_mem_within hr (Site.within_trans hnest holds)
      exact absurd holds (hhold _ mem rfl rfl)
    · exact absurd hnest (hhold _ mem rfl rfl)
    · exact Or.inr hapart
    · exact Or.inl hapart

/-! ## Which nodes have values -/

/-- Neither a parenthesised nor a binary expression is a read. -/
theorem not_isCandidate_of_kind
    (h : s.kind = .parenthesizedExpression ∨ s.kind = .binaryExpression) :
    s.isCandidate = false := by
  rcases h with h | h <;> simp [Site.isCandidate, Form.all, Form.handles, h]

/-- A unary expression is replaced only if it asks for the type of a name or an access. -/
theorem argument_of_replacement? {r : Replacement} (hkind : s.kind = .unaryExpression)
    (hr : p.replacement? src s = some r) :
    ∃ x, s.tree.child? .argument = some x ∧
      (x.kind = .identifier ∨ x.kind = .memberExpression ∨ x.kind = .subscriptExpression) := by
  obtain ⟨-, hanswer⟩ := replacement?_eq_some_iff.mp hr
  rw [answer?, Option.bind_eq_some_iff] at hanswer
  obtain ⟨f, hf, hanswer⟩ := hanswer
  rw [formOf?] at hf
  have hhandles := List.find?_some hf
  -- The other forms do not handle unary expressions.
  have hform : f = .typeofOperand := by
    cases f <;> simp [Form.handles, hkind] at hhandles ⊢
  rw [hform, Form.answer?, Option.bind_eq_some_iff] at hanswer
  obtain ⟨name, hname, -⟩ := hanswer
  rw [Tree.typeofName?] at hname
  cases hx : s.tree.child? .argument with
  | none => simp [hx] at hname
  | some x =>
    refine ⟨x, rfl, ?_⟩
    simp only [hx] at hname
    split at hname
    case h_1 hkind => exact Or.inl hkind
    case h_2 hkind => exact Or.inr (Or.inl hkind)
    case h_3 hkind => exact Or.inr (Or.inr hkind)
    case h_4 => simp at hname

/-- A name or an access that no edit stands for has no value. -/
theorem evaluateWithin?_of_read (depth : Nat) (hregular : c.Regular src)
    (hnone : edits.matching? c.tree.start c.tree.stop = none)
    (hkind : c.kind = .identifier ∨ c.kind = .memberExpression ∨ c.kind = .subscriptExpression) :
    evaluateWithin? src edits depth c.tree = none := by
  cases depth with
  | zero => rfl
  | succ depth =>
    rw [Option.eq_none_iff_forall_ne_some]
    intro v hv
    obtain ⟨hvalue, -⟩ := (evaluateWithin?_eq_some_iff hnone).mp hv
    rw [valueByKind?] at hvalue
    rcases hkind with hkind | hkind | hkind
    · have hname := hregular.name hkind
      simp only [Site.kind] at hkind
      simp [hkind, hname] at hvalue
    · simp only [Site.kind] at hkind
      simp [hkind] at hvalue
    · simp only [Site.kind] at hkind
      simp [hkind] at hvalue

/-- A part of a free node that is no mere token and has a value is no aside: comments have no
    values, and no edit stands for them. -/
theorem Sound.not_isAside_of_evaluateWithin? (h : p.Sound src t edits) (hw : t.WellFormed src)
    (hs : s ∈ Site.list t) (hfree : Free edits s) (hc : c ∈ s.below)
    (hnamed : c.tree.head.named = true) {depth : Nat} {v : Primitive}
    (hv : evaluateWithin? src edits depth c.tree = some v) : c.isAside = false := by
  cases haside : c.isAside with
  | false => rfl
  | true =>
    exfalso
    have hcomment : c.kind.isComment = true := by
      simp only [Site.isAside, Bool.and_eq_true, Bool.or_eq_true, Bool.not_eq_true'] at haside
      rcases haside.1.2 with hunnamed | hcomment
      · simp [hnamed] at hunnamed
      · exact hcomment
    obtain ⟨text, htext⟩ : ∃ text, c.kind = .other text := by
      cases hkind : c.kind <;> simp [hkind, Kind.isComment] at hcomment ⊢
    have hnone := h.matching?_of_isAside hw hs hfree hc haside (by simp [htext])
    cases depth with
    | zero => simp [evaluateWithin?] at hv
    | succ depth =>
      obtain ⟨hvalue, -⟩ := (evaluateWithin?_eq_some_iff hnone).mp hv
      simp only [Site.kind] at htext
      simp [valueByKind?, htext] at hvalue

/-! ## A value needs all reads -/

/-- Every read in a node that is to be replaced is covered. -/
def Settled (p : Pass) (src : Source) (edits : EditSet) (s : Site) : Prop :=
  ∀ q ∈ s.within, ∀ r, p.Outermost src q r → edits.covers q.tree.start q.tree.stop = true

/-- A node is settled if it is no read itself and each part of it is an aside or settled. -/
theorem settled_of_below (hself : ∀ r, ¬p.Outermost src s r)
    (hbelow : ∀ c ∈ s.below, c.isAside = true ∨ p.Settled src edits c) :
    p.Settled src edits s := by
  intro q hq r hout
  rcases Site.mem_within_iff.mp hq with rfl | ⟨c, hc, hqc⟩
  · exact absurd hout (hself r)
  · rcases hbelow c hc with haside | hsettled
    · have hnone := Site.not_isCandidate_of_isAside haside hqc
      exact absurd hout (not_outermost_of_isCandidate_eq_false hnone)
    · exact hsettled q hqc r hout

/-- A free unary expression whose operand has a value is no read that is to be replaced: the
    operand of a `typeof` is a name or an access, and has no value as long as no edit stands for
    it. -/
theorem Sound.not_outermost_of_operand (h : p.Sound src t edits) (hw : t.WellFormed src)
    (hg : t.Regular src) (hs : s ∈ Site.list t) (hfree : Free edits s)
    (hkind : s.kind = .unaryExpression) {depth : Nat} {x : Tree} {w : Primitive}
    (hx : s.tree.child? .argument = some x)
    (hxw : evaluateWithin? src edits depth x = some w) {r : Replacement} :
    ¬p.Outermost src s r := by
  intro hout
  obtain ⟨y, hy, hykind⟩ := argument_of_replacement? hkind hout.found
  obtain rfl : x = y := Option.some.inj (hx.symm.trans hy)
  obtain ⟨hmem, -⟩ := Site.mem_below_of_child? hx
  have hrange : s.tree.start ≤ x.start ∧ x.stop ≤ s.tree.stop := (hw s hs).below_inside hmem
  have hnone : edits.matching? x.start x.stop = none := by
    rw [EditSet.matching?_eq_none_iff]
    rintro e he ⟨hstart, hstop⟩
    have hesolid := h.disjoint.solid e he
    rcases h.apart_of_free hw hs hfree hout.found he with hapart | hapart <;> omega
  have hlist := Site.mem_list_of_mem_within hs (Site.mem_within_of_mem_below hmem)
  have hxnone := evaluateWithin?_of_read depth (hg _ hlist) hnone hykind
  rw [hxw] at hxnone
  simp at hxnone

/-- An expression that is free and has a value is a literal, or each part of it is an aside or has
    a value. -/
theorem Sound.literal_or_parts (h : p.Sound src t edits) (hw : t.WellFormed src)
    (hg : t.Regular src) (hs : s ∈ Site.list t) (hfree : Free edits s) {depth : Nat}
    {v : Primitive}
    (hv : valueByKind? src (evaluateWithin? src edits depth) s.tree = some v) :
    s.isLiteral = true ∨ s.kind.isComposite = true ∧ ∀ c ∈ s.below,
      c.isAside = true ∨ ∃ w, evaluateWithin? src edits depth c.tree = some w := by
  have hregular := hg s hs
  -- The part that holds a field is the one that the evaluation looks at.
  have hpart : ∀ f ∈ [Field.argument, Field.left, Field.right], ∀ {x : Tree} {w : Primitive},
      s.kind.isComposite = true → s.tree.child? f = some x →
      evaluateWithin? src edits depth x = some w →
      ∀ c ∈ s.below, c.fills f = true → ∃ w, evaluateWithin? src edits depth c.tree = some w := by
    intro f hplace x w hcomposite hx hxw c hc hfills
    obtain ⟨hmem, hxfills⟩ := Site.mem_below_of_child? hx
    obtain rfl := eq_of_length_filter_le_one (hregular.holder hcomposite f hplace) hc hmem
      hfills hxfills
    exact ⟨w, hxw⟩
  rcases valueByKind?_cases hv with hliteral | ⟨hkind, htext⟩ | ⟨hkind, x, w, hx, hxw⟩ |
    ⟨hkind, x, w, hx, hxw⟩ | ⟨hkind, l, r, a, b, hl, hr, hla, hrb⟩
  · exact Or.inl hliteral
  · exact absurd htext (hregular.name hkind)
  · refine Or.inr ⟨by simp [hkind, Kind.isComposite], fun c hc => ?_⟩
    obtain ⟨hmem, hnamed⟩ := Site.mem_below_of_firstNamed? hx
    have hoperand := h.not_isAside_of_evaluateWithin? hw hs hfree hmem hnamed hxw
    cases haside : c.isAside with
    | true => exact Or.inl rfl
    | false =>
      obtain rfl := eq_of_length_filter_le_one (hregular.inner hkind) hc hmem (by simp [haside])
        (by simp [hoperand])
      exact Or.inr ⟨w, hxw⟩
  · have hcomposite : s.kind.isComposite = true := by simp [hkind, Kind.isComposite]
    exact Or.inr ⟨hcomposite, fun c hc => (hregular.argument hkind c hc).imp_right
      (hpart .argument (by simp) hcomposite hx hxw c hc)⟩
  · have hcomposite : s.kind.isComposite = true := by simp [hkind, Kind.isComposite]
    refine Or.inr ⟨hcomposite, fun c hc => ?_⟩
    rcases hregular.sides hkind c hc with haside | hfills | hfills
    · exact Or.inl haside
    · exact Or.inr (hpart .left (by simp) hcomposite hl hla c hc hfills)
    · exact Or.inr (hpart .right (by simp) hcomposite hr hrb c hc hfills)

/-- A free node with a value is settled if its parts with values are. -/
theorem Sound.settled_of_valueByKind? (h : p.Sound src t edits) (hw : t.WellFormed src)
    (hg : t.Regular src) (hs : s ∈ Site.list t) (hfree : Free edits s) {depth : Nat}
    (hbelow : ∀ c ∈ s.below, ∀ w, evaluateWithin? src edits depth c.tree = some w →
      p.Settled src edits c) {v : Primitive}
    (hv : valueByKind? src (evaluateWithin? src edits depth) s.tree = some v) :
    p.Settled src edits s := by
  have hregular := hg s hs
  rcases h.literal_or_parts hw hg hs hfree hv with hliteral | ⟨-, hparts⟩
  · intro q hq r hout
    have hnone := hregular.literal hliteral q hq
    exact absurd hout (not_outermost_of_isCandidate_eq_false hnone)
  refine settled_of_below (fun r hout => ?_) fun c hc => ?_
  · -- The node itself is no read to be replaced: of the kinds with values, `typeof` alone could be.
    rcases valueByKind?_cases hv with hliteral | ⟨hkind, htext⟩ | ⟨hkind, -⟩ |
      ⟨hkind, x, w, hx, hxw⟩ | ⟨hkind, -⟩
    · have hnone := hregular.literal hliteral s (Site.mem_within_self s)
      exact not_outermost_of_isCandidate_eq_false hnone hout
    · exact hregular.name hkind htext
    · exact not_outermost_of_isCandidate_eq_false (not_isCandidate_of_kind (Or.inl hkind)) hout
    · exact h.not_outermost_of_operand hw hg hs hfree hkind hx hxw hout
    · exact not_outermost_of_isCandidate_eq_false (not_isCandidate_of_kind (Or.inr hkind)) hout
  · rcases hparts c hc with haside | ⟨w, hw'⟩
    · exact Or.inl haside
    · exact Or.inr (hbelow c hc w hw')

/-- A part of a free node that has a value is settled. -/
theorem Sound.settled_of_evaluateWithin? (h : p.Sound src t edits) (hw : t.WellFormed src)
    (hg : t.Regular src) (hs : s ∈ Site.list t) (hfree : Free edits s) (hc : c ∈ s.below)
    {depth : Nat} {v : Primitive} (hv : evaluateWithin? src edits depth c.tree = some v) :
    p.Settled src edits c := by
  induction depth generalizing s c v with
  | zero => simp [evaluateWithin?] at hv
  | succ depth ih =>
    have hclist := Site.mem_list_of_mem_within hs (Site.mem_within_of_mem_below hc)
    cases hmatch : edits.matching? c.tree.start c.tree.stop with
    | some e =>
      -- The edit that stands for the part covers everything in it.
      obtain ⟨he, hstart, hstop⟩ := EditSet.matching?_eq_some_iff.mp hmatch
      intro q hq r hout
      have hrange := hw.range_of_mem_within hclist hq
      have hqlist := Site.mem_list_of_mem_within hclist hq
      rw [h.disjoint.covers_iff (solid_of_replacement? hw hqlist hout.found)]
      exact ⟨e, he, by omega, by omega⟩
    | none =>
      -- The part is free in its turn, and one level less is left for its own parts.
      have hcfree := h.free_of_matching?_eq_none hw hs hfree hc hmatch
      obtain ⟨hvalue, -⟩ := (evaluateWithin?_eq_some_iff hmatch).mp hv
      exact h.settled_of_valueByKind? hw hg hclist hcfree
        (fun d hd w hw' => ih hclist hcfree hd hw') hvalue

end Nodes

/-! ## Values against substitutions alone -/

/-- The pass with folding turned on or off. -/
def withFold (p : Pass) (fold : Bool) : Pass :=
  { p with fold := fold }

/-- The edits without folding are the substitutions of the outermost reads, which do not depend
    on whether the pass folds. -/
theorem mem_edits_withFold_false {p : Pass} {src : Source} {t : Tree} (hw : t.WellFormed src)
    (hd : p.table.defines.isEmpty = false) {e : Edit} :
    e ∈ ((p.withFold false).edits src t).toList ↔
      ∃ s ∈ Site.list t, ∃ r, p.Outermost src s r ∧ e = s.substitution src r := by
  rw [edits_eq_outermost (p := p.withFold false) hw hd rfl, List.mem_filterMap]
  constructor
  · rintro ⟨s, hs, he⟩
    obtain ⟨r, hout, rfl⟩ := outermostEdit?_eq_some_iff.mp he
    exact ⟨s, hs, r, ⟨hout.found, hout.alone⟩, rfl⟩
  · rintro ⟨s, hs, r, hout, rfl⟩
    exact ⟨s, hs, outermostEdit?_eq_some_iff.mpr ⟨r, ⟨hout.found, hout.alone⟩, rfl⟩⟩

/-- Every fold among the edits is that of a binary expression, for the value that the expression
    has when all reads are replaced and nothing is folded. -/
def Faithful (p : Pass) (src : Source) (t : Tree) (edits : EditSet) : Prop :=
  ∀ e ∈ edits.toList, e.isFold = true → ∃ s ∈ Site.list t, s.kind = .binaryExpression ∧
    ∃ v, e = s.folding src v ∧ Evaluates src ((p.withFold false).edits src t) s.tree v

section Values

variable {p : Pass} {src : Source} {t : Tree} {edits : EditSet} {s c : Site}

/-- No substitution stands for a free node that is settled and has no read around it. -/
theorem Sound.matching?_withFold_false (h : p.Sound src t edits) (hw : t.WellFormed src)
    (hd : p.table.defines.isEmpty = false) (hs : s ∈ Site.list t) (hfree : Free edits s)
    (hsettled : p.Settled src edits s)
    (halone : ∀ a ∈ s.ancestors, p.replacement? src a = none) :
    ((p.withFold false).edits src t).matching? s.tree.start s.tree.stop = none := by
  rw [EditSet.matching?_eq_none_iff]
  rintro x hx ⟨hstart, hstop⟩
  obtain ⟨q, hq, r, hout, rfl⟩ := (mem_edits_withFold_false hw hd).mp hx
  have hsolid := solid_of_replacement? hw hq hout.found
  simp only [Site.substitution_start, Site.substitution_stop] at hstart hstop
  -- A read in the node with the range of the node would be covered, and the node with it.
  have hinner : q ∉ s.within := by
    intro hin
    obtain ⟨e, he, hestart, hestop⟩ := (h.disjoint.covers_iff hsolid).mp (hsettled q hin r hout)
    exact hfree (by omega) e he ⟨by omega, by omega⟩
  rcases hw.nested_or_apart hs hq with hnest | hnest | hapart | hapart
  · exact hinner hnest
  · rcases Site.mem_within_or_ancestor hnest with rfl | haround
    · exact hinner (Site.mem_within_self s)
    · have hnone := halone q haround
      rw [hout.found] at hnone
      simp at hnone
  · omega
  · omega

/-- The value of a part of a free composite expression that an edit stands for. -/
theorem Faithful.evaluates_of_matching? (hf : p.Faithful src t edits) (h : p.Sound src t edits)
    (hw : t.WellFormed src) (hg : t.Regular src) (hd : p.table.defines.isEmpty = false)
    (hs : s ∈ Site.list t) (hfree : Free edits s) (hcomposite : s.kind.isComposite = true)
    (hc : c ∈ s.below) {e : Edit} {v : Primitive}
    (hmatch : edits.matching? c.tree.start c.tree.stop = some e) (hv : e.value = some v) :
    Evaluates src ((p.withFold false).edits src t) c.tree v := by
  obtain ⟨he, hstart, hstop⟩ := EditSet.matching?_eq_some_iff.mp hmatch
  have hesolid := h.disjoint.solid e he
  cases hfold : e.isFold with
  | false =>
    -- A substitution is made by both passes.
    have hmem : e ∈ ((p.withFold false).edits src t).toList := by
      cases h.made e he with
      | @substitution q r mem hout =>
        exact (mem_edits_withFold_false hw hd).mpr ⟨q, mem, r, hout, rfl⟩
      | folding _ _ _ _ _ => simp at hfold
    have hvalue : evaluateWithin? src ((p.withFold false).edits src t) 1 c.tree = some v := by
      rw [evaluateWithin?_of_matching? (EditSet.matching?_eq_some_iff.mpr ⟨hmem, hstart, hstop⟩)]
      exact hv
    exact .of_evaluateWithin? hvalue
  | true =>
    obtain ⟨q, hq, hbinary, u, rfl, hu⟩ := hf e he hfold
    obtain rfl : u = v := Option.some.inj hv
    simp only [Site.folding_start, Site.folding_stop] at hstart hstop hesolid
    have hin := mem_within_of_holds hw hs hfree hc (by omega) he (by simp; omega) (by simp; omega)
      hq rfl rfl
    -- The folded expression is the part itself: the part is no wrapper around it.
    rcases Site.mem_within_iff.mp hin with rfl | ⟨d, hdc, hqd⟩
    · exact hu
    · exact absurd ⟨hstart, hstop⟩ ((hg s hs).distinct hcomposite c hc d hdc q hqd hbinary)

/-- A free node that is settled and has no read around it is no read. -/
theorem Sound.replacement?_of_settled (h : p.Sound src t edits) (hw : t.WellFormed src)
    (hs : s ∈ Site.list t) (hfree : Free edits s) (hsettled : p.Settled src edits s)
    (halone : ∀ a ∈ s.ancestors, p.replacement? src a = none) :
    p.replacement? src s = none := by
  cases hr : p.replacement? src s with
  | none => rfl
  | some r =>
    exfalso
    have hsolid := solid_of_replacement? hw hs hr
    obtain ⟨e, he, hstart, hstop⟩ :=
      (h.disjoint.covers_iff hsolid).mp (hsettled s (Site.mem_within_self s) r ⟨hr, halone⟩)
    exact hfree hsolid e he ⟨hstart, hstop⟩

/-- A free node that is settled and has no read around it has the value that its operands give
    it. -/
theorem Sound.evaluates_of_valueByKind? (h : p.Sound src t edits) (hw : t.WellFormed src)
    (hd : p.table.defines.isEmpty = false) (hs : s ∈ Site.list t) (hfree : Free edits s)
    (hsettled : p.Settled src edits s)
    (halone : ∀ a ∈ s.ancestors, p.replacement? src a = none) {f : Tree → Option Primitive}
    {v : Primitive} (hv : valueByKind? src f s.tree = some v) (hfinite : v.isNonFinite = false)
    (hbelow : ∀ c ∈ s.below, (∀ a ∈ c.ancestors, p.replacement? src a = none) →
      s.kind.isComposite = true → ∀ w, f c.tree = some w →
      Evaluates src ((p.withFold false).edits src t) c.tree w) :
    Evaluates src ((p.withFold false).edits src t) s.tree v := by
  have hnone := h.matching?_withFold_false hw hd hs hfree hsettled halone
  have hself := h.replacement?_of_settled hw hs hfree hsettled halone
  refine .of_operands hnone hv hfinite fun x hx w hxw => ?_
  have hmem := Site.mem_below_of_mem_children (s := s) (Tree.mem_children_of_mem_operands hx)
  refine hbelow _ hmem ?_ (Tree.isComposite_of_mem_operands hx) w hxw
  intro a ha
  rw [Site.ancestors_of_mem_below hmem] at ha
  rcases List.mem_cons.mp ha with rfl | ha
  · exact hself
  · exact halone a ha

/-- A part of a free composite expression has the value that it has now also when all reads are
    replaced and nothing is folded. -/
theorem Faithful.evaluates_of_evaluateWithin? (hf : p.Faithful src t edits)
    (h : p.Sound src t edits) (hw : t.WellFormed src) (hg : t.Regular src)
    (hd : p.table.defines.isEmpty = false) (hs : s ∈ Site.list t) (hfree : Free edits s)
    (hcomposite : s.kind.isComposite = true) (hc : c ∈ s.below)
    (halone : ∀ a ∈ c.ancestors, p.replacement? src a = none) {depth : Nat} {v : Primitive}
    (hv : evaluateWithin? src edits depth c.tree = some v) :
    Evaluates src ((p.withFold false).edits src t) c.tree v := by
  induction depth generalizing s c v with
  | zero => simp [evaluateWithin?] at hv
  | succ depth ih =>
    cases hmatch : edits.matching? c.tree.start c.tree.stop with
    | some e =>
      rw [evaluateWithin?_of_matching? hmatch] at hv
      exact hf.evaluates_of_matching? h hw hg hd hs hfree hcomposite hc hmatch hv
    | none =>
      have hclist := Site.mem_list_of_mem_within hs (Site.mem_within_of_mem_below hc)
      have hcfree := h.free_of_matching?_eq_none hw hs hfree hc hmatch
      have hsettled := h.settled_of_evaluateWithin? hw hg hs hfree hc hv
      obtain ⟨hvalue, hfinite⟩ := (evaluateWithin?_eq_some_iff hmatch).mp hv
      refine h.evaluates_of_valueByKind? hw hd hclist hcfree hsettled halone hvalue hfinite ?_
      intro d hdc hdalone hkind w hdw
      exact ih hclist hcfree hkind hdc hdalone hdw

/-- A free expression with no read around it that has a value is settled, and has that value also
    when all reads are replaced and nothing is folded. -/
theorem Faithful.settled_and_evaluates (hf : p.Faithful src t edits) (h : p.Sound src t edits)
    (hw : t.WellFormed src) (hg : t.Regular src) (hd : p.table.defines.isEmpty = false)
    (hs : s ∈ Site.list t) (hfree : Free edits s) (hsolid : s.tree.start < s.tree.stop)
    (halone : ∀ a ∈ s.ancestors, p.replacement? src a = none) {v : Primitive}
    (hv : evaluate? src edits s.tree = some v) :
    p.Settled src edits s ∧ Evaluates src ((p.withFold false).edits src t) s.tree v := by
  have hnone : edits.matching? s.tree.start s.tree.stop = none := by
    rw [EditSet.matching?_eq_none_iff]
    rintro e he ⟨hstart, hstop⟩
    exact hfree hsolid e he ⟨by omega, by omega⟩
  rw [evaluate?, evaluationDepth, evaluateWithin?_eq_some_iff hnone] at hv
  obtain ⟨hvalue, hfinite⟩ := hv
  have hsettled : p.Settled src edits s :=
    h.settled_of_valueByKind? hw hg hs hfree
      (fun c hc w hcw => h.settled_of_evaluateWithin? hw hg hs hfree hc hcw) hvalue
  refine ⟨hsettled, ?_⟩
  refine h.evaluates_of_valueByKind? hw hd hs hfree hsettled halone hvalue hfinite ?_
  intro c hc hcalone hkind w hcw
  exact hf.evaluates_of_evaluateWithin? h hw hg hd hs hfree hkind hc hcalone hcw

end Values

end Pass
end DefineFold
