/-
  DefineFold.Proofs.Pass.Walk

  The walk of a pass, one node after the other. On a tree that fits its source the walk is a
  left fold of one step over the nodes in pre-order (`edits_eq_foldl`): that it does not
  enter a replaced node, a covered one or one that is too deep makes no difference, because
  no step inside such a node would do anything.

  What a walk has recorded at any time is `Sound`: the edits are disjoint, and each of them
  replaces an outermost read or folds a binary expression. `Progress` adds that all reads
  passed so far are covered. Both hold before each step (`progress_of_split`).
-/

import DefineFold.Pass.Run
import DefineFold.Proofs.Edit.Disjoint
import DefineFold.Proofs.Tree.Fault
import DefineFold.Proofs.Tree.Layout

namespace DefineFold

/-! ## Edits of nodes -/

namespace Site

/-- The edit that folds a binary expression to a value. -/
def folding (s : Site) (src : Source) (value : Primitive) : Edit :=
  s.tree.edit src (s.fit value.literal) .fold (some value)

@[simp] theorem substitution_start (s : Site) (src : Source) (r : Replacement) :
    (s.substitution src r).start = s.tree.start :=
  rfl

@[simp] theorem substitution_stop (s : Site) (src : Source) (r : Replacement) :
    (s.substitution src r).stop = s.tree.stop :=
  rfl

@[simp] theorem substitution_isFold (s : Site) (src : Source) (r : Replacement) :
    (s.substitution src r).isFold = false :=
  rfl

@[simp] theorem folding_start (s : Site) (src : Source) (v : Primitive) :
    (s.folding src v).start = s.tree.start :=
  rfl

@[simp] theorem folding_stop (s : Site) (src : Source) (v : Primitive) :
    (s.folding src v).stop = s.tree.stop :=
  rfl

@[simp] theorem folding_isFold (s : Site) (src : Source) (v : Primitive) :
    (s.folding src v).isFold = true :=
  rfl

end Site

/-- The binary expression that is looked for is one of the nodes around. -/
theorem enclosingBinary?_mem {above : List Tree} {around : Site}
    (h : enclosingBinary? above = some around) :
    around ∈ Site.around above ∧ around.kind = .binaryExpression := by
  fun_induction enclosingBinary? above with
  | case1 => simp at h
  | case2 p rest hparen ih => exact ⟨List.mem_cons_of_mem _ (ih h).1, (ih h).2⟩
  | case3 p rest hparen hbinary =>
    obtain rfl := Option.some.inj h
    exact ⟨List.mem_cons_self, hbinary⟩
  | case4 p rest hparen hbinary => simp at h

/-- A fold is made of a binary expression around, with an operator that can be folded, for the
    value that the expression has by then. -/
theorem Site.fold?_eq_some_iff {s : Site} {src : Source} {pending : EditSet} {e : Edit} :
    s.fold? src pending = some e ↔
      ∃ around op value, enclosingBinary? s.above = some around ∧
        around.tree.binaryOp? = some op ∧ op.isFoldable = true ∧
        evaluate? src pending around.tree = some value ∧ e = around.folding src value := by
  simp only [Site.fold?, Option.bind_eq_bind, Option.bind_eq_some_iff]
  constructor
  · rintro ⟨around, haround, op, hop, h⟩
    split at h
    · rename_i hfoldable
      obtain ⟨value, hvalue, h⟩ := Option.bind_eq_some_iff.mp h
      exact ⟨around, op, value, haround, hop, hfoldable, hvalue, (Option.some.inj h).symm⟩
    · simp at h
  · rintro ⟨around, op, value, haround, hop, hfoldable, hvalue, rfl⟩
    refine ⟨around, haround, op, hop, ?_⟩
    rw [if_pos hfoldable, hvalue]
    rfl

namespace Pass

/-! ## One step -/

/-- What the defines answer for a node that is not too deep. -/
def replacement? (p : Pass) (src : Source) (s : Site) : Option Replacement :=
  if s.level ≤ p.maxDepth then p.answer? src s else none

/-- The step of the walk at one node: unless the node is covered, the read that it may be is
    recorded. -/
def step (p : Pass) (src : Source) (edits : EditSet) (s : Site) : EditSet :=
  if edits.covers s.tree.start s.tree.stop then edits
  else
    match p.replacement? src s with
    | some r => p.record src s r edits
    | none => edits

/-- An answered node is handled by one of the forms. -/
theorem handles_of_answer? {p : Pass} {src : Source} {s : Site} {r : Replacement}
    (h : p.answer? src s = some r) : ∃ f ∈ p.forms, f.handles s = true := by
  rw [answer?, Option.bind_eq_some_iff] at h
  obtain ⟨f, hf, -⟩ := h
  rw [formOf?] at hf
  have hhandles := List.find?_some hf
  exact ⟨f, List.mem_of_find?_eq_some hf, hhandles⟩

theorem replacement?_eq_some_iff {p : Pass} {src : Source} {s : Site} {r : Replacement} :
    p.replacement? src s = some r ↔ s.level ≤ p.maxDepth ∧ p.answer? src s = some r := by
  rw [replacement?]
  split
  · rename_i hle
    simp [hle]
  · rename_i hle
    simp [hle]

/-- Only a read has a replacement. -/
theorem isCandidate_of_replacement? {p : Pass} {src : Source} {s : Site} {r : Replacement}
    (h : p.replacement? src s = some r) : s.isCandidate = true := by
  obtain ⟨f, -, hf⟩ := handles_of_answer? (replacement?_eq_some_iff.mp h).2
  exact Site.isCandidate_of_handles hf

theorem step_of_replacement?_eq_none {p : Pass} {src : Source} {s : Site} {edits : EditSet}
    (h : p.replacement? src s = none) : p.step src edits s = edits := by
  rw [step, h]
  split <;> rfl

theorem step_of_covers {p : Pass} {src : Source} {s : Site} {edits : EditSet}
    (h : edits.covers s.tree.start s.tree.stop = true) : p.step src edits s = edits := by
  rw [step, if_pos h]

theorem step_of_replacement? {p : Pass} {src : Source} {s : Site} {edits : EditSet}
    {r : Replacement} (hcovers : edits.covers s.tree.start s.tree.stop = false)
    (h : p.replacement? src s = some r) : p.step src edits s = p.record src s r edits := by
  rw [step, hcovers, h]
  rfl

/-- A record is the substitution alone, or with the fold of the expression around it. -/
theorem record_cases (p : Pass) (src : Source) (s : Site) (r : Replacement) (edits : EditSet) :
    p.record src s r edits = edits.insert (s.substitution src r) ∨
      ∃ e, p.fold = true ∧ s.fold? src (edits.insert (s.substitution src r)) = some e ∧
        p.record src s r edits = (edits.insert (s.substitution src r)).insert e := by
  simp only [record]
  split
  · rename_i hfold
    cases he : s.fold? src (edits.insert (s.substitution src r)) with
    | none => exact Or.inl rfl
    | some e => exact Or.inr ⟨e, hfold, rfl, rfl⟩
  · exact Or.inl rfl

/-! ## Soundness of what is recorded -/

/-- A read that is replaced: it has a replacement, and no node around it has one. -/
structure Outermost (p : Pass) (src : Source) (s : Site) (r : Replacement) : Prop where
  found : p.replacement? src s = some r
  alone : ∀ a ∈ s.ancestors, p.replacement? src a = none

theorem not_outermost_of_isCandidate_eq_false {p : Pass} {src : Source} {s : Site}
    {r : Replacement} (h : s.isCandidate = false) : ¬p.Outermost src s r := by
  intro hout
  rw [isCandidate_of_replacement? hout.found] at h
  simp at h

/-- No node that has a replacement lies around an outermost read. -/
theorem Outermost.not_mem_ancestors {p : Pass} {src : Source} {s a : Site} {r r' : Replacement}
    (hout : p.Outermost src s r) (ha : p.replacement? src a = some r') : a ∉ s.ancestors := by
  intro hmem
  have hnone := hout.alone a hmem
  rw [ha] at hnone
  simp at hnone

/-- An outermost read in a node that has a replacement is that node. -/
theorem Outermost.eq_of_mem_within {p : Pass} {src : Source} {s q : Site} {r r' : Replacement}
    (hout : p.Outermost src q r) (hs : p.replacement? src s = some r') (hq : q ∈ s.within) :
    q = s := by
  rcases Site.mem_within_or_ancestor hq with heq | haround
  · exact heq
  · exact absurd haround (hout.not_mem_ancestors hs)

/-- Two outermost reads with a byte in common are one. -/
theorem Outermost.eq_of_overlap {p : Pass} {src : Source} {t : Tree} {s q : Site}
    {r r' : Replacement} (hout : p.Outermost src s r) (hout' : p.Outermost src q r')
    (hw : t.WellFormed src) (hs : s ∈ Site.list t) (hq : q ∈ Site.list t)
    (hsq : s.tree.start < q.tree.stop) (hqs : q.tree.start < s.tree.stop) : s = q := by
  rcases hw.nested_or_apart hs hq with hnest | hnest | hapart | hapart
  · exact (hout'.eq_of_mem_within hout.found hnest).symm
  · exact hout.eq_of_mem_within hout'.found hnest
  · omega
  · omega

/-- The edits that a pass can make to a tree: the substitution of an outermost read, and, where
    it folds, the fold of a binary expression around such a read. -/
inductive Makes (p : Pass) (src : Source) (t : Tree) : Edit → Prop where
  | substitution {s : Site} {r : Replacement} (mem : s ∈ Site.list t)
      (outermost : p.Outermost src s r) : Makes p src t (s.substitution src r)
  | folding {s q : Site} {r : Replacement} {value : Primitive} (enabled : p.fold = true)
      (mem : s ∈ Site.list t) (binary : s.kind = .binaryExpression) (holds : q ∈ s.within)
      (outermost : p.Outermost src q r) : Makes p src t (s.folding src value)

/-- The edits are disjoint, and the pass can make each of them. -/
structure Sound (p : Pass) (src : Source) (t : Tree) (edits : EditSet) : Prop where
  disjoint : edits.Disjoint
  made : ∀ e ∈ edits.toList, p.Makes src t e

/-- Every edit has the range and the text of a node. -/
theorem Makes.exists_site {p : Pass} {src : Source} {t : Tree} {e : Edit}
    (h : p.Makes src t e) :
    ∃ s ∈ Site.list t, e.start = s.tree.start ∧ e.stop = s.tree.stop ∧
      e.oldText = s.tree.text src := by
  cases h with
  | substitution mem _ => exact ⟨_, mem, rfl, rfl, rfl⟩
  | folding _ mem _ _ _ => exact ⟨_, mem, rfl, rfl, rfl⟩

theorem sound_empty (p : Pass) (src : Source) (t : Tree) : p.Sound src t .empty :=
  ⟨EditSet.disjoint_empty, fun _ he => absurd he List.not_mem_nil⟩

section Step

variable {p : Pass} {src : Source} {t : Tree} {edits : EditSet} {s : Site} {r : Replacement}

/-- A node that has a replacement is not empty. -/
theorem solid_of_replacement? (hw : t.WellFormed src) (hs : s ∈ Site.list t)
    (hr : p.replacement? src s = some r) : s.tree.start < s.tree.stop :=
  (hw s hs).solid (isCandidate_of_replacement? hr)

/-- What lies inside a covered node is covered, empty nodes apart. -/
theorem Sound.covers_within (h : p.Sound src t edits) (hw : t.WellFormed src)
    (hs : s ∈ Site.list t) (hcovers : edits.covers s.tree.start s.tree.stop = true) {q : Site}
    (hq : q ∈ s.within) (hsolid : q.tree.start < q.tree.stop) :
    edits.covers q.tree.start q.tree.stop = true := by
  have hrange := hw.range_of_mem_within hs hq
  obtain ⟨e, he, hstart, hstop⟩ := (h.disjoint.covers_iff (by omega)).mp hcovers
  exact (h.disjoint.covers_iff hsolid).mpr ⟨e, he, by omega, by omega⟩

/-- Around a node that is not covered, every edit lies inside of a given node or apart from
    it. -/
theorem Sound.inside_or_apart (h : p.Sound src t edits) (hw : t.WellFormed src)
    (hsolid : s.tree.start < s.tree.stop)
    (hcovers : edits.covers s.tree.start s.tree.stop = false) {around : Site}
    (haround : around ∈ Site.list t) (hin : s ∈ around.within) {e : Edit}
    (hstart : e.start = around.tree.start) (hstop : e.stop = around.tree.stop) :
    ∀ x ∈ edits.toList, x.Inside e ∨ x.Apart e := by
  intro x hx
  obtain ⟨q, hq, hxstart, hxstop, -⟩ := (h.made x hx).exists_site
  rcases hw.nested_or_apart haround hq with hnest | hnest | hapart | hapart
  · have := hw.range_of_mem_within haround hnest
    exact Or.inl ⟨by omega, by omega⟩
  · -- The edit would hold the node, which is not covered.
    exfalso
    have h1 := hw.range_of_mem_within hq hnest
    have h2 := hw.range_of_mem_within haround hin
    have : edits.covers s.tree.start s.tree.stop = true :=
      (h.disjoint.covers_iff hsolid).mpr ⟨x, hx, by omega, by omega⟩
    simp [this] at hcovers
  · exact Or.inr (Or.inr (by omega))
  · exact Or.inr (Or.inl (by omega))

/-- The substitution of a read that is not covered keeps the edits sound. -/
theorem Sound.insert_substitution (h : p.Sound src t edits) (hw : t.WellFormed src)
    (hs : s ∈ Site.list t) (hout : p.Outermost src s r)
    (hcovers : edits.covers s.tree.start s.tree.stop = false) :
    p.Sound src t (edits.insert (s.substitution src r)) := by
  have hsolid := solid_of_replacement? hw hs hout.found
  have hlaminar := h.inside_or_apart hw hsolid hcovers hs (Site.mem_within_self s)
    (e := s.substitution src r) rfl rfl
  exact ⟨h.disjoint.insert hsolid hlaminar,
    EditSet.forall_mem_insert (.substitution hs hout) h.made⟩

/-- With the substitution of such a read put in, every edit lies inside of an expression around
    the read or apart from it. -/
theorem Sound.inside_or_apart_insert (h : p.Sound src t edits) (hw : t.WellFormed src)
    (hs : s ∈ Site.list t) (hout : p.Outermost src s r)
    (hcovers : edits.covers s.tree.start s.tree.stop = false) {around : Site}
    (haround : around ∈ Site.list t) (hin : s ∈ around.within) {e : Edit}
    (hstart : e.start = around.tree.start) (hstop : e.stop = around.tree.stop) :
    ∀ x ∈ (edits.insert (s.substitution src r)).toList, x.Inside e ∨ x.Apart e := by
  have hsolid := solid_of_replacement? hw hs hout.found
  intro x hx
  rcases EditSet.eq_or_mem_of_mem_insert hx with rfl | hx
  · have := hw.range_of_mem_within haround hin
    exact Or.inl ⟨by simp; omega, by simp; omega⟩
  · exact h.inside_or_apart hw hsolid hcovers haround hin hstart hstop x hx

/-- What recording a read that is not covered does: the edits stay sound, the read is covered,
    and so is everything that was. -/
theorem Sound.record (h : p.Sound src t edits) (hw : t.WellFormed src)
    (hs : s ∈ Site.list t) (hout : p.Outermost src s r)
    (hcovers : edits.covers s.tree.start s.tree.stop = false) :
    p.Sound src t (p.record src s r edits) ∧
      (p.record src s r edits).covers s.tree.start s.tree.stop = true ∧
      ∀ {start stop : Nat}, start < stop → edits.covers start stop = true →
        (p.record src s r edits).covers start stop = true := by
  have hsolid := solid_of_replacement? hw hs hout.found
  have hlaminar := h.inside_or_apart hw hsolid hcovers hs (Site.mem_within_self s)
    (e := s.substitution src r) rfl rfl
  have hsub := h.insert_substitution hw hs hout hcovers
  have hself : (edits.insert (s.substitution src r)).covers s.tree.start s.tree.stop = true :=
    (hsub.disjoint.covers_iff hsolid).mpr
      ⟨_, EditSet.mem_insert_self edits _, Nat.le_refl _, Nat.le_refl _⟩
  have hmono : ∀ {start stop : Nat}, start < stop → edits.covers start stop = true →
      (edits.insert (s.substitution src r)).covers start stop = true := fun hlt hcov =>
    EditSet.covers_insert h.disjoint hsolid hlaminar hlt hcov
  rcases p.record_cases src s r edits with heq | ⟨e, henabled, hfold, heq⟩
  · rw [heq]
    exact ⟨hsub, hself, hmono⟩
  · -- The fold takes the place of all edits in the expression around the read.
    rw [heq]
    obtain ⟨around, op, value, haround, -, -, -, rfl⟩ := Site.fold?_eq_some_iff.mp hfold
    obtain ⟨hmem, hbinary⟩ := enclosingBinary?_mem haround
    obtain ⟨hlist, hin⟩ := Site.mem_list_of_ancestor hs hmem
    have hrange := hw.range_of_mem_within hlist hin
    have hsolidAround : (around.folding src value).start < (around.folding src value).stop := by
      simp only [Site.folding_start, Site.folding_stop]
      omega
    have hlaminarAround := h.inside_or_apart_insert hw hs hout hcovers hlist hin
      (e := around.folding src value) rfl rfl
    refine ⟨⟨hsub.disjoint.insert hsolidAround hlaminarAround, ?_⟩, ?_, ?_⟩
    · exact EditSet.forall_mem_insert (.folding henabled hlist hbinary hin hout) hsub.made
    · exact EditSet.covers_insert hsub.disjoint hsolidAround hlaminarAround hsolid hself
    · intro start stop hlt hcov
      exact EditSet.covers_insert hsub.disjoint hsolidAround hlaminarAround hlt (hmono hlt hcov)

end Step

/-! ## The walk as a fold of steps -/

theorem visit_eq (p : Pass) (src : Source) (edits : EditSet) (s : Site) :
    p.visit src s.level s.above edits s.tree =
      if p.maxDepth < s.level then edits
      else if edits.covers s.tree.start s.tree.stop then edits
      else
        match p.answer? src s with
        | some r => p.record src s r edits
        | none => p.visitAll src (s.level + 1) (s.tree :: s.above) edits s.tree.children := by
  obtain ⟨⟨head, children⟩, above⟩ := s
  rw [visit]
  rfl

theorem visitAll_eq_foldl (p : Pass) (src : Source) (s : Site) (edits : EditSet) :
    p.visitAll src (s.level + 1) (s.tree :: s.above) edits s.tree.children =
      s.below.foldl (fun edits c => p.visit src c.level c.above edits c.tree) edits := by
  rw [Site.below]
  generalize s.tree.children = children
  induction children generalizing edits with
  | nil => rw [visitAll]; rfl
  | cons child children ih =>
    rw [visitAll, ih]
    rfl

/-- Steps that do nothing one by one do nothing together. -/
theorem foldl_step_eq_self {p : Pass} {src : Source} {edits : EditSet} {sites : List Site}
    (h : ∀ q ∈ sites, p.step src edits q = edits) : sites.foldl (p.step src) edits = edits := by
  induction sites with
  | nil => rfl
  | cons q sites ih =>
    rw [List.foldl_cons, h q List.mem_cons_self]
    exact ih fun x hx => h x (List.mem_cons_of_mem _ hx)

section Walk

variable {p : Pass} {src : Source} {t : Tree}

/-- Inside a covered node no step does anything. -/
theorem Sound.foldl_step_of_covers {edits : EditSet} {s : Site} (h : p.Sound src t edits)
    (hw : t.WellFormed src) (hs : s ∈ Site.list t)
    (hcovers : edits.covers s.tree.start s.tree.stop = true) :
    s.within.foldl (p.step src) edits = edits := by
  apply foldl_step_eq_self
  intro q hq
  cases hr : p.replacement? src q with
  | none => exact step_of_replacement?_eq_none hr
  | some r =>
    have hsolid := solid_of_replacement? hw (Site.mem_list_of_mem_within hs hq) hr
    exact step_of_covers (h.covers_within hw hs hcovers hq hsolid)

/-- Walking into several nodes one after the other, given what walking into each of them is. -/
theorem Sound.foldl_visit_eq {parts : List Site} {edits : EditSet} (h : p.Sound src t edits)
    (hparts : ∀ c ∈ parts, ∀ edits : EditSet, p.Sound src t edits →
      p.visit src c.level c.above edits c.tree = c.within.foldl (p.step src) edits ∧
        p.Sound src t (p.visit src c.level c.above edits c.tree)) :
    parts.foldl (fun edits c => p.visit src c.level c.above edits c.tree) edits =
        parts.foldl (fun edits c => c.within.foldl (p.step src) edits) edits ∧
      p.Sound src t
        (parts.foldl (fun edits c => p.visit src c.level c.above edits c.tree) edits) := by
  induction parts generalizing edits with
  | nil => exact ⟨rfl, h⟩
  | cons c parts ih =>
    obtain ⟨heq, hsound⟩ := hparts c List.mem_cons_self edits h
    rw [List.foldl_cons, List.foldl_cons, ← heq]
    exact ih hsound fun x hx => hparts x (List.mem_cons_of_mem _ hx)

/-- Walking into a node is taking the steps of all nodes in it, and keeps the edits sound. -/
theorem Sound.visit_eq_foldl {s : Site} {edits : EditSet} (h : p.Sound src t edits)
    (hw : t.WellFormed src) (hs : s ∈ Site.list t)
    (halone : ∀ a ∈ s.ancestors, p.replacement? src a = none) :
    p.visit src s.level s.above edits s.tree = s.within.foldl (p.step src) edits ∧
      p.Sound src t (p.visit src s.level s.above edits s.tree) := by
  induction s using Site.below_induction generalizing edits with
  | step s ih =>
    rw [visit_eq]
    by_cases hdepth : p.maxDepth < s.level
    · -- Everything in the node is too deep.
      rw [if_pos hdepth]
      refine ⟨(foldl_step_eq_self fun q hq => ?_).symm, h⟩
      apply step_of_replacement?_eq_none
      have := Site.level_le_of_mem_within hq
      rw [replacement?, if_neg (by omega)]
    rw [if_neg hdepth]
    cases hcovers : edits.covers s.tree.start s.tree.stop with
    | true =>
      rw [if_pos rfl]
      exact ⟨(h.foldl_step_of_covers hw hs hcovers).symm, h⟩
    | false =>
      rw [if_neg Bool.false_ne_true]
      cases hanswer : p.answer? src s with
      | some r =>
        have hr : p.replacement? src s = some r :=
          replacement?_eq_some_iff.mpr ⟨by omega, hanswer⟩
        obtain ⟨hsound, hself, -⟩ := h.record hw hs ⟨hr, halone⟩ hcovers
        refine ⟨?_, hsound⟩
        -- The read is covered once it is recorded, so that the steps after the first are idle.
        have hrest := hsound.foldl_step_of_covers hw hs hself
        rw [Site.within_eq, List.foldl_cons, step_of_covers hself] at hrest
        rw [Site.within_eq, List.foldl_cons, step_of_replacement? hcovers hr]
        exact hrest.symm
      | none =>
        have hr : p.replacement? src s = none := by
          rw [replacement?, hanswer]
          split <;> rfl
        have haloneBelow : ∀ c ∈ s.below, ∀ a ∈ c.ancestors, p.replacement? src a = none := by
          intro c hc a ha
          rw [Site.ancestors_of_mem_below hc] at ha
          rcases List.mem_cons.mp ha with rfl | ha
          · exact hr
          · exact halone a ha
        -- Nothing is recorded at the node itself, so its parts are walked one after the other.
        simp only
        rw [visitAll_eq_foldl, Site.within_eq, List.foldl_cons,
          step_of_replacement?_eq_none hr, List.foldl_flatMap]
        refine h.foldl_visit_eq fun c hc edits hsound => ?_
        exact ih c hc hsound (Site.mem_list_of_mem_within hs (Site.mem_within_of_mem_below hc))
          (haloneBelow c hc)

/-- On a tree that fits its source, the edits of a pass are what the steps at its nodes, taken
    in pre-order, record. -/
theorem edits_eq_foldl (hw : t.WellFormed src) (hd : p.table.defines.isEmpty = false) :
    p.edits src t = (Site.list t).foldl (p.step src) .empty := by
  rw [edits, hd]
  exact ((sound_empty p src t).visit_eq_foldl (s := Site.root t) hw
    (Site.mem_within_self (Site.root t)) fun a ha => absurd ha List.not_mem_nil).1

/-! ## What holds before each step -/

/-- What a walk has recorded when it has passed some nodes: sound edits, which cover every read
    among the nodes passed. -/
structure Progress (p : Pass) (src : Source) (t : Tree) (passed : List Site) (edits : EditSet) :
    Prop extends p.Sound src t edits where
  covered : ∀ s ∈ passed, ∀ r, p.replacement? src s = some r →
    edits.covers s.tree.start s.tree.stop = true

/-- A read that the walk comes upon uncovered has no read around it: it would have been passed
    and be covered, and this one with it. -/
theorem Progress.outermost {passed rest : List Site} {s : Site} {r : Replacement}
    {edits : EditSet} (h : p.Progress src t passed edits) (hw : t.WellFormed src)
    (hsplit : Site.list t = passed ++ s :: rest) (hr : p.replacement? src s = some r)
    (hcovers : edits.covers s.tree.start s.tree.stop = false) : p.Outermost src s r := by
  refine ⟨hr, fun a ha => ?_⟩
  have hfront : Site.list t = (passed ++ [s]) ++ rest := by simpa using hsplit
  have hs : s ∈ passed ++ [s] := List.mem_append_right _ List.mem_cons_self
  have hlist : ∀ q ∈ passed ++ [s], q ∈ Site.list t := fun q hq =>
    hfront ▸ List.mem_append_left _ hq
  obtain ⟨hmem, hin⟩ := Site.ancestor_mem_of_list_eq_append hfront hs ha
  cases hra : p.replacement? src a with
  | none => rfl
  | some r' =>
    exfalso
    -- A node around is passed before: it is not the node itself, being on a higher level.
    rcases List.mem_append.mp hmem with hpassed | hself
    · have hcov := h.covers_within hw (hlist a hmem) (h.covered a hpassed r' hra) hin
        (solid_of_replacement? hw (hlist s hs) hr)
      simp [hcov] at hcovers
    · have hlevel := Site.level_lt_of_mem_ancestors ha
      rw [List.mem_singleton.mp hself] at hlevel
      exact Nat.lt_irrefl _ hlevel

theorem Progress.step {passed rest : List Site} {s : Site} {edits : EditSet}
    (h : p.Progress src t passed edits) (hw : t.WellFormed src)
    (hsplit : Site.list t = passed ++ s :: rest) :
    p.Progress src t (passed ++ [s]) (p.step src edits s) := by
  have hlist : ∀ q ∈ passed ++ [s], q ∈ Site.list t := by
    intro q hq
    rw [hsplit, List.append_cons]
    exact List.mem_append_left _ hq
  have hs : s ∈ Site.list t := hlist s (List.mem_append_right _ List.mem_cons_self)
  cases hr : p.replacement? src s with
  | none =>
    rw [step_of_replacement?_eq_none hr]
    refine ⟨h.toSound, fun q hq r' hr' => ?_⟩
    rcases List.mem_append.mp hq with hq | hq
    · exact h.covered q hq r' hr'
    · rw [List.mem_singleton.mp hq, hr] at hr'
      simp at hr'
  | some r =>
    cases hcovers : edits.covers s.tree.start s.tree.stop with
    | true =>
      -- The step does nothing, and the read is covered already.
      rw [step_of_covers hcovers]
      refine ⟨h.toSound, fun q hq r' hr' => ?_⟩
      rcases List.mem_append.mp hq with hq | hq
      · exact h.covered q hq r' hr'
      · rw [List.mem_singleton.mp hq]
        exact hcovers
    | false =>
      rw [step_of_replacement? hcovers hr]
      -- Recording covers the read, and uncovers nothing.
      obtain ⟨hsound, hself, hmono⟩ :=
        h.toSound.record hw hs (h.outermost hw hsplit hr hcovers) hcovers
      refine ⟨hsound, fun q hq r' hr' => ?_⟩
      rcases List.mem_append.mp hq with hpassed | hq
      · exact hmono (solid_of_replacement? hw (hlist q hq) hr') (h.covered q hpassed r' hr')
      · rw [List.mem_singleton.mp hq]
        exact hself

/-- What holds when nothing is passed and is kept by each step holds at any place in
    pre-order. -/
theorem foldl_step_induction {motive : List Site → EditSet → Prop} (start : motive [] .empty)
    (next : ∀ {passed rest : List Site} {s : Site} {edits : EditSet},
      Site.list t = passed ++ s :: rest → motive passed edits →
      motive (passed ++ [s]) (p.step src edits s))
    {passed rest : List Site} (hsplit : Site.list t = passed ++ rest) :
    motive passed (passed.foldl (p.step src) .empty) := by
  -- The nodes passed are those passed before and those now; the induction is on the latter.
  have hrun : ∀ (now earlier : List Site) (edits : EditSet),
      Site.list t = earlier ++ (now ++ rest) → motive earlier edits →
      motive (earlier ++ now) (now.foldl (p.step src) edits) := by
    intro now
    induction now with
    | nil =>
      intro earlier edits _ h
      rw [List.append_nil]
      exact h
    | cons s now ih =>
      intro earlier edits hlist h
      have hnext := ih (earlier ++ [s]) (p.step src edits s) (by simpa using hlist)
        (next hlist h)
      rw [List.append_assoc] at hnext
      exact hnext
  exact hrun passed [] .empty hsplit start

/-- At any place in pre-order, the steps taken so far have made progress. -/
theorem progress_of_split (hw : t.WellFormed src) {passed rest : List Site}
    (hsplit : Site.list t = passed ++ rest) :
    p.Progress src t passed (passed.foldl (p.step src) .empty) := by
  have hstart : p.Progress src t [] .empty :=
    ⟨sound_empty p src t, fun _ hs => absurd hs List.not_mem_nil⟩
  exact foldl_step_induction hstart (fun hlist h => h.step hw hlist) hsplit

/-- The edits of a pass are sound. -/
theorem sound_edits (hw : t.WellFormed src) : p.Sound src t (p.edits src t) := by
  cases hd : p.table.defines.isEmpty with
  | true =>
    rw [edits, if_pos hd]
    exact sound_empty p src t
  | false =>
    rw [edits_eq_foldl hw hd]
    exact (progress_of_split hw (List.append_nil _).symm).toSound

/-- Every read that has a replacement is covered in the end. -/
theorem covers_edits (hw : t.WellFormed src) (hd : p.table.defines.isEmpty = false) {s : Site}
    {r : Replacement} (hs : s ∈ Site.list t) (hr : p.replacement? src s = some r) :
    (p.edits src t).covers s.tree.start s.tree.stop = true := by
  rw [edits_eq_foldl hw hd]
  exact (progress_of_split hw (List.append_nil _).symm).covered s hs r hr

end Walk

end Pass

/-! ## A small source

`A;return"a"===A;`, with a read on its own and one in a comparison. The keyword stands right
before the quote. -/

namespace Sample

/-- A node without fault. -/
def part (kind : Kind) (named : Bool) (start stop : Nat) (fields : List Field)
    (children : List Tree) : Tree :=
  .node ⟨kind, named, false, false, start, stop, fields⟩ children

/-- A token that stands for itself. -/
def token (text : String) (start stop : Nat) (fields : List Field) : Tree :=
  part (.other text) false start stop fields []

def source : Source :=
  .ofString "A;return\"a\"===A;"

def comparison : Tree :=
  part .binaryExpression true 8 15 []
    [part .stringLiteral true 8 11 [.left]
      [token "\"" 8 9 [], part (.other "string_fragment") true 9 10 [] [], token "\"" 10 11 []],
     token "===" 11 14 [.operator],
     part .identifier true 14 15 [.right] []]

def tree : Tree :=
  part (.other "program") true 0 16 []
    [part (.other "expression_statement") true 0 2 []
      [part .identifier true 0 1 [] [], token ";" 1 2 []],
     part (.other "return_statement") true 2 16 []
      [token "return" 2 8 [], comparison, token ";" 15 16 []]]

/-- All forms, with the text `a` for the name `A`. -/
def pass (fold : Bool) : Pass :=
  ⟨Table.build ⟨[("A", .string "a")]⟩ default, Form.all, fold, Pass.defaultDepth⟩

theorem tree_wellFormed : tree.WellFormed source := by
  decide

theorem tree_firstBad? : tree.firstBad? = none := by
  decide

end Sample

end DefineFold
