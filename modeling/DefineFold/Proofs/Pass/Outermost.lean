/-
  DefineFold.Proofs.Pass.Outermost

  Which reads a pass replaces. Without folding the edits are the substitutions of the outermost
  reads, in pre-order: the nodes that are not too deep and that the first form to handle them
  finds an answer for, unless a node around has one too. The pass itself goes by covered ranges
  and never looks at the nodes around.
-/

import DefineFold.Proofs.Pass.Output
import Mathlib.Data.List.Sort

namespace DefineFold
namespace Pass

/-- The substitution of a node, if the node has a replacement and no node around it has one. -/
def outermostEdit? (p : Pass) (src : Source) (s : Site) : Option Edit :=
  if s.ancestors.all fun a => (p.replacement? src a).isNone then
    (p.replacement? src s).map (s.substitution src)
  else none

variable {p : Pass} {src : Source} {t : Tree}

theorem outermostEdit?_eq_some_iff {s : Site} {e : Edit} :
    p.outermostEdit? src s = some e ↔
      ∃ r, p.Outermost src s r ∧ e = s.substitution src r := by
  rw [outermostEdit?]
  split
  · rename_i hall
    simp only [List.all_eq_true, Option.isNone_iff_eq_none] at hall
    rw [Option.map_eq_some_iff]
    constructor
    · rintro ⟨r, hr, rfl⟩
      exact ⟨r, ⟨hr, hall⟩, rfl⟩
    · rintro ⟨r, hout, rfl⟩
      exact ⟨r, hout.found, rfl⟩
  · rename_i hall
    simp only [reduceCtorEq, false_iff]
    rintro ⟨r, hout, -⟩
    apply hall
    simp only [List.all_eq_true, Option.isNone_iff_eq_none]
    exact hout.alone

/-- Lists of edits in rising order with the same members are equal. -/
theorem eq_of_rising {xs ys : List Edit} (hxs : xs.Pairwise fun a b => a.start < b.start)
    (hys : ys.Pairwise fun a b => a.start < b.start) (hmem : ∀ e, e ∈ xs ↔ e ∈ ys) : xs = ys := by
  have hanti : Std.Antisymm fun a b : Edit => a.start < b.start :=
    ⟨fun a b hab hba => absurd (Nat.lt_trans hab hba) (Nat.lt_irrefl _)⟩
  have hirrefl : Std.Irrefl fun a b : Edit => a.start < b.start :=
    ⟨fun a => Nat.lt_irrefl a.start⟩
  exact List.Pairwise.eq_of_mem_iff hxs hys hmem

/-- The substitutions of the outermost reads come in rising order. -/
theorem rising_outermost (hw : t.WellFormed src) :
    ((Site.list t).filterMap (p.outermostEdit? src)).Pairwise fun a b => a.start < b.start := by
  rw [List.pairwise_filterMap]
  refine hw.preorder_list.imp_of_mem ?_
  intro s q hs hq hpre a ha b hb
  obtain ⟨r, hout, rfl⟩ := outermostEdit?_eq_some_iff.mp ha
  obtain ⟨r', hout', rfl⟩ := outermostEdit?_eq_some_iff.mp hb
  have hsolid := solid_of_replacement? hw hs hout.found
  rcases hpre with haround | hapart
  · exact absurd haround (hout'.not_mem_ancestors hout.found)
  · -- The earlier one ends before the later begins, and is not empty.
    simp only [Site.substitution_start]
    omega

/-- The substitution of an outermost read is made, or a fold takes its place. -/
theorem substitution_mem_or_fold (hw : t.WellFormed src)
    (hd : p.table.defines.isEmpty = false) {s : Site} {r : Replacement} (hs : s ∈ Site.list t)
    (hout : p.Outermost src s r) :
    s.substitution src r ∈ (p.edits src t).toList ∨
      ∃ e ∈ (p.edits src t).toList, e.isFold = true ∧ (s.substitution src r).Inside e := by
  have hsound := sound_edits (p := p) hw
  have hsolid := solid_of_replacement? hw hs hout.found
  obtain ⟨e, he, hstart, hstop⟩ :=
    (hsound.disjoint.covers_iff hsolid).mp (covers_edits hw hd hs hout.found)
  -- The edit that covers the read in the end is its own, or a fold.
  cases hmade : hsound.made e he with
  | @substitution q r' mem hout' =>
    left
    simp only [Site.substitution_start, Site.substitution_stop] at hstart hstop
    obtain rfl := hout.eq_of_overlap hout' hw hs mem (by omega) (by omega)
    obtain rfl : r = r' := Option.some.inj (hout.found.symm.trans hout'.found)
    exact he
  | folding _ _ _ _ _ => exact Or.inr ⟨_, he, rfl, hstart, hstop⟩

/-- A pass without folding makes exactly the substitutions of the outermost reads. -/
theorem edits_eq_outermost (hw : t.WellFormed src) (hd : p.table.defines.isEmpty = false)
    (hfold : p.fold = false) :
    (p.edits src t).toList = (Site.list t).filterMap (p.outermostEdit? src) := by
  have hnone : ∀ e ∈ (p.edits src t).toList, e.isFold = false := by
    intro e he
    cases (sound_edits (p := p) hw).made e he with
    | substitution _ _ => rfl
    | folding enabled _ _ _ _ => simp [hfold] at enabled
  refine eq_of_rising (p.edits src t).rising (rising_outermost hw) fun e => ?_
  rw [List.mem_filterMap]
  constructor
  · intro he
    cases (sound_edits (p := p) hw).made e he with
    | @substitution s r mem hout =>
      exact ⟨s, mem, outermostEdit?_eq_some_iff.mpr ⟨r, hout, rfl⟩⟩
    | folding enabled _ _ _ _ => simp [hfold] at enabled
  · rintro ⟨s, hs, he⟩
    obtain ⟨r, hout, rfl⟩ := outermostEdit?_eq_some_iff.mp he
    rcases substitution_mem_or_fold hw hd hs hout with hmem | ⟨x, hx, hxfold, -⟩
    · exact hmem
    · simp [hnone x hx] at hxfold

end Pass

/-! ## Chains -/

namespace Site

/-- The node that an access reads from. -/
def object? (s : Site) : Option Site :=
  (s.tree.child? .object).map fun c => ⟨c, s.tree :: s.above⟩

/-- A chain begins with itself and with whatever the node that it reads from begins with. -/
inductive BeginsWith : Site → Site → Prop where
  | self (s : Site) : BeginsWith s s
  | object {s o q : Site} (read : s.object? = some o) (rest : BeginsWith o q) : BeginsWith s q

theorem mem_below_of_object? {s o : Site} (h : s.object? = some o) : o ∈ s.below := by
  rw [object?, Option.map_eq_some_iff] at h
  obtain ⟨c, hc, rfl⟩ := h
  exact (mem_below_of_child? hc).1

theorem BeginsWith.mem_within {s q : Site} (h : s.BeginsWith q) : q ∈ s.within := by
  induction h with
  | self s => exact mem_within_self s
  | object read _ ih => exact within_trans (mem_within_of_mem_below (mem_below_of_object? read)) ih

/-- Around a beginning of a chain are the longer beginnings and what is around the chain. -/
theorem BeginsWith.ancestors {s q a : Site} (h : s.BeginsWith q) (ha : a ∈ q.ancestors) :
    a ∈ s.ancestors ∨ s.BeginsWith a ∧ a.BeginsWith q ∧ a ≠ q := by
  induction h with
  | self s => exact Or.inl ha
  | @object s o q read rest ih =>
    have hlevel := level_lt_of_mem_ancestors ha
    rcases ih ha with ha | ⟨hoa, haq, hne⟩
    · rw [ancestors_of_mem_below (mem_below_of_object? read)] at ha
      rcases List.mem_cons.mp ha with rfl | ha
      · refine Or.inr ⟨.self _, .object read rest, fun heq => ?_⟩
        rw [heq] at hlevel
        exact Nat.lt_irrefl _ hlevel
      · exact Or.inl ha
    · exact Or.inr ⟨.object read hoa, haq, hne⟩

end Site

namespace Pass

/-- A pass without folding over a tree that fits its source and has no faults makes, in
    pre-order, one substitution for each node that is not too deep, that the first form to
    handle it finds an answer for, and that has no such node around it. No edit lies inside
    another node's; and of a chain with no such node around, the longest beginning with an
    answer is replaced. -/
theorem run_edits_eq_outermost (p : Pass) (src : Source) (t : Tree) (path : String)
    (hw : t.WellFormed src) (hclean : t.firstBad? = none)
    (hd : p.table.defines.isEmpty = false) (hfold : p.fold = false) :
    ∃ o, p.run src t path = .ok o ∧
      o.edits = (Site.list t).filterMap (p.outermostEdit? src) ∧
      (∀ e ∈ o.edits, ∀ x ∈ o.edits, x.Inside e → x = e) ∧
      ∀ s ∈ Site.list t, (∀ a ∈ s.ancestors, p.replacement? src a = none) →
        ∀ q r, s.BeginsWith q → p.replacement? src q = some r →
          (∀ x, s.BeginsWith x → x.BeginsWith q → x ≠ q → p.replacement? src x = none) →
          q.substitution src r ∈ o.edits := by
  obtain ⟨code, hrun, -⟩ := run_eq_ok (p := p) hw hclean path
  have hedits := edits_eq_outermost hw hd hfold
  refine ⟨_, hrun, hedits, ?_, ?_⟩
  · intro e he x hx hin
    have hdisjoint := (sound_edits (p := p) hw).disjoint
    have hsolid := hdisjoint.solid x hx
    obtain ⟨hstart, hstop⟩ := hin
    exact hdisjoint.eq_of_overlap hx he (by omega) (by omega)
  · intro s hs halone q r hbegins hr hlonger
    have hq : q ∈ Site.list t := Site.mem_list_of_mem_within hs hbegins.mem_within
    -- Around the beginning are longer beginnings, which have no answer, and nodes around the chain.
    have hout : p.Outermost src q r := by
      refine ⟨hr, fun a ha => ?_⟩
      rcases hbegins.ancestors ha with ha | ⟨hsa, haq, hne⟩
      · exact halone a ha
      · exact hlonger a hsa haq hne
    show q.substitution src r ∈ (p.edits src t).toList
    rw [hedits, List.mem_filterMap]
    exact ⟨q, hq, outermostEdit?_eq_some_iff.mpr ⟨r, hout, rfl⟩⟩

end Pass

/-! ## A chain

`a.b.c;`, where `a` and `a.b` have values and `a.b.c` has none. -/

namespace Sample

def chainSource : Source :=
  .ofString "a.b.c;"

def chain : Tree :=
  part .memberExpression true 0 5 []
    [part .memberExpression true 0 3 [.object]
      [part .identifier true 0 1 [.object] [], token "." 1 2 [],
       part .propertyIdentifier true 2 3 [.property] []],
     token "." 3 4 [],
     part .propertyIdentifier true 4 5 [.property] []]

def chainTree : Tree :=
  part (.other "program") true 0 6 []
    [part (.other "expression_statement") true 0 6 [] [chain, token ";" 5 6 []]]

/-- The pass with the object that holds the text `x` under `b` for the name `a`. -/
def chainPass : Pass :=
  ⟨Table.build ⟨[("a", .object [("b", .string "x")])]⟩ default, Form.all, false,
    Pass.defaultDepth⟩

end Sample

namespace Pass

theorem run_edits_eq_outermost_chain :
    Sample.chainTree.WellFormed Sample.chainSource ∧ Sample.chainTree.firstBad? = none ∧
    ∃ o, Sample.chainPass.run Sample.chainSource Sample.chainTree "a.js" = .ok o ∧
      o.edits = (Site.list Sample.chainTree).filterMap
        (Sample.chainPass.outermostEdit? Sample.chainSource) ∧
      o.edits.map (fun e => (e.start, e.stop, e.newText)) = [(0, 3, "\"x\"")] := by
  obtain ⟨o, hrun, hedits, -, -⟩ :=
    run_edits_eq_outermost Sample.chainPass Sample.chainSource Sample.chainTree "a.js"
      (by decide) (by decide) (by decide) rfl
  refine ⟨by decide, by decide, o, hrun, hedits, ?_⟩
  rw [hedits]
  decide +kernel

end Pass
end DefineFold
