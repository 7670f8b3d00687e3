/-
  DefineFold.Proofs.Pass.Parentheses

  What becomes of a name or an access that is assigned in parentheses, as in `(a) = 1`. Folding
  looks through parentheses (`enclosingBinary?`), and `Site.wrapper` does so for assignments. Whether
  a literal may stand in a place is judged by the node right around alone, and parentheses are no
  place that assigns. So a target in parentheses is replaced exactly when the same expression,
  standing by itself, has an answer (`run_substitutes_wrapped_iff`); without parentheses it never is.
-/

import DefineFold.Proofs.Pass.Targets

namespace DefineFold

/-! ## Parentheses right around a node -/

/-- A tree with all parentheses that stand right around it, given the nodes around it. -/
def wrapperIn (inner : Tree) : List Tree → Site
  | [] => ⟨inner, []⟩
  | p :: rest =>
    if p.kind = .parenthesizedExpression then wrapperIn p rest else ⟨inner, p :: rest⟩

/-- A tree without parentheses right around it is its own wrapper, and otherwise the wrapper is one
    of the nodes around. -/
theorem wrapperIn_eq_or_mem (inner : Tree) (above : List Tree) :
    wrapperIn inner above = ⟨inner, above⟩ ∨ wrapperIn inner above ∈ Site.around above := by
  induction above generalizing inner with
  | nil => exact Or.inl rfl
  | cons p rest ih =>
    rw [wrapperIn]
    split
    · right
      rcases ih p with heq | hmem
      · rw [heq]
        exact List.mem_cons_self
      · exact List.mem_cons_of_mem _ hmem
    · exact Or.inl rfl

/-- What lies around a tree is parentheses, or lies around its wrapper. -/
theorem kind_or_mem_around_wrapperIn (inner : Tree) {above : List Tree} {a : Site}
    (ha : a ∈ Site.around above) :
    a.kind = .parenthesizedExpression ∨ a ∈ (wrapperIn inner above).ancestors := by
  induction above generalizing inner with
  | nil => exact absurd ha List.not_mem_nil
  | cons p rest ih =>
    rw [wrapperIn]
    split
    · rename_i hparen
      rcases List.mem_cons.mp ha with rfl | ha
      · exact Or.inl hparen
      · exact ih p ha
    · exact Or.inr ha

namespace Site

/-- A node with all parentheses that stand right around it. -/
def wrapper (s : Site) : Site :=
  wrapperIn s.tree s.above

theorem wrapper_eq_self {s : Site} (h : s.parentKind? ≠ some .parenthesizedExpression) :
    s.wrapper = s := by
  obtain ⟨tree, above⟩ := s
  cases above with
  | nil => rfl
  | cons p rest =>
    have hkind : p.kind ≠ .parenthesizedExpression := by
      intro hkind
      simp [parentKind?, hkind] at h
    rw [wrapper, wrapperIn, if_neg hkind]

/-- The wrapper of a node of a tree is a node of the tree, and the node lies in it. -/
theorem wrapper_mem_list {t : Tree} {s : Site} (hs : s ∈ Site.list t) :
    s.wrapper ∈ Site.list t ∧ s ∈ s.wrapper.within := by
  rcases wrapperIn_eq_or_mem s.tree s.above with heq | hmem
  · rw [wrapper, heq]
    exact ⟨hs, mem_within_self s⟩
  · exact mem_list_of_ancestor hs hmem

/-- In parentheses a node is written only if it is held as a name. -/
theorem isWritten_of_parentKind? {s : Site}
    (h : s.parentKind? = some .parenthesizedExpression) : s.isWritten = s.fills .name := by
  rw [parentKind?, Option.map_eq_some_iff] at h
  obtain ⟨p, hp, hkind⟩ := h
  simp [isWritten, hp, hkind, Kind.bindsChildren, Kind.writtenField]

end Site

/-! ## Answers and places -/

/-- Where a literal may stand, a form handles a node as it would handle it by itself. -/
theorem Form.handles_root {f : Form} {s : Site} (h : s.isWritten = false) :
    f.handles (Site.root s.tree) = f.handles s := by
  have hroot : (Site.root s.tree).isWritten = false := rfl
  have hkind : (Site.root s.tree).kind = s.kind := rfl
  cases f with
  | memberChain => rw [handles, handles, hroot, h, hkind]
  | identifier => rw [handles, handles, hroot, h, hkind]
  | typeofOperand => rfl

/-- Where a literal may stand, a node has the answer that it has by itself. -/
theorem Pass.answer?_root {p : Pass} {src : Source} {s : Site} (h : s.isWritten = false) :
    p.answer? src (Site.root s.tree) = p.answer? src s := by
  have hforms : formOf? p.forms (Site.root s.tree) = formOf? p.forms s := by
    rw [formOf?, formOf?]
    congr
    funext f
    exact Form.handles_root h
  rw [answer?, answer?, hforms]
  rfl

/-! ## Targets in parentheses -/

/-- A name or an access of a tree that is assigned, with any number of parentheses around it. -/
structure Site.WrappedTarget (t : Tree) (c : Site) : Prop where
  mem : c ∈ Site.list t
  kind : c.kind = .identifier ∨ c.kind.isAccess = true
  assigned : c.wrapper.isAssigned = true

/-- A read with the whole range of a name or an access is that node, or lies around it. -/
theorem Site.eq_or_mem_ancestors_of_range {src : Source} {t : Tree} {c s : Site}
    (hw : t.WellFormed src) (hk : t.Chained) (hc : c ∈ Site.list t) (hs : s ∈ Site.list t)
    (hkind : c.kind = .identifier ∨ c.kind.isAccess = true) (hstart : s.tree.start = c.tree.start)
    (hstop : s.tree.stop = c.tree.stop) : s = c ∨ s ∈ c.ancestors := by
  have hsolid : c.tree.start < c.tree.stop := by
    apply (hk c hc).solid
    rcases hkind with hkind | hkind <;> simp [Kind.isChain, Kind.isRoot, hkind]
  rcases hw.nested_or_apart hc hs with hnest | hnest | hapart | hapart
  · rcases hkind with hkind | hkind
    · exact Or.inl ((hk c hc).eq_of_mem_within (Or.inl (by rw [hkind]; rfl)) hnest)
    · rcases mem_within_iff.mp hnest with heq | ⟨d, hd, hsd⟩
      · exact Or.inl heq
      · -- The part that it lies in would have the whole range too.
        have hdlist := mem_list_of_mem_within hc (mem_within_of_mem_below hd)
        have hrange := hw.range_of_mem_within hdlist hsd
        exact absurd ⟨by omega, by omega⟩ ((hk c hc).shorter hkind d hd)
  · exact (mem_within_or_ancestor hnest).imp_left Eq.symm
  · omega
  · omega

namespace Site.WrappedTarget

variable {p : Pass} {src : Source} {t : Tree} {c : Site}

theorem isChain (hc : c.WrappedTarget t) : c.kind.isChain = true := by
  rcases hc.kind with hkind | hkind <;> simp [Kind.isChain, Kind.isRoot, hkind]

/-- The expression that assigns a target is a wall, with nothing but parentheses between the two. -/
theorem exists_wall (hc : c.WrappedTarget t) (src : Source) :
    ∃ y ∈ Site.list t, y.Wall src ∧ c.wrapper ∈ y.below ∧
      ∀ a ∈ c.ancestors, a.kind = .parenthesizedExpression ∨ a = y ∨ a ∈ y.ancestors := by
  obtain ⟨hmem, hin⟩ := wrapper_mem_list hc.mem
  obtain ⟨y, hy, hbelow⟩ := exists_parent_of_isAssigned hmem hc.assigned
  refine ⟨y, hy, wall_of_isAssigned hbelow hc.assigned hin hc.isChain, hbelow, fun a ha => ?_⟩
  have haround := kind_or_mem_around_wrapperIn c.tree ha
  rw [← wrapper, ancestors_of_mem_below hbelow, List.mem_cons] at haround
  exact haround

/-- No node around a target has an answer. -/
theorem alone (hc : c.WrappedTarget t) (hg : t.Regular src) (hk : t.Chained) :
    ∀ a ∈ c.ancestors, p.replacement? src a = none := by
  obtain ⟨y, hy, hwall, -, haround⟩ := hc.exists_wall src
  intro a ha
  rcases haround a ha with hparen | ha
  · exact Pass.replacement?_of_isCandidate_eq_false (Pass.not_isCandidate_of_kind (Or.inl hparen))
  · exact hwall.replacement?_eq_none hg hk hy ha

/-- A target has an answer exactly if it stands in parentheses, not as a name, and has the answer by
    itself. -/
theorem replacement?_eq_some_iff (hc : c.WrappedTarget t) {r : Replacement} :
    p.replacement? src c = some r ↔
      c.parentKind? = some .parenthesizedExpression ∧ c.fills .name = false ∧
        c.level ≤ p.maxDepth ∧ p.answer? src (Site.root c.tree) = some r := by
  rw [Pass.replacement?_eq_some_iff]
  constructor
  · rintro ⟨hlevel, hanswer⟩
    -- A target that is written is handled by no form.
    have hread : c.isWritten = false := by
      obtain ⟨f, -, hhandles⟩ := Pass.handles_of_answer? hanswer
      cases hwritten : c.isWritten with
      | false => rfl
      | true =>
        have hchain := hc.isChain
        cases f with
        | memberChain => simp [Form.handles, hwritten] at hhandles
        | identifier =>
          simp only [Form.handles, hwritten, Bool.not_true, Bool.and_false, Bool.false_or,
            decide_eq_true_eq] at hhandles
          simp [hhandles, Kind.isChain, Kind.isRoot, Kind.isAccess] at hchain
        | typeofOperand =>
          simp only [Form.handles, Bool.and_eq_true, decide_eq_true_eq] at hhandles
          simp [hhandles.1, Kind.isChain, Kind.isRoot, Kind.isAccess] at hchain
    have hparen : c.parentKind? = some .parenthesizedExpression := by
      by_contra hparen
      have hassigned := hc.assigned
      rw [wrapper_eq_self hparen] at hassigned
      rw [isWritten_of_isAssigned hassigned] at hread
      simp at hread
    refine ⟨hparen, ?_, hlevel, ?_⟩
    · rw [← isWritten_of_parentKind? hparen]
      exact hread
    · rw [Pass.answer?_root hread]
      exact hanswer
  · rintro ⟨hparen, hname, hlevel, hanswer⟩
    have hread : c.isWritten = false := by rw [isWritten_of_parentKind? hparen, hname]
    rw [Pass.answer?_root hread] at hanswer
    exact ⟨hlevel, hanswer⟩

/-- A target that has an answer is replaced, and nothing is folded over it. -/
theorem substitution_mem (hc : c.WrappedTarget t) (hw : t.WellFormed src) (hg : t.Regular src)
    (hk : t.Chained) (hsigned : t.Signed) {r : Replacement}
    (hr : p.replacement? src c = some r) : c.substitution src r ∈ (p.edits src t).toList := by
  have hout : p.Outermost src c r := ⟨hr, hc.alone hg hk⟩
  rcases Pass.substitution_mem_or_fold hw (Pass.isEmpty_of_replacement? hr) hc.mem hout with
    hmem | ⟨e, he, hfold, hin⟩
  · exact hmem
  exfalso
  obtain ⟨y, hy, hwall, hbelow, haround⟩ := hc.exists_wall src
  have hkind := isSigned_of_isAssigned hbelow hc.assigned
  obtain ⟨x, hx, hxstart, hxstop, hbinary, hyx⟩ :=
    hwall.exists_of_mem_edits hw hg hk hsigned hy hkind he
  have hsolid := Pass.solid_of_replacement? hw hc.mem hr
  obtain ⟨hstart, hstop⟩ := hin
  simp only [substitution_start, substitution_stop, hxstart, hxstop] at hstart hstop
  have hcx : c ∈ x.within := by
    rcases hw.nested_or_apart hx hc.mem with hnest | hnest | hapart | hapart
    · exact hnest
    · have hrange := hw.range_of_mem_within hc.mem hnest
      rcases eq_or_mem_ancestors_of_range hw hk hc.mem hx hc.kind (by omega) (by omega) with
        rfl | hmem
      · exact mem_within_self x
      · exact (mem_list_of_ancestor hc.mem hmem).2
    · omega
    · omega
  rcases mem_within_or_ancestor hcx with rfl | hmem
  · have hchain := hc.isChain
    simp [hbinary hfold, Kind.isChain, Kind.isRoot, Kind.isAccess] at hchain
  · rcases haround x hmem with hparen | rfl | hmem
    · simp [hbinary hfold] at hparen
    · exact hyx (mem_within_self x)
    · exact hyx (mem_list_of_ancestor hy hmem).2

end Site.WrappedTarget

namespace Pass

/-- What becomes of a name or an access that is assigned, with any number of parentheses around it,
    in a run over a tree as the grammars make them. A substitution of exactly its range is its own,
    for the answer that it has by itself. There is one if and only if the target stands in
    parentheses, not as a name, is not too deep, and has an answer by itself. -/
theorem run_substitutes_wrapped_iff (p : Pass) (src : Source) (t : Tree) (path : String) (c : Site)
    (hw : t.WellFormed src) (hg : t.Regular src) (hk : t.Chained) (hsigned : t.Signed)
    (hclean : t.firstBad? = none) (hc : c.WrappedTarget t) :
    ∃ o, p.run src t path = .ok o ∧
      (∀ e ∈ o.edits, e.isFold = false → e.start = c.tree.start → e.stop = c.tree.stop →
        ∃ r, p.answer? src (Site.root c.tree) = some r ∧ e = c.substitution src r) ∧
      ((∃ e ∈ o.edits, e.isFold = false ∧ e.start = c.tree.start ∧ e.stop = c.tree.stop) ↔
        c.parentKind? = some .parenthesizedExpression ∧ c.fills .name = false ∧
          c.level ≤ p.maxDepth ∧ (p.answer? src (Site.root c.tree)).isSome = true) := by
  obtain ⟨code, hrun, -⟩ := run_eq_ok (p := p) hw hclean path
  have hown : ∀ e ∈ (p.edits src t).toList, e.isFold = false → e.start = c.tree.start →
      e.stop = c.tree.stop → ∃ r, p.replacement? src c = some r ∧ e = c.substitution src r := by
    intro e he hfold hstart hstop
    obtain ⟨s, hs, r, hr, rfl⟩ := exists_read_of_mem_edits he hfold
    rcases Site.eq_or_mem_ancestors_of_range hw hk hc.mem hs hc.kind hstart hstop with rfl | haround
    · exact ⟨r, hr, rfl⟩
    · rw [hc.alone hg hk s haround] at hr
      simp at hr
  refine ⟨_, hrun, ?_, ?_, ?_⟩
  · intro e he hfold hstart hstop
    obtain ⟨r, hr, rfl⟩ := hown e he hfold hstart hstop
    exact ⟨r, (hc.replacement?_eq_some_iff.mp hr).2.2.2, rfl⟩
  · rintro ⟨e, he, hfold, hstart, hstop⟩
    obtain ⟨r, hr, -⟩ := hown e he hfold hstart hstop
    obtain ⟨hparen, hname, hlevel, hanswer⟩ := hc.replacement?_eq_some_iff.mp hr
    exact ⟨hparen, hname, hlevel, by rw [hanswer]; rfl⟩
  · rintro ⟨hparen, hname, hlevel, hsome⟩
    obtain ⟨r, hanswer⟩ := Option.isSome_iff_exists.mp hsome
    have hr := (hc.replacement?_eq_some_iff (p := p)).mpr ⟨hparen, hname, hlevel, hanswer⟩
    exact ⟨_, hc.substitution_mem hw hg hk hsigned hr, rfl, rfl, rfl⟩

end Pass

/-! ## An assignment to a name in parentheses

`(A) = 1;`, with a text for the name `A`. -/

namespace Sample

def wrappedSource : Source :=
  .ofString "(A) = 1;"

def wrappedName : Tree :=
  part .identifier true 1 2 [] []

def wrappedTarget : Tree :=
  part .parenthesizedExpression true 0 3 [.left] [token "(" 0 1 [], wrappedName, token ")" 2 3 []]

def wrappedAssignment : Tree :=
  part .assignmentExpression true 0 7 []
    [wrappedTarget, token "=" 4 5 [], part .numberLiteral true 6 7 [.right] []]

def wrappedStatement : Tree :=
  part (.other "expression_statement") true 0 8 [] [wrappedAssignment, token ";" 7 8 []]

def wrappedTree : Tree :=
  part (.other "program") true 0 8 [] [wrappedStatement]

/-- The name in the parentheses. -/
def wrappedSite : Site :=
  ⟨wrappedName, [wrappedTarget, wrappedAssignment, wrappedStatement, wrappedTree]⟩

end Sample

namespace Pass

theorem run_substitutes_wrapped_iff_name :
    Sample.wrappedTree.WellFormed Sample.wrappedSource ∧
    Sample.wrappedTree.Regular Sample.wrappedSource ∧ Sample.wrappedTree.Chained ∧
    Sample.wrappedTree.Signed ∧ Sample.wrappedTree.firstBad? = none ∧
    Sample.wrappedSite.WrappedTarget Sample.wrappedTree ∧
    ∃ o, (Sample.pass true).run Sample.wrappedSource Sample.wrappedTree "a.js" = .ok o ∧
      (∃ e ∈ o.edits, e.isFold = false ∧ e.start = Sample.wrappedSite.tree.start ∧
        e.stop = Sample.wrappedSite.tree.stop) ∧
      o.code = "(\"a\") = 1;" := by
  have hw : Sample.wrappedTree.WellFormed Sample.wrappedSource := by decide
  have hg : Sample.wrappedTree.Regular Sample.wrappedSource := by decide +kernel
  have hk : Sample.wrappedTree.Chained := by decide +kernel
  have hsigned : Sample.wrappedTree.Signed := by decide +kernel
  have hclean : Sample.wrappedTree.firstBad? = none := by decide
  have hc : Sample.wrappedSite.WrappedTarget Sample.wrappedTree :=
    ⟨List.mem_of_getElem? (i := 5) rfl, Or.inl rfl, by decide⟩
  obtain ⟨o, hrun, -, hiff⟩ := run_substitutes_wrapped_iff (Sample.pass true) Sample.wrappedSource
    Sample.wrappedTree "a.js" Sample.wrappedSite hw hg hk hsigned hclean hc
  refine ⟨hw, hg, hk, hsigned, hclean, hc, o, hrun, hiff.mpr ?_, ?_⟩
  · exact ⟨rfl, rfl, by decide, by decide +kernel⟩
  · exact code_of_run hrun (by decide +kernel)

end Pass
end DefineFold
