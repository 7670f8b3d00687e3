/-
  DefineFold.Proofs.Pass.Statements

  When a new text joins two statements. Where a statement has no semicolon at its end, it is the
  line break that ends it, and a line that begins with a word begins a new statement. A pass puts
  literals where words stood and does not look at the statement before. So the second of two such
  statements comes out as a part of the first whenever the text that stands at its start continues
  the line before, and `run_joins_statements_iff` says for which values that is so.
-/

import DefineFold.Proofs.Pass.Kept
import DefineFold.Proofs.Value.Opening

namespace DefineFold

namespace Site

/-- A statement of an expression, with nothing but comments between it and a statement before it
    that has no semicolon at its end. -/
structure LeansOn (t : Tree) (s d : Site) : Prop where
  /-- The two follow each other in one node, comments apart. -/
  siblings : ∃ y ∈ Site.list t, ∃ before between after,
    y.below = before ++ d :: (between ++ s :: after) ∧
      ∀ c ∈ between, c.kind.isComment = true ∧ c.tree.children = []
  kind : s.kind = .other "expression_statement"
  /-- The statement has a first byte. -/
  solid : s.tree.start < s.tree.stop
  previous : d.kind ∈ [Kind.other "expression_statement", .other "lexical_declaration",
    .other "variable_declaration"]
  /-- No semicolon ends the statement before. -/
  unended : d.tree.children.getLast?.any (·.kind = .other ";") = false

theorem not_isCandidate_of_isComment {c : Site} (h : c.kind.isComment = true) :
    c.isCandidate = false := by
  cases hkind : c.kind <;> simp [hkind, Kind.isComment] at h
  simp [isCandidate, Form.all, Form.handles, hkind]

variable {src : Source} {t : Tree} {s d x : Site}

/-- The two statements stand in one node, the one behind the other. -/
theorem LeansOn.exists_parent (h : s.LeansOn t d) (hw : t.WellFormed src) :
    ∃ y ∈ Site.list t, d ∈ y.below ∧ s ∈ y.below ∧ d.tree.start ≤ d.tree.stop ∧
      d.tree.stop ≤ s.tree.start := by
  obtain ⟨y, hy, before, between, after, hbelow, -⟩ := h.siblings
  have hd : d ∈ y.below := by simp [hbelow]
  have hs : s ∈ y.below := by simp [hbelow]
  have hdlist := mem_list_of_mem_within hy (mem_within_of_mem_below hd)
  have hle := Source.le_of_chars? (Source.slice?_eq_some_iff.mp (hw d hdlist).slice?_eq_text)
  have hapart := (hw y hy).below_apart
  rw [hbelow, List.pairwise_append, List.pairwise_cons] at hapart
  exact ⟨y, hy, hd, hs, hle, hapart.2.1.1 s (by simp)⟩

/-- The source between the two statements. -/
theorem LeansOn.exists_gap (h : s.LeansOn t d) (hw : t.WellFormed src) :
    ∃ gap, src.chars? d.tree.stop s.tree.start = some gap := by
  obtain ⟨y, hy, hd, hs, -, hle⟩ := h.exists_parent hw
  have hdlist := mem_list_of_mem_within hy (mem_within_of_mem_below hd)
  have hslist := mem_list_of_mem_within hy (mem_within_of_mem_below hs)
  have hdtext := Source.slice?_eq_some_iff.mp (hw d hdlist).slice?_eq_text
  have hstext := Source.slice?_eq_some_iff.mp (hw s hslist).slice?_eq_text
  exact Source.isSome_chars? (Source.isBoundary_stop_of_chars? hdtext)
    (Source.isBoundary_start_of_chars? hstext) hle

/-- A node behind the first statement that ends before the second is a comment. -/
theorem LeansOn.isComment_of_between (h : s.LeansOn t d) (hw : t.WellFormed src)
    (hx : x ∈ Site.list t) (hxsolid : x.tree.start < x.tree.stop)
    (hstart : d.tree.stop ≤ x.tree.start) (hstop : x.tree.stop ≤ s.tree.start) :
    x.kind.isComment = true ∧ x.tree.children = [] := by
  obtain ⟨y, hy, before, between, after, hbelow, hcomments⟩ := h.siblings
  have hdrange := (hw y hy).below_inside (c := d) (by simp [hbelow])
  have hsrange := (hw y hy).below_inside (c := s) (by simp [hbelow])
  obtain ⟨-, -, -, -, hdle, -⟩ := h.exists_parent hw
  have hsolid := h.solid
  have hapart := (hw y hy).below_apart
  rw [hbelow, List.pairwise_append, List.pairwise_cons, List.pairwise_append,
    List.pairwise_cons] at hapart
  obtain ⟨-, ⟨-, -, ⟨hafter, -⟩, -⟩, hbefore⟩ := hapart
  rcases hw.nested_or_apart hy hx with hnest | hnest | houtside | houtside
  · rcases mem_within_iff.mp hnest with rfl | ⟨c, hc, hxc⟩
    · omega
    -- The node lies in a part of the node around: before, in, between or behind the two.
    have hclist := mem_list_of_mem_within hy (mem_within_of_mem_below hc)
    have hxrange := hw.range_of_mem_within hclist hxc
    rw [hbelow, List.mem_append, List.mem_cons, List.mem_append, List.mem_cons] at hc
    rcases hc with hc | rfl | hc | rfl | hc
    · have hle := hbefore c hc d List.mem_cons_self
      omega
    · omega
    · obtain ⟨hkind, hleaf⟩ := hcomments c hc
      rw [eq_of_mem_within_of_leaf hleaf hxc]
      exact ⟨hkind, hleaf⟩
    · omega
    · have hle := hafter c hc
      omega
  · have hyrange := hw.range_of_mem_within hx hnest
    omega
  · omega
  · omega

end Site

namespace Pass

variable {p : Pass} {src : Source} {t : Tree} {s d : Site}

/-- An edit that ends before a statement begins ends before the comments between that statement
    and the one before it. -/
theorem stop_le_of_leansOn (hw : t.WellFormed src) (h : s.LeansOn t d) {edits : EditSet}
    (hsound : p.Sound src t edits) {e : Edit} (he : e ∈ edits.toList)
    (hstop : e.stop ≤ s.tree.start) : e.stop ≤ d.tree.stop := by
  obtain ⟨x, hx, hxstart, hxstop, q, hq, r, hr⟩ := hsound.exists_read_within he
  have hesolid := hsound.disjoint.solid e he
  obtain ⟨y, hy, hd, hs, hdle, -⟩ := h.exists_parent hw
  have hdlist := Site.mem_list_of_mem_within hy (Site.mem_within_of_mem_below hd)
  have hsolid := h.solid
  rcases hw.nested_or_apart hdlist hx with hnest | hnest | hbehind | hbefore
  · have hrange := hw.range_of_mem_within hdlist hnest
    omega
  · rcases Site.mem_within_or_ancestor hnest with rfl | haround
    · omega
    · -- What lies around the first statement lies around the second, too.
      have hsx : s.tree.stop ≤ x.tree.stop := by
        rw [Site.ancestors_of_mem_below hd, ← Site.ancestors_of_mem_below hs] at haround
        have hslist := Site.mem_list_of_mem_within hy (Site.mem_within_of_mem_below hs)
        exact (hw.range_of_mem_within hx (Site.mem_list_of_ancestor hslist haround).2).2
      omega
  · obtain ⟨hcomment, hleaf⟩ :=
      h.isComment_of_between hw hx (by omega) hbehind (by omega)
    have hread := isCandidate_of_replacement? hr
    rw [Site.eq_of_mem_within_of_leaf hleaf hq,
      Site.not_isCandidate_of_isComment hcomment] at hread
    simp at hread
  · omega

/-- The new text of an edit continues the line before if and only if it stands for a value whose
    text does. -/
theorem Makes.continuesLine_iff {e : Edit} (h : p.Makes src t e) :
    continuesLine e.newText.toList = true ↔
      (∃ x ∈ Site.list t, ∃ r, p.Outermost src x r ∧ e = x.substitution src r ∧
        x.continuesWith src r.value = true) ∨
      ∃ x ∈ Site.list t, ∃ v, x.kind = .binaryExpression ∧ e = x.folding src v ∧
        v.continues x.isAccessed = true := by
  have hread : ∀ (x : Site) (r : Replacement),
      continuesLine (x.substitution src r).newText.toList = x.continuesWith src r.value :=
    fun x r => x.continuesLine_replacementText src r.value
  have hfold : ∀ (x : Site) (v : Primitive),
      continuesLine (x.folding src v).newText.toList = v.continues x.isAccessed :=
    fun x v => v.continuesLine_fit x
  constructor
  · intro hcontinues
    cases h with
    | @substitution x r mem hout =>
      rw [hread] at hcontinues
      exact Or.inl ⟨x, mem, r, hout, rfl, hcontinues⟩
    | @folding x q r v _ mem hbinary _ _ =>
      rw [hfold] at hcontinues
      exact Or.inr ⟨x, mem, v, hbinary, rfl, hcontinues⟩
  · rintro (⟨x, -, r, -, rfl, hcontinues⟩ | ⟨x, -, v, -, rfl, hcontinues⟩)
    · rw [hread]
      exact hcontinues
    · rw [hfold]
      exact hcontinues

/-- What stands at the start of a statement that leans on the line break before it, in a run over a
    tree that fits its source and has no faults. The new text of an edit made there comes right
    behind what becomes of the statement before and what separates the two in the source, with
    nothing put between. It continues the line before, so that the two statements come out as one,
    if and only if it stands for a read with a value whose text does, or for an expression that is
    folded to one: an array, an object, a number with a sign, or any number that is accessed. -/
theorem run_joins_statements_iff (p : Pass) (src : Source) (t : Tree) (path : String) (s d : Site)
    (hw : t.WellFormed src) (hclean : t.firstBad? = none) (h : s.LeansOn t d) :
    ∃ o, p.run src t path = .ok o ∧
      ∀ e ∈ o.edits, e.start = s.tree.start →
        (∃ pre post front gap back, o.edits = pre ++ e :: post ∧
          EditSet.spliceBetween? src 0 d.tree.stop pre = some front ∧
          src.chars? d.tree.stop s.tree.start = some gap ∧
          EditSet.spliceBetween? src e.stop src.size post = some back ∧
          o.code.toList = front ++ gap ++ e.newText.toList ++ back) ∧
        (continuesLine e.newText.toList = true ↔
          (∃ x ∈ Site.list t, ∃ r, p.Outermost src x r ∧ e = x.substitution src r ∧
            x.continuesWith src r.value = true) ∨
          ∃ x ∈ Site.list t, ∃ v, x.kind = .binaryExpression ∧ e = x.folding src v ∧
            v.continues x.isAccessed = true) := by
  have hsound := sound_edits (p := p) hw
  obtain ⟨code, hrun, hsplice⟩ := run_eq_ok (p := p) hw hclean path
  refine ⟨_, hrun, fun e he hstart => ⟨?_, (hsound.made e he).continuesLine_iff⟩⟩
  simp only at he
  obtain ⟨pre, post, hsplit⟩ := List.append_of_mem he
  -- The code, cut at the edit.
  rw [EditSet.splice?, Option.map_eq_some_iff] at hsplice
  obtain ⟨cs, hcs, rfl⟩ := hsplice
  rw [EditSet.spliceFrom?_eq_spliceBetween?, hsplit] at hcs
  obtain ⟨whole, back, hwhole, hback, rfl⟩ := EditSet.spliceBetween?_append_cons.mp hcs
  -- What is spliced before the edit ends with the source between the two statements.
  have hpre : ∀ x ∈ pre, x.stop ≤ d.tree.stop := by
    intro x hx
    have hapart := hsplit ▸ hsound.disjoint.apart
    have hle := (List.pairwise_append.mp hapart).2.2 x hx e List.mem_cons_self
    exact stop_le_of_leansOn hw h hsound (hsplit ▸ List.mem_append_left _ hx) (by omega)
  obtain ⟨gap, hgap⟩ := h.exists_gap hw
  rw [hstart] at hwhole
  obtain ⟨front, hfront, rfl⟩ :=
    EditSet.exists_spliceBetween?_of_stop_le hgap hpre (Nat.zero_le _) hwhole
  exact ⟨pre, post, front, gap, back, hsplit, hfront, hgap, hback, String.toList_ofList⟩

end Pass

/-! ## A list on a line of its own

`let a = b` and, on the next line, `LIST`, with an array for the name `LIST`. -/

namespace Sample

def linesSource : Source :=
  .ofString "let a = b\nLIST"

def listDeclaration : Tree :=
  part (.other "lexical_declaration") true 0 9 []
    [token "let" 0 3 [],
     part (.other "variable_declarator") true 4 9 []
      [part .identifier true 4 5 [.name] [], token "=" 6 7 [],
       part .identifier true 8 9 [.value] []]]

def listName : Tree :=
  part .identifier true 10 14 [] []

def listStatement : Tree :=
  part (.other "expression_statement") true 10 14 [] [listName]

def linesTree : Tree :=
  part (.other "program") true 0 14 [] [listDeclaration, listStatement]

/-- The declaration on the first line. -/
def listDeclarationSite : Site :=
  ⟨listDeclaration, [linesTree]⟩

/-- The statement on the second line. -/
def listStatementSite : Site :=
  ⟨listStatement, [linesTree]⟩

/-- The name that is replaced. -/
def listSite : Site :=
  ⟨listName, [listStatement, linesTree]⟩

def listPass : Pass :=
  .ofDefines ⟨[("LIST", .array [.integer 0])]⟩ true default

end Sample

namespace Pass

theorem run_joins_statements_iff_list :
    Sample.linesTree.WellFormed Sample.linesSource ∧ Sample.linesTree.firstBad? = none ∧
    Sample.listStatementSite.LeansOn Sample.linesTree Sample.listDeclarationSite ∧
    ∃ o, Sample.listPass.run Sample.linesSource Sample.linesTree "a.js" = .ok o ∧
      o.code = "let a = b\n[0]" ∧
      ∃ e ∈ o.edits, e.start = Sample.listStatementSite.tree.start ∧
        continuesLine e.newText.toList = true := by
  have hw : Sample.linesTree.WellFormed Sample.linesSource := by decide
  have hclean : Sample.linesTree.firstBad? = none := by decide
  have hroot : Site.root Sample.linesTree ∈ Site.list Sample.linesTree := List.mem_cons_self
  have hleans : Sample.listStatementSite.LeansOn Sample.linesTree Sample.listDeclarationSite :=
    ⟨⟨_, hroot, [], [], [], rfl, fun c hc => absurd hc List.not_mem_nil⟩, rfl, by decide,
      by decide, by decide⟩
  obtain ⟨o, hrun, hall⟩ := run_joins_statements_iff Sample.listPass Sample.linesSource
    Sample.linesTree "a.js" Sample.listStatementSite Sample.listDeclarationSite hw hclean hleans
  have houtcome : (Sample.listPass.run Sample.linesSource Sample.linesTree "a.js").toOption.map
      (fun o => (o.code, o.edits)) = some ("let a = b\n[0]",
        [⟨10, 14, 2, 1, "LIST", "[0]", .substitution "LIST", none⟩]) := by
    decide +kernel
  rw [hrun] at houtcome
  obtain ⟨hcode, hedits⟩ := Prod.mk.inj (Option.some.inj houtcome)
  have hfound : (Sample.listPass.replacement? Sample.linesSource Sample.listSite).map
      (fun r => (Sample.listSite.substitution Sample.linesSource r,
        Sample.listSite.continuesWith Sample.linesSource r.value)) =
      some (⟨10, 14, 2, 1, "LIST", "[0]", .substitution "LIST", none⟩, true) := by
    decide +kernel
  obtain ⟨r, hr, hvalue⟩ := Option.map_eq_some_iff.mp hfound
  obtain ⟨hedit, hcontinues⟩ := Prod.mk.inj hvalue
  have halone : ∀ a ∈ Sample.listSite.ancestors,
      Sample.listPass.replacement? Sample.linesSource a = none := by
    intro a ha
    apply replacement?_of_isCandidate_eq_false
    revert a
    decide +kernel
  have hmem : Sample.listSite ∈ Site.list Sample.linesTree := List.mem_of_getElem? (i := 8) rfl
  refine ⟨hw, hclean, hleans, o, hrun, hcode, ?_⟩
  rw [hedits] at hall ⊢
  obtain ⟨-, hiff⟩ := hall _ List.mem_cons_self rfl
  refine ⟨_, List.mem_cons_self, rfl, hiff.mpr (Or.inl ?_)⟩
  exact ⟨Sample.listSite, hmem, r, ⟨hr, halone⟩, hedit.symm, hcontinues⟩

end Pass
end DefineFold
