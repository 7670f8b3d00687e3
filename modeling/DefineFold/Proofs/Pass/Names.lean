/-
  DefineFold.Proofs.Pass.Names

  What becomes of places in which only a name may stand: the operand of `typeof` in a type, and the
  tag of an element. Every node right in such a place is no read. But the place of a dotted name
  says nothing about the beginnings of that name, whose own place is the one before a dot. So an edit
  is made in such a place if, and only if, something in it has an answer
  (`run_edits_name_iff`), and a dotted name is kept exactly if none of its shorter beginnings has
  one.

  No edit reaches into such a place from around it. The type query, or the element that has the tag,
  is a wall (`Site.wall_of_isNaming`).
-/

import DefineFold.Proofs.Pass.Kept

namespace DefineFold

/-- The kinds of elements that have a tag. -/
def Kind.isTagged : Kind → Bool
  | .jsxOpeningElement => true
  | .jsxClosingElement => true
  | .jsxSelfClosingElement => true
  | _ => false

/-- The kinds of nodes whose parts stand as mere names. -/
def Kind.isNaming (k : Kind) : Bool :=
  k = .typeQuery || k.isTagged || k = .nestedIdentifier

namespace Site

/-- Whether only a name may stand in the place of a node: a type query, or a tag that is a name or a
    dotted name. -/
def isNameOnly (s : Site) : Bool :=
  s.kind = .typeQuery ||
    s.parentKind?.any Kind.isTagged && s.fills .name &&
      (s.kind = .identifier || s.kind = .memberExpression || s.kind = .nestedIdentifier)

/-- Whether a node stands right in a node whose parts are mere names. -/
def isNamed (s : Site) : Bool :=
  s.parentKind?.any Kind.isNaming

variable {p : Pass} {src : Source} {t : Tree} {c n y : Site}

theorem isWritten_of_isNamed (h : c.isNamed = true) : c.isWritten = true := by
  rw [isNamed, parentKind?, Option.any_map, Option.any_eq_true] at h
  obtain ⟨parent, hparent, hnaming⟩ := h
  rw [isWritten, hparent]
  cases hkind : parent.kind <;> simp [hkind, Kind.isNaming, Kind.isTagged] at hnaming <;>
    simp [hkind, Kind.bindsChildren]

/-- A node whose parts are mere names is a wall if it holds a read or a part of a chain. -/
theorem wall_of_isNaming (hnaming : y.kind.isNaming = true) {q : Site} (hq : q ∈ y.within)
    (hnot : ¬q.isPlain = true) : y.Wall src := by
  have hplain : y.isPlain = true := by
    cases hkind : y.kind <;> simp [hkind, Kind.isNaming, Kind.isTagged] at hnaming <;>
      simp [isPlain, isCandidate, Form.all, Form.handles, hkind, Kind.isChain, Kind.isRoot,
        Kind.isAccess]
  refine .of_not_isPlain hplain (fun f => ?_) hq hnot
  rw [valueByKind?]
  cases hkind : y.tree.kind <;> simp [kind, hkind, Kind.isNaming, Kind.isTagged] at hnaming <;> rfl

/-- What the kind of the node right around says is said of a node of the tree. -/
theorem exists_parent_of_parentKind? {f : Kind → Bool} (hc : c ∈ Site.list t)
    (h : c.parentKind?.any f = true) : ∃ y ∈ Site.list t, c ∈ y.below ∧ f y.kind = true := by
  rcases eq_root_or_mem_below hc with rfl | ⟨y, hy, hbelow⟩
  · simp [parentKind?, root] at h
  · rw [parentKind?, above_of_mem_below hbelow] at h
    exact ⟨y, hy, hbelow, h⟩

/-- A static chain that stands as a name has no answer, and nothing around it has one. -/
theorem Static.unanswered_of_isNamed (h : c.Static src) (hg : t.Regular src) (hk : t.Chained)
    (hc : c ∈ Site.list t) (hnamed : c.isNamed = true) : p.Unanswered src t c := by
  obtain ⟨y, hy, hbelow, hnaming⟩ := exists_parent_of_parentKind? hc hnamed
  have hwall : y.Wall src :=
    wall_of_isNaming hnaming (mem_within_of_mem_below hbelow) h.not_isPlain
  exact .of_wall hwall hg hk hy hbelow h (isWritten_of_isNamed hnamed)

/-- Where only a name may stand, there is a node with a sign of its own whose parts are mere names:
    the place itself or the node right around it. -/
theorem exists_naming_of_isNameOnly (hn : n ∈ Site.list t) (h : n.isNameOnly = true) :
    ∃ y ∈ Site.list t, (y = n ∨ n ∈ y.below) ∧ y.kind.isNaming = true ∧
      y.kind.isSigned = true := by
  rw [isNameOnly, Bool.or_eq_true, Bool.and_eq_true, Bool.and_eq_true, decide_eq_true_eq] at h
  rcases h with hkind | ⟨⟨htag, -⟩, -⟩
  · exact ⟨n, hn, Or.inl rfl, by rw [hkind]; rfl, by rw [hkind]; rfl⟩
  · obtain ⟨y, hy, hbelow, htagged⟩ := exists_parent_of_parentKind? hn htag
    refine ⟨y, hy, Or.inr hbelow, ?_, ?_⟩
    · simp [Kind.isNaming, htagged]
    · cases hkind : y.kind <;> simp [hkind, Kind.isTagged] at htagged <;> rfl

/-- A node in a read with an answer that has the whole range of the read is the read, or a mere
    token. -/
theorem eq_or_kind_of_holds {s : Site} (hw : t.WellFormed src) (hg : t.Regular src)
    (hk : t.Chained) (hs : s ∈ Site.list t) {r : Replacement} (hr : p.replacement? src s = some r)
    (hn : n ∈ s.within) (hstart : n.tree.start ≤ s.tree.start)
    (hstop : s.tree.stop ≤ n.tree.stop) : n = s ∨ n.kind = .other "typeof" := by
  rcases Pass.read_of_replacement? hr with hstatic | hkind | ⟨hkind, hoperator, -⟩
  · exact Or.inl (hstatic.eq_of_holds (hw.fits_within hs) (hk s hs) hn hstart hstop)
  · exact Or.inl ((hk s hs).eq_of_mem_within (Or.inr hkind) hn)
  rcases mem_within_iff.mp hn with heq | ⟨d, hd, hnd⟩
  · exact Or.inl heq
  · -- The part that holds the node has the whole range too, and so is the operator.
    right
    rw [Tree.operatorKind?, Option.map_eq_some_iff] at hoperator
    obtain ⟨x, hx, hword⟩ := hoperator
    obtain ⟨hmem, hfills⟩ := mem_below_of_child? hx
    obtain ⟨haside, hsolid⟩ :=
      (hg s hs).operator (by rw [hkind]; rfl) ⟨x, s.tree :: s.above⟩ hmem hfills
    have hdrange := hw.range_of_mem_within
      (mem_list_of_mem_within hs (mem_within_of_mem_below hd)) hnd
    have hxrange := (hw s hs).below_inside hmem
    simp only at hxrange hsolid
    rw [hw.eq_of_overlap_below hs hd hmem (by simp only; omega) (by simp only; omega)] at hnd
    rw [eq_of_mem_within_of_isAside haside hnd]
    exact hword

end Site

namespace Pass

variable {p : Pass} {src : Source} {t : Tree} {n : Site}

/-- An edit in a place where only a name may stand is made for a read in that place. -/
theorem exists_read_of_edit_inside (hw : t.WellFormed src) (hg : t.Regular src) (hk : t.Chained)
    (hn : n ∈ Site.list t) (hname : n.isNameOnly = true) {e : Edit}
    (he : e ∈ (p.edits src t).toList) (hstart : n.tree.start ≤ e.start)
    (hstop : e.stop ≤ n.tree.stop) : ∃ q ∈ n.within, (p.replacement? src q).isSome = true := by
  obtain ⟨x, hx, hxstart, hxstop, q, hq, r, hr⟩ := (sound_edits hw).exists_read_within he
  rw [hxstart] at hstart
  rw [hxstop] at hstop
  have hqlist := Site.mem_list_of_mem_within hx hq
  have hqrange := hw.range_of_mem_within hx hq
  have hsolid := solid_of_replacement? hw hqlist hr
  have hsome : (p.replacement? src q).isSome = true := by rw [hr]; rfl
  rcases hw.nested_or_apart hn hqlist with hnest | hnest | hapart | hapart
  · exact ⟨q, hnest, hsome⟩
  · -- A read around the place has no more bytes than the place, and so is the place.
    rcases Site.eq_or_kind_of_holds hw hg hk hqlist hr hnest (by omega) (by omega) with rfl | hkind
    · exact ⟨n, Site.mem_within_self n, hsome⟩
    · simp [Site.isNameOnly, hkind] at hname
  · omega
  · omega

/-- For a read with an answer in a place where only a name may stand, an edit is made in that
    place. -/
theorem exists_edit_inside_of_read (hw : t.WellFormed src) (hg : t.Regular src) (hk : t.Chained)
    (hsigned : t.Signed) (hn : n ∈ Site.list t) (hname : n.isNameOnly = true) {q : Site}
    {r : Replacement} (hq : q ∈ n.within) (hr : p.replacement? src q = some r) :
    ∃ e ∈ (p.edits src t).toList, n.tree.start ≤ e.start ∧ e.stop ≤ n.tree.stop := by
  obtain ⟨y, hy, hplace, hnaming, hkind⟩ := Site.exists_naming_of_isNameOnly hn hname
  have hny : n ∈ y.within := by
    rcases hplace with rfl | hbelow
    · exact Site.mem_within_self y
    · exact Site.mem_within_of_mem_below hbelow
  have hnot : ¬q.isPlain = true := by simp [Site.isPlain, isCandidate_of_replacement? hr]
  have hwall : y.Wall src := Site.wall_of_isNaming hnaming (Site.within_trans hny hq) hnot
  have hqlist := Site.mem_list_of_mem_within hn hq
  have hsolid := solid_of_replacement? hw hqlist hr
  have hqrange := hw.range_of_mem_within hn hq
  -- Some edit covers the read. It is made of a node that the wall does not lie in.
  obtain ⟨e, he, hstart, hstop⟩ := ((sound_edits hw).disjoint.covers_iff hsolid).mp
    (covers_edits hw (isEmpty_of_replacement? hr) hqlist hr)
  obtain ⟨x, hx, hxstart, hxstop, -, hyx⟩ :=
    hwall.exists_of_mem_edits hw hg hk hsigned hy hkind he
  refine ⟨e, he, ?_⟩
  rw [hxstart] at hstart ⊢
  rw [hxstop] at hstop ⊢
  rcases hw.nested_or_apart hn hx with hnest | hnest | hapart | hapart
  · exact hw.range_of_mem_within hn hnest
  · rcases Site.mem_within_or_ancestor hnest with rfl | haround
    · exact ⟨Nat.le_refl _, Nat.le_refl _⟩
    -- A node further out would have the wall in it.
    exfalso
    apply hyx
    rcases hplace with rfl | hbelow
    · exact hnest
    · rw [Site.ancestors_of_mem_below hbelow] at haround
      rcases List.mem_cons.mp haround with rfl | haround
      · exact Site.mem_within_self x
      · exact (Site.mem_list_of_ancestor hy haround).2
  · omega
  · omega

/-- What becomes of a place in which only a name may stand, in a run over a tree as the grammars
    make them. An edit is made in it if and only if something in it has a replacement. A static
    chain right in such a place has none, and no edit holds the whole of it; it is kept if and only
    if none of its shorter beginnings has a replacement, and otherwise the longest of these is
    replaced. -/
theorem run_edits_name_iff (p : Pass) (src : Source) (t : Tree) (path : String) (n : Site)
    (hw : t.WellFormed src) (hg : t.Regular src) (hk : t.Chained) (hsigned : t.Signed)
    (hclean : t.firstBad? = none) (hn : n ∈ Site.list t) (hname : n.isNameOnly = true) :
    ∃ o, p.run src t path = .ok o ∧
      ((∃ e ∈ o.edits, n.tree.start ≤ e.start ∧ e.stop ≤ n.tree.stop) ↔
        ∃ q ∈ n.within, (p.replacement? src q).isSome = true) ∧
      ∀ c ∈ n.within, c.Static src → c.isNamed = true →
        p.replacement? src c = none ∧
        (∀ e ∈ o.edits, ¬(e.start ≤ c.tree.start ∧ c.tree.stop ≤ e.stop)) ∧
        (o.Keeps src c ↔ ∀ q, c.BeginsWith q → q ≠ c → p.replacement? src q = none) ∧
        ∀ q r, c.BeginsWith q → p.replacement? src q = some r →
          (∀ x, c.BeginsWith x → x.BeginsWith q → x ≠ q → p.replacement? src x = none) →
          q.substitution src r ∈ o.edits := by
  obtain ⟨code, hrun, hsplice⟩ := run_eq_ok (p := p) hw hclean path
  refine ⟨_, hrun, ⟨?_, ?_⟩, ?_⟩
  · rintro ⟨e, he, hstart, hstop⟩
    exact exists_read_of_edit_inside hw hg hk hn hname he hstart hstop
  · rintro ⟨q, hq, hsome⟩
    obtain ⟨r, hr⟩ := Option.isSome_iff_exists.mp hsome
    exact exists_edit_inside_of_read hw hg hk hsigned hn hname hq hr
  intro c hin hstatic hnamed
  have hc := Site.mem_list_of_mem_within hn hin
  have hu : p.Unanswered src t c := hstatic.unanswered_of_isNamed hg hk hc hnamed
  exact ⟨hu.silent, fun e he => hu.not_holds_edits hw hg hk he, hu.keeps_iff hw hg hk hsplice,
    fun q r => hu.substitution_mem hw hg hk⟩

end Pass

/-! ## The type of a member

`let w: typeof A.b;`, with a text for the name `A`. -/

namespace Sample

def queriedSource : Source :=
  .ofString "let w: typeof A.b;"

def queriedName : Tree :=
  part .identifier true 14 15 [.object] []

def queriedChain : Tree :=
  part .memberExpression true 14 17 []
    [queriedName, token "." 15 16 [], part .propertyIdentifier true 16 17 [.property] []]

def query : Tree :=
  part .typeQuery true 7 17 [] [token "typeof" 7 13 [], queriedChain]

def queryTyping : Tree :=
  part (.other "type_annotation") true 5 17 [] [token ":" 5 6 [], query]

def queryDeclarator : Tree :=
  part (.other "variable_declarator") true 4 17 []
    [part .identifier true 4 5 [.name] [], queryTyping]

def queryDeclaration : Tree :=
  part (.other "lexical_declaration") true 0 18 []
    [token "let" 0 3 [], queryDeclarator, token ";" 17 18 []]

def queryTree : Tree :=
  part (.other "program") true 0 18 [] [queryDeclaration]

def querySite : Site :=
  ⟨query, [queryTyping, queryDeclarator, queryDeclaration, queryTree]⟩

/-- The chain that the query asks for. -/
def queriedChainSite : Site :=
  ⟨queriedChain, query :: querySite.above⟩

/-- The object of that chain. -/
def queriedNameSite : Site :=
  ⟨queriedName, queriedChain :: queriedChainSite.above⟩

end Sample

namespace Pass

theorem run_edits_name_iff_query :
    Sample.queryTree.WellFormed Sample.queriedSource ∧
    Sample.queryTree.Regular Sample.queriedSource ∧ Sample.queryTree.Chained ∧
    Sample.queryTree.Signed ∧ Sample.queryTree.firstBad? = none ∧
    Sample.querySite ∈ Site.list Sample.queryTree ∧ Sample.querySite.isNameOnly = true ∧
    ∃ o, (Sample.pass true).run Sample.queriedSource Sample.queryTree "a.ts" = .ok o ∧
      (∃ e ∈ o.edits, Sample.querySite.tree.start ≤ e.start ∧
        e.stop ≤ Sample.querySite.tree.stop) ∧
      ¬o.Keeps Sample.queriedSource Sample.queriedChainSite ∧
      o.code = "let w: typeof \"a\".b;" := by
  have hw : Sample.queryTree.WellFormed Sample.queriedSource := by decide
  have hg : Sample.queryTree.Regular Sample.queriedSource := by decide +kernel
  have hk : Sample.queryTree.Chained := by decide +kernel
  have hsigned : Sample.queryTree.Signed := by decide +kernel
  have hclean : Sample.queryTree.firstBad? = none := by decide
  have hn : Sample.querySite ∈ Site.list Sample.queryTree := List.mem_of_getElem? (i := 7) rfl
  obtain ⟨o, hrun, hinside, hchain⟩ := run_edits_name_iff (Sample.pass true) Sample.queriedSource
    Sample.queryTree "a.ts" Sample.querySite hw hg hk hsigned hclean hn rfl
  have hsome : ((Sample.pass true).replacement? Sample.queriedSource
      Sample.queriedNameSite).isSome = true := by
    decide +kernel
  have hin : Sample.queriedChainSite ∈ Sample.querySite.within :=
    List.mem_of_getElem? (i := 2) rfl
  have hbegins : Sample.queriedChainSite.BeginsWith Sample.queriedNameSite := .object rfl (.self _)
  have hne : Sample.queriedNameSite ≠ Sample.queriedChainSite := by
    intro heq
    exact absurd (congrArg Site.level heq) (by decide)
  refine ⟨hw, hg, hk, hsigned, hclean, hn, rfl, o, hrun, hinside.mpr ?_, ?_, ?_⟩
  · exact ⟨_, Site.within_trans hin hbegins.mem_within, hsome⟩
  · have hnames : Sample.queriedChain.segments? Sample.queriedSource = some ["A", "b"] := by
      decide +kernel
    obtain ⟨-, -, hkeeps, -⟩ := hchain _ hin (.of_segments? hnames) rfl
    rw [hkeeps]
    intro hnone
    rw [hnone _ hbegins hne] at hsome
    simp at hsome
  · exact code_of_run hrun (by decide +kernel)

end Pass
end DefineFold
