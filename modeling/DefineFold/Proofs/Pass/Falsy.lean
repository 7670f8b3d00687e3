/-
  DefineFold.Proofs.Pass.Falsy

  What becomes of a read that the configuration answers with a falsy value, while such values are
  not substituted. The first path that matches decides, so that the read itself has no
  replacement (`FalsyRead.replacement?_eq_none`), and nothing is folded over it, since it has no
  value. But a pass does not tell such a read from one that nothing matches: it goes on into the
  chain, and replaces the longest of its shorter beginnings that has an answer. With nested
  defines there is one, the object that holds the falsy value. `run_keeps_falsy_iff` says exactly
  when the read is left as it is.
-/

import DefineFold.Proofs.Pass.Kept

namespace DefineFold

/-- What a chain or a name offers for comparison with the paths of the configuration. -/
def Tree.candidate? (t : Tree) (src : Source) : Option Candidate :=
  match t.kind with
  | .memberExpression => (t.segments? src).map .memberChain
  | .subscriptExpression => (t.segments? src).map .memberChain
  | .identifier => some (.identifier (t.text src))
  | _ => none

/-- A form that handles a chain or a name answers what the table has for its candidate. -/
theorem Form.answer?_eq_resolve? {f : Form} {table : Table} {src : Source} {s : Site}
    {candidate : Candidate} (hhandles : f.handles s = true)
    (hcandidate : s.tree.candidate? src = some candidate) :
    f.answer? table src s.tree = table.resolve? candidate.form candidate := by
  rw [Tree.candidate?] at hcandidate
  cases f with
  | memberChain =>
    simp only [handles, Bool.and_eq_true, Bool.or_eq_true, decide_eq_true_eq] at hhandles
    have hkind : s.tree.kind = .memberExpression ∨ s.tree.kind = .subscriptExpression := hhandles.1
    have hmap : (s.tree.segments? src).map Candidate.memberChain = some candidate := by
      rcases hkind with hkind | hkind <;> simpa [hkind] using hcandidate
    obtain ⟨names, hnames, rfl⟩ := Option.map_eq_some_iff.mp hmap
    rw [answer?, hnames]
    rfl
  | identifier =>
    simp only [handles, Bool.and_eq_true, Bool.or_eq_true, decide_eq_true_eq] at hhandles
    have hkind : s.tree.kind = .identifier ∨ s.tree.kind = .shorthandPropertyIdentifier :=
      hhandles.imp And.left id
    rcases hkind with hkind | hkind
    · simp only [hkind, Option.some.injEq] at hcandidate
      rw [← hcandidate]
      rfl
    · simp [hkind] at hcandidate
  | typeofOperand =>
    simp only [handles, Bool.and_eq_true, decide_eq_true_eq] at hhandles
    have hkind : s.tree.kind = .unaryExpression := hhandles.1
    simp [hkind] at hcandidate

namespace Pass

/-- A read of a tree, a static chain or a name where a literal may stand, for which the first path
    that matches it leads to a falsy value. -/
structure FalsyRead (p : Pass) (src : Source) (t : Tree) (c : Site) : Prop where
  mem : c ∈ Site.list t
  read : c.isWritten = false
  falsy : ∃ candidate path value, c.tree.candidate? src = some candidate ∧
    p.table.paths.find? (fun x => candidate.form.accepts candidate x.dotted) = some path ∧
    p.table.defines.root.lookup? path.segments = some value ∧ value.isFalsy = true

namespace FalsyRead

variable {p : Pass} {src : Source} {t : Tree} {c : Site}

/-- The kinds of such reads, of which a chain has segments. -/
theorem kind_cases (hc : p.FalsyRead src t c) :
    c.kind = .identifier ∨
      c.kind.isAccess = true ∧ ∃ names, c.tree.segments? src = some names := by
  obtain ⟨candidate, -, -, hcandidate, -⟩ := hc.falsy
  rw [Tree.candidate?] at hcandidate
  split at hcandidate
  case h_1 hkind | h_2 hkind =>
    obtain ⟨names, hnames, -⟩ := Option.map_eq_some_iff.mp hcandidate
    exact Or.inr ⟨by rw [Site.kind, hkind]; rfl, names, hnames⟩
  case h_3 hkind => exact Or.inl hkind
  case h_4 => simp at hcandidate

theorem static (hc : p.FalsyRead src t c) : c.Static src := by
  rcases hc.kind_cases with hkind | ⟨-, names, hnames⟩
  · exact .word (by rw [hkind]; rfl)
  · exact .of_segments? hnames

theorem isCandidate (hc : p.FalsyRead src t c) : c.isCandidate = true := by
  rcases hc.kind_cases with hkind | ⟨hkind, -⟩
  · exact Site.isCandidate_of_handles (f := .identifier) (by simp [Form.handles, hkind, hc.read])
  · refine Site.isCandidate_of_handles (f := .memberChain) ?_
    cases h : c.kind <;> simp [h, Kind.isAccess] at hkind <;> simp [Form.handles, h, hc.read]

/-- Where falsy values are not substituted, the read has no replacement. -/
theorem replacement?_eq_none (hc : p.FalsyRead src t c)
    (hallow : p.table.options.allowFalsy = false) : p.replacement? src c = none := by
  obtain ⟨candidate, path, value, hcandidate, hpath, hvalue, hfalsy⟩ := hc.falsy
  rw [Option.eq_none_iff_forall_ne_some]
  intro r hr
  obtain ⟨-, hanswer⟩ := replacement?_eq_some_iff.mp hr
  rw [answer?, Option.bind_eq_some_iff] at hanswer
  obtain ⟨f, hf, hanswer⟩ := hanswer
  rw [formOf?] at hf
  have hhandles := List.find?_some hf
  -- Whatever form comes first, it asks for the same path, and that path decides.
  rw [Form.answer?_eq_resolve? hhandles hcandidate, Table.resolve?, resolveAmong?, hpath] at hanswer
  simp [replacementAt?, hvalue, hfalsy, hallow] at hanswer

/-- The read has no value, being no literal. -/
theorem unvalued (hc : p.FalsyRead src t c) (hg : t.Regular src) : c.Unvalued src := by
  refine ⟨fun f => ?_, ?_, c, Site.mem_within_self c, hc.static.not_isPlain⟩
  · rw [valueByKind?]
    rcases hc.kind_cases with hkind | ⟨hkind, -⟩
    · have hname := (hg c hc.mem).name hkind
      simp only [Site.kind] at hkind
      simp [hkind, hname]
    · simp only [Site.kind] at hkind
      cases h : c.tree.kind <;> simp [h, Kind.isAccess] at hkind <;> rfl
  · simp [Site.isAside, hc.isCandidate]

/-- Where no node around it has a replacement, the read is a chain without an answer. -/
theorem unanswered (hc : p.FalsyRead src t c) (hg : t.Regular src)
    (hallow : p.table.options.allowFalsy = false)
    (halone : ∀ a ∈ c.ancestors, p.replacement? src a = none) : p.Unanswered src t c :=
  ⟨hc.mem, hc.static, hc.replacement?_eq_none hallow, halone, c, Or.inl rfl, hc.unvalued hg⟩

end FalsyRead

variable {p : Pass} {src : Source} {t : Tree} {c : Site}

/-- If a node around a node has a replacement, and none of the nodes around is substituted, then a
    fold holds the node, and every other edit is apart from it. -/
theorem apart_or_isFold_of_ancestor (hw : t.WellFormed src) (hc : c ∈ Site.list t) {a : Site}
    {r : Replacement} (ha : a ∈ c.ancestors) (hr : p.replacement? src a = some r)
    (hnone : ∀ a ∈ c.ancestors, ∀ r, a.substitution src r ∉ (p.edits src t).toList) :
    ∀ e ∈ (p.edits src t).toList, e.stop ≤ c.tree.start ∨ c.tree.stop ≤ e.start ∨
      e.isFold = true ∧ e.start ≤ c.tree.start ∧ c.tree.stop ≤ e.stop := by
  have hsound := sound_edits (p := p) hw
  obtain ⟨halist, hca⟩ := Site.mem_list_of_ancestor hc ha
  have hrange := hw.range_of_mem_within halist hca
  have hasolid := solid_of_replacement? hw halist hr
  obtain ⟨x, hx, hstart, hstop⟩ := (hsound.disjoint.covers_iff hasolid).mp
    (covers_edits hw (isEmpty_of_replacement? hr) halist hr)
  -- The edit that covers the answered node is not its substitution, nor one further out.
  have hfold : x.isFold = true := by
    cases hmade : hsound.made x hx with
    | folding _ _ _ _ _ => rfl
    | @substitution s r' mem hout =>
      exfalso
      simp only [Site.substitution_start, Site.substitution_stop] at hstart hstop
      rcases hw.nested_or_apart halist mem with hnest | hnest | hapart | hapart
      · obtain rfl := hout.eq_of_mem_within hr hnest
        exact hnone s ha r' hx
      · rcases Site.mem_within_or_ancestor hnest with rfl | haround
        · exact hnone a ha r' hx
        · exact hnone s (Site.mem_ancestors_of_mem_within hca haround) r' hx
      · omega
      · omega
  intro e he
  by_cases hbefore : e.stop ≤ c.tree.start
  · exact Or.inl hbefore
  by_cases hbehind : c.tree.stop ≤ e.start
  · exact Or.inr (Or.inl hbehind)
  -- It has a byte in common with the fold.
  obtain rfl := hsound.disjoint.eq_of_overlap he hx (by omega) (by omega)
  exact Or.inr (Or.inr ⟨hfold, by omega, by omega⟩)

/-- What becomes of a read with a falsy value, in a run over a tree as the grammars make them, where
    falsy values are not substituted. The read itself is not replaced. If none of the nodes around
    it is substituted, the edits leave it alone, a fold around it apart, exactly if such a fold
    stands for a node around it that has a replacement, or none of its shorter beginnings has a
    replacement. If no node around it has a replacement, no edit holds the whole of it, it is kept
    exactly if none of its shorter beginnings has a replacement, and otherwise the longest of
    these is replaced. -/
theorem run_keeps_falsy_iff (p : Pass) (src : Source) (t : Tree) (path : String) (c : Site)
    (hw : t.WellFormed src) (hg : t.Regular src) (hk : t.Chained) (hclean : t.firstBad? = none)
    (hallow : p.table.options.allowFalsy = false) (hc : p.FalsyRead src t c) :
    ∃ o, p.run src t path = .ok o ∧ p.replacement? src c = none ∧
      ((∀ a ∈ c.ancestors, ∀ r, a.substitution src r ∉ o.edits) →
        ((∀ e ∈ o.edits, e.stop ≤ c.tree.start ∨ c.tree.stop ≤ e.start ∨
            e.isFold = true ∧ e.start ≤ c.tree.start ∧ c.tree.stop ≤ e.stop) ↔
          (∃ a ∈ c.ancestors, (p.replacement? src a).isSome = true) ∨
            ∀ q, c.BeginsWith q → q ≠ c → p.replacement? src q = none)) ∧
      ((∀ a ∈ c.ancestors, p.replacement? src a = none) →
        (∀ e ∈ o.edits, ¬(e.start ≤ c.tree.start ∧ c.tree.stop ≤ e.stop)) ∧
        (o.Keeps src c ↔ ∀ q, c.BeginsWith q → q ≠ c → p.replacement? src q = none) ∧
        ∀ q r, c.BeginsWith q → p.replacement? src q = some r →
          (∀ x, c.BeginsWith x → x.BeginsWith q → x ≠ q → p.replacement? src x = none) →
          q.substitution src r ∈ o.edits) := by
  obtain ⟨code, hrun, hsplice⟩ := run_eq_ok (p := p) hw hclean path
  refine ⟨_, hrun, hc.replacement?_eq_none hallow, fun hnone => ?_, fun halone => ?_⟩
  · by_cases hex : ∃ a ∈ c.ancestors, (p.replacement? src a).isSome = true
    · obtain ⟨a, ha, hsome⟩ := hex
      obtain ⟨r, hr⟩ := Option.isSome_iff_exists.mp hsome
      exact ⟨fun _ => Or.inl ⟨a, ha, hsome⟩,
        fun _ => apart_or_isFold_of_ancestor hw hc.mem ha hr hnone⟩
    · have halone : ∀ a ∈ c.ancestors, p.replacement? src a = none := by
        intro a ha
        rw [Option.eq_none_iff_forall_ne_some]
        intro r hr
        exact hex ⟨a, ha, by rw [hr]; rfl⟩
      have hu := hc.unanswered hg hallow halone
      have hholds : ∀ e ∈ (p.edits src t).toList, _ := fun e he => hu.not_holds_edits hw hg hk he
      rw [← hu.replacement?_within_iff hk, ← apart_iff_replacement?_within hw hc.mem hholds]
      constructor
      · intro hleft
        refine Or.inr fun e he => ?_
        rcases hleft e he with hbefore | hbehind | ⟨-, hover⟩
        · exact Or.inl hbefore
        · exact Or.inr hbehind
        · exact absurd hover (hholds e he)
      · rintro (hsome | hapart) e he
        · exact absurd hsome hex
        · exact (hapart e he).imp_right Or.inl
  · have hu := hc.unanswered hg hallow halone
    exact ⟨fun e he => hu.not_holds_edits hw hg hk he, hu.keeps_iff hw hg hk hsplice,
      fun q r => hu.substitution_mem hw hg hk⟩

end Pass

/-! ## A flag that is off

`process.env.DEBUG;`, with the defines spelled as nested objects. -/

namespace Sample

def flagSource : Source :=
  .ofString "process.env.DEBUG;"

def flagObject : Tree :=
  part .memberExpression true 0 11 [.object]
    [part .identifier true 0 7 [.object] [], token "." 7 8 [],
     part .propertyIdentifier true 8 11 [.property] []]

def flag : Tree :=
  part .memberExpression true 0 17 []
    [flagObject, token "." 11 12 [], part .propertyIdentifier true 12 17 [.property] []]

def flagStatement : Tree :=
  part (.other "expression_statement") true 0 18 [] [flag, token ";" 17 18 []]

def flagTree : Tree :=
  part (.other "program") true 0 18 [] [flagStatement]

def flagSite : Site :=
  ⟨flag, [flagStatement, flagTree]⟩

/-- The object of the chain. -/
def flagObjectSite : Site :=
  ⟨flagObject, [flag, flagStatement, flagTree]⟩

def flagPass : Pass :=
  .ofDefines ⟨[("process", .object [("env", .object [("DEBUG", .bool false)])])]⟩ true default

end Sample

namespace Pass

theorem run_keeps_falsy_iff_nested :
    Sample.flagTree.WellFormed Sample.flagSource ∧ Sample.flagTree.Regular Sample.flagSource ∧
    Sample.flagTree.Chained ∧ Sample.flagTree.firstBad? = none ∧
    Sample.flagPass.table.options.allowFalsy = false ∧
    Sample.flagPass.FalsyRead Sample.flagSource Sample.flagTree Sample.flagSite ∧
    (∀ a ∈ Sample.flagSite.ancestors,
      Sample.flagPass.replacement? Sample.flagSource a = none) ∧
    ∃ o, Sample.flagPass.run Sample.flagSource Sample.flagTree "a.js" = .ok o ∧
      Sample.flagPass.replacement? Sample.flagSource Sample.flagSite = none ∧
      ¬o.Keeps Sample.flagSource Sample.flagSite ∧
      o.code = "(\x7b DEBUG: false \x7d).DEBUG;" := by
  have hw : Sample.flagTree.WellFormed Sample.flagSource := by decide
  have hg : Sample.flagTree.Regular Sample.flagSource := by decide +kernel
  have hk : Sample.flagTree.Chained := by decide +kernel
  have hclean : Sample.flagTree.firstBad? = none := by decide
  have hc : Sample.flagPass.FalsyRead Sample.flagSource Sample.flagTree Sample.flagSite := by
    refine ⟨List.mem_of_getElem? (i := 2) rfl, by decide, .memberChain ["process", "env", "DEBUG"],
      Path.ofSegments ["process", "env", "DEBUG"], .bool false, by decide +kernel, by decide +kernel,
      rfl, rfl⟩
  have halone : ∀ a ∈ Sample.flagSite.ancestors,
      Sample.flagPass.replacement? Sample.flagSource a = none := by
    intro a ha
    apply replacement?_of_isCandidate_eq_false
    revert a
    decide +kernel
  obtain ⟨o, hrun, hself, -, hrest⟩ := run_keeps_falsy_iff Sample.flagPass Sample.flagSource
    Sample.flagTree "a.js" Sample.flagSite hw hg hk hclean rfl hc
  obtain ⟨-, hkeeps, -⟩ := hrest halone
  refine ⟨hw, hg, hk, hclean, rfl, hc, halone, o, hrun, hself, ?_, ?_⟩
  · -- The object that holds the flag is configured.
    rw [hkeeps]
    intro hnone
    have hobject : Sample.flagSite.BeginsWith Sample.flagObjectSite := .object rfl (.self _)
    have hne : Sample.flagObjectSite ≠ Sample.flagSite := by
      intro heq
      exact absurd (congrArg Site.level heq) (by decide)
    have hsome : (Sample.flagPass.replacement? Sample.flagSource
        Sample.flagObjectSite).isSome = true := by
      decide +kernel
    rw [hnone _ hobject hne] at hsome
    simp at hsome
  · exact code_of_run hrun (by decide +kernel)

end Pass
end DefineFold
