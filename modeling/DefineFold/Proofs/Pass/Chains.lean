/-
  DefineFold.Proofs.Pass.Chains

  Static chains and what lies in them. A chain that has segments is a name, `this`, or an access
  with a plain link and a chain again for its object (`Site.Static`). In a tree as the grammars
  make them nothing else of interest lies in such a chain: its parts are its own beginnings, and
  nodes that are neither reads nor parts of a chain (`Static.beginsWith_or_plain`).

  The places that assign are listed by `Site.isAssigned`; each of them is one in which no literal
  may stand. The place of a chain says nothing about its shorter beginnings, which are looked at as
  any other read.
-/

import DefineFold.Proofs.Pass.Outermost
import DefineFold.Proofs.Tree.Grammar

namespace DefineFold

/-! ## Assigned places -/

namespace Site

/-- Whether a node is assigned as a whole: the left of an assignment or of a loop over the elements
    of something, the operand of an increment or decrement, or the operand of `delete`. -/
def isAssigned (s : Site) : Bool :=
  match s.above.head? with
  | none => false
  | some parent =>
    match parent.kind with
    | .assignmentExpression => s.fills .left
    | .augmentedAssignmentExpression => s.fills .left
    | .forInStatement => s.fills .left
    | .updateExpression => s.fills .argument
    | .unaryExpression => parent.operatorKind? = some (.other "delete") && s.fills .argument
    | _ => false

/-- No literal may stand where a node is assigned. -/
theorem isWritten_of_isAssigned {s : Site} (h : s.isAssigned = true) : s.isWritten = true := by
  rw [isAssigned] at h
  rw [isWritten]
  cases hparent : s.above.head? with
  | none => simp [hparent] at h
  | some parent =>
    simp only [hparent] at h ⊢
    split at h
    case h_1 hkind | h_2 hkind | h_3 hkind | h_4 hkind =>
      simpa [hkind, Kind.bindsChildren, Kind.writtenField] using h
    case h_5 hkind =>
      rw [Bool.and_eq_true] at h
      simpa [hkind] using h.1
    case h_6 => simp at h

/-- The kinds of nodes that assign a part of theirs. -/
theorem kind_of_isAssigned {c s : Site} (hc : c ∈ s.below) (h : c.isAssigned = true) :
    s.kind ∈ [Kind.assignmentExpression, .augmentedAssignmentExpression, .forInStatement,
        .updateExpression] ∨
      s.kind = .unaryExpression ∧ s.tree.operatorKind? = some (.other "delete") := by
  rw [isAssigned, above_of_mem_below hc] at h
  simp only [List.head?_cons] at h
  split at h
  case h_1 hkind | h_2 hkind | h_3 hkind | h_4 hkind => exact Or.inl (by simp [kind, hkind])
  case h_5 hkind =>
    rw [Bool.and_eq_true, decide_eq_true_eq] at h
    exact Or.inr ⟨hkind, h.1⟩
  case h_6 => simp at h

end Site

/-! ## Static chains -/

/-- The kinds of accesses. -/
def Kind.isAccess : Kind → Bool
  | .memberExpression => true
  | .subscriptExpression => true
  | _ => false

/-- The kinds of nodes that a chain can go back to. -/
def Kind.isRoot : Kind → Bool
  | .identifier => true
  | .thisWord => true
  | _ => false

/-- The kinds of nodes that a chain is made of. -/
def Kind.isChain (k : Kind) : Bool :=
  k.isRoot || k.isAccess

/-- The segments of an object are those of the first part that fills its field. -/
theorem Tree.segmentsOfObject?_eq (src : Source) (later : List String) (ts : List Tree) :
    segmentsOfObject? src later ts =
      (ts.find? (·.fills .object)).bind (segmentsOnto? src later) := by
  induction ts with
  | nil => rfl
  | cons t ts ih =>
    rw [segmentsOfObject?, List.find?_cons]
    cases t.fills .object with
    | true => rfl
    | false => exact ih

namespace Site

/-- A static chain: a name or `this`, or an access that adds a plain link to a static chain. -/
inductive Static (src : Source) : Site → Prop where
  | word {s : Site} (root : s.kind.isRoot = true) : Static src s
  | access {s o : Site} {link : String} (access : s.kind.isAccess = true)
      (plain : Tree.link? src s.kind s.tree.children = some link) (read : s.object? = some o)
      (rest : Static src o) : Static src s

/-- A chain with segments is static, whatever comes behind it. -/
theorem Static.of_segmentsOnto? {src : Source} {later names : List String} {s : Site}
    (h : s.tree.segmentsOnto? src later = some names) : Static src s := by
  induction s using below_induction generalizing later with
  | step s ih =>
    obtain ⟨⟨head, children⟩, above⟩ := s
    have hobject : ∀ {later}, Tree.segmentsOfObject? src later children = some names →
        ∃ o, object? ⟨.node head children, above⟩ = some o ∧ Static src o := by
      intro later hlater
      rw [Tree.segmentsOfObject?_eq, Option.bind_eq_some_iff] at hlater
      obtain ⟨x, hx, hnames⟩ := hlater
      have hread : object? ⟨.node head children, above⟩ =
          some ⟨x, .node head children :: above⟩ := by
        rw [object?, Tree.child?, Tree.children, hx]
        rfl
      exact ⟨_, hread, ih _ (mem_below_of_object? hread) hnames⟩
    rw [Tree.segmentsOnto?] at h
    split at h
    case h_1 hkind | h_2 hkind =>
      exact .word (by simp [kind, Tree.kind, Tree.head, hkind, Kind.isRoot])
    case h_3 hkind | h_4 hkind =>
      split at h
      · rename_i link hlink
        obtain ⟨o, hread, hrest⟩ := hobject h
        have hplain : Tree.link? src (kind ⟨.node head children, above⟩) children = some link := by
          simpa [kind, Tree.kind, Tree.head, hkind] using hlink
        refine .access ?_ hplain hread hrest
        simp [kind, Tree.kind, Tree.head, hkind, Kind.isAccess]
      · simp at h
    case h_5 => simp at h

theorem Static.of_segments? {src : Source} {names : List String} {s : Site}
    (h : s.tree.segments? src = some names) : Static src s :=
  .of_segmentsOnto? h

/-- The operand whose name a `typeof` expression asks for is a static chain. -/
theorem Static.of_typeofName? {src : Source} {name : String} {s : Site}
    (h : s.tree.typeofName? src = some name) :
    ∃ x, s.tree.child? .argument = some x ∧ Static src ⟨x, s.tree :: s.above⟩ := by
  rw [Tree.typeofName?] at h
  cases hx : s.tree.child? .argument with
  | none => simp [hx] at h
  | some x =>
    refine ⟨x, rfl, ?_⟩
    simp only [hx] at h
    split at h
    case h_1 hkind => exact .word (by rw [kind, hkind]; rfl)
    case h_2 | h_3 =>
      obtain ⟨names, hnames, -⟩ := Option.map_eq_some_iff.mp h
      exact .of_segments? hnames
    case h_4 => simp at h

theorem Static.isChain {src : Source} {s : Site} (h : Static src s) : s.kind.isChain = true := by
  cases h with
  | word root => simp [Kind.isChain, root]
  | access access _ _ _ => simp [Kind.isChain, access]

theorem Static.kind_ne {src : Source} {s : Site} (h : Static src s) {k : Kind}
    (hk : k.isChain = false) : s.kind ≠ k := by
  rintro rfl
  rw [h.isChain] at hk
  simp at hk

/-! ## Chains as the grammars make them -/

/-- A node that is neither a read nor a part of a chain. -/
def isPlain (s : Site) : Bool :=
  !s.isCandidate && !s.kind.isChain

theorem Static.not_isPlain {src : Source} {s : Site} (h : Static src s) : ¬s.isPlain = true := by
  simp [isPlain, h.isChain]

/-- What a grammar promises about the parts of a chain. -/
structure Chained (s : Site) : Prop where
  /-- Names and `this` are leaves. -/
  leaf : s.kind.isRoot = true ∨ s.kind = .shorthandPropertyIdentifier → s.tree.children = []
  /-- The parts of a chain are not empty. -/
  solid : s.kind.isChain = true → s.tree.start < s.tree.stop
  /-- An access has one object, and one subscript. -/
  holder : s.kind.isAccess = true → ∀ f ∈ [Field.object, Field.index],
    (s.below.filter (·.fills f)).length ≤ 1
  /-- All else in an access is plain. -/
  rest : s.kind.isAccess = true → ∀ c ∈ s.below, c.fills .object = true ∨
    s.kind = .subscriptExpression ∧ c.fills .index = true ∨ ∀ q ∈ c.within, q.isPlain = true
  /-- No part of an access has the whole range of it. -/
  shorter : s.kind.isAccess = true → ∀ c ∈ s.below,
    ¬(c.tree.start ≤ s.tree.start ∧ s.tree.stop ≤ c.tree.stop)
  /-- Literals are plain. -/
  literal : s.isLiteral = true → ∀ q ∈ s.within, q.isPlain = true

instance (s : Site) : Decidable s.Chained :=
  decidable_of_iff
    ((s.kind.isRoot = true ∨ s.kind = .shorthandPropertyIdentifier → s.tree.children = []) ∧
      (s.kind.isChain = true → s.tree.start < s.tree.stop) ∧
      (s.kind.isAccess = true → ∀ f ∈ [Field.object, Field.index],
        (s.below.filter (·.fills f)).length ≤ 1) ∧
      (s.kind.isAccess = true → ∀ c ∈ s.below, c.fills .object = true ∨
        s.kind = .subscriptExpression ∧ c.fills .index = true ∨
          ∀ q ∈ c.within, q.isPlain = true) ∧
      (s.kind.isAccess = true → ∀ c ∈ s.below,
        ¬(c.tree.start ≤ s.tree.start ∧ s.tree.stop ≤ c.tree.stop)) ∧
      (s.isLiteral = true → ∀ q ∈ s.within, q.isPlain = true))
    ⟨fun ⟨leaf, solid, holder, rest, shorter, literal⟩ =>
        ⟨leaf, solid, holder, rest, shorter, literal⟩,
      fun h => ⟨h.leaf, h.solid, h.holder, h.rest, h.shorter, h.literal⟩⟩

/-- Nothing but itself lies in a name or in `this`. -/
theorem Chained.eq_of_mem_within {s q : Site} (h : s.Chained)
    (hkind : s.kind.isRoot = true ∨ s.kind = .shorthandPropertyIdentifier)
    (hq : q ∈ s.within) : q = s :=
  eq_of_mem_within_of_leaf (h.leaf hkind) hq

/-- The part that fills the object's field is the object. -/
theorem Chained.eq_object {s c o : Site} (h : s.Chained) (haccess : s.kind.isAccess = true)
    (hread : s.object? = some o) (hc : c ∈ s.below) (hfills : c.fills .object = true) : c = o := by
  rw [object?, Option.map_eq_some_iff] at hread
  obtain ⟨x, hx, rfl⟩ := hread
  obtain ⟨hmem, hxfills⟩ := mem_below_of_child? hx
  exact eq_of_length_filter_le_one (h.holder haccess .object (by decide)) hc hmem hfills hxfills

/-- The subscript of a static access is a literal. -/
theorem Chained.isLiteral_index {src : Source} {s c : Site} {link : String} (h : s.Chained)
    (hkind : s.kind = .subscriptExpression)
    (hplain : Tree.link? src s.kind s.tree.children = some link) (hc : c ∈ s.below)
    (hfills : c.fills .index = true) : c.isLiteral = true := by
  rw [hkind, Tree.link?] at hplain
  split at hplain
  · simp at hplain
  rw [if_neg (by decide)] at hplain
  split at hplain
  · rename_i x hx
    split at hplain
    · rename_i hstring
      obtain ⟨hmem, hxfills⟩ := mem_below_of_child? (s := s) (f := .index) hx
      have hholder := h.holder (by rw [hkind]; rfl) .index (by decide)
      rw [eq_of_length_filter_le_one hholder hc hmem hfills hxfills, isLiteral]
      simp [kind, hstring]
    · simp at hplain
  · simp at hplain

/-- What lies in a static chain is a beginning of it, or is plain. -/
theorem Static.beginsWith_or_plain {src : Source} {s q : Site} (h : Static src s)
    (hchained : ∀ x ∈ s.within, x.Chained) (hq : q ∈ s.within) :
    s.BeginsWith q ∨ q.isPlain = true := by
  induction h with
  | @word s root =>
    obtain rfl := (hchained s (mem_within_self s)).eq_of_mem_within (Or.inl root) hq
    exact Or.inl (.self q)
  | @access s o link access plain read rest ih =>
    have hself := hchained s (mem_within_self s)
    rcases mem_within_iff.mp hq with rfl | ⟨c, hc, hqc⟩
    · exact Or.inl (.self _)
    rcases hself.rest access c hc with hobject | ⟨hkind, hindex⟩ | hplain
    · -- The object is a shorter chain.
      obtain rfl := hself.eq_object access read hc hobject
      have hin : ∀ x ∈ c.within, x.Chained := fun x hx =>
        hchained x (within_trans (mem_within_of_mem_below hc) hx)
      rcases ih hin hqc with hbegins | hplain
      · exact Or.inl (.object read hbegins)
      · exact Or.inr hplain
    · have hliteral := hself.isLiteral_index hkind plain hc hindex
      exact Or.inr ((hchained c (mem_within_of_mem_below hc)).literal hliteral q hqc)
    · exact Or.inr (hplain q hqc)

/-- The beginnings of a static chain are static chains. -/
theorem Static.of_beginsWith {src : Source} {s q : Site} (h : Static src s)
    (hchained : ∀ x ∈ s.within, x.Chained) (hbegins : s.BeginsWith q) : Static src q := by
  induction hbegins with
  | self s => exact h
  | @object s o q read rest ih =>
    have hmem := mem_below_of_object? read
    refine ih ?_ fun x hx => hchained x (within_trans (mem_within_of_mem_below hmem) hx)
    cases h with
    | word root =>
      have hchild := tree_mem_of_mem_below hmem
      rw [(hchained s (mem_within_self s)).leaf (Or.inl root)] at hchild
      exact absurd hchild List.not_mem_nil
    | access _ _ read' rest' =>
      obtain rfl : o = _ := Option.some.inj (read.symm.trans read')
      exact rest'

/-- A node in a chain that has the whole range of the chain is the chain. -/
theorem Static.eq_of_holds {src : Source} {s q : Site} (h : Static src s)
    (hfits : ∀ x ∈ s.within, x.Fits src) (hchained : s.Chained) (hq : q ∈ s.within)
    (hstart : q.tree.start ≤ s.tree.start) (hstop : s.tree.stop ≤ q.tree.stop) : q = s := by
  cases h with
  | word root => exact hchained.eq_of_mem_within (Or.inl root) hq
  | access access _ _ _ =>
    rcases mem_within_iff.mp hq with heq | ⟨c, hc, hqc⟩
    · exact heq
    · -- The part of the chain that the node lies in would have the whole range too.
      have hrange := range_of_mem_within
        (fun x hx => hfits x (within_trans (mem_within_of_mem_below hc) hx)) hqc
      exact absurd ⟨by omega, by omega⟩ (hchained.shorter access c hc)

end Site

/-- A tree in which every node keeps to what the grammars promise about chains. -/
def Tree.Chained (t : Tree) : Prop :=
  ∀ s ∈ Site.list t, s.Chained

instance (t : Tree) : Decidable t.Chained :=
  inferInstanceAs (Decidable (∀ s ∈ Site.list t, s.Chained))

namespace Tree.Chained

variable {t : Tree} {src : Source} {s x : Site}

theorem within (h : t.Chained) (hs : s ∈ Site.list t) : ∀ x ∈ s.within, x.Chained :=
  fun x hx => h x (Site.mem_list_of_mem_within hs hx)

/-- A node that has the range of a static chain in its own has the chain in it. -/
theorem mem_within_of_holds (h : t.Chained) (hw : t.WellFormed src) (hs : s ∈ Site.list t)
    (hstatic : s.Static src) (hx : x ∈ Site.list t) (hstart : x.tree.start ≤ s.tree.start)
    (hstop : s.tree.stop ≤ x.tree.stop) : s ∈ x.within := by
  have hsolid := (h s hs).solid hstatic.isChain
  rcases hw.nested_or_apart hx hs with hnest | hnest | hapart | hapart
  · exact hnest
  · rw [hstatic.eq_of_holds (hw.fits_within hs) (h s hs) hnest hstart hstop]
    exact Site.mem_within_self s
  · omega
  · omega

end Tree.Chained

end DefineFold
