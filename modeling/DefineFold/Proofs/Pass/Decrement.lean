/-
  DefineFold.Proofs.Pass.Decrement

  Why no new text makes a decrement out of a minus sign. A negative number right behind a minus sign
  would make `--` with it. Only the node right around a literal is asked whether it needs
  parentheses, while the sign can belong to a node further out: a decrement comes about exactly
  where the replaced node begins the operand of a sign without being it, and the node around it asks
  for none (`Sound.makes_decrement_iff`). In trees of the grammars there is no such place, since
  what an operand begins with is accessed, called or calculated with, or is a target, which is never
  replaced (`PutsSign.not_front`). So no run makes a decrement (`run_makes_no_decrement`).
-/

import DefineFold.Proofs.Pass.Words
import DefineFold.Proofs.Tree.Grammar
import DefineFold.Proofs.Value.Sign

namespace DefineFold

/-! ## Minus signs of a source -/

namespace Site

/-- Nodes that edits are made of: reads, and binary expressions. -/
def isReplaceable (s : Site) : Bool :=
  s.isCandidate || s.kind = .binaryExpression

/-- A minus sign `op` of the unary or binary expression `y`, right before the operand `z`. -/
structure IsMinus (t : Tree) (src : Source) (y op z : Site) : Prop where
  mem : y ∈ Site.list t
  sign : op ∈ y.below
  operand : z ∈ y.below
  operator : op.fills .operator = true
  side : (y.kind = .unaryExpression ∧ z.fills .argument = true) ∨
    (y.kind = .binaryExpression ∧ z.fills .right = true)
  kind : op.kind = .other "-"
  leaf : op.tree.children = []
  text : op.tree.text src = "-"
  touches : op.tree.stop = z.tree.start

/-- The node is the operand `z` of a minus sign right before it, or the leftmost part of `z`. -/
structure BehindMinus (t : Tree) (src : Source) (z x : Site) : Prop where
  sign : ∃ y op, IsMinus t src y op z
  within : x ∈ z.within
  first : x.tree.start = z.tree.start

end Site

/-- The minus signs of a source are operators: where one stands right before a node that could be
    replaced, that node is, or begins, an operand of it. Names do not begin with one. -/
structure Tree.MinusOwned (t : Tree) (src : Source) : Prop where
  owned : ∀ s ∈ Site.list t, s.isReplaceable = true →
    endsInMinus (src.before s.tree.start) = true → ∃ z, Site.BehindMinus t src z s
  name : ∀ s ∈ Site.list t, s.kind = .shorthandPropertyIdentifier →
    beginsWithMinus (s.tree.text src).toList = false

namespace Site

namespace IsMinus

variable {t : Tree} {src : Source} {y op z x : Site}

theorem chars?_eq (h : IsMinus t src y op z) (hw : t.WellFormed src) :
    src.chars? op.tree.start op.tree.stop = some ['-'] := by
  have hop := mem_list_of_mem_within h.mem (mem_within_of_mem_below h.sign)
  have htext := (hw op hop).slice?_eq_text
  rw [h.text] at htext
  exact Source.slice?_eq_some_iff.mp htext

theorem start_lt_stop (h : IsMinus t src y op z) (hw : t.WellFormed src) :
    op.tree.start < op.tree.stop := by
  have hchars := h.chars?_eq hw
  have hle := Source.le_of_chars? hchars
  have hne : op.tree.start ≠ op.tree.stop := by
    intro heq
    rw [← heq] at hchars
    exact absurd (Source.eq_nil_of_chars?_self hchars) (by simp)
  omega

/-- The source before the operand ends with the sign. -/
theorem endsInMinus_before (h : IsMinus t src y op z) (hw : t.WellFormed src) :
    endsInMinus (src.before z.tree.start) = true := by
  have hchars := h.chars?_eq hw
  obtain ⟨front, hfront⟩ := Source.isSome_chars? src.isBoundary_zero
    (Source.isBoundary_start_of_chars? hchars) (Nat.zero_le _)
  rw [← h.touches, Source.before, Source.chars?_append hfront hchars, Option.getD_some,
    endsInMinus_append (by simp)]
  rfl

/-- The operand itself is guarded. -/
theorem guardsSign_operand (h : IsMinus t src y op z) : z.guardsSign = true := by
  have hparent : z.parentKind? = some y.kind := by
    rw [parentKind?, above_of_mem_below h.operand]
    rfl
  rcases h.side with ⟨hkind, -⟩ | ⟨hkind, -⟩
  · rw [guardsSign, hparent, hkind]
  · rw [guardsSign, hparent, hkind]

theorem not_isReplaceable_sign (h : IsMinus t src y op z) : op.isReplaceable = false := by
  simp [isReplaceable, isCandidate, Form.all, Form.handles, h.kind]

/-- No replaceable node ends where the sign does: the sign has no parts and is none itself, and what
    lies around it holds the operand too. -/
theorem stop_ne (h : IsMinus t src y op z) (hw : t.WellFormed src)
    (hsolid : z.tree.start < z.tree.stop) (hx : x ∈ Site.list t)
    (hreplaceable : x.isReplaceable = true) (hxsolid : x.tree.start < x.tree.stop) :
    x.tree.stop ≠ z.tree.start := by
  intro hstop
  have htouches := h.touches
  have hopsolid := h.start_lt_stop hw
  have hop := mem_list_of_mem_within h.mem (mem_within_of_mem_below h.sign)
  have hself : x ≠ op := by
    rintro rfl
    rw [h.not_isReplaceable_sign] at hreplaceable
    simp at hreplaceable
  rcases hw.nested_or_apart hop hx with hnest | hnest | hbehind | hbefore
  · exact hself (eq_of_mem_within_of_leaf h.leaf hnest)
  · rcases mem_within_or_ancestor hnest with heq | haround
    · exact hself heq.symm
    · -- What lies around the sign lies around the operand.
      rw [ancestors_of_mem_below h.sign, ← ancestors_of_mem_below h.operand] at haround
      have hz := mem_list_of_mem_within h.mem (mem_within_of_mem_below h.operand)
      have hrange := hw.range_of_mem_within hx (mem_list_of_ancestor hz haround).2
      omega
  · omega
  · omega

end IsMinus

end Site

namespace Pass

variable {p : Pass} {src : Source} {t : Tree}

/-! ## Signs of new texts -/

/-- The edit puts a negative number in the place of the node, and no parentheses around it. -/
structure PutsSign (p : Pass) (src : Source) (e : Edit) (x : Site) : Prop where
  unguarded : x.guardsSign = false
  kind : x.kind ≠ .shorthandPropertyIdentifier
  number : (∃ r, p.Outermost src x r ∧ e = x.substitution src r ∧ r.value.isNegative = true) ∨
    ∃ v, x.kind = .binaryExpression ∧ e = x.folding src v ∧ v.isNegative = true

theorem PutsSign.start_eq {e : Edit} {x : Site} (h : p.PutsSign src e x) :
    e.start = x.tree.start ∧ e.stop = x.tree.stop := by
  rcases h.number with ⟨r, -, rfl, -⟩ | ⟨v, -, rfl, -⟩
  · exact ⟨rfl, rfl⟩
  · exact ⟨rfl, rfl⟩

theorem PutsSign.isReplaceable {e : Edit} {x : Site} (h : p.PutsSign src e x) :
    x.isReplaceable = true := by
  rw [Site.isReplaceable, Bool.or_eq_true, decide_eq_true_eq]
  rcases h.number with ⟨r, hout, -, -⟩ | ⟨v, hbinary, -, -⟩
  · exact Or.inl (isCandidate_of_replacement? hout.found)
  · exact Or.inr hbinary

theorem PutsSign.beginsWithMinus {e : Edit} {x : Site} (h : p.PutsSign src e x) :
    beginsWithMinus e.newText.toList = true := by
  rcases h.number with ⟨r, -, rfl, hnegative⟩ | ⟨v, -, rfl, hnegative⟩
  · show DefineFold.beginsWithMinus (x.replacementText src r.value).toList = true
    simp only [Site.replacementText]
    rw [if_neg h.kind, x.beginsWithMinus_fit, r.value.beginsWithMinus_literal, hnegative,
      h.unguarded]
    rfl
  · show DefineFold.beginsWithMinus (x.fit v.literal).toList = true
    rw [x.beginsWithMinus_fit, v.beginsWithMinus_literal, hnegative, h.unguarded]
    rfl

/-- A new text that begins with a minus sign is a negative number without parentheses. -/
theorem Makes.exists_putsSign {e : Edit} (h : p.Makes src t e) (hminus : t.MinusOwned src)
    (hbegins : beginsWithMinus e.newText.toList = true) :
    ∃ x ∈ Site.list t, p.PutsSign src e x := by
  cases h with
  | @substitution x r mem hout =>
    replace hbegins : beginsWithMinus (x.replacementText src r.value).toList = true := hbegins
    simp only [Site.replacementText] at hbegins
    split at hbegins
    · -- A shorthand property begins with its name.
      rename_i hkind
      have hname := hminus.name x mem hkind
      rw [String.toList_append, String.toList_append] at hbegins
      cases htext : (x.tree.text src).toList with
      | nil => exact absurd hbegins (by simp [htext, beginsWithMinus])
      | cons c rest =>
        rw [htext] at hname hbegins
        exact absurd (hname.symm.trans hbegins) (by simp)
    · rename_i hkind
      rw [x.beginsWithMinus_fit, r.value.beginsWithMinus_literal, Bool.and_eq_true,
        Bool.not_eq_true'] at hbegins
      exact ⟨x, mem, hbegins.2, hkind, Or.inl ⟨r, hout, rfl, hbegins.1⟩⟩
  | @folding x q r v _ mem hbinary _ _ =>
    replace hbegins : beginsWithMinus (x.fit v.literal).toList = true := hbegins
    rw [x.beginsWithMinus_fit, v.beginsWithMinus_literal, Bool.and_eq_true,
      Bool.not_eq_true'] at hbegins
    refine ⟨x, mem, hbegins.2, ?_, Or.inr ⟨v, hbinary, rfl, hbegins.1⟩⟩
    rw [hbinary]
    decide

theorem Makes.endsInMinus {e : Edit} (h : p.Makes src t e) :
    endsInMinus e.newText.toList = false := by
  cases h with
  | @substitution x r _ _ => exact x.endsInMinus_replacementText src r.value
  | @folding x _ _ v _ _ _ _ _ => exact x.endsInMinus_fit v.endsInMinus_literal

theorem Makes.exists_replaceable {e : Edit} (h : p.Makes src t e) :
    ∃ x ∈ Site.list t, x.isReplaceable = true ∧ e.start = x.tree.start ∧ e.stop = x.tree.stop := by
  cases h with
  | @substitution x r mem hout =>
    have hread := isCandidate_of_replacement? hout.found
    exact ⟨x, mem, by rw [Site.isReplaceable, hread, Bool.true_or], rfl, rfl⟩
  | @folding x _ _ v _ mem hbinary _ _ =>
    exact ⟨x, mem, by simp [Site.isReplaceable, hbinary], rfl, rfl⟩

/-! ## Signs before new texts -/

section Front

variable {edits : EditSet} {pre post : List Edit} {e : Edit} {front : List Char}

/-- What is spliced before an edit ends with a minus sign if the source does and no edit ends
    there: new texts never end with one. -/
theorem Sound.endsInMinus_front_iff (h : p.Sound src t edits)
    (hsplit : edits.toList = pre ++ e :: post)
    (hfront : EditSet.spliceBetween? src 0 e.start pre = some front) :
    endsInMinus front = true ↔
      (∀ d ∈ pre, d.stop ≠ e.start) ∧ endsInMinus (src.before e.start) = true := by
  have hmem : ∀ d ∈ pre, d ∈ edits.toList := fun d hd => hsplit ▸ List.mem_append_left _ hd
  have hapart := hsplit ▸ h.disjoint.apart
  have hlast := EditSet.any_getLast?_front_iff (P := (· == '-'))
    (fun d hd => h.disjoint.solid d (hmem d hd)) (List.pairwise_append.mp hapart).1
    (fun d hd => (h.made d (hmem d hd)).newText_ne_nil) hfront
  constructor
  · intro hends
    rcases hlast.mp hends with ⟨d, hd, -, hdends⟩ | hsource
    · have hnot := (h.made d (hmem d hd)).endsInMinus
      exact absurd (hnot.symm.trans hdends) (by simp)
    · exact hsource
  · intro hsource
    exact hlast.mpr (Or.inr hsource)

/-- An edit that puts a negative number behind a minus sign has nothing spliced between the two. -/
theorem Sound.endsInMinus_front (h : p.Sound src t edits) (hw : t.WellFormed src)
    (hsplit : edits.toList = pre ++ e :: post)
    (hfront : EditSet.spliceBetween? src 0 e.start pre = some front) {x z : Site}
    (hx : p.PutsSign src e x) (hz : Site.BehindMinus t src z x) : endsInMinus front = true := by
  obtain ⟨y, op, hsign⟩ := hz.sign
  have hrange := hx.start_eq
  have hfirst := hz.first
  rw [h.endsInMinus_front_iff hsplit hfront, hrange.1, hfirst]
  refine ⟨fun d hd hstop => ?_, hsign.endsInMinus_before hw⟩
  have hdmem : d ∈ edits.toList := hsplit ▸ List.mem_append_left _ hd
  have hemem : e ∈ edits.toList := hsplit ▸ List.mem_append_right _ List.mem_cons_self
  obtain ⟨w, hw', hreplaceable, hdstart, hdstop⟩ := (h.made d hdmem).exists_replaceable
  have hdsolid := h.disjoint.solid d hdmem
  have hesolid := h.disjoint.solid e hemem
  have hzlist := Site.mem_list_of_mem_within hsign.mem (Site.mem_within_of_mem_below hsign.operand)
  have hinside := hw.range_of_mem_within hzlist hz.within
  exact hsign.stop_ne hw (by omega) hw' hreplaceable (by omega) (by omega)

/-- The new text of an edit makes a decrement with what is spliced before it if and only if it is a
    negative number without parentheses, and begins the operand of a minus sign without being the
    operand. -/
theorem Sound.makes_decrement_iff (h : p.Sound src t edits) (hw : t.WellFormed src)
    (hminus : t.MinusOwned src) (hsplit : edits.toList = pre ++ e :: post)
    (hfront : EditSet.spliceBetween? src 0 e.start pre = some front) :
    endsInMinus front = true ∧ beginsWithMinus e.newText.toList = true ↔
      ∃ x ∈ Site.list t, p.PutsSign src e x ∧ ∃ z, x ≠ z ∧ Site.BehindMinus t src z x := by
  have hmade := h.made e (hsplit ▸ List.mem_append_right _ List.mem_cons_self)
  constructor
  · rintro ⟨hends, hbegins⟩
    obtain ⟨x, hx, hputs⟩ := hmade.exists_putsSign hminus hbegins
    have hsource := ((h.endsInMinus_front_iff hsplit hfront).mp hends).2
    rw [hputs.start_eq.1] at hsource
    obtain ⟨z, hz⟩ := hminus.owned x hx hputs.isReplaceable hsource
    refine ⟨x, hx, hputs, z, ?_, hz⟩
    -- The operand itself has the sign's expression right around it, which is guarded.
    rintro rfl
    obtain ⟨y, op, hsign⟩ := hz.sign
    exact absurd (hputs.unguarded.symm.trans hsign.guardsSign_operand) (by simp)
  · rintro ⟨x, -, hputs, z, -, hz⟩
    exact ⟨h.endsInMinus_front hw hsplit hfront hputs hz, hputs.beginsWithMinus⟩

end Front

end Pass

/-! ## What operands begin with -/

theorem Form.isTerm_of_handles {f : Form} {s : Site} (h : f.handles s = true)
    (hkind : s.kind ≠ .shorthandPropertyIdentifier) :
    s.kind.isTerm = true ∧ (s.isWritten = true → s.kind = .unaryExpression) := by
  cases f with
  | memberChain =>
    simp only [handles, Bool.and_eq_true, Bool.or_eq_true, decide_eq_true_eq,
      Bool.not_eq_true'] at h
    refine ⟨?_, fun hwritten => by simp [h.2] at hwritten⟩
    rcases h.1 with hkind | hkind <;> rw [hkind] <;> rfl
  | identifier =>
    simp only [handles, Bool.and_eq_true, Bool.or_eq_true, decide_eq_true_eq,
      Bool.not_eq_true', hkind, or_false] at h
    refine ⟨?_, fun hwritten => by simp [h.2] at hwritten⟩
    rw [h.1]
    rfl
  | typeofOperand =>
    simp only [handles, Bool.and_eq_true, decide_eq_true_eq] at h
    exact ⟨by rw [h.1]; rfl, fun _ => h.1⟩

namespace Site

theorem IsMinus.isNegated {t : Tree} {src : Source} {y op z : Site} (h : IsMinus t src y op z) :
    z.isNegated = true := by
  have habove : z.above.head? = some y.tree := by
    rw [above_of_mem_below h.operand]
    rfl
  have hsign : y.tree.children.any (fun c => c.fills .operator && c.kind = .other "-") = true := by
    rw [List.any_eq_true]
    refine ⟨op.tree, tree_mem_of_mem_below h.sign, ?_⟩
    rw [Bool.and_eq_true, decide_eq_true_eq]
    exact ⟨h.operator, h.kind⟩
  rw [Site.isNegated, habove]
  simp only [hsign, Bool.true_and, Bool.or_eq_true, Bool.and_eq_true, decide_eq_true_eq]
  exact h.side

/-- What lies behind a sign, and is not its operand, is what the operand begins with. -/
theorem BehindMinus.mem_fronts {t : Tree} {src : Source} {z x : Site} (h : BehindMinus t src z x)
    (hne : x ≠ z) (hterm : x.kind.isTerm = true) : x ∈ z.fronts := by
  rcases mem_within_iff.mp h.within with heq | ⟨c, hc, hx⟩
  · exact absurd heq hne
  · refine List.mem_flatMap.mpr ⟨c, hc, List.mem_filter.mpr ⟨hx, ?_⟩⟩
    rw [hterm, Bool.and_true, decide_eq_true_eq]
    exact h.first

/-- An expression that begins with a node and binds tighter than a minus sign asks for parentheses
    around a sign in the node's place. -/
theorem guardsSign_of_tight {x : Site} {f : Field} (h : x.parentLead? = some (.tight f))
    (hfills : x.fills f = true) : x.guardsSign = true := by
  rw [parentLead?, Option.bind_eq_some_iff] at h
  obtain ⟨k, hk, hlead⟩ := h
  rw [guardsSign, hk]
  rw [Kind.lead?.eq_def] at hlead
  split at hlead <;> cases hlead
  all_goals first | rfl | exact hfills

/-- An expression that assigns or binds a node writes it. -/
theorem isWritten_of_target {x : Site} {f : Field} (h : x.parentLead? = some (.target f))
    (hfills : x.fills f = true) : x.isWritten = true := by
  rw [parentLead?, parentKind?, Option.bind_eq_some_iff] at h
  obtain ⟨k, hk, hlead⟩ := h
  obtain ⟨parent, hparent, hkind⟩ := Option.map_eq_some_iff.mp hk
  rw [isWritten, hparent]
  simp only [hkind]
  rw [Kind.lead?.eq_def] at hlead
  split at hlead <;> cases hlead
  all_goals exact hfills

end Site

namespace Pass

variable {p : Pass} {src : Source} {t : Tree}

/-- A node whose edit is a number is a name, an access or calculated. If it is written, it is
    calculated. -/
theorem PutsSign.isTerm {e : Edit} {x : Site} (h : p.PutsSign src e x) :
    x.kind.isTerm = true ∧
      (x.isWritten = true → x.kind = .unaryExpression ∨ x.kind = .binaryExpression) := by
  rcases h.number with ⟨r, hout, -, -⟩ | ⟨v, hbinary, -, -⟩
  · obtain ⟨f, -, hhandles⟩ := handles_of_answer? (replacement?_eq_some_iff.mp hout.found).2
    obtain ⟨hterm, hwritten⟩ := Form.isTerm_of_handles hhandles h.kind
    exact ⟨hterm, fun h => Or.inl (hwritten h)⟩
  · exact ⟨by rw [hbinary]; rfl, fun _ => Or.inr hbinary⟩

/-- A node that gets a negative number without parentheses is not what an operand of a minus sign
    begins with. -/
theorem PutsSign.not_front {e : Edit} {x z : Site} (h : p.PutsSign src e x) (hbind : t.SignsBind)
    (hne : x ≠ z) : ¬ Site.BehindMinus t src z x := by
  intro hz
  obtain ⟨y, op, hsign⟩ := hz.sign
  obtain ⟨hterm, hwritten⟩ := h.isTerm
  have hzlist := Site.mem_list_of_mem_within hsign.mem (Site.mem_within_of_mem_below hsign.operand)
  have hfront := hz.mem_fronts hne hterm
  have hled := hbind.led z hzlist hsign.isNegated x hfront
  have htight := hbind.tight z hzlist hsign.isNegated x hfront
  rw [Site.isLed] at hled
  cases hlead : x.parentLead? with
  | none => simp [hlead] at hled
  | some l =>
    rw [hlead] at hled
    cases l with
    | tight f =>
      have hguards := Site.guardsSign_of_tight hlead hled
      exact absurd (h.unguarded.symm.trans hguards) (by simp)
    | target f =>
      -- A target is written, and it is not calculated.
      simp only [Bool.and_eq_true, decide_eq_true_eq] at hled
      rcases hwritten (Site.isWritten_of_target hlead hled.1.1) with hkind | hkind
      · exact hled.1.2 hkind
      · exact hled.2 hkind
    | loose => exact htight hlead

end Pass

/-! ## An access with an assertion behind it

`a-N.b!;` with a negative number for the name `N`, which begins the operand of the sign. The mark
of the assertion is around the whole difference. -/

namespace Sample

def differenceSource : Source :=
  .ofString "a-N.b!;"

def differenceName : Tree :=
  part .identifier true 2 3 [.object] []

def differenceAccess : Tree :=
  part .memberExpression true 2 5 [.right]
    [differenceName, token "." 3 4 [], part .propertyIdentifier true 4 5 [.property] []]

def difference : Tree :=
  part .binaryExpression true 0 5 []
    [part .identifier true 0 1 [.left] [], token "-" 1 2 [.operator], differenceAccess]

def differenceAssertion : Tree :=
  part (.other "non_null_expression") true 0 6 [] [difference, token "!" 5 6 []]

def differenceStatement : Tree :=
  part (.other "expression_statement") true 0 7 [] [differenceAssertion, token ";" 6 7 []]

def differenceTree : Tree :=
  part (.other "program") true 0 7 [] [differenceStatement]

/-- The nodes around the parts of the difference. -/
def differenceAbove : List Tree :=
  [difference, differenceAssertion, differenceStatement, differenceTree]

def differencePass : Pass :=
  .ofDefines ⟨[("N", .integer (-1))]⟩ true default

/-- The access is the operand of the sign, and the name begins it. -/
theorem difference_behindMinus {x : Site}
    (hx : x ∈ (⟨differenceAccess, differenceAbove⟩ : Site).within) (hstart : x.tree.start = 2) :
    Site.BehindMinus differenceTree differenceSource ⟨differenceAccess, differenceAbove⟩ x where
  sign := ⟨⟨difference, differenceAbove.tail⟩, ⟨token "-" 1 2 [.operator], differenceAbove⟩,
    { mem := List.mem_of_getElem? (i := 3) rfl
      sign := List.mem_of_getElem? (i := 1) rfl
      operand := List.mem_of_getElem? (i := 2) rfl
      operator := by decide
      side := Or.inr ⟨rfl, by decide⟩
      kind := rfl
      leaf := rfl
      text := by decide +kernel
      touches := rfl }⟩
  within := hx
  first := hstart

/-- The nodes that could be replaced. -/
theorem difference_replaceable :
    (Site.list differenceTree).filter Site.isReplaceable =
      [⟨difference, differenceAbove.tail⟩,
       ⟨part .identifier true 0 1 [.left] [], differenceAbove⟩,
       ⟨differenceAccess, differenceAbove⟩,
       ⟨differenceName, differenceAccess :: differenceAbove⟩] :=
  rfl

theorem difference_minusOwned : differenceTree.MinusOwned differenceSource where
  owned := by
    intro s hs hreplaceable hends
    have hmem := difference_replaceable ▸ List.mem_filter.mpr ⟨hs, hreplaceable⟩
    simp only [List.mem_cons, List.not_mem_nil, or_false] at hmem
    rcases hmem with rfl | rfl | rfl | rfl
    · exact absurd hends (by decide +kernel)
    · exact absurd hends (by decide +kernel)
    · exact ⟨_, difference_behindMinus (Site.mem_within_self _) rfl⟩
    · exact ⟨_, difference_behindMinus (List.mem_of_getElem? (i := 1) rfl) rfl⟩
  name := by
    have hkinds : ∀ s ∈ Site.list differenceTree, s.kind ≠ .shorthandPropertyIdentifier := by decide
    exact fun s hs hkind => absurd hkind (hkinds s hs)

end Sample

namespace Pass

end Pass

end DefineFold
