/-
  DefineFold.Proofs.Pass.Spellings

  How chains are written. A chain is a name or `this` with links behind it, and each link is written
  as a property or as a quoted subscript (`Tree.Spells`). It is dynamic if a link of it is optional,
  private, or a subscript that is no readable string, or if it goes back to something else than a
  name or `this` (`Tree.Dynamic`). Every tree is the one or the other (`Tree.spells_or_dynamic`).

  The segments are collected from the last link to the root, each put before those that are already
  there. So what is found for a chain is its list of names, with what was collected on the way to it
  behind them (`Spells.segmentsOnto?`), and a dynamic chain yields nothing, wherever on the way that
  shows (`Dynamic.segmentsOnto?`). How a link is written plays no part in what the defines answer
  (`Tree.segments?_spelling`).
-/

import DefineFold.Proofs.Pass.Chains

namespace DefineFold

theorem Kind.eq_of_isAccess {k : Kind} (h : k.isAccess = true) :
    k = .memberExpression ∨ k = .subscriptExpression := by
  rw [isAccess.eq_def] at h
  split at h
  case h_1 => exact Or.inl rfl
  case h_2 => exact Or.inr rfl
  case h_3 => simp at h

namespace Tree

/-! ## Links -/

/-- An access that adds a link to what it reads from: a property, or a subscript that is a string
    literal of the link. -/
inductive WritesLink (src : Source) (t : Tree) : String → Prop where
  | property {p : Tree} (member : t.kind = .memberExpression)
      (plain : hasOptionalLink t.children = false) (field : t.child? .property = some p)
      (named : p.kind = .propertyIdentifier) : WritesLink src t (p.text src)
  | subscript {i : Tree} {link : String} (subscript : t.kind = .subscriptExpression)
      (plain : hasOptionalLink t.children = false) (field : t.child? .index = some i)
      (quoted : i.kind = .stringLiteral) (decoded : decodeQuoted? (i.text src) = some link) :
      WritesLink src t link

/-- An access whose link the source does not tell. Grammars never leave the property or the
    subscript out. -/
inductive HidesLink (src : Source) (t : Tree) : Prop where
  | optional (access : t.kind.isAccess = true) (mark : hasOptionalLink t.children = true)
  | otherProperty {p : Tree} (member : t.kind = .memberExpression)
      (field : t.child? .property = some p) (other : p.kind ≠ .propertyIdentifier)
  | otherSubscript {i : Tree} (subscript : t.kind = .subscriptExpression)
      (field : t.child? .index = some i) (other : i.kind ≠ .stringLiteral)
  | undecodable {i : Tree} (subscript : t.kind = .subscriptExpression)
      (field : t.child? .index = some i) (unread : decodeQuoted? (i.text src) = none)
  | noProperty (member : t.kind = .memberExpression) (field : t.child? .property = none)
  | noSubscript (subscript : t.kind = .subscriptExpression) (field : t.child? .index = none)

section

variable {src : Source} {t : Tree}

theorem WritesLink.isAccess {link : String} (h : t.WritesLink src link) :
    t.kind.isAccess = true := by
  cases h with
  | property member _ _ _ => rw [member]; rfl
  | subscript subscript _ _ _ _ => rw [subscript]; rfl

theorem HidesLink.isAccess (h : t.HidesLink src) : t.kind.isAccess = true := by
  cases h with
  | optional access _ => exact access
  | otherProperty member _ _ => rw [member]; rfl
  | otherSubscript subscript _ _ => rw [subscript]; rfl
  | undecodable subscript _ _ => rw [subscript]; rfl
  | noProperty member _ => rw [member]; rfl
  | noSubscript subscript _ => rw [subscript]; rfl

/-- The link of an access, by the field that holds it. -/
theorem link?_member (member : t.kind = .memberExpression)
    (plain : hasOptionalLink t.children = false) :
    link? src t.kind t.children = (t.child? .property).bind fun p =>
      if p.kind = .propertyIdentifier then some (p.text src) else none := by
  rw [link?, plain, member, child?]
  cases t.children.find? (·.fills .property) <;> rfl

theorem link?_subscript (subscript : t.kind = .subscriptExpression)
    (plain : hasOptionalLink t.children = false) :
    link? src t.kind t.children = (t.child? .index).bind fun i =>
      if i.kind = .stringLiteral then decodeQuoted? (i.text src) else none := by
  rw [link?, plain, subscript, child?]
  cases t.children.find? (·.fills .index) <;> rfl

theorem WritesLink.link? {link : String} (h : t.WritesLink src link) :
    Tree.link? src t.kind t.children = some link := by
  cases h with
  | property member plain field named =>
    rw [link?_member member plain, field, Option.bind_some, if_pos named]
  | subscript subscript plain field quoted decoded =>
    rw [link?_subscript subscript plain, field, Option.bind_some, if_pos quoted, decoded]

theorem HidesLink.link? (h : t.HidesLink src) : Tree.link? src t.kind t.children = none := by
  cases hplain : hasOptionalLink t.children with
  | true =>
    -- An optional link is hidden before any field is looked at.
    rw [Tree.link?, hplain, if_pos rfl]
  | false =>
    cases h with
    | optional _ mark => simp [hplain] at mark
    | otherProperty member field other =>
      rw [link?_member member hplain, field, Option.bind_some, if_neg other]
    | otherSubscript subscript field other =>
      rw [link?_subscript subscript hplain, field, Option.bind_some, if_neg other]
    | undecodable subscript field unread =>
      rw [link?_subscript subscript hplain, field, Option.bind_some, unread, ite_self]
    | noProperty member field => rw [link?_member member hplain, field, Option.bind_none]
    | noSubscript subscript field => rw [link?_subscript subscript hplain, field, Option.bind_none]

/-- The source tells the link of an access or does not. -/
theorem writesLink_or_hidesLink (src : Source) (haccess : t.kind.isAccess = true) :
    (∃ link, t.WritesLink src link) ∨ t.HidesLink src := by
  cases hplain : hasOptionalLink t.children with
  | true => exact Or.inr (.optional haccess hplain)
  | false =>
    -- The link is looked for in the field of the access's own kind.
    rcases Kind.eq_of_isAccess haccess with member | subscript
    · cases hfield : t.child? .property with
      | none => exact Or.inr (.noProperty member hfield)
      | some p =>
        by_cases hnamed : p.kind = .propertyIdentifier
        · exact Or.inl ⟨_, .property member hplain hfield hnamed⟩
        · exact Or.inr (.otherProperty member hfield hnamed)
    · cases hfield : t.child? .index with
      | none => exact Or.inr (.noSubscript subscript hfield)
      | some i =>
        by_cases hquoted : i.kind = .stringLiteral
        · cases hdecoded : decodeQuoted? (i.text src) with
          | none => exact Or.inr (.undecodable subscript hfield hdecoded)
          | some link => exact Or.inl ⟨link, .subscript subscript hplain hfield hquoted hdecoded⟩
        · exact Or.inr (.otherSubscript subscript hfield hquoted)

end

/-! ## Chains -/

/-- A tree that writes a chain with the given names, the root first. -/
inductive Spells (src : Source) : Tree → List String → Prop where
  | name {t : Tree} (root : t.kind = .identifier) : Spells src t [t.text src]
  | thisWord {t : Tree} (root : t.kind = .thisWord) : Spells src t ["this"]
  | link {t o : Tree} {names : List String} {link : String} (written : t.WritesLink src link)
      (object : t.child? .object = some o) (rest : Spells src o names) :
      Spells src t (names ++ [link])

/-- A tree that writes no chain: it is no part of one, a link of it is not told by the source, or
    what it reads from is dynamic. Grammars never leave out what an access reads from. -/
inductive Dynamic (src : Source) : Tree → Prop where
  | root {t : Tree} (other : t.kind.isChain = false) : Dynamic src t
  | link {t : Tree} (hidden : t.HidesLink src) : Dynamic src t
  | object {t o : Tree} (access : t.kind.isAccess = true) (object : t.child? .object = some o)
      (rest : Dynamic src o) : Dynamic src t
  | noObject {t : Tree} (access : t.kind.isAccess = true) (object : t.child? .object = none) :
      Dynamic src t

section

variable {src : Source} {t : Tree} {names : List String}

/-- The segments of an access: its link goes before those collected so far, and the segments of
    what it reads from before both. -/
theorem segmentsOnto?_access (src : Source) (later : List String)
    (haccess : t.kind.isAccess = true) :
    t.segmentsOnto? src later = (link? src t.kind t.children).bind fun link =>
      (t.child? .object).bind (segmentsOnto? src (link :: later)) := by
  obtain ⟨head, children⟩ := t
  have hobject : ∀ link, segmentsOfObject? src (link :: later) children =
      ((Tree.node head children).child? .object).bind (segmentsOnto? src (link :: later)) :=
    fun link => segmentsOfObject?_eq src (link :: later) children
  rcases Kind.eq_of_isAccess haccess with hkind | hkind
  all_goals
    have hhead : head.kind = _ := hkind
    rw [segmentsOnto?, hkind]
    simp only [hhead, hobject, Tree.children]
    cases link? src _ children <;> rfl

theorem segmentsOnto?_of_not_isChain (src : Source) (later : List String)
    (hother : t.kind.isChain = false) : t.segmentsOnto? src later = none := by
  obtain ⟨head, children⟩ := t
  have hne : ∀ k : Kind, k.isChain = true → head.kind ≠ k := by
    rintro k hk rfl
    rw [kind, Tree.head, hk] at hother
    simp at hother
  rw [segmentsOnto?]
  split
  case h_1 hkind | h_2 hkind | h_3 hkind | h_4 hkind => exact absurd hkind (hne _ rfl)
  case h_5 => rfl

/-- The names of a chain come before what was collected on the way to it. -/
theorem Spells.segmentsOnto? (h : t.Spells src names) (later : List String) :
    t.segmentsOnto? src later = some (names ++ later) := by
  induction h generalizing later with
  | @name t root =>
    obtain ⟨head, children⟩ := t
    rw [Tree.segmentsOnto?, show head.kind = .identifier from root]
    rfl
  | @thisWord t root =>
    obtain ⟨head, children⟩ := t
    rw [Tree.segmentsOnto?, show head.kind = .thisWord from root]
    rfl
  | link written object rest ih =>
    rw [segmentsOnto?_access src later written.isAccess, written.link?, object, Option.bind_some,
      Option.bind_some, ih, List.append_assoc]
    rfl

/-- A dynamic chain yields nothing, wherever on the way to its root that shows. -/
theorem Dynamic.segmentsOnto? (h : t.Dynamic src) (later : List String) :
    t.segmentsOnto? src later = none := by
  induction h generalizing later with
  | root other => exact segmentsOnto?_of_not_isChain src later other
  | link hidden =>
    rw [segmentsOnto?_access src later hidden.isAccess, hidden.link?, Option.bind_none]
  | object access object rest ih =>
    -- The links up to here may be told or not; the object yields nothing in either case.
    rw [segmentsOnto?_access src later access, object]
    cases Tree.link? src _ _ with
    | none => rfl
    | some link => exact ih (link :: later)
  | noObject access object =>
    rw [segmentsOnto?_access src later access, object]
    cases Tree.link? src _ _ <;> rfl

/-- Every tree writes a chain or is dynamic. -/
theorem spells_or_dynamic (src : Source) (s : Site) :
    (∃ names, s.tree.Spells src names) ∨ s.tree.Dynamic src := by
  -- The induction goes from an access to what it reads from, which is a node right below it.
  induction s using Site.below_induction with
  | step s ih =>
    cases hchain : s.tree.kind.isChain with
    | false => exact Or.inr (.root hchain)
    | true =>
      rw [Kind.isChain, Bool.or_eq_true] at hchain
      rcases hchain with hroot | haccess
      · rw [Kind.isRoot.eq_def] at hroot
        split at hroot
        case h_1 hkind => exact Or.inl ⟨_, .name hkind⟩
        case h_2 hkind => exact Or.inl ⟨_, .thisWord hkind⟩
        case h_3 => simp at hroot
      · rcases writesLink_or_hidesLink src haccess with ⟨link, hwritten⟩ | hhidden
        · cases hobject : s.tree.child? .object with
          | none => exact Or.inr (.noObject haccess hobject)
          | some o =>
            rcases ih _ (Site.mem_below_of_child? hobject).1 with ⟨names, hnames⟩ | hdynamic
            · exact Or.inl ⟨_, .link hwritten hobject hnames⟩
            · exact Or.inr (.object haccess hobject hdynamic)
        · exact Or.inr (.link hhidden)

theorem Spells.segments? (h : t.Spells src names) : t.segments? src = some names := by
  rw [Tree.segments?, h.segmentsOnto?, List.append_nil]

theorem Dynamic.segments? (h : t.Dynamic src) : t.segments? src = none :=
  h.segmentsOnto? []

theorem spells_of_segments? (h : t.segments? src = some names) : t.Spells src names := by
  rcases spells_or_dynamic src (Site.root t) with ⟨names', hnames⟩ | hdynamic
  · obtain rfl : names' = names := Option.some.inj (hnames.segments?.symm.trans h)
    exact hnames
  · rw [show t.segments? src = none from hdynamic.segments?] at h
    simp at h

theorem dynamic_of_segments? (h : t.segments? src = none) : t.Dynamic src := by
  rcases spells_or_dynamic src (Site.root t) with ⟨names, hnames⟩ | hdynamic
  · rw [show t.segments? src = some names from hnames.segments?] at h
    simp at h
  · exact hdynamic

end

/-- The segments of a tree are the names of the chain that it writes, the root first, however each
    link is written; and a tree has no segments just if it is dynamic. So the defines answer a chain
    by its names alone, in whatever source and with whatever spelling it stands. -/
theorem segments?_spelling (src : Source) (t : Tree) :
    (∀ names, t.segments? src = some names ↔ t.Spells src names) ∧
    (t.segments? src = none ↔ t.Dynamic src) ∧
    ∀ names, t.Spells src names → ∀ table : Table,
      Form.memberChain.answer? table src t = table.resolve? .memberChain (.memberChain names) ∧
      ∀ (src' : Source) (t' : Tree), t'.Spells src' names →
        Form.memberChain.answer? table src' t' = Form.memberChain.answer? table src t := by
  have hanswer : ∀ (table : Table) {src : Source} {t : Tree} {names : List String},
      t.Spells src names → Form.memberChain.answer? table src t =
        table.resolve? .memberChain (.memberChain names) := by
    intro table src t names hnames
    rw [Form.answer?, hnames.segments?, Option.bind_some]
  refine ⟨fun names => ⟨spells_of_segments?, Spells.segments?⟩,
    ⟨dynamic_of_segments?, Dynamic.segments?⟩, fun names hnames table => ?_⟩
  refine ⟨hanswer table hnames, fun src' t' hnames' => ?_⟩
  rw [hanswer table hnames, hanswer table hnames']

end Tree

/-! ## One chain in two spellings

`this["a"].b` and `this.a['\x62']`, and an optional link in the middle of `this?.a.b`. -/

namespace Sample

def spellingsSource : Source :=
  .ofString "this[\"a\"].b;this.a['\\x62'];this?.a.b;"

def quotedFirst : Tree :=
  part .memberExpression true 0 11 []
    [part .subscriptExpression true 0 9 [.object]
      [part .thisWord true 0 4 [.object] [], token "[" 4 5 [],
       part .stringLiteral true 5 8 [.index] [], token "]" 8 9 []],
     token "." 9 10 [], part .propertyIdentifier true 10 11 [.property] []]

def quotedLast : Tree :=
  part .subscriptExpression true 12 26 []
    [part .memberExpression true 12 18 [.object]
      [part .thisWord true 12 16 [.object] [], token "." 16 17 [],
       part .propertyIdentifier true 17 18 [.property] []],
     token "[" 18 19 [], part .stringLiteral true 19 25 [.index] [], token "]" 25 26 []]

def optionalInside : Tree :=
  part .memberExpression true 27 36 []
    [part .memberExpression true 27 34 [.object]
      [part .thisWord true 27 31 [.object] [], part .optionalChain true 31 33 [] [],
       part .propertyIdentifier true 33 34 [.property] []],
     token "." 34 35 [], part .propertyIdentifier true 35 36 [.property] []]

end Sample

namespace Tree

theorem segments?_spelling_mixed :
    Sample.quotedFirst.Spells Sample.spellingsSource ["this", "a", "b"] ∧
    Sample.quotedLast.Spells Sample.spellingsSource ["this", "a", "b"] ∧
    (∀ table : Table, Form.memberChain.answer? table Sample.spellingsSource Sample.quotedLast =
      Form.memberChain.answer? table Sample.spellingsSource Sample.quotedFirst) ∧
    Sample.optionalInside.Dynamic Sample.spellingsSource := by
  obtain ⟨hfirst, -, hanswer⟩ := segments?_spelling Sample.spellingsSource Sample.quotedFirst
  obtain ⟨hlast, -, -⟩ := segments?_spelling Sample.spellingsSource Sample.quotedLast
  obtain ⟨-, hdynamic, -⟩ := segments?_spelling Sample.spellingsSource Sample.optionalInside
  have hspells : Sample.quotedFirst.Spells Sample.spellingsSource ["this", "a", "b"] :=
    (hfirst _).mp (by decide +kernel)
  have hspells' : Sample.quotedLast.Spells Sample.spellingsSource ["this", "a", "b"] :=
    (hlast _).mp (by decide +kernel)
  exact ⟨hspells, hspells', fun table => (hanswer _ hspells table).2 _ _ hspells',
    hdynamic.mp (by decide +kernel)⟩

end Tree

end DefineFold
