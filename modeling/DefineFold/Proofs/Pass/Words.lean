/-
  DefineFold.Proofs.Pass.Words

  When a new text runs into a word beside it. A pass puts literals where expressions stood and
  never looks at the characters around them. A name, a number or a keyword is apart from the
  words beside it in the source; but an expression can begin or end with a quote, a bracket or
  a sign, which is then all that kept a word away. `run_joins_iff` says exactly when an edit
  and a word run together, and `run_joins_iff_sample` is a pass that makes `returntrue` out of
  `return"a"===A`.
-/

import DefineFold.Proofs.Edit.Neighbours
import DefineFold.Proofs.Pass.Output
import DefineFold.Proofs.Value.Literal

namespace DefineFold

/-! ## Words of a source -/

/-- The kinds of names, of numbers, and of the words that are expressions. -/
def Kind.isWord : Kind → Bool
  | .identifier => true
  | .propertyIdentifier => true
  | .shorthandPropertyIdentifier => true
  | .thisWord => true
  | .trueLiteral => true
  | .falseLiteral => true
  | .nullLiteral => true
  | .undefinedWord => true
  | .numberLiteral => true
  | .other text =>
    ["shorthand_property_identifier_pattern", "statement_identifier", "type_identifier",
      "super"].contains text
  | _ => false

/-- A leaf that is a name, a number or a keyword. -/
def Site.isWord (s : Site) : Bool :=
  s.tree.children.isEmpty &&
    (s.kind.isWord || (!s.tree.head.named && s.kind.text.toList.all isWordChar))

/-- Every name, number and keyword of a tree is whole: no word stands right before or right
    behind it in the source. -/
def Tree.WordsWhole (t : Tree) (src : Source) : Prop :=
  ∀ s ∈ Site.list t, s.isWord = true →
    endsInWord (src.before s.tree.start) = false ∧ beginsWithWord (src.after s.tree.stop) = false

instance (t : Tree) (src : Source) : Decidable (t.WordsWhole src) :=
  inferInstanceAs (Decidable (∀ s ∈ Site.list t, s.isWord = true →
    endsInWord (src.before s.tree.start) = false ∧
      beginsWithWord (src.after s.tree.stop) = false))

namespace Pass

variable {p : Pass} {src : Source} {t : Tree}

theorem Makes.newText_ne_nil {e : Edit} (h : p.Makes src t e) : e.newText.toList ≠ [] := by
  cases h with
  | @substitution s r _ _ => exact s.replacementText_ne_nil src r.value
  | @folding s q r value _ _ _ _ _ => exact s.fit_ne_nil value.literal_ne_nil

/-! ## Edits that touch -/

section Touching

variable {edits : EditSet} {pre post : List Edit} {e d : Edit}

/-- An edit that ends where another begins comes before it. -/
theorem mem_front_of_stop_eq (h : edits.Disjoint) (hsplit : edits.toList = pre ++ e :: post)
    (hd : d ∈ edits.toList) (hstop : d.stop = e.start) : d ∈ pre := by
  have hdsolid := h.solid d hd
  have hesolid := h.solid e (hsplit ▸ List.mem_append_right _ List.mem_cons_self)
  have hapart := hsplit ▸ h.apart
  rw [hsplit] at hd
  rcases List.mem_append.mp hd with hd | hd
  · exact hd
  · rcases List.mem_cons.mp hd with rfl | hd
    · omega
    · have hafter := (List.pairwise_cons.mp (List.pairwise_append.mp hapart).2.1).1 d hd
      omega

/-- An edit that begins where another ends comes behind it. -/
theorem mem_back_of_start_eq (h : edits.Disjoint) (hsplit : edits.toList = pre ++ e :: post)
    (hd : d ∈ edits.toList) (hstart : d.start = e.stop) : d ∈ post := by
  have hdsolid := h.solid d hd
  have hesolid := h.solid e (hsplit ▸ List.mem_append_right _ List.mem_cons_self)
  have hapart := hsplit ▸ h.apart
  rw [hsplit] at hd
  rcases List.mem_append.mp hd with hd | hd
  · have hbefore := (List.pairwise_append.mp hapart).2.2 d hd e List.mem_cons_self
    omega
  · rcases List.mem_cons.mp hd with rfl | hd
    · omega
    · exact hd

/-- What is spliced before an edit runs into its new text if the new text of an edit that ends
    there does, or, where none ends and no name, number or keyword begins, the source does. -/
theorem Sound.joins_front_iff (h : p.Sound src t edits) (hwords : t.WordsWhole src)
    (hsplit : edits.toList = pre ++ e :: post) {front : List Char}
    (hfront : EditSet.spliceBetween? src 0 e.start pre = some front) :
    joins front e.newText.toList = true ↔
      (∃ d ∈ edits.toList, d.stop = e.start ∧
        joins d.newText.toList e.newText.toList = true) ∨
      (∀ d ∈ edits.toList, d.stop ≠ e.start) ∧
        (∀ s ∈ Site.list t, s.isWord = true → s.tree.start ≠ e.start) ∧
        joins (src.before e.start) e.newText.toList = true := by
  have hmem : ∀ d ∈ pre, d ∈ edits.toList := fun d hd =>
    hsplit ▸ List.mem_append_left _ hd
  have hpre := h.disjoint.apart
  rw [hsplit] at hpre
  have hends := EditSet.endsInWord_front_iff (fun d hd => h.disjoint.solid d (hmem d hd))
    (List.pairwise_append.mp hpre).1 (fun d hd => (h.made d (hmem d hd)).newText_ne_nil) hfront
  simp only [joins, Bool.and_eq_true]
  rw [hends]
  constructor
  · rintro ⟨⟨d, hd, hstop, hword⟩ | ⟨hnone, hword⟩, hbegin⟩
    · exact Or.inl ⟨d, hmem d hd, hstop, hword, hbegin⟩
    · refine Or.inr ⟨fun d hd hstop => ?_, fun s hs hsword hstart => ?_, hword, hbegin⟩
      · exact hnone d (mem_front_of_stop_eq h.disjoint hsplit hd hstop) hstop
      · -- A word that begins here has no word before it.
        have hwhole := (hwords s hs hsword).1
        rw [hstart, hword] at hwhole
        simp at hwhole
  · rintro (⟨d, hd, hstop, hword, hbegin⟩ | ⟨hnone, -, hword, hbegin⟩)
    · exact ⟨Or.inl ⟨d, mem_front_of_stop_eq h.disjoint hsplit hd hstop, hstop, hword⟩, hbegin⟩
    · exact ⟨Or.inr ⟨fun d hd => hnone d (hmem d hd), hword⟩, hbegin⟩

/-- The new text of an edit runs into what is spliced behind it if it runs into the new text of
    an edit that begins there, or, where none begins and no name, number or keyword ends, into
    the source. -/
theorem Sound.joins_back_iff (h : p.Sound src t edits) (hwords : t.WordsWhole src)
    (hsplit : edits.toList = pre ++ e :: post) {back : List Char}
    (hback : EditSet.spliceBetween? src e.stop src.size post = some back) :
    joins e.newText.toList back = true ↔
      (∃ d ∈ edits.toList, d.start = e.stop ∧
        joins e.newText.toList d.newText.toList = true) ∨
      (∀ d ∈ edits.toList, d.start ≠ e.stop) ∧
        (∀ s ∈ Site.list t, s.isWord = true → s.tree.stop ≠ e.stop) ∧
        joins e.newText.toList (src.after e.stop) = true := by
  have hmem : ∀ d ∈ post, d ∈ edits.toList := fun d hd =>
    hsplit ▸ List.mem_append_right _ (List.mem_cons_of_mem _ hd)
  have hpost := h.disjoint.apart
  rw [hsplit] at hpost
  have hbegins := EditSet.beginsWithWord_back_iff (fun d hd => h.disjoint.solid d (hmem d hd))
    (List.pairwise_cons.mp (List.pairwise_append.mp hpost).2.1).2
    (fun d hd => (h.made d (hmem d hd)).newText_ne_nil) hback
  simp only [joins, Bool.and_eq_true]
  rw [hbegins]
  constructor
  · rintro ⟨hend, ⟨d, hd, hstart, hword⟩ | ⟨hnone, hword⟩⟩
    · exact Or.inl ⟨d, hmem d hd, hstart, hend, hword⟩
    · refine Or.inr ⟨fun d hd hstart => ?_, fun s hs hsword hstop => ?_, hend, hword⟩
      · exact hnone d (mem_back_of_start_eq h.disjoint hsplit hd hstart) hstart
      · -- A word that ends here has no word behind it.
        have hwhole := (hwords s hs hsword).2
        rw [hstop, hword] at hwhole
        simp at hwhole
  · rintro (⟨d, hd, hstart, hend, hword⟩ | ⟨hnone, -, hend, hword⟩)
    · exact ⟨hend, Or.inl ⟨d, mem_back_of_start_eq h.disjoint hsplit hd hstart, hstart, hword⟩⟩
    · exact ⟨hend, Or.inr ⟨fun d hd => hnone d (hmem d hd), hword⟩⟩

end Touching

/-- Over a source whose names, numbers and keywords are whole, a pass puts each edit between
    what is spliced before it and what is spliced behind it, and its new text runs into a word
    there in two cases only. Either an edit touches it, and the two new texts run together; or
    none does, no name, number or keyword of the source begins (or ends) where the edit does,
    and its new text runs into the source: what was replaced began (or ended) with some other
    token, which alone kept the word away. -/
theorem run_joins_iff (p : Pass) (src : Source) (t : Tree) (path : String)
    (hw : t.WellFormed src) (hclean : t.firstBad? = none) (hwords : t.WordsWhole src) :
    ∃ o, p.run src t path = .ok o ∧
      ∀ pre e post, o.edits = pre ++ e :: post → ∃ front back,
        EditSet.spliceBetween? src 0 e.start pre = some front ∧
        EditSet.spliceBetween? src e.stop src.size post = some back ∧
        o.code.toList = front ++ e.newText.toList ++ back ∧
        (joins front e.newText.toList = true ↔
          (∃ d ∈ o.edits, d.stop = e.start ∧ joins d.newText.toList e.newText.toList = true) ∨
          (∀ d ∈ o.edits, d.stop ≠ e.start) ∧
            (∀ s ∈ Site.list t, s.isWord = true → s.tree.start ≠ e.start) ∧
            joins (src.before e.start) e.newText.toList = true) ∧
        (joins e.newText.toList back = true ↔
          (∃ d ∈ o.edits, d.start = e.stop ∧ joins e.newText.toList d.newText.toList = true) ∨
          (∀ d ∈ o.edits, d.start ≠ e.stop) ∧
            (∀ s ∈ Site.list t, s.isWord = true → s.tree.stop ≠ e.stop) ∧
            joins e.newText.toList (src.after e.stop) = true) := by
  have hsound := sound_edits (p := p) hw
  obtain ⟨code, hrun, hsplice⟩ := run_eq_ok (p := p) hw hclean path
  refine ⟨_, hrun, fun pre e post hsplit => ?_⟩
  -- The code, cut at the edit.
  rw [EditSet.splice?, Option.map_eq_some_iff] at hsplice
  obtain ⟨cs, hcs, rfl⟩ := hsplice
  simp only at hsplit
  rw [EditSet.spliceFrom?_eq_spliceBetween?, hsplit] at hcs
  obtain ⟨front, back, hfront, hback, rfl⟩ := EditSet.spliceBetween?_append_cons.mp hcs
  exact ⟨front, back, hfront, hback, String.toList_ofList,
    hsound.joins_front_iff hwords hsplit hfront, hsound.joins_back_iff hwords hsplit hback⟩

theorem run_joins_iff_sample :
    Sample.tree.WellFormed Sample.source ∧ Sample.tree.firstBad? = none ∧
      Sample.tree.WordsWhole Sample.source ∧
      ∃ o, (Sample.pass true).run Sample.source Sample.tree "a.js" = .ok o ∧
        o.code = "\"a\";returntrue;" ∧
        ∃ pre e post front, o.edits = pre ++ e :: post ∧
          EditSet.spliceBetween? Sample.source 0 e.start pre = some front ∧
          joins front e.newText.toList = true := by
  have hwords : Sample.tree.WordsWhole Sample.source := by decide +kernel
  refine ⟨Sample.tree_wellFormed, Sample.tree_firstBad?, hwords, ?_⟩
  obtain ⟨o, hrun, hall⟩ := run_joins_iff (Sample.pass true) Sample.source Sample.tree "a.js"
    Sample.tree_wellFormed Sample.tree_firstBad? hwords
  have houtcome : ((Sample.pass true).run Sample.source Sample.tree "a.js").toOption.map
      (fun o => (o.code, o.edits)) = some ("\"a\";returntrue;",
        [⟨0, 1, 1, 1, "A", "\"a\"", .substitution "A", some (.string "a")⟩,
          ⟨8, 15, 1, 9, "\"a\"===A", "true", .fold, some (.bool true)⟩]) := by
    decide +kernel
  rw [hrun] at houtcome
  obtain ⟨hcode, hedits⟩ := Prod.mk.inj (Option.some.inj houtcome)
  obtain ⟨front, back, hfront, -, -, hjoins, -⟩ := hall [_] _ [] hedits
  refine ⟨o, hrun, hcode, [_], _, [], front, hedits, hfront, hjoins.mpr (Or.inr ?_)⟩
  rw [hedits]
  decide +kernel

end Pass
end DefineFold
