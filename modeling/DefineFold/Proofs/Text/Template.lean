/-
  DefineFold.Proofs.Text.Template

  Template literals without substitutions, and the code units that they denote. A template is made
  of the pieces of string literals and of line ends as they stand, which denote a line feed each,
  with a carriage return or without. Templates are read as string literals are, and a line end is
  then what it is in the source: the template is read as the string literal with its line ends
  escaped (`readBody?_templateChars`). So the value is the right one just if no line of the template
  ends with a carriage return, and there is one unless an escape cannot be read
  (`evaluate?_template_iff`).
-/

import DefineFold.Proofs.Pass.Evaluation
import DefineFold.Proofs.Text.Decoded

namespace DefineFold

/-! ## Templates -/

/-- A piece of a template: one that string literals have too, or the end of a line as it stands. -/
inductive TemplatePiece where
  | piece (p : Piece)
  | lineEnd (chars : List Char)
deriving DecidableEq, Repr, Inhabited

namespace TemplatePiece

/-- The piece as it stands in the source. -/
def chars : TemplatePiece → List Char
  | .piece p => p.chars
  | .lineEnd cs => cs

/-- The code units that the piece denotes. However a line ends, it is a line feed. -/
def units : TemplatePiece → List Nat
  | .piece p => p.units
  | .lineEnd _ => [0x0A]

/-- Whether the piece may stand in a template, before the given character. There are no legacy
    escapes, and a dollar sign before a brace would open a substitution. -/
def isAllowed (next : Option Char) : TemplatePiece → Bool
  | .piece p =>
    p.isAllowed '\x60' next && !p.isLegacy && !(p == .plain '$' && next == some '\x7b')
  | .lineEnd cs => cs == ['\n'] || cs == ['\r', '\n'] || (cs == ['\r'] && next != some '\n')

/-- The end of a line that has a carriage return. -/
def hasReturn : TemplatePiece → Bool
  | .piece _ => false
  | .lineEnd cs => cs.contains '\r'

/-- The pieces of a string literal that are read as the piece is: a line end is escaped. -/
def escaped : TemplatePiece → List Piece
  | .piece p => [p]
  | .lineEnd cs => cs.map fun c => .single (if c = '\r' then 'r' else 'n')

end TemplatePiece

/-- The body that pieces make. -/
def templateChars (ts : List TemplatePiece) : List Char :=
  ts.flatMap TemplatePiece.chars

/-- Whether pieces make the body of a template without substitutions. -/
def isTemplate : List TemplatePiece → Bool
  | [] => true
  | t :: ts => t.isAllowed (templateChars ts ++ ['\x60']).head? && isTemplate ts

/-- A template literal without substitutions. -/
structure Template where
  pieces : List TemplatePiece
  spelled : isTemplate pieces = true

namespace Template

/-- The template as it stands in the source. -/
def text (l : Template) : String :=
  String.ofList ('\x60' :: (templateChars l.pieces ++ ['\x60']))

/-- The code units that the template denotes. -/
def units (l : Template) : List Nat :=
  l.pieces.flatMap TemplatePiece.units

/-- Whether a line ends with a carriage return as it stands. -/
def hasReturn (l : Template) : Bool :=
  l.pieces.any TemplatePiece.hasReturn

/-- Whether some escape keeps the template from being read. -/
def isBarred (l : Template) : Bool :=
  hasBar none (l.pieces.flatMap TemplatePiece.escaped)

end Template

/-! ## Escaping line ends -/

theorem Piece.isAllowed_of_not_digit {p : Piece} {quote : Char} {next next' : Option Char}
    (h : p.isAllowed quote next = true) (hlegacy : p.isLegacy = false)
    (hdigit : next'.any isDigit = false) (hfeed : next' ≠ some '\n') :
    p.isAllowed quote next' = true := by
  cases p with
  | zero => simpa [Piece.isAllowed] using hdigit
  | lineBreak cs =>
    simp only [Piece.isAllowed, Bool.or_eq_true, Bool.and_eq_true, beq_iff_eq, bne_iff_ne] at h ⊢
    exact h.imp_right fun hreturn => ⟨hreturn.1, hfeed⟩
  | octal ds => simp [Piece.isLegacy] at hlegacy
  | decimal c => simp [Piece.isLegacy] at hlegacy
  | _ => exact h

section

variable {t : TemplatePiece} {ts : List TemplatePiece} {next : Option Char}

theorem lineEnd_cases {cs : List Char} (h : (TemplatePiece.lineEnd cs).isAllowed next = true) :
    cs = ['\n'] ∨ cs = ['\r', '\n'] ∨ cs = ['\r'] := by
  simp only [TemplatePiece.isAllowed, Bool.or_eq_true, Bool.and_eq_true, beq_iff_eq] at h
  rcases h with (h | h) | h
  · exact .inl h
  · exact .inr (.inl h)
  · exact .inr (.inr h.1)

theorem piece_isAllowed {p : Piece} (h : (TemplatePiece.piece p).isAllowed next = true) :
    p.isAllowed '\x60' next = true ∧ p.isLegacy = false := by
  simp only [TemplatePiece.isAllowed, Bool.and_eq_true, Bool.not_eq_true'] at h
  exact h.1

theorem isTemplate_cons (h : isTemplate (t :: ts) = true) :
    t.isAllowed (templateChars ts ++ ['\x60']).head? = true ∧ isTemplate ts = true := by
  rwa [isTemplate, Bool.and_eq_true] at h

theorem templateChars_cons (t : TemplatePiece) (ts : List TemplatePiece) :
    templateChars (t :: ts) = t.chars ++ templateChars ts :=
  rfl

theorem escaped_piece (p : Piece) (ts : List TemplatePiece) :
    (TemplatePiece.piece p :: ts).flatMap TemplatePiece.escaped =
      p :: ts.flatMap TemplatePiece.escaped :=
  rfl

/-- What comes next is the same character, or the escape of the end of a line. -/
theorem head?_escaped (h : isTemplate ts = true) :
    (bodyChars (ts.flatMap TemplatePiece.escaped) ++ ['\x60']).head? =
        (templateChars ts ++ ['\x60']).head? ∨
      (bodyChars (ts.flatMap TemplatePiece.escaped) ++ ['\x60']).head? = some '\\' := by
  cases ts with
  | nil => exact .inl rfl
  | cons t ts =>
    cases t with
    | piece p =>
      left
      rw [templateChars_cons, escaped_piece, bodyChars_cons]
      cases p <;> rfl
    | lineEnd cs =>
      right
      rcases lineEnd_cases (isTemplate_cons h).1 with rfl | rfl | rfl <;> rfl

/-- A piece may stand before the escaped rest as well. -/
theorem piece_isAllowed_escaped {p : Piece} (h : isTemplate (.piece p :: ts) = true) :
    p.isAllowed '\x60' (bodyChars (ts.flatMap TemplatePiece.escaped) ++ ['\x60']).head? = true := by
  obtain ⟨hp, hts⟩ := isTemplate_cons h
  obtain ⟨hallowed, hlegacy⟩ := piece_isAllowed hp
  rcases head?_escaped hts with hsame | hescape
  · rw [hsame]
    exact hallowed
  · rw [hescape]
    exact Piece.isAllowed_of_not_digit hallowed hlegacy (by decide) (by decide)

/-- The end of a line is escaped by pieces that string literals have. -/
theorem isSpelled_escaped (h : isTemplate ts = true) :
    isSpelled '\x60' (ts.flatMap TemplatePiece.escaped) = true := by
  induction ts with
  | nil => rfl
  | cons t ts ih =>
    have hts := ih (isTemplate_cons h).2
    cases t with
    | piece p =>
      rw [escaped_piece, isSpelled, piece_isAllowed_escaped h, hts]
      rfl
    | lineEnd cs =>
      rcases lineEnd_cases (isTemplate_cons h).1 with rfl | rfl | rfl
      all_goals exact hts

/-! ## Reading templates -/

/-- A template that begins like an escape begins with one. -/
theorem head?_of_templateChars {more rest : List Char} {low : Nat} (h : isTemplate ts = true)
    (hbody : templateChars ts = '\\' :: 'u' :: more) (hcode : unicodeCode? more = some (low, rest))
    (hlow : 0xDC00 ≤ low ∧ low < 0xE000) : ∃ q qs, ts = .piece q :: qs ∧ q.isPlainLow = true := by
  cases ts with
  | nil => simp [templateChars] at hbody
  | cons t ts =>
    obtain ⟨ht, -⟩ := isTemplate_cons h
    cases t with
    | lineEnd cs =>
      rw [templateChars_cons] at hbody
      rcases lineEnd_cases ht with rfl | rfl | rfl <;> simp [TemplatePiece.chars] at hbody
    | piece q =>
      refine ⟨q, ts, rfl, ?_⟩
      have hallowed := (piece_isAllowed ht).1
      rw [templateChars_cons, TemplatePiece.chars] at hbody
      cases hq : q.code? with
      | none => exact absurd hbody (Piece.append_ne_of_code?_eq_none hq hallowed _ _)
      | some code =>
        obtain ⟨tail, hchars, hread⟩ := Piece.exists_unicodeCode? hq hallowed
        rw [hchars] at hbody
        obtain rfl : tail ++ templateChars ts = more := (List.cons.inj (List.cons.inj hbody).2).2
        rw [hread] at hcode
        cases hlong : q.isLong with
        | true => simp [hlong] at hcode
        | false =>
          rw [hlong, if_neg Bool.false_ne_true] at hcode
          obtain ⟨rfl, -⟩ := Prod.mk.inj (Option.some.inj hcode)
          rw [Piece.isPlainLow, Piece.isLow, hlong, (Piece.hasCode_iff hq).mpr hlow]
          rfl

theorem head?_escaped_isPlainLow (h : isTemplate ts = true)
    (hlone : ¬ ∃ q qs, ts = .piece q :: qs ∧ q.isPlainLow = true) :
    (ts.flatMap TemplatePiece.escaped).head?.any Piece.isPlainLow = false := by
  cases ts with
  | nil => rfl
  | cons t ts =>
    cases t with
    | piece q => exact Bool.eq_false_iff.mpr fun hlow => hlone ⟨q, ts, rfl, hlow⟩
    | lineEnd cs => rcases lineEnd_cases (isTemplate_cons h).1 with rfl | rfl | rfl <;> rfl

/-- The end of a line is read as it stands, and so is its escape. -/
theorem readBody?_lineEnd {c : Char} {cs ds : List Char} (hc : c = '\n' ∨ c = '\r')
    (h : readBody? cs = readBody? ds) :
    readBody? (c :: cs) = readBody? ('\\' :: (if c = '\r' then 'r' else 'n') :: ds) := by
  have hread : readPiece? (c :: cs) = some ([c], cs) := by
    rcases hc with rfl | rfl <;> rfl
  have hescape : readPiece? ('\\' :: (if c = '\r' then 'r' else 'n') :: ds) = some ([c], ds) := by
    rcases hc with rfl | rfl <;> rfl
  rw [readBody?_of_readPiece? hread, readBody?_of_readPiece? hescape, h]

/-- What is read first is the same in both, and what is left is read alike. -/
theorem readBody?_congr {cs ds rest rest' : List Char} {text : Option (List Char)} (hcs : cs ≠ [])
    (hds : ds ≠ []) (hread : readPiece? cs = text.map fun t => (t, rest))
    (hread' : readPiece? ds = text.map fun t => (t, rest'))
    (h : readBody? rest = readBody? rest') : readBody? cs = readBody? ds := by
  rw [readBody?_eq_bind hcs, readBody?_eq_bind hds, hread, hread']
  cases text with
  | none => rfl
  | some t => simp [h]

/-- A low surrogate goes with the high one before it. -/
theorem readBody?_templateChars_pair {p q : Piece}
    (h : isTemplate (.piece p :: .piece q :: ts) = true) (hhigh : p.isHigh = true)
    (hlow : q.isPlainLow = true)
    (hrest : readBody? (templateChars ts) =
      readBody? (bodyChars (ts.flatMap TemplatePiece.escaped))) :
    readBody? (templateChars (.piece p :: .piece q :: ts)) =
      readBody? (bodyChars ((.piece p :: .piece q :: ts).flatMap TemplatePiece.escaped)) := by
  obtain ⟨hp, hqs⟩ := isTemplate_cons h
  have hallowed := (piece_isAllowed hp).1
  have hqallowed := piece_isAllowed_escaped hqs
  rw [Piece.isPlainLow, Bool.and_eq_true, Bool.not_eq_true'] at hlow
  obtain ⟨high, hcode, hrange⟩ := Piece.exists_code?_of_hasCode hhigh
  obtain ⟨low, hqcode, hlrange⟩ := Piece.exists_code?_of_hasCode hlow.1
  simp only [templateChars_cons, escaped_piece, bodyChars_cons, TemplatePiece.chars]
  cases hlong : p.isLong with
  | true =>
    have hnone := Piece.readPiece?_of_isLong hcode hallowed hlong
    rw [readBody?_of_readPiece?_eq_none (hnone _) (p.append_ne_nil _),
      readBody?_of_readPiece?_eq_none (hnone _) (p.append_ne_nil _)]
  | false =>
    have hread :=
      Piece.readPiece?_pair hcode hallowed hlong hrange hqcode hqallowed hlow.2 hlrange
    rw [readBody?_of_readPiece? (hread _), readBody?_of_readPiece? (hread _), hrest]

/-- A high surrogate by itself is not read, and what follows does not matter. -/
theorem readBody?_templateChars_lone {p : Piece} (h : isTemplate (.piece p :: ts) = true)
    (hhigh : p.isHigh = true) (hlone : ¬ ∃ q qs, ts = .piece q :: qs ∧ q.isPlainLow = true) :
    readBody? (templateChars (.piece p :: ts)) =
      readBody? (bodyChars ((.piece p :: ts).flatMap TemplatePiece.escaped)) := by
  obtain ⟨hp, hts⟩ := isTemplate_cons h
  have hallowed := (piece_isAllowed hp).1
  obtain ⟨high, hcode, hrange⟩ := Piece.exists_code?_of_hasCode hhigh
  have hnone := Piece.readPiece?_of_lone hcode hallowed hrange
    fun more low rest hbody hread hlow => hlone (head?_of_templateChars hts hbody hread hlow)
  have hnone' := Piece.readPiece?_of_lone hcode hallowed hrange
    fun more low rest hbody hread => Piece.not_low_of_head? (isSpelled_escaped hts)
      (head?_escaped_isPlainLow hts hlone) hbody hread
  rw [templateChars_cons, escaped_piece, bodyChars_cons, TemplatePiece.chars,
    readBody?_of_readPiece?_eq_none hnone (p.append_ne_nil _),
    readBody?_of_readPiece?_eq_none hnone' (p.append_ne_nil _)]

/-- A template is read as the string literal with its line ends escaped. -/
theorem readBody?_templateChars (ts : List TemplatePiece) (h : isTemplate ts = true) :
    readBody? (templateChars ts) = readBody? (bodyChars (ts.flatMap TemplatePiece.escaped)) := by
  -- One piece at a time, but for a pair of surrogates, which is two pieces.
  match ts with
  | [] => rfl
  | .lineEnd cs :: ts =>
    obtain ⟨ht, hts⟩ := isTemplate_cons h
    have hrest := readBody?_templateChars ts hts
    rcases lineEnd_cases ht with rfl | rfl | rfl
    · exact readBody?_lineEnd (.inl rfl) hrest
    · exact readBody?_lineEnd (.inr rfl) (readBody?_lineEnd (.inl rfl) hrest)
    · exact readBody?_lineEnd (.inr rfl) hrest
  | .piece p :: ts =>
    obtain ⟨ht, hts⟩ := isTemplate_cons h
    cases hhigh : p.isHigh with
    | false =>
      rw [templateChars_cons, escaped_piece, bodyChars_cons, TemplatePiece.chars]
      exact readBody?_congr (p.append_ne_nil _) (p.append_ne_nil _)
        (Piece.readPiece?_of_not_isHigh (piece_isAllowed ht).1 (by decide) hhigh)
        (Piece.readPiece?_of_not_isHigh (piece_isAllowed_escaped h) (by decide) hhigh)
        (readBody?_templateChars ts hts)
    | true =>
      by_cases hpair : ∃ q qs, ts = .piece q :: qs ∧ q.isPlainLow = true
      · obtain ⟨q, qs, rfl, hlow⟩ := hpair
        exact readBody?_templateChars_pair h hhigh hlow
          (readBody?_templateChars qs (isTemplate_cons hts).2)
      · exact readBody?_templateChars_lone h hhigh hpair
termination_by ts.length

/-! ## Line ends in code units -/

theorem TemplatePiece.count_escaped (h : t.isAllowed next = true) :
    (t.escaped.flatMap Piece.units).count 0x0D =
      t.units.count 0x0D + if t.hasReturn then 1 else 0 := by
  cases t with
  | piece p => exact congrArg (List.count 0x0D) (List.append_nil p.units)
  | lineEnd cs => rcases lineEnd_cases h with rfl | rfl | rfl <;> decide

theorem TemplatePiece.units_escaped (h : t.isAllowed next = true) (hreturn : t.hasReturn = false) :
    t.escaped.flatMap Piece.units = t.units := by
  cases t with
  | piece p => exact List.append_nil p.units
  | lineEnd cs =>
    rcases lineEnd_cases h with rfl | rfl | rfl
    · rfl
    · exact absurd hreturn (by decide)
    · exact absurd hreturn (by decide)

/-- Escaping line ends adds a carriage return for each that has one, and changes no other count of
    them. -/
theorem count_escaped (h : isTemplate ts = true) :
    ((ts.flatMap TemplatePiece.escaped).flatMap Piece.units).count 0x0D =
      (ts.flatMap TemplatePiece.units).count 0x0D + ts.countP TemplatePiece.hasReturn := by
  induction ts with
  | nil => rfl
  | cons t ts ih =>
    obtain ⟨ht, hts⟩ := isTemplate_cons h
    simp only [List.flatMap_cons, List.flatMap_append, List.count_append, List.countP_cons, ih hts,
      t.count_escaped ht]
    omega

theorem units_escaped (h : isTemplate ts = true)
    (hreturn : ts.any TemplatePiece.hasReturn = false) :
    (ts.flatMap TemplatePiece.escaped).flatMap Piece.units = ts.flatMap TemplatePiece.units := by
  induction ts with
  | nil => rfl
  | cons t ts ih =>
    obtain ⟨ht, hts⟩ := isTemplate_cons h
    rw [List.any_cons, Bool.or_eq_false_iff] at hreturn
    rw [List.flatMap_cons, List.flatMap_append, TemplatePiece.units_escaped ht hreturn.1,
      ih hts hreturn.2, List.flatMap_cons]

/-- The code units that a template is read to are those that it denotes just if no line ends with a
    carriage return. -/
theorem units_escaped_eq_iff (h : isTemplate ts = true) :
    (ts.flatMap TemplatePiece.escaped).flatMap Piece.units = ts.flatMap TemplatePiece.units ↔
      ts.any TemplatePiece.hasReturn = false := by
  refine ⟨fun heq => ?_, units_escaped h⟩
  have hcount := count_escaped h
  rw [heq, Nat.left_eq_add, List.countP_eq_zero] at hcount
  simpa using hcount

end

/-! ## Values of templates -/

/-- A template is read as the string literal that has its line ends escaped. -/
theorem Template.decodeQuoted?_text (l : Template) :
    decodeQuoted? l.text =
      (readBody? (bodyChars (l.pieces.flatMap TemplatePiece.escaped))).map String.ofList := by
  rw [decodeQuoted?, Template.text, String.toList_ofList, decodeChars?_quoted (by decide),
    readBody?_templateChars l.pieces l.spelled]

theorem Template.agrees_readBody? (l : Template) :
    Agrees ((l.pieces.flatMap TemplatePiece.escaped).flatMap Piece.units) l.isBarred
      (readBody? (bodyChars (l.pieces.flatMap TemplatePiece.escaped))) :=
  DefineFold.agrees_readBody? (by decide) none _ rfl (isSpelled_escaped l.spelled)

theorem Template.units_of_decodeQuoted? {l : Template} {s : String}
    (h : decodeQuoted? l.text = some s) :
    DefineFold.units s = (l.pieces.flatMap TemplatePiece.escaped).flatMap Piece.units := by
  have hagrees := l.agrees_readBody?
  rw [l.decodeQuoted?_text] at h
  obtain ⟨cs, hcs, rfl⟩ := Option.map_eq_some_iff.mp h
  rw [hcs] at hagrees
  rw [DefineFold.units, String.toList_ofList]
  exact hagrees.1

theorem Template.decodeQuoted?_eq_none_iff (l : Template) :
    decodeQuoted? l.text = none ↔ l.isBarred = true := by
  have hagrees := l.agrees_readBody?
  rw [l.decodeQuoted?_text, Option.map_eq_none_iff]
  cases hread : readBody? (bodyChars (l.pieces.flatMap TemplatePiece.escaped)) with
  | none =>
    rw [hread] at hagrees
    exact iff_of_true rfl hagrees
  | some cs =>
    rw [hread] at hagrees
    simp [hagrees.2]

/-- What a template literal has for a value where no edit stands for it. -/
theorem evaluate?_template_eq_some_iff {src : Source} {pending : EditSet} {t : Tree}
    (hkind : t.kind = .templateString) (hedit : pending.matching? t.start t.stop = none)
    {v : Primitive} :
    evaluate? src pending t = some v ↔
      (t.children.any fun c => c.head.named && c.kind = .templateSubstitution) = false ∧
        ∃ s, decodeQuoted? (t.text src) = some s ∧ .string s = v := by
  rw [evaluate?, evaluationDepth, evaluateWithin?_eq_some_iff hedit, valueByKind?, hkind]
  simp only [templateValue?]
  split
  · rename_i hany
    simp [hany]
  · rename_i hany
    rw [Bool.not_eq_true] at hany
    rw [Option.map_eq_some_iff, and_iff_right hany]
    constructor
    · exact fun h => h.1
    · rintro ⟨s, hs, rfl⟩
      exact ⟨⟨s, hs, rfl⟩, rfl⟩

/-- The value of a template, if it has one, is a text with the code units that the template denotes
    just if no line of it ends with a carriage return. Line feeds, escapes and broken lines are as
    they should be. It has a value unless an escape keeps it from being read. -/
theorem evaluate?_template_iff {src : Source} {pending : EditSet} {t : Tree} (l : Template)
    (hkind : t.kind = .templateString) (htext : t.text src = l.text)
    (hedit : pending.matching? t.start t.stop = none) :
    (∀ v, evaluate? src pending t = some v →
      ∃ s, v = .string s ∧ (units s = l.units ↔ l.hasReturn = false)) ∧
    ((∀ c ∈ t.children, c.kind ≠ .templateSubstitution) →
      (evaluate? src pending t = none ↔ l.isBarred = true)) := by
  refine ⟨fun v h => ?_, fun hplain => ?_⟩
  · obtain ⟨-, s, hs, rfl⟩ := (evaluate?_template_eq_some_iff hkind hedit).mp h
    rw [htext] at hs
    refine ⟨s, rfl, ?_⟩
    rw [Template.units_of_decodeQuoted? hs]
    exact units_escaped_eq_iff l.spelled
  · have hnone : (t.children.any fun c => c.head.named && c.kind = .templateSubstitution) =
        false := by
      simp only [List.any_eq_false, Bool.and_eq_true, decide_eq_true_eq, not_and]
      exact fun c hc _ => hplain c hc
    rw [← l.decodeQuoted?_eq_none_iff, Option.eq_none_iff_forall_ne_some,
      Option.eq_none_iff_forall_ne_some]
    simp only [ne_eq, evaluate?_template_eq_some_iff hkind hedit, hnone, htext, true_and]
    constructor
    · exact fun h s hs => h (.string s) ⟨s, hs, rfl⟩
    · rintro h v ⟨s, hs, -⟩
      exact h s hs

/-- A template of two lines that ends the first one with both characters. -/
def twoLineTemplate : Template where
  pieces := [.piece (.plain 'a'), .lineEnd ['\r', '\n'], .piece (.plain 'b')]
  spelled := by decide

/-- The tree of the template at the start of a source. -/
def twoLineTree : Tree :=
  .node ⟨.templateString, true, false, false, 0, 6, []⟩
    [.node ⟨.other "string_fragment", true, false, false, 1, 5, []⟩ []]

theorem evaluate?_template_iff_two_lines :
    twoLineTree.kind = .templateString ∧
      twoLineTree.text (.ofString "\x60a\r\nb\x60;") = twoLineTemplate.text ∧
      EditSet.empty.matching? twoLineTree.start twoLineTree.stop = none ∧
      evaluate? (.ofString "\x60a\r\nb\x60;") .empty twoLineTree = some (.string "a\r\nb") ∧
      units "a\r\nb" ≠ twoLineTemplate.units ∧ twoLineTemplate.isBarred = false := by
  have htext : twoLineTree.text (.ofString "\x60a\r\nb\x60;") = twoLineTemplate.text := by
    decide +kernel
  have hvalue : evaluate? (.ofString "\x60a\r\nb\x60;") .empty twoLineTree =
      some (.string "a\r\nb") := by
    decide +kernel
  obtain ⟨hsome, hnone⟩ := evaluate?_template_iff twoLineTemplate rfl htext
    (show EditSet.empty.matching? twoLineTree.start twoLineTree.stop = none from rfl)
  obtain ⟨s, hs, hiff⟩ := hsome _ hvalue
  obtain rfl := Primitive.string.inj hs
  refine ⟨rfl, htext, rfl, hvalue, fun hunits => ?_, ?_⟩
  · exact absurd (hiff.mp hunits) (by decide)
  · rw [← Bool.not_eq_true, ← hnone (by decide), hvalue]
    simp

end DefineFold
