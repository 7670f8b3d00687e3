/-
  DefineFold.Proofs.Text.Decoded

  Whole literals. A text is made of characters and not of code units, so that not every literal
  denotes one. Reading a literal gives a text with just the code units that the literal denotes, or
  nothing, and nothing where one of its escapes is legacy, too long, or a surrogate without the
  other half in the escape beside it (`decodeQuoted?_spelled`). The induction goes over the pieces;
  it takes a pair of surrogates in one step, and what is carried along is that the piece before is
  no high surrogate (`agrees_readBody?`).

  What `quote` writes is one such literal in double quotes, made of pieces that mean the same
  whatever follows them (`Piece.Writes`), so that every text is read back (`decodeQuoted?_quote`).
-/

import DefineFold.Proofs.Text.Spelling

namespace DefineFold

/-! ## Code units of a piece -/

theorem codeUnits_of_lt {n : Nat} (h : n < 0x10000) : codeUnits n = [n] :=
  if_pos h

/-- The code units of a pair of surrogates are the two. -/
theorem charUnits_of_pair {high low : Nat} (hhigh : 0xD800 ≤ high ∧ high < 0xDC00)
    (hlow : 0xDC00 ≤ low ∧ low < 0xE000) :
    charUnits (Char.ofNat (0x10000 + (high - 0xD800) * 0x400 + (low - 0xDC00))) = [high, low] := by
  generalize hn : 0x10000 + (high - 0xD800) * 0x400 + (low - 0xDC00) = n
  have hfirst : 0xD800 + (n - 0x10000) / 0x400 = high := by omega
  have hsecond : 0xDC00 + (n - 0x10000) % 0x400 = low := by omega
  show codeUnits (Char.ofNat n).toNat = [high, low]
  rw [toNat_ofNat_of_lt (by omega), codeUnits, if_neg (by omega), hfirst, hsecond]

theorem charUnits_unescaped (c : Char) : charUnits (unescaped c) = singleUnits c := by
  rw [unescaped.eq_def, singleUnits.eq_def]
  split <;> rfl

namespace Piece

variable {p : Piece} {quote : Char} {next : Option Char}

theorem units_of_code? {code : Nat} (h : p.code? = some code)
    (hallowed : p.isAllowed quote next = true) : p.units = codeUnits code := by
  cases p with
  | unicode a b c d =>
    obtain rfl := Option.some.inj h
    exact (codeUnits_of_lt (digitsValue_four_lt (isHexDigit_of_unicode hallowed))).symm
  | braced ds =>
    obtain rfl := Option.some.inj h
    rfl
  | _ => simp [code?] at h

/-- The text of a piece has the code units that the piece denotes. -/
theorem units_of_text? {text : List Char} (hallowed : p.isAllowed quote next = true)
    (h : p.text? = some text) : text.flatMap charUnits = p.units := by
  cases hcode : p.code? with
  | some code =>
    rw [text?_of_code? hcode] at h
    split at h
    · simp at h
    · obtain ⟨c, hc, rfl⟩ := Option.map_eq_some_iff.mp h
      rw [units_of_code? hcode hallowed, ← charUnits_of_charOfCode? hc]
      exact List.append_nil _
  | none =>
    cases p with
    | plain c =>
      obtain rfl := Option.some.inj h
      exact List.append_nil _
    | single c =>
      obtain rfl := Option.some.inj h
      exact (List.append_nil _).trans (charUnits_unescaped c)
    | zero =>
      obtain rfl := Option.some.inj h
      rfl
    | hex a b =>
      have hlt := digitsValue_two_lt (isHexDigit_of_hex hallowed)
      obtain ⟨c, hc, rfl⟩ := Option.map_eq_some_iff.mp h
      have hunits := charUnits_of_charOfCode? hc
      rw [codeUnits_of_lt (by omega)] at hunits
      exact (List.append_nil _).trans hunits
    | lineBreak cs =>
      obtain rfl := Option.some.inj h
      rfl
    | octal ds => simp [text?] at h
    | decimal c => simp [text?] at h
    | unicode a b c d => simp [code?] at hcode
    | braced ds => simp [code?] at hcode

theorem isLegacy_eq_false_of_code? {code : Nat} (h : p.code? = some code) :
    p.isLegacy = false := by
  cases p <;> simp_all [isLegacy, code?]

theorem le_of_code? {code : Nat} (h : p.code? = some code)
    (hallowed : p.isAllowed quote next = true) : code ≤ 0x10FFFF := by
  cases p with
  | unicode a b c d =>
    obtain rfl := Option.some.inj h
    have hlt := digitsValue_four_lt (isHexDigit_of_unicode hallowed)
    omega
  | braced ds =>
    obtain rfl := Option.some.inj h
    simp only [isAllowed, Bool.and_eq_true, decide_eq_true_eq] at hallowed
    exact hallowed.2
  | _ => simp [code?] at h

/-- A piece that is no high surrogate has a text unless it is legacy, too long or a low
    surrogate. -/
theorem text?_eq_none_iff (hallowed : p.isAllowed quote next = true) (hhigh : p.isHigh = false) :
    p.text? = none ↔ (p.isLegacy || p.isLong || p.isLow) = true := by
  cases hcode : p.code? with
  | some code =>
    rw [← Bool.not_eq_true, isHigh, hasCode_iff hcode] at hhigh
    have hle := le_of_code? hcode hallowed
    have hlegacy := isLegacy_eq_false_of_code? hcode
    have hlow : p.isLow = true ↔ ¬(code < 0xD800 ∨ (0xE000 ≤ code ∧ code < 0x110000)) := by
      rw [isLow, hasCode_iff hcode]
      omega
    rw [text?_of_code? hcode, hlegacy, Bool.false_or, Bool.or_eq_true, hlow, charOfCode?]
    cases p.isLong <;> simp
  | none =>
    cases p with
    | hex a b =>
      have hlt := digitsValue_two_lt (isHexDigit_of_hex hallowed)
      simp only [text?, charOfCode?, isLegacy, isLong, isLow, hasCode, hcode]
      rw [if_pos (by omega)]
      simp
    | unicode a b c d => simp [code?] at hcode
    | braced ds => simp [code?] at hcode
    | _ => simp [text?, isLegacy, isLong, isLow, hasCode, code?]

end Piece

/-! ## Surrogates -/

namespace Piece

variable {p q : Piece} {quote : Char} {next next' : Option Char} {rest : List Char}

theorem isHigh_eq_false_of_isLow (h : p.isLow = true) : p.isHigh = false := by
  obtain ⟨code, hcode, hle, -⟩ := exists_code?_of_hasCode h
  rw [← Bool.not_eq_true, isHigh, hasCode_iff hcode]
  omega

/-- A low surrogate behind a high one makes a character of the two. -/
theorem readPiece?_pair {high low : Nat} (hp : p.code? = some high)
    (hpallowed : p.isAllowed quote next = true) (hplong : p.isLong = false)
    (hhigh : 0xD800 ≤ high ∧ high < 0xDC00) (hq : q.code? = some low)
    (hqallowed : q.isAllowed quote next' = true) (hqlong : q.isLong = false)
    (hlow : 0xDC00 ≤ low ∧ low < 0xE000) (rest : List Char) :
    readPiece? (p.chars ++ (q.chars ++ rest)) =
      some ([Char.ofNat (0x10000 + (high - 0xD800) * 0x400 + (low - 0xDC00))], rest) := by
  obtain ⟨ptail, hpchars, hpread⟩ := exists_unicodeCode? hp hpallowed
  obtain ⟨qtail, hqchars, hqread⟩ := exists_unicodeCode? hq hqallowed
  have hpcode := hpread ('\\' :: 'u' :: (qtail ++ rest))
  have hqcode := hqread rest
  rw [hplong, if_neg Bool.false_ne_true] at hpcode
  rw [hqlong, if_neg Bool.false_ne_true] at hqcode
  rw [hpchars, hqchars]
  simp only [List.cons_append]
  rw [readPiece?_escape]
  show (unicodeEscape? _).map _ = _
  rw [unicodeEscape?_of_pair hpcode hhigh hqcode hlow, charOfCode?, if_pos (by omega)]
  rfl

/-- A high surrogate without a low one in an escape behind it is not read. -/
theorem readPiece?_of_lone {high : Nat} (hp : p.code? = some high)
    (hallowed : p.isAllowed quote next = true) (hhigh : 0xD800 ≤ high ∧ high < 0xDC00)
    (hlone : ∀ more low rest', rest = '\\' :: 'u' :: more → unicodeCode? more = some (low, rest') →
      ¬(0xDC00 ≤ low ∧ low < 0xE000)) :
    readPiece? (p.chars ++ rest) = none := by
  cases hlong : p.isLong with
  | true => exact readPiece?_of_isLong hp hallowed hlong rest
  | false =>
    obtain ⟨tail, hchars, hread⟩ := exists_unicodeCode? hp hallowed
    have hcode := hread rest
    rw [hlong, if_neg Bool.false_ne_true] at hcode
    rw [hchars, List.cons_append, List.cons_append, readPiece?_escape]
    show (unicodeEscape? (tail ++ rest)).map _ = none
    rw [unicodeEscape?_of_lone hcode hhigh hlone]
    rfl

/-- A Unicode escape that can be read as a low surrogate. -/
def isPlainLow (p : Piece) : Bool :=
  p.isLow && !p.isLong

/-- Pieces that do not begin with a low surrogate are not read as if they did. -/
theorem not_low_of_head? {ps : List Piece} (hspelled : isSpelled quote ps = true)
    (hhead : ps.head?.any isPlainLow = false) {more rest' : List Char} {low : Nat}
    (hbody : bodyChars ps = '\\' :: 'u' :: more) (hcode : unicodeCode? more = some (low, rest')) :
    ¬(0xDC00 ≤ low ∧ low < 0xE000) := by
  cases ps with
  | nil => simp [bodyChars] at hbody
  | cons q qs =>
    simp only [isSpelled, Bool.and_eq_true] at hspelled
    rw [bodyChars, List.flatMap_cons] at hbody
    cases hq : q.code? with
    | none => exact absurd hbody (append_ne_of_code?_eq_none hq hspelled.1 _ _)
    | some code =>
      obtain ⟨tail, hchars, hread⟩ := exists_unicodeCode? hq hspelled.1
      rw [hchars] at hbody
      obtain rfl : tail ++ qs.flatMap chars = more := (List.cons.inj (List.cons.inj hbody).2).2
      rw [hread] at hcode
      cases hlong : q.isLong with
      | true => simp [hlong] at hcode
      | false =>
        rw [hlong, if_neg Bool.false_ne_true] at hcode
        obtain ⟨rfl, -⟩ := Prod.mk.inj (Option.some.inj hcode)
        simpa [isPlainLow, isLow, hasCode, hq, hlong] using hhead

end Piece

theorem Piece.append_ne_nil (p : Piece) (rest : List Char) : p.chars ++ rest ≠ [] := by
  cases p <;> simp [Piece.chars]

/-! ## Bodies -/

/-- What reading may give for pieces with the given code units: a text that has them, or nothing if
    a piece is in the way. -/
def Agrees (units : List Nat) (barred : Bool) : Option (List Char) → Prop
  | some text => text.flatMap charUnits = units ∧ barred = false
  | none => barred = true

theorem Agrees.prepend {us vs : List Nat} {barred : Bool} {read : Option (List Char)}
    {text : List Char} (h : Agrees us barred read) (htext : text.flatMap charUnits = vs) :
    Agrees (vs ++ us) barred (read.map (text ++ ·)) := by
  cases read with
  | none => exact h
  | some cs => exact ⟨by rw [List.flatMap_append, htext, h.1], h.2⟩

theorem bodyChars_cons (p : Piece) (ps : List Piece) :
    bodyChars (p :: ps) = p.chars ++ bodyChars ps :=
  List.flatMap_cons

section Bodies

variable {quote : Char} {before : Option Piece} {p q : Piece} {ps qs : List Piece}

theorem isSpelled_tail (h : isSpelled quote (p :: ps) = true) : isSpelled quote ps = true :=
  ((Bool.and_eq_true _ _).mp h).2

theorem isBar_of_not_isHigh {after : Option Piece} (hbefore : before.any Piece.isHigh = false)
    (hhigh : p.isHigh = false) : p.isBar before after = (p.isLegacy || p.isLong || p.isLow) := by
  simp [Piece.isBar, hbefore, hhigh]

/-- A piece that is no high surrogate is read, or in the way, by itself. -/
theorem Agrees.cons (hquote : isDigit quote = false) (hbefore : before.any Piece.isHigh = false)
    (hspelled : isSpelled quote (p :: ps) = true) (hhigh : p.isHigh = false)
    (h : Agrees (ps.flatMap Piece.units) (hasBar (some p) ps) (readBody? (bodyChars ps))) :
    Agrees ((p :: ps).flatMap Piece.units) (hasBar before (p :: ps))
      (readBody? (bodyChars (p :: ps))) := by
  rw [isSpelled, Bool.and_eq_true] at hspelled
  have hread := Piece.readPiece?_of_not_isHigh hspelled.1 hquote hhigh
  have hbar : p.isBar before ps.head? = (p.isLegacy || p.isLong || p.isLow) :=
    isBar_of_not_isHigh hbefore hhigh
  have htext := Piece.text?_eq_none_iff hspelled.1 hhigh
  rw [bodyChars_cons, hasBar, hbar]
  cases hp : p.text? with
  | none =>
    rw [hp] at hread
    rw [readBody?_of_readPiece?_eq_none hread (p.append_ne_nil _), htext.mp hp]
    rfl
  | some text =>
    -- The piece is not in the way, so that the bars are those of the rest.
    rw [hp] at hread htext
    have hnot : (p.isLegacy || p.isLong || p.isLow) = false := by simpa using htext
    rw [readBody?_of_readPiece? hread, hnot, Bool.false_or]
    exact h.prepend (Piece.units_of_text? hspelled.1 hp)

/-- A high surrogate before a low one is in the way only if it is too long, and the low one is not
    in the way. -/
theorem hasBar_pair (hhigh : p.isHigh = true) (hlow : q.isPlainLow = true) :
    hasBar before (p :: q :: qs) = (p.isLong || hasBar (some q) qs) := by
  rw [Piece.isPlainLow, Bool.and_eq_true, Bool.not_eq_true'] at hlow
  obtain ⟨high, hp, hrange⟩ := Piece.exists_code?_of_hasCode hhigh
  obtain ⟨low, hq, -⟩ := Piece.exists_code?_of_hasCode hlow.1
  have hnotLow : p.isLow = false := by
    rw [← Bool.not_eq_true, Piece.isLow, Piece.hasCode_iff hp]
    omega
  simp [hasBar, Piece.isBar, Piece.isLegacy_eq_false_of_code? hp,
    Piece.isLegacy_eq_false_of_code? hq, hhigh, hlow, hnotLow,
    Piece.isHigh_eq_false_of_isLow hlow.1]

/-- A high surrogate and the low one behind it are read together. -/
theorem Agrees.pair (hspelled : isSpelled quote (p :: q :: qs) = true) (hhigh : p.isHigh = true)
    (hlow : q.isPlainLow = true)
    (h : Agrees (qs.flatMap Piece.units) (hasBar (some q) qs) (readBody? (bodyChars qs))) :
    Agrees ((p :: q :: qs).flatMap Piece.units) (hasBar before (p :: q :: qs))
      (readBody? (bodyChars (p :: q :: qs))) := by
  simp only [isSpelled, Bool.and_eq_true] at hspelled
  obtain ⟨hpallowed, hqallowed, -⟩ := hspelled
  rw [hasBar_pair hhigh hlow, bodyChars_cons, bodyChars_cons]
  rw [Piece.isPlainLow, Bool.and_eq_true, Bool.not_eq_true'] at hlow
  obtain ⟨high, hp, hhrange⟩ := Piece.exists_code?_of_hasCode hhigh
  obtain ⟨low, hq, hlrange⟩ := Piece.exists_code?_of_hasCode hlow.1
  cases hlong : p.isLong with
  | true =>
    rw [readBody?_of_readPiece?_eq_none (Piece.readPiece?_of_isLong hp hpallowed hlong _)
      (p.append_ne_nil _)]
    rfl
  | false =>
    rw [readBody?_of_readPiece? (Piece.readPiece?_pair hp hpallowed hlong hhrange hq hqallowed
      hlow.2 hlrange _), List.flatMap_cons, List.flatMap_cons, ← List.append_assoc]
    refine h.prepend ?_
    rw [Piece.units_of_code? hp hpallowed, Piece.units_of_code? hq hqallowed,
      codeUnits_of_lt (by omega), codeUnits_of_lt (by omega)]
    exact (List.append_nil _).trans (charUnits_of_pair hhrange hlrange)

/-- A high surrogate without a low one behind it is in the way. -/
theorem hasBar_lone (hhigh : p.isHigh = true) (hlone : ps.head?.any Piece.isPlainLow = false) :
    hasBar before (p :: ps) = true := by
  cases ps with
  | nil => simp [hasBar, Piece.isBar, hhigh]
  | cons q qs =>
    -- A low surrogate there is too long, and in the way itself.
    cases hlow : q.isLow with
    | false => simp [hasBar, Piece.isBar, hhigh, hlow]
    | true =>
      have hlong : q.isLong = true := by simpa [Piece.isPlainLow, hlow] using hlone
      simp [hasBar, Piece.isBar, hlong]

theorem agrees_lone (hspelled : isSpelled quote (p :: ps) = true) (hhigh : p.isHigh = true)
    (hlone : ps.head?.any Piece.isPlainLow = false) :
    Agrees ((p :: ps).flatMap Piece.units) (hasBar before (p :: ps))
      (readBody? (bodyChars (p :: ps))) := by
  rw [isSpelled, Bool.and_eq_true] at hspelled
  obtain ⟨high, hp, hrange⟩ := Piece.exists_code?_of_hasCode hhigh
  have hread : readPiece? (p.chars ++ bodyChars ps) = none :=
    Piece.readPiece?_of_lone hp hspelled.1 hrange fun more low rest hbody hcode =>
      Piece.not_low_of_head? hspelled.2 hlone hbody hcode
  rw [hasBar_lone hhigh hlone, bodyChars_cons,
    readBody?_of_readPiece?_eq_none hread (p.append_ne_nil _)]
  rfl

/-- Reading pieces gives a text with the code units that the pieces denote, or nothing if one of
    them is in the way. -/
theorem agrees_readBody? (hquote : isDigit quote = false) (before : Option Piece)
    (ps : List Piece) (hbefore : before.any Piece.isHigh = false)
    (hspelled : isSpelled quote ps = true) :
    Agrees (ps.flatMap Piece.units) (hasBar before ps) (readBody? (bodyChars ps)) := by
  match ps with
  | [] => exact ⟨rfl, rfl⟩
  | p :: ps =>
    have hrest := isSpelled_tail hspelled
    cases hhigh : p.isHigh with
    | false =>
      exact (agrees_readBody? hquote (some p) ps hhigh hrest).cons hquote hbefore hspelled hhigh
    | true =>
      -- Two pieces go at once, and the second one is no high surrogate.
      cases hlow : ps.head?.any Piece.isPlainLow with
      | false => exact agrees_lone hspelled hhigh hlow
      | true =>
        match ps with
        | [] => simp at hlow
        | q :: qs =>
          have hq : q.isLow = true := ((Bool.and_eq_true _ _).mp hlow).1
          have hqs := agrees_readBody? hquote (some q) qs (Piece.isHigh_eq_false_of_isLow hq)
            (isSpelled_tail hrest)
          exact hqs.pair hspelled hhigh hlow
termination_by ps.length

end Bodies

/-! ## Literals -/

theorem StringLiteral.isQuote_quote (l : StringLiteral) : isQuote l.quote = true := by
  rcases l.quote_eq with h | h <;> rw [h] <;> rfl

theorem StringLiteral.decodeQuoted?_text (l : StringLiteral) :
    decodeQuoted? l.text = (readBody? (bodyChars l.pieces)).map String.ofList := by
  rw [decodeQuoted?, StringLiteral.text, String.toList_ofList,
    decodeChars?_quoted l.isQuote_quote]

/-- Reading a literal gives a text with the code units that the literal denotes, if it gives a text.
    It gives none just where one of the escapes is legacy, too long or a surrogate by itself. -/
theorem decodeQuoted?_spelled (l : StringLiteral) :
    (∀ s, decodeQuoted? l.text = some s → units s = l.units) ∧
      (decodeQuoted? l.text = none ↔ l.isBarred = true) := by
  have hquote : isDigit l.quote = false := by
    rcases l.quote_eq with h | h <;> rw [h] <;> rfl
  have hagrees := agrees_readBody? hquote none l.pieces rfl l.spelled
  rw [l.decodeQuoted?_text, StringLiteral.isBarred]
  cases hread : readBody? (bodyChars l.pieces) with
  | none =>
    rw [hread] at hagrees
    exact ⟨fun s h => absurd h (by simp), fun _ => hagrees, fun _ => rfl⟩
  | some cs =>
    rw [hread] at hagrees
    refine ⟨fun s h => ?_, by simpa using hagrees.2⟩
    obtain rfl := Option.some.inj h
    rw [DefineFold.units, String.toList_ofList]
    exact hagrees.1

/-- A pair of surrogates in two spellings, a zero before a letter, two digits and a broken line. -/
def mixedLiteral : StringLiteral where
  quote := '\''
  pieces :=
    [.unicode 'D' '8' '3' 'd', .braced ['D', 'E', '0', '0'], .zero, .plain 'x', .hex '4' '1',
      .lineBreak ['\r', '\n'], .plain '"', .single '\'']
  quote_eq := .inr rfl
  spelled := by decide

theorem decodeQuoted?_spelled_mixed :
    mixedLiteral.text = "'\\uD83d\\u\x7bDE00\x7d\\0x\\x41\\\r\n\"\\''" ∧
      decodeQuoted? mixedLiteral.text = some "😀\x00xA\"'" ∧
      units "😀\x00xA\"'" = mixedLiteral.units ∧ mixedLiteral.isBarred = false := by
  have hread : decodeQuoted? mixedLiteral.text = some "😀\x00xA\"'" := by decide +kernel
  obtain ⟨hunits, hnone⟩ := decodeQuoted?_spelled mixedLiteral
  refine ⟨by decide, hread, hunits _ hread, ?_⟩
  simpa [hread] using hnone

/-! ## What `quote` writes -/

/-- Characters that end no line and control nothing. -/
def isPrintable (c : Char) : Bool :=
  0x20 ≤ c.toNat && c.toNat != 0x2028 && c.toNat != 0x2029

/-- A piece that may stand for the given character in double quotes, whatever follows it. -/
structure Piece.Writes (p : Piece) (c : Char) : Prop where
  isAllowed : ∀ next, p.isAllowed '"' next = true
  text? : p.text? = some [c]
  isHigh : p.isHigh = false
  isPrintable : p.chars.all isPrintable = true

theorem hexDigit_spec (n : Nat) :
    isHexDigit (hexDigit n) = true ∧ digitValue (hexDigit n) = n % 16 := by
  have hall : ∀ k < 16, isHexDigit k.digitChar = true ∧ digitValue k.digitChar = k := by decide
  exact hall (n % 16) (Nat.mod_lt _ (by decide))

theorem isPrintable_of_isHexDigit {c : Char} (h : isHexDigit c = true) : isPrintable c = true := by
  simp only [isHexDigit, Bool.or_eq_true, Bool.and_eq_true, decide_eq_true_eq] at h
  simp only [isPrintable, Bool.and_eq_true, decide_eq_true_eq, bne_iff_ne]
  omega

/-- Two digits write a control character. -/
theorem Piece.writes_hex {c : Char} (h : c.toNat < 0x20) :
    (Piece.hex (hexDigit (c.toNat / 16)) (hexDigit c.toNat)).Writes c := by
  obtain ⟨ha, havalue⟩ := hexDigit_spec (c.toNat / 16)
  obtain ⟨hb, hbvalue⟩ := hexDigit_spec c.toNat
  refine ⟨fun next => ?_, ?_, rfl, ?_⟩
  · rw [isAllowed, ha, hb]
    rfl
  · have hvalue : digitsValue 16 [hexDigit (c.toNat / 16), hexDigit c.toNat] = c.toNat := by
      simp only [digitsValue, List.foldl_cons, List.foldl_nil, havalue, hbvalue]
      omega
    rw [text?, hvalue, charOfCode?, if_pos (by omega), Char.ofNat_toNat]
    rfl
  · have hmarks : isPrintable '\\' = true ∧ isPrintable 'x' = true := by decide
    simp [chars, hmarks, isPrintable_of_isHexDigit ha, isPrintable_of_isHexDigit hb]

/-- The piece that is written for a character. -/
def quotePiece (c : Char) : Piece :=
  if c = '"' then .single '"'
  else if c = '\\' then .single '\\'
  else if c = '\n' then .single 'n'
  else if c = '\r' then .single 'r'
  else if c = '\t' then .single 't'
  else if c.toNat = 0x2028 then .unicode '2' '0' '2' '8'
  else if c.toNat = 0x2029 then .unicode '2' '0' '2' '9'
  else if c.toNat < 0x20 then .hex (hexDigit (c.toNat / 16)) (hexDigit c.toNat)
  else .plain c

theorem chars_quotePiece (c : Char) : (quotePiece c).chars = quoteChar c := by
  rw [quotePiece, quoteChar]
  repeat' split
  all_goals rfl

theorem quotePiece_writes (c : Char) : (quotePiece c).Writes c := by
  by_cases hmark : c ∈ ['"', '\\', '\n', '\r', '\t', '\u2028', '\u2029']
  · simp only [List.mem_cons, List.not_mem_nil, or_false] at hmark
    rcases hmark with rfl | rfl | rfl | rfl | rfl | rfl | rfl
    all_goals exact ⟨fun _ => rfl, rfl, rfl, rfl⟩
  · simp only [List.mem_cons, List.not_mem_nil, or_false, not_or] at hmark
    obtain ⟨hquote, hbackslash, hn, hr, ht, hls, hps⟩ := hmark
    have hls' : c.toNat ≠ 0x2028 := fun h => hls (Char.toNat_inj.mp h)
    have hps' : c.toNat ≠ 0x2029 := fun h => hps (Char.toNat_inj.mp h)
    rw [quotePiece, if_neg hquote, if_neg hbackslash, if_neg hn, if_neg hr, if_neg ht,
      if_neg hls', if_neg hps']
    split
    · rename_i hcontrol
      exact Piece.writes_hex hcontrol
    · refine ⟨fun next => ?_, rfl, rfl, ?_⟩
      · simp [Piece.isAllowed, hquote, hbackslash, hn, hr]
      · simp only [Piece.chars, List.all_cons, List.all_nil, isPrintable, Bool.and_eq_true,
          decide_eq_true_eq, bne_iff_ne, and_true]
        omega

theorem bodyChars_map_quotePiece (cs : List Char) :
    bodyChars (cs.map quotePiece) = cs.flatMap quoteChar := by
  rw [bodyChars, List.flatMap_map]
  congr 1
  funext c
  exact chars_quotePiece c

/-- What is written for a character is read as that character, whatever follows. -/
theorem readPiece?_quoteChar (c : Char) (rest : List Char) :
    readPiece? (quoteChar c ++ rest) = some ([c], rest) := by
  have hc := quotePiece_writes c
  have hquote : isDigit '"' = false := by decide
  rw [← chars_quotePiece, Piece.readPiece?_of_not_isHigh (hc.isAllowed _) hquote hc.isHigh,
    hc.text?]
  rfl

theorem readBody?_quoteChars (cs : List Char) : readBody? (cs.flatMap quoteChar) = some cs := by
  induction cs with
  | nil => rfl
  | cons c cs ih =>
    rw [List.flatMap_cons, readBody?_of_readPiece? (readPiece?_quoteChar c _), ih]
    rfl

theorem isSpelled_map_quotePiece (cs : List Char) : isSpelled '"' (cs.map quotePiece) = true := by
  induction cs with
  | nil => rfl
  | cons c cs ih =>
    rw [List.map_cons, isSpelled, (quotePiece_writes c).isAllowed, ih, Bool.true_and]

/-- The literal that is written for a text. -/
def quoteLiteral (s : String) : StringLiteral where
  quote := '"'
  pieces := s.toList.map quotePiece
  quote_eq := .inl rfl
  spelled := isSpelled_map_quotePiece s.toList

theorem text_quoteLiteral (s : String) : (quoteLiteral s).text = quote s := by
  rw [StringLiteral.text, quoteLiteral, bodyChars_map_quotePiece]
  rfl

theorem units_quoteLiteral (s : String) : (quoteLiteral s).units = units s := by
  rw [StringLiteral.units, quoteLiteral, List.flatMap_map, DefineFold.units]
  congr 1
  funext c
  have hc := quotePiece_writes c
  rw [← Piece.units_of_text? (hc.isAllowed none) hc.text?]
  exact List.append_nil _

theorem isPrintable_quote {s : String} {c : Char} (h : c ∈ (quote s).toList) :
    isPrintable c = true := by
  rw [quote, String.toList_ofList, quoteChars, List.mem_cons, List.mem_append,
    List.mem_singleton, List.mem_flatMap] at h
  rcases h with rfl | ⟨d, -, hd⟩ | rfl
  · rfl
  · rw [← chars_quotePiece] at hd
    exact List.all_eq_true.mp (quotePiece_writes d).isPrintable c hd
  · rfl

/-- Every text is read back from its literal. What is written is one literal in double quotes, so
    that no quote and no backslash stands in it by itself, it denotes the code units of the text,
    and it has no control characters and no line breaks of any sort. -/
theorem decodeQuoted?_quote (s : String) :
    decodeQuoted? (quote s) = some s ∧
      (∃ l : StringLiteral, l.quote = '"' ∧ l.text = quote s ∧ l.units = units s) ∧
      ∀ c ∈ (quote s).toList, 0x20 ≤ c.toNat ∧ c.toNat ≠ 0x2028 ∧ c.toNat ≠ 0x2029 := by
  refine ⟨?_, ⟨quoteLiteral s, rfl, text_quoteLiteral s, units_quoteLiteral s⟩, fun c hc => ?_⟩
  · rw [← text_quoteLiteral, StringLiteral.decodeQuoted?_text, quoteLiteral,
      bodyChars_map_quotePiece, readBody?_quoteChars]
    exact congrArg some String.ofList_toList
  · have hprintable := isPrintable_quote hc
    simp only [isPrintable, Bool.and_eq_true, decide_eq_true_eq, bne_iff_ne] at hprintable
    exact ⟨hprintable.1.1, hprintable.1.2, hprintable.2⟩

/-- A control character before a digit, a quote, a backslash and two sorts of line break. -/
theorem decodeQuoted?_quote_mixed :
    quote "\x011\"\\\n\u2028" = "\"\\x011\\\"\\\\\\n\\u2028\"" ∧
      decodeQuoted? (quote "\x011\"\\\n\u2028") = some "\x011\"\\\n\u2028" ∧
      'x' ∈ (quote "\x011\"\\\n\u2028").toList ∧ 0x20 ≤ 'x'.toNat ∧ 'x'.toNat ≠ 0x2028 ∧
      'x'.toNat ≠ 0x2029 := by
  have hmem : 'x' ∈ (quote "\x011\"\\\n\u2028").toList := by decide +kernel
  obtain ⟨hread, -, hprintable⟩ := decodeQuoted?_quote "\x011\"\\\n\u2028"
  exact ⟨by decide +kernel, hread, hmem, hprintable 'x' hmem⟩

end DefineFold
