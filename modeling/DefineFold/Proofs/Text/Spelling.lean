/-
  DefineFold.Proofs.Text.Spelling

  String literals as the language spells them, and the code units that they denote. A literal in
  single or double quotes is a list of pieces: characters that stand for themselves, escape
  sequences of every sort, the legacy ones included, and line breaks behind a backslash. Some
  pieces have a say in what may follow them. Each piece denotes code units of its own, whatever
  stands beside it, and a literal denotes those of its pieces one after the other.

  Reading takes such a piece off the front of a body. A piece that is not the Unicode escape of a
  high surrogate is read by itself, whatever follows (`Piece.readPiece?_of_not_isHigh`); an escape
  of a high surrogate looks at the escape behind it (`unicodeEscape?_of_pair`,
  `unicodeEscape?_of_lone`).
-/

import DefineFold.Proofs.Text.Quoted
import DefineFold.Proofs.Text.Slice
import DefineFold.Text.Units

namespace DefineFold

/-! ## Digits -/

/-- Hexadecimal digits, with letters of either case. -/
def isHexDigit (c : Char) : Bool :=
  (48 ≤ c.toNat && c.toNat ≤ 57) || (65 ≤ c.toNat && c.toNat ≤ 70)
    || (97 ≤ c.toNat && c.toNat ≤ 102)

/-- Octal digits. -/
def isOctalDigit (c : Char) : Bool :=
  48 ≤ c.toNat && c.toNat ≤ 55

/-- The value of a hexadecimal digit. -/
def digitValue (c : Char) : Nat :=
  if c.toNat ≤ 57 then c.toNat - 48 else if c.toNat ≤ 70 then c.toNat - 55 else c.toNat - 87

/-- The number that digits write. -/
def digitsValue (radix : Nat) (ds : List Char) : Nat :=
  ds.foldl (fun n c => n * radix + digitValue c) 0

/-- The characters that end a line. -/
def isLineBreak (c : Char) : Bool :=
  c == '\n' || c == '\r' || c == '\u2028' || c == '\u2029'

/-! ## Pieces -/

/-- A piece of the body of a string literal. -/
inductive Piece where
  /-- A character that stands for itself. -/
  | plain (c : Char)
  /-- A backslash and a character: a control character for some letters, else the character. -/
  | single (c : Char)
  /-- A backslash and a zero. -/
  | zero
  /-- A backslash, `x` and two digits. -/
  | hex (a b : Char)
  /-- A backslash, `u` and four digits. -/
  | unicode (a b c d : Char)
  /-- A backslash, `u` and digits in braces. -/
  | braced (digits : List Char)
  /-- A backslash at the end of a line. -/
  | lineBreak (chars : List Char)
  /-- A backslash and octal digits. -/
  | octal (digits : List Char)
  /-- A backslash and the digit eight or nine. -/
  | decimal (c : Char)
deriving DecidableEq, Repr, Inhabited

/-- The code units of a code point. -/
def codeUnits (n : Nat) : List Nat :=
  if n < 0x10000 then [n]
  else [0xD800 + (n - 0x10000) / 0x400, 0xDC00 + (n - 0x10000) % 0x400]

/-- The code units of a character behind a backslash. -/
def singleUnits (c : Char) : List Nat :=
  match c with
  | 'b' => [0x08]
  | 't' => [0x09]
  | 'n' => [0x0A]
  | 'v' => [0x0B]
  | 'f' => [0x0C]
  | 'r' => [0x0D]
  | c => codeUnits c.toNat

/-- Octal digits that are one escape: as many as the next character leaves, up to the value 255. A
    single zero is one before an eight or a nine only. -/
def isOctalEscape (next : Option Char) : List Char → Bool
  | [a] =>
    (a == '0' && next.any fun c => c == '8' || c == '9')
      || (isOctalDigit a && a != '0' && !next.any isOctalDigit)
  | [a, b] =>
    isOctalDigit a && isOctalDigit b && (decide (52 ≤ a.toNat) || !next.any isOctalDigit)
  | [a, b, c] => isOctalDigit a && isOctalDigit b && isOctalDigit c && decide (a.toNat < 52)
  | _ => false

namespace Piece

/-- The piece as it stands in the source. -/
def chars : Piece → List Char
  | .plain c => [c]
  | .single c => ['\\', c]
  | .zero => ['\\', '0']
  | .hex a b => ['\\', 'x', a, b]
  | .unicode a b c d => ['\\', 'u', a, b, c, d]
  | .braced ds => '\\' :: 'u' :: '\x7b' :: (ds ++ ['\x7d'])
  | .lineBreak cs => '\\' :: cs
  | .octal ds => '\\' :: ds
  | .decimal c => ['\\', c]

/-- The code units that the piece denotes. -/
def units : Piece → List Nat
  | .plain c => codeUnits c.toNat
  | .single c => singleUnits c
  | .zero => [0]
  | .hex a b => [digitsValue 16 [a, b]]
  | .unicode a b c d => [digitsValue 16 [a, b, c, d]]
  | .braced ds => codeUnits (digitsValue 16 ds)
  | .lineBreak _ => []
  | .octal ds => [digitsValue 8 ds]
  | .decimal c => [c.toNat]

/-- Whether the piece may stand in a literal with the given quote, before the given character. -/
def isAllowed (quote : Char) (next : Option Char) : Piece → Bool
  | .plain c => c != quote && c != '\\' && c != '\n' && c != '\r'
  | .single c => !isLineBreak c && !isDigit c && c != 'x' && c != 'u'
  | .zero => !next.any isDigit
  | .hex a b => isHexDigit a && isHexDigit b
  | .unicode a b c d => isHexDigit a && isHexDigit b && isHexDigit c && isHexDigit d
  | .braced ds => !ds.isEmpty && ds.all isHexDigit && decide (digitsValue 16 ds ≤ 0x10FFFF)
  | .lineBreak cs =>
    cs == ['\n'] || cs == ['\r', '\n'] || cs == ['\u2028'] || cs == ['\u2029']
      || (cs == ['\r'] && next != some '\n')
  | .octal ds => isOctalEscape next ds
  | .decimal c => c == '8' || c == '9'

/-- The code of a Unicode escape. -/
def code? : Piece → Option Nat
  | .unicode a b c d => some (digitsValue 16 [a, b, c, d])
  | .braced ds => some (digitsValue 16 ds)
  | _ => none

/-- A Unicode escape with a code from the first number up to below the second. -/
def hasCode (lowest bound : Nat) (p : Piece) : Bool :=
  p.code?.any fun n => lowest ≤ n && n < bound

/-- A Unicode escape of a high surrogate. -/
def isHigh (p : Piece) : Bool :=
  p.hasCode 0xD800 0xDC00

/-- A Unicode escape of a low surrogate. -/
def isLow (p : Piece) : Bool :=
  p.hasCode 0xDC00 0xE000

/-- A legacy escape: octal digits, an eight or a nine. -/
def isLegacy : Piece → Bool
  | .octal _ => true
  | .decimal _ => true
  | _ => false

/-- An escape with more than six digits in its braces. -/
def isLong : Piece → Bool
  | .braced ds => 6 < ds.length
  | _ => false

/-- Whether the piece keeps its literal from being read, with the given pieces right before and
    right behind it: a legacy escape, a long one, or a surrogate that is not one of a high and a
    low one in two escapes that follow each other. -/
def isBar (before after : Option Piece) (p : Piece) : Bool :=
  p.isLegacy || p.isLong || (p.isHigh && !after.any isLow) || (p.isLow && !before.any isHigh)

end Piece

/-! ## Literals -/

/-- The body that pieces make. -/
def bodyChars (pieces : List Piece) : List Char :=
  pieces.flatMap Piece.chars

/-- Whether pieces make the body of a literal with the given quote. -/
def isSpelled (quote : Char) : List Piece → Bool
  | [] => true
  | p :: ps => p.isAllowed quote (bodyChars ps ++ [quote]).head? && isSpelled quote ps

/-- Whether one of the pieces keeps its literal from being read, with the given piece right before
    the first of them. -/
def hasBar (before : Option Piece) : List Piece → Bool
  | [] => false
  | p :: ps => p.isBar before ps.head? || hasBar (some p) ps

/-- A string literal in single or double quotes. -/
structure StringLiteral where
  quote : Char
  pieces : List Piece
  quote_eq : quote = '"' ∨ quote = '\''
  spelled : isSpelled quote pieces = true

namespace StringLiteral

/-- The literal as it stands in the source. -/
def text (l : StringLiteral) : String :=
  String.ofList (l.quote :: (bodyChars l.pieces ++ [l.quote]))

/-- The code units that the literal denotes. -/
def units (l : StringLiteral) : List Nat :=
  l.pieces.flatMap Piece.units

/-- Whether some piece keeps the literal from being read. -/
def isBarred (l : StringLiteral) : Bool :=
  hasBar none l.pieces

end StringLiteral

/-! ## Codes -/

theorem toNat_ofNat_of_lt {n : Nat} (h : n < 0xD800 ∨ (0xE000 ≤ n ∧ n < 0x110000)) :
    (Char.ofNat n).toNat = n := by
  have hvalid : n.isValidChar := by
    rw [Nat.isValidChar]
    omega
  rw [Char.ofNat, dif_pos hvalid]
  rfl

/-- A code that is the number of a character gives that character's code units. -/
theorem charUnits_of_charOfCode? {n : Nat} {c : Char} (h : charOfCode? n = some c) :
    charUnits c = codeUnits n := by
  rw [charOfCode?] at h
  split at h
  · rename_i hn
    obtain rfl := Option.some.inj h
    show codeUnits (Char.ofNat n).toNat = codeUnits n
    rw [toNat_ofNat_of_lt hn]
  · simp at h

theorem digitValue?_of_isHexDigit {c : Char} (h : isHexDigit c = true) :
    digitValue? 16 c = some (digitValue c) ∧ digitValue c < 16 := by
  simp only [isHexDigit, Bool.or_eq_true, Bool.and_eq_true, decide_eq_true_eq] at h
  rw [digitValue?, digitValue]
  grind

theorem foldl_digitValue_lt {ds : List Char} (h : ∀ c ∈ ds, isHexDigit c = true) (acc : Nat) :
    ds.foldl (fun n c => n * 16 + digitValue c) acc < (acc + 1) * Nat.pow 16 ds.length := by
  induction ds generalizing acc with
  | nil => simp
  | cons c ds ih =>
    have hc := (digitValue?_of_isHexDigit (h c List.mem_cons_self)).2
    have hds := ih (fun d hd => h d (List.mem_cons_of_mem _ hd)) (acc * 16 + digitValue c)
    calc (c :: ds).foldl (fun n c => n * 16 + digitValue c) acc
        < (acc * 16 + digitValue c + 1) * Nat.pow 16 ds.length := hds
      _ ≤ (acc + 1) * 16 * Nat.pow 16 ds.length := Nat.mul_le_mul_right _ (by omega)
      _ = (acc + 1) * (Nat.pow 16 ds.length * 16) := by rw [Nat.mul_assoc, Nat.mul_comm 16]

/-- So many digits write a number below so great a power. -/
theorem digitsValue_lt {ds : List Char} (h : ∀ c ∈ ds, isHexDigit c = true) {n : Nat}
    (hn : ds.length = n) : digitsValue 16 ds < Nat.pow 16 n := by
  have hlt := foldl_digitValue_lt h 0
  rwa [Nat.zero_add, Nat.one_mul, hn] at hlt

theorem digitsValue_two_lt {a b : Char} (h : ∀ c ∈ [a, b], isHexDigit c = true) :
    digitsValue 16 [a, b] < 0x100 :=
  digitsValue_lt (n := 2) h rfl

theorem digitsValue_four_lt {a b c d : Char} (h : ∀ e ∈ [a, b, c, d], isHexDigit e = true) :
    digitsValue 16 [a, b, c, d] < 0x10000 :=
  digitsValue_lt (n := 4) h rfl

theorem digitsFrom?_of_isHexDigit {ds : List Char} (h : ∀ c ∈ ds, isHexDigit c = true)
    (acc : Nat) :
    digitsFrom? 16 acc ds = some (ds.foldl (fun n c => n * 16 + digitValue c) acc) := by
  induction ds generalizing acc with
  | nil => rfl
  | cons c ds ih =>
    rw [digitsFrom?, (digitValue?_of_isHexDigit (h c List.mem_cons_self)).1, List.foldl_cons]
    exact ih (fun d hd => h d (List.mem_cons_of_mem _ hd)) _

theorem ne_of_isHexDigit {c d : Char} (h : isHexDigit c = true) (hd : isHexDigit d = false) :
    c ≠ d := by
  rintro rfl
  rw [h] at hd
  simp at hd

/-- Hexadecimal digits are read as the number that they write. -/
theorem hexCode?_of_isHexDigit {ds : List Char} (hne : ds ≠ [])
    (h : ∀ c ∈ ds, isHexDigit c = true) (hlt : digitsValue 16 ds < Nat.pow 2 32) :
    hexCode? ds = some (digitsValue 16 ds) := by
  have hdigits : digits? 16 ds = some (digitsValue 16 ds) := by
    rw [digits?, if_neg (by simpa using hne), digitsFrom?_of_isHexDigit h]
    rfl
  rw [hexCode?, unsigned?.eq_def]
  split
  · exact absurd rfl (ne_of_isHexDigit (h '+' List.mem_cons_self) (by decide))
  · rw [hdigits, Option.filter_some, if_pos (by simpa using hlt)]

theorem byteLength_of_isHexDigit {ds : List Char} (h : ∀ c ∈ ds, isHexDigit c = true) :
    byteLength ds = ds.length := by
  induction ds with
  | nil => rfl
  | cons c ds ih =>
    have hc := h c List.mem_cons_self
    simp only [isHexDigit, Bool.or_eq_true, Bool.and_eq_true, decide_eq_true_eq] at hc
    have hsize : c.utf8Size = 1 := by
      rw [Char.utf8Size_eq_one_iff]
      show c.toNat ≤ 127
      omega
    rw [byteLength_cons, hsize, ih fun d hd => h d (List.mem_cons_of_mem _ hd), List.length_cons,
      Nat.add_comm]

theorem untilBrace?_append {ds : List Char} (h : '\x7d' ∉ ds) (seen rest : List Char) :
    untilBrace? seen (ds ++ '\x7d' :: rest) = some (seen.reverse ++ ds, rest) := by
  induction ds generalizing seen with
  | nil => simp [untilBrace?]
  | cons c ds ih =>
    rw [List.mem_cons, not_or] at h
    rw [List.cons_append, untilBrace?, if_neg (Ne.symm h.1), ih h.2]
    simp

/-! ## Reading one piece -/

/-- The character that a character behind a backslash stands for. -/
def unescaped (c : Char) : Char :=
  match c with
  | 'b' => '\x08'
  | 't' => '\t'
  | 'n' => '\n'
  | 'v' => '\x0b'
  | 'f' => '\x0c'
  | 'r' => '\r'
  | c => c

/-- The text of a piece by itself. A surrogate has none, and a piece that is no longer in use has
    none either. -/
def Piece.text? : Piece → Option (List Char)
  | .plain c => some [c]
  | .single c => some [unescaped c]
  | .zero => some ['\x00']
  | .hex a b => (charOfCode? (digitsValue 16 [a, b])).map ([·])
  | .unicode a b c d => (charOfCode? (digitsValue 16 [a, b, c, d])).map ([·])
  | .braced ds => if 6 < ds.length then none else (charOfCode? (digitsValue 16 ds)).map ([·])
  | .lineBreak _ => some []
  | .octal _ => none
  | .decimal _ => none

theorem readPiece?_escape (cs : List Char) : readPiece? ('\\' :: cs) = escape? cs := by
  rw [readPiece?, if_pos rfl]

theorem escape?_single {c : Char} (hbreak : isLineBreak c = false) (hdigit : isDigit c = false)
    (hx : c ≠ 'x') (hu : c ≠ 'u') (rest : List Char) :
    escape? (c :: rest) = some ([unescaped c], rest) := by
  have hzero : c ≠ '0' := by
    rintro rfl
    exact absurd hdigit (by decide)
  rw [escape?.eq_def]
  simp only
  split
  all_goals simp_all [unescaped, isLineBreak]

theorem escape?_digit {c : Char} {rest : List Char} (hdigit : isDigit c = true)
    (hzero : c = '0' → rest.head?.any isDigit = true) : escape? (c :: rest) = none := by
  rw [escape?.eq_def]
  simp only
  split
  all_goals simp_all [isDigit]

theorem isDigit_of_isOctalDigit {c : Char} (h : isOctalDigit c = true) : isDigit c = true := by
  simp only [isOctalDigit, isDigit, Bool.and_eq_true, decide_eq_true_eq] at h ⊢
  omega

/-- An octal escape has a first digit, and a zero there has a digit behind it. -/
theorem exists_cons_of_isOctalEscape {next : Option Char} {ds : List Char}
    (h : isOctalEscape next ds = true) :
    ∃ a tail, ds = a :: tail ∧ isOctalDigit a = true ∧
      (a = '0' → (tail ++ next.toList).head?.any isDigit = true) := by
  match ds, h with
  | [a], h =>
    simp only [isOctalEscape, Bool.or_eq_true, Bool.and_eq_true, beq_iff_eq, bne_iff_ne] at h
    rcases h with ⟨rfl, hnext⟩ | ⟨⟨ha, hzero⟩, -⟩
    · refine ⟨'0', [], rfl, by decide, fun _ => ?_⟩
      obtain ⟨c, rfl, hc⟩ := (Option.any_eq_true _ _).mp hnext
      simp only [Bool.or_eq_true, beq_iff_eq] at hc
      rcases hc with rfl | rfl <;> rfl
    · exact ⟨a, [], rfl, ha, fun heq => absurd heq hzero⟩
  | [a, b], h =>
    simp only [isOctalEscape, Bool.and_eq_true] at h
    exact ⟨a, [b], rfl, h.1.1, fun _ => isDigit_of_isOctalDigit h.1.2⟩
  | [a, b, c], h =>
    simp only [isOctalEscape, Bool.and_eq_true] at h
    exact ⟨a, [b, c], rfl, h.1.1.1, fun _ => isDigit_of_isOctalDigit h.1.1.2⟩

theorem escape?_octal {ds rest : List Char} {quote : Char} (hquote : isDigit quote = false)
    (h : isOctalEscape (rest ++ [quote]).head? ds = true) : escape? (ds ++ rest) = none := by
  obtain ⟨a, tail, rfl, ha, hzero⟩ := exists_cons_of_isOctalEscape h
  refine escape?_digit (isDigit_of_isOctalDigit ha) fun heq => ?_
  have hnext := hzero heq
  cases tail with
  | cons b tail => exact hnext
  | nil =>
    -- The digit behind a single zero is not the closing quote.
    cases rest with
    | nil => exact absurd hnext (by simp [hquote])
    | cons c rest => exact hnext

theorem escape?_zero {rest : List Char} (h : rest.head?.any isDigit = false) :
    escape? ('0' :: rest) = some (['\x00'], rest) := by
  simp [escape?, h]

theorem escape?_hex {a b : Char} (hall : ∀ c ∈ [a, b], isHexDigit c = true) (rest : List Char) :
    escape? ('x' :: a :: b :: rest) =
      (charOfCode? (digitsValue 16 [a, b])).map fun d => ([d], rest) := by
  have hcode := hexCode?_of_isHexDigit (List.cons_ne_nil a [b]) hall
    (Nat.lt_trans (digitsValue_two_lt hall) (by decide))
  simp only [escape?, hcode, Option.bind_eq_bind, Option.bind_some]
  cases charOfCode? (digitsValue 16 [a, b]) <;> rfl

/-! ## Unicode escapes -/

namespace Piece

variable {p q : Piece} {quote : Char} {next : Option Char} {code low : Nat} {rest : List Char}

theorem isHexDigit_of_hex {a b : Char} (h : (hex a b).isAllowed quote next = true) :
    ∀ c ∈ [a, b], isHexDigit c = true := by
  simpa [isAllowed] using h

theorem isHexDigit_of_unicode {a b c d : Char}
    (h : (unicode a b c d).isAllowed quote next = true) :
    ∀ e ∈ [a, b, c, d], isHexDigit e = true := by
  simpa [isAllowed, and_assoc] using h

theorem text?_of_code? (h : p.code? = some code) :
    p.text? = if p.isLong then none else (charOfCode? code).map ([·]) := by
  cases p with
  | unicode a b c d =>
    obtain rfl := Option.some.inj h
    rfl
  | braced ds =>
    obtain rfl := Option.some.inj h
    simp [text?, isLong]
  | _ => simp [code?] at h

/-- The digits of a Unicode escape are read as its code, unless there are too many. -/
theorem exists_unicodeCode? (h : p.code? = some code) (hallowed : p.isAllowed quote next = true) :
    ∃ tail, p.chars = '\\' :: 'u' :: tail ∧
      ∀ rest, unicodeCode? (tail ++ rest) = if p.isLong then none else some (code, rest) := by
  cases p with
  | unicode a b c d =>
    obtain rfl := Option.some.inj h
    refine ⟨[a, b, c, d], rfl, fun rest => ?_⟩
    have hall := isHexDigit_of_unicode hallowed
    have hcode := hexCode?_of_isHexDigit (List.cons_ne_nil a [b, c, d]) hall
      (Nat.lt_trans (digitsValue_four_lt hall) (by decide))
    -- A digit is no brace, so that four characters are taken and not those up to a brace.
    have hbrace : a ≠ '\x7b' := ne_of_isHexDigit (hall a List.mem_cons_self) (by decide)
    rw [unicodeCode?.eq_def]
    split
    · rename_i heq
      exact absurd (List.cons.inj heq).1 hbrace
    · rename_i heq
      obtain ⟨rfl, rfl, rfl, rfl, rfl⟩ : _ ∧ _ ∧ _ ∧ _ ∧ _ := by simpa using heq
      rw [hcode]
      rfl
    · rename_i hshort
      exact absurd rfl (hshort a b c d rest)
  | braced ds =>
    obtain rfl := Option.some.inj h
    simp only [isAllowed, Bool.and_eq_true, Bool.not_eq_true', List.isEmpty_eq_false_iff,
      List.all_eq_true, decide_eq_true_eq] at hallowed
    obtain ⟨⟨hne, hall⟩, hle⟩ := hallowed
    refine ⟨'\x7b' :: (ds ++ ['\x7d']), rfl, fun rest => ?_⟩
    -- The digits end at the brace that closes them, and take up one byte each.
    have hclose : '\x7d' ∉ ds := fun hmem => absurd (hall _ hmem) (by decide)
    have hcode := hexCode?_of_isHexDigit hne hall (Nat.lt_of_le_of_lt hle (by decide))
    simp only [List.cons_append, List.append_assoc, List.nil_append, unicodeCode?,
      untilBrace?_append hclose, List.reverse_nil, Option.bind_eq_bind, Option.bind_some, hcode,
      byteLength_of_isHexDigit hall, isLong, List.isEmpty_iff, hne, false_or, decide_eq_true_eq]
  | _ => simp [code?] at h

end Piece

theorem unicodeEscape?_of_code {cs rest : List Char} {code : Nat}
    (h : unicodeCode? cs = some (code, rest)) (hlow : ¬(0xD800 ≤ code ∧ code < 0xDC00)) :
    unicodeEscape? cs = (charOfCode? code).map fun c => (c, rest) := by
  simp only [unicodeEscape?, h, Option.bind_eq_bind, Option.bind_some, if_neg hlow]
  cases charOfCode? code <;> rfl

/-- A high surrogate is read together with the low one in the escape behind it. -/
theorem unicodeEscape?_of_pair {cs more rest : List Char} {high low : Nat}
    (h : unicodeCode? cs = some (high, '\\' :: 'u' :: more))
    (hhigh : 0xD800 ≤ high ∧ high < 0xDC00) (hmore : unicodeCode? more = some (low, rest))
    (hlow : 0xDC00 ≤ low ∧ low < 0xE000) :
    unicodeEscape? cs =
      (charOfCode? (0x10000 + (high - 0xD800) * 0x400 + (low - 0xDC00))).map
        fun c => (c, rest) := by
  simp only [unicodeEscape?, h, Option.bind_eq_bind, Option.bind_some, if_pos hhigh, hmore,
    if_pos hlow]
  cases charOfCode? (0x10000 + (high - 0xD800) * 0x400 + (low - 0xDC00)) <;> rfl

/-- A high surrogate without a low one in an escape behind it is not read. -/
theorem unicodeEscape?_of_lone {cs rest : List Char} {high : Nat}
    (h : unicodeCode? cs = some (high, rest)) (hhigh : 0xD800 ≤ high ∧ high < 0xDC00)
    (hlone : ∀ more low rest', rest = '\\' :: 'u' :: more → unicodeCode? more = some (low, rest') →
      ¬(0xDC00 ≤ low ∧ low < 0xE000)) :
    unicodeEscape? cs = none := by
  simp only [unicodeEscape?, h, Option.bind_eq_bind, Option.bind_some, if_pos hhigh]
  split
  · rename_i more
    cases hmore : unicodeCode? more with
    | none => rfl
    | some found =>
      rw [Option.bind_some, if_neg (hlone more found.1 found.2 rfl hmore)]
  · rfl

/-! ## Reading pieces where they stand -/

namespace Piece

variable {p q : Piece} {quote : Char} {rest : List Char}

theorem hasCode_iff {lowest bound code : Nat} (h : p.code? = some code) :
    p.hasCode lowest bound = true ↔ lowest ≤ code ∧ code < bound := by
  simp [hasCode, h]

theorem exists_code?_of_hasCode {lowest bound : Nat} (h : p.hasCode lowest bound = true) :
    ∃ code, p.code? = some code ∧ lowest ≤ code ∧ code < bound := by
  obtain ⟨code, hcode, -⟩ := (Option.any_eq_true _ _).mp h
  exact ⟨code, hcode, (hasCode_iff hcode).mp h⟩

/-- What follows a piece begins with its next character, or is the closing quote alone. -/
theorem any_head?_of_append {f : Char → Bool} (h : ((rest ++ [quote]).head?.any f) = false) :
    rest.head?.any f = false := by
  cases rest with
  | nil => rfl
  | cons c rest => exact h

/-- A Unicode escape with too many digits is not read. -/
theorem readPiece?_of_isLong {code : Nat} {next : Option Char} (hcode : p.code? = some code)
    (hallowed : p.isAllowed quote next = true) (hlong : p.isLong = true) (rest : List Char) :
    readPiece? (p.chars ++ rest) = none := by
  obtain ⟨tail, hchars, hread⟩ := exists_unicodeCode? hcode hallowed
  have hnone := hread rest
  rw [hlong, if_pos rfl] at hnone
  rw [hchars, List.cons_append, List.cons_append, readPiece?_escape]
  show (unicodeEscape? (tail ++ rest)).map _ = none
  simp [unicodeEscape?, hnone]

/-- A piece that is no high surrogate is read by itself. -/
theorem readPiece?_of_not_isHigh (hallowed : p.isAllowed quote (rest ++ [quote]).head? = true)
    (hquote : isDigit quote = false) (hhigh : p.isHigh = false) :
    readPiece? (p.chars ++ rest) = p.text?.map fun text => (text, rest) := by
  cases hcode : p.code? with
  | some code =>
    rw [text?_of_code? hcode]
    cases hlong : p.isLong with
    | true => exact readPiece?_of_isLong hcode hallowed hlong rest
    | false =>
      obtain ⟨tail, hchars, hread⟩ := exists_unicodeCode? hcode hallowed
      have hsome := hread rest
      rw [hlong, if_neg Bool.false_ne_true] at hsome
      rw [hchars, List.cons_append, List.cons_append, readPiece?_escape]
      show (unicodeEscape? (tail ++ rest)).map _ = _
      have hnot : ¬(0xD800 ≤ code ∧ code < 0xDC00) := by
        rw [← hasCode_iff hcode]
        exact Bool.eq_false_iff.mp hhigh
      rw [unicodeEscape?_of_code hsome hnot, if_neg Bool.false_ne_true, Option.map_map,
        Option.map_map]
      rfl
  | none =>
    cases p with
    | plain c =>
      simp only [isAllowed, Bool.and_eq_true, bne_iff_ne] at hallowed
      show readPiece? (c :: rest) = some ([c], rest)
      rw [readPiece?, if_neg hallowed.1.1.2]
    | single c =>
      simp only [isAllowed, Bool.and_eq_true, Bool.not_eq_true', bne_iff_ne] at hallowed
      obtain ⟨⟨⟨hbreak, hdigit⟩, hx⟩, hu⟩ := hallowed
      exact (readPiece?_escape (c :: rest)).trans (escape?_single hbreak hdigit hx hu rest)
    | zero =>
      simp only [isAllowed, Bool.not_eq_true'] at hallowed
      exact (readPiece?_escape ('0' :: rest)).trans (escape?_zero (any_head?_of_append hallowed))
    | hex a b =>
      rw [text?, Option.map_map]
      exact (readPiece?_escape ('x' :: a :: b :: rest)).trans
        (escape?_hex (isHexDigit_of_hex hallowed) rest)
    | lineBreak cs =>
      simp only [isAllowed, Bool.or_eq_true, Bool.and_eq_true, beq_iff_eq, bne_iff_ne] at hallowed
      rcases hallowed with (((rfl | rfl) | rfl) | rfl) | ⟨rfl, hnext⟩
      · rfl
      · rfl
      · rfl
      · rfl
      · -- A carriage return by itself: no line feed follows.
        refine (readPiece?_escape ('\r' :: rest)).trans ?_
        cases rest with
        | nil => rfl
        | cons c rest =>
          have hc : c ≠ '\n' := fun heq => hnext (by rw [heq]; rfl)
          simp only [escape?]
          split
          · rename_i heq
            exact absurd (List.cons.inj heq).1 hc
          · rfl
    | octal ds => exact (readPiece?_escape (ds ++ rest)).trans (escape?_octal hquote hallowed)
    | decimal c =>
      simp only [isAllowed, Bool.or_eq_true, beq_iff_eq] at hallowed
      show readPiece? ('\\' :: c :: rest) = none
      rw [readPiece?_escape]
      rcases hallowed with rfl | rfl
      · exact escape?_digit (by decide) fun h => absurd h (by decide)
      · exact escape?_digit (by decide) fun h => absurd h (by decide)
    | unicode a b c d => simp [code?] at hcode
    | braced ds => simp [code?] at hcode

/-- A piece that is no Unicode escape does not begin like one. -/
theorem append_ne_of_code?_eq_none {next : Option Char} (hcode : p.code? = none)
    (hallowed : p.isAllowed quote next = true) (rest more : List Char) :
    p.chars ++ rest ≠ '\\' :: 'u' :: more := by
  intro heq
  cases p with
  | plain c => simp_all [isAllowed, chars]
  | single c => simp_all [isAllowed, chars]
  | zero => simp [chars] at heq
  | hex a b => simp [chars] at heq
  | lineBreak cs =>
    simp only [isAllowed, Bool.or_eq_true, Bool.and_eq_true, beq_iff_eq] at hallowed
    rcases hallowed with (((rfl | rfl) | rfl) | rfl) | ⟨rfl, -⟩ <;> simp [chars] at heq
  | octal ds =>
    obtain ⟨a, tail, rfl, ha, -⟩ := exists_cons_of_isOctalEscape hallowed
    obtain rfl : a = 'u' := (List.cons.inj (List.cons.inj heq).2).1
    exact absurd ha (by decide)
  | decimal c => simp_all [isAllowed, chars]
  | unicode a b c d => simp [code?] at hcode
  | braced ds => simp [code?] at hcode

end Piece

end DefineFold
