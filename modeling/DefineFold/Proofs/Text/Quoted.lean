/-
  DefineFold.Proofs.Text.Quoted

  Literals read piece by piece. `readPiece?` takes the first piece off the body of a literal: an
  escape sequence, or a character that stands for itself. Every piece has a length
  (`length_lt_of_readPiece?`), so that the bound on the number of steps never ends the reading, and
  what a body denotes is what its first piece denotes with what the rest denotes behind it
  (`readBody?_of_readPiece?`). White space around a literal plays no part, because a literal
  begins and ends with its quote (`decodeChars?_quoted`).
-/

import DefineFold.Text.Quoted

namespace DefineFold

/-- The text of the first piece of a body, and what follows the piece. -/
def readPiece? : List Char → Option (List Char × List Char)
  | [] => none
  | c :: cs => if c = '\\' then escape? cs else some ([c], cs)

/-- The text of the body of a literal. -/
def readBody? (cs : List Char) : Option (List Char) :=
  decodeBody? cs.length [] cs

/-! ## Pieces have a length -/

theorem length_lt_of_untilBrace? {seen cs hex rest : List Char}
    (h : untilBrace? seen cs = some (hex, rest)) : rest.length < cs.length := by
  induction cs generalizing seen with
  | nil => simp [untilBrace?] at h
  | cons c cs ih =>
    rw [untilBrace?] at h
    rw [List.length_cons]
    split at h
    · obtain ⟨-, rfl⟩ := Prod.mk.inj (Option.some.inj h)
      exact Nat.lt_succ_self _
    · exact Nat.lt_succ_of_lt (ih h)

theorem length_lt_of_unicodeCode? {cs rest : List Char} {code : Nat}
    (h : unicodeCode? cs = some (code, rest)) : rest.length < cs.length := by
  rw [unicodeCode?.eq_def] at h
  split at h
  · rename_i cs
    obtain ⟨⟨hex, more⟩, hbrace, h⟩ := Option.bind_eq_some_iff.mp h
    have hlt := length_lt_of_untilBrace? hbrace
    rw [List.length_cons]
    simp only at h
    split at h
    · simp at h
    · obtain ⟨n, -, h⟩ := Option.bind_eq_some_iff.mp h
      obtain ⟨-, rfl⟩ := Prod.mk.inj (Option.some.inj h)
      omega
  · obtain ⟨n, -, h⟩ := Option.map_eq_some_iff.mp h
    obtain ⟨-, rfl⟩ := Prod.mk.inj h
    simp only [List.length_cons]
    omega
  · simp at h

theorem length_lt_of_unicodeEscape? {cs rest : List Char} {c : Char}
    (h : unicodeEscape? cs = some (c, rest)) : rest.length < cs.length := by
  rw [unicodeEscape?] at h
  obtain ⟨⟨code, more⟩, hcode, h⟩ := Option.bind_eq_some_iff.mp h
  have hlt := length_lt_of_unicodeCode? hcode
  simp only at h
  split at h
  · split at h
    · -- A second escape follows, and is taken off too.
      obtain ⟨⟨low, rest'⟩, hlow, h⟩ := Option.bind_eq_some_iff.mp h
      have hlt' := length_lt_of_unicodeCode? hlow
      simp only [List.length_cons] at hlt
      simp only at h
      split at h
      · obtain ⟨d, -, h⟩ := Option.bind_eq_some_iff.mp h
        obtain ⟨-, rfl⟩ := Prod.mk.inj (Option.some.inj h)
        omega
      · simp at h
    · simp at h
  · obtain ⟨d, -, h⟩ := Option.bind_eq_some_iff.mp h
    obtain ⟨-, rfl⟩ := Prod.mk.inj (Option.some.inj h)
    exact hlt

theorem length_lt_of_escape? {cs text rest : List Char} (h : escape? cs = some (text, rest)) :
    rest.length < cs.length := by
  cases cs with
  | nil => simp [escape?] at h
  | cons c cs =>
    have hself : ∀ {text' : List Char}, some (text', cs) = some (text, rest) →
        rest.length < cs.length + 1 := by
      intro text' heq
      obtain ⟨-, rfl⟩ := Prod.mk.inj (Option.some.inj heq)
      exact Nat.lt_succ_self _
    rw [List.length_cons]
    rw [escape?.eq_def] at h
    simp only at h
    split at h
    -- The escapes of one character first, then those that look at what follows.
    all_goals try exact hself h
    · split at h
      · obtain ⟨code, -, h⟩ := Option.bind_eq_some_iff.mp h
        obtain ⟨d, -, h⟩ := Option.bind_eq_some_iff.mp h
        obtain ⟨-, rfl⟩ := Prod.mk.inj (Option.some.inj h)
        simp only [List.length_cons]
        omega
      · simp at h
    · obtain ⟨⟨d, more⟩, hunicode, h⟩ := Option.map_eq_some_iff.mp h
      obtain ⟨-, rfl⟩ := Prod.mk.inj h
      exact Nat.lt_succ_of_lt (length_lt_of_unicodeEscape? hunicode)
    · split at h
      · obtain ⟨-, rfl⟩ := Prod.mk.inj (Option.some.inj h)
        simp only [List.length_cons]
        omega
      · exact hself h
    · split at h
      · exact hself h
      · split at h
        · simp at h
        · exact hself h

theorem length_lt_of_readPiece? {cs text rest : List Char}
    (h : readPiece? cs = some (text, rest)) : rest.length < cs.length := by
  cases cs with
  | nil => simp [readPiece?] at h
  | cons c cs =>
    rw [readPiece?] at h
    rw [List.length_cons]
    split at h
    · exact Nat.lt_succ_of_lt (length_lt_of_escape? h)
    · obtain ⟨-, rfl⟩ := Prod.mk.inj (Option.some.inj h)
      exact Nat.lt_succ_self _

/-! ## The body of a literal -/

theorem decodeBody?_nil (fuel : Nat) (done : List Char) :
    decodeBody? fuel done [] = some done.reverse := by
  cases fuel <;> rfl

/-- One step of reading takes one piece off. -/
theorem decodeBody?_succ (fuel : Nat) (done : List Char) (c : Char) (cs : List Char) :
    decodeBody? (fuel + 1) done (c :: cs) =
      (readPiece? (c :: cs)).bind fun piece =>
        decodeBody? fuel (piece.1.reverse ++ done) piece.2 := by
  rw [decodeBody?, readPiece?]
  split
  · cases escape? cs <;> rfl
  · rfl

/-- The text read so far comes before what is read from now on. -/
theorem decodeBody?_eq_map (fuel : Nat) (done cs : List Char) :
    decodeBody? fuel done cs = (decodeBody? fuel [] cs).map (done.reverse ++ ·) := by
  induction fuel generalizing done cs with
  | zero => cases cs <;> simp [decodeBody?]
  | succ fuel ih =>
    cases cs with
    | nil => simp [decodeBody?_nil]
    | cons c cs =>
      rw [decodeBody?_succ, decodeBody?_succ, Option.map_bind]
      congr 1
      funext piece
      rw [Function.comp_apply, ih (piece.1.reverse ++ done), ih (piece.1.reverse ++ []),
        Option.map_map]
      congr 1
      funext text
      simp

/-- A bound that is not below the length of the body is never short. -/
theorem decodeBody?_eq_of_length_le {fuel : Nat} {cs : List Char} (h : cs.length ≤ fuel)
    (done : List Char) : decodeBody? fuel done cs = decodeBody? cs.length done cs := by
  induction fuel using Nat.strongRecOn generalizing cs done with
  | ind fuel ih =>
    cases cs with
    | nil => rw [decodeBody?_nil, decodeBody?_nil]
    | cons c cs =>
      rw [List.length_cons] at h ⊢
      obtain ⟨fuel, rfl⟩ : ∃ n, fuel = n + 1 := ⟨fuel - 1, by omega⟩
      rw [decodeBody?_succ, decodeBody?_succ]
      cases hpiece : readPiece? (c :: cs) with
      | none => rfl
      | some piece =>
        have hlt : piece.2.length < (c :: cs).length := length_lt_of_readPiece? hpiece
        rw [List.length_cons] at hlt
        -- Both bounds are below the first one and not below the length of the rest.
        rw [Option.bind_some, Option.bind_some, ih fuel (Nat.lt_succ_self _) (by omega),
          ih cs.length (by omega) (by omega)]

theorem readBody?_eq_bind {cs : List Char} (hne : cs ≠ []) :
    readBody? cs = (readPiece? cs).bind fun piece => (readBody? piece.2).map (piece.1 ++ ·) := by
  cases cs with
  | nil => exact absurd rfl hne
  | cons c cs =>
    rw [readBody?, List.length_cons, decodeBody?_succ]
    cases hpiece : readPiece? (c :: cs) with
    | none => rfl
    | some piece =>
      have hlt : piece.2.length < (c :: cs).length := length_lt_of_readPiece? hpiece
      rw [List.length_cons] at hlt
      rw [Option.bind_some, Option.bind_some, decodeBody?_eq_of_length_le (by omega),
        decodeBody?_eq_map]
      simp [readBody?]

/-- A body denotes what its first piece denotes, and then what the rest denotes. -/
theorem readBody?_of_readPiece? {cs text rest : List Char}
    (h : readPiece? cs = some (text, rest)) :
    readBody? cs = (readBody? rest).map (text ++ ·) := by
  have hne : cs ≠ [] := by
    rintro rfl
    simp [readPiece?] at h
  rw [readBody?_eq_bind hne, h]
  rfl

theorem readBody?_of_readPiece?_eq_none {cs : List Char} (h : readPiece? cs = none)
    (hne : cs ≠ []) : readBody? cs = none := by
  rw [readBody?_eq_bind hne, h]
  rfl

/-! ## Quotes -/

theorem not_isBlank_of_isQuote {q : Char} (h : isQuote q = true) : isBlank q = false := by
  simp only [isQuote, Bool.or_eq_true, beq_iff_eq] at h
  rcases h with (rfl | rfl) | rfl <;> decide

theorem trimChars_quoted {q : Char} (h : isQuote q = true) (body : List Char) :
    trimChars (q :: (body ++ [q])) = q :: (body ++ [q]) := by
  have hblank := not_isBlank_of_isQuote h
  have hreverse : (q :: (body ++ [q])).reverse = q :: (body.reverse ++ [q]) := by simp
  rw [trimChars, List.dropWhile_cons_of_neg (by simp [hblank]), hreverse,
    List.dropWhile_cons_of_neg (by simp [hblank]), ← hreverse, List.reverse_reverse]

/-- What a literal denotes is what stands between its quotes denotes. -/
theorem decodeChars?_quoted {q : Char} (h : isQuote q = true) (body : List Char) :
    decodeChars? (q :: (body ++ [q])) = readBody? body := by
  have hbody : quotedBody? (q :: (body ++ [q])) = some body := by
    rw [quotedBody?, if_pos ⟨h, List.getLast?_concat⟩, List.dropLast_concat]
  rw [decodeChars?, trimChars_quoted h, hbody]
  rfl

end DefineFold
