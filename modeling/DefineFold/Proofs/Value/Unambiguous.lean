/-
  DefineFold.Proofs.Value.Unambiguous

  Literals of configuration values say what they are literals of, the numbers apart: two numbers
  may be written alike. The outline of a value has the text of each number in the number's place,
  and the rest of the value as it is. Two values have the same literal just if they have the same
  outline (`Value.literal_eq_iff`).

  Literals stand in literals, where something follows them. Each literal ends where it has to,
  whatever follows: a string ends at its quote, an array and an object at their bracket, and a
  number at the comma, blank or bracket that comes after it (`Stops`). Hence a literal with
  something behind it determines both (`Value.Told`): the first character says of which sort the
  value is, and the induction goes over the values right inside (`Value.parts_induction`).
-/

import DefineFold.Proofs.Text.Decoded
import DefineFold.Proofs.Value.Opening

namespace DefineFold

/-! ## Outlines -/

/-- A configuration value with texts for its numbers. -/
inductive Outline where
  | null
  | bool (b : Bool)
  | number (text : String)
  | string (s : String)
  | array (items : List Outline)
  | object (entries : List (String × Outline))
deriving Inhabited

namespace Value

mutual

/-- A value with the text of its literal for each of its numbers. -/
def outline : Value → Outline
  | .null => .null
  | .bool b => .bool b
  | .integer n => .number (intText n)
  | .double x => .number (numberLiteral x)
  | .string s => .string s
  | .array items => .array (itemOutlines items)
  | .object entries => .object (memberOutlines entries)

/-- The outlines of the items of an array. -/
def itemOutlines : List Value → List Outline
  | [] => []
  | v :: vs => outline v :: itemOutlines vs

/-- The keys of an object with the outlines of what stands under them. -/
def memberOutlines : List (String × Value) → List (String × Outline)
  | [] => []
  | (key, v) :: rest => (key, outline v) :: memberOutlines rest

end

/-- The values right inside of a value. -/
def parts : Value → List Value
  | .array items => items
  | .object entries => entries.map Prod.snd
  | _ => []

theorem sizeOf_lt_of_mem_parts {u v : Value} (h : u ∈ v.parts) : sizeOf u < sizeOf v := by
  cases v with
  | array items =>
    have hlt : sizeOf u < sizeOf items := List.sizeOf_lt_of_mem h
    simp only [array.sizeOf_spec]
    omega
  | object entries =>
    obtain ⟨⟨key, w⟩, he, rfl⟩ := List.mem_map.mp h
    have hlt := List.sizeOf_lt_of_mem he
    simp only [Prod.mk.sizeOf_spec] at hlt
    simp only [object.sizeOf_spec]
    omega
  | _ => simp [parts] at h

/-- What holds of a value as soon as it holds of the values right inside holds of every value. -/
theorem parts_induction {P : Value → Prop} (step : ∀ v, (∀ u ∈ v.parts, P u) → P v) (v : Value) :
    P v :=
  step v fun u _ => parts_induction step u
termination_by sizeOf v
decreasing_by exact sizeOf_lt_of_mem_parts ‹_›

/-- An entry of an object as it is written. -/
def memberChars (e : String × Value) : List Char :=
  keyChars e.1 ++ ':' :: ' ' :: e.2.literalChars

/-- An object with its members as they are written. -/
def objectChars : List (List Char) → List Char
  | [] => ['\x7b', '\x7d']
  | member :: rest => '\x7b' :: ' ' :: (joinChars [',', ' '] (member :: rest) ++ [' ', '\x7d'])

theorem itemLiterals_eq_map (items : List Value) :
    itemLiterals items = items.map literalChars := by
  induction items with
  | nil => rfl
  | cons v vs ih => rw [itemLiterals, ih, List.map_cons]

theorem memberLiterals_eq_map (entries : Entries) :
    memberLiterals entries = entries.map memberChars := by
  induction entries with
  | nil => rfl
  | cons e rest ih => rw [memberLiterals, ih, List.map_cons, memberChars]

theorem literalChars_array (items : List Value) :
    (array items).literalChars =
      '[' :: (joinChars [',', ' '] (items.map literalChars) ++ [']']) := by
  rw [literalChars, itemLiterals_eq_map]

theorem literalChars_object (entries : Entries) :
    (object entries).literalChars = objectChars (entries.map memberChars) := by
  cases entries with
  | nil => rfl
  | cons e es => rw [literalChars, memberLiterals_eq_map, List.map_cons, objectChars]

theorem itemOutlines_eq_map (items : List Value) : itemOutlines items = items.map outline := by
  induction items with
  | nil => rfl
  | cons v vs ih => rw [itemOutlines, ih, List.map_cons]

theorem memberOutlines_eq_map (entries : Entries) :
    memberOutlines entries = entries.map fun e => (e.1, e.2.outline) := by
  induction entries with
  | nil => rfl
  | cons e rest ih => rw [memberOutlines, ih, List.map_cons]

end Value

/-! ## Texts with something behind them -/

/-- The characters that come right after a literal inside of another one. -/
def isStop (c : Char) : Bool :=
  c == ',' || c == ' ' || c == ']'

/-- What may follow a literal: nothing, or what begins with such a character. -/
def Stops (rest : List Char) : Prop :=
  rest.head?.all isStop = true

/-- Texts that end at the first of certain characters are told apart with something behind them. -/
theorem append_inj_of_all {P : Char → Bool} {xs ys r r' : List Char}
    (hxs : ∀ c ∈ xs, P c = false) (hys : ∀ c ∈ ys, P c = false) (hr : r.head?.all P = true)
    (hr' : r'.head?.all P = true) (h : xs ++ r = ys ++ r') : xs = ys ∧ r = r' := by
  induction xs generalizing ys with
  | nil =>
    cases ys with
    | nil => exact ⟨rfl, h⟩
    | cons y ys =>
      obtain rfl : r = y :: (ys ++ r') := h
      exact absurd hr (by simp [hys y List.mem_cons_self])
  | cons x xs ih =>
    cases ys with
    | nil =>
      obtain rfl : x :: (xs ++ r) = r' := h
      exact absurd hr' (by simp [hxs x List.mem_cons_self])
    | cons y ys =>
      obtain ⟨rfl, htail⟩ := List.cons.inj h
      obtain ⟨rfl, hrest⟩ := ih (fun c hc => hxs c (List.mem_cons_of_mem _ hc))
        (fun c hc => hys c (List.mem_cons_of_mem _ hc)) htail
      exact ⟨rfl, hrest⟩

theorem head?_quoteChar_append_ne (c : Char) (rest : List Char) :
    (quoteChar c ++ rest).head? ≠ some '"' := by
  rw [quoteChar]
  repeat' split
  all_goals simp_all

/-- A string literal ends at its quote. -/
theorem quoteChars_append_inj {a b r r' : List Char} (h : quoteChars a ++ r = quoteChars b ++ r') :
    a = b ∧ r = r' := by
  have hbody : a.flatMap quoteChar ++ '"' :: r = b.flatMap quoteChar ++ '"' :: r' := by
    simpa [quoteChars] using h
  clear h
  induction a generalizing b with
  | nil =>
    cases b with
    | nil => exact ⟨rfl, (List.cons.inj hbody).2⟩
    | cons d b =>
      rw [List.flatMap_cons, List.append_assoc] at hbody
      exact absurd (congrArg List.head? hbody).symm (head?_quoteChar_append_ne d _)
  | cons c a ih =>
    rw [List.flatMap_cons, List.append_assoc] at hbody
    cases b with
    | nil => exact absurd (congrArg List.head? hbody) (head?_quoteChar_append_ne c _)
    | cons d b =>
      -- Both sides are read alike: the same character comes off the front of both.
      rw [List.flatMap_cons, List.append_assoc] at hbody
      have hread := congrArg readPiece? hbody
      rw [readPiece?_quoteChar, readPiece?_quoteChar] at hread
      obtain ⟨hchar, hrest⟩ := Prod.mk.inj (Option.some.inj hread)
      obtain ⟨rfl, -⟩ := List.cons.inj hchar
      obtain ⟨rfl, hr⟩ := ih hrest
      exact ⟨rfl, hr⟩

/-! ## Keys -/

theorem isNamePart_of_isPlainName {key : String} (h : isPlainName key = true) {c : Char}
    (hc : c ∈ key.toList) : isNamePart c = true := by
  rw [isPlainName] at h
  cases hkey : key.toList with
  | nil => simp [hkey] at hc
  | cons d ds =>
    rw [hkey] at h hc
    simp only [Bool.and_eq_true, List.all_eq_true] at h
    rcases List.mem_cons.mp hc with rfl | hc
    · have hstart := h.1
      rw [isNameStart] at hstart
      rw [isNamePart, hstart, Bool.true_or]
    · exact h.2 c hc

theorem ne_of_isPlainName {key : String} (h : isPlainName key = true) {c d : Char}
    (hc : c ∈ key.toList) (hd : isNamePart d = false) : c ≠ d := by
  rintro rfl
  rw [isNamePart_of_isPlainName h hc] at hd
  simp at hd

/-- A plain name does not begin with a quote. -/
theorem append_ne_quoted_of_isPlainName {key : String} (h : isPlainName key = true)
    (r rest : List Char) : key.toList ++ ':' :: r ≠ '"' :: rest := by
  intro heq
  cases hkey : key.toList with
  | nil => simp [hkey] at heq
  | cons c cs =>
    rw [hkey] at heq
    exact ne_of_isPlainName h (hkey ▸ List.mem_cons_self) (by decide) (List.cons.inj heq).1

/-- A key ends at its colon: a plain name has none in it. -/
theorem keyChars_append_inj {key key' : String} {r r' : List Char}
    (h : keyChars key ++ ':' :: r = keyChars key' ++ ':' :: r') : key = key' ∧ r = r' := by
  have hcolon : ∀ {name : String}, isPlainName name = true → ∀ c ∈ name.toList,
      (c == ':') = false :=
    fun hname c hc => beq_false_of_ne (ne_of_isPlainName hname hc (by decide))
  rw [keyChars, keyChars] at h
  split at h
  · rename_i hkey
    split at h
    · rename_i hkey'
      obtain ⟨hname, hrest⟩ := append_inj_of_all (hcolon hkey) (hcolon hkey') rfl rfl h
      exact ⟨String.toList_inj.mp hname, (List.cons.inj hrest).2⟩
    · exact absurd h (append_ne_quoted_of_isPlainName hkey _ _)
  · split at h
    · rename_i hkey'
      exact absurd h.symm (append_ne_quoted_of_isPlainName hkey' _ _)
    · obtain ⟨hname, hrest⟩ := quoteChars_append_inj h
      exact ⟨String.toList_inj.mp hname, (List.cons.inj hrest).2⟩

/-! ## Lists of literals -/

theorem exists_joinChars_cons (text : List Char) (rest : List (List Char)) :
    ∃ tail, joinChars [',', ' '] (text :: rest) = text ++ tail := by
  cases rest with
  | nil => exact ⟨[], (List.append_nil text).symm⟩
  | cons next rest => exact ⟨_, List.append_assoc _ _ _⟩

/-- Literals with commas between them are told apart one after the other, up to the character that
    closes the list. -/
theorem joinChars_append_inj {α β : Type} {f : α → List Char} {g : α → β} {close : Char}
    (hstop : isStop close = true) (hclose : close ≠ ',') {xs ys : List α} {x y : α}
    {r r' : List Char}
    (hf : ∀ a ∈ x :: xs, ∀ b s s', Stops s → Stops s' → f a ++ s = f b ++ s' → g a = g b ∧ s = s')
    (h : joinChars [',', ' '] ((x :: xs).map f) ++ close :: r =
      joinChars [',', ' '] ((y :: ys).map f) ++ close :: r') :
    (x :: xs).map g = (y :: ys).map g ∧ r = r' := by
  have hcomma : ∀ s, Stops (',' :: s) := fun s => rfl
  have hends : ∀ s, Stops (close :: s) := fun s => hstop
  induction xs generalizing x y ys with
  | nil =>
    cases ys with
    | nil =>
      obtain ⟨hg, hrest⟩ := hf x List.mem_cons_self y _ _ (hends r) (hends r') h
      exact ⟨by rw [List.map_singleton, List.map_singleton, hg], (List.cons.inj hrest).2⟩
    | cons y' ys =>
      simp only [List.map_cons, List.map_nil, joinChars, List.append_assoc, List.cons_append,
        List.nil_append] at h
      obtain ⟨-, hrest⟩ := hf x List.mem_cons_self y _ _ (hends r) (hcomma _) h
      exact absurd (List.cons.inj hrest).1 hclose
  | cons x' xs ih =>
    cases ys with
    | nil =>
      simp only [List.map_cons, List.map_nil, joinChars, List.append_assoc, List.cons_append,
        List.nil_append] at h
      obtain ⟨-, hrest⟩ := hf x List.mem_cons_self y _ _ (hcomma _) (hends r') h
      exact absurd (List.cons.inj hrest).1.symm hclose
    | cons y' ys =>
      simp only [List.map_cons, joinChars, List.append_assoc, List.cons_append,
        List.nil_append] at h
      obtain ⟨hg, hrest⟩ := hf x List.mem_cons_self y _ _ (hcomma _) (hcomma _) h
      -- The comma and the blank go too, and the lists that remain are not empty.
      obtain ⟨htail, hr⟩ := ih (fun a ha => hf a (List.mem_cons_of_mem _ ha))
        (List.cons.inj (List.cons.inj hrest).2).2
      exact ⟨by rw [List.map_cons, htail, hg]; rfl, hr⟩

/-! ## Sorts of values -/

/-- What a literal is, as far as its first character tells. -/
inductive LiteralSort where
  | null
  | bool (b : Bool)
  | number
  | string
  | array
  | object
deriving DecidableEq, Repr, Inhabited

/-- The characters that the text of a number may begin with. -/
def isNumberStart (c : Char) : Bool :=
  isDigit c || c == '-' || c == 'N' || c == 'I'

/-- What a literal is that begins with the given character. -/
def sortOf? (c : Char) : Option LiteralSort :=
  match c with
  | 'n' => some .null
  | 't' => some (.bool true)
  | 'f' => some (.bool false)
  | '"' => some .string
  | '[' => some .array
  | '\x7b' => some .object
  | c => if isNumberStart c then some .number else none

theorem sortOf?_of_isNumberStart {c : Char} (h : isNumberStart c = true) :
    sortOf? c = some .number := by
  rw [sortOf?.eq_def]
  split
  all_goals first | exact absurd h (by decide) | exact if_pos h

theorem isNumberStart_of_beginsWithDigit {text : List Char} (h : beginsWithDigit text = true) :
    text.head?.any isNumberStart = true := by
  obtain ⟨c, hc, hdigit⟩ := (Option.any_eq_true _ _).mp h
  rw [hc, Option.any_some, isNumberStart, hdigit]
  rfl

theorem head?_intText (n : Int) : (intText n).toList.head?.any isNumberStart = true := by
  cases n with
  | ofNat n => exact isNumberStart_of_beginsWithDigit (beginsWithDigit_intText_ofNat n)
  | negSucc n =>
    rw [head?_intText_negSucc]
    rfl

theorem head?_numberLiteral (x : Float) :
    (numberLiteral x).toList.head?.any isNumberStart = true := by
  cases hparts : Double.parts x with
  | nan =>
    rw [numberLiteral_of_nan hparts]
    decide
  | infinite negative =>
    rw [numberLiteral_of_infinite hparts]
    cases negative <;> decide
  | finite negative m q =>
    cases negative with
    | true =>
      rw [head?_numberLiteral_of_negative hparts]
      rfl
    | false => exact isNumberStart_of_beginsWithDigit (beginsWithDigit_numberLiteral hparts)

theorem not_isStop_of_isNumberChar {c : Char} (h : isNumberChar c = true) : isStop c = false := by
  rw [← Bool.not_eq_true]
  intro hstop
  simp only [isStop, Bool.or_eq_true, beq_iff_eq] at hstop
  rcases hstop with (rfl | rfl) | rfl <;> exact absurd h (by decide)

namespace Value

/-- What the literal of a value is. -/
def sort : Value → LiteralSort
  | .null => .null
  | .bool b => .bool b
  | .integer _ => .number
  | .double _ => .number
  | .string _ => .string
  | .array _ => .array
  | .object _ => .object

/-- The text of a number. -/
def numberText? : Value → Option String
  | .integer n => some (intText n)
  | .double x => some (numberLiteral x)
  | _ => none

/-- The first character of a literal tells what it is. -/
theorem sortOf?_head (v : Value) :
    ∃ c rest, v.literalChars = c :: rest ∧ sortOf? c = some v.sort := by
  have hnumber : ∀ {text : List Char}, text.head?.any isNumberStart = true →
      ∃ c rest, text = c :: rest ∧ sortOf? c = some .number := by
    intro text htext
    cases text with
    | nil => simp at htext
    | cons c rest => exact ⟨c, rest, rfl, sortOf?_of_isNumberStart htext⟩
  cases v with
  | null => exact ⟨'n', _, rfl, rfl⟩
  | bool b =>
    cases b with
    | true => exact ⟨'t', _, rfl, rfl⟩
    | false => exact ⟨'f', _, rfl, rfl⟩
  | integer n => exact hnumber (head?_intText n)
  | double x => exact hnumber (head?_numberLiteral x)
  | string s => exact ⟨'"', _, rfl, rfl⟩
  | array items => exact ⟨'[', _, rfl, rfl⟩
  | object entries =>
    cases entries with
    | nil => exact ⟨'\x7b', _, rfl, rfl⟩
    | cons e es => exact ⟨'\x7b', _, rfl, rfl⟩

/-- Two values of one sort. -/
inductive Alike : Value → Value → Prop
  | null : Alike .null .null
  | bool (b : Bool) : Alike (.bool b) (.bool b)
  | number {v w : Value} {text text' : String} (hv : v.numberText? = some text)
      (hw : w.numberText? = some text') : Alike v w
  | string (s s' : String) : Alike (.string s) (.string s')
  | array (items items' : List Value) : Alike (.array items) (.array items')
  | object (entries entries' : Entries) : Alike (.object entries) (.object entries')

theorem alike_of_sort_eq {v w : Value} (h : v.sort = w.sort) : v.Alike w := by
  cases v with
  | null => cases w <;> first | exact .null | simp [sort] at h
  | bool b =>
    cases w <;> simp [sort] at h
    exact h ▸ .bool b
  | integer n => cases w <;> first | exact .number rfl rfl | simp [sort] at h
  | double x => cases w <;> first | exact .number rfl rfl | simp [sort] at h
  | string s => cases w <;> first | exact .string _ _ | simp [sort] at h
  | array items => cases w <;> first | exact .array _ _ | simp [sort] at h
  | object entries => cases w <;> first | exact .object _ _ | simp [sort] at h

theorem sort_eq_of_append_eq {v w : Value} {r r' : List Char}
    (h : v.literalChars ++ r = w.literalChars ++ r') : v.sort = w.sort := by
  obtain ⟨c, rest, hv, hc⟩ := sortOf?_head v
  obtain ⟨d, rest', hw, hd⟩ := sortOf?_head w
  rw [hv, hw] at h
  obtain ⟨rfl, -⟩ := List.cons.inj h
  exact Option.some.inj (hc.symm.trans hd)

/-- No literal begins with the bracket that closes an array, and no list of literals does. -/
theorem joined_ne_bracket (v : Value) (vs : List Value) (r rest : List Char) :
    joinChars [',', ' '] ((v :: vs).map literalChars) ++ r ≠ ']' :: rest := by
  intro h
  obtain ⟨c, tail, hv, hc⟩ := sortOf?_head v
  obtain ⟨more, hmore⟩ := exists_joinChars_cons v.literalChars (vs.map literalChars)
  rw [List.map_cons, hmore, hv] at h
  obtain ⟨rfl, -⟩ := List.cons.inj h
  exact absurd hc (by simp [sortOf?, isNumberStart, isDigit])

theorem of_numberText? {v : Value} {text : String} (h : v.numberText? = some text) :
    v.literalChars = text.toList ∧ v.outline = .number text ∧
      ∀ c ∈ text.toList, isStop c = false := by
  cases v with
  | integer n =>
    obtain rfl := Option.some.inj h
    exact ⟨rfl, rfl, fun c hc => not_isStop_of_isNumberChar (isNumberChar_of_mem_intText hc)⟩
  | double x =>
    obtain rfl := Option.some.inj h
    exact ⟨rfl, rfl, fun c hc => not_isStop_of_isNumberChar (isNumberChar_of_mem_numberLiteral hc)⟩
  | _ => simp [numberText?] at h

/-! ## Literals with something behind them -/

/-- The literal of the value, with something behind it, determines the outline of the value and what
    is behind it. -/
def Told (v : Value) : Prop :=
  ∀ (w : Value) (r r' : List Char), Stops r → Stops r' →
    v.literalChars ++ r = w.literalChars ++ r' → v.outline = w.outline ∧ r = r'

/-- An array ends at its bracket, and its items at commas. -/
theorem array_told {items items' : List Value} {r r' : List Char} (hitems : ∀ v ∈ items, v.Told)
    (h : (array items).literalChars ++ r = (array items').literalChars ++ r') :
    (array items).outline = (array items').outline ∧ r = r' := by
  simp only [literalChars_array, List.cons_append, List.append_assoc, List.nil_append] at h
  have hjoined := (List.cons.inj h).2
  rw [outline, outline, itemOutlines_eq_map, itemOutlines_eq_map]
  -- The closing bracket tells an empty array from one with items, which begins with a literal.
  cases items with
  | nil =>
    cases items' with
    | nil => exact ⟨rfl, (List.cons.inj hjoined).2⟩
    | cons w ws => exact absurd hjoined.symm (joined_ne_bracket w ws _ _)
  | cons v vs =>
    cases items' with
    | nil => exact absurd hjoined (joined_ne_bracket v vs _ _)
    | cons w ws =>
      obtain ⟨houtlines, hr⟩ := joinChars_append_inj (by decide) (by decide) hitems hjoined
      exact ⟨by rw [houtlines], hr⟩

/-- A member of an object is told by its key and its value. -/
theorem memberChars_append_inj {e e' : String × Value} {r r' : List Char} (hvalue : e.2.Told)
    (hr : Stops r) (hr' : Stops r') (h : memberChars e ++ r = memberChars e' ++ r') :
    (e.1, e.2.outline) = (e'.1, e'.2.outline) ∧ r = r' := by
  simp only [memberChars, List.append_assoc, List.cons_append] at h
  obtain ⟨hkey, hrest⟩ := keyChars_append_inj h
  obtain ⟨houtline, hrest⟩ := hvalue e'.2 r r' hr hr' (List.cons.inj hrest).2
  exact ⟨by rw [hkey, houtline], hrest⟩

/-- An object ends at its brace, and its members at commas. -/
theorem object_told {entries entries' : Entries} {r r' : List Char}
    (hentries : ∀ e ∈ entries, e.2.Told)
    (h : (object entries).literalChars ++ r = (object entries').literalChars ++ r') :
    (object entries).outline = (object entries').outline ∧ r = r' := by
  rw [literalChars_object, literalChars_object] at h
  rw [outline, outline, memberOutlines_eq_map, memberOutlines_eq_map]
  -- The second character tells an empty object from one with members.
  cases entries with
  | nil =>
    cases entries' with
    | nil => exact ⟨rfl, List.append_cancel_left h⟩
    | cons e' es' => exact absurd (List.cons.inj (List.cons.inj h).2).1 (by decide)
  | cons e es =>
    cases entries' with
    | nil => exact absurd (List.cons.inj (List.cons.inj h).2).1 (by decide)
    | cons e' es' =>
      simp only [List.map_cons, objectChars, List.cons_append, List.append_assoc,
        List.nil_append] at h
      obtain ⟨houtlines, hr⟩ := joinChars_append_inj (by decide) (by decide)
        (fun a ha b s s' hs hs' => memberChars_append_inj (hentries a ha) hs hs')
        (List.cons.inj (List.cons.inj h).2).2
      exact ⟨by rw [houtlines], (List.cons.inj hr).2⟩

/-- A value is told by its literal if the values right inside are. -/
theorem told_of_parts (v : Value) (hparts : ∀ u ∈ v.parts, u.Told) : v.Told := by
  intro w r r' hr hr' h
  cases alike_of_sort_eq (sort_eq_of_append_eq h) with
  | null => exact ⟨rfl, List.append_cancel_left h⟩
  | bool b => exact ⟨rfl, List.append_cancel_left h⟩
  | number hv hw =>
    obtain ⟨hvchars, hvoutline, hvstop⟩ := of_numberText? hv
    obtain ⟨hwchars, hwoutline, hwstop⟩ := of_numberText? hw
    rw [hvchars, hwchars] at h
    -- Neither text has a stop in it, and both rests begin with one.
    obtain ⟨htext, hrest⟩ := append_inj_of_all hvstop hwstop hr hr' h
    exact ⟨by rw [hvoutline, hwoutline, String.toList_inj.mp htext], hrest⟩
  | string s s' =>
    obtain ⟨hs, hrest⟩ := quoteChars_append_inj h
    exact ⟨by rw [outline, outline, String.toList_inj.mp hs], hrest⟩
  | array items items' => exact array_told hparts h
  | object entries entries' =>
    exact object_told (fun e he => hparts e.2 (List.mem_map_of_mem he)) h

theorem told (v : Value) : v.Told :=
  parts_induction told_of_parts v

/-! ## Literals of outlines -/

theorem sort_eq_of_outline_eq {v w : Value} (h : v.outline = w.outline) : v.sort = w.sort := by
  cases v <;> cases w <;> simp_all [outline, sort]

/-- Lists that one function takes to the same list are taken to the same list by another one that
    says no more. -/
theorem map_eq_of_map_eq {α β γ : Type} {f : α → β} {g : α → γ} {xs ys : List α}
    (hf : ∀ a ∈ xs, ∀ b, g a = g b → f a = f b) (h : xs.map g = ys.map g) :
    xs.map f = ys.map f := by
  induction xs generalizing ys with
  | nil =>
    cases ys with
    | nil => rfl
    | cons y ys => simp at h
  | cons x xs ih =>
    cases ys with
    | nil => simp at h
    | cons y ys =>
      rw [List.map_cons, List.map_cons] at h ⊢
      obtain ⟨hhead, htail⟩ := List.cons.inj h
      rw [hf x List.mem_cons_self y hhead, ih (fun a ha => hf a (List.mem_cons_of_mem _ ha)) htail]

/-- The outline of a value has all that its literal is made of. -/
theorem literalChars_eq_of_outline_eq (v : Value) :
    ∀ w : Value, v.outline = w.outline → v.literalChars = w.literalChars := by
  induction v using parts_induction with | step v hparts => ?_
  intro w h
  cases alike_of_sort_eq (sort_eq_of_outline_eq h) with
  | null => rfl
  | bool b => rfl
  | number hv hw =>
    obtain ⟨hvchars, hvoutline, -⟩ := of_numberText? hv
    obtain ⟨hwchars, hwoutline, -⟩ := of_numberText? hw
    rw [hvoutline, hwoutline] at h
    rw [hvchars, hwchars, Outline.number.inj h]
  | string s s' =>
    obtain rfl := Outline.string.inj h
    rfl
  | array items items' =>
    have hitems := Outline.array.inj h
    rw [itemOutlines_eq_map, itemOutlines_eq_map] at hitems
    have hliterals : items.map literalChars = items'.map literalChars :=
      map_eq_of_map_eq hparts hitems
    rw [literalChars_array, literalChars_array, hliterals]
  | object entries entries' =>
    have hentries := Outline.object.inj h
    rw [memberOutlines_eq_map, memberOutlines_eq_map] at hentries
    have hmembers : entries.map memberChars = entries'.map memberChars := by
      refine map_eq_of_map_eq (fun e he e' heq => ?_) hentries
      obtain ⟨hkey, hvalue⟩ := Prod.mk.inj heq
      rw [memberChars, memberChars, hkey, hparts e.2 (List.mem_map_of_mem he) e'.2 hvalue]
    rw [literalChars_object, literalChars_object, hmembers]

/-- Two values have the same literal just if they are equal up to the texts of their numbers. -/
theorem literal_eq_iff (v w : Value) : v.literal = w.literal ↔ v.outline = w.outline := by
  constructor
  · intro h
    have hchars : v.literalChars = w.literalChars := String.ofList_injective h
    exact (v.told w [] [] rfl rfl (by rw [hchars])).1
  · intro h
    rw [literal, literal, v.literalChars_eq_of_outline_eq w h]

-- A comma in a string is none between two items.
example : (array [.string "a\", \"b"]).literal ≠ (array [.string "a", .string "b"]).literal := by
  decide

end Value

end DefineFold
