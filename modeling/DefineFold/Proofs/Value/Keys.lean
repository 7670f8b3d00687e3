/-
  DefineFold.Proofs.Value.Keys

  Keys as members of object literals. In the source that a literal becomes, a member is named by an
  identifier, a string, or an expression in brackets, and makes a property of the object's own under
  that name; but a member named `__proto__` sets the prototype, unless its name stands in brackets
  (`NamesOwn`).

  A key in quotes names itself. A key without quotes names nothing if it is no identifier, which
  happens for some plain names beyond ASCII, and `__proto__` is never put in brackets. These are the
  only keys, in objects at any depth, that do not become properties (`Value.literal_namesOwn_iff`).
-/

import DefineFold.Proofs.Text.Identifier
import DefineFold.Proofs.Text.Units
import DefineFold.Proofs.Value.Locations
import DefineFold.Proofs.Value.Unambiguous

namespace DefineFold

/-! ## Names of members -/

/-- The text of a member's name makes the member a property of the object's own with the given
    name. Numbers and identifiers with escapes in them, as which no key is written, are left out. -/
inductive NamesOwn : List Char → String → Prop where
  | identifier {name : String} (isName : isIdentifierName name = true)
      (ordinary : name ≠ "__proto__") : NamesOwn name.toList name
  | quoted {l : StringLiteral} {name : String} (denoted : l.units = units name)
      (ordinary : name ≠ "__proto__") : NamesOwn l.text.toList name
  | computed {l : StringLiteral} {name : String} (denoted : l.units = units name) :
      NamesOwn ('[' :: (l.text.toList ++ [']'])) name

/-- A literal that is written as the literal of a text denotes that text. -/
theorem StringLiteral.units_of_text_eq_quote {l : StringLiteral} {s : String}
    (h : l.text.toList = quoteChars s.toList) : l.units = DefineFold.units s := by
  rw [StringLiteral.text, String.toList_ofList, quoteChars] at h
  obtain ⟨hquote, htail⟩ := List.cons.inj h
  rw [hquote] at htail
  have hbody : bodyChars l.pieces = s.toList.flatMap quoteChar := List.append_cancel_right htail
  have hagrees := agrees_readBody? (by rw [hquote]; rfl) none l.pieces rfl l.spelled
  rw [hbody, readBody?_quoteChars] at hagrees
  exact hagrees.1.symm

/-- A plain name does not begin with a character that no name has. -/
theorem ne_cons_of_isPlainName {key : String} (h : isPlainName key = true) {c : Char}
    (hc : isNamePart c = false) (rest : List Char) : key.toList ≠ c :: rest := by
  intro hkey
  exact ne_of_isPlainName h (hkey ▸ List.mem_cons_self) hc rfl

/-- A plain name makes a property, under itself, just if it is an identifier and ordinary. -/
theorem namesOwn_plain_iff {key name : String} (hplain : isPlainName key = true) :
    NamesOwn key.toList name ↔
      name = key ∧ key ≠ "__proto__" ∧ isIdentifierName key = true := by
  constructor
  · intro h
    generalize hchars : key.toList = chars at h
    cases h with
    | identifier isName ordinary =>
      obtain rfl := String.toList_inj.mp hchars
      exact ⟨rfl, ordinary, isName⟩
    | @quoted l _ _ _ =>
      -- A plain name begins with neither of the quotes.
      rw [StringLiteral.text, String.toList_ofList] at hchars
      refine absurd hchars (ne_cons_of_isPlainName hplain ?_ _)
      rcases l.quote_eq with hq | hq <;> rw [hq] <;> decide
    | computed _ => exact absurd hchars (ne_cons_of_isPlainName hplain (by decide) _)
  · rintro ⟨rfl, hordinary, hname⟩
    exact .identifier hname hordinary

theorem not_isIdentifierName_of_quote {name : String} {rest : List Char}
    (h : name.toList = '"' :: rest) : isIdentifierName name = false := by
  rw [isIdentifierName, h]
  have hstart : isIdentifierStart '"' = false := by decide
  simp [hstart]

/-- A key in quotes makes a property, under itself, just if it is ordinary. -/
theorem namesOwn_quoted_iff {key name : String} :
    NamesOwn (quoteChars key.toList) name ↔ name = key ∧ key ≠ "__proto__" := by
  constructor
  · intro h
    generalize hchars : quoteChars key.toList = chars at h
    cases h with
    | identifier isName _ =>
      rw [not_isIdentifierName_of_quote (hchars.symm.trans rfl)] at isName
      simp at isName
    | quoted denoted ordinary =>
      -- Whatever pieces the literal is taken for, its text decides what it denotes.
      rw [StringLiteral.units_of_text_eq_quote hchars.symm] at denoted
      obtain rfl := units_injective denoted
      exact ⟨rfl, ordinary⟩
    | computed _ => exact absurd (List.cons.inj hchars).1 (by decide)
  · rintro ⟨rfl, hordinary⟩
    have htext : (quoteLiteral name).text.toList = quoteChars name.toList := by
      rw [text_quoteLiteral, quote, String.toList_ofList]
    rw [← htext]
    exact .quoted (units_quoteLiteral name) hordinary

/-- What is written for a key makes a property under the key and under no other name, unless the
    key is `__proto__` or is written without quotes though it is no identifier. -/
theorem namesOwn_keyChars_iff {key name : String} :
    NamesOwn (keyChars key) name ↔ name = key ∧ key ≠ "__proto__" ∧
      (isPlainName key = true → isIdentifierName key = true) := by
  rw [keyChars]
  split
  · rename_i hplain
    rw [namesOwn_plain_iff hplain]
    simp [hplain]
  · rename_i hplain
    rw [namesOwn_quoted_iff]
    simp [hplain]

/-! ## Members inside of literals -/

/-- A text has another one in it between the signs that open, divide and close the members of an
    object literal. -/
def HoldsMember (text member : List Char) : Prop :=
  ∃ front back, text = front ++ member ++ back ∧
    (['\x7b', ' '] <:+ front ∨ [',', ' '] <:+ front) ∧
    ([' ', '\x7d'] <+: back ∨ [',', ' '] <+: back)

theorem HoldsMember.around {text member : List Char} (h : HoldsMember text member)
    (before after : List Char) : HoldsMember (before ++ text ++ after) member := by
  obtain ⟨front, back, rfl, hfront, hback⟩ := h
  refine ⟨before ++ front, back ++ after, by simp, ?_, ?_⟩
  · exact hfront.imp (·.trans (List.suffix_append _ _)) (·.trans (List.suffix_append _ _))
  · exact hback.imp (·.trans (List.prefix_append _ _)) (·.trans (List.prefix_append _ _))

/-- One of several texts stands among them at an end of the list or beside a separator. -/
theorem exists_joinChars_around (separator : List Char) {text : List Char}
    {texts : List (List Char)} (h : text ∈ texts) :
    ∃ front back, joinChars separator texts = front ++ text ++ back ∧
      (front = [] ∨ separator <:+ front) ∧ (back = [] ∨ separator <+: back) := by
  induction texts with
  | nil => exact absurd h List.not_mem_nil
  | cons first rest ih =>
    cases rest with
    | nil =>
      obtain rfl := List.mem_singleton.mp h
      exact ⟨[], [], by simp [joinChars], Or.inl rfl, Or.inl rfl⟩
    | cons next rest =>
      have hjoin : joinChars separator (first :: next :: rest) =
          first ++ separator ++ joinChars separator (next :: rest) := rfl
      rcases List.mem_cons.mp h with rfl | hrest
      · refine ⟨[], separator ++ joinChars separator (next :: rest), by simp [hjoin], Or.inl rfl,
          Or.inr (List.prefix_append _ _)⟩
      · obtain ⟨front, back, htail, hfront, hback⟩ := ih hrest
        refine ⟨first ++ separator ++ front, back, by simp [hjoin, htail], Or.inr ?_, hback⟩
        rcases hfront with rfl | hfront
        · simp
        · exact hfront.trans (List.suffix_append _ _)

namespace Value

/-- An object has its entries for members. -/
theorem holdsMember_object {entries : Entries} {e : String × Value} (h : e ∈ entries) :
    HoldsMember (object entries).literalChars (memberChars e) := by
  obtain ⟨front, back, hjoin, hfront, hback⟩ :=
    exists_joinChars_around [',', ' '] (List.mem_map_of_mem (f := memberChars) h)
  rw [literalChars_object]
  cases entries with
  | nil => exact absurd h List.not_mem_nil
  | cons first rest =>
    rw [List.map_cons, objectChars, ← List.map_cons, hjoin]
    refine ⟨'\x7b' :: ' ' :: front, back ++ [' ', '\x7d'], by simp, ?_, ?_⟩
    · rcases hfront with rfl | hfront
      · exact Or.inl (List.suffix_refl _)
      · exact Or.inr (hfront.trans (List.suffix_append ['\x7b', ' '] front))
    · rcases hback with rfl | hback
      · exact Or.inl (List.prefix_refl _)
      · exact Or.inr (hback.trans (List.prefix_append _ _))

/-- The literal of a value stands in that of each value right around it. -/
theorem exists_literalChars_around {u v : Value} (h : u ∈ v.parts) :
    ∃ front back, v.literalChars = front ++ u.literalChars ++ back := by
  cases v with
  | array items =>
    have hitem : u.literalChars ∈ items.map literalChars := List.mem_map_of_mem h
    obtain ⟨front, back, hjoin, -, -⟩ := exists_joinChars_around [',', ' '] hitem
    rw [literalChars_array, hjoin]
    exact ⟨'[' :: front, back ++ [']'], by simp⟩
  | object entries =>
    obtain ⟨e, he, rfl⟩ := List.mem_map.mp h
    obtain ⟨front, back, hmember, -, -⟩ := holdsMember_object he
    rw [hmember, memberChars]
    exact ⟨front ++ keyChars e.1 ++ [':', ' '], back, by simp⟩
  | _ => exact absurd h List.not_mem_nil

/-- An entry of an object at any depth in a value is a member in the literal of the value. -/
theorem holdsMember_of_locate? {v : Value} {address : List Nat} {keys : List String}
    {entries : Entries} (hat : v.locate? address = some (keys, .object entries))
    {e : String × Value} (he : e ∈ entries) : HoldsMember v.literalChars (memberChars e) := by
  induction address generalizing v keys with
  | nil =>
    obtain ⟨-, rfl⟩ := Prod.mk.inj (Option.some.inj hat)
    exact holdsMember_object he
  | cons n address ih =>
    obtain ⟨c, keysBelow, hchild, hbelow, -⟩ := descend?_cons_eq_some_iff.mp hat
    obtain ⟨front, back, haround⟩ :=
      exists_literalChars_around (mem_parts_of_mem_children (List.mem_of_getElem? hchild))
    rw [haround]
    exact (ih hbelow).around front back

/-- A key of an object at any depth in a value names a member in the literal of the value, and makes
    it a property of the object's own with exactly that name, unless the key is `__proto__`, or is a
    plain name without being an identifier. Of the keys of ASCII characters, `__proto__` is the only
    one that does not become a property. -/
theorem literal_namesOwn_iff (v : Value) {address : List Nat} {keys : List String}
    {entries : Entries} (hat : v.locate? address = some (keys, .object entries))
    {e : String × Value} (he : e ∈ entries) :
    HoldsMember v.literal.toList (keyChars e.1 ++ ':' :: ' ' :: e.2.literal.toList) ∧
    (∀ name, NamesOwn (keyChars e.1) name ↔ name = e.1 ∧ e.1 ≠ "__proto__" ∧
      (isPlainName e.1 = true → isIdentifierName e.1 = true)) ∧
    ((∀ c ∈ e.1.toList, c.toNat < 0x80) →
      (NamesOwn (keyChars e.1) e.1 ↔ e.1 ≠ "__proto__")) := by
  refine ⟨?_, fun name => namesOwn_keyChars_iff, fun hascii => ?_⟩
  · rw [literal, literal, String.toList_ofList, String.toList_ofList]
    exact holdsMember_of_locate? hat he
  · rw [namesOwn_keyChars_iff]
    constructor
    · rintro ⟨-, hordinary, -⟩
      exact hordinary
    · intro hordinary
      exact ⟨rfl, hordinary, isIdentifierName_of_ascii hascii⟩

end Value

/-! ## Three keys

The superscript is a number and no part of an identifier; beside a hyphen it comes in quotes. -/

namespace Sample

def oddEntries : Entries :=
  [("x²", .integer 1), ("__proto__", .null), ("x-²", .bool true)]

def oddKeys : Value :=
  .array [.string "y", .object oddEntries]

end Sample

namespace Value

theorem literal_namesOwn_iff_odd :
    Sample.oddKeys.literal = "[\"y\", \x7b x²: 1, __proto__: null, \"x-²\": true \x7d]" ∧
    Sample.oddKeys.locate? [1] = some (["1"], .object Sample.oddEntries) ∧
    (∀ name, ¬NamesOwn (keyChars "x²") name) ∧
    ¬NamesOwn (keyChars "__proto__") "__proto__" ∧
    NamesOwn (keyChars "x-²") "x-²" := by
  have hat : Sample.oddKeys.locate? [1] = some (["1"], .object Sample.oddEntries) := rfl
  have hascii : "__proto__".toList.all (fun c => decide (c.toNat < 0x80)) = true := by decide
  obtain ⟨-, hsquare, -⟩ :=
    literal_namesOwn_iff Sample.oddKeys hat (e := ("x²", .integer 1)) List.mem_cons_self
  obtain ⟨-, -, hproto⟩ := literal_namesOwn_iff Sample.oddKeys hat (e := ("__proto__", .null))
    (List.mem_cons_of_mem _ List.mem_cons_self)
  obtain ⟨-, hquoted, -⟩ := literal_namesOwn_iff Sample.oddKeys hat (e := ("x-²", .bool true))
    (List.mem_cons_of_mem _ (List.mem_cons_of_mem _ List.mem_cons_self))
  refine ⟨by decide +kernel, hat, fun name hname => ?_, fun hname => ?_, ?_⟩
  · exact absurd (((hsquare name).mp hname).2.2 (by decide +kernel)) (by decide +kernel)
  · refine absurd rfl ((hproto fun c hc => ?_).mp hname)
    exact of_decide_eq_true (List.all_eq_true.mp hascii c hc)
  · exact (hquoted "x-²").mpr ⟨rfl, by decide, by decide +kernel⟩

end Value

end DefineFold
