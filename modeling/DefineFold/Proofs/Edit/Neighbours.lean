/-
  DefineFold.Proofs.Edit.Neighbours

  What stands right before and right behind an edit in the spliced source. The result is cut at
  an edit into the text spliced before it, its new text, and the text spliced behind it
  (`spliceBetween?_append_cons`), and likewise at a part of the source that no edit touches
  (`exists_spliceBetween?_of_apart`). Whether two of these run into one word depends on the
  characters where they meet, which are those of an edit that ends or begins there, if there is
  one, and those of the source otherwise (`any_getLast?_front_iff`, `beginsWithWord_back_iff`).
-/

import DefineFold.Proofs.Edit.Splice

namespace DefineFold

/-! ## Words -/

/-- The characters of words: ASCII letters and digits, the underscore and the dollar sign. -/
def isWordChar (c : Char) : Bool :=
  c.isAlphanum || c == '_' || c == '$'

/-- Whether a text ends in a word. -/
def endsInWord (cs : List Char) : Bool :=
  cs.getLast?.any isWordChar

/-- Whether a text begins with a word. -/
def beginsWithWord (cs : List Char) : Bool :=
  cs.head?.any isWordChar

/-- Whether a text with another behind it runs into one word with it. -/
def joins (left right : List Char) : Bool :=
  endsInWord left && beginsWithWord right

theorem any_getLast?_append {P : Char → Bool} {xs ys : List Char} (h : ys ≠ []) :
    (xs ++ ys).getLast?.any P = ys.getLast?.any P := by
  rw [List.getLast?_append, Option.or_of_isSome (by simpa using h)]

theorem beginsWithWord_append {xs ys : List Char} (h : xs ≠ []) :
    beginsWithWord (xs ++ ys) = beginsWithWord xs := by
  rw [beginsWithWord, beginsWithWord, List.head?_append, Option.or_of_isSome (by simpa using h)]

namespace Source

/-- The source before a byte offset. -/
def before (src : Source) (n : Nat) : List Char :=
  (src.chars? 0 n).getD []

/-- The source from a byte offset on. -/
def after (src : Source) (n : Nat) : List Char :=
  (src.chars? n src.size).getD []

/-- A slice between two different offsets is not empty. -/
theorem ne_nil_of_chars? {src : Source} {start stop : Nat} {cs : List Char}
    (h : src.chars? start stop = some cs) (hlt : start < stop) : cs ≠ [] := by
  rintro rfl
  obtain ⟨front, tail, -, hfront, hstop⟩ := chars?_eq_some_iff.mp h
  rw [byteLength_nil] at hstop
  omega

theorem isBoundary_size (src : Source) : src.IsBoundary src.size :=
  ⟨src.chars, [], (List.append_nil _).symm, rfl⟩

theorem IsBoundary.le_size {src : Source} {n : Nat} (h : src.IsBoundary n) : n ≤ src.size := by
  obtain ⟨front, tail, hsrc, rfl⟩ := h
  rw [size, hsrc, byteLength_append]
  omega

theorem eq_nil_of_chars?_self {src : Source} {n : Nat} {cs : List Char}
    (h : src.chars? n n = some cs) : cs = [] := by
  obtain ⟨front, tail, -, hfront, hstop⟩ := chars?_eq_some_iff.mp h
  exact eq_nil_of_byteLength_eq_zero (by omega)

/-- A slice falls into what comes before a slice in it, that slice, and what comes behind it. -/
theorem chars?_around {src : Source} {cursor start stop fin : Nat} {mid cs : List Char}
    (hmid : src.chars? start stop = some mid) (h : src.chars? cursor fin = some cs)
    (hcursor : cursor ≤ start) (hfin : stop ≤ fin) :
    ∃ front back, src.chars? cursor start = some front ∧ src.chars? stop fin = some back ∧
      cs = front ++ mid ++ back := by
  obtain ⟨front, hfront⟩ := isSome_chars? (isBoundary_start_of_chars? h)
    (isBoundary_start_of_chars? hmid) hcursor
  obtain ⟨back, hback⟩ := isSome_chars? (isBoundary_stop_of_chars? hmid)
    (isBoundary_stop_of_chars? h) hfin
  have hwhole := chars?_append (chars?_append hfront hmid) hback
  exact ⟨front, back, hfront, hback, Option.some.inj (h.symm.trans hwhole)⟩

/-- The rest of a source is its slice up to the end. -/
theorem dropBytes?_eq_chars? (src : Source) (n : Nat) :
    dropBytes? src.chars n = src.chars? n src.size := by
  apply Option.ext
  intro tail
  rw [dropBytes?_eq_some_iff, chars?_eq_some_iff]
  constructor
  · rintro ⟨front, hsrc, hfront⟩
    refine ⟨front, [], by rw [hsrc, List.append_nil], hfront, ?_⟩
    rw [size, hsrc, byteLength_append]
  · rintro ⟨front, rest, hsrc, hfront, hstop⟩
    have hrest : rest = [] := by
      apply eq_nil_of_byteLength_eq_zero
      rw [size, hsrc, byteLength_append, byteLength_append] at hstop
      omega
    exact ⟨front, by rw [hsrc, hrest, List.append_nil], hfront⟩

end Source

/-! ## Splicing up to a place -/

namespace EditSet

/-- The text of a source between two byte offsets, with edits put in. -/
def spliceBetween? (src : Source) (cursor stop : Nat) : List Edit → Option (List Char)
  | [] => src.chars? cursor stop
  | e :: es => do
    let gap ← src.chars? cursor e.start
    let rest ← spliceBetween? src e.stop stop es
    some (gap ++ e.newText.toList ++ rest)

theorem spliceFrom?_eq_spliceBetween? (src : Source) (cursor : Nat) (es : List Edit) :
    spliceFrom? src cursor es = spliceBetween? src cursor src.size es := by
  induction es generalizing cursor with
  | nil => exact src.dropBytes?_eq_chars? cursor
  | cons e es ih => rw [spliceFrom?, spliceBetween?, ih]

theorem spliceBetween?_cons {src : Source} {cursor stop : Nat} {e : Edit} {es : List Edit}
    {cs : List Char} :
    spliceBetween? src cursor stop (e :: es) = some cs ↔
      ∃ gap rest, src.chars? cursor e.start = some gap ∧
        spliceBetween? src e.stop stop es = some rest ∧ cs = gap ++ e.newText.toList ++ rest := by
  simp only [spliceBetween?, Option.bind_eq_bind, Option.bind_eq_some_iff, Option.some.injEq]
  constructor
  · rintro ⟨gap, hgap, rest, hrest, rfl⟩
    exact ⟨gap, rest, hgap, hrest, rfl⟩
  · rintro ⟨gap, rest, hgap, hrest, rfl⟩
    exact ⟨gap, hgap, rest, hrest, rfl⟩

/-- At an edit the spliced text falls into what is spliced before it, its new text, and what is
    spliced behind it. -/
theorem spliceBetween?_append_cons {src : Source} {cursor stop : Nat} {es : List Edit} {e : Edit}
    {post : List Edit} {cs : List Char} :
    spliceBetween? src cursor stop (es ++ e :: post) = some cs ↔
      ∃ front back, spliceBetween? src cursor e.start es = some front ∧
        spliceBetween? src e.stop stop post = some back ∧
        cs = front ++ e.newText.toList ++ back := by
  induction es generalizing cursor cs with
  | nil => exact spliceBetween?_cons
  | cons d es ih =>
    rw [List.cons_append, spliceBetween?_cons]
    constructor
    · rintro ⟨gap, rest, hgap, hrest, rfl⟩
      obtain ⟨front, back, hfront, hback, rfl⟩ := ih.mp hrest
      refine ⟨gap ++ d.newText.toList ++ front, back, ?_, hback, ?_⟩
      · exact spliceBetween?_cons.mpr ⟨gap, front, hgap, hfront, rfl⟩
      · simp only [List.append_assoc]
    · rintro ⟨front, back, hfront, hback, rfl⟩
      obtain ⟨gap, rest, hgap, hrest, rfl⟩ := spliceBetween?_cons.mp hfront
      refine ⟨gap, rest ++ e.newText.toList ++ back, hgap, ?_, ?_⟩
      · exact ih.mpr ⟨rest, back, hrest, hback, rfl⟩
      · simp only [List.append_assoc]

/-- The code, cut at an edit. -/
theorem exists_cut {src : Source} {edits : EditSet} {code : String} {pre post : List Edit}
    {e : Edit} (h : edits.splice? src = some code) (hsplit : edits.toList = pre ++ e :: post) :
    ∃ front back, spliceBetween? src 0 e.start pre = some front ∧
      spliceBetween? src e.stop src.size post = some back ∧
      code.toList = front ++ e.newText.toList ++ back := by
  rw [splice?, Option.map_eq_some_iff] at h
  obtain ⟨cs, hcs, rfl⟩ := h
  rw [spliceFrom?_eq_spliceBetween?, hsplit] at hcs
  obtain ⟨front, back, hfront, hback, rfl⟩ := spliceBetween?_append_cons.mp hcs
  exact ⟨front, back, hfront, hback, String.toList_ofList⟩

/-- Behind the last edit the source is spliced as it is. -/
theorem exists_spliceBetween?_of_stop_le {src : Source} {cursor stop fin : Nat} {es : List Edit}
    {gap cs : List Char} (hgap : src.chars? stop fin = some gap) (hstop : ∀ e ∈ es, e.stop ≤ stop)
    (hcursor : cursor ≤ stop) (h : spliceBetween? src cursor fin es = some cs) :
    ∃ front, spliceBetween? src cursor stop es = some front ∧ cs = front ++ gap := by
  induction es generalizing cursor cs with
  | nil =>
    obtain ⟨front, hfront⟩ := Source.isSome_chars? (Source.isBoundary_start_of_chars? h)
      (Source.isBoundary_start_of_chars? hgap) hcursor
    have hwhole := Source.chars?_append hfront hgap
    exact ⟨front, hfront, Option.some.inj (h.symm.trans hwhole)⟩
  | cons e es ih =>
    obtain ⟨before, rest, hbefore, hrest, rfl⟩ := spliceBetween?_cons.mp h
    obtain ⟨front, hfront, rfl⟩ :=
      ih (fun x hx => hstop x (List.mem_cons_of_mem _ hx)) (hstop e List.mem_cons_self) hrest
    refine ⟨before ++ e.newText.toList ++ front, ?_, ?_⟩
    · exact spliceBetween?_cons.mpr ⟨before, front, hbefore, hfront, rfl⟩
    · simp only [List.append_assoc]

/-- A part of the source that every edit is apart from stands in the spliced text as it is, between
    what is spliced before it and what is spliced behind it. -/
theorem exists_spliceBetween?_of_apart {src : Source} {cursor start stop fin : Nat}
    {es : List Edit} {mid cs : List Char} (hmid : src.chars? start stop = some mid)
    (hapart : ∀ e ∈ es, e.stop ≤ start ∨ stop ≤ e.start) (hcursor : cursor ≤ start)
    (hfin : stop ≤ fin) (h : spliceBetween? src cursor fin es = some cs) :
    ∃ pre post front back, es = pre ++ post ∧ spliceBetween? src cursor start pre = some front ∧
      spliceBetween? src stop fin post = some back ∧ cs = front ++ mid ++ back := by
  induction es generalizing cursor cs with
  | nil =>
    obtain ⟨front, back, hfront, hback, hcs⟩ := Source.chars?_around hmid h hcursor hfin
    exact ⟨[], [], front, back, rfl, hfront, hback, hcs⟩
  | cons e es ih =>
    obtain ⟨gap, rest, hgap, hrest, rfl⟩ := spliceBetween?_cons.mp h
    rcases hapart e List.mem_cons_self with hbefore | hbehind
    · -- The edit comes before the part, and so does all that is spliced up to its end.
      obtain ⟨pre, post, front, back, rfl, hfront, hback, rfl⟩ :=
        ih (fun x hx => hapart x (List.mem_cons_of_mem _ hx)) hbefore hrest
      refine ⟨e :: pre, post, gap ++ e.newText.toList ++ front, back, rfl, ?_, hback, ?_⟩
      · exact spliceBetween?_cons.mpr ⟨gap, front, hgap, hfront, rfl⟩
      · simp only [List.append_assoc]
    · -- The part lies in the gap before the edit.
      obtain ⟨front, back, hfront, hback, rfl⟩ := Source.chars?_around hmid hgap hcursor hbehind
      refine ⟨[], e :: es, front, back ++ e.newText.toList ++ rest, rfl, hfront, ?_, ?_⟩
      · exact spliceBetween?_cons.mpr ⟨back, rest, hback, hrest, rfl⟩
      · simp only [List.append_assoc]

/-! ## Neighbours -/

section Neighbours

variable {src : Source} {es : List Edit}

/-- Of the edits in a list only one can be at a place. What holds of a text is decided by that edit
    if it is there, and otherwise by something else. -/
theorem iff_of_only {place : Edit → Nat} {n : Nat} {d : Edit} (hd : d ∈ es)
    (honly : ∀ x ∈ es, place x = n → x = d) {P R : Prop} {Q : Edit → Prop}
    (hthere : place d = n → (P ↔ Q d)) (helse : place d ≠ n → (P ↔ R)) :
    P ↔ (∃ x ∈ es, place x = n ∧ Q x) ∨ (∀ x ∈ es, place x ≠ n) ∧ R := by
  by_cases hplace : place d = n
  · rw [hthere hplace]
    constructor
    · intro hq
      exact Or.inl ⟨d, hd, hplace, hq⟩
    · rintro (⟨x, hx, hxplace, hq⟩ | ⟨hnone, -⟩)
      · rw [honly x hx hxplace] at hq
        exact hq
      · exact absurd hplace (hnone d hd)
  · rw [helse hplace]
    have hnone : ∀ x ∈ es, place x ≠ n := by
      intro x hx hxplace
      rw [honly x hx hxplace] at hxplace
      exact hplace hxplace
    constructor
    · intro hr
      exact Or.inr ⟨hnone, hr⟩
    · rintro (⟨x, hx, hxplace, -⟩ | ⟨-, hr⟩)
      · exact absurd hxplace (hnone x hx)
      · exact hr

/-- The last character of what is spliced before a place is that of the new text of the edit that
    ends there, or, where no edit ends, that of the source before the place. -/
theorem any_getLast?_front_iff {P : Char → Bool} {stop : Nat} {front : List Char}
    (hsolid : ∀ d ∈ es, d.start < d.stop) (hapart : es.Pairwise fun a b => a.stop ≤ b.start)
    (htext : ∀ d ∈ es, d.newText.toList ≠ [])
    (hfront : spliceBetween? src 0 stop es = some front) :
    front.getLast?.any P = true ↔
      (∃ d ∈ es, d.stop = stop ∧ d.newText.toList.getLast?.any P = true) ∨
        (∀ d ∈ es, d.stop ≠ stop) ∧ (src.before stop).getLast?.any P = true := by
  rcases List.eq_nil_or_concat es with rfl | ⟨init, d, hes⟩
  · have hbefore : src.before stop = front := by
      rw [Source.before, show src.chars? 0 stop = some front from hfront]
      rfl
    simp [hbefore]
  rw [List.concat_eq_append] at hes
  subst hes
  have hmem : d ∈ init ++ [d] := List.mem_append_right _ List.mem_cons_self
  obtain ⟨head, gap, -, hgap, rfl⟩ := spliceBetween?_append_cons.mp hfront
  rw [spliceBetween?] at hgap
  have hle := Source.le_of_chars? hgap
  -- The last edit is the only one that can end at the place: the others end where it begins.
  have honly : ∀ x ∈ init ++ [d], x.stop = stop → x = d := by
    intro x hx hstop
    rcases List.mem_append.mp hx with hx | hx
    · have hxd := (List.pairwise_append.mp hapart).2.2 x hx d List.mem_cons_self
      have := hsolid d hmem
      omega
    · exact List.mem_singleton.mp hx
  refine iff_of_only hmem honly (fun hplace => ?_) (fun hplace => ?_)
  · -- It ends there: its new text comes last.
    rw [hplace] at hgap
    obtain rfl := Source.eq_nil_of_chars?_self hgap
    rw [List.append_nil, any_getLast?_append (htext d hmem)]
  · -- It ends before: the source between the two comes last.
    have hne := Source.ne_nil_of_chars? hgap (by omega)
    obtain ⟨start, hstart⟩ := Source.isSome_chars? src.isBoundary_zero
      (Source.isBoundary_start_of_chars? hgap) (Nat.zero_le _)
    rw [Source.before, Source.chars?_append hstart hgap, Option.getD_some,
      any_getLast?_append hne, any_getLast?_append hne]

/-- What is spliced before a place ends in a word if the new text of the edit that ends there
    does, or, where no edit ends, the source before the place. -/
theorem endsInWord_front_iff {stop : Nat} {front : List Char}
    (hsolid : ∀ d ∈ es, d.start < d.stop) (hapart : es.Pairwise fun a b => a.stop ≤ b.start)
    (htext : ∀ d ∈ es, d.newText.toList ≠ [])
    (hfront : spliceBetween? src 0 stop es = some front) :
    endsInWord front = true ↔
      (∃ d ∈ es, d.stop = stop ∧ endsInWord d.newText.toList = true) ∨
        (∀ d ∈ es, d.stop ≠ stop) ∧ endsInWord (src.before stop) = true :=
  any_getLast?_front_iff hsolid hapart htext hfront

/-- What is spliced from a place on begins with a word if the new text of the edit that begins
    there does, or, where no edit begins, the source behind the place. -/
theorem beginsWithWord_back_iff {start : Nat} {back : List Char}
    (hsolid : ∀ d ∈ es, d.start < d.stop) (hapart : es.Pairwise fun a b => a.stop ≤ b.start)
    (htext : ∀ d ∈ es, d.newText.toList ≠ [])
    (hback : spliceBetween? src start src.size es = some back) :
    beginsWithWord back = true ↔
      (∃ d ∈ es, d.start = start ∧ beginsWithWord d.newText.toList = true) ∨
        (∀ d ∈ es, d.start ≠ start) ∧ beginsWithWord (src.after start) = true := by
  cases es with
  | nil =>
    have hafter : src.after start = back := by
      rw [Source.after, show src.chars? start src.size = some back from hback]
      rfl
    simp [hafter]
  | cons d es =>
    have hmem : d ∈ d :: es := List.mem_cons_self
    obtain ⟨gap, rest, hgap, -, rfl⟩ := spliceBetween?_cons.mp hback
    have hle := Source.le_of_chars? hgap
    -- The first edit is the only one that can begin at the place: the others begin behind it.
    have honly : ∀ x ∈ d :: es, x.start = start → x = d := by
      intro x hx hstart
      rcases List.mem_cons.mp hx with rfl | hx
      · rfl
      · have hdx := (List.pairwise_cons.mp hapart).1 x hx
        have := hsolid d hmem
        omega
    refine iff_of_only hmem honly (fun hplace => ?_) (fun hplace => ?_)
    · -- It begins there: its new text comes first.
      rw [hplace] at hgap
      obtain rfl := Source.eq_nil_of_chars?_self hgap
      rw [List.nil_append, beginsWithWord_append (htext d hmem)]
    · -- It begins behind: the source between the two comes first.
      have hne := Source.ne_nil_of_chars? hgap (by omega)
      have hstop := Source.isBoundary_stop_of_chars? hgap
      obtain ⟨tail, htail⟩ := Source.isSome_chars? hstop src.isBoundary_size hstop.le_size
      rw [Source.after, Source.chars?_append hgap htail, Option.getD_some, List.append_assoc,
        beginsWithWord_append hne, beginsWithWord_append hne]

end Neighbours

end EditSet
end DefineFold
