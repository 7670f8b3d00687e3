/-
  DefineFold.Proofs.Text.Slice

  Slices of a source as lists of characters. `chars?_eq_some_iff` says once what cutting out
  a slice means: the characters of the source are a front, the slice and a tail, and the two
  byte offsets are the lengths of the front without and with the slice. Slices that meet are
  put together by `chars?_append`, and any two places between characters, in order, have a
  slice between them (`isSome_chars?`).
-/

import DefineFold.Text.Source

namespace DefineFold

/-! ## Byte lengths -/

@[simp] theorem byteLength_nil : byteLength [] = 0 :=
  rfl

theorem foldl_utf8Size (n : Nat) (cs : List Char) :
    cs.foldl (fun n c => n + c.utf8Size) n = n + byteLength cs := by
  induction cs generalizing n with
  | nil => rfl
  | cons c cs ih =>
    simp only [byteLength, List.foldl_cons]
    rw [ih, ih (0 + c.utf8Size)]
    omega

@[simp] theorem byteLength_cons (c : Char) (cs : List Char) :
    byteLength (c :: cs) = c.utf8Size + byteLength cs := by
  rw [byteLength, List.foldl_cons, foldl_utf8Size, Nat.zero_add]

@[simp] theorem byteLength_append (xs ys : List Char) :
    byteLength (xs ++ ys) = byteLength xs + byteLength ys := by
  induction xs with
  | nil => simp
  | cons x xs ih =>
    simp only [List.cons_append, byteLength_cons, ih]
    omega

/-- Only no characters at all take no bytes. -/
theorem eq_nil_of_byteLength_eq_zero {cs : List Char} (h : byteLength cs = 0) : cs = [] := by
  cases cs with
  | nil => rfl
  | cons c cs =>
    have hpos : 0 < c.utf8Size := c.utf8Size_pos
    rw [byteLength_cons] at h
    omega

/-- Two ways to cut characters into a front and a tail: the shorter front begins the longer. -/
theorem exists_append_of_byteLength_le {front tail front' tail' : List Char}
    (heq : front ++ tail = front' ++ tail') (hle : byteLength front ≤ byteLength front') :
    ∃ mid, front' = front ++ mid ∧ tail = mid ++ tail' := by
  rcases List.append_eq_append_iff.mp heq with ⟨mid, hfront, htail⟩ | ⟨mid, hfront, htail⟩
  · exact ⟨mid, hfront, htail⟩
  · -- The front that should be shorter is the longer one: nothing lies between the two.
    have hmid : mid = [] := by
      apply eq_nil_of_byteLength_eq_zero
      rw [hfront, byteLength_append] at hle
      omega
    subst hmid
    exact ⟨[], by simpa using hfront.symm, by simpa using htail.symm⟩

/-- The byte length of a front determines the front. -/
theorem append_inj_of_byteLength_eq {front tail front' tail' : List Char}
    (heq : front ++ tail = front' ++ tail') (hlen : byteLength front = byteLength front') :
    front = front' ∧ tail = tail' := by
  obtain ⟨mid, rfl, rfl⟩ := exists_append_of_byteLength_le heq (Nat.le_of_eq hlen)
  have hmid : mid = [] := by
    apply eq_nil_of_byteLength_eq_zero
    rw [byteLength_append] at hlen
    omega
  simp [hmid]

/-! ## Cutting characters -/

theorem dropBytes?_eq_some_iff {cs tail : List Char} {n : Nat} :
    dropBytes? cs n = some tail ↔ ∃ front, cs = front ++ tail ∧ byteLength front = n := by
  fun_induction dropBytes? cs n with
  | case1 cs =>
    constructor
    · intro h
      exact ⟨[], by simpa using h, rfl⟩
    · rintro ⟨front, rfl, hlen⟩
      rw [eq_nil_of_byteLength_eq_zero hlen]
      rfl
  | case2 n =>
    simp only [reduceCtorEq, false_iff]
    rintro ⟨front, hcs, hlen⟩
    rw [(List.append_eq_nil_iff.mp hcs.symm).1] at hlen
    simp at hlen
  | case3 c cs n hfits ih =>
    -- The first character fits into the bytes that are left, and begins the front.
    rw [ih]
    clear ih
    constructor
    · rintro ⟨front, rfl, hlen⟩
      exact ⟨c :: front, rfl, by rw [byteLength_cons]; omega⟩
    · rintro ⟨front, hcs, hlen⟩
      cases front with
      | nil => simp at hlen
      | cons x front =>
        obtain ⟨rfl, rfl⟩ := List.cons.inj hcs
        exact ⟨front, rfl, by rw [byteLength_cons] at hlen; omega⟩
  | case4 c cs n hfits =>
    simp only [reduceCtorEq, false_iff]
    rintro ⟨front, hcs, hlen⟩
    cases front with
    | nil => simp at hlen
    | cons x front =>
      obtain ⟨rfl, rfl⟩ := List.cons.inj hcs
      rw [byteLength_cons] at hlen
      omega

theorem splitBytes?_eq_some_iff {seen cs : List Char} {n : Nat} {parts : List Char × List Char} :
    splitBytes? seen cs n = some parts ↔
      ∃ front, cs = front ++ parts.2 ∧ byteLength front = n ∧ parts.1 = seen.reverse ++ front := by
  fun_induction splitBytes? seen cs n with
  | case1 seen cs =>
    constructor
    · intro h
      obtain rfl := Option.some.inj h
      exact ⟨[], rfl, rfl, by simp⟩
    · rintro ⟨front, rfl, hlen, hparts⟩
      obtain rfl := eq_nil_of_byteLength_eq_zero hlen
      rw [List.append_nil] at hparts
      rw [← hparts]
      rfl
  | case2 seen n =>
    simp only [reduceCtorEq, false_iff]
    rintro ⟨front, hcs, hlen, -⟩
    rw [(List.append_eq_nil_iff.mp hcs.symm).1] at hlen
    simp at hlen
  | case3 seen c cs n hfits ih =>
    rw [ih]
    constructor
    · rintro ⟨front, rfl, hlen, hparts⟩
      exact ⟨c :: front, rfl, by rw [byteLength_cons]; omega, by simpa using hparts⟩
    · rintro ⟨front, hcs, hlen, hparts⟩
      cases front with
      | nil => simp at hlen
      | cons x front =>
        obtain ⟨rfl, rfl⟩ := List.cons.inj hcs
        exact ⟨front, rfl, by rw [byteLength_cons] at hlen; omega, by simpa using hparts⟩
  | case4 seen c cs n hfits =>
    simp only [reduceCtorEq, false_iff]
    rintro ⟨front, hcs, hlen, -⟩
    cases front with
    | nil => simp at hlen
    | cons x front =>
      obtain ⟨rfl, rfl⟩ := List.cons.inj hcs
      rw [byteLength_cons] at hlen
      omega

theorem takeBytes?_eq_some_iff {cs front : List Char} {n : Nat} :
    takeBytes? cs n = some front ↔ ∃ tail, cs = front ++ tail ∧ byteLength front = n := by
  simp only [takeBytes?, Option.map_eq_some_iff, splitBytes?_eq_some_iff]
  constructor
  · rintro ⟨⟨a, b⟩, ⟨front', hcs, hlen, hparts⟩, rfl⟩
    simp only [List.reverse_nil, List.nil_append] at hparts
    exact ⟨b, by rw [hcs, hparts], by rw [hparts]; exact hlen⟩
  · rintro ⟨tail, hcs, hlen⟩
    exact ⟨(front, tail), ⟨front, hcs, hlen, by simp⟩, rfl⟩

/-! ## Slices of a source -/

namespace Source

/-- A byte offset that lies between two characters of a source, or at one of its ends. -/
def IsBoundary (src : Source) (n : Nat) : Prop :=
  ∃ front tail, src.chars = front ++ tail ∧ byteLength front = n

/-- The characters between two byte offsets are what stands between a front and a tail of the
    source that end and begin there. -/
theorem chars?_eq_some_iff {src : Source} {start stop : Nat} {cs : List Char} :
    src.chars? start stop = some cs ↔
      ∃ front tail, src.chars = front ++ cs ++ tail ∧ byteLength front = start ∧
        byteLength front + byteLength cs = stop := by
  by_cases hle : start ≤ stop
  · simp only [chars?, if_pos hle, Option.bind_eq_bind, Option.bind_eq_some_iff,
      dropBytes?_eq_some_iff, takeBytes?_eq_some_iff]
    constructor
    · rintro ⟨rest, ⟨front, hsrc, hfront⟩, tail, rfl, hlen⟩
      exact ⟨front, tail, by rw [hsrc, List.append_assoc], hfront, by omega⟩
    · rintro ⟨front, tail, hsrc, hfront, hstop⟩
      exact ⟨cs ++ tail, ⟨front, by rw [hsrc, List.append_assoc], hfront⟩, tail, rfl, by omega⟩
  · simp only [chars?, if_neg hle, reduceCtorEq, false_iff]
    rintro ⟨front, tail, -, hfront, hstop⟩
    omega

theorem le_of_chars? {src : Source} {start stop : Nat} {cs : List Char}
    (h : src.chars? start stop = some cs) : start ≤ stop := by
  obtain ⟨front, tail, -, hfront, hstop⟩ := chars?_eq_some_iff.mp h
  omega

theorem isBoundary_start_of_chars? {src : Source} {start stop : Nat} {cs : List Char}
    (h : src.chars? start stop = some cs) : src.IsBoundary start := by
  obtain ⟨front, tail, hsrc, hfront, -⟩ := chars?_eq_some_iff.mp h
  exact ⟨front, cs ++ tail, by rw [hsrc, List.append_assoc], hfront⟩

theorem isBoundary_stop_of_chars? {src : Source} {start stop : Nat} {cs : List Char}
    (h : src.chars? start stop = some cs) : src.IsBoundary stop := by
  obtain ⟨front, tail, hsrc, -, hstop⟩ := chars?_eq_some_iff.mp h
  exact ⟨front ++ cs, tail, hsrc, by rw [byteLength_append]; exact hstop⟩

theorem isBoundary_zero (src : Source) : src.IsBoundary 0 :=
  ⟨[], src.chars, rfl, rfl⟩

/-- Two places between characters, in order, have a slice between them. -/
theorem isSome_chars? {src : Source} {start stop : Nat} (hstart : src.IsBoundary start)
    (hstop : src.IsBoundary stop) (hle : start ≤ stop) : ∃ cs, src.chars? start stop = some cs := by
  obtain ⟨front, tail, hsrc, rfl⟩ := hstart
  obtain ⟨front', tail', hsrc', rfl⟩ := hstop
  obtain ⟨mid, rfl, rfl⟩ := exists_append_of_byteLength_le (hsrc ▸ hsrc') hle
  refine ⟨mid, chars?_eq_some_iff.mpr ⟨front, tail', ?_, rfl, ?_⟩⟩
  · rw [hsrc, List.append_assoc]
  · rw [byteLength_append]

/-- Slices that meet make up one slice. -/
theorem chars?_append {src : Source} {start mid stop : Nat} {xs ys : List Char}
    (hx : src.chars? start mid = some xs) (hy : src.chars? mid stop = some ys) :
    src.chars? start stop = some (xs ++ ys) := by
  obtain ⟨front, tail, hsrc, hfront, hmid⟩ := chars?_eq_some_iff.mp hx
  obtain ⟨front', tail', hsrc', hfront', hstop⟩ := chars?_eq_some_iff.mp hy
  -- Both slices cut the source at the place where they meet.
  have heq : (front ++ xs) ++ tail = front' ++ (ys ++ tail') := by
    rw [← hsrc, hsrc', List.append_assoc]
  have hlen : byteLength (front ++ xs) = byteLength front' := by
    rw [byteLength_append]
    omega
  obtain ⟨rfl, rfl⟩ := append_inj_of_byteLength_eq heq hlen
  refine chars?_eq_some_iff.mpr ⟨front, tail', ?_, hfront, ?_⟩
  · rw [hsrc]
    simp only [List.append_assoc]
  · rw [byteLength_append] at hstop
    rw [byteLength_append]
    omega

/-- A slice and the rest of the source behind it. -/
theorem dropBytes?_of_chars? {src : Source} {start stop : Nat} {cs tail : List Char}
    (hcs : src.chars? start stop = some cs) (htail : dropBytes? src.chars stop = some tail) :
    dropBytes? src.chars start = some (cs ++ tail) := by
  obtain ⟨front, rest, hsrc, hfront, hstop⟩ := chars?_eq_some_iff.mp hcs
  obtain ⟨front', hsrc', hfront'⟩ := dropBytes?_eq_some_iff.mp htail
  have hlen : byteLength (front ++ cs) = byteLength front' := by
    rw [byteLength_append]
    omega
  obtain ⟨-, rfl⟩ := append_inj_of_byteLength_eq (hsrc ▸ hsrc') hlen
  exact dropBytes?_eq_some_iff.mpr ⟨front, by rw [hsrc, List.append_assoc], hfront⟩

theorem slice?_eq_some_iff {src : Source} {start stop : Nat} {text : String} :
    src.slice? start stop = some text ↔ src.chars? start stop = some text.toList := by
  rw [slice?, Option.map_eq_some_iff]
  constructor
  · rintro ⟨cs, hcs, rfl⟩
    rw [hcs, String.toList_ofList]
  · intro h
    exact ⟨text.toList, h, String.ofList_toList⟩

end Source
end DefineFold
