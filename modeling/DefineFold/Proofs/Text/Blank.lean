/-
  DefineFold.Proofs.Text.Blank

  White space at either end of a text, for the two notions of it that there are: the Unicode
  property that trimming goes by, and the characters that the language takes for white space. The
  two differ in U+0085, which is blank alone, and in U+FEFF, which is a space alone
  (`isSpace_eq_isBlank`).
-/

import DefineFold.Text.Blank

namespace DefineFold

/-- The white space and the line ends of the language. -/
def isSpace (c : Char) : Bool :=
  ['\u0009', '\u000a', '\u000b', '\u000c', '\u000d', '\u0020', '\u00a0', '\u1680', '\u2000',
    '\u2001', '\u2002', '\u2003', '\u2004', '\u2005', '\u2006', '\u2007', '\u2008', '\u2009',
    '\u200a', '\u2028', '\u2029', '\u202f', '\u205f', '\u3000', '\ufeff'].contains c

/-- Two characters apart, the two notions agree. -/
theorem isSpace_eq_isBlank {c : Char} (hmark : c ≠ '\ufeff') (hnext : c ≠ '\u0085') :
    isSpace c = isBlank c := by
  have hcode : ∀ d : Char, c = d ↔ c.toNat = d.toNat := fun d => Char.toNat_inj.symm
  rw [Bool.eq_iff_iff, isSpace, isBlank]
  simp only [List.contains_iff_mem, List.mem_cons, List.not_mem_nil, or_false, hcode, ne_eq,
    Bool.or_eq_true, Bool.and_eq_true, decide_eq_true_eq, beq_iff_eq, Char.reduceToNat] at *
  omega

/-- The characters of ASCII that are no control characters and no white space. -/
def isVisible (c : Char) : Bool :=
  33 ≤ c.toNat && c.toNat ≤ 126

theorem isBlank_of_isVisible {c : Char} (h : isVisible c = true) : isBlank c = false := by
  simp only [isVisible, isBlank, Bool.and_eq_true, decide_eq_true_eq] at *
  grind

/-- The characters without those at either end for which the test holds. -/
def strip (p : Char → Bool) (cs : List Char) : List Char :=
  ((cs.dropWhile p).reverse.dropWhile p).reverse

theorem trimChars_eq_strip (cs : List Char) : trimChars cs = strip isBlank cs :=
  rfl

section

variable {p q : Char → Bool} {cs : List Char} {c : Char}

theorem strip_of_forall (h : ∀ c ∈ cs, p c = false) : strip p cs = cs := by
  have hkeep : ∀ ds : List Char, (∀ c ∈ ds, p c = false) → ds.dropWhile p = ds := by
    intro ds hds
    cases ds with
    | nil => rfl
    | cons d ds => exact List.dropWhile_cons_of_neg (by simp [hds d List.mem_cons_self])
  rw [strip, hkeep cs h, hkeep cs.reverse fun c hc => h c (List.mem_reverse.mp hc),
    List.reverse_reverse]

/-- What is no white space is still there. -/
theorem mem_strip (h : c ∈ cs) (hc : p c = false) : c ∈ strip p cs := by
  have hkeep : ∀ ds : List Char, c ∈ ds → c ∈ ds.dropWhile p := by
    intro ds hds
    induction ds with
    | nil => simp at hds
    | cons d ds ih =>
      rw [List.dropWhile_cons]
      split
      · exact ih (by grind)
      · exact hds
  rw [strip, List.mem_reverse]
  exact hkeep _ (List.mem_reverse.mpr (hkeep cs h))

theorem strip_congr (h : ∀ c ∈ cs, p c = q c) : strip p cs = strip q cs := by
  have hsame : ∀ ds : List Char, (∀ c ∈ ds, p c = q c) → ds.dropWhile p = ds.dropWhile q := by
    intro ds hds
    induction ds with
    | nil => rfl
    | cons d ds ih =>
      rw [List.dropWhile_cons, List.dropWhile_cons, hds d List.mem_cons_self,
        ih fun c hc => hds c (List.mem_cons_of_mem _ hc)]
  have hrest : ∀ c ∈ (cs.dropWhile q).reverse, p c = q c := fun c hc =>
    h c ((List.dropWhile_sublist q).subset (List.mem_reverse.mp hc))
  rw [strip, strip, hsame cs h, hsame _ hrest]

end

end DefineFold
