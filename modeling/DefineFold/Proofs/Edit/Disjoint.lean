/-
  DefineFold.Proofs.Edit.Disjoint

  Edit sets whose ranges are not empty and do not overlap. On such a set the look-ups mean
  what they say: `covers_iff` and `matching?_eq_some_iff` put them in terms of membership.
  A new edit that every recorded one lies inside of or apart from keeps the set disjoint and
  leaves exactly the edits apart from it (`mem_insert_iff`, `Disjoint.insert`).
-/

import DefineFold.Edit.Basic

namespace DefineFold

namespace Edit

/-- The range of an edit lies inside that of another. -/
def Inside (a b : Edit) : Prop :=
  b.start ≤ a.start ∧ a.stop ≤ b.stop

/-- The ranges of two edits have no byte in common. -/
def Apart (a b : Edit) : Prop :=
  a.stop ≤ b.start ∨ b.stop ≤ a.start

instance (a b : Edit) : Decidable (a.Inside b) :=
  inferInstanceAs (Decidable (_ ∧ _))

end Edit

namespace EditSet

/-- The edits are not empty, and each one ends before the next begins. -/
structure Disjoint (s : EditSet) : Prop where
  solid : ∀ e ∈ s.toList, e.start < e.stop
  apart : s.toList.Pairwise fun a b => a.stop ≤ b.start

theorem disjoint_empty : EditSet.empty.Disjoint :=
  ⟨fun _ he => absurd he List.not_mem_nil, List.Pairwise.nil⟩

/-- Two edits of a disjoint set with a byte in common are one edit. -/
theorem Disjoint.eq_of_overlap {s : EditSet} (h : s.Disjoint) {a b : Edit} (ha : a ∈ s.toList)
    (hb : b ∈ s.toList) (hab : a.start < b.stop) (hba : b.start < a.stop) : a = b := by
  obtain ⟨i, hi, rfl⟩ := List.getElem_of_mem ha
  obtain ⟨j, hj, rfl⟩ := List.getElem_of_mem hb
  have hapart := List.pairwise_iff_getElem.mp h.apart
  rcases Nat.lt_trichotomy i j with hij | rfl | hij
  · have := hapart i j hi hj hij
    omega
  · rfl
  · have := hapart j i hj hi hij
    omega

/-- Edits that begin at one byte are one edit. -/
theorem eq_of_start_eq {s : EditSet} {a b : Edit} (ha : a ∈ s.toList) (hb : b ∈ s.toList)
    (hstart : a.start = b.start) : a = b := by
  obtain ⟨i, hi, rfl⟩ := List.getElem_of_mem ha
  obtain ⟨j, hj, rfl⟩ := List.getElem_of_mem hb
  have hrising := List.pairwise_iff_getElem.mp s.rising
  rcases Nat.lt_trichotomy i j with hij | rfl | hij
  · have := hrising i j hi hj hij
    omega
  · rfl
  · have := hrising j i hj hi hij
    omega

/-! ## Look-ups -/

/-- The edit of a range is the one recorded with that range. -/
theorem matching?_eq_some_iff {s : EditSet} {start stop : Nat} {e : Edit} :
    s.matching? start stop = some e ↔ e ∈ s.toList ∧ e.start = start ∧ e.stop = stop := by
  rw [matching?, Option.filter_eq_some_iff, beq_iff_eq]
  constructor
  · rintro ⟨hfind, hstop⟩
    have hstart := List.find?_some hfind
    exact ⟨List.mem_of_find?_eq_some hfind, by simpa using hstart, hstop⟩
  · rintro ⟨hmem, hstart, hstop⟩
    refine ⟨?_, hstop⟩
    cases hfind : s.toList.find? fun e => e.start == start with
    | none =>
      have hnone := List.find?_eq_none.mp hfind e hmem
      simp [hstart] at hnone
    | some x =>
      have hx := List.find?_some hfind
      rw [beq_iff_eq] at hx
      rw [eq_of_start_eq (List.mem_of_find?_eq_some hfind) hmem (by omega)]

theorem matching?_eq_none_iff {s : EditSet} {start stop : Nat} :
    s.matching? start stop = none ↔ ∀ e ∈ s.toList, ¬(e.start = start ∧ e.stop = stop) := by
  rw [Option.eq_none_iff_forall_ne_some]
  constructor
  · intro h e he hrange
    exact h e (matching?_eq_some_iff.mpr ⟨he, hrange⟩)
  · intro h e hfound
    obtain ⟨he, hrange⟩ := matching?_eq_some_iff.mp hfound
    exact h e he hrange

/-- In a disjoint set a range that is not empty is covered if one of the edits holds it. The
    edit that is asked, the last one to begin no later, is then the only one that could. -/
theorem Disjoint.covers_iff {s : EditSet} (h : s.Disjoint) {start stop : Nat}
    (hlt : start < stop) :
    s.covers start stop = true ↔ ∃ e ∈ s.toList, e.start ≤ start ∧ stop ≤ e.stop := by
  rw [covers]
  cases hlast : (s.toList.filter fun e => e.start ≤ start).getLast? with
  | none =>
    simp only [Bool.false_eq_true, false_iff, not_exists, not_and, Nat.not_le]
    intro e he hstart
    have hnil := List.getLast?_eq_none_iff.mp hlast
    have hmem : e ∈ s.toList.filter fun e => e.start ≤ start :=
      List.mem_filter.mpr ⟨he, by simpa using hstart⟩
    rw [hnil] at hmem
    exact absurd hmem List.not_mem_nil
  | some x =>
    obtain ⟨front, hfront⟩ := List.getLast?_eq_some_iff.mp hlast
    have hx : x ∈ s.toList.filter fun e => e.start ≤ start := by
      rw [hfront]
      exact List.mem_append_right _ List.mem_cons_self
    have hxstart : x.start ≤ start := by simpa using (List.mem_filter.mp hx).2
    simp only [Bool.and_eq_true, decide_eq_true_eq]
    constructor
    · rintro ⟨hstop, -⟩
      exact ⟨x, (List.mem_filter.mp hx).1, hxstart, hstop⟩
    · rintro ⟨e, he, hstart, hstop⟩
      have hmem : e ∈ s.toList.filter fun e => e.start ≤ start :=
        List.mem_filter.mpr ⟨he, by simpa using hstart⟩
      have hsorted := h.apart.filter fun e => decide (e.start ≤ start)
      rw [hfront] at hmem hsorted
      -- An edit that holds the range is the one asked: an earlier one ends where it begins.
      rcases List.mem_append.mp hmem with hmem | hmem
      · have hbefore : e.stop ≤ x.start :=
          (List.pairwise_append.mp hsorted).2.2 e hmem x List.mem_cons_self
        omega
      · rw [List.mem_singleton.mp hmem] at hstop
        omega

/-! ## Insertion -/

/-- An edit that the recorded ones lie inside of or apart from leaves those apart from it. -/
theorem mem_insert_iff {s : EditSet} {e x : Edit} (hs : s.Disjoint) (he : e.start < e.stop)
    (hlaminar : ∀ y ∈ s.toList, y.Inside e ∨ y.Apart e) :
    x ∈ (s.insert e).toList ↔ x = e ∨ x ∈ s.toList ∧ x.Apart e := by
  simp only [insert, before, after, List.mem_append, List.mem_cons, List.mem_filter,
    Edit.isEnclosedBy, Edit.Apart, Bool.and_eq_true, Bool.not_eq_true', Bool.and_eq_false_imp,
    decide_eq_true_eq, decide_eq_false_iff_not]
  constructor
  · rintro (⟨hx, hbefore⟩ | rfl | ⟨hx, hafter, hfree⟩)
    · -- An edit that begins earlier does not lie inside the new one.
      right
      refine ⟨hx, ?_⟩
      have hsolid := hs.solid x hx
      rcases hlaminar x hx with hin | hapart
      · have := hin.1
        omega
      · exact hapart
    · exact Or.inl rfl
    · -- One that begins later and is kept is not enclosed.
      right
      refine ⟨hx, ?_⟩
      have hsolid := hs.solid x hx
      rcases hlaminar x hx with hin | hapart
      · have h1 := hin.1
        have h2 := hin.2
        exact absurd h2 (hfree ⟨h1, by omega⟩)
      · exact hapart
  · rintro (rfl | ⟨hx, hapart⟩)
    · exact Or.inr (Or.inl rfl)
    · have hsolid := hs.solid x hx
      rcases hapart with hbefore | hafter
      · exact Or.inl ⟨hx, by omega⟩
      · exact Or.inr (Or.inr ⟨hx, by omega, fun h => absurd h.2 (by omega)⟩)

/-- After an insertion there are the new edit and edits that were there before. -/
theorem eq_or_mem_of_mem_insert {s : EditSet} {e x : Edit} (h : x ∈ (s.insert e).toList) :
    x = e ∨ x ∈ s.toList := by
  rcases List.mem_append.mp h with hbefore | hrest
  · exact Or.inr (List.mem_filter.mp hbefore).1
  · rcases List.mem_cons.mp hrest with rfl | hafter
    · exact Or.inl rfl
    · exact Or.inr (List.mem_filter.mp hafter).1

/-- What holds of the new edit and of all edits before holds of all edits after an insertion. -/
theorem forall_mem_insert {s : EditSet} {e : Edit} {motive : Edit → Prop} (he : motive e)
    (hs : ∀ x ∈ s.toList, motive x) : ∀ x ∈ (s.insert e).toList, motive x := by
  intro x hx
  rcases eq_or_mem_of_mem_insert hx with rfl | hx
  · exact he
  · exact hs x hx

theorem mem_insert_self (s : EditSet) (e : Edit) : e ∈ (s.insert e).toList :=
  List.mem_append_right _ List.mem_cons_self

/-- Such an edit keeps the set disjoint. -/
theorem Disjoint.insert {s : EditSet} {e : Edit} (hs : s.Disjoint) (he : e.start < e.stop)
    (hlaminar : ∀ y ∈ s.toList, y.Inside e ∨ y.Apart e) : (s.insert e).Disjoint := by
  have hmem := fun x => mem_insert_iff (x := x) hs he hlaminar
  have hsolid : ∀ x ∈ (s.insert e).toList, x.start < x.stop := by
    intro x hx
    rcases (hmem x).mp hx with rfl | ⟨hx, -⟩
    · exact he
    · exact hs.solid x hx
  refine ⟨hsolid, ?_⟩
  -- The set is sorted, so it is enough that two different edits are apart.
  refine (s.insert e).rising.imp_of_mem ?_
  intro a b ha hb hab
  have hsa := hsolid a ha
  have hsb := hsolid b hb
  rcases (hmem a).mp ha with rfl | ⟨ha, haApart⟩
  · rcases (hmem b).mp hb with rfl | ⟨-, hbApart | hbApart⟩ <;> omega
  · rcases (hmem b).mp hb with rfl | ⟨hb, -⟩
    · rcases haApart with haApart | haApart <;> omega
    · rcases Nat.lt_or_ge b.start a.stop with hover | hle
      · have heq := hs.eq_of_overlap ha hb (by omega) hover
        rw [heq] at hab
        omega
      · exact hle

/-- What was covered stays covered when an edit is put in. -/
theorem covers_insert {s : EditSet} {e : Edit} (hs : s.Disjoint) (he : e.start < e.stop)
    (hlaminar : ∀ y ∈ s.toList, y.Inside e ∨ y.Apart e) {start stop : Nat} (hlt : start < stop)
    (hcovers : s.covers start stop = true) : (s.insert e).covers start stop = true := by
  obtain ⟨x, hx, hstart, hstop⟩ := (hs.covers_iff hlt).mp hcovers
  rw [(hs.insert he hlaminar).covers_iff hlt]
  -- The edit that covers the range is still there, or the new one has taken its place.
  rcases hlaminar x hx with hin | hapart
  · have h1 := hin.1
    have h2 := hin.2
    exact ⟨e, mem_insert_self s e, by omega, by omega⟩
  · exact ⟨x, (mem_insert_iff hs he hlaminar).mpr (Or.inr ⟨hx, hapart⟩), hstart, hstop⟩

end EditSet
end DefineFold
