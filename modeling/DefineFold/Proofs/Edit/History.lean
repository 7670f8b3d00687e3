/-
  DefineFold.Proofs.Edit.History

  What an edit set holds after edits have been put in one after the other. The set itself only asks
  its neighbour to the left whether a range is covered, and drops only edits that begin inside a
  new one. That is enough for histories in which no range is empty, any two are nested or apart, and
  nothing is put in where it would be covered (`Admissible`).

  The invariant is `Tracks`: the edits are disjoint, they are the largest of the history, and every
  edit of the history lies inside one of them. One insertion keeps it (`Tracks.insert`), and so does
  a whole history (`tracks_ofHistory`).
-/

import DefineFold.Proofs.Edit.Disjoint
import Mathlib.Data.List.Induction

namespace DefineFold

namespace Edit

/-- Whether two edits have one range. -/
def sameRange (a b : Edit) : Bool :=
  a.start == b.start && a.stop == b.stop

instance (a b : Edit) : Decidable (a.Apart b) :=
  inferInstanceAs (Decidable (_ ∨ _))

theorem sameRange_iff {a b : Edit} :
    a.sameRange b = true ↔ a.start = b.start ∧ a.stop = b.stop := by
  simp [sameRange]

theorem Inside.trans {a b c : Edit} (hab : a.Inside b) (hbc : b.Inside c) : a.Inside c :=
  ⟨Nat.le_trans hbc.1 hab.1, Nat.le_trans hab.2 hbc.2⟩

/-- Edits that lie inside each other have one range. -/
theorem Inside.sameRange {a b : Edit} (hab : a.Inside b) (hba : b.Inside a) :
    a.sameRange b = true :=
  sameRange_iff.mpr ⟨Nat.le_antisymm hba.1 hab.1, Nat.le_antisymm hab.2 hba.2⟩

/-- An edit that is not empty does not lie inside one that it is apart from. -/
theorem Apart.not_inside {a b : Edit} (h : a.Apart b) (ha : a.start < a.stop) : ¬a.Inside b := by
  rintro ⟨hstart, hstop⟩
  rcases h with h | h <;> omega

/-- An edit is the last of a history with its range. -/
def IsLatest (history : List Edit) (x : Edit) : Prop :=
  (history.filter (·.sameRange x)).getLast? = some x

/-- No edit of a history has a range around that of a given one. -/
def IsLargest (history : List Edit) (x : Edit) : Prop :=
  ∀ y ∈ history, x.Inside y → y.Inside x

theorem IsLatest.mem {history : List Edit} {x : Edit} (h : IsLatest history x) : x ∈ history :=
  (List.mem_filter.mp (List.mem_of_getLast? h)).1

/-- One more edit is the last one with its own range, and changes nothing about other ranges. -/
theorem isLatest_concat {history : List Edit} {e x : Edit} :
    IsLatest (history ++ [e]) x ↔ if e.sameRange x then e = x else IsLatest history x := by
  rw [IsLatest, IsLatest, List.filter_append, List.filter_cons, List.filter_nil]
  cases e.sameRange x <;> simp

theorem isLargest_concat {history : List Edit} {e x : Edit} :
    IsLargest (history ++ [e]) x ↔ IsLargest history x ∧ (x.Inside e → e.Inside x) := by
  simp only [IsLargest, List.mem_append, List.mem_singleton, or_imp, forall_and, forall_eq]

end Edit

namespace EditSet

/-- The edits put in one after the other. -/
def ofHistory (history : List Edit) : EditSet :=
  history.foldl insert .empty

/-- Whether each edit is put in only where its range is not covered by then. -/
def isGuarded : EditSet → List Edit → Bool
  | _, [] => true
  | s, e :: es => !s.covers e.start e.stop && isGuarded (s.insert e) es

/-- The histories that a set is made for: ranges of a family in which none is empty and any two are
    nested or apart, each put in only where it is not covered. -/
structure Admissible (history : List Edit) : Prop where
  solid : ∀ e ∈ history, e.start < e.stop
  laminar : ∀ a ∈ history, ∀ b ∈ history, a.Inside b ∨ b.Inside a ∨ a.Apart b
  guarded : isGuarded .empty history = true

/-- An edit of the set replaces a byte. -/
def Replaces (s : EditSet) (byte : Nat) : Prop :=
  ∃ e ∈ s.toList, e.start ≤ byte ∧ byte < e.stop

/-- What a set holds of a history. -/
structure Tracks (history : List Edit) (s : EditSet) : Prop where
  disjoint : s.Disjoint
  mem_iff : ∀ x, x ∈ s.toList ↔ x.IsLatest history ∧ x.IsLargest history
  /-- Every edit of the history lies inside one of the set. -/
  held : ∀ y ∈ history, ∃ x ∈ s.toList, y.Inside x

theorem tracks_empty : Tracks [] .empty := by
  refine ⟨disjoint_empty, fun x => ?_, fun y hy => absurd hy List.not_mem_nil⟩
  simp [empty, Edit.IsLatest]

namespace Tracks

variable {history : List Edit} {s : EditSet} {e : Edit}

theorem mem_history (h : Tracks history s) {x : Edit} (hx : x ∈ s.toList) : x ∈ history :=
  ((h.mem_iff x).mp hx).1.mem

/-- No edit of the history has a range around one that is not covered: the set would hold an edit
    around that range too. -/
theorem not_inside (h : Tracks history s) (he : e.start < e.stop)
    (hcovers : s.covers e.start e.stop = false) : ∀ y ∈ history, ¬e.Inside y := by
  intro y hy hin
  obtain ⟨x, hx, hyx⟩ := h.held y hy
  have hex := hin.trans hyx
  have hcov : s.covers e.start e.stop = true :=
    (h.disjoint.covers_iff he).mpr ⟨x, hx, hex.1, hex.2⟩
  simp [hcov] at hcovers

/-- Putting in an edit that is not covered keeps track of the history. -/
theorem insert (h : Tracks history s) (he : e.start < e.stop)
    (hsolid : ∀ y ∈ history, y.start < y.stop)
    (hlaminar : ∀ y ∈ history, y.Inside e ∨ e.Inside y ∨ y.Apart e)
    (hcovers : s.covers e.start e.stop = false) : Tracks (history ++ [e]) (s.insert e) := by
  have hout := h.not_inside he hcovers
  have hsplit : ∀ y ∈ history, y.Inside e ∨ y.Apart e := by
    intro y hy
    rcases hlaminar y hy with hin | hin | hapart
    · exact Or.inl hin
    · exact absurd hin (hout y hy)
    · exact Or.inr hapart
  have hset : ∀ x ∈ s.toList, x.Inside e ∨ x.Apart e := fun x hx => hsplit x (h.mem_history hx)
  have hmem := fun x => mem_insert_iff (x := x) h.disjoint he hset
  refine ⟨h.disjoint.insert he hset, fun x => ?_, fun y hy => ?_⟩
  · -- The set has the new edit and what is apart from it; so has the history, among its largest.
    rw [hmem, h.mem_iff, Edit.isLatest_concat, Edit.isLargest_concat]
    constructor
    · rintro (rfl | ⟨⟨hlatest, hlargest⟩, hapart⟩)
      · rw [if_pos (Edit.sameRange_iff.mpr ⟨rfl, rfl⟩)]
        exact ⟨rfl, fun y hy hin => absurd hin (hout y hy), id⟩
      · have hnot := hapart.not_inside (hsolid x hlatest.mem)
        have hother : e.sameRange x = false := by
          rw [← Bool.not_eq_true, Edit.sameRange_iff]
          rintro ⟨hstart, hstop⟩
          exact hnot ⟨by omega, by omega⟩
        rw [hother, if_neg Bool.false_ne_true]
        exact ⟨hlatest, hlargest, fun hin => absurd hin hnot⟩
    · rintro ⟨hlatest, hlargest, hnew⟩
      split at hlatest
      · exact Or.inl hlatest.symm
      · rename_i hother
        right
        refine ⟨⟨hlatest, hlargest⟩, ?_⟩
        -- Inside the new edit it would have to be as large, and so have its range.
        rcases hsplit x hlatest.mem with hin | hapart
        · exact absurd ((hnew hin).sameRange hin) hother
        · exact hapart
  · rcases List.mem_append.mp hy with hy | hy
    · -- An older edit lies in one that is still there, or in one that the new edit has replaced.
      obtain ⟨x, hx, hyx⟩ := h.held y hy
      rcases hset x hx with hin | hapart
      · exact ⟨e, mem_insert_self s e, hyx.trans hin⟩
      · exact ⟨x, (hmem x).mpr (Or.inr ⟨hx, hapart⟩), hyx⟩
    · rw [List.mem_singleton.mp hy]
      exact ⟨e, mem_insert_self s e, Nat.le_refl _, Nat.le_refl _⟩

/-- The bytes that a set replaces are all those of its history. -/
theorem replaces_iff (h : Tracks history s) {byte : Nat} :
    s.Replaces byte ↔ ∃ y ∈ history, y.start ≤ byte ∧ byte < y.stop := by
  constructor
  · rintro ⟨x, hx, hrange⟩
    exact ⟨x, h.mem_history hx, hrange⟩
  · rintro ⟨y, hy, hstart, hstop⟩
    obtain ⟨x, hx, hin⟩ := h.held y hy
    have h1 := hin.1
    have h2 := hin.2
    exact ⟨x, hx, by omega, by omega⟩

end Tracks

/-! ## Whole histories -/

theorem isGuarded_append (s : EditSet) (earlier later : List Edit) :
    s.isGuarded (earlier ++ later) =
      (s.isGuarded earlier && (earlier.foldl insert s).isGuarded later) := by
  induction earlier generalizing s with
  | nil => rfl
  | cons e earlier ih =>
    rw [List.cons_append, isGuarded, isGuarded, ih, Bool.and_assoc]
    rfl

theorem Admissible.of_append {earlier later : List Edit} (h : Admissible (earlier ++ later)) :
    Admissible earlier := by
  have hguarded := h.guarded
  rw [isGuarded_append, Bool.and_eq_true] at hguarded
  have hmem : ∀ e ∈ earlier, e ∈ earlier ++ later := fun e he => List.mem_append_left _ he
  exact ⟨fun e he => h.solid e (hmem e he),
    fun a ha b hb => h.laminar a (hmem a ha) b (hmem b hb), hguarded.1⟩

/-- After an admissible history, a set holds its largest edits. -/
theorem tracks_ofHistory {history : List Edit} (h : Admissible history) :
    Tracks history (ofHistory history) := by
  induction history using List.reverseRecOn with
  | nil => exact tracks_empty
  | append_singleton history e ih =>
    have htracks := ih h.of_append
    have hmem : ∀ y ∈ history, y ∈ history ++ [e] := fun y hy => List.mem_append_left _ hy
    have hself : e ∈ history ++ [e] := List.mem_append_right _ List.mem_cons_self
    have hcovers : (ofHistory history).covers e.start e.stop = false := by
      have hguarded := h.guarded
      rw [isGuarded_append, Bool.and_eq_true] at hguarded
      simpa [isGuarded, ofHistory] using hguarded.2
    have hnext := htracks.insert (h.solid e hself) (fun y hy => h.solid y (hmem y hy))
      (fun y hy => h.laminar y (hmem y hy) e hself) hcovers
    rw [ofHistory, List.foldl_append]
    exact hnext

/-- After an admissible history of insertions the edits of a set are apart from each other. They are
    the edits of the history that are the largest and, of those with one range, the last; a range is
    covered just if one of them holds it, and an edit is found just if it has the range; and a byte
    that was replaced at any time in the history still is. -/
theorem ofHistory_holds_largest (history : List Edit) (h : Admissible history) :
    ((ofHistory history).toList.Pairwise fun a b => a.Apart b) ∧
    (∀ x, x ∈ (ofHistory history).toList ↔ x.IsLatest history ∧ x.IsLargest history) ∧
    (∀ start stop, start < stop → ((ofHistory history).covers start stop = true ↔
      ∃ e ∈ (ofHistory history).toList, e.start ≤ start ∧ stop ≤ e.stop)) ∧
    (∀ start stop e, (ofHistory history).matching? start stop = some e ↔
      e ∈ (ofHistory history).toList ∧ e.start = start ∧ e.stop = stop) ∧
    ∀ earlier later, history = earlier ++ later → ∀ byte,
      (ofHistory earlier).Replaces byte → (ofHistory history).Replaces byte := by
  have htracks := tracks_ofHistory h
  refine ⟨htracks.disjoint.apart.imp Or.inl, htracks.mem_iff,
    fun start stop hlt => htracks.disjoint.covers_iff hlt,
    fun start stop e => matching?_eq_some_iff, ?_⟩
  rintro earlier later rfl byte hbyte
  rw [htracks.replaces_iff]
  rw [(tracks_ofHistory h.of_append).replaces_iff] at hbyte
  obtain ⟨y, hy, hrange⟩ := hbyte
  exact ⟨y, List.mem_append_left _ hy, hrange⟩

end EditSet

/-! ## A small history

Two operands, something apart from them, and then the expression around the operands. -/

namespace Sample

/-- An edit of the given range. -/
def foldOf (start stop : Nat) (newText : String) : Edit :=
  ⟨start, stop, 1, start + 1, "", newText, .fold, none⟩

def history : List Edit :=
  [foldOf 4 5 "1", foldOf 20 22 "2", foldOf 10 11 "3", foldOf 4 11 "4"]

end Sample

namespace EditSet

theorem ofHistory_holds_largest_sample :
    Admissible Sample.history ∧
      (∀ x, x ∈ (ofHistory Sample.history).toList ↔
        x.IsLatest Sample.history ∧ x.IsLargest Sample.history) ∧
      (ofHistory Sample.history).toList = [Sample.foldOf 4 11 "4", Sample.foldOf 20 22 "2"] := by
  have hadmissible : Admissible Sample.history := ⟨by decide, by decide, by decide⟩
  exact ⟨hadmissible, (ofHistory_holds_largest Sample.history hadmissible).2.1, by decide⟩

end EditSet
end DefineFold
