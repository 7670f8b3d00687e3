/-
  DefineFold.Edit.Basic

  Edits: ranges of bytes of a source with the text that is to replace them. An edit set
  holds at most one edit for each first byte, in rising order; a new edit takes the place of
  those that it encloses.
-/

import DefineFold.Primitive.Basic
import DefineFold.Text.Source

namespace DefineFold

/-- Why an edit is made. -/
inductive EditKind where
  /-- A read replaced by the literal of the value at a dotted path. -/
  | substitution (path : String)
  /-- An expression replaced by the literal of its value. -/
  | fold
deriving DecidableEq, Repr, Inhabited

/-- A range of bytes with the text that is to replace it. Line and column count from one, the
    column in bytes. -/
structure Edit where
  start : Nat
  stop : Nat
  line : Nat
  column : Nat
  oldText : String
  newText : String
  kind : EditKind
  /-- The primitive value that the new text writes, if it has one. -/
  value : Option Primitive
deriving DecidableEq, Inhabited

namespace Edit

/-- Whether the edit is a fold. -/
def isFold (e : Edit) : Bool :=
  e.kind == .fold

/-- Whether the edit starts inside the range of another and ends no later. -/
def isEnclosedBy (e other : Edit) : Bool :=
  other.start ≤ e.start && e.start < other.stop && e.stop ≤ other.stop

end Edit

/-- Edits in rising order of their first bytes. -/
structure EditSet where
  toList : List Edit
  rising : toList.Pairwise fun a b => a.start < b.start

namespace EditSet

/-- No edits. -/
def empty : EditSet :=
  ⟨[], .nil⟩

instance : Inhabited EditSet :=
  ⟨empty⟩

/-- The number of edits. -/
def size (s : EditSet) : Nat :=
  s.toList.length

/-- Whether there are no edits. -/
def isEmpty (s : EditSet) : Bool :=
  s.toList.isEmpty

/-- Whether a range lies inside an edit, judged by the last edit that starts no later. -/
def covers (s : EditSet) (start stop : Nat) : Bool :=
  match (s.toList.filter fun e => e.start ≤ start).getLast? with
  | some e => stop ≤ e.stop && start < e.stop
  | none => false

/-- The edit of exactly the given range, looked up by its first byte. -/
def matching? (s : EditSet) (start stop : Nat) : Option Edit :=
  (s.toList.find? fun e => e.start == start).filter fun e => e.stop == stop

/-- The edits before a new one. -/
def before (s : EditSet) (e : Edit) : List Edit :=
  s.toList.filter fun x => x.start < e.start

/-- The edits behind the start of a new one, without those it encloses. -/
def after (s : EditSet) (e : Edit) : List Edit :=
  s.toList.filter fun x => e.start < x.start && !x.isEnclosedBy e

/-- The edits with a new one among them are in rising order. -/
theorem rising_insert (s : EditSet) (e : Edit) :
    (s.before e ++ e :: s.after e).Pairwise fun a b => a.start < b.start := by
  rw [List.pairwise_append]
  refine ⟨s.rising.filter _, ?_, ?_⟩
  · rw [List.pairwise_cons]
    refine ⟨?_, s.rising.filter _⟩
    intro x hx
    have hx' := (List.mem_filter.mp hx).2
    simp only [Bool.and_eq_true, decide_eq_true_eq] at hx'
    exact hx'.1
  · intro a ha b hb
    have ha' : a.start < e.start := by simpa using (List.mem_filter.mp ha).2
    rcases List.mem_cons.mp hb with rfl | hb
    · exact ha'
    · have hb' := (List.mem_filter.mp hb).2
      simp only [Bool.and_eq_true, decide_eq_true_eq] at hb'
      exact Nat.lt_trans ha' hb'.1

/-- Puts an edit in. It takes the place of an edit with the same first byte and of those that
    it encloses. -/
def insert (s : EditSet) (e : Edit) : EditSet :=
  ⟨s.before e ++ e :: s.after e, s.rising_insert e⟩

/-- The text of a source from a byte offset on, with edits put in. It exists only if every gap
    between two edits can be cut out of the source. -/
def spliceFrom? (src : Source) (cursor : Nat) : List Edit → Option (List Char)
  | [] => dropBytes? src.chars cursor
  | e :: es => do
    let gap ← src.chars? cursor e.start
    let rest ← spliceFrom? src e.stop es
    some (gap ++ e.newText.toList ++ rest)

/-- The text of a source with the edits put in. -/
def splice? (s : EditSet) (src : Source) : Option String :=
  (spliceFrom? src 0 s.toList).map String.ofList

end EditSet

end DefineFold
