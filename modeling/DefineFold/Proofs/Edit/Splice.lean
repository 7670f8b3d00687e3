/-
  DefineFold.Proofs.Edit.Splice

  Putting edits into a source. The source that edits leave alone is a list of gaps, one before
  each edit and one behind the last. Woven with the new texts the gaps give the result, woven
  with the old ones they give the source back (`exists_gaps`).
-/

import DefineFold.Edit.Basic
import DefineFold.Proofs.Text.Slice

namespace DefineFold
namespace EditSet

/-- The gaps that edits leave in a source from a byte offset on. They exist only if each of
    them can be cut out of the source. -/
def gapsFrom? (src : Source) (cursor : Nat) : List Edit → Option (List (List Char))
  | [] => (dropBytes? src.chars cursor).map ([·])
  | e :: es => do
    let gap ← src.chars? cursor e.start
    let gaps ← gapsFrom? src e.stop es
    some (gap :: gaps)

/-- Gaps with a text behind each but the last. -/
def weave : List (List Char) → List String → List Char
  | gap :: gaps, text :: texts => gap ++ text.toList ++ weave gaps texts
  | gaps, _ => gaps.flatten

/-- Edits that can be put into a source: in order, each ending before the next begins, and each
    with the slice of its range as its old text. -/
structure Fitting (src : Source) (edits : List Edit) : Prop where
  apart : edits.Pairwise fun a b => a.stop ≤ b.start
  cut : ∀ e ∈ edits, src.slice? e.start e.stop = some e.oldText

theorem Fitting.tail {src : Source} {e : Edit} {es : List Edit} (h : Fitting src (e :: es)) :
    Fitting src es :=
  ⟨(List.pairwise_cons.mp h.apart).2, fun x hx => h.cut x (List.mem_cons_of_mem _ hx)⟩

/-- Edits that fit leave gaps, which make up the spliced source with the new texts and the
    source itself with the old ones. -/
theorem exists_gaps {src : Source} {cursor : Nat} {edits : List Edit} (h : Fitting src edits)
    (hcursor : src.IsBoundary cursor) (hbefore : ∀ e ∈ edits, cursor ≤ e.start) :
    ∃ gaps, gapsFrom? src cursor edits = some gaps ∧
      spliceFrom? src cursor edits = some (weave gaps (edits.map Edit.newText)) ∧
      dropBytes? src.chars cursor = some (weave gaps (edits.map Edit.oldText)) := by
  induction edits generalizing cursor with
  | nil =>
    -- One gap, up to the end of the source.
    obtain ⟨front, tail, hsrc, hlen⟩ := hcursor
    have htail : dropBytes? src.chars cursor = some tail :=
      dropBytes?_eq_some_iff.mpr ⟨front, hsrc, hlen⟩
    refine ⟨[tail], ?_, ?_, ?_⟩
    · rw [gapsFrom?, htail]
      rfl
    · rw [spliceFrom?, htail]
      simp [weave]
    · rw [htail]
      simp [weave]
  | cons e es ih =>
    have hcut := Source.slice?_eq_some_iff.mp (h.cut e List.mem_cons_self)
    have hstart := Source.isBoundary_start_of_chars? hcut
    have hstop := Source.isBoundary_stop_of_chars? hcut
    -- The gap before the edit, then those from its end on.
    obtain ⟨gap, hgap⟩ := Source.isSome_chars? hcursor hstart (hbefore e List.mem_cons_self)
    obtain ⟨gaps, hgaps, hnew, hold⟩ := ih h.tail hstop (List.pairwise_cons.mp h.apart).1
    refine ⟨gap :: gaps, ?_, ?_, ?_⟩
    · rw [gapsFrom?, hgap, hgaps]
      rfl
    · rw [spliceFrom?, hgap, hnew]
      rfl
    · have hback := Source.dropBytes?_of_chars? hgap (Source.dropBytes?_of_chars? hcut hold)
      rw [hback]
      simp [weave]

end EditSet
end DefineFold
