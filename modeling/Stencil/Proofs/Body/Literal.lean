import Stencil.Lower
import Stencil.Proofs.Blocks.Styles
import Stencil.Proofs.Lower.Code
import Stencil.Proofs.Scan.Trace
/-!
# Documents without code

A text in which neither delimiter occurs is one literal. Its body is one call that emits it, and the
call comes through the normal form and through lowering as it is, whatever the text says.
-/
namespace Stencil

open Tile

/-- The one statement of a document without code, which emits its text. An empty text needs none. -/
def emission (t : Text) : Text :=
  if t = [] then [] else "print(".toList ++ (quoted t ++ ");".toList)

/-! ## Scanning -/

namespace Scan

variable {d : Delimiters} {behind pending t : Text} {opened : Nat} {log : Collector}

private theorem startsWith_of_not_infix {first : Text} (h : ¬ first <:+: t) :
    Cursor.startsWith ⟨behind, t⟩ first = false := by
  rw [Cursor.startsWith, ← Bool.not_eq_true, List.isPrefixOf_iff_prefix]
  exact fun hprefix => h hprefix.isInfix

private theorem steps_literal (hstart : ¬ d.start <:+: t) (hstop : ¬ d.stop <:+: t) :
    steps d t.length (⟨.literal, none, pending, [], opened, log⟩, ⟨behind, t⟩) =
      (⟨.literal, none, t.reverse ++ pending, [], opened, log⟩, ⟨t.reverse ++ behind, []⟩) := by
  induction t generalizing pending behind with
  | nil => rfl
  | cons c t ih =>
      have hahead : longestAhead? ⟨behind, c :: t⟩ d.start d.stop = none := by
        simp only [longestAhead?, startsWith_of_not_infix hstart, startsWith_of_not_infix hstop]
      have hstep : step d ⟨.literal, none, pending, [], opened, log⟩ ⟨behind, c :: t⟩ =
          (⟨.literal, none, c :: pending, [], opened, log⟩, ⟨c :: behind, t⟩) := by
        rw [step, stepLiteral, hahead]
        rfl
      have hrest : steps d t.length (⟨.literal, none, c :: pending, [], opened, log⟩,
          ⟨c :: behind, t⟩) = _ := ih (fun h => hstart (h.trans (List.suffix_cons c t).isInfix))
        (fun h => hstop (h.trans (List.suffix_cons c t).isInfix))
      rw [List.length_cons, steps, if_neg (by simp [Cursor.atEnd]), hstep, hrest]
      simp

end Scan

/-- A text in which neither delimiter occurs is scanned to itself, and nothing is reported. -/
theorem scan_literal {d : Delimiters} {t : Text} (hstart : ¬ d.start <:+: t)
    (hstop : ¬ d.stop <:+: t) (template : String) (log : Collector) :
    scan d t template log = (.ok (Scan.pieceOf t true .literal), log) := by
  have hscan : Scan.ofText d t log =
      Scan.closeLiteral ⟨.literal, none, t.reverse, [], 0, log⟩ := by
    have hsteps := @Scan.steps_literal d [] [] t 0 log hstart hstop
    rw [List.append_nil] at hsteps
    rw [Scan.ofText, Cursor.ofText, hsteps]
    rfl
  have hdone := Scan.closeLiteral_done (s := ⟨.literal, none, t.reverse, [], 0, log⟩) rfl true
  rw [List.reverse_reverse, List.append_nil] at hdone
  have hlog : (Scan.closeLiteral ⟨.literal, none, t.reverse, [], 0, log⟩).log = log := by
    unfold Scan.closeLiteral
    split <;> rfl
  unfold scan
  simp only [hscan, Scan.pieces, hdone, hlog]
  unfold Scan.pieceOf
  cases t.isEmpty <;> rfl

/-! ## The body -/

theorem source_literal (t : Text) : (Body.ofPieces (Scan.pieceOf t true .literal)).source =
    if t = [] then [] else (Element.emit t).source := by
  cases t with
  | nil => rfl
  | cons c t => simp [Scan.pieceOf, Body.ofPieces, Body.ofElements, Body.elementOf, Body.merge,
      Body.consLiteral, Body.source]

section Emission

variable {t : Text}

private theorem emission_eq (ht : t ≠ []) :
    emission t = (Clause.leaf (Element.emit t).statement).canonical := by
  rw [emission, if_neg ht]
  simp [Clause.canonical, Clause.map, Clause.brace, Element.statement]

private theorem sound_emit (ht : t ≠ []) :
    ∀ p ∈ [(⟨[], .leaf (Element.emit t).statement, []⟩ : Placed)], p.Sound := by
  simpa using ⟨Text.blank_nil, Text.blank_nil, Element.simple_emit ht⟩

/-- The normal form of a body that emits one text is the statement that does so. -/
theorem normalize_emit (ht : t ≠ []) : normalize (Element.emit t).source = emission t := by
  have hnormal := normalize_written .colon (sound_emit ht)
  simp only [List.flatMap_cons, List.flatMap_nil, List.append_nil] at hnormal
  rw [emission_eq ht, ← hnormal, Element.source_eq]
  rfl

theorem lower_emission (ht : t ≠ []) : lower (emission t) = emission t := by
  have hclosed := Placed.closed_layout fun p hp =>
    Placed.framed_canonical (sound_emit ht p hp).clause.code
  simp only [List.flatMap_cons, List.flatMap_nil, List.append_nil] at hclosed
  rw [← emission_eq ht] at hclosed
  have hstatement : emission t = "print(".toList ++ (quoted t ++ ");".toList) := by
    rw [emission, if_neg ht]
  have hmask : (Mask.ofText (emission t)).text =
      "print(".toList ++ (Mask.placeholder 0 ++ ");".toList) := by
    rw [Mask.ofText, hstatement, tiles_call]
    rfl
  have hnative : NativeCode (emission t) := ⟨hclosed, by
    rw [hmask]
    exact ⟨by decide, by decide, by decide⟩⟩
  rw [lower_native hnative, hstatement]
  refine Text.trimEnd_of_flush ?_
  rw [← List.append_assoc, List.reverse_append]
  exact Text.flush_cons.mpr (by decide)

end Emission

/-- What is compiled for a document without code. -/
theorem lower_literal (t : Text) :
    lower (normalize (Body.ofPieces (Scan.pieceOf t true .literal)).source) = emission t := by
  rw [source_literal]
  by_cases ht : t = []
  · subst ht
    rfl
  · rw [if_neg ht, normalize_emit ht, lower_emission ht]

end Stencil
