import Stencil.Proofs.Blocks.Tree
import Stencil.Proofs.Mask.Spans
import Mathlib.Data.List.Forall2
/-!
# Clauses in a source

The mask shows a clause as it is written, but for the literals in its own text, which are numbered
through the source. A pass that rewrites one layout of the masked clauses into another does so in the
source.
-/
namespace Stencil

open Tile

namespace Clause

def inner : Clause Text → Text
  | .leaf t | .head _ t | .elseIf t => t
  | _ => []

def withInner (t : Text) : Clause Text → Clause Text
  | .leaf _ => .leaf t
  | .head kind _ => .head kind t
  | .elseIf _ => .elseIf t
  | clause => clause

theorem withInner_inner (x : Clause Text) : x.withInner x.inner = x := by
  cases x <;> rfl

end Clause

/-- A clause as a fragment of its own, with white space around it. -/
structure Placed where
  before : Text
  clause : Clause Text
  after : Text

/-- The literals of the code are those of the mask from an index on. -/
def Holds (m : Mask) (k : Nat) (c : Text) : Prop :=
  ∀ i < (Mask.ofText c).literals.length, m.literals[i + k]? = (Mask.ofText c).literals[i]?

namespace Placed

def withInner (t : Text) (p : Placed) : Placed := { p with clause := p.clause.withInner t }

def literals (p : Placed) : List Text := (Mask.ofText p.clause.inner).literals

/-- The fragments as the mask shows them, their literals numbered from an index on. -/
def shown : Nat → List Placed → List Placed
  | _, [] => []
  | k, p :: rest =>
    p.withInner (Mask.textFrom k (tiles p.clause.inner)) :: shown (k + p.literals.length) rest

/-- The second fragment is the first as a mask shows it. -/
def Shows (m : Mask) (p q : Placed) : Prop :=
  ∃ k, Holds m k p.clause.inner ∧ q = p.withInner (Mask.textFrom k (tiles p.clause.inner))

theorem shows_shown {m : Mask} {ps : List Placed} {front : List Text}
    (hm : m.literals = front ++ ps.flatMap literals) :
    List.Forall₂ (Shows m) ps (shown front.length ps) := by
  induction ps generalizing front with
  | nil => exact .nil
  | cons p ps ih =>
      rw [List.flatMap_cons] at hm
      have hholds : Holds m front.length p.clause.inner := by
        intro i hi
        rw [hm, List.getElem?_append_right (Nat.le_add_left _ _), Nat.add_sub_cancel, literals,
          List.getElem?_append_left hi]
      have hrest := @ih (front ++ p.literals) (by rw [hm, List.append_assoc])
      rw [List.length_append] at hrest
      exact .cons ⟨front.length, hholds, rfl⟩ hrest

theorem exists_shows {m : Mask} {ps qs : List Placed} (h : List.Forall₂ (Shows m) ps qs) :
    ∀ q ∈ qs, ∃ p ∈ ps, Shows m p q := by
  induction h with
  | nil => simp
  | cons hpq _ ih =>
      rintro q (_ | ⟨_, hq⟩)
      · exact ⟨_, List.mem_cons_self, hpq⟩
      · obtain ⟨p, hp, hpq'⟩ := ih q hq
        exact ⟨p, List.mem_cons_of_mem _ hp, hpq'⟩

/-! ## Layouts -/

/-- The layout puts plain characters around the text of the clause, if it has one. -/
def Framed (layout : Placed → Text) (p : Placed) : Prop :=
  ∃ s : Span, s.Good ∧ s.inner = p.clause.inner ∧
    ∀ t, (p.clause.inner = [] → t = []) → layout (p.withInner t) = s.front ++ (t ++ s.back)

section Layouts

variable {layout : Placed → Text} {ps : List Placed}

/-- A source of framed fragments is put together from spans. -/
private theorem exists_spans (h : ∀ p ∈ ps, Framed layout p) :
    ∃ spans : List Span, (∀ s ∈ spans, s.Good) ∧ spans.flatMap Span.text = ps.flatMap layout ∧
      spans.flatMap Span.literals = ps.flatMap literals ∧
      ∀ k, Span.maskedAll k spans = (shown k ps).flatMap layout := by
  induction ps with
  | nil => exact ⟨[], by simp, rfl, rfl, fun _ => rfl⟩
  | cons p ps ih =>
      obtain ⟨s, hgood, hinner, hlayout⟩ := h p (by simp)
      obtain ⟨spans, hspans, htext, hliterals, hmasked⟩ := ih fun q hq => h q (by simp [hq])
      have hsame : s.literals = p.literals := by
        rw [Span.literals, hinner]
        rfl
      have hwhole := hlayout p.clause.inner id
      have hshown (k : Nat) := hlayout (Mask.textFrom k (tiles p.clause.inner)) fun h => by
        rw [h]
        rfl
      rw [withInner, Clause.withInner_inner, ← hinner] at hwhole
      refine ⟨s :: spans, ?_, ?_, ?_, fun k => ?_⟩
      · simpa using ⟨hgood, hspans⟩
      · rw [List.flatMap_cons, List.flatMap_cons, htext, Span.text, ← hwhole]
      · rw [List.flatMap_cons, List.flatMap_cons, hliterals, hsame]
      · rw [Span.maskedAll, shown, List.flatMap_cons, hmasked, hsame, hshown, Span.masked, hinner]

/-- Masking a source of fragments. -/
theorem ofText_layout (h : ∀ p ∈ ps, Framed layout p) :
    Mask.ofText (ps.flatMap layout) = ⟨(shown 0 ps).flatMap layout, ps.flatMap literals⟩ := by
  obtain ⟨spans, hspans, htext, hliterals, hmasked⟩ := exists_spans h
  rw [← htext, Span.ofText_spans hspans, hmasked, hliterals]

theorem closed_layout (h : ∀ p ∈ ps, Framed layout p) : ClosedCode (ps.flatMap layout) := by
  obtain ⟨spans, hspans, htext, -, -⟩ := exists_spans h
  rw [← htext]
  exact Span.closed_spans hspans

end Layouts

end Placed

end Stencil
