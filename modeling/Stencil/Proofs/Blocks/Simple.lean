import Stencil.Proofs.Blocks.Colons
import Stencil.Proofs.Body.Source
/-!
# Simple code

The normal form leaves a text of its own to each clause, if that text is simple. What makes it simple
in a source it also is in the mask of the source.
-/
namespace Stencil

open Normalize Tile

/-! ## Code in a source -/

/-- Closed code with no punctuation outside its literals, and no word of a block or call that emits
nothing. -/
structure SimpleCode (c : Text) : Prop extends ClosedCode c where
  noStop : ∀ d ∈ (Mask.ofText c).text, isStop d = false
  wordless : Wordless (Mask.ofText c).text
  callFree : NoEmptyCall c

structure SimpleCondition (c : Text) : Prop extends SimpleCode c where
  balanced : Text.Balanced '(' ')' (Mask.ofText c).text

structure SimpleStatement (c : Text) : Prop extends SimpleCode c where
  ne_nil : c ≠ []
  front : Text.Flush c
  back : Text.Flush c.reverse
  noParen : c.head? ≠ some '('

instance (c : Text) : Decidable (SimpleCode c) :=
  decidable_of_iff (ClosedCode c ∧ (∀ d ∈ (Mask.ofText c).text, isStop d = false) ∧
      Wordless (Mask.ofText c).text ∧ NoEmptyCall c)
    ⟨fun ⟨h1, h2, h3, h4⟩ => ⟨h1, h2, h3, h4⟩,
      fun h => ⟨h.toClosedCode, h.noStop, h.wordless, h.callFree⟩⟩

instance (c : Text) : Decidable (SimpleCondition c) :=
  decidable_of_iff (SimpleCode c ∧ Text.Balanced '(' ')' (Mask.ofText c).text)
    ⟨fun h => ⟨h.1, h.2⟩, fun h => ⟨h.toSimpleCode, h.balanced⟩⟩

instance (c : Text) : Decidable (SimpleStatement c) :=
  decidable_of_iff (SimpleCode c ∧ c ≠ [] ∧ Text.Flush c ∧ Text.Flush c.reverse ∧
      c.head? ≠ some '(')
    ⟨fun ⟨h1, h2, h3, h4, h5⟩ => ⟨h1, h2, h3, h4, h5⟩,
      fun h => ⟨h.toSimpleCode, h.ne_nil, h.front, h.back, h.noParen⟩⟩

section Shown

variable {c : Text} {m : Mask} {k : Nat}

theorem SimpleCode.loose (h : SimpleCode c) (hm : Holds m k c) :
    Loose m (Mask.textFrom k (tiles c)) := by
  refine ⟨fun d hd => ?_, wordless_textFrom k h.wordless,
    callFree_textFrom (Symbol.plain_of_code h.code h.legible) hm h.callFree⟩
  by_cases hmark : Symbol.isMarkChar d = true
  · cases hs : isStop d with
    | false => rfl
    | true =>
        simp only [isStop, Bool.or_eq_true, beq_iff_eq] at hs
        rcases hs with (rfl | rfl) | rfl <;> exact absurd hmark (by decide)
  · rw [Bool.not_eq_true] at hmark
    exact h.noStop d ((Symbol.mem_textFrom hmark k _).mp hd)

theorem SimpleCondition.shown (h : SimpleCondition c) (hm : Holds m k c) :
    Condition m (Mask.textFrom k (tiles c)) := by
  refine ⟨h.loose hm, ?_⟩
  have hbalanced := h.balanced
  rw [Text.Balanced, Mask.ofText, ← Symbol.spell_number] at hbalanced
  rw [Text.Balanced, Symbol.textFrom_eq_spell, Symbol.nest?_spell_shift (by decide) (by decide)]
  exact hbalanced

theorem SimpleStatement.shown (h : SimpleStatement c) (hm : Holds m k c) :
    Statement m (Mask.textFrom k (tiles c)) := by
  have hhead := head?_textFrom h.code k
  rw [flatMap_text] at hhead
  refine ⟨h.loose hm, fun hnil => ?_, flush_textFrom h.code (by rw [flatMap_text]; exact h.front) k,
    flush_reverse_textFrom h.code (by rw [flatMap_text]; exact h.back) k, fun hparen => ?_⟩
  · rw [hnil] at hhead
    obtain ⟨d, ds, hd⟩ := List.exists_cons_of_ne_nil h.ne_nil
    simp [hd] at hhead
  · rcases hhead with he | he <;> rw [he] at hparen
    · exact h.noParen hparen
    · exact absurd hparen (by decide)

end Shown

/-! ## Fragments -/

/-- What is asked of the texts of a clause in a source. -/
def Clause.Sound : Clause Text → Prop
  | .leaf t => SimpleStatement t
  | .head _ t | .elseIf t => SimpleCondition t
  | _ => True

theorem Clause.Sound.code {x : Clause Text} (h : x.Sound) : ClosedCode x.inner := by
  cases x with
  | leaf t => exact (show SimpleStatement t from h).toClosedCode
  | head kind t => exact (show SimpleCondition t from h).toClosedCode
  | elseIf t => exact (show SimpleCondition t from h).toClosedCode
  | otherwise => exact closedCode_nil
  | close kind => exact closedCode_nil

theorem Clause.Sound.tame {m : Mask} {k : Nat} {x : Clause Text} (h : x.Sound)
    (hm : Holds m k x.inner) : Tame m (x.withInner (Mask.textFrom k (tiles x.inner))) := by
  cases x with
  | leaf t => exact SimpleStatement.shown h hm
  | head kind t => exact SimpleCondition.shown h hm
  | elseIf t => exact SimpleCondition.shown h hm
  | otherwise => trivial
  | close kind => trivial

/-- A fragment of a source. -/
structure Placed.Sound (p : Placed) : Prop where
  before : Text.Blank p.before
  after : Text.Blank p.after
  clause : p.clause.Sound

/-- A fragment of a source fits its mask. -/
theorem Placed.Sound.fits {m : Mask} {p q : Placed} (h : p.Sound) (hq : p.Shows m q) : q.Fits m := by
  obtain ⟨k, hm, rfl⟩ := hq
  exact ⟨h.before, h.after, h.clause.tame hm⟩

/-- A layout that comes to the canonical form in every mask comes to it in the source. -/
theorem normalize_layout {layout : Placed → Text} {ps : List Placed} (h : ∀ p ∈ ps, p.Sound)
    (hlayout : ∀ p ∈ ps, p.Framed layout)
    (hcanonical : ∀ p ∈ ps, p.Framed fun p => p.clause.canonical)
    (hnormal : ∀ (m : Mask) (qs : List Placed), (∀ q ∈ qs, q.Fits m) →
      collapse m (toBraces (qs.flatMap layout)) = qs.flatMap fun q => q.clause.canonical) :
    normalize (ps.flatMap layout) = ps.flatMap fun p => p.clause.canonical := by
  have hmask := Placed.ofText_layout hlayout
  have hmask' := Placed.ofText_layout hcanonical
  have hrestore := (Placed.closed_layout hcanonical).restore
    (m := Mask.ofText (ps.flatMap layout)) (by rw [hmask, hmask'])
  have hfits : ∀ q ∈ Placed.shown 0 ps, q.Fits (Mask.ofText (ps.flatMap layout)) := by
    intro q hq
    have hshown := @Placed.shows_shown (Mask.ofText (ps.flatMap layout)) ps [] (by rw [hmask]; rfl)
    obtain ⟨p, hp, hpq⟩ := Placed.exists_shows hshown q hq
    exact (h p hp).fits hpq
  have hpass := hnormal _ _ hfits
  have htext : (Mask.ofText (ps.flatMap layout)).text = (Placed.shown 0 ps).flatMap layout := by
    rw [hmask]
  rw [hmask'] at hrestore
  rw [normalize, htext, hpass]
  exact hrestore

end Stencil
