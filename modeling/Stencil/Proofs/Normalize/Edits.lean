import Stencil.Normalize
import Stencil.Proofs.BlockHead
import Stencil.Proofs.Mask.Settled
/-!
# Normalization as an edit

Every rule of the normal form but one only exchanges stretches of code for a few fixed texts. None of
these has a character that could open a string or a comment, or complete a call, so an edit begins
no string, no comment and no call that was not there before.
-/
namespace Stencil.Normalize

/-- What the rules write. -/
def insertions : List Text :=
  ["if (", "for (", "while (", "\x7d else if (", " \x7b", "\x7d else \x7b", "\x7b", "\x7d", ";"].map
    String.toList

/-- A stretch cut out before the rest of a text leaves no part of a word behind. -/
def Edge (old rest : Text) : Prop :=
  (Text.lastOr none old).any isWordChar = true → rest.head?.any isWordChar = false

/-- Whether a character may stand in the call of an emitting function on one literal. -/
def inCall (c : Char) : Bool :=
  "printecho()".toList.contains c || Symbol.isMarkChar c || isBlank c

/-- A stretch that has nothing to do with such calls: no character of it is one that begins a call,
as `p` does and `c` after an `e`, or ends one, and not all of them may stand in a call. -/
def Clear (old : Text) : Prop :=
  (∀ c ∈ old, ['p', 'c', ')'].contains c = false) ∧ ∃ c ∈ old, inCall c = false

/-- The new text comes from the old one by exchanging stretches of code for insertions. -/
inductive Edit : Text → Text → Prop
  | nil : Edit [] []
  | keep {t t' : Text} (c : Char) : Edit t t' → Edit (c :: t) (c :: t')
  | swap {old new t t' : Text} : Clear old → Symbol.Bare old →
      new ∈ insertions → Edge old t → Edit t t' → Edit (old ++ t) (new ++ t')

section Clear

variable {s t b : Text}

instance (old : Text) : Decidable (Clear old) := inferInstanceAs (Decidable (_ ∧ _))

theorem Clear.ne_nil (h : Clear s) : s ≠ [] := by
  obtain ⟨-, c, hc, -⟩ := h
  exact List.ne_nil_of_mem hc

theorem Clear.append (h : Clear s) (ht : ∀ c ∈ t, ['p', 'c', ')'].contains c = false) :
    Clear (s ++ t) := by
  obtain ⟨hs, c, hc, hout⟩ := h
  exact ⟨List.forall_mem_append.mpr ⟨hs, ht⟩, c, List.mem_append_left t hc, hout⟩

theorem Clear.prepend (h : Clear s) (ht : ∀ c ∈ t, ['p', 'c', ')'].contains c = false) :
    Clear (t ++ s) := by
  obtain ⟨hs, c, hc, hout⟩ := h
  exact ⟨List.forall_mem_append.mpr ⟨ht, hs⟩, c, List.mem_append_right t hc, hout⟩

theorem clear_of_blank (hb : Text.Blank b) : ∀ c ∈ b, ['p', 'c', ')'].contains c = false := by
  have hall : ∀ d ∈ ['p', 'c', ')'], isBlank d = false := by decide
  intro c hc
  rw [Bool.eq_false_iff, Ne, List.contains_iff_mem]
  intro hmem
  have hblank := hb c hc
  rw [hall c hmem] at hblank
  simp at hblank

end Clear

theorem Edit.prepend {t t' : Text} (h : Edit t t') (u : Text) : Edit (u ++ t) (u ++ t') := by
  induction u with
  | nil => exact h
  | cons c cs ih => exact .keep c ih

/-- Some edits, one after the other. -/
inductive Edited : Text → Text → Prop
  | refl (t : Text) : Edited t t
  | tail {t t' t'' : Text} : Edited t t' → Edit t' t'' → Edited t t''

private theorem opening_not_mem : ∀ new ∈ insertions, Mask.opening ∉ new := by decide

theorem Edit.respells {t t' : Text} (h : Edit t t') : Symbol.Respells t t' := by
  induction h with
  | nil => exact .refl []
  | keep c _ ih => exact ih.keep c
  | swap hold hbare hnew _ _ ih => exact .swap hold.ne_nil hbare (opening_not_mem _ hnew) ih

theorem Edited.respells {t t' : Text} (h : Edited t t') : Symbol.Respells t t' := by
  induction h with
  | refl => exact .refl t
  | tail _ he ih => exact ih.trans he.respells

/-! ## What an edit cannot bring about -/

/-- A text that has nothing in common with what the rules write: neither one beside the other nor a
part of one at an end of the other. -/
structure Foreign (w : Text) : Prop where
  ne_nil : w ≠ []
  ahead : ∀ new ∈ insertions, ∀ a b, w = a ++ b → b ≠ [] → ¬ b <+: new ∧ ¬ new <+: b
  behind : ∀ new ∈ insertions, ∀ u v, new = u ++ v → v ≠ [] → ¬ v <+: w ∧ ¬ w <+: v

private theorem exists_shared {x y : Text} (hx : x ≠ []) (h : x <+: y) : ∃ c, c ∈ x ∧ c ∈ y := by
  obtain ⟨c, cs, rfl⟩ := List.exists_cons_of_ne_nil hx
  exact ⟨c, by simp, h.subset (by simp)⟩

theorem foreign_of_not_mem {w : Text} (hne : w ≠ [])
    (h : ∀ new ∈ insertions, ∀ c ∈ new, c ∉ w) : Foreign w := by
  have hnew : ∀ new ∈ insertions, new ≠ [] := by decide
  refine ⟨hne, ?_, ?_⟩
  · rintro new hn a b rfl hb
    constructor
    · intro hp
      obtain ⟨c, h1, h2⟩ := exists_shared hb hp
      exact h new hn c h2 (by simp [h1])
    · intro hp
      obtain ⟨c, h1, h2⟩ := exists_shared (hnew new hn) hp
      exact h new hn c h1 (by simp [h2])
  · rintro new hn u v rfl hv
    constructor
    · intro hp
      obtain ⟨c, h1, h2⟩ := exists_shared hv hp
      exact h _ hn c (by simp [h1]) h2
    · intro hp
      obtain ⟨c, h1, h2⟩ := exists_shared hne hp
      exact h _ hn c (by simp [h2]) h1

/-- The word stands somewhere in the text, after a character that is accepted. -/
def Occurs (accepted : Option Char → Bool) (before : Option Char) (w t : Text) : Prop :=
  ∃ u v, t = u ++ (w ++ v) ∧ accepted (Text.lastOr before u) = true

private theorem prefix_reflect {t t' : Text} (h : Edit t t') {b : Text}
    (hb : ∀ a c, b = a ++ c → c ≠ [] → ∀ new ∈ insertions, ¬ c <+: new ∧ ¬ new <+: c)
    (hp : b <+: t') : b <+: t := by
  induction h generalizing b with
  | nil => exact hp
  | keep c _ ih =>
      cases b with
      | nil => exact List.nil_prefix
      | cons d b =>
          obtain ⟨rfl, htail⟩ := List.cons_prefix_cons.mp hp
          exact List.cons_prefix_cons.mpr
            ⟨rfl, ih (fun a e hae => hb (d :: a) e (by rw [hae, List.cons_append])) htail⟩
  | @swap old new t t' _ _ hnew _ _ _ =>
      cases b with
      | nil => exact List.nil_prefix
      | cons d b =>
          obtain ⟨h1, h2⟩ := hb [] (d :: b) rfl (by simp) new hnew
          rcases List.prefix_or_prefix_of_prefix hp (List.prefix_append new t') with h | h
          · exact absurd h h1
          · exact absurd h h2

/-- A foreign word stands in the new text only where it stood in the old one. -/
theorem Edit.reflect {t t' w : Text} (h : Edit t t') (hw : Foreign w)
    (accepted : Option Char → Bool)
    (hedge : ∀ b old rest, old ≠ [] → Edge old rest → w <+: rest →
      accepted (Text.lastOr b old) = true)
    (before before' : Option Char)
    (hbefore : w <+: t → accepted before' = true → accepted before = true)
    (ho : Occurs accepted before' w t') : Occurs accepted before w t := by
  have reflect {t t' : Text} (h : Edit t t') : w <+: t' → w <+: t :=
    prefix_reflect h fun a c ha hc new hnew => hw.ahead new hnew a c ha hc
  obtain ⟨u, v, ht, hacc⟩ := ho
  induction h generalizing u before before' with
  | nil =>
      rw [List.nil_eq_append_iff, List.append_eq_nil_iff] at ht
      exact absurd ht.2.1 hw.ne_nil
  | @keep t t' c h ih =>
      cases u with
      | nil =>
          obtain ⟨x, hx⟩ := reflect (.keep c h) ⟨v, ht.symm⟩
          exact ⟨[], x, hx.symm, hbefore ⟨x, hx⟩ hacc⟩
      | cons d u =>
          rw [List.cons_append, List.cons.injEq] at ht
          obtain ⟨rfl, ht⟩ := ht
          obtain ⟨u', v', rfl, hacc'⟩ := ih (some c) (some c) (fun _ ha => ha) u ht hacc
          exact ⟨c :: u', v', rfl, hacc'⟩
  | @swap old new t t' hold _ hnew hcut h ih =>
      have inside {x : Text} (hu : u = new ++ x) (hx : t' = x ++ (w ++ v)) :
          Occurs accepted before w (old ++ t) := by
        subst hu
        rw [Text.lastOr_append] at hacc
        obtain ⟨u', v', rfl, hacc'⟩ := ih (Text.lastOr before old) _
          (fun hp _ => hedge before old t hold.ne_nil hcut hp) x hx hacc
        exact ⟨old ++ u', v', by rw [List.append_assoc], by rw [Text.lastOr_append]; exact hacc'⟩
      rcases List.append_eq_append_iff.mp ht with ⟨x, hu, ht⟩ | ⟨x, hx, ht⟩
      · exact inside hu ht
      · by_cases hne : x = []
        · subst hne
          exact inside (x := []) (by rw [hx]; simp) (by rw [ht]; rfl)
        · -- the word would share characters with what was written
          obtain ⟨h1, h2⟩ := hw.behind new hnew u x hx hne
          have hp : x <+: w ++ v := ⟨t', ht.symm⟩
          rcases List.prefix_or_prefix_of_prefix hp (List.prefix_append w v) with h | h
          · exact absurd h h1
          · exact absurd h h2

theorem Edit.infix_of {t t' w : Text} (h : Edit t t') (hw : Foreign w) (hi : w <:+: t') : w <:+: t := by
  obtain ⟨u, v, ht⟩ := hi
  obtain ⟨u', v', ht', -⟩ := h.reflect hw (fun _ => true) (fun _ _ _ _ _ _ => rfl) none none
    (fun _ _ => rfl) ⟨u, v, by rw [← ht, List.append_assoc], rfl⟩
  exact ⟨u', v', by rw [ht', List.append_assoc]⟩

/-! ## Strings and comments -/

theorem foreign_opener {literals : List Text} {w : Text} (h : Symbol.Opener literals w) :
    Foreign w := by
  have hnew : ∀ new ∈ insertions, ∀ c ∈ new, Symbol.opens c = false := by decide
  obtain ⟨c, cs, hw, -⟩ := h.exists_cons
  refine foreign_of_not_mem (by rw [hw]; simp) fun new hn c hc hmem => ?_
  have h1 := hnew new hn c hc
  rw [h.opens c hmem] at h1
  simp at h1

theorem Edit.settled {literals : List Text} {t t' : Text} (h : Edit t t')
    (ht : Symbol.Settled literals t) : Symbol.Settled literals t' :=
  fun w hw hi => ht w hw (h.infix_of (foreign_opener hw) hi)

theorem Edited.settled {literals : List Text} {t t' : Text} (h : Edited t t')
    (ht : Symbol.Settled literals t) : Symbol.Settled literals t' := by
  induction h with
  | refl => exact ht
  | tail _ he ih => exact he.settled ih

end Stencil.Normalize
