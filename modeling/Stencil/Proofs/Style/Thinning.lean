import Stencil.Style
import Stencil.Proofs.Text.Reading
import Stencil.Proofs.Text.Replacement
import Mathlib.Data.List.Chain
/-!
# Thinning out white space

Apart from comments, the compressed style takes white space only, and it does not take it just
anywhere: a run shrinks to one blank, or it goes between two tags, beside a quote, or at an end of
the text. Every pass after the first thins its text in this sense. What thinning cannot undo is
proved here once for all the passes.
-/
namespace Stencil

namespace Style

open Text

/-- The places where white space may go altogether: between two tags, beside a quote, at an end. -/
def Seam (before after : Option Char) : Prop :=
  (before = some '>' ∧ after = some '<') ∨ before = some '"' ∨ after = some '"' ∨
    before = none ∨ after = none

/-- The second text is the first with white space thinned out, after the given character. -/
inductive Thins : Option Char → Text → Text → Prop
  | nil (before : Option Char) : Thins before [] []
  | keep {before : Option Char} (c : Char) {t t' : Text} :
      Thins (some c) t t' → Thins before (c :: t) (c :: t')
  | drop {before : Option Char} {gap t t' : Text} :
      gap ≠ [] → Blank gap → Seam before t'.head? → Thins before t t' → Thins before (gap ++ t) t'
  | blank {before : Option Char} {gap t t' : Text} :
      gap ≠ [] → Blank gap → Thins (lastOr before gap) t t' → Thins before (gap ++ t) (' ' :: t')

/-- No character of the word is blank, and no place inside it is a seam. -/
def Tight (word : Text) : Prop :=
  (∀ c ∈ word, isBlank c = false) ∧ word.IsChain fun c d => ¬ Seam (some c) (some d)

/-- White space stands nowhere between the end of a tag and the start of another. -/
def Gapless (t : Text) : Prop :=
  ∀ u gap v, t = u ++ '>' :: (gap ++ '<' :: v) → Blank gap → gap = []

/-- Every run of white space is a single blank. -/
def Spaced (t : Text) : Prop :=
  ∀ u c v, t = u ++ c :: v → isBlank c = true → c = ' ' ∧ Flush v

theorem Spaced.of_append {s t : Text} (h : Spaced (s ++ t)) : Spaced t := by
  intro u c v ht hc
  apply h (s ++ u) c v _ hc
  rw [ht, List.append_assoc]

theorem spaced_cons {c : Char} {t : Text} (hc : isBlank c = true → c = ' ' ∧ Flush t)
    (ht : Spaced t) : Spaced (c :: t) := by
  intro u d v h hd
  cases u with
  | nil =>
      rw [List.nil_append, List.cons.injEq] at h
      rw [← h.1, ← h.2]
      apply hc
      rw [h.1]
      exact hd
  | cons e u =>
      rw [List.cons_append, List.cons.injEq] at h
      exact ht u d v h.2 hd

/-- A run of white space in a text with single blanks is one blank. -/
theorem Spaced.run {gap t : Text} (h : Spaced (gap ++ t)) (hne : gap ≠ []) (hgap : Blank gap) :
    gap = [' '] ∧ Flush t := by
  cases gap with
  | nil => exact absurd rfl hne
  | cons c gap =>
      rw [blank_cons] at hgap
      have hc := h [] c (gap ++ t) rfl hgap.1
      cases gap with
      | nil => exact ⟨by rw [hc.1], hc.2⟩
      | cons d gap =>
          rw [blank_cons] at hgap
          have hd := hc.2
          rw [List.cons_append, flush_cons, hgap.2.1] at hd
          contradiction

namespace Thins

variable {before : Option Char} {t t' : Text}

/-- A text in front of another one may stay as it is. -/
theorem prepend (s : Text) (h : Thins (lastOr before s) t t') : Thins before (s ++ t) (s ++ t') := by
  induction s generalizing before with
  | nil => exact h
  | cons c s ih => exact keep c (ih h)

/-- A gap of any length may go at a seam. -/
theorem dropAny {gap : Text} (hgap : Blank gap) (hseam : Seam before t'.head?)
    (h : Thins before t t') : Thins before (gap ++ t) t' := by
  by_cases hne : gap = []
  · rw [hne]
    exact h
  · exact drop hne hgap hseam h

/-- Thinning keeps what is not white space, and its order. -/
theorem content (h : Thins before t t') :
    (t'.filter fun c => !isBlank c) = t.filter fun c => !isBlank c := by
  have gone {gap : Text} (hgap : Blank gap) : (gap.filter fun c => !isBlank c) = [] := by
    rw [List.filter_eq_nil_iff]
    intro c hc
    simp [hgap c hc]
  induction h with
  | nil => rfl
  | keep c _ ih => rw [List.filter_cons, List.filter_cons, ih]
  | drop _ hgap _ _ ih => rw [List.filter_append, gone hgap, ih, List.nil_append]
  | blank _ hgap _ ih =>
      rw [List.filter_append, gone hgap, List.filter_cons_of_neg (by decide), ih, List.nil_append]

/-! ## From the text to the thinned one -/

theorem of_cons {c : Char} (hc : isBlank c = false) (h : Thins before (c :: t) t') :
    ∃ r', t' = c :: r' ∧ Thins (some c) t r' := by
  have absent {gap r : Text} (hne : gap ≠ []) (hgap : Blank gap) (ht : gap ++ r = c :: t) :
      False := by
    cases gap with
    | nil => exact hne rfl
    | cons d gap =>
        rw [List.cons_append, List.cons.injEq] at ht
        rw [blank_cons, ht.1, hc] at hgap
        simp at hgap
  generalize hs : c :: t = s at h
  cases h with
  | nil => simp at hs
  | keep d h =>
      rw [List.cons.injEq] at hs
      obtain ⟨rfl, rfl⟩ := hs
      exact ⟨_, rfl, h⟩
  | drop hne hgap => exact (absent hne hgap hs.symm).elim
  | blank hne hgap => exact (absent hne hgap hs.symm).elim

/-- A word that is no white space stays together. -/
theorem of_word {word : Text} (hword : ∀ c ∈ word, isBlank c = false)
    (h : Thins before (word ++ t) t') : ∃ r', t' = word ++ r' ∧ Thins (lastOr before word) t r' := by
  induction word generalizing before t' with
  | nil => exact ⟨t', rfl, h⟩
  | cons c word ih =>
      obtain ⟨r', rfl, hrest⟩ := of_cons (hword c List.mem_cons_self) h
      obtain ⟨r', rfl, hword'⟩ := ih (fun d hd => hword d (List.mem_cons_of_mem c hd)) hrest
      exact ⟨r', rfl, hword'⟩

/-- Before what is no white space, thinning works on either side alone. -/
theorem of_append {u r : Text} (hr : Flush r) (h : Thins before (u ++ r) t') :
    ∃ before' u' r', t' = u' ++ r' ∧ Thins before' r r' := by
  -- a gap ends before the second text begins
  have cut {gap s u : Text} (hgap : Blank gap) (hs : gap ++ s = u ++ r) :
      r = [] ∨ ∃ u₁, s = u₁ ++ r := by
    rcases List.append_eq_append_iff.mp hs with ⟨x, rfl, hx⟩ | ⟨x, rfl, hx⟩
    · exact Or.inr ⟨x, hx⟩
    · cases x with
      | nil => exact Or.inr ⟨[], hx.symm⟩
      | cons c x =>
          rw [hx, List.cons_append, flush_cons, hgap c (by simp)] at hr
          contradiction
  by_cases hne : r = []
  · rw [hne]
    exact ⟨none, t', [], by simp, nil none⟩
  · generalize hs : u ++ r = s at h
    induction h generalizing u with
    | nil => simp [hne] at hs
    | keep c h ih =>
        cases u with
        | nil =>
            rw [List.nil_append] at hs
            rw [hs]
            exact ⟨none, [], _, rfl, keep c h⟩
        | cons d u =>
            rw [List.cons_append, List.cons.injEq] at hs
            obtain ⟨b, u', r', rfl, hr'⟩ := ih hs.2
            exact ⟨b, c :: u', r', rfl, hr'⟩
    | drop _ hgap _ _ ih =>
        obtain ⟨u₁, hs₁⟩ := (cut hgap hs.symm).resolve_left hne
        exact ih hs₁.symm
    | blank _ hgap _ ih =>
        obtain ⟨u₁, hs₁⟩ := (cut hgap hs.symm).resolve_left hne
        obtain ⟨b, u', r', rfl, hr'⟩ := ih hs₁.symm
        exact ⟨b, ' ' :: u', r', rfl, hr'⟩

/-! ## From the thinned text back -/

theorem to_append {u' r' : Text} (h : Thins before t (u' ++ r')) :
    ∃ before' u r, t = u ++ r ∧ Thins before' r r' := by
  generalize hs : u' ++ r' = s at h
  induction h generalizing u' with
  | nil b =>
      rw [List.append_eq_nil_iff] at hs
      rw [hs.2]
      exact ⟨none, [], [], rfl, nil none⟩
  | @keep b c t t' h ih =>
      cases u' with
      | nil =>
          rw [List.nil_append] at hs
          rw [hs]
          exact ⟨b, [], c :: t, rfl, keep c h⟩
      | cons d u' =>
          rw [List.cons_append, List.cons.injEq] at hs
          obtain ⟨b, u, r, rfl, hr⟩ := ih hs.2
          exact ⟨b, c :: u, r, rfl, hr⟩
  | @drop b gap t t' _ _ _ _ ih =>
      obtain ⟨b, u, r, rfl, hr⟩ := ih hs
      exact ⟨b, gap ++ u, r, by rw [List.append_assoc], hr⟩
  | @blank b gap t t' hne hgap h ih =>
      cases u' with
      | nil =>
          rw [List.nil_append] at hs
          rw [hs]
          exact ⟨b, [], gap ++ t, rfl, blank hne hgap h⟩
      | cons d u' =>
          rw [List.cons_append, List.cons.injEq] at hs
          obtain ⟨b, u, r, rfl, hr⟩ := ih hs.2
          exact ⟨b, gap ++ u, r, by rw [List.append_assoc], hr⟩

/-- What stood before a character that is no white space is gone only at a seam. -/
theorem to_cons {c : Char} {r' : Text} (hc : isBlank c = false) (h : Thins before t (c :: r')) :
    ∃ gap r, t = gap ++ c :: r ∧ Blank gap ∧ (gap ≠ [] → Seam before (some c)) ∧
      Thins (some c) r r' := by
  generalize hs : c :: r' = s at h
  induction h with
  | nil => simp at hs
  | @keep b d t t' h ih =>
      rw [List.cons.injEq] at hs
      obtain ⟨rfl, rfl⟩ := hs
      exact ⟨[], t, rfl, by simp, by simp, h⟩
  | @drop b gap t t' _ hgap hseam _ ih =>
      obtain ⟨gap', r, rfl, hgap', -, h⟩ := ih hs
      rw [← hs] at hseam
      exact ⟨gap ++ gap', r, by rw [List.append_assoc], blank_append.mpr ⟨hgap, hgap'⟩,
        fun _ => hseam, h⟩
  | blank =>
      rw [List.cons.injEq] at hs
      rw [hs.1] at hc
      contradiction

/-- A blank of the thinned text stood there before, with more white space maybe. -/
theorem to_blank {c : Char} {r' : Text} (hc : isBlank c = true) (h : Thins before t (c :: r')) :
    ∃ before' gap r, t = gap ++ r ∧ gap ≠ [] ∧ Blank gap ∧ Thins before' r r' := by
  generalize hs : c :: r' = s at h
  induction h with
  | nil => simp at hs
  | @keep b d t t' h ih =>
      rw [List.cons.injEq] at hs
      obtain ⟨rfl, rfl⟩ := hs
      exact ⟨some c, [c], t, rfl, by simp, by simpa using hc, h⟩
  | @drop b gap t t' hne hgap _ _ ih =>
      obtain ⟨b', gap', r, rfl, -, hgap', h⟩ := ih hs
      exact ⟨b', gap ++ gap', r, by rw [List.append_assoc], by simp [hne],
        blank_append.mpr ⟨hgap, hgap'⟩, h⟩
  | @blank b gap t t' hne hgap h ih =>
      rw [List.cons.injEq] at hs
      obtain ⟨rfl, rfl⟩ := hs
      exact ⟨_, gap, t, rfl, hne, hgap, h⟩

/-- A tight word was together before. -/
theorem to_word {word r' : Text} (hword : Tight word) (hne : word ≠ [])
    (h : Thins before t (word ++ r')) :
    ∃ gap r, t = gap ++ (word ++ r) ∧ (gap ≠ [] → Seam before word.head?) ∧
      Thins (lastOr before word) r r' := by
  induction word generalizing before t with
  | nil => exact absurd rfl hne
  | cons c word ih =>
      obtain ⟨gap, r, rfl, -, hseam, h⟩ := to_cons (hword.1 c List.mem_cons_self) h
      cases word with
      | nil => exact ⟨gap, r, rfl, hseam, h⟩
      | cons d word =>
          have hchain := List.isChain_cons_cons.mp hword.2
          have htail : Tight (d :: word) :=
            ⟨fun e he => hword.1 e (List.mem_cons_of_mem c he), hchain.2⟩
          obtain ⟨gap', r', rfl, hseam', h⟩ := ih htail (by simp) h
          have hgap' : gap' = [] := by
            by_contra hgap'
            exact hchain.1 (hseam' hgap')
          rw [hgap']
          exact ⟨gap, r', rfl, hseam, h⟩

/-- Only white space stood before a character that only white space stands before. -/
theorem to_gap {c : Char} {gap' r' : Text} (hc : isBlank c = false) (hgap' : Blank gap')
    (h : Thins before t (gap' ++ c :: r')) :
    ∃ gap r, t = gap ++ c :: r ∧ Blank gap ∧ (gap' ≠ [] → gap ≠ []) := by
  induction gap' generalizing before t with
  | nil =>
      obtain ⟨gap, r, ht, hgap, -, -⟩ := to_cons hc h
      exact ⟨gap, r, ht, hgap, by simp⟩
  | cons d gap' ih =>
      rw [blank_cons] at hgap'
      obtain ⟨b, first, r, rfl, hne, hfirst, h⟩ := to_blank hgap'.1 h
      obtain ⟨gap, r, rfl, hgap, -⟩ := ih hgap'.2 h
      exact ⟨first ++ gap, r, by rw [List.append_assoc], blank_append.mpr ⟨hfirst, hgap⟩,
        by simp [hne]⟩

/-! ## What thinning leaves in order -/

theorem gapless (h : Thins before t t') (ht : Gapless t) : Gapless t' := by
  rintro u' gap' v' rfl hgap'
  obtain ⟨b, u, r, rfl, hr⟩ := to_append h
  obtain ⟨gap₁, r, rfl, -, -, hr⟩ := to_cons (c := '>') (by decide) hr
  obtain ⟨gap, v, rfl, hgap, hne⟩ := to_gap (c := '<') (by decide) hgap' hr
  have hnone : gap = [] := ht (u ++ gap₁) gap v (by simp) hgap
  by_contra hgap'
  exact hne hgap' hnone

theorem spaced (h : Thins before t t') (ht : Spaced t) : Spaced t' ∧ (Flush t → Flush t') := by
  induction h with
  | nil => exact ⟨ht, id⟩
  | @keep b c t t' _ ih =>
      have hrest := ih (Spaced.of_append (show Spaced ([c] ++ t) from ht))
      refine ⟨spaced_cons ?_ hrest.1, by simp⟩
      intro hc
      have hblank := ht [] c t rfl hc
      exact ⟨hblank.1, hrest.2 hblank.2⟩
  | drop hne hgap _ _ ih =>
      have hrun := ht.run hne hgap
      have hrest := ih ht.of_append
      exact ⟨hrest.1, fun _ => hrest.2 hrun.2⟩
  | blank hne hgap _ ih =>
      have hrun := ht.run hne hgap
      have hrest := ih ht.of_append
      refine ⟨spaced_cons (fun _ => ⟨rfl, hrest.2 hrun.2⟩) hrest.1, ?_⟩
      intro hflush
      rw [hrun.1] at hflush
      simpa using hflush

end Thins

end Style

end Stencil
