import Stencil.Text.Replace
/-!
# Replacement as a relation

What a replacement from left to right makes of a text, piece by piece: a match gives the new text,
a stretch without a match is copied. `replaceFrom_induct` is the one induction on a replacement.
-/
namespace Stencil

namespace Text

/-- The character before a place, after a text has been read. -/
def lastOr (before : Option Char) : Text → Option Char
  | [] => before
  | c :: cs => lastOr (some c) cs

@[simp] theorem lastOr_nil (before : Option Char) : lastOr before [] = before := rfl

@[simp] theorem lastOr_cons (before : Option Char) (c : Char) (t : Text) :
    lastOr before (c :: t) = lastOr (some c) t := rfl

@[simp] theorem lastOr_append (before : Option Char) (s t : Text) :
    lastOr before (s ++ t) = lastOr (lastOr before s) t := by
  induction s generalizing before with
  | nil => rfl
  | cons c cs ih => exact ih (some c)

theorem lastOr_reverse (t : Text) : lastOr none t.reverse = t.head? := by
  cases t <;> simp

theorem lastOr_of_ne_nil {t : Text} (h : t ≠ []) (before before' : Option Char) :
    lastOr before t = lastOr before' t := by
  cases t with
  | nil => exact absurd rfl h
  | cons c cs => rfl

theorem exists_mem_lastOr (before : Option Char) (c : Char) (t : Text) :
    ∃ d ∈ c :: t, lastOr before (c :: t) = some d := by
  induction t generalizing before c with
  | nil => exact ⟨c, by simp, rfl⟩
  | cons e t ih =>
      obtain ⟨d, hd, hlast⟩ := ih (some c) e
      exact ⟨d, List.mem_cons_of_mem c hd, hlast⟩

end Text

/-- Wherever the rule applies, it reads something and leaves the rest of the text as it is. -/
def Rule.Advances (rule : Rule) : Prop :=
  ∀ {before t new rest}, rule before t = some (new, rest) → ∃ old, old ≠ [] ∧ t = old ++ rest

namespace Text

variable {rule : Rule}

theorem replaceFrom_skip (before : Option Char) (s t : Text) :
    replaceFrom rule s.length before (s ++ t) = replaceFrom rule 0 (lastOr before s) t := by
  induction s generalizing before with
  | nil => rfl
  | cons c cs ih => exact ih (some c)

@[simp] theorem replaceFrom_nil (before : Option Char) : replaceFrom rule 0 before [] = [] := rfl

theorem replaceFrom_match {before : Option Char} {old rest new : Text} (hold : old ≠ [])
    (h : rule before (old ++ rest) = some (new, rest)) :
    replaceFrom rule 0 before (old ++ rest) = new ++ replaceFrom rule 0 (lastOr before old) rest := by
  cases old with
  | nil => exact absurd rfl hold
  | cons c cs =>
      rw [List.cons_append] at h ⊢
      rw [replaceFrom, h]
      simp only [List.length_append, Nat.add_sub_cancel]
      rw [replaceFrom_skip, lastOr_cons]

theorem replaceFrom_miss {before : Option Char} {c : Char} {t : Text}
    (h : rule before (c :: t) = none) :
    replaceFrom rule 0 before (c :: t) = c :: replaceFrom rule 0 (some c) t := by
  rw [replaceFrom, h]

/-- A stretch in which the rule applies nowhere is copied. -/
theorem replaceFrom_pass {before : Option Char} {s t : Text}
    (h : ∀ u c v, s = u ++ c :: v → rule (lastOr before u) (c :: v ++ t) = none) :
    replaceFrom rule 0 before (s ++ t) = s ++ replaceFrom rule 0 (lastOr before s) t := by
  induction s generalizing before with
  | nil => rfl
  | cons c cs ih =>
      have hmiss : rule before (c :: (cs ++ t)) = none := h [] c cs rfl
      rw [List.cons_append, replaceFrom_miss hmiss,
        ih fun u d v hs => h (c :: u) d v (by rw [hs, List.cons_append])]
      rfl

/-- A property of a place and of what replacement makes of the text ahead of it. -/
theorem replaceFrom_induct (hrule : rule.Advances) {motive : Option Char → Text → Text → Prop}
    (nil : ∀ before, motive before [] [])
    (miss : ∀ before c t new, rule before (c :: t) = none → motive (some c) t new →
      motive before (c :: t) (c :: new))
    (hit : ∀ before old rest new more, old ≠ [] → rule before (old ++ rest) = some (new, rest) →
      motive (lastOr before old) rest more → motive before (old ++ rest) (new ++ more))
    (before : Option Char) (t : Text) : motive before t (replaceFrom rule 0 before t) := by
  -- on the length of the text ahead, since a match may read any number of characters
  induction hn : t.length using Nat.strongRecOn generalizing before t with
  | ind n ih =>
      cases t with
      | nil => exact nil before
      | cons c cs =>
          cases hr : rule before (c :: cs) with
          | none =>
              rw [replaceFrom_miss hr]
              exact miss before c cs _ hr (ih cs.length (by simp [← hn]) (some c) cs rfl)
          | some found =>
              obtain ⟨new, rest⟩ := found
              obtain ⟨old, hold, ht⟩ := hrule hr
              rw [ht] at hr ⊢
              rw [replaceFrom_match hold hr]
              have hlen : rest.length < n := by
                have := congrArg List.length ht
                have := List.length_pos_iff.mpr hold
                simp only [List.length_append] at *
                omega
              exact hit before old rest new _ hold hr (ih rest.length hlen _ rest rfl)

/-- A rule that puts back what it reads changes nothing. -/
theorem replaceFrom_self (hrule : rule.Advances) {before : Option Char} {t : Text}
    (h : ∀ u v new rest, t = u ++ v → rule (lastOr before u) v = some (new, rest) →
      v = new ++ rest) :
    replaceFrom rule 0 before t = t := by
  have key := replaceFrom_induct hrule
    (motive := fun before t out => (∀ u v new rest, t = u ++ v →
      rule (lastOr before u) v = some (new, rest) → v = new ++ rest) → out = t)
    (fun _ _ => rfl)
    (fun before c t new _ ih h => by
      rw [ih fun u v _ _ ht => h (c :: u) v _ _ (by rw [ht, List.cons_append])])
    (fun before old rest new more _ hr ih h => by
      have hnew : old = new := List.append_cancel_right (h [] _ new rest rfl hr)
      rw [ih fun u v _ _ ht hv => h (old ++ u) v _ _ (by rw [ht, List.append_assoc])
        (by rw [lastOr_append]; exact hv), hnew])
  exact key before t h

end Text

end Stencil
