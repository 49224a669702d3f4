import Stencil.Text.Blank
/-!
# Steps that can fail

A program that counts with places in a text can ask for a place that is not there, take more from a
count than it holds, or turn around in a loop for ever. Here each of these gives no result, so that
to have one is to have done none of them.
-/
namespace Stencil.Checked

/-- The difference of two counts, where it is one: no count goes below zero. -/
def less? (count taken : Nat) : Option Nat := if taken ≤ count then some (count - taken) else none

theorem less?_eq_some {count taken : Nat} (h : taken ≤ count) :
    less? count taken = some (count - taken) := if_pos h

@[simp] theorem less?_succ (count : Nat) : less? (count + 1) 1 = some count :=
  less?_eq_some (Nat.le_add_left 1 count)

/-- The characters from one place up to another, where both are places of the text and in this
order. -/
def slice? (t : Text) (start stop : Nat) : Option Text :=
  if start ≤ stop ∧ stop ≤ t.length then some ((t.take stop).drop start) else none

theorem slice?_eq_some {t : Text} {start stop : Nat} (horder : start ≤ stop)
    (hstop : stop ≤ t.length) : slice? t start stop = some ((t.take stop).drop start) :=
  if_pos ⟨horder, hstop⟩

/-! ## Loops -/

/-- What a turn of a loop ends in: the loop goes on, or it is left with a result. -/
inductive Turn (σ ρ : Type) where
  | next (state : σ)
  | leave (result : ρ)

variable {σ ρ : Type}

/-- A loop of at most so many turns. Where a turn has no result, or where the loop has not been left
by then, neither has the loop. -/
def loop? (turn? : σ → Option (Turn σ ρ)) : Nat → σ → Option ρ
  | 0, _ => none
  | turns + 1, state =>
    match turn? state with
    | some (.next state) => loop? turn? turns state
    | some (.leave result) => some result
    | none => none

/-- Where every turn that starts from a state due to end in a result either ends in it, or comes
closer to the end in a state that is due to end in it too, the loop ends in it. -/
theorem loop?_eq_some {turn? : σ → Option (Turn σ ρ)} (remains : σ → Nat) (due : σ → ρ → Prop)
    (hturn : ∀ state result, due state result → turn? state = some (.leave result) ∨
      ∃ state', turn? state = some (.next state') ∧ remains state' < remains state ∧
        due state' result)
    {turns : Nat} {state : σ} {result : ρ} (hdue : due state result)
    (hturns : remains state < turns) : loop? turn? turns state = some result := by
  induction turns generalizing state with
  | zero => omega
  | succ turns ih =>
      rw [loop?]
      rcases hturn state result hdue with hleave | ⟨state', hnext, hcloser, hdue'⟩
      · rw [hleave]
      · rw [hnext]
        exact ih hdue' (by omega)

/-! ## Places -/

/-- A place cuts the source into what is behind it and what is ahead. -/
structure At (source : Text) (place : Nat) (ahead : Text) : Prop where
  drop : source.drop place = ahead
  inside : place ≤ source.length

namespace At

variable {source ahead : Text} {place : Nat} {c : Char}

theorem length (h : At source place ahead) : source.length = place + ahead.length := by
  have := h.inside
  rw [← h.drop, List.length_drop]
  omega

theorem getElem? (h : At source place ahead) (n : Nat) : source[place + n]? = ahead[n]? := by
  rw [← h.drop, List.getElem?_drop]

theorem first (h : At source place (c :: ahead)) : source[place]? = some c := h.getElem? 0

theorem lt (h : At source place (c :: ahead)) : place < source.length := by
  rw [h.length, List.length_cons]
  omega

/-- The place after some characters. -/
theorem add {read : Text} (h : At source place (read ++ ahead)) :
    At source (place + read.length) ahead where
  drop := by rw [← List.drop_drop, h.drop, List.drop_left]
  inside := by
    rw [h.length, List.length_append]
    omega

theorem skip (h : At source place ahead) {n : Nat} (hn : n ≤ ahead.length) :
    At source (place + n) (ahead.drop n) where
  drop := by rw [← List.drop_drop, h.drop]
  inside := by
    rw [h.length]
    omega

theorem next (h : At source place (c :: ahead)) : At source (place + 1) ahead := by
  have hread : At source place ([c] ++ ahead) := h
  exact hread.add

/-- Between two places stands the text that is ahead of the first and not of the second. -/
theorem exists_read {rest : Text} {stop : Nat} (h : At source place ahead)
    (hstop : At source stop rest) (hle : place ≤ stop) : ∃ read, ahead = read ++ rest ∧ stop = place + read.length := by
  have hrest : ahead.drop (stop - place) = rest := by
    rw [← h.drop, List.drop_drop, Nat.add_sub_cancel' hle, hstop.drop]
  have hlength := h.length
  have hinside := hstop.inside
  refine ⟨ahead.take (stop - place), by rw [← hrest, List.take_append_drop], ?_⟩
  rw [List.length_take]
  omega

theorem slice? {read : Text} (h : At source place (read ++ ahead)) :
    slice? source place (place + read.length) = some read := by
  rw [slice?_eq_some (Nat.le_add_right _ _) h.add.inside, List.drop_take, h.drop,
    Nat.add_sub_cancel_left, List.take_left]

end At

end Stencil.Checked
