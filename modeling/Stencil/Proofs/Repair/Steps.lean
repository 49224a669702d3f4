import Stencil.Proofs.BlockHead
import Stencil.Repair
/-!
# Repair step by step

Repair passes over a character, passes over a head that opens its block, or puts a brace in after a
head. What it writes does not depend on the literals; only the reported heads show them.
-/
namespace Stencil.Repair

open Symbol

/-- A head with its parenthesised condition, as written before the text after it. -/
structure Written (keyword written : Text) : Prop where
  isKeyword : BlockHead.IsKeyword keyword
  split : ∃ b condition, Text.Blank b ∧ written = keyword ++ (b ++ '(' :: (condition ++ [')']))

/-- What is put in before an `else if` whose block is still open. -/
def lead (head : BlockHead) (before : Text) : Text :=
  if head.isElse && (before.dropWhile isBlank).head? != some '}' then ['}', ' '] else []

/-- The text up to the brace put in after a head, read backwards. -/
def opened (head : BlockHead) (before written : Text) : Text :=
  '{' :: (written.reverse ++ ((lead head before).reverse ++ before))

/-- Whether the brace would stay open. -/
def staysOpen (before after : Text) : Bool := 0 < balance (before.reverse ++ after)

theorem balance_append (s t : Text) : balance (s ++ t) = balance s + balance t := by
  induction s with
  | nil => simp [balance]
  | cons c s ih =>
      rw [List.cons_append, balance, balance, ih]
      omega

section Steps

variable {m : Mask} {before t condition after written : Text} {head : BlockHead}

/-- A head and its group are what the text begins with. -/
theorem exists_written (h : BlockHead.read? before.head? t = some head)
    (hs : Text.splitGroup? '(' ')' 0 head.afterOpen = some (condition, after)) :
    ∃ written, Written head.keyword written ∧ t = written ++ after := by
  obtain ⟨keyword, afterOpen⟩ := head
  obtain ⟨-, hkey, b, hb, rfl⟩ := BlockHead.read?_eq_some.mp h
  obtain ⟨hopen, -⟩ := (Text.splitGroup?_eq_some (by decide)).mp hs
  dsimp only at hopen
  subst hopen
  exact ⟨keyword ++ (b ++ '(' :: (condition ++ [')'])), ⟨hkey, b, condition, hb, rfl⟩, by simp⟩

theorem repairFrom_pass {c : Char} {cs : Text}
    (h : BlockHead.read? before.head? (c :: cs) = none) :
    repairFrom m before (c :: cs) = repairFrom m (c :: before) cs := by
  rw [repairFrom]
  split
  · rfl
  · rename_i hhead
    rw [h] at hhead
    simp at hhead

theorem repairFrom_stop (h : BlockHead.read? before.head? t = some head)
    (hs : Text.splitGroup? '(' ')' 0 head.afterOpen = none) :
    repairFrom m before t = (before.reverse ++ t, []) := by
  cases t with
  | nil => rw [repairFrom, List.append_nil]
  | cons c cs =>
      rw [repairFrom]
      split
      · rename_i hhead
        rw [h] at hhead
        simp at hhead
      · rename_i hhead
        rw [h, Option.some.injEq] at hhead
        subst hhead
        split
        · rfl
        · rename_i hgroup
          rw [hs] at hgroup
          simp at hgroup

theorem repairFrom_head (h : BlockHead.read? before.head? (written ++ after) = some head)
    (hs : Text.splitGroup? '(' ')' 0 head.afterOpen = some (condition, after)) :
    repairFrom m before (written ++ after) =
      if opensBlock after then repairFrom m (written.reverse ++ before) after
      else
        let further := repairFrom m (opened head before written)
          (closeIf (staysOpen (opened head before written) after) after)
        (further.1, ⟨m.restore written, staysOpen (opened head before written) after⟩ ::
          further.2) := by
  have hread := Text.take_read written after
  generalize written ++ after = t at h hread ⊢
  cases t with
  | nil =>
      obtain ⟨keyword, afterOpen⟩ := head
      obtain ⟨-, -, b, -, hnil⟩ := BlockHead.read?_eq_some.mp h
      simp at hnil
  | cons c cs =>
      rw [repairFrom]
      split
      · rename_i hhead
        rw [h] at hhead
        simp at hhead
      · rename_i hhead
        rw [h, Option.some.injEq] at hhead
        subst hhead
        split
        · rename_i hgroup
          rw [hs] at hgroup
          simp at hgroup
        · rename_i hgroup
          rw [hs, Option.some.injEq, Prod.mk.injEq] at hgroup
          obtain ⟨-, rfl⟩ := hgroup
          rw [hread]
          rfl

end Steps

/-- A property of every place that repair comes to, shown from the end of the text. -/
theorem repairFrom_induct {motive : Text → Text → Prop} (nil : ∀ before, motive before [])
    (pass : ∀ before c cs, BlockHead.read? before.head? (c :: cs) = none →
      motive (c :: before) cs → motive before (c :: cs))
    (stop : ∀ before t head, BlockHead.read? before.head? t = some head →
      Text.splitGroup? '(' ')' 0 head.afterOpen = none → motive before t)
    (opens : ∀ before written after head condition, Written head.keyword written →
      BlockHead.read? before.head? (written ++ after) = some head →
      Text.splitGroup? '(' ')' 0 head.afterOpen = some (condition, after) →
      opensBlock after = true → motive (written.reverse ++ before) after →
      motive before (written ++ after))
    (puts : ∀ before written after head condition, Written head.keyword written →
      BlockHead.read? before.head? (written ++ after) = some head →
      Text.splitGroup? '(' ')' 0 head.afterOpen = some (condition, after) →
      opensBlock after = false →
      motive (opened head before written)
        (closeIf (staysOpen (opened head before written) after) after) →
      motive before (written ++ after))
    (before t : Text) : motive before t := by
  -- the repaired text does not matter for the places, so any mask will do
  refine repairFrom.induct ⟨[], []⟩ motive nil pass ?_ ?_ ?_ before t
  · intro before c cs head h hs
    exact stop before _ head h hs
  · intro before c cs head h condition after hs _ read hopens ih
    obtain ⟨written, hw, ht⟩ := exists_written h hs
    have hread : read = written := by
      show (c :: cs).take ((c :: cs).length - after.length) = written
      rw [ht, Text.take_read]
    rw [hread] at ih
    rw [ht] at h ⊢
    exact opens before written after head condition hw h hs hopens ih
  · intro before c cs head h condition after hs _ read hopens _ _ _ _ _ _ _ ih
    obtain ⟨written, hw, ht⟩ := exists_written h hs
    have hread : read = written := by
      show (c :: cs).take ((c :: cs).length - after.length) = written
      rw [ht, Text.take_read]
    rw [ht] at h ⊢
    refine puts before written after head condition hw h hs (by simpa using hopens) ?_
    rw [← hread]
    exact ih

/-! ## Repair without literals -/

theorem restore_without_literals (t : Text) : Mask.restore ⟨[], []⟩ t = t := by
  have hrule : Rule.Advances (Mask.restoreRule ⟨[], []⟩) := by
    intro before t new rest h
    obtain ⟨⟨digits, rest₀⟩, hp, hnew⟩ := Option.map_eq_some_iff.mp h
    rw [Prod.mk.injEq] at hnew
    obtain ⟨-, rfl⟩ := hnew
    exact ⟨Mask.opening :: (digits ++ [Mask.closing]), by simp, by
      rw [(placeholder?_eq_some.mp hp).1]
      simp⟩
  refine Text.replaceFrom_self hrule fun u v new rest _ h => ?_
  obtain ⟨⟨digits, rest₀⟩, hp, hnew⟩ := Option.map_eq_some_iff.mp h
  rw [Prod.mk.injEq] at hnew
  obtain ⟨rfl, rfl⟩ := hnew
  have hliteral : Mask.literal? ⟨[], []⟩ digits = none := by
    rw [Mask.literal?]
    cases Mask.index? digits <;> rfl
  rw [(placeholder?_eq_some.mp hp).1, hliteral]
  simp

/-- The literals are shown in the reported heads and nowhere else. -/
theorem repairFrom_restore (m : Mask) (before t : Text) :
    repairFrom m before t =
      ((repairFrom ⟨[], []⟩ before t).1, (repairFrom ⟨[], []⟩ before t).2.map fun r =>
        { r with head := m.restore r.head }) := by
  refine repairFrom_induct (motive := fun before t => repairFrom m before t =
      ((repairFrom ⟨[], []⟩ before t).1, (repairFrom ⟨[], []⟩ before t).2.map fun r =>
        { r with head := m.restore r.head })) ?_ ?_ ?_ ?_ ?_ before t
  · intro before
    rw [repairFrom, repairFrom]
    rfl
  · intro before c cs h ih
    rw [repairFrom_pass h, repairFrom_pass h, ih]
  · intro before t head h hs
    rw [repairFrom_stop h hs, repairFrom_stop h hs]
    rfl
  · intro before written after head condition _ h hs hopens ih
    rw [repairFrom_head h hs, repairFrom_head h hs, if_pos hopens, if_pos hopens, ih]
  · intro before written after head condition _ h hs hopens ih
    rw [repairFrom_head h hs, repairFrom_head h hs, if_neg (by simp [hopens]),
      if_neg (by simp [hopens]), ih, restore_without_literals]
    rfl

/-! ## The marks of a repaired text -/

theorem Written.bare_ends {keyword written : Text} (h : Written keyword written) :
    ∃ c w, written = c :: (w ++ [')']) ∧ isMarkChar c = false := by
  obtain ⟨hkey, b, condition, -, rfl⟩ := h
  have hbare := hkey.bare
  have hne : keyword ≠ [] := by
    cases hkey with
    | plain hw =>
        simp only [List.mem_cons, List.not_mem_nil, or_false] at hw
        rcases hw with rfl | rfl | rfl <;> decide
    | branch _ => simp
  obtain ⟨c, cs, rfl⟩ := List.exists_cons_of_ne_nil hne
  exact ⟨c, cs ++ (b ++ '(' :: condition), by simp, (bare_cons.mp hbare).1⟩

private theorem respells_closeStatement (depth : Int) (t : Text) :
    Respells t (closeStatement depth t) := by
  induction t generalizing depth with
  | nil => exact .extend (show Mask.opening ∉ ['}'] by decide)
  | cons c cs ih =>
      rw [closeStatement]
      split
      · rename_i hc
        rw [hc.1]
        have hold : ([';'] : Text) ≠ [] := by simp
        exact .swap hold (by decide) (show Mask.opening ∉ [';', '}'] by decide) (.refl cs)
      · exact (ih _).keep c

private theorem respells_closeIf (wanted : Bool) (t : Text) : Respells t (closeIf wanted t) := by
  cases wanted with
  | true => exact respells_closeStatement 0 t
  | false => exact .refl t

private theorem respells_put {head : BlockHead} {before written after after' : Text}
    (h : Written head.keyword written) (hafter : Respells after after') :
    Respells (before.reverse ++ (written ++ after))
      ((opened head before written).reverse ++ after') := by
  obtain ⟨c, w, rfl, hc⟩ := h.bare_ends
  have hlead : Mask.opening ∉ lead head before ++ [c] := by
    have hc' := ne_opening_of_not_markChar hc
    unfold lead
    split
    · simpa using ⟨by decide, by decide, hc'.symm⟩
    · simpa using hc'.symm
  have hclose : ([')'] : Text) ≠ [] := by simp
  have hfirst : [c] ≠ [] := by simp
  have h1 := Respells.swap hclose (by decide) (show Mask.opening ∉ [')', '{'] by decide) hafter
  have h2 := Respells.swap hfirst (by simpa [Bare] using hc) hlead (h1.prepend w)
  have h3 := h2.prepend before.reverse
  simpa [opened] using h3

/-- A repaired text has the marks of the text, and so have the reported heads, in order. -/
theorem exists_spell_repairFrom {indices : List Nat} (before t : Text)
    (h : ∃ s, spell s = before.reverse ++ t ∧ marks s = indices ∧ Legible s) :
    (∃ s, spell s = (repairFrom ⟨[], []⟩ before t).1 ∧ marks s = indices ∧ Legible s) ∧
      ∀ r ∈ (repairFrom ⟨[], []⟩ before t).2,
        ∃ s, spell s = r.head ∧ marks s <:+: indices ∧ Legible s := by
  revert h
  refine repairFrom_induct (motive := fun before t =>
    (∃ s, spell s = before.reverse ++ t ∧ marks s = indices ∧ Legible s) →
    (∃ s, spell s = (repairFrom ⟨[], []⟩ before t).1 ∧ marks s = indices ∧ Legible s) ∧
      ∀ r ∈ (repairFrom ⟨[], []⟩ before t).2,
        ∃ s, spell s = r.head ∧ marks s <:+: indices ∧ Legible s) ?_ ?_ ?_ ?_ ?_ before t
  · rintro before ⟨s, hs, hm, hl⟩
    rw [repairFrom]
    exact ⟨⟨s, by rw [hs, List.append_nil], hm, hl⟩, by simp⟩
  · rintro before c cs hread ih ⟨s, hs, hm, hl⟩
    rw [repairFrom_pass hread]
    exact ih ⟨s, by rw [hs]; simp, hm, hl⟩
  · rintro before t head hread hgroup ⟨s, hs, hm, hl⟩
    rw [repairFrom_stop hread hgroup]
    exact ⟨⟨s, hs, hm, hl⟩, by simp⟩
  · rintro before written after head condition - hread hgroup hopens ih ⟨s, hs, hm, hl⟩
    rw [repairFrom_head hread hgroup, if_pos hopens]
    exact ih ⟨s, by rw [hs]; simp, hm, hl⟩
  · rintro before written after head condition hw hread hgroup hopens ih ⟨s, hs, hm, hl⟩
    rw [repairFrom_head hread hgroup, if_neg (by simp [hopens]), restore_without_literals]
    obtain ⟨s', hs', hm', hl'⟩ := respells_put hw
      (respells_closeIf (staysOpen (opened head before written) after) after) [] s hl hs
    obtain ⟨htext, hheads⟩ := ih ⟨s', hs', hm'.trans hm, hl'⟩
    refine ⟨htext, List.forall_mem_cons.mpr ⟨?_, hheads⟩⟩
    obtain ⟨c, w, rfl, hc⟩ := hw.bare_ends
    rw [← hm]
    exact exists_stretch hc (by decide) hl hs

end Stencil.Repair
