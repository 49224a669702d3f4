import Stencil.Proofs.Repair.Steps
/-!
# The course of a repair

A repaired text holds the body and the braces that repair put in. Here every character knows where
it comes from, so that a brace of the body can be told from one that stands beside it. Forgetting
where the characters come from gives what repair writes, and leaving out what it put in gives the
body.
-/
namespace Stencil.Repair

/-- Where a character of a repaired text comes from. -/
inductive Origin where
  | written
  /-- A block put around the statement of a head. -/
  | block
  /-- An `else if` that closed the block before it and opened the next one. -/
  | branch
deriving Repr, DecidableEq

/-- A text that knows where its characters come from. -/
abbrev Marked := List (Char × Origin)

namespace Marked

def ofBody (t : Text) : Marked := t.map (·, .written)

def text (w : Marked) : Text := w.map Prod.fst

def written (w : Marked) : Text := text (w.filter (·.2 == .written))

@[simp] theorem text_nil : text [] = [] := rfl

@[simp] theorem text_cons (x : Char × Origin) (w : Marked) : text (x :: w) = x.1 :: text w := rfl

@[simp] theorem text_append (v w : Marked) : text (v ++ w) = text v ++ text w := List.map_append

@[simp] theorem text_reverse (w : Marked) : text w.reverse = (text w).reverse := List.map_reverse

@[simp] theorem text_ofBody (t : Text) : text (ofBody t) = t := by
  induction t with
  | nil => rfl
  | cons c t ih => exact congrArg (c :: ·) ih

theorem text_eq_append {w : Marked} {s t : Text} (h : text w = s ++ t) :
    ∃ u v, w = u ++ v ∧ text u = s ∧ text v = t :=
  List.map_eq_append_iff.mp h

theorem written_ofBody (t : Text) : written (ofBody t) = t := by
  induction t with
  | nil => rfl
  | cons c t ih => exact congrArg (c :: ·) ih

@[simp] theorem written_append (v w : Marked) : written (v ++ w) = written v ++ written w := by
  simp [written]

theorem written_cons (x : Char × Origin) (w : Marked) :
    written (x :: w) = if x.2 = .written then x.1 :: written w else written w := by
  by_cases h : x.2 = .written <;> simp [written, h]

end Marked

open Marked

/-- Close a block after the first statement that ends at the given depth of braces, or at the
end. -/
def closeMarked : Int → Marked → Marked
  | _, [] => [('}', .block)]
  | depth, x :: w =>
    if x.1 = ';' ∧ depth = 0 then x :: ('}', .block) :: w
    else x :: closeMarked (depth + balance [x.1]) w

@[simp] theorem text_closeMarked (depth : Int) (w : Marked) :
    text (closeMarked depth w) = closeStatement depth (text w) := by
  induction w generalizing depth with
  | nil => rfl
  | cons x w ih =>
      rw [closeMarked, text_cons, closeStatement]
      split
      · rfl
      · rw [text_cons, ih]

@[simp] theorem written_closeMarked (depth : Int) (w : Marked) :
    written (closeMarked depth w) = written w := by
  induction w generalizing depth with
  | nil => rfl
  | cons x w ih =>
      rw [closeMarked]
      split
      · rw [written_cons, written_cons, written_cons]
        rfl
      · rw [written_cons, written_cons, ih]

/-- Close a block where its brace would stay open. -/
def closeWhere (wanted : Bool) (w : Marked) : Marked := if wanted then closeMarked 0 w else w

@[simp] theorem text_closeWhere (wanted : Bool) (w : Marked) :
    text (closeWhere wanted w) = closeIf wanted (text w) := by
  cases wanted
  · rfl
  · exact text_closeMarked 0 w

@[simp] theorem written_closeWhere (wanted : Bool) (w : Marked) :
    written (closeWhere wanted w) = written w := by
  cases wanted
  · rfl
  · exact written_closeMarked 0 w

/-- One repair: a block of its own for a head, with the text after the head, or a branch that closes
the block before it, with its head. -/
inductive Put where
  | block (after : Marked)
  | branch (head : Marked)
deriving Repr, DecidableEq

/-- Whether a head begins at a place and ends there with its group, and whether it opens its
block. -/
structure HeadAt (before written after : Marked) (head : BlockHead) (opens : Bool) : Prop where
  read : BlockHead.read? (text before).head? (text (written ++ after)) = some head
  group : ∃ condition,
    Text.splitGroup? '(' ')' 0 head.afterOpen = some (condition, text after)
  opens_eq : opensBlock (text after) = opens

/-- The course of a repair from a place on, what stands before it being read backwards: the repaired
text and what was put in, in order. -/
inductive Course : Marked → Marked → Marked → List Put → Prop
  | done {before} : Course before [] before.reverse []
  | pass {before x w out puts} :
      BlockHead.read? (text before).head? (text (x :: w)) = none →
      Course (x :: before) w out puts → Course before (x :: w) out puts
  | stop {before w head} :
      BlockHead.read? (text before).head? (text w) = some head →
      Text.splitGroup? '(' ')' 0 head.afterOpen = none →
      Course before w (before.reverse ++ w) []
  | opens {before written after head out puts} : HeadAt before written after head true →
      Course (written.reverse ++ before) after out puts →
      Course before (written ++ after) out puts
  | block {before written after head out puts} : HeadAt before written after head false →
      lead head (text before) = [] →
      Course (('{', .block) :: (written.reverse ++ before))
        (closeWhere (staysOpen (opened head (text before) (text written)) (text after)) after)
        out puts →
      Course before (written ++ after) out (.block after :: puts)
  | branch {before written after head out puts} : HeadAt before written after head false →
      lead head (text before) = ['}', ' '] →
      Course (('{', .branch) :: (written.reverse ++ ((' ', .branch) :: ('}', .branch) :: before)))
        (closeWhere (staysOpen (opened head (text before) (text written)) (text after)) after)
        out puts →
      Course before (written ++ after) out (.branch written :: puts)

theorem lead_cases (head : BlockHead) (before : Text) :
    lead head before = [] ∨ lead head before = ['}', ' '] := by
  unfold lead
  split
  · exact Or.inr rfl
  · exact Or.inl rfl

/-- Every repair takes a course. -/
theorem exists_course (before w : Marked) : ∃ out puts, Course before w out puts := by
  refine repairFrom_induct (motive := fun before t => ∀ u w : Marked, text u = before →
    text w = t → ∃ out puts, Course u w out puts) ?_ ?_ ?_ ?_ ?_ (text before) (text w)
    before w rfl rfl
  · rintro _ u w rfl hw
    obtain rfl : w = [] := List.map_eq_nil_iff.mp hw
    exact ⟨_, _, .done⟩
  · rintro _ c cs h ih u w rfl hw
    obtain ⟨x, w, rfl, rfl, rfl⟩ := List.map_eq_cons_iff.mp hw
    obtain ⟨out, puts, hc⟩ := ih (x :: u) w rfl rfl
    exact ⟨out, puts, .pass h hc⟩
  · rintro _ _ head h hs u w rfl rfl
    exact ⟨_, _, .stop h hs⟩
  · rintro _ _ _ head condition - h hs hopens ih u w rfl hw
    obtain ⟨v, w, rfl, rfl, rfl⟩ := text_eq_append hw
    obtain ⟨out, puts, hc⟩ := ih (v.reverse ++ u) w (by simp) rfl
    exact ⟨out, puts, .opens ⟨by rw [text_append]; exact h, ⟨condition, hs⟩, hopens⟩ hc⟩
  · rintro _ _ _ head condition - h hs hopens ih u w rfl hw
    obtain ⟨v, w, rfl, rfl, rfl⟩ := text_eq_append hw
    have hat : HeadAt u v w head false := ⟨by rw [text_append]; exact h, ⟨condition, hs⟩, hopens⟩
    rcases lead_cases head (text u) with hlead | hlead
    · obtain ⟨out, puts, hc⟩ := ih (('{', .block) :: (v.reverse ++ u)) _
        (by simp [opened, hlead]) (text_closeWhere _ w)
      exact ⟨out, _, .block hat hlead hc⟩
    · obtain ⟨out, puts, hc⟩ := ih
        (('{', .branch) :: (v.reverse ++ ((' ', .branch) :: ('}', .branch) :: u))) _
        (by simp [opened, hlead]) (text_closeWhere _ w)
      exact ⟨out, _, .branch hat hlead hc⟩

namespace Course

variable {before w out : Marked} {puts : List Put}

/-- The course goes on past a stretch in which no head begins. -/
theorem passes {u : Marked}
    (h : ∀ i < u.length, BlockHead.read? (text ((u.take i).reverse ++ before)).head?
      (text (u.drop i ++ w)) = none)
    (hc : Course (u.reverse ++ before) w out puts) : Course before (u ++ w) out puts := by
  induction u generalizing before with
  | nil => exact hc
  | cons x u ih =>
      refine .pass (h 0 (by simp)) (ih (fun i hi => ?_) (by simpa using hc))
      have hread := h (i + 1) (by simpa using hi)
      rwa [List.take_succ_cons, List.reverse_cons, List.append_assoc, List.drop_succ_cons] at hread

/-- What the course comes to is what repair writes. -/
theorem text_eq (h : Course before w out puts) (m : Mask) :
    (repairFrom m (text before) (text w)).1 = text out := by
  induction h with
  | done =>
      rw [text_nil, repairFrom, text_reverse]
  | pass hread _ ih =>
      rw [text_cons] at hread ⊢
      rw [repairFrom_pass hread]
      exact ih
  | stop hread hgroup => rw [repairFrom_stop hread hgroup, text_append, text_reverse]
  | opens hat _ ih =>
      obtain ⟨hread, ⟨condition, hgroup⟩, hopens⟩ := hat
      rw [text_append] at hread ⊢
      rw [repairFrom_head hread hgroup, if_pos hopens, ← ih, text_append, text_reverse]
  | block hat hlead _ ih =>
      obtain ⟨hread, ⟨condition, hgroup⟩, hopens⟩ := hat
      rw [text_append] at hread ⊢
      rw [repairFrom_head hread hgroup, if_neg (by simp [hopens]), ← ih]
      simp [opened, hlead]
  | branch hat hlead _ ih =>
      obtain ⟨hread, ⟨condition, hgroup⟩, hopens⟩ := hat
      rw [text_append] at hread ⊢
      rw [repairFrom_head hread hgroup, if_neg (by simp [hopens]), ← ih]
      simp [opened, hlead]

/-- Nothing of the body is lost and nothing is moved. -/
theorem written_eq (h : Course before w out puts) :
    written out = written (before.reverse ++ w) := by
  induction h with
  | done => rw [List.append_nil]
  | pass _ _ ih => rw [ih, List.reverse_cons, List.append_assoc, List.singleton_append]
  | stop _ _ => rfl
  | opens _ _ ih => rw [ih]; simp
  | block _ _ _ ih => rw [ih]; simp [written_cons]
  | branch _ _ _ ih => rw [ih]; simp [written_cons]

end Course

end Stencil.Repair
