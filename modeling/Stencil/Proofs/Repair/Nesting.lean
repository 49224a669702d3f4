import Mathlib.Algebra.Ring.Int.Defs
import Stencil.Proofs.Repair.Partners
/-!
# Repair and the nesting of braces

Repair puts whole blocks into a body. Where the statement of a head ends inside the block around the
head, the new block lies there as well, and every brace of the body keeps its partner. An `else if`
whose block is still open is the exception: it closes the block around it and leaves the closing
brace of that block to its own.
-/
namespace Stencil.Repair

open Marked

/-! ## Statements that end inside their block -/

/-- Whether a `;` at the given depth of braces comes before a brace of the body that closes the block
around, if one does. -/
def endsInside : Nat → Marked → Bool
  | _, [] => true
  | depth, (c, o) :: w =>
    if c = ';' ∧ depth = 0 then true
    else if c = '{' then endsInside (depth + 1) w
    else if c = '}' then
      match depth with
      | 0 => o != .written
      | outer + 1 => endsInside outer w
    else endsInside depth w

/-- The statement of a head ends inside the block around the head; in the parentheses of an `else if`
that closes a block every brace has its partner. -/
def Put.Fits : Put → Prop
  | .block after => endsInside 0 after = true
  | .branch head => Nested head

instance : DecidablePred Put.Fits
  | .block after => inferInstanceAs (Decidable (endsInside 0 after = true))
  | .branch head => inferInstanceAs (Decidable (Nested head))

/-- The braces that repair closed blocks with further on: each stands after a statement, or nothing
but such braces follows. -/
def Tidy : Option Char → Marked → Prop
  | _, [] => True
  | before, x :: w =>
    if x.2 = .written then Tidy (some x.1) w
    else x = ('}', .block) ∧ (before = some ';' ∨ ∀ y ∈ w, y = ('}', .block)) ∧ Tidy before w

theorem tidy_ofBody (before : Option Char) (t : Text) : Tidy before (ofBody t) := by
  induction t generalizing before with
  | nil => trivial
  | cons c t ih => exact ih (some c)

theorem tidy_closers {w : Marked} (h : ∀ x ∈ w, x = ('}', .block)) (before : Option Char) :
    Tidy before w := by
  induction w with
  | nil => trivial
  | cons x w ih =>
      rw [List.forall_mem_cons] at h
      rw [Tidy, if_neg (by rw [h.1]; decide)]
      exact ⟨h.1, Or.inr h.2, ih h.2⟩

theorem Tidy.tail {before : Option Char} {x : Char × Origin} {w : Marked}
    (h : Tidy before (x :: w)) : ∃ b, Tidy b w := by
  rw [Tidy] at h
  split at h
  · exact ⟨_, h⟩
  · exact ⟨_, h.2.2⟩

theorem Tidy.of_append {before : Option Char} {u w : Marked} (h : Tidy before (u ++ w)) :
    ∃ b, Tidy b w := by
  induction u generalizing before with
  | nil => exact ⟨before, h⟩
  | cons x u ih =>
      obtain ⟨b, hb⟩ := h.tail
      exact ih hb

/-- After the parenthesis of a head no statement has just ended. -/
theorem Tidy.after_paren {before : Option Char} {u w : Marked} {o : Origin}
    (h : Tidy before (u ++ (')', o) :: w)) : Tidy (some ')') w := by
  obtain ⟨b, hb⟩ := h.of_append
  rw [Tidy] at hb
  split at hb
  · exact hb
  · simp at hb

theorem Tidy.change {before : Option Char} {w : Marked} (h : Tidy before w)
    (hne : before ≠ some ';') (before' : Option Char) : Tidy before' w := by
  cases w with
  | nil => trivial
  | cons x w =>
      rw [Tidy] at h ⊢
      split at h
      · rwa [if_pos ‹_›]
      · rw [if_neg ‹_›]
        exact ⟨h.1, Or.inr (h.2.1.resolve_left hne), tidy_closers (h.2.1.resolve_left hne) _⟩

/-- Past nothing but closing braces a block is closed at the end. -/
theorem closeMarked_closers {w : Marked} (h : ∀ x ∈ w, x = ('}', .block)) (depth : Int) :
    closeMarked depth w = ('}', .block) :: w := by
  induction w generalizing depth with
  | nil => rfl
  | cons x w ih =>
      rw [List.forall_mem_cons] at h
      obtain ⟨rfl, hw⟩ := h
      rw [closeMarked, if_neg (by simp), ih hw]

theorem Tidy.closeMarked {before : Option Char} {w : Marked} (h : Tidy before w) (depth : Int) :
    Tidy before (closeMarked depth w) := by
  induction w generalizing before depth with
  | nil => exact ⟨rfl, Or.inr (by simp), trivial⟩
  | cons x w ih =>
      rw [Repair.closeMarked]
      split
      · rename_i hstop
        -- the brace stands after the statement that the block ends with
        rw [Tidy] at h ⊢
        split at h
        · rename_i hwritten
          rw [if_pos hwritten, hstop.1]
          exact ⟨rfl, Or.inl rfl, hstop.1 ▸ h⟩
        · rw [h.1] at hstop
          simp at hstop
      · rw [Tidy] at h ⊢
        split at h
        · rw [if_pos ‹_›]
          exact ih h _
        · rw [if_neg ‹_›]
          refine ⟨h.1, h.2.1.imp_right fun hw => ?_, ih h.2.2 _⟩
          rw [closeMarked_closers hw]
          exact List.forall_mem_cons.mpr ⟨rfl, hw⟩

/-- A block whose statement ends inside the block around it closes without closing anything else. -/
theorem open?_closeMarked {l standing : List Origin} {w : Marked} {before : Option Char}
    (hl : ∀ o ∈ l, o = .written) (h : open? (l ++ standing) w = some [])
    (hends : endsInside l.length w = true) (ht : Tidy before w) (hb : before = some ';' → l ≠ []) :
    open? (l ++ .block :: standing) (closeMarked l.length w) = some [] := by
  induction w generalizing l before with
  | nil =>
      obtain ⟨rfl, rfl⟩ := List.append_eq_nil_iff.mp (Option.some.inj h)
      rfl
  | cons x w ih =>
      obtain ⟨c, o⟩ := x
      obtain ⟨s, hs, hw⟩ := open?_cons.mp h
      rw [closeMarked]
      split
      · rename_i hstop
        obtain rfl : c = ';' := hstop.1
        obtain rfl : l = [] := by simpa using hstop.2
        have hpass (s : List Origin) : Step s (';', o) s := .passes (by decide) (by decide)
        obtain rfl := hs.unique (hpass _)
        exact open?_cons.mpr ⟨_, hpass _, open?_cons.mpr ⟨_, .closes (o := .block), hw⟩⟩
      · rename_i hgoes
        have hgo : ¬ (c = ';' ∧ l.length = 0) := by simpa using hgoes
        rw [Tidy] at ht
        split at ht
        · rename_i ho
          obtain rfl : o = .written := ho
          -- the depth goes on as the braces of the body that stand open do
          have follow (l' : List Origin) {depth : Int}
              (hstep : Step (l ++ .block :: standing) (c, .written) (l' ++ .block :: standing))
              (hdepth : depth = (l'.length : Int)) (hl' : ∀ o ∈ l', o = .written)
              (hw : open? (l' ++ standing) w = some [])
              (hends : endsInside l'.length w = true) (hb : c = ';' → l' ≠ []) :
              open? (l ++ .block :: standing) ((c, .written) :: closeMarked depth w) = some [] := by
            rw [hdepth]
            exact open?_cons.mpr
              ⟨_, hstep, ih hl' hw hends ht fun hc => hb (Option.some.inj hc)⟩
          by_cases h1 : c = '{'
          · subst h1
            obtain rfl := hs.unique (.brace (by simp))
            exact follow (.written :: l) (.brace (by simp)) (by simp [balance])
              (List.forall_mem_cons.mpr ⟨rfl, hl⟩) hw hends (by simp)
          · by_cases h2 : c = '}'
            · subst h2
              have hcons := hs.eq_cons (by simp)
              cases l with
              | nil => simp [endsInside] at hends
              | cons inner l =>
                  obtain ⟨rfl, rfl⟩ := List.cons.inj hcons
                  have hdepth : ((Origin.written :: l).length : Int) + balance ['}'] = l.length := by
                    rw [List.length_cons, show balance ['}'] = -1 from rfl]
                    omega
                  exact follow l (.closes (o := .written)) hdepth
                    (fun o ho => hl o (by simp [ho])) hw hends (by simp)
            · obtain rfl := hs.unique (.passes h1 h2)
              refine follow l (.passes h1 h2) (by simp [balance, h1, h2]) hl hw ?_ ?_
              · simpa only [endsInside, if_neg hgo, if_neg h1, if_neg h2] using hends
              · exact fun hc hnil => hgo ⟨hc, by rw [hnil]; rfl⟩
        · -- the block around was put in as well, and nothing but the braces of such blocks follows
          obtain ⟨hx, hafter, -⟩ := ht
          obtain ⟨rfl, rfl⟩ := Prod.mk.inj hx
          have hcons := hs.eq_cons (by simp)
          obtain rfl : l = [] := by
            cases l with
            | nil => rfl
            | cons inner l =>
                have := hl inner (by simp)
                rw [(List.cons.inj hcons).1] at this
                simp at this
          rw [closeMarked_closers (hafter.resolve_left fun hc => hb hc rfl)]
          exact open?_cons.mpr ⟨_, .closes (o := .block), h⟩

theorem Tidy.ne_branch {before : Option Char} {w : Marked} (h : Tidy before w) :
    ∀ x ∈ w, x.2 ≠ .branch := by
  induction w generalizing before with
  | nil => simp
  | cons x w ih =>
      rw [Tidy] at h
      split at h
      · rename_i hx
        exact List.forall_mem_cons.mpr ⟨by rw [hx]; decide, ih h⟩
      · exact List.forall_mem_cons.mpr ⟨by rw [h.1]; decide, ih h.2.2⟩

/-! ## The whole course -/

/-- What an open brace counts. -/
def weight : Origin → Int
  | .branch => -1
  | _ => 1

/-- A text that leaves something open has that many braces too many. -/
theorem balance_of_open? {standing left : List Origin} {w : Marked}
    (h : open? standing w = some left) :
    balance (text w) + (standing.map weight).sum = (left.map weight).sum := by
  induction w generalizing standing with
  | nil =>
      obtain rfl : standing = left := Option.some.inj h
      simp [balance]
  | cons x w ih =>
      have hopener (o : Origin) : balance [opener o] = weight o := by cases o <;> rfl
      have hcloser (o : Origin) : balance [closer o] = - weight o := by cases o <;> rfl
      obtain ⟨s, hs, hw⟩ := open?_cons.mp h
      have hrest := ih hw
      rw [text_cons, ← List.singleton_append, balance_append]
      cases hs with
      | opens _ =>
          rw [List.map_cons, List.sum_cons] at hrest
          rw [hopener]
          omega
      | closes =>
          rw [List.map_cons, List.sum_cons, hcloser]
          omega
      | @passes _ c _ h1 h2 =>
          have hc : balance [c] = 0 := by simp [balance, h1, h2]
          rw [hc]
          omega

variable {before written after w out : Marked} {head : BlockHead} {opens : Bool}
  {puts : List Put} {standing : List Origin}

theorem HeadAt.exists_paren (h : HeadAt before written after head opens) :
    ∃ init o, written = init ++ [(')', o)] := by
  obtain ⟨hread, ⟨condition, hgroup⟩, -⟩ := h
  rw [text_append] at hread
  obtain ⟨s, ⟨-, b, inside, -, rfl⟩, hs⟩ := exists_written hread hgroup
  have hwritten := List.append_cancel_right hs
  rw [← List.cons_append, ← List.append_assoc, ← List.append_assoc] at hwritten
  obtain ⟨init, last, rfl, -, hlast⟩ := text_eq_append hwritten
  obtain ⟨⟨c, o⟩, v, rfl, rfl, hv⟩ := List.map_eq_cons_iff.mp hlast
  obtain rfl : v = [] := List.map_eq_nil_iff.mp hv
  exact ⟨init, o, rfl⟩

/-- In a text that nests, a new brace stays open unless a branch has closed one before it. -/
theorem staysOpen_opened (head : BlockHead)
    (hs : open? [] (before.reverse ++ (written ++ after)) = some []) :
    staysOpen (opened head (text before) (text written)) (text after) =
      (lead head (text before) == []) := by
  have hbalance := balance_of_open? hs
  simp only [text_append, text_reverse, balance_append, List.map_nil, List.sum_nil] at hbalance
  rcases lead_cases head (text before) with hlead | hlead
  · simp only [staysOpen, opened, hlead, List.reverse_cons, List.reverse_append,
      List.reverse_reverse, List.reverse_nil, List.nil_append, balance_append,
      show balance ['{'] = 1 from rfl, beq_self_eq_true, decide_eq_true_eq]
    omega
  · simp only [staysOpen, opened, hlead, List.reverse_cons, List.reverse_append,
      List.reverse_reverse, List.reverse_nil, List.nil_append, balance_append,
      show balance ['{'] = 1 from rfl, show balance ['}'] = -1 from rfl,
      show balance [' '] = 0 from rfl]
    rw [show (['}', ' '] == ([] : Text)) = false from rfl, decide_eq_false_iff_not]
    omega

/-- A repair keeps every pair of braces, if the statement of each head ends inside its block. -/
theorem Course.nested (h : Course before w out puts) (hfits : ∀ p ∈ puts, p.Fits)
    (hs : open? [] before.reverse = some standing) (hbranch : .branch ∉ standing)
    (hw : open? standing w = some []) (ht : ∃ b, Tidy b w) : Nested out := by
  induction h generalizing standing with
  | done =>
      obtain rfl : standing = [] := Option.some.inj hw
      exact hs
  | pass _ _ ih =>
      obtain ⟨b, hb⟩ := ht
      obtain ⟨s, hstep, hw⟩ := open?_cons.mp hw
      have hone : open? standing [_] = some s := open?_cons.mpr ⟨s, hstep, rfl⟩
      refine ih hfits ?_ ?_ hw hb.tail
      · rw [List.reverse_cons]
        exact open?_append.mpr ⟨standing, hs, hone⟩
      · refine branch_not_mem (fun y hy => hb.ne_branch y ?_) hone hbranch
        rw [List.mem_singleton.mp hy]
        exact List.mem_cons_self
  | stop _ _ => exact open?_append.mpr ⟨standing, hs, hw⟩
  | opens hat _ ih =>
      obtain ⟨b, hb⟩ := ht
      obtain ⟨s, hwritten, hafter⟩ := open?_append.mp hw
      refine ih hfits ?_ ?_ hafter hb.of_append
      · rw [List.reverse_append, List.reverse_reverse]
        exact open?_append.mpr ⟨standing, hs, hwritten⟩
      · exact branch_not_mem (fun y hy => hb.ne_branch y (List.mem_append_left _ hy)) hwritten hbranch
  | @block before written after head out puts hat hlead _ ih =>
      obtain ⟨b, hb⟩ := ht
      have hstays := staysOpen_opened head (open?_append.mpr ⟨standing, hs, hw⟩)
      rw [hlead] at hstays
      rw [hstays] at ih
      obtain ⟨s, hwritten, hafter⟩ := open?_append.mp hw
      have hs' := branch_not_mem (fun y hy => hb.ne_branch y (List.mem_append_left _ hy)) hwritten
        hbranch
      obtain ⟨init, o, rfl⟩ := hat.exists_paren
      rw [List.append_assoc] at hb
      have hparen := hb.after_paren
      have hfit : endsInside 0 after = true := hfits (.block after) List.mem_cons_self
      have hclosed := open?_closeMarked (l := []) (by simp) hafter hfit hparen (by simp)
      have hopened :
          open? [] (('{', .block) :: ((init ++ [(')', o)]).reverse ++ before)).reverse =
            some (.block :: s) := by
        rw [List.reverse_cons, List.reverse_append, List.reverse_reverse]
        exact open?_append.mpr ⟨s, open?_append.mpr ⟨standing, hs, hwritten⟩,
          open?_cons.mpr ⟨_, .brace (by simp), rfl⟩⟩
      exact ih (fun p hp => hfits p (by simp [hp])) hopened (by simpa using hs') hclosed
        ⟨some '{', (hparen.change (by decide) _).closeMarked 0⟩
  | @branch before written after head out puts hat hlead _ ih =>
      obtain ⟨b, hb⟩ := ht
      have hstays := staysOpen_opened head (open?_append.mpr ⟨standing, hs, hw⟩)
      rw [hlead] at hstays
      rw [hstays] at ih
      obtain ⟨s, hwritten, hafter⟩ := open?_append.mp hw
      -- the head nests, so what stands open after it stood open before it
      have hhead : Nested written := hfits (.branch written) List.mem_cons_self
      have hinside (standing : List Origin) : open? standing written = some standing :=
        open?_outer (fun y hy => hb.ne_branch y (List.mem_append_left _ hy)) hhead standing
      obtain rfl := Option.some.inj (hwritten.symm.trans (hinside standing))
      refine ih (fun p hp => hfits p (by simp [hp])) ?_ hbranch hafter hb.of_append
      have hshape : (('{', Origin.branch) :: (written.reverse ++
            ((' ', .branch) :: ('}', .branch) :: before))).reverse =
          before.reverse ++ ('}', .branch) :: (' ', .branch) :: (written ++ [('{', .branch)]) := by
        simp
      rw [hshape]
      refine open?_append.mpr ⟨s, hs, open?_cons.mpr ⟨.branch :: s, ?_, ?_⟩⟩
      · exact .opens (o := .branch) fun _ hhead => hbranch (List.mem_of_mem_head? hhead)
      · exact open?_cons.mpr ⟨_, .passes (by decide) (by decide), open?_append.mpr
          ⟨_, hinside _, open?_cons.mpr ⟨s, .closes (o := .branch), rfl⟩⟩⟩

end Stencil.Repair

namespace Stencil

open Repair Marked

/-- A loop around a conditional without braces. -/
private def loop : Text := "while (w)\x7b if (a) x(); \x7d".toList

/-- An `else if` in a block that is still open. -/
private def openBranch : Text := "if (a)\x7bprint(1); else if (b) print(2);\x7d".toList

end Stencil
