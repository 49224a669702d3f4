import Stencil.Proofs.Mask.Lexing
import Stencil.Proofs.Mask.Symbols
/-!
# What masking keeps

Masking drops the comments and keeps the other tiles, with a blank in the place of a block comment. A
kept text begins as its source does, unless a comment came first.
-/
namespace Stencil.Tile

/-- The tiles that masking keeps, a blank for a block comment. -/
def kept : List Tile → List Tile
  | [] => []
  | plain c :: ts => plain c :: kept ts
  | literal l :: ts => literal l :: kept ts
  | comment _ :: ts => kept ts
  | spaced _ :: ts => plain ' ' :: kept ts

theorem kept_append (s t : List Tile) : kept (s ++ t) = kept s ++ kept t := by
  induction s with
  | nil => rfl
  | cons x s ih => cases x <;> simp [kept, ih]

theorem isComment_of_mem_kept {x : Tile} {ts : List Tile} (h : x ∈ kept ts) :
    x.isComment = false := by
  induction ts with
  | nil => simp [kept] at h
  | cons y ts ih =>
      cases y with
      | comment t => exact ih h
      | _ =>
          rcases List.mem_cons.mp h with rfl | h
          · rfl
          · exact ih h

theorem number_kept (k : Nat) (ts : List Tile) :
    Symbol.number k (kept ts) = Symbol.number k ts := by
  induction ts generalizing k with
  | nil => rfl
  | cons x ts ih => cases x <;> simp [kept, Symbol.number, ih]

theorem textFrom_kept (k : Nat) (ts : List Tile) :
    Mask.textFrom k (kept ts) = Mask.textFrom k ts := by
  rw [← Symbol.spell_number, number_kept, Symbol.spell_number]

theorem literalsOf_kept (ts : List Tile) : Mask.literalsOf (kept ts) = Mask.literalsOf ts := by
  induction ts with
  | nil => rfl
  | cons x ts ih => cases x <;> simp [kept, Mask.literalsOf, ih]

/-! ## The front of a kept text -/

theorem drop_lineLength (line : Text) :
    line.drop (lineLength line) = [] ∨ ∃ more, line.drop (lineLength line) = '\n' :: more := by
  induction line with
  | nil => exact Or.inl rfl
  | cons c cs ih =>
      by_cases hc : c = '\n'
      · exact Or.inr ⟨cs, by rw [hc]; rfl⟩
      · have hlen : lineLength (c :: cs) = lineLength cs + 1 := by simp [lineLength, hc]
        rw [hlen, List.drop_succ_cons]
        exact ih

theorem eq_drop_of_take_append {n : Nat} {t rest : Text} (h : t.take n ++ rest = t) :
    rest = t.drop n :=
  List.append_cancel_left (h.trans (List.take_append_drop n t).symm)

theorem tiles_line (more : Text) : tiles ('\n' :: more) = plain '\n' :: tiles more :=
  @tiles_cons '\n' [] more rfl

/-- Nothing, or white space first. -/
inductive Faint : List Tile → Prop
  | nil : Faint []
  | blank {c : Char} {ts : List Tile} : isBlank c = true → Faint (plain c :: ts)

theorem Faint.head_blank {ts : List Tile} (h : Faint (kept ts)) {k : Nat} {c : Char} {w : Text}
    (ht : Mask.textFrom k ts = c :: w) : isBlank c = true := by
  rw [← textFrom_kept] at ht
  generalize kept ts = us at h ht
  cases h with
  | nil => simp [Mask.textFrom] at ht
  | blank hb =>
      rw [Mask.textFrom, List.cons.injEq] at ht
      exact ht.1 ▸ hb

/-- A comment that ends with its line leaves the end of the line in front. -/
theorem faint_drop_line (line : Text) : Faint (kept (tiles (line.drop (lineLength line)))) := by
  rcases drop_lineLength line with h | ⟨more, h⟩
  · rw [h]
    exact .nil
  · rw [h, tiles_line]
    exact .blank (by decide)

/-- What is kept of a source is nothing, or begins with white space, with the first character, or with
the literal that the source begins with. -/
inductive Front (t : Text) : Prop
  | faint : Faint (kept (tiles t)) → Front t
  | char {c : Char} {cs : Text} : t = c :: cs → tiles t = plain c :: tiles cs → Front t
  | mark {l rest : Text} : t = l ++ rest → tiles t = literal l :: tiles rest → Front t

theorem front (t : Text)
    (hlong : ∀ x ts, tiles t = x :: ts → x.isLongComment = true → Faint (kept ts)) : Front t := by
  cases t with
  | nil => exact .faint .nil
  | cons c cs =>
      obtain ⟨body, rest, rfl, htext⟩ := exists_first_text c cs
      have ht := tiles_cons htext
      have hl := hlong _ _ ht
      have hv := view c (body ++ rest)
      generalize first c (body ++ rest) = x at htext ht hl hv
      -- a comment up to the end of its line
      have afterLine {u line : Text} (hx : x = comment u)
          (hrest : rest = line.drop (lineLength line)) : Front (c :: (body ++ rest)) :=
        .faint (by rw [ht, hx, hrest]; exact faint_drop_line line)
      cases hv with
      | plain _ =>
          simp only [text, List.cons.injEq, true_and] at htext
          subst htext
          exact .char rfl ht
      | quoted _ =>
          simp only [text] at htext
          rw [htext] at ht
          exact .mark rfl ht
      | long _ _ =>
          simp only [text] at htext
          rw [htext] at ht
          exact .mark rfl ht
      | longComment _ _ =>
          refine .faint ?_
          rw [ht]
          exact hl (by rw [isLongComment, longBracket?_eq_some.mpr ⟨_, _, rfl, rfl⟩]; rfl)
      | lineComment _ hcs _ =>
          simp only [text, List.cons.injEq] at htext
          rw [← htext.2, List.cons_append, List.cons.injEq] at hcs
          exact afterLine rfl (eq_drop_of_take_append hcs.2)
      | slashComment _ hcs =>
          simp only [text, List.cons.injEq] at htext
          rw [← htext.2, List.cons_append, List.cons.injEq] at hcs
          exact afterLine rfl (eq_drop_of_take_append hcs.2)
      | blockComment _ _ =>
          refine .faint ?_
          rw [ht]
          exact .blank (by decide)

end Stencil.Tile
