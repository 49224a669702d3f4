import Stencil.Proofs.Normalize.Punctuation
import Stencil.Proofs.Normalize.Tidy
/-!
# An `else` of its own

The rule for an `else` of its own cannot read two that share a semicolon. The second of these comes
after the brace that was written for the first, and the semicolon between the two goes. So no `else`
is left that another pass would rewrite.
-/
namespace Stencil.Normalize

open Text

/-- What came last, white space apart: nothing, a brace, a semicolon after other code, or other
code. Semicolons after nothing and after a brace make no difference. -/
inductive Last where
  | nothing
  | brace
  | stop
  | code
deriving Repr, DecidableEq

namespace Last

/-- What comes last after one more character. -/
def step (last : Last) (c : Char) : Last :=
  if isBlank c then last
  else if c = ';' then if last = code then stop else last
  else if c = '{' || c = '}' then brace
  else code

def run (last : Last) (t : Text) : Last := t.foldl step last

@[simp] theorem run_nil (last : Last) : last.run [] = last := rfl

@[simp] theorem run_cons (last : Last) (c : Char) (t : Text) :
    last.run (c :: t) = (last.step c).run t := rfl

@[simp] theorem run_append (last : Last) (s t : Text) : last.run (s ++ t) = (last.run s).run t :=
  List.foldl_append

/-- Whether an `else` that comes next is a statement of its own. -/
def isOpen (last : Last) : Bool := last = nothing || last = stop

theorem step_blank {c : Char} (hc : isBlank c = true) (last : Last) : last.step c = last := by
  simp [step, hc]

theorem run_blank {b : Text} (hb : Blank b) (last : Last) : last.run b = last := by
  induction b with
  | nil => rfl
  | cons c b ih =>
      rw [blank_cons] at hb
      rw [run_cons, step_blank hb.1, ih hb.2]

/-- After a mark, semicolons and white space make no difference. -/
theorem run_marks {g : Text} (hg : ∀ c ∈ g, isBlank c = true ∨ c = ';') {last : Last}
    (hlast : last ≠ code) : last.run g = last := by
  induction g with
  | nil => rfl
  | cons c g ih =>
      have hstep : last.step c = last := by
        rcases hg c (by simp) with hc | rfl
        · exact step_blank hc last
        · rw [step, if_neg (by decide), if_pos rfl, if_neg hlast]
      rw [run_cons, hstep, ih fun d hd => hg d (by simp [hd])]

theorem step_semicolon_ne_code (last : Last) : last.step ';' ≠ code := by
  cases last <;> decide

/-- A stretch that becomes punctuation leaves behind what the punctuation leaves, or a brace. -/
theorem run_becomes {old new : Text} (h : Becomes old new) {last last' : Last}
    (hlast : last' = last ∨ last' = brace) :
    last'.run new = last.run old ∨ last'.run new = brace := by
  cases h with
  | brace hn _ =>
      right
      rcases mem_braces hn with rfl | rfl | rfl <;> cases last' <;> decide
  | semicolon hb hg =>
      rw [run_cons, run_nil, run_append, run_cons, run_blank hb,
        run_marks hg (step_semicolon_ne_code last)]
      rcases hlast with rfl | rfl
      · exact Or.inl rfl
      · exact Or.inr rfl

theorem step_eq {last last' : Last} (hlast : last' = last ∨ last' = brace) (c : Char) :
    last'.step c = last.step c ∨ last'.step c = brace := by
  rcases hlast with rfl | rfl
  · exact Or.inl rfl
  · unfold step
    split
    · exact Or.inr rfl
    · split
      · exact Or.inr rfl
      · exact Or.inl rfl

end Last

/-- Whether an `else` of its own stands in the text. -/
def hasStray : Last → Text → Bool
  | _, [] => false
  | last, c :: cs => (last.isOpen && isBareElse (c :: cs)) || hasStray (last.step c) cs

theorem isBareElse_of_ne {c : Char} (hc : c ≠ 'e') (t : Text) : isBareElse (c :: t) = false := by
  have hnone : after? "else".toList (c :: t) = none := after?_cons_ne (Ne.symm hc) _ t
  rw [isBareElse, hnone]
  rfl

theorem reflects_isBareElse : Reflects isBareElse := by
  intro before t t' h hread
  obtain ⟨b, v, hb, rfl, hv⟩ := isBareElse_iff.mp hread
  have hstop : ∀ c ∈ "else".toList ++ b, isStop c = false := by
    intro c hc
    rcases List.mem_append.mp hc with hc | hc
    · exact (show ∀ c ∈ "else".toList, isStop c = false by decide) c hc
    · exact not_stop_of_blank hb c hc
  obtain ⟨u, rfl, hu⟩ := Reform.front (y := v) hstop (by simpa using h)
  rcases hv with rfl | ⟨w, rfl⟩
  · have hblank := hu.blank
    exact isBareElse_iff.mpr ⟨b ++ u, [], blank_append.mpr ⟨hb, hblank⟩, by simp, Or.inl rfl⟩
  · obtain ⟨b', v', hb', rfl⟩ := hu.semicolon
    exact isBareElse_iff.mpr ⟨b ++ b', ';' :: v', blank_append.mpr ⟨hb, hb'⟩, by simp,
      Or.inr ⟨v', rfl⟩⟩

/-! ## Passes leave none -/

theorem hasStray_append {last : Last} {s t : Text} (h : hasStray (last.run s) t = true) :
    hasStray last (s ++ t) = true := by
  induction s generalizing last with
  | nil => exact h
  | cons c s ih =>
      rw [List.cons_append, hasStray, Bool.or_eq_true]
      exact Or.inr (ih h)

private theorem hasStray_cons {last : Last} {c : Char} {t : Text}
    (h : last.isOpen = false ∨ c ≠ 'e') :
    hasStray last (c :: t) = hasStray (last.step c) t := by
  rw [hasStray]
  rcases h with h | h
  · rw [h, Bool.false_and, Bool.false_or]
  · rw [isBareElse_of_ne h, Bool.and_false, Bool.false_or]

private theorem hasStray_skip {last : Last} {s : Text} (hs : ∀ c ∈ s, c ≠ 'e') (t : Text) :
    hasStray last (s ++ t) = hasStray (last.run s) t := by
  induction s generalizing last with
  | nil => rfl
  | cons c s ih =>
      rw [List.cons_append, hasStray_cons (Or.inr (hs c (by simp))), ih fun d hd => hs d (by simp [hd])]
      rfl

/-- The `else` that is written stands after a brace. -/
private theorem hasStray_becomes {last : Last} {old new y : Text} (hnew : Becomes old new) :
    hasStray last (new ++ y) = hasStray (last.run new) y := by
  cases hnew with
  | brace hn _ =>
      rcases mem_braces hn with rfl | rfl | rfl
      · change hasStray last ("\x7d ".toList ++ ('e' :: ("ls".toList ++ ('e' :: (" \x7b".toList ++ y)))))
          = _
        rw [hasStray_skip (by decide), hasStray_cons (Or.inl (by cases last <;> rfl)),
          hasStray_skip (by decide), hasStray_cons (Or.inl (by cases last <;> rfl)),
          hasStray_skip (by decide)]
        rfl
      · exact hasStray_skip (by decide) y
      · exact hasStray_skip (by decide) y
  | semicolon => exact hasStray_skip (by decide) y

theorem Reform.hasStray {before : Option Char} {t t' : Text} (h : Reform before t t')
    {last last' : Last} (hlast : last' = last ∨ last' = .brace)
    (ht' : hasStray last' t' = true) : hasStray last t = true := by
  induction h generalizing last last' with
  | nil => simp [Normalize.hasStray] at ht'
  | @keep before c t t' h ih =>
      rw [Normalize.hasStray, Bool.or_eq_true, Bool.and_eq_true] at ht' ⊢
      rcases ht' with ⟨hopen, hbare⟩ | hlater
      · have hkeep : Reform before (c :: t) (c :: t') := .keep h
        refine Or.inl ⟨?_, reflects_isBareElse hkeep hbare⟩
        rcases hlast with rfl | rfl
        · exact hopen
        · simp [Last.isOpen] at hopen
      · exact Or.inr (ih (Last.step_eq hlast c) hlater)
  | swap _ hnew _ _ _ ih =>
      rw [hasStray_becomes hnew] at ht'
      exact hasStray_append (ih (Last.run_becomes hnew hlast) ht')

/-- No `else` of its own is left. -/
theorem hasStray_statementElse (t : Text) :
    hasStray .nothing (t.replaceAll statementElse) = false := by
  suffices key : Reform none t (t.replaceAll statementElse) ∧
      ∀ last : Last, (last.isOpen = true → (none : Option Char) = none ∨ bareElse? t = none) →
        hasStray last (t.replaceAll statementElse) = false from key.2 _ fun _ => Or.inl rfl
  refine replaceFrom_induct (Reforms.advances reforms_statementElse)
    (motive := fun before t out => Reform before t out ∧ ∀ last : Last,
      (last.isOpen = true → before = none ∨ bareElse? t = none) → hasStray last out = false)
    ?_ ?_ ?_ none t
  · exact fun _ => ⟨.nil blank_nil, fun _ _ => rfl⟩
  · rintro before c t out hmiss ⟨hreform, ih⟩
    have hkeep : Reform before (c :: t) (c :: out) := .keep hreform
    refine ⟨hkeep, fun last hopen => ?_⟩
    obtain ⟨hstart, hsemi⟩ := statementElse_eq_none.mp hmiss
    have hnone (h : last.isOpen = true) : bareElse? (c :: t) = none := (hopen h).elim hstart id
    rw [hasStray, Bool.or_eq_false_iff, Bool.and_eq_false_imp]
    refine ⟨fun h => ?_, ih _ fun h => Or.inr ?_⟩
    · rw [Bool.eq_false_iff]
      intro hread
      have hbare := reflects_isBareElse hkeep hread
      have hread' := bareElse?_eq_none.mp (hnone h)
      have hc : c = 'e' := by
        by_contra hc
        rw [isBareElse_of_ne hc] at hbare
        simp at hbare
      subst hc
      rw [trimStart_of_flush (flush_cons.mpr (by decide)), hbare] at hread'
      simp at hread'
    · unfold Last.step at h
      split at h
      · rename_i hc
        rw [bareElse?_eq_none, ← trimStart_blank_append (b := [c]) (by simpa using hc)]
        exact bareElse?_eq_none.mp (hnone h)
      · split at h
        · rename_i hc
          exact hsemi hc
        · split at h <;> simp [Last.isOpen] at h
  · rintro before old rest new more hold hhit ⟨hreform, ih⟩
    obtain ⟨old', -, ht, hreformed⟩ := reforms_statementElse hhit
    have hsame := List.append_cancel_right ht
    subst hsame
    refine ⟨hreformed hreform, fun last _ => ?_⟩
    obtain ⟨p, lead, b, stop, hp, hlead, -, hstop, -, rfl⟩ := statementElse_eq_some hhit
    have hfront : ∀ c ∈ p ++ lead, c ≠ 'e' := by
      rintro c hc rfl
      rcases List.mem_append.mp hc with hc | hc
      · rcases hp with ⟨rfl, -⟩ | rfl <;> simp at hc
      · exact absurd (hlead _ hc) (by decide)
    have hback : ∀ c ∈ stop, c ≠ 'e' ∧ (isBlank c = true ∨ c = ';') := by
      rcases hstop with ⟨rfl, -⟩ | rfl <;> decide
    have hbrace (l : Last) : l.run "\x7d else \x7b".toList = .brace := by cases l <;> rfl
    have hafter : Last.brace.run stop = .brace :=
      Last.run_marks (fun c hc => (hback c hc).2) (by decide)
    have hwritten : Becomes [] "\x7d else \x7b".toList := .brace (by decide) (by simp)
    rw [List.append_assoc, List.append_assoc, hasStray_skip hfront, hasStray_becomes hwritten,
      hbrace, hasStray_skip fun c hc => (hback c hc).1, hafter]
    exact ih _ fun h => by simp [Last.isOpen] at h

end Stencil.Normalize
