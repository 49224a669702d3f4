import Stencil.Proofs.Lower.Braces
import Stencil.Proofs.Normalize.EmptyCalls
/-!
# The passes keep the marks

Normalization and lowering each turn a masked text into another one with the same marks in the same
order.
-/
namespace Stencil

open Symbol

/-! ## Trimming -/

private theorem respells_drop {b : Text} (hb : Text.Blank b) (t : Text) : Respells (b ++ t) t := by
  by_cases hne : b = []
  · subst hne
    exact .refl t
  · have hnil : Mask.opening ∉ ([] : Text) := by simp
    exact .swap hne (bare_of_blank hb) hnil (.refl t)

theorem respells_trimStart (t : Text) : Respells t (Text.trimStart t) := by
  obtain ⟨b, hb, ht⟩ := Text.exists_blank_trimStart t
  have h := respells_drop hb (Text.trimStart t)
  rwa [← ht] at h

theorem respells_trimEnd (t : Text) : Respells t (Text.trimEnd t) := by
  obtain ⟨b, hb, ht⟩ := Text.exists_trimEnd_blank t
  have h := (respells_drop hb []).prepend (Text.trimEnd t)
  rwa [List.append_nil, List.append_nil, ← ht] at h

/-! ## Normalization -/

/-- In code without empty calls, normalization begins no string and no comment and keeps the
marks. -/
theorem exists_proper_collapse {m : Mask} {literals : List Text} {s : List Symbol}
    (h : Proper literals s) (hfree : Normalize.CallFree m (spell s)) :
    ∃ s', spell s' = Normalize.collapse m (Normalize.toBraces (spell s)) ∧ Proper literals s' := by
  have hbraces := Normalize.edited_toBraces (spell s)
  obtain ⟨t, hedit, ht⟩ := Normalize.exists_edited_collapse (hbraces.callFree hfree)
  have hspell := ((hbraces.respells.trans hedit.respells).trans (respells_trimStart t)).trans
    (respells_trimEnd _)
  obtain ⟨s', hs', hm, hl⟩ := hspell.exists_spell h.legible
  refine ⟨s', by rw [hs', ht, Text.trim], hl, fun w hw hi => ?_, hm.trans h.marks_eq, h.fit⟩
  rw [hs'] at hi
  exact hedit.settled (hbraces.settled h.settled) w hw (hi.trans (Text.infix_of_trim t))

/-! ## Lowering -/

namespace Lower

/-- What lowering exchanges: the parentheses of a header for blanks, and the braces of a block, with the
words of the next branch, for the words of native blocks. -/
inductive Swap : Text → Text → Prop
  | opening {word : Text} : word ∈ ["do".toList, "then".toList] → Swap ['{'] (' ' :: (word ++ [' ']))
  | header {b b' : Text} : Text.Blank b → Text.Blank b' → Swap (b ++ '(' :: b') [' ']
  | body {b b' : Text} : Text.Blank b → Text.Blank b' →
      Swap (b ++ ')' :: (b' ++ ['{'])) " do ".toList
  | otherwise {b b' : Text} : Text.Blank b → Text.Blank b' →
      Swap ('}' :: (b ++ ("else".toList ++ (b' ++ ['{'])))) " else ".toList
  | elseIf {b b' b'' : Text} : Text.Blank b → Text.Blank b' → Text.Blank b'' →
      Swap ('}' :: (b ++ ("else".toList ++ (b' ++ ("if".toList ++ b''))))) " elseif ".toList
  | closing : Swap ['}'] " end ".toList

/-- One text comes from another by such exchanges. -/
inductive Lowers : Text → Text → Prop
  | refl (t : Text) : Lowers t t
  | swap {u old new t t' : Text} : Swap old new → Lowers (u ++ (new ++ t)) t' →
      Lowers (u ++ (old ++ t)) t'

section Lowers

variable {old new t t' t'' : Text}

theorem Lowers.trans (h : Lowers t t') (h' : Lowers t' t'') : Lowers t t'' := by
  induction h with
  | refl => exact h'
  | swap hs _ ih => exact .swap hs (ih h')

theorem Swap.lowers (h : Swap old new) (u t : Text) : Lowers (u ++ (old ++ t)) (u ++ (new ++ t)) :=
  .swap h (.refl _)

theorem Swap.bare (h : Swap old new) : old ≠ [] ∧ Bare old := by
  cases h with
  | opening _ => decide
  | header hb hb' => exact ⟨by simp, by simp [bare_of_blank hb, bare_of_blank hb']; decide⟩
  | body hb hb' => exact ⟨by simp, by simp [bare_of_blank hb, bare_of_blank hb']; decide⟩
  | otherwise hb hb' => exact ⟨by simp, by simp [bare_of_blank hb, bare_of_blank hb']; decide⟩
  | elseIf hb hb' hb'' =>
      exact ⟨by simp, by simp [bare_of_blank hb, bare_of_blank hb', bare_of_blank hb'']; decide⟩
  | closing => decide

/-- What is put in is a blank or a word between blanks. -/
theorem Swap.mem_words (h : Swap old new) :
    new ∈ [" ", " do ", " then ", " else ", " elseif ", " end "].map String.toList := by
  cases h with
  | opening hword =>
      simp only [List.mem_cons, List.not_mem_nil, or_false] at hword
      rcases hword with rfl | rfl <;> decide
  | _ => decide

theorem Lowers.respells (h : Lowers t t') : Respells t t' := by
  have hwords : ∀ new ∈ [" ", " do ", " then ", " else ", " elseif ", " end "].map String.toList,
      Mask.opening ∉ new := by decide
  induction h with
  | refl t => exact .refl t
  | @swap u _ _ t _ hs _ ih =>
      have hswap := Respells.swap hs.bare.1 hs.bare.2 (hwords _ hs.mem_words) (.refl t)
      exact (hswap.prepend u).trans ih

end Lowers

/-- The parentheses of a header give way to blanks. -/
private theorem lowers_header {header b : Text} (hb : Text.Blank b) (u t : Text) :
    Lowers (u ++ '(' :: (header ++ ')' :: b) ++ '{' :: t)
      (Text.trimEnd u ++ (' ' :: Text.trim header ++ " do ".toList) ++ t) := by
  obtain ⟨b₀, h₀, hu⟩ := Text.exists_trimEnd_blank u
  obtain ⟨b₁, h₁, hstart⟩ := Text.exists_blank_trimStart header
  obtain ⟨b₂, h₂, hend⟩ := Text.exists_trimEnd_blank (Text.trimStart header)
  have hold : u ++ '(' :: (header ++ ')' :: b) ++ '{' :: t = Text.trimEnd u ++
      ((b₀ ++ '(' :: b₁) ++ (Text.trim header ++ ((b₂ ++ ')' :: (b ++ ['{'])) ++ t))) := by
    conv => lhs; rw [hu, hstart, hend]
    simp [Text.trim]
  have hdo := (Swap.body h₂ hb).lowers (Text.trimEnd u ++ ([' '] ++ Text.trim header)) t
  have hblank := (Swap.header h₀ h₁).lowers (Text.trimEnd u)
    (Text.trim header ++ ((b₂ ++ ')' :: (b ++ ['{'])) ++ t))
  rw [hold]
  simpa using hblank.trans (by simpa using hdo)

private theorem lowers_openBrace (written : Text) (braces : List Brace) (t : Text) :
    Lowers (written.reverse ++ '{' :: t) ((openBrace written braces).1.reverse ++ t) := by
  have brace (word : Text) (h : word ∈ ["do".toList, "then".toList]) :
      Lowers (written.reverse ++ '{' :: t)
        ((append written (' ' :: (word ++ [' ']))).reverse ++ t) := by
    simpa [append] using (Swap.opening h).lowers written.reverse t
  unfold openBrace
  split
  · rename_i header before hhead
    obtain ⟨b, inner, hb, rfl, rfl, -, -⟩ := head?_eq_some.mp hhead
    have h := @lowers_header inner.reverse _ (Text.blank_reverse.mpr hb) before.reverse t
    have hw : (b ++ ')' :: (inner ++ '(' :: before)).reverse =
        before.reverse ++ '(' :: (inner.reverse ++ ')' :: b.reverse) := by simp
    rw [hw]
    simpa [append, Text.trimEnd] using h
  · exact brace "do".toList (by decide)
  · exact brace "then".toList (by decide)
  · exact brace "then".toList (by decide)
  · simpa using Lowers.refl (written.reverse ++ '{' :: t)

/-- A closing brace and the beginning of the branch after it are exchanged together. -/
private theorem elseAfter?_eq_some {t branch rest : Text} (h : elseAfter? t = some (branch, rest)) :
    ∃ old, t = old ++ rest ∧ Swap ('}' :: old) branch := by
  obtain ⟨b, hb, ht⟩ := Text.exists_blank_trimStart t
  -- the word and the white space around it
  have word {after₀ : Text} (hw : afterName? "else".toList (Text.trimStart t) = some after₀) :
      ∃ b', Text.Blank b' ∧ t = b ++ ("else".toList ++ (b' ++ Text.trimStart after₀)) := by
    obtain ⟨b', hb', hafter⟩ := Text.exists_blank_trimStart after₀
    exact ⟨b', hb', by rw [← hafter, ← (afterName?_eq_some.mp hw).1, ← ht]⟩
  unfold elseAfter? at h
  split at h
  · rename_i rest₀ hs
    obtain ⟨after₀, hw, hopen⟩ := Option.map_eq_some_iff.mp hs
    obtain ⟨b', hb', hold⟩ := word hw
    rw [Option.some.injEq, Prod.mk.injEq] at h
    obtain ⟨rfl, rfl⟩ := h
    exact ⟨_, by rw [hold, hopen]; simp, .otherwise hb hb'⟩
  · rename_i rest₀ _ hs
    obtain ⟨after₀, hw, rfl⟩ := Option.map_eq_some_iff.mp hs
    obtain ⟨b', hb', hold⟩ := word hw
    obtain ⟨after₁, hif, hp⟩ := Option.map_eq_some_iff.mp h
    obtain ⟨b'', hb'', hafter⟩ := Text.exists_blank_trimStart after₁
    rw [Prod.mk.injEq] at hp
    obtain ⟨rfl, rfl⟩ := hp
    refine ⟨b ++ ("else".toList ++ (b' ++ ("if".toList ++ b''))), ?_, .elseIf hb hb' hb''⟩
    rw [hold, (afterName?_eq_some.mp hif).1]
    conv => lhs; rw [hafter]
    simp
  · simp at h

/-- What is written so far and what lies ahead become the lowered text. -/
theorem lowers_lowerFrom (n : Nat) (braces : List Brace) (written t : Text) :
    Lowers (written.reverse ++ t.drop n) (lowerFrom n braces written t).reverse := by
  induction t generalizing n braces written with
  | nil =>
      have h := Lowers.refl written.reverse
      cases n <;> simpa [lowerFrom] using h
  | cons c cs ih =>
      cases n with
      | succ n => exact ih n braces written
      | zero =>
          -- a closing brace and what follows it give way to a word
          have word {old new rest : Text} (hold : cs = old ++ rest) (h : Swap ('}' :: old) new) :
              Lowers (written.reverse ++ '}' :: cs) ((append written new).reverse ++ rest) := by
            rw [hold]
            simpa [append] using h.lowers written.reverse rest
          rw [List.drop_zero]
          unfold lowerFrom
          split
          · rename_i hc
            subst hc
            exact (lowers_openBrace written braces cs).trans (ih 0 _ _)
          · split
            · rename_i hc
              subst hc
              split
              · simpa using ih 0 _ ('}' :: written)
              · split
                · rename_i branch rest helse
                  obtain ⟨old, hcs, hswap⟩ := elseAfter?_eq_some helse
                  have hdrop : cs.drop (cs.length - rest.length) = rest := by
                    rw [hcs, Text.drop_read]
                  have htail := ih (cs.length - rest.length) braces (append written branch)
                  rw [hdrop] at htail
                  exact (word hcs hswap).trans htail
                · split
                  · exact (word (List.nil_append cs).symm .closing).trans (ih 0 _ _)
                  · simpa using ih 0 [] ('}' :: written)
            · simpa using ih 0 braces (c :: written)

/-- A lowered text has the marks of the text. -/
theorem exists_spell_lower {s : List Symbol} (hs : Legible s) :
    ∃ s', spell s' = Text.trimEnd (lowerFrom 0 [] [] (spell s)).reverse ∧ marks s' = marks s ∧
      Legible s' := by
  have h := (lowers_lowerFrom 0 [] [] (spell s)).respells
  exact (h.trans (respells_trimEnd _)).exists_spell hs

end Lower

end Stencil
