import Stencil.Proofs.Normalize.Passing
import Stencil.Proofs.Normalize.Reforms
/-!
# The rules as punctuation

What each rule after the one for heads writes, and what is left to read when it has passed.
-/
namespace Stencil.Normalize

open Text

/-! ## Stretches -/

private theorem start_of_begin {before : Option Char} (h : wordMayBegin before = true) (old : Text) :
    wordMayBegin before = false → wordHasEnded old = true :=
  fun hfalse => by simp [h] at hfalse

theorem noParen_of_blank {b : Text} (hb : Blank b) : ∀ c ∈ b, c ≠ '(' ∧ c ≠ ')' := by
  intro c hc
  constructor
  · rintro rfl
    exact absurd (hb _ hc) (by decide)
  · rintro rfl
    exact absurd (hb _ hc) (by decide)

theorem noParen_append {s t : Text} (hs : ∀ c ∈ s, c ≠ '(' ∧ c ≠ ')')
    (ht : ∀ c ∈ t, c ≠ '(' ∧ c ≠ ')') : ∀ c ∈ s ++ t, c ≠ '(' ∧ c ≠ ')' :=
  fun c hc => (List.mem_append.mp hc).elim (hs c) (ht c)

/-! ## Rules for blocks -/

theorem swaps_colonElse : Swaps colonElse := by
  intro before t new rest h
  obtain ⟨hbegin, ⟨b, hb, rfl⟩, rfl⟩ := colonElse_eq_some.mp h
  refine ⟨"else".toList ++ b ++ [':'], by simp, by simp, .brace (by decide) ?_,
    start_of_begin hbegin _, edge_of_last (by decide) _ _⟩
  exact noParen_append (noParen_append (by decide) (noParen_of_blank hb)) (by decide)

theorem swaps_blockEnd : Swaps blockEnd := by
  intro before t new rest h
  obtain ⟨hbegin, rfl, word, hw, space, b, stop, hb, hstop, hspace, rfl, hended⟩ :=
    blockEnd_eq_some h
  have hwords : ∀ word ∈ ["if", "for", "while"], ∀ space ∈ [[], [' ']],
      ∀ c ∈ "end".toList ++ (space ++ word.toList), c ≠ '(' ∧ c ≠ ')' := by decide
  have hkey := hwords word hw space (by rcases hspace with rfl | ⟨rfl, -⟩ <;> simp)
  refine ⟨_, by simp, rfl, .brace (by decide) ?_, start_of_begin hbegin _, ?_⟩
  · refine noParen_append hkey (noParen_append (noParen_of_blank hb) ?_)
    rcases hstop with rfl | rfl <;> decide
  · rcases hstop with rfl | rfl
    · rw [List.append_nil] at hended ⊢
      exact edge_of_blank hb hended _
    · rw [← List.append_assoc]
      exact edge_of_last (by decide) _ _

theorem reforms_statementElse : Reforms statementElse := by
  intro before t new rest h
  obtain ⟨p, lead, b, stop, hp, hlead, hb, hstop, rfl, rfl⟩ := statementElse_eq_some h
  refine ⟨p ++ lead ++ ("else".toList ++ b) ++ stop, by simp, by simp, fun {rest'} he => ?_⟩
  have hended : wordHasEnded (stop ++ rest) = true := by
    rcases hstop with ⟨rfl, rfl⟩ | rfl
    · rfl
    · exact show (!isWordChar ';') = true by decide
  -- the word stands at the start, after white space or after the semicolon
  have hbegin : wordMayBegin (lastOr before (p ++ lead)) = true := by
    rw [lastOr_append]
    refine mayBegin_blank hlead ?_
    rcases hp with ⟨rfl, rfl⟩ | rfl
    · rfl
    · exact show (!isWordChar ';') = true by decide
  have hword : Reform (lastOr before (p ++ lead)) ("else".toList ++ b ++ (stop ++ rest))
      ("\x7d else \x7b".toList ++ (stop ++ rest')) := by
    refine .swap (by simp) (.brace (by decide) ?_) (start_of_begin hbegin _)
      (edge_of_ended hended _) ?_
    · exact noParen_append (by decide) (noParen_of_blank hb)
    · rw [lastOr_append, lastOr_append, lastOr_append] at he
      exact .prepend stop (by rw [lastOr_append, lastOr_append]; exact he)
  simpa only [List.append_assoc] using hword.prepend (p ++ lead)

/-! ## Rules for white space and semicolons -/

/-- A mark and the white space around it. -/
theorem becomes_stop {b g : Text} {c : Char} (hc : isStop c = true) (hb : Blank b) (hg : Blank g) :
    Becomes (b ++ c :: g) [c] := by
  have hpaired (hbrace : [c] ∈ braces) : Becomes (b ++ c :: g) [c] := by
    refine .brace hbrace (noParen_append (noParen_of_blank hb) ?_)
    refine List.forall_mem_cons.mpr ⟨?_, noParen_of_blank hg⟩
    have := (show ∀ new ∈ braces, ∀ c ∈ new, c ≠ '(' ∧ c ≠ ')' by decide) [c] hbrace
    exact this c (by simp)
  simp only [isStop, Bool.or_eq_true, beq_iff_eq] at hc
  rcases hc with (rfl | rfl) | rfl
  · exact .semicolon hb fun d hd => Or.inl (hg d hd)
  · exact hpaired (by decide)
  · exact hpaired (by decide)

/-- A stretch outside every word cuts none. -/
private theorem cut_outside {old : Text} (hne : old ≠ []) (h : ∀ c ∈ old, isWordChar c = false)
    (rest : Text) : wordHasEnded old = true ∧ Edge old rest := by
  obtain ⟨c, cs, rfl⟩ := List.exists_cons_of_ne_nil hne
  refine ⟨by simp [wordHasEnded, h c (by simp)], fun hlast => ?_⟩
  obtain ⟨d, hd, hl⟩ := exists_mem_lastOr none c cs
  rw [hl, Option.any_some, h d hd] at hlast
  simp at hlast

theorem swaps_spaceRule {kind : Char → Bool} (hkind : ∀ c, kind c = true → isStop c = true) :
    Swaps (spaceRule kind) := by
  intro before t new rest h
  obtain ⟨b, c, g, hb, hg, hc, rfl, rfl, -⟩ := spaceRule_eq_some h
  have hout : ∀ d ∈ b ++ c :: g, isWordChar d = false := by
    intro d hd
    simp only [List.mem_append, List.mem_cons] at hd
    rcases hd with hd | rfl | hd
    · exact isWordChar_of_blank (hb d hd)
    · exact isWordChar_of_stop (hkind d hc)
    · exact isWordChar_of_blank (hg d hd)
  obtain ⟨hstart, hedge⟩ := cut_outside (by simp) hout rest
  exact ⟨b ++ c :: g, by simp, by simp, becomes_stop (hkind c hc) hb hg, fun _ => hstart, hedge⟩

theorem swaps_semicolonSpace : Swaps semicolonSpace := by
  rw [semicolonSpace_eq]
  exact swaps_spaceRule isStop_of_semicolon

theorem swaps_braceSpace : Swaps braceSpace := by
  rw [braceSpace_eq]
  exact swaps_spaceRule isStop_of_brace

theorem swaps_repeatedSemicolon : Swaps repeatedSemicolon := by
  intro before t new rest h
  obtain ⟨g, hg, rfl, rfl, -⟩ := repeatedSemicolon_eq_some h
  have hsemi : ∀ c ∈ ';' :: ';' :: g, c = ';' := by simpa using hg
  have hout : ∀ c ∈ ';' :: ';' :: g, isWordChar c = false := by
    intro c hc
    rw [hsemi c hc]
    decide
  obtain ⟨hstart, hedge⟩ := cut_outside (by simp) hout rest
  have hnew : Becomes ([] ++ ';' :: ';' :: g) [';'] :=
    .semicolon blank_nil fun c hc => Or.inr (hsemi c (List.mem_cons_of_mem _ hc))
  exact ⟨';' :: ';' :: g, by simp, by simp, hnew, fun _ => hstart, hedge⟩

theorem reforms_braceSemicolon : Reforms braceSemicolon := by
  intro before t new rest h
  obtain ⟨c, hc, ⟨rfl, rfl⟩ | ⟨rfl, rfl, -⟩⟩ := braceSemicolon_eq_some h
  · exact ⟨[c, ';', '('], by simp, rfl, fun he => .prepend _ he⟩
  · have hout : ∀ d ∈ [c, ';'], isWordChar d = false := by rcases hc with rfl | rfl <;> decide
    have hparen : ∀ d ∈ [c, ';'], d ≠ '(' ∧ d ≠ ')' := by rcases hc with rfl | rfl <;> decide
    have hbrace : [c] ∈ braces := by rcases hc with rfl | rfl <;> decide
    obtain ⟨hstart, hedge⟩ := cut_outside (by simp) hout rest
    exact ⟨[c, ';'], by simp, rfl, .swap (by simp) (.brace hbrace hparen) (fun _ => hstart) hedge⟩

theorem reform_trimEnd (before : Option Char) (t : Text) : Reform before t (trimEnd t) := by
  obtain ⟨b, hb, ht⟩ := exists_trimEnd_blank t
  have h : Reform before (trimEnd t ++ _) (trimEnd t ++ []) := .prepend (trimEnd t) (.nil hb)
  rwa [← ht, List.append_nil] at h

/-! ## What the rules for `else` and for ends read -/

def isColonElse (t : Text) : Bool := (colonElse none t).isSome

def isBlockEnd (t : Text) : Bool := (blockEnd none t).isSome

theorem isColonElse_iff {t : Text} : isColonElse t = true ↔
    ∃ b rest, Blank b ∧ t = "else".toList ++ (b ++ ':' :: rest) := by
  rw [isColonElse, Option.isSome_iff_exists]
  constructor
  · rintro ⟨⟨new, rest⟩, h⟩
    obtain ⟨-, ⟨b, hb, ht⟩, -⟩ := colonElse_eq_some.mp h
    exact ⟨b, rest, hb, ht⟩
  · rintro ⟨b, rest, hb, ht⟩
    exact ⟨_, colonElse_eq_some.mpr ⟨rfl, ⟨b, hb, ht⟩, rfl⟩⟩

theorem isBlockEnd_iff {t : Text} : isBlockEnd t = true ↔
    ∃ word ∈ ["if", "for", "while"], ∃ space v,
      t = "end".toList ++ (space ++ (word.toList ++ v)) ∧ (space = [] ∧ wordHasEnded v = true ∨
        space = [' '] ∧ ∃ b rest, Blank b ∧ v = b ++ ';' :: rest) := by
  constructor
  · intro h
    obtain ⟨⟨new, rest⟩, h⟩ := Option.isSome_iff_exists.mp h
    obtain ⟨-, -, word, hw, space, b, stop, hb, -, hspace, rfl, hended⟩ := blockEnd_eq_some h
    refine ⟨word, hw, space, b ++ stop ++ rest, by simp, ?_⟩
    rcases hspace with rfl | ⟨rfl, rfl⟩
    · exact Or.inl ⟨rfl, hended⟩
    · exact Or.inr ⟨rfl, b, rest, hb, by simp⟩
  · rintro ⟨word, hw, space, v, rfl, hv⟩
    exact Option.isSome_iff_ne_none.mpr (blockEnd_ne_none rfl hw hv)

theorem worded_isColonElse : Worded isColonElse := by
  refine ⟨fun {c t} h => ?_, fun t => ?_⟩
  · obtain ⟨b, rest, -, ht⟩ := isColonElse_iff.mp h
    rw [show "else".toList = 'e' :: "lse".toList from rfl, List.cons_append, List.cons.injEq] at ht
    rw [ht.1]
    decide
  · rfl

theorem worded_isBlockEnd : Worded isBlockEnd := by
  refine ⟨fun {c t} h => ?_, fun t => rfl⟩
  obtain ⟨word, -, space, v, ht, -⟩ := isBlockEnd_iff.mp h
  rw [show "end".toList = 'e' :: "nd".toList from rfl, List.cons_append, List.cons.injEq] at ht
  rw [ht.1]
  decide

theorem reflects_isColonElse : Reflects isColonElse := by
  intro before t t' h hread
  obtain ⟨b, rest, hb, rfl⟩ := isColonElse_iff.mp hread
  have hstop : ∀ c ∈ "else".toList ++ (b ++ [':']), isStop c = false := by
    intro c hc
    simp only [List.mem_append] at hc
    rcases hc with hc | hc | hc
    · exact (show ∀ c ∈ "else".toList, isStop c = false by decide) c hc
    · exact not_stop_of_blank hb c hc
    · exact (show ∀ c ∈ [':'], isStop c = false by decide) c hc
  obtain ⟨v, rfl, -⟩ := Reform.front (y := rest) hstop (by simpa using h)
  exact isColonElse_iff.mpr ⟨b, v, hb, by simp⟩

theorem reflects_isBlockEnd : Reflects isBlockEnd := by
  intro before t t' h hread
  obtain ⟨word, hw, space, v, rfl, hv⟩ := isBlockEnd_iff.mp hread
  have hwords : ∀ word ∈ ["if", "for", "while"], ∀ space ∈ [[], [' ']],
      ∀ c ∈ "end".toList ++ (space ++ word.toList), isStop c = false := by decide
  have hstop := hwords word hw space (by rcases hv with ⟨rfl, -⟩ | ⟨rfl, -⟩ <;> simp)
  have hlast : wordMayBegin (lastOr before ("end".toList ++ (space ++ word.toList))) = false := by
    rw [lastOr_append, lastOr_append]
    simp only [List.mem_cons, List.not_mem_nil, or_false] at hw
    rcases hw with rfl | rfl | rfl
    · exact show wordMayBegin (some 'f') = false by decide
    · exact show wordMayBegin (some 'r') = false by decide
    · exact show wordMayBegin (some 'e') = false by decide
  obtain ⟨u, rfl, hu⟩ := Reform.front (y := v) hstop (by simpa using h)
  refine isBlockEnd_iff.mpr ⟨word, hw, space, u, by simp, ?_⟩
  rcases hv with ⟨rfl, hended⟩ | ⟨rfl, b, rest, hb, rfl⟩
  · exact Or.inl ⟨rfl, hu.ended hlast hended⟩
  · obtain ⟨u', rfl, hu'⟩ := Reform.front (not_stop_of_blank hb) hu
    obtain ⟨b', rest', hb', rfl⟩ := hu'.semicolon
    exact Or.inr ⟨rfl, b ++ b', rest', blank_append.mpr ⟨hb, hb'⟩, by simp⟩

end Stencil.Normalize
