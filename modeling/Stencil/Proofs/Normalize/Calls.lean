import Stencil.Proofs.Mask.Renumber
import Stencil.Proofs.Normalize.Items
/-!
# Empty calls in context

A call that emits nothing lies within one piece of code. So a text of pieces without such a call has
none, and a balanced condition forms none with the parentheses around it.
-/
namespace Stencil.Normalize

open Text

/-! ## Where a call can lie -/

/-- What comes before the closing parenthesis of a call leaves its opening one without a partner. -/
theorem emptyCall_ends {m : Mask} {w : Text} (h : EmptyCall m w) :
    ∃ w', w = w' ++ [')'] ∧ ∀ depth, nest? '(' ')' depth w' = some (depth + 1) := by
  obtain ⟨hword, ha, hb, hc, -, hl, -⟩ := h
  rename_i word a b digits c literal
  refine ⟨word.toList ++ (a ++ '(' :: (b ++ Mask.opening :: (digits ++ Mask.closing :: c))), by simp,
    fun depth => ?_⟩
  have level {t : Text} (h1 : '(' ∉ t) (h2 : ')' ∉ t) (d : Nat) (rest : Text) :
      nest? '(' ')' d (t ++ rest) = nest? '(' ')' d rest := by
    rw [nest?_append, nest?_of_not_mem h1 h2, Option.bind_some]
  have blank {t : Text} (ht : Blank t) (d : Nat) (rest : Text) :
      nest? '(' ')' d (t ++ rest) = nest? '(' ')' d rest :=
    level (fun hmem => absurd (ht _ hmem) (by decide)) (fun hmem => absurd (ht _ hmem) (by decide)) d
      rest
  have hdigits := isDecimalDigit_of_literal hl
  have hparens := (show ∀ word ∈ ["print", "echo"], '(' ∉ word.toList ∧ ')' ∉ word.toList by decide)
    word hword
  rw [level hparens.1 hparens.2, blank ha, nest?_opening, blank hb,
    nest?_cons_of_ne (by decide) (by decide),
    level (fun hmem => absurd (hdigits _ hmem) (by decide))
      (fun hmem => absurd (hdigits _ hmem) (by decide)),
    nest?_cons_of_ne (by decide) (by decide), ← List.append_nil c, blank hc]
  rfl

theorem emptyCall_noStop {m : Mask} {w : Text} (h : EmptyCall m w) : ∀ c ∈ w, isStop c = false := by
  intro c hc
  rw [Bool.eq_false_iff]
  intro hstop
  have hin := inCall_of_emptyCall h c hc
  simp only [isStop, Bool.or_eq_true, beq_iff_eq] at hstop
  rcases hstop with (rfl | rfl) | rfl <;> exact absurd hin (by decide)

/-- What stands before a call does not matter where it begins the text. -/
private theorem occurs_none {before : Option Char} {w t : Text}
    (h : Occurs wordMayBegin before w t) : Occurs wordMayBegin none w t := by
  obtain ⟨u, v, ht, hbegin⟩ := h
  refine ⟨u, v, ht, ?_⟩
  cases u with
  | nil => rfl
  | cons c u => exact hbegin

/-- A call that begins in a piece of code ends there. -/
private theorem occurs_code {m : Mask} {before : Option Char} {w t rest : Text} (hw : EmptyCall m w)
    (ht : CallFree m t)
    (hrest : ∀ u y x v, t = u ++ y → w = y ++ x → rest = x ++ v → x ≠ [] → False)
    (h : Occurs wordMayBegin before w (t ++ rest)) : Occurs wordMayBegin (lastOr before t) w rest := by
  obtain ⟨u, v, hsplit, hbegin⟩ := h
  rcases List.append_eq_append_iff.mp hsplit with ⟨x, rfl, hx⟩ | ⟨x, hx, hwv⟩
  · rw [lastOr_append] at hbegin
    exact ⟨x, v, hx, hbegin⟩
  · rcases List.append_eq_append_iff.mp hwv with ⟨y, hy, hv⟩ | ⟨y, hy, hv⟩
    · -- the call lies within the code
      exact absurd (occurs_none ⟨u, y, by rw [hx, hy], hbegin⟩) (ht w hw)
    · by_cases hne : y = []
      · subst hne
        rw [List.append_nil] at hy
        exact absurd (occurs_none ⟨u, [], by rw [hx, hy, List.append_nil], hbegin⟩) (ht w hw)
      · exact (hrest u x y v hx hy hv hne).elim

private theorem close_of_suffix {m : Mask} {w x : Text} (hw : EmptyCall m w) (hx : x <:+ w)
    (hne : x ≠ []) : ∃ z, x = z ++ [')'] := by
  obtain ⟨w', hw', -⟩ := emptyCall_ends hw
  obtain ⟨z, e, hze⟩ := (List.eq_nil_or_concat x).resolve_left hne
  rw [List.concat_eq_append] at hze
  obtain ⟨q, hq⟩ := hx
  rw [hze, hw', ← List.append_assoc] at hq
  exact ⟨z, by rw [hze, (List.append_inj' hq rfl).2]⟩

/-- What follows a piece of code up to its mark is no end of a call. -/
private theorem not_end_of_stop {m : Mask} {w g rest x v : Text} {c : Char} (hw : EmptyCall m w)
    (hg : Blank g) (hc : isStop c = true) (hsplit : g ++ c :: rest = x ++ v) (hne : x ≠ [])
    (hx : x <:+ w) : False := by
  obtain ⟨z, rfl⟩ := close_of_suffix hw hx hne
  have blank (h : ')' ∈ g) : False := absurd (hg _ h) (by decide)
  rcases List.append_eq_append_iff.mp hsplit with ⟨y, hy, hrest⟩ | ⟨y, rfl, -⟩
  · cases y with
    | nil =>
        rw [List.append_nil] at hy
        exact blank (by rw [← hy]; simp)
    | cons d y =>
        rw [List.cons_append, List.cons.injEq] at hrest
        have hmem : c ∈ w := hx.subset (by rw [hy, hrest.1]; simp)
        rw [emptyCall_noStop hw c hmem] at hc
        simp at hc
  · exact blank (by simp)

/-- A text of pieces of code without an empty call has none. -/
theorem callFree_spread {m : Mask} {items : List Item}
    (hi : Punctuated (fun t _ => CallFree m t) items) : CallFree m (spread items) := by
  intro w hw
  have hall (before : Option Char) : ¬ Occurs wordMayBegin before w (spread items) := by
    induction hi generalizing before with
    | nil =>
        rintro ⟨u, v, ht, -⟩
        obtain ⟨d, ds, rfl, -⟩ := emptyCall_head hw
        simp at ht
    | @blank b r hb _ ih =>
        intro h
        refine ih _ (occurs_skip_of_head hw (fun c hc => ?_) h)
        exact ⟨fun he => absurd (hb c hc) (by rw [he]; decide),
          fun he => absurd (hb c hc) (by rw [he]; decide)⟩
    | @stop c r hc _ _ ih =>
        intro h
        refine ih _ (occurs_skip_of_head (s := [c]) hw (fun d hd => ?_) h)
        rw [List.mem_singleton] at hd
        subst hd
        refine ⟨?_, ?_⟩ <;> rintro rfl <;> simp [isStop] at hc
    | @code t g c r ht hr ih =>
        cases hr with
        | blank hg hr =>
            cases hr with
            | stop hc _ _ =>
                intro h
                exact ih _ (occurs_code hw ht (fun _ y x v _ hx hsplit hne =>
                  not_end_of_stop hw hg hc hsplit hne ⟨y, hx.symm⟩) h)
  exact hall none

/-- A text without a closing parenthesis holds no call. -/
theorem callFree_of_noParen {m : Mask} {t : Text} (h : ')' ∉ t) : CallFree m t := by
  rintro w hw ⟨u, v, rfl, -⟩
  obtain ⟨w', rfl, -⟩ := emptyCall_ends hw
  exact h (by simp)

/-- A balanced condition forms no call with the parenthesis after it. -/
theorem callFree_condition {m : Mask} {condition front back : Text} (hc : CallFree m condition)
    (hbal : Balanced '(' ')' condition) (hfront : 'p' ∉ front ∧ 'c' ∉ front)
    (hlast : front.getLast? ≠ some 'e') (hback : ')' ∉ back) :
    CallFree m (front ++ (condition ++ ')' :: back)) := by
  intro w hw h
  have hinside := occurs_skip (fun x y hsplit hy hpre => ?_) h
  · have hbehind := occurs_code hw hc (fun u y x v hcond hx hsplit hne => ?_) hinside
    · obtain ⟨u, v, hsplit, -⟩ := hbehind
      cases u with
      | nil =>
          obtain ⟨d, ds, rfl, hd⟩ := emptyCall_head hw
          rw [List.nil_append, List.cons_append, List.cons.injEq] at hsplit
          rcases hd with rfl | rfl <;> exact absurd hsplit.1 (by decide)
      | cons d u =>
          obtain ⟨w', rfl, -⟩ := emptyCall_ends hw
          rw [List.cons_append, List.cons.injEq] at hsplit
          exact hback (by rw [hsplit.2]; simp)
    · obtain ⟨z, rfl⟩ := close_of_suffix hw ⟨y, hx.symm⟩ hne
      cases z with
      | nil =>
          -- the condition would end in a call that is still open
          obtain ⟨w', hw', hnest⟩ := emptyCall_ends hw
          have hy : y = w' := (List.append_inj' (hx.symm.trans hw') rfl).1
          rw [Text.Balanced, hcond, nest?_append, hy] at hbal
          cases hdepth : nest? '(' ')' 0 u with
          | none => simp [hdepth] at hbal
          | some d => simp [hdepth, hnest] at hbal
      | cons e z =>
          rw [List.cons_append, List.cons_append, List.cons.injEq] at hsplit
          exact hback (by rw [hsplit.2]; simp)
  · rcases emptyCall_begins hw with ⟨ds, rfl⟩ | ⟨ds, rfl⟩
    · obtain ⟨e, es, rfl⟩ := List.exists_cons_of_ne_nil hy
      obtain ⟨rfl, -⟩ := List.cons_prefix_cons.mp hpre
      exact hfront.1 (by rw [hsplit]; simp)
    · obtain ⟨e, es, rfl⟩ := List.exists_cons_of_ne_nil hy
      obtain ⟨rfl, htail⟩ := List.cons_prefix_cons.mp hpre
      cases es with
      | nil => exact hlast (by rw [hsplit]; simp)
      | cons f es =>
          obtain ⟨rfl, -⟩ := List.cons_prefix_cons.mp htail
          exact hfront.2 (by rw [hsplit]; simp)

/-! ## Calls in every numbering -/

/-- What a call is in symbols. -/
theorem symbols_of_call {s : List Symbol} (hs : Symbol.Legible s) {u v front back digits : Text}
    (hfront : front ≠ []) (hf : Symbol.Bare front) (hb : Symbol.Bare back) (hne : digits ≠ [])
    (hd : ∀ d ∈ digits, isDecimalDigit d = true)
    (h : Symbol.spell s =
      u ++ front ++ (Mask.opening :: (digits ++ Mask.closing :: (back ++ v)))) :
    ∃ a i b, s = a ++ (Symbol.chars front ++ (.mark i :: (Symbol.chars back ++ b))) ∧
      Symbol.spell a = u ∧ digits = Nat.toDigits 10 i ∧ Symbol.spell b = v := by
  obtain ⟨a, rest, rfl, ha, hrest⟩ := Symbol.exists_chars hfront hf h
  rw [Symbol.legible_append, Symbol.legible_append] at hs
  cases rest with
  | nil => simp at hrest
  | cons x rest =>
      cases x with
      | char c =>
          rw [Symbol.spell_char, List.cons.injEq] at hrest
          exact absurd hrest.1 (Symbol.legible_char.mp hs.2.2).1
      | mark i =>
          have hread := Symbol.placeholder?_append i (Symbol.spell rest)
          rw [← Symbol.spell_mark, hrest, Symbol.placeholder?_eq_some.mpr ⟨rfl, hne, hd⟩,
            Option.some.injEq, Prod.mk.injEq] at hread
          obtain ⟨b, rfl, hv⟩ := Symbol.exists_chars_append hb hread.2.symm
          exact ⟨a, i, b, rfl, ha, hread.1, hv⟩

/-- A code without an empty call has none where its literals have later numbers. -/
theorem callFree_textFrom {m m' : Mask} {ts : List Tile} {k : Nat} (hp : Symbol.Plain ts)
    (hl : ∀ i < (Mask.literalsOf ts).length, m'.literals[i + k]? = m.literals[i]?)
    (h : CallFree m (Mask.textFrom 0 ts)) : CallFree m' (Mask.textFrom k ts) := by
  rintro w hw ⟨u, v, ht, hbegin⟩
  obtain ⟨hword, ha, hb, hc, hne, hliteral, hq⟩ := hw
  rename_i word a b digits c literal
  have hbare := (show ∀ word ∈ ["print", "echo"], word.toList ≠ [] ∧ Symbol.Bare word.toList by decide)
    word hword
  have hf : Symbol.Bare (word.toList ++ (a ++ '(' :: b)) := by
    rw [Symbol.bare_append, Symbol.bare_append, Symbol.bare_cons]
    exact ⟨hbare.2, Symbol.bare_of_blank ha, by decide, Symbol.bare_of_blank hb⟩
  have hclose : Symbol.Bare (c ++ [')']) :=
    Symbol.bare_append.mpr ⟨Symbol.bare_of_blank hc, by decide⟩
  have hlegible : Symbol.Legible ((Symbol.number 0 ts).map (Symbol.shift k)) := by
    rw [← Symbol.number_eq_map]
    exact Symbol.legible_number hp.legible k
  rw [Symbol.textFrom_eq_spell] at ht
  have hshape : Symbol.spell ((Symbol.number 0 ts).map (Symbol.shift k)) =
      u ++ (word.toList ++ (a ++ '(' :: b)) ++
        (Mask.opening :: (digits ++ Mask.closing :: ((c ++ [')']) ++ v))) := by
    rw [ht]
    simp
  obtain ⟨sa, i, sb, hs, rfl, rfl, rfl⟩ := symbols_of_call hlegible (by simp) hf hclose hne
    (isDecimalDigit_of_literal hliteral) hshape
  -- the same call in the code's own numbering
  obtain ⟨sa', s₁, hn, rfl, hs₁⟩ := List.map_eq_append_iff.mp hs
  obtain ⟨sf, s₂, rfl, hsf, hs₂⟩ := List.map_eq_append_iff.mp hs₁
  obtain ⟨x, s₃, rfl, hx, hs₃⟩ := List.map_eq_cons_iff.mp hs₂
  obtain ⟨sc, sb', rfl, hsc, rfl⟩ := List.map_eq_append_iff.mp hs₃
  rw [Symbol.map_shift_eq_chars hsf, Symbol.map_shift_eq_chars hsc] at hn
  cases x with
  | char d => simp [Symbol.shift] at hx
  | mark j =>
      rw [Symbol.shift, Symbol.mark.injEq] at hx
      subst hx
      have hj : j < (Mask.literalsOf ts).length := by
        have hmem : j ∈ Symbol.marks (Symbol.number 0 ts) := by
          rw [hn]
          simp [Symbol.marks]
        rw [Symbol.marks_number, List.mem_range'_1] at hmem
        omega
      have hown : m.literal? (Nat.toDigits 10 j) = some literal := by
        rw [Mask.literal?, Symbol.index?_toDigits, Option.bind_some] at hliteral ⊢
        rw [← hl j hj, hliteral]
      refine h _ (.mk hword ha hb hc Nat.toDigits_ne_nil hown hq)
        ⟨Symbol.spell sa', Symbol.spell sb', ?_, ?_⟩
      · rw [← Symbol.spell_number, hn]
        simp [Mask.placeholder]
      · rw [← Symbol.lastOr_spell_shift none k]
        exact hbegin

end Stencil.Normalize
