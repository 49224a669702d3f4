import Stencil.Proofs.Normalize.BlockWords
import Stencil.Proofs.Normalize.Items
/-!
# Passes that write braces

After the heads with a colon are rewritten, every rule of the normal form writes braces or a semicolon
in place of code without parentheses, from the beginning of a word to the end of one. What is read at
the beginning of a word after such a pass was there to be read before it.
-/
namespace Stencil.Normalize

open Text

/-- Whether nowhere in the text a word begins where something is read. -/
def nowhere (reads : Text → Bool) : Option Char → Text → Bool
  | _, [] => true
  | before, c :: cs => !(wordMayBegin before && reads (c :: cs)) && nowhere reads (some c) cs

section Nowhere

variable {reads : Text → Bool} {before : Option Char}

theorem nowhere_cons {c : Char} {t : Text} : nowhere reads before (c :: t) = true ↔
    (wordMayBegin before = true → reads (c :: t) = false) ∧ nowhere reads (some c) t = true := by
  rw [nowhere, Bool.and_eq_true, Bool.not_eq_true', Bool.and_eq_false_imp]

theorem nowhere_append_right {s t : Text} (h : nowhere reads before (s ++ t) = true) :
    nowhere reads (lastOr before s) t = true := by
  induction s generalizing before with
  | nil => exact h
  | cons c s ih => exact ih (nowhere_cons.mp h).2

theorem nowhere_iff {t : Text} : nowhere reads before t = true ↔ ∀ u c v, t = u ++ c :: v →
    wordMayBegin (lastOr before u) = true → reads (c :: v) = false := by
  induction t generalizing before with
  | nil => exact iff_of_true rfl fun u c v h => by simp at h
  | cons c t ih =>
      rw [nowhere_cons, ih]
      constructor
      · rintro ⟨hhere, hlater⟩ u d v ht
        cases u with
        | nil =>
            rw [List.nil_append, List.cons.injEq] at ht
            obtain ⟨rfl, rfl⟩ := ht
            exact hhere
        | cons e u =>
            rw [List.cons_append, List.cons.injEq] at ht
            obtain ⟨rfl, rfl⟩ := ht
            exact hlater u d v rfl
      · exact fun h => ⟨h [] c t rfl, fun u d v ht => h (c :: u) d v (by rw [ht]; rfl)⟩

end Nowhere

/-- What is read begins with a word, and this is no `else` that a brace follows. -/
structure Worded (reads : Text → Bool) : Prop where
  word : ∀ {c t}, reads (c :: t) = true → isWordChar c = true
  branch : ∀ t, reads ("else \x7b".toList ++ t) = false

/-! ## Groups of parentheses -/

/-- Wherever the new text splits off a group, so does the old one, and what is left is related. -/
def Groups (related : Text → Text → Prop) (t t' : Text) : Prop :=
  ∀ ⦃depth inside after⦄, splitGroup? '(' ')' depth t' = some (inside, after) →
    ∃ inside₀ after₀, splitGroup? '(' ')' depth t = some (inside₀, after₀) ∧ related after₀ after

theorem Groups.cons {related : Text → Text → Prop} {t t' : Text} (h : Groups related t t')
    (ht : related t t') (c : Char) : Groups related (c :: t) (c :: t') := by
  intro depth inside after hs
  have deeper {d : Nat} (hd : (splitGroup? '(' ')' d t').map (consFirst c) = some (inside, after)) :
      ∃ inside₀ after₀, (splitGroup? '(' ')' d t).map (consFirst c) = some (inside₀, after₀) ∧
        related after₀ after := by
    obtain ⟨⟨i, a⟩, hfound, heq⟩ := Option.map_eq_some_iff.mp hd
    simp only [consFirst, Prod.mk.injEq] at heq
    obtain ⟨-, rfl⟩ := heq
    obtain ⟨i₀, a₀, hi₀, ha₀⟩ := h hfound
    exact ⟨c :: i₀, a₀, by rw [hi₀]; rfl, ha₀⟩
  unfold splitGroup? at hs ⊢
  split at hs
  · rename_i hopen
    rw [if_pos hopen]
    exact deeper hs
  · rename_i hopen
    rw [if_neg hopen]
    split at hs
    · rename_i hclose
      rw [if_pos hclose]
      cases depth with
      | zero =>
          rw [Option.some.injEq, Prod.mk.injEq] at hs
          exact ⟨[], t, rfl, hs.2 ▸ ht⟩
      | succ outer => exact deeper hs
    · rename_i hclose
      rw [if_neg hclose]
      exact deeper hs

/-- Stretches that nest alike make no difference. -/
theorem Groups.append {related : Text → Text → Prop} {t t' : Text} (h : Groups related t t')
    {old new : Text} (hnest : ∀ depth, ∃ d, nest? '(' ')' depth old = some d ∧
      nest? '(' ')' depth new = some d) : Groups related (old ++ t) (new ++ t') := by
  intro depth inside after hs
  obtain ⟨d, hold, hnew⟩ := hnest depth
  rw [splitGroup?_append (by decide) hnew] at hs
  obtain ⟨⟨i, a⟩, hfound, heq⟩ := Option.map_eq_some_iff.mp hs
  rw [Prod.mk.injEq] at heq
  obtain ⟨-, rfl⟩ := heq
  obtain ⟨i₀, a₀, hi₀, ha₀⟩ := h hfound
  exact ⟨old ++ i₀, a₀, by rw [splitGroup?_append (by decide) hold, hi₀]; rfl, ha₀⟩

/-! ## Texts that differ by punctuation -/

/-- The braces that are written. -/
def braces : List Text := ["\x7d else \x7b", "\x7d", "\x7b"].map String.toList

/-- What may be written for a stretch: braces for one without parentheses, and a semicolon for one
with white space around it and more semicolons after it. -/
inductive Becomes : Text → Text → Prop
  | brace {old new : Text} : new ∈ braces → (∀ c ∈ old, c ≠ '(' ∧ c ≠ ')') → Becomes old new
  | semicolon {b g : Text} : Blank b → (∀ c ∈ g, isBlank c = true ∨ c = ';') →
      Becomes (b ++ ';' :: g) [';']

/-- The new text comes from the old one by writing punctuation for stretches that cut no word, and
by dropping white space at the end. -/
inductive Reform : Option Char → Text → Text → Prop
  | nil {before : Option Char} {b : Text} : Blank b → Reform before b []
  | keep {before : Option Char} {c : Char} {t t' : Text} :
      Reform (some c) t t' → Reform before (c :: t) (c :: t')
  | swap {before : Option Char} {old new t t' : Text} : old ≠ [] → Becomes old new →
      (wordMayBegin before = false → wordHasEnded old = true) → Edge old t →
      Reform (lastOr before old) t t' → Reform before (old ++ t) (new ++ t')

theorem Reform.prepend {before : Option Char} {t t' : Text} (u : Text)
    (h : Reform (lastOr before u) t t') : Reform before (u ++ t) (u ++ t') := by
  induction u generalizing before with
  | nil => exact h
  | cons c u ih => exact .keep (ih h)

theorem mem_braces {new : Text} (h : new ∈ braces) :
    new = '}' :: " else \x7b".toList ∨ new = ['}'] ∨ new = ['{'] := by
  revert new
  decide

theorem Becomes.exists_stop {old new : Text} (h : Becomes old new) :
    ∃ c v, new = c :: v ∧ isStop c = true := by
  cases h with
  | brace hn _ => rcases mem_braces hn with rfl | rfl | rfl <;> exact ⟨_, _, rfl, rfl⟩
  | semicolon => exact ⟨_, _, rfl, rfl⟩

theorem Becomes.noParen {old new : Text} (h : Becomes old new) :
    (∀ c ∈ old, c ≠ '(' ∧ c ≠ ')') ∧ ∀ c ∈ new, c ≠ '(' ∧ c ≠ ')' := by
  cases h with
  | brace hn hold =>
      exact ⟨hold, (show ∀ new ∈ braces, ∀ c ∈ new, c ≠ '(' ∧ c ≠ ')' by decide) _ hn⟩
  | @semicolon b g hb hg =>
      have blank {c : Char} (h : isBlank c = true) : c ≠ '(' ∧ c ≠ ')' :=
        ⟨fun he => absurd h (by rw [he]; decide), fun he => absurd h (by rw [he]; decide)⟩
      refine ⟨fun c hc => ?_, by decide⟩
      simp only [List.mem_append, List.mem_cons] at hc
      rcases hc with hc | rfl | hc
      · exact blank (hb c hc)
      · decide
      · exact (hg c hc).elim blank fun he => by rw [he]; decide

section Reform

variable {before : Option Char} {t t' : Text}

/-- What stands at the front, up to a mark, stood there before. -/
theorem Reform.front {w y : Text} (hw : ∀ c ∈ w, isStop c = false) (h : Reform before t (w ++ y)) :
    ∃ v, t = w ++ v ∧ Reform (lastOr before w) v y := by
  induction w generalizing before t with
  | nil => exact ⟨t, rfl, h⟩
  | cons c w ih =>
      generalize ht' : c :: w ++ y = t' at h
      cases h with
      | nil => simp at ht'
      | @keep _ d t t' h =>
          rw [List.cons_append, List.cons.injEq] at ht'
          obtain ⟨rfl, rfl⟩ := ht'
          obtain ⟨v, rfl, hv⟩ := ih (fun d hd => hw d (by simp [hd])) h
          exact ⟨v, rfl, hv⟩
      | swap _ hnew _ _ _ =>
          obtain ⟨d, v, rfl, hd⟩ := hnew.exists_stop
          rw [List.cons_append, List.cons_append, List.cons.injEq] at ht'
          have := hw c (by simp)
          rw [ht'.1, hd] at this
          simp at this

/-- What comes next after white space came next before. -/
theorem Reform.next {c : Char} {rest : Text} (hstop : isStop c = false) (hblank : isBlank c = false)
    (h : Reform before t t') (ht' : trimStart t' = c :: rest) :
    ∃ rest₀, trimStart t = c :: rest₀ := by
  obtain ⟨b, hb, hsplit⟩ := exists_blank_trimStart t'
  rw [hsplit, ht'] at h
  have hfront : ∀ d ∈ b ++ [c], isStop d = false := by
    intro d hd
    rcases List.mem_append.mp hd with hd | hd
    · exact not_stop_of_blank hb d hd
    · rw [List.mem_singleton.mp hd]
      exact hstop
  obtain ⟨rest₀, rfl, -⟩ := Reform.front (y := rest) hfront (by simpa using h)
  refine ⟨rest₀, ?_⟩
  rw [List.append_assoc, List.singleton_append, trimStart_append hb (flush_cons.mpr hblank)]

/-- A semicolon at the front stood there before, white space apart. -/
theorem Reform.semicolon {y : Text} (h : Reform before t (';' :: y)) :
    ∃ b v, Blank b ∧ t = b ++ ';' :: v := by
  generalize ht' : ';' :: y = t' at h
  cases h with
  | nil => simp at ht'
  | @keep _ d t t' h =>
      rw [List.cons.injEq] at ht'
      exact ⟨[], t, blank_nil, by rw [ht'.1]; rfl⟩
  | swap _ hnew _ _ _ =>
      cases hnew with
      | brace hn _ => rcases mem_braces hn with rfl | rfl | rfl <;> simp at ht'
      | @semicolon b g hb _ => exact ⟨b, g ++ _, hb, by rw [List.append_assoc]; rfl⟩

/-- Only white space becomes nothing. -/
theorem Reform.blank (h : Reform before t []) : Blank t := by
  generalize ht' : ([] : Text) = t' at h
  cases h with
  | nil hb => exact hb
  | keep _ => simp at ht'
  | swap _ hnew _ _ _ =>
      obtain ⟨c, v, rfl, -⟩ := hnew.exists_stop
      simp at ht'

/-- After a character of a word, no word is begun or cut. -/
theorem Reform.ended (hbefore : wordMayBegin before = false) (h : Reform before t t')
    (ht' : wordHasEnded t' = true) : wordHasEnded t = true := by
  cases h with
  | @nil _ b hb =>
      have h := ended_blank_append hb (t := []) rfl
      rwa [List.append_nil] at h
  | keep _ => exact ht'
  | @swap _ old _ _ _ hold _ hstart _ _ =>
      obtain ⟨c, cs, rfl⟩ := List.exists_cons_of_ne_nil hold
      exact hstart hbefore

/-- A group of parentheses was one before, and what follows it comes from what followed it. -/
theorem Reform.groups (h : Reform before t t') :
    Groups (fun after after' => ∃ before, Reform before after after') t t' := by
  induction h with
  | nil => exact fun _ _ _ hs => by simp [splitGroup?] at hs
  | keep h ih => exact ih.cons ⟨_, h⟩ _
  | swap _ hnew _ _ _ ih =>
      have level {s : Text} (hs : ∀ c ∈ s, c ≠ '(' ∧ c ≠ ')') (depth : Nat) :=
        nest?_of_not_mem (fun h => (hs _ h).1 rfl) (fun h => (hs _ h).2 rfl) depth
      exact ih.append fun depth => ⟨_, level hnew.noParen.1 depth, level hnew.noParen.2 depth⟩

end Reform

/-- After a stretch that cuts no word, a word may begin or none runs on. -/
private theorem begin_or_ended {before : Option Char} {old rest : Text} (hold : old ≠ [])
    (h : Edge old rest) :
    wordMayBegin (lastOr before old) = true ∨ wordHasEnded rest = true := by
  obtain ⟨c, cs, rfl⟩ := List.exists_cons_of_ne_nil hold
  by_cases hlast : (lastOr (some c) cs).any isWordChar = true
  · exact Or.inr (by simpa [wordHasEnded] using h hlast)
  · exact Or.inl (by simpa [wordMayBegin] using hlast)

/-! ## What is read at the beginning of a word -/

/-- What is read of the new text could be read of the old one. -/
def Reflects (reads : Text → Bool) : Prop :=
  ∀ ⦃before t t'⦄, Reform before t t' → reads t' = true → reads t = true

section Reads

variable {reads : Text → Bool} {before : Option Char}

theorem Worded.outside (hw : Worded reads) {c : Char} (hc : isWordChar c = false) (t : Text) :
    reads (c :: t) = false := by
  rw [Bool.eq_false_iff]
  intro hr
  rw [hw.word hr] at hc
  simp at hc

/-- What is read where a character is kept was there to be read at the beginning of a word. -/
theorem Reflects.keep (hr : Reflects reads) (hw : Worded reads) {c : Char} {t t' : Text}
    (h : Reform (some c) t t') {before' : Option Char} (hb : wordMayBegin before' = true)
    (hbegin : wordMayBegin before' = true → wordMayBegin before = true ∨ wordHasEnded (c :: t) = true)
    (hread : reads (c :: t') = true) : wordMayBegin before = true ∧ reads (c :: t) = true := by
  have hkeep : Reform before (c :: t) (c :: t') := .keep h
  have hold := hr hkeep hread
  rcases hbegin hb with hb | hended
  · exact ⟨hb, hold⟩
  · simp [wordHasEnded, hw.word hold] at hended

/-- Punctuation that is written brings nothing to read. -/
theorem Worded.nowhere_becomes (hw : Worded reads) {old new y : Text} (hnew : Becomes old new)
    (hy : nowhere reads (lastOr before new) y = true) : nowhere reads before (new ++ y) = true := by
  have outside {b : Option Char} {c : Char} {t : Text} (hc : isWordChar c = false)
      (h : nowhere reads (some c) t = true) : nowhere reads b (c :: t) = true :=
    nowhere_cons.mpr ⟨fun _ => hw.outside hc t, h⟩
  -- inside a word none begins
  have within {c d : Char} {t : Text} (hd : isWordChar d = true)
      (h : nowhere reads (some c) t = true) : nowhere reads (some d) (c :: t) = true :=
    nowhere_cons.mpr ⟨fun hbegin => by simp [wordMayBegin, hd] at hbegin, h⟩
  cases hnew with
  | brace hn _ =>
      rcases mem_braces hn with rfl | rfl | rfl
      · refine outside (by decide) (outside (by decide) (nowhere_cons.mpr ⟨fun _ => hw.branch y, ?_⟩))
        exact within (by decide) (within (by decide) (within (by decide)
          (outside (by decide) (outside (by decide) hy))))
      · exact outside (by decide) hy
      · exact outside (by decide) hy
  | semicolon => exact outside (by decide) hy

theorem Reform.nowhere (hw : Worded reads) (hr : Reflects reads) {t t' : Text}
    (h : Reform before t t') {before' : Option Char}
    (hbegin : wordMayBegin before' = true → wordMayBegin before = true ∨ wordHasEnded t = true)
    (ht : nowhere reads before t = true) : nowhere reads before' t' = true := by
  induction h generalizing before' with
  | nil => rfl
  | @keep before c t t' h ih =>
      obtain ⟨hhere, hlater⟩ := nowhere_cons.mp ht
      refine nowhere_cons.mpr ⟨fun hb => ?_, ih Or.inl hlater⟩
      rw [Bool.eq_false_iff]
      intro hread
      obtain ⟨hb, hold⟩ := hr.keep hw h hb hbegin hread
      rw [hhere hb] at hold
      simp at hold
  | @swap before old new t t' hold hnew _ hedge _ ih =>
      exact hw.nowhere_becomes hnew
        (ih (fun _ => begin_or_ended hold hedge) (nowhere_append_right ht))

end Reads

/-! ## Rules that write punctuation -/

/-- Wherever the rule applies, it writes punctuation. -/
def Reforms (rule : Rule) : Prop :=
  ∀ ⦃before t new rest⦄, rule before t = some (new, rest) → ∃ old, old ≠ [] ∧ t = old ++ rest ∧
    ∀ {rest'}, Reform (lastOr before old) rest rest' → Reform before (old ++ rest) (new ++ rest')

theorem Reforms.advances {rule : Rule} (h : Reforms rule) : rule.Advances := by
  intro before t new rest hr
  obtain ⟨old, hold, ht, -⟩ := h hr
  exact ⟨old, hold, ht⟩

theorem Reforms.replaceFrom {rule : Rule} (h : Reforms rule) (before : Option Char) (t : Text) :
    Reform before t (replaceFrom rule 0 before t) := by
  refine replaceFrom_induct h.advances (motive := Reform) (fun _ => .nil blank_nil)
    (fun _ _ _ _ _ ih => .keep ih) ?_ before t
  intro before old rest new more _ hr ih
  obtain ⟨old', -, ht, hreform⟩ := h hr
  have hsame := List.append_cancel_right ht
  subst hsame
  exact hreform ih

/-- Wherever the rule applies, it writes punctuation for one stretch. -/
def Swaps (rule : Rule) : Prop :=
  ∀ ⦃before t new rest⦄, rule before t = some (new, rest) → ∃ old, old ≠ [] ∧ t = old ++ rest ∧
    Becomes old new ∧ (wordMayBegin before = false → wordHasEnded old = true) ∧ Edge old rest

theorem Swaps.reforms {rule : Rule} (h : Swaps rule) : Reforms rule := by
  intro before t new rest hr
  obtain ⟨old, hold, ht, hnew, hstart, hedge⟩ := h hr
  exact ⟨old, hold, ht, .swap hold hnew hstart hedge⟩

/-- A rule that applies wherever something is read leaves nothing to read. -/
theorem Swaps.nowhere {rule : Rule} (h : Swaps rule) {reads : Text → Bool} (hw : Worded reads)
    (hr : Reflects reads) (hrule : ∀ {before t}, wordMayBegin before = true → reads t = true →
      rule before t ≠ none) (t : Text) : nowhere reads none (t.replaceAll rule) = true := by
  suffices key : Reform none t (t.replaceAll rule) ∧ ∀ before',
      (wordMayBegin before' = true → wordMayBegin none = true ∨ wordHasEnded t = true) →
        Normalize.nowhere reads before' (t.replaceAll rule) = true from key.2 none Or.inl
  refine replaceFrom_induct (Reforms.advances (Swaps.reforms h))
    (motive := fun before t out => Reform before t out ∧ ∀ before',
      (wordMayBegin before' = true → wordMayBegin before = true ∨ wordHasEnded t = true) →
        Normalize.nowhere reads before' out = true)
    (fun _ => ⟨.nil blank_nil, fun _ _ => rfl⟩) ?_ ?_ none t
  · rintro before c t out hmiss ⟨hreform, ih⟩
    refine ⟨.keep hreform, fun before' hbegin => nowhere_cons.mpr ⟨fun hb => ?_, ih _ Or.inl⟩⟩
    rw [Bool.eq_false_iff]
    intro hread
    obtain ⟨hb, hold⟩ := hr.keep hw hreform hb hbegin hread
    exact hrule hb hold hmiss
  · rintro before old rest new more hold hhit ⟨hreform, ih⟩
    obtain ⟨old', -, ht, hnew, hstart, hedge⟩ := h hhit
    have hsame := List.append_cancel_right ht
    subst hsame
    refine ⟨.swap hold hnew hstart hedge hreform, fun before' _ => ?_⟩
    exact hw.nowhere_becomes hnew (ih _ fun _ => begin_or_ended hold hedge)

end Stencil.Normalize
