import Stencil.Proofs.Mask.Settled
/-!
# Numbering from another index on

Where a stretch of code stands among others, its literals get later numbers. What its masked text
says outside the placeholders stays the same.
-/
namespace Stencil.Symbol

/-- The symbol with a later number. -/
def shift (k : Nat) : Symbol → Symbol
  | char c => char c
  | mark i => mark (i + k)

theorem number_shift (j k : Nat) (ts : List Tile) :
    number (j + k) ts = (number j ts).map (shift k) := by
  induction ts generalizing j with
  | nil => rfl
  | cons x ts ih =>
      cases x with
      | plain c => exact congrArg (char c :: ·) (ih j)
      | literal t =>
          rw [number, number, List.map_cons, shift, ← ih (j + 1), Nat.add_right_comm]
      | comment t => exact ih j
      | spaced t => exact congrArg (char ' ' :: ·) (ih j)

theorem number_eq_map (k : Nat) (ts : List Tile) : number k ts = (number 0 ts).map (shift k) := by
  rw [← number_shift, Nat.zero_add]

theorem mem_spell {c : Char} (hc : isMarkChar c = false) {s : List Symbol} :
    c ∈ spell s ↔ char c ∈ s := by
  constructor
  · intro h
    obtain ⟨u, v, hsplit⟩ := List.append_of_mem h
    obtain ⟨a, b, rfl, -, -⟩ := exists_cut hc hsplit
    simp
  · intro h
    obtain ⟨a, b, rfl⟩ := List.append_of_mem h
    simp

theorem map_shift_eq_chars {k : Nat} {s : List Symbol} {t : Text} (h : s.map (shift k) = chars t) :
    s = chars t := by
  induction t generalizing s with
  | nil => exact List.map_eq_nil_iff.mp h
  | cons c cs ih =>
      obtain ⟨x, s', rfl, hx, hs⟩ := List.map_eq_cons_iff.mp h
      rw [ih hs]
      cases x with
      | char d => exact congrArg (· :: chars cs) hx
      | mark i => simp [shift] at hx

/-- Symbols that spell no character of a placeholder are the characters. -/
theorem eq_chars {s : List Symbol} {t : Text} (ht : Bare t) (h : spell s = t) :
    s = chars t := by
  obtain ⟨rest, rfl, hrest⟩ := exists_chars_append ht (h.trans (List.append_nil t).symm)
  cases rest with
  | nil => simp
  | cons x rest => cases x <;> simp [Mask.placeholder] at hrest

/-- A stretch of a masked text without a character of a placeholder spells characters of the
code. -/
theorem exists_chars {s : List Symbol} {u w v : Text} (hne : w ≠ []) (hw : Bare w)
    (h : spell s = u ++ w ++ v) :
    ∃ a b, s = a ++ (chars w ++ b) ∧ spell a = u ∧ spell b = v := by
  obtain ⟨c, cs, rfl⟩ := List.exists_cons_of_ne_nil hne
  rw [bare_cons] at hw
  rw [List.append_assoc, List.cons_append] at h
  obtain ⟨a, b, rfl, ha, hb⟩ := exists_cut hw.1 h
  obtain ⟨b', rfl, hb'⟩ := exists_chars_append hw.2 hb
  exact ⟨a, b', rfl, ha, hb'⟩

theorem lastOr_placeholder (before : Option Char) (i : Nat) :
    Text.lastOr before (Mask.placeholder i) = some Mask.closing := by
  rw [Mask.placeholder, List.cons_append, Text.lastOr_cons, Text.lastOr_append]
  rfl

/-- The last character does not tell how the literals are numbered. -/
theorem lastOr_spell_shift (before : Option Char) (k : Nat) (s : List Symbol) :
    Text.lastOr before (spell (s.map (shift k))) = Text.lastOr before (spell s) := by
  induction s generalizing before with
  | nil => rfl
  | cons x s ih =>
      cases x with
      | char c => exact ih (some c)
      | mark i =>
          rw [List.map_cons, shift, spell_mark, spell_mark, Text.lastOr_append, Text.lastOr_append,
            lastOr_placeholder, lastOr_placeholder, ih]

/-- Nor does the first character. -/
theorem head?_spell_shift (k : Nat) (s : List Symbol) :
    (spell (s.map (shift k))).head? = (spell s).head? := by
  cases s with
  | nil => rfl
  | cons x s => cases x <;> rfl

/-- Brackets nest the same however the literals are numbered. -/
theorem nest?_spell_shift {opening closing : Char} (ho : isMarkChar opening = false)
    (hc : isMarkChar closing = false) (depth k : Nat) (s : List Symbol) :
    Text.nest? opening closing depth (spell (s.map (shift k))) =
      Text.nest? opening closing depth (spell s) := by
  have hmark (d i : Nat) (t : Text) : Text.nest? opening closing d (Mask.placeholder i ++ t) =
      Text.nest? opening closing d t := by
    have hout {c : Char} (h : isMarkChar c = false) : c ∉ Mask.placeholder i := by
      intro hmem
      rw [isMarkChar_placeholder hmem] at h
      simp at h
    rw [Text.nest?_append, Text.nest?_of_not_mem (hout ho) (hout hc), Option.bind_some]
  induction s generalizing depth with
  | nil => rfl
  | cons x s ih =>
      cases x with
      | char c =>
          have hchar (t : Text) : Text.nest? opening closing depth (c :: t) =
              (Text.nest? opening closing depth [c]).bind fun d => Text.nest? opening closing d t :=
            Text.nest?_append depth [c] t
          rw [List.map_cons, shift, spell_char, spell_char, hchar, hchar (spell s)]
          simp only [ih]
      | mark i => rw [List.map_cons, shift, spell_mark, spell_mark, hmark, hmark, ih]

/-- A stretch of code is there in every numbering, with the same characters around it. -/
theorem exists_unshifted {k : Nat} {s : List Symbol} {u w v : Text} (hne : w ≠ []) (hw : Bare w)
    (h : spell (s.map (shift k)) = u ++ w ++ v) :
    ∃ u' v', spell s = u' ++ w ++ v' ∧ (∀ before, Text.lastOr before u' = Text.lastOr before u) ∧
      v'.head? = v.head? := by
  obtain ⟨a, b, hs, rfl, rfl⟩ := exists_chars hne hw h
  obtain ⟨a', rest, rfl, rfl, hrest⟩ := List.map_eq_append_iff.mp hs
  obtain ⟨w', b', rfl, hchars, rfl⟩ := List.map_eq_append_iff.mp hrest
  rw [map_shift_eq_chars hchars]
  refine ⟨spell a', spell b', by simp, fun before => (lastOr_spell_shift before k a').symm, ?_⟩
  exact (head?_spell_shift k b').symm

/-! ## Code among other code -/

/-- The masked text of a code whose literals are numbered from an index on. -/
theorem textFrom_eq_spell (k : Nat) (ts : List Tile) :
    Mask.textFrom k ts = spell ((number 0 ts).map (shift k)) := by
  rw [← number_eq_map, spell_number]

theorem textFrom_append (k : Nat) (s t : List Tile) :
    Mask.textFrom k (s ++ t) =
      Mask.textFrom k s ++ Mask.textFrom (k + (Mask.literalsOf s).length) t := by
  rw [← spell_number, number_append, spell_append, spell_number, spell_number]

theorem textFrom_plain (k : Nat) (t : Text) : Mask.textFrom k (t.map .plain) = t := by
  induction t with
  | nil => rfl
  | cons c cs ih => exact congrArg (c :: ·) ih

theorem literalsOf_plain (t : Text) : Mask.literalsOf (t.map .plain) = [] := by
  induction t with
  | nil => rfl
  | cons c cs ih => exact ih

theorem mem_textFrom {c : Char} (hc : isMarkChar c = false) (k : Nat) (ts : List Tile) :
    c ∈ Mask.textFrom k ts ↔ c ∈ Mask.textFrom 0 ts := by
  rw [textFrom_eq_spell, textFrom_eq_spell, mem_spell hc, mem_spell hc]
  have hshift (j : Nat) : char c ∈ (number 0 ts).map (shift j) ↔ char c ∈ number 0 ts := by
    rw [List.mem_map]
    constructor
    · rintro ⟨x, hx, he⟩
      cases x with
      | char d => exact he ▸ hx
      | mark i => simp [shift] at he
    · exact fun h => ⟨char c, h, rfl⟩
  rw [hshift, hshift]

end Stencil.Symbol
