import Stencil.Mask
import Stencil.Proofs.Text.Blank
import Stencil.Proofs.Text.Reading
import Stencil.Proofs.Text.Replacement
/-!
# Masked texts as symbols

A masked text spells a list of symbols: characters of the code, and marks where literals stood.
Restoring fills the marks in. A pass that only exchanges characters that no placeholder has keeps
the marks, in order.
-/
namespace Stencil

/-- What a masked text is made of. -/
inductive Symbol where
  | char (c : Char)
  | mark (index : Nat)
deriving Repr, DecidableEq

namespace Symbol

/-- Whether placeholders are spelled with the character. -/
def isMarkChar (c : Char) : Bool := c == Mask.opening || c == Mask.closing || c.isDigit

def spelling : Symbol → Text
  | char c => [c]
  | mark i => Mask.placeholder i

def spell (s : List Symbol) : Text := s.flatMap spelling

def chars (t : Text) : List Symbol := t.map char

/-- The marks, in order. -/
def marks : List Symbol → List Nat
  | [] => []
  | char _ :: s => marks s
  | mark i :: s => i :: marks s

/-- What a symbol stands for, given the literals. -/
def meaning (literals : List Text) : Symbol → Text
  | char c => [c]
  | mark i => literals[i]?.getD (Mask.placeholder i)

def fill (literals : List Text) (s : List Symbol) : Text := s.flatMap (meaning literals)

/-- No character looks like the beginning of a placeholder. -/
def Legible (s : List Symbol) : Prop := ∀ c, char c ∈ s → c ≠ Mask.opening

/-- The symbols of tiles whose literals are numbered from an index on. -/
def number : Nat → List Tile → List Symbol
  | _, [] => []
  | i, .plain c :: rest => char c :: number i rest
  | i, .literal _ :: rest => mark i :: number (i + 1) rest
  | i, .comment _ :: rest => number i rest
  | i, .spaced _ :: rest => char ' ' :: number i rest

@[simp] theorem spell_nil : spell [] = [] := rfl

@[simp] theorem spell_char (c : Char) (s : List Symbol) : spell (char c :: s) = c :: spell s := rfl

@[simp] theorem spell_mark (i : Nat) (s : List Symbol) :
    spell (mark i :: s) = Mask.placeholder i ++ spell s := rfl

@[simp] theorem spell_append (s t : List Symbol) : spell (s ++ t) = spell s ++ spell t := by
  simp [spell]

@[simp] theorem spell_chars (t : Text) : spell (chars t) = t := by
  induction t with
  | nil => rfl
  | cons c cs ih => exact congrArg (c :: ·) ih

@[simp] theorem marks_append (s t : List Symbol) : marks (s ++ t) = marks s ++ marks t := by
  induction s with
  | nil => rfl
  | cons x s ih =>
      cases x with
      | char c => exact ih
      | mark i => exact congrArg (i :: ·) ih

@[simp] theorem marks_chars (t : Text) : marks (chars t) = [] := by
  induction t with
  | nil => rfl
  | cons c cs ih => exact ih

@[simp] theorem fill_nil (literals : List Text) : fill literals [] = [] := rfl

@[simp] theorem fill_append (literals : List Text) (s t : List Symbol) :
    fill literals (s ++ t) = fill literals s ++ fill literals t := by
  simp [fill]

@[simp] theorem fill_char (literals : List Text) (c : Char) (s : List Symbol) :
    fill literals (char c :: s) = c :: fill literals s := rfl

theorem fill_mark (literals : List Text) (i : Nat) (s : List Symbol) :
    fill literals (mark i :: s) = literals[i]?.getD (Mask.placeholder i) ++ fill literals s := rfl

@[simp] theorem legible_nil : Legible [] := by simp [Legible]

@[simp] theorem legible_append {s t : List Symbol} : Legible (s ++ t) ↔ Legible s ∧ Legible t := by
  simp only [Legible, List.mem_append]
  exact ⟨fun h => ⟨fun c hc => h c (Or.inl hc), fun c hc => h c (Or.inr hc)⟩,
    fun h c hc => hc.elim (h.1 c) (h.2 c)⟩

@[simp] theorem legible_char {c : Char} {s : List Symbol} :
    Legible (char c :: s) ↔ c ≠ Mask.opening ∧ Legible s := by
  simp [Legible]

@[simp] theorem legible_mark {i : Nat} {s : List Symbol} : Legible (mark i :: s) ↔ Legible s := by
  simp [Legible]

theorem legible_chars {t : Text} (h : Mask.opening ∉ t) : Legible (chars t) := by
  intro c hc
  simp only [chars, List.mem_map, char.injEq, exists_eq_right] at hc
  exact fun he => h (he ▸ hc)

@[simp] theorem isMarkChar_opening : isMarkChar Mask.opening = true := by decide

theorem isMarkChar_placeholder {i : Nat} {c : Char} (h : c ∈ Mask.placeholder i) :
    isMarkChar c = true := by
  simp only [Mask.placeholder, List.cons_append, List.mem_cons, List.mem_append,
    List.not_mem_nil, or_false] at h
  rcases h with rfl | h | rfl
  · decide
  · simp [isMarkChar, Nat.isDigit_of_mem_toDigits (by decide) (by decide) h]
  · decide

theorem ne_opening_of_not_markChar {c : Char} (h : isMarkChar c = false) : c ≠ Mask.opening := by
  rintro rfl
  simp at h

theorem isMarkChar_of_blank {c : Char} (h : isBlank c = true) : isMarkChar c = false := by
  have hall : ∀ n ∈ blankCodes, isMarkChar (Char.ofNat n) = false := by decide
  have := hall _ (toNat_mem_blankCodes h)
  rwa [Char.ofNat_toNat] at this

/-- No character of the text belongs to a placeholder. -/
def Bare (t : Text) : Prop := ∀ c ∈ t, isMarkChar c = false

instance (t : Text) : Decidable (Bare t) := inferInstanceAs (Decidable (∀ c ∈ t, _))

@[simp] theorem bare_nil : Bare [] := by simp [Bare]

@[simp] theorem bare_cons {c : Char} {t : Text} :
    Bare (c :: t) ↔ isMarkChar c = false ∧ Bare t := by
  simp [Bare]

@[simp] theorem bare_append {s t : Text} : Bare (s ++ t) ↔ Bare s ∧ Bare t := by
  simp only [Bare, List.mem_append]
  exact ⟨fun h => ⟨fun c hc => h c (Or.inl hc), fun c hc => h c (Or.inr hc)⟩,
    fun h c hc => hc.elim (h.1 c) (h.2 c)⟩

theorem bare_of_blank {b : Text} (h : Text.Blank b) : Bare b :=
  fun c hc => isMarkChar_of_blank (h c hc)

/-! ## Where a spelling can be cut -/

/-- A spelling can be cut at every character that no placeholder has. -/
theorem exists_cut {s : List Symbol} {u t : Text} {c : Char} (hc : isMarkChar c = false)
    (h : spell s = u ++ c :: t) :
    ∃ a b, s = a ++ char c :: b ∧ spell a = u ∧ spell b = t := by
  induction s generalizing u with
  | nil => simp at h
  | cons x s ih =>
      cases x with
      | char d =>
          cases u with
          | nil =>
              simp only [spell_char, List.nil_append, List.cons.injEq] at h
              exact ⟨[], s, by rw [h.1, List.nil_append], rfl, h.2⟩
          | cons e u =>
              simp only [spell_char, List.cons_append, List.cons.injEq] at h
              obtain ⟨a, b, rfl, ha, hb⟩ := ih h.2
              exact ⟨char d :: a, b, rfl, by rw [spell_char, ha, h.1], hb⟩
      | mark i =>
          rw [spell_mark] at h
          rcases List.append_eq_append_iff.mp h with ⟨v, rfl, hv⟩ | ⟨v, hv, ht⟩
          · obtain ⟨a, b, rfl, ha, hb⟩ := ih hv
            exact ⟨mark i :: a, b, rfl, by rw [spell_mark, ha], hb⟩
          · -- the character would belong to the placeholder
            cases v with
            | nil =>
                obtain ⟨a, b, rfl, ha, hb⟩ := ih (u := []) ht.symm
                refine ⟨mark i :: a, b, rfl, ?_, hb⟩
                rw [spell_mark, ha, List.append_nil]
                simpa using hv
            | cons d v =>
                simp only [List.cons_append, List.cons.injEq] at ht
                have : isMarkChar d = true := isMarkChar_placeholder (i := i) (by rw [hv]; simp)
                rw [← ht.1, hc] at this
                simp at this

/-- Characters that no placeholder has are read off a spelling one by one. -/
theorem exists_chars_append {s : List Symbol} {u t : Text} (hu : Bare u)
    (h : spell s = u ++ t) : ∃ b, s = chars u ++ b ∧ spell b = t := by
  induction u generalizing s with
  | nil => exact ⟨s, rfl, h⟩
  | cons c u ih =>
      obtain ⟨a, b, rfl, ha, hb⟩ := exists_cut (u := []) (hu c (by simp)) h
      obtain ⟨b', rfl, hb'⟩ := ih (bare_cons.mp hu).2 hb
      have : a = [] := by
        cases a with
        | nil => rfl
        | cons x a => cases x <;> simp [Mask.placeholder] at ha
      exact ⟨b', by rw [this]; rfl, hb'⟩

/-- A stretch of a spelling between two characters that no placeholder has is a spelling. -/
theorem exists_stretch {s : List Symbol} {u w v : Text} {c d : Char} (hc : isMarkChar c = false)
    (hd : isMarkChar d = false) (hs : Legible s) (h : spell s = u ++ (c :: (w ++ [d]) ++ v)) :
    ∃ s', spell s' = c :: (w ++ [d]) ∧ marks s' <:+: marks s ∧ Legible s' := by
  have hsplit : spell s = u ++ c :: (w ++ d :: v) := by rw [h]; simp
  obtain ⟨a, b, rfl, -, hb⟩ := exists_cut hc hsplit
  obtain ⟨b₁, b₂, rfl, hw, -⟩ := exists_cut hd hb
  simp only [legible_append, legible_char] at hs
  refine ⟨char c :: (b₁ ++ [char d]), by simp [hw], ⟨marks a, marks b₂, by simp [marks]⟩, ?_⟩
  simp only [legible_append, legible_char]
  exact ⟨hs.2.1, hs.2.2.1, hs.2.2.2.1, legible_nil⟩

/-! ## Restoring -/

theorem isDecimalDigit_of_isDigit {c : Char} (h : c.isDigit = true) : isDecimalDigit c = true := by
  have hlt : c.val < 0x80 := by
    simp only [Char.isDigit, ge_iff_le, Bool.and_eq_true, decide_eq_true_eq] at h
    exact UInt32.lt_of_le_of_lt h.2 (by decide)
  simp [isDecimalDigit, hlt, h]

theorem index?_toDigits (i : Nat) : Mask.index? (Nat.toDigits 10 i) = some i := by
  have hd : (Nat.toDigits 10 i).all Char.isDigit = true := by
    rw [List.all_eq_true]
    exact fun c hc => Nat.isDigit_of_mem_toDigits (by decide) (by decide) hc
  have hv := Nat.ofDigitChars_ten_toDigits (n := i)
  rw [Nat.ofDigitChars_eq_foldl] at hv
  simp only [Nat.mul_comm 10] at hv
  rw [Mask.index?, if_pos hd]
  exact congrArg some hv

/-- What is read as a placeholder. -/
theorem placeholder?_eq_some {t digits rest : Text} :
    Mask.placeholder? t = some (digits, rest) ↔
      t = Mask.opening :: (digits ++ Mask.closing :: rest) ∧ digits ≠ [] ∧
        ∀ c ∈ digits, isDecimalDigit c = true := by
  constructor
  · intro h
    unfold Mask.placeholder? at h
    split at h
    · rename_i c cs
      split at h
      · rename_i hc
        split at h
        · rename_i d more hdrop
          have hsplit : cs = cs.takeWhile isDecimalDigit ++ d :: more := by
            rw [← hdrop, List.takeWhile_append_dropWhile]
          dsimp only at h
          split at h
          · rename_i hd
            rw [Bool.and_eq_true, decide_eq_true_eq] at hd
            rw [Option.some.injEq, Prod.mk.injEq] at h
            obtain ⟨rfl, rfl⟩ := h
            exact ⟨by rw [hc, ← hd.1, ← hsplit], by simpa using hd.2,
              List.all_eq_true.mp List.all_takeWhile⟩
          · simp at h
        · simp at h
      · simp at h
    · simp at h
  · rintro ⟨rfl, hne, hd⟩
    have hc : isDecimalDigit Mask.closing = false := by decide
    have hdrop : (digits ++ Mask.closing :: rest).dropWhile isDecimalDigit =
        Mask.closing :: rest := by
      rw [List.dropWhile_append_of_pos hd, List.dropWhile_cons_of_neg (by simp [hc])]
    have htake : (digits ++ Mask.closing :: rest).takeWhile isDecimalDigit = digits := by
      rw [List.takeWhile_append_of_pos hd, List.takeWhile_cons_of_neg (by simp [hc]),
        List.append_nil]
    rw [Mask.placeholder?, if_pos rfl, hdrop]
    simp [htake, hne]

theorem placeholder?_append (i : Nat) (t : Text) :
    Mask.placeholder? (Mask.placeholder i ++ t) = some (Nat.toDigits 10 i, t) :=
  placeholder?_eq_some.mpr ⟨by simp [Mask.placeholder], Nat.toDigits_ne_nil, fun _ hc =>
    isDecimalDigit_of_isDigit (Nat.isDigit_of_mem_toDigits (by decide) (by decide) hc)⟩

theorem placeholder?_eq_none {c : Char} (h : c ≠ Mask.opening) (t : Text) :
    Mask.placeholder? (c :: t) = none := by
  rw [Mask.placeholder?, if_neg h]

private theorem restoreFrom_spell (m : Mask) {s : List Symbol} (h : Legible s)
    (before : Option Char) :
    Text.replaceFrom m.restoreRule 0 before (spell s) = fill m.literals s := by
  induction s generalizing before with
  | nil => rfl
  | cons x s ih =>
      cases x with
      | char c =>
          rw [legible_char] at h
          rw [spell_char, Text.replaceFrom_miss, ih h.2, fill_char]
          simp [Mask.restoreRule, placeholder?_eq_none h.1]
      | mark i =>
          rw [legible_mark] at h
          rw [spell_mark, Text.replaceFrom_match (by simp [Mask.placeholder]), ih h, fill_mark]
          simp only [Mask.restoreRule, placeholder?_append, Option.map_some, Mask.literal?,
            index?_toDigits, Option.bind_some]
          rfl

/-- Restoring fills the marks in. -/
theorem restore_spell (m : Mask) {s : List Symbol} (h : Legible s) :
    m.restore (spell s) = fill m.literals s := restoreFrom_spell m h none

/-! ## Numbering -/

theorem spell_number (i : Nat) (ts : List Tile) : spell (number i ts) = Mask.textFrom i ts := by
  induction ts generalizing i with
  | nil => rfl
  | cons x ts ih =>
      cases x with
      | plain c => exact congrArg (c :: ·) (ih i)
      | literal t => exact congrArg (Mask.placeholder i ++ ·) (ih (i + 1))
      | comment t => exact ih i
      | spaced t => exact congrArg (' ' :: ·) (ih i)

theorem number_append (i : Nat) (s t : List Tile) :
    number i (s ++ t) = number i s ++ number (i + (Mask.literalsOf s).length) t := by
  induction s generalizing i with
  | nil => rfl
  | cons x s ih =>
      cases x with
      | literal l =>
          simp only [List.cons_append, number, ih, Mask.literalsOf, List.length_cons]
          rw [show i + 1 + (Mask.literalsOf s).length = i + ((Mask.literalsOf s).length + 1) by omega]
      | _ => simp only [List.cons_append, number, ih, Mask.literalsOf]

theorem literalsOf_append (s t : List Tile) :
    Mask.literalsOf (s ++ t) = Mask.literalsOf s ++ Mask.literalsOf t := by
  induction s with
  | nil => rfl
  | cons x s ih => cases x <;> simp [Mask.literalsOf, ih]

theorem marks_number (i : Nat) (ts : List Tile) :
    marks (number i ts) = List.range' i (Mask.literalsOf ts).length := by
  induction ts generalizing i with
  | nil => rfl
  | cons x ts ih =>
      cases x with
      | literal t =>
          simp only [number, marks, ih, Mask.literalsOf, List.length_cons, List.range'_succ]
      | _ => simp only [number, marks, ih, Mask.literalsOf]

/-! ## Passes that keep the marks -/

/-- Wherever the old text is the rest of a masked text, the new one in its place leaves a masked text
with the same marks. -/
def Respells (t t' : Text) : Prop :=
  ∀ p s, Legible s → spell s = p ++ t →
    ∃ s', spell s' = p ++ t' ∧ marks s' = marks s ∧ Legible s'

namespace Respells

theorem refl (t : Text) : Respells t t := fun _ s hs h => ⟨s, h, rfl, hs⟩

theorem trans {t t' t'' : Text} (h : Respells t t') (h' : Respells t' t'') : Respells t t'' := by
  intro p s hs hspell
  obtain ⟨s', h1, hm, hl⟩ := h p s hs hspell
  obtain ⟨s'', h2, hm', hl'⟩ := h' p s' hl h1
  exact ⟨s'', h2, hm'.trans hm, hl'⟩

theorem prepend {t t' : Text} (h : Respells t t') (u : Text) : Respells (u ++ t) (u ++ t') := by
  intro p s hs hspell
  obtain ⟨s', h1, hm, hl⟩ := h (p ++ u) s hs (by rw [hspell, List.append_assoc])
  exact ⟨s', by rw [h1, List.append_assoc], hm, hl⟩

theorem keep {t t' : Text} (c : Char) (h : Respells t t') : Respells (c :: t) (c :: t') :=
  h.prepend [c]

theorem extend {new : Text} (h : Mask.opening ∉ new) : Respells [] new := by
  intro p s hs hspell
  exact ⟨s ++ chars new, by rw [spell_append, spell_chars, hspell, List.append_nil], by simp,
    legible_append.mpr ⟨hs, legible_chars h⟩⟩

/-- Exchanging a stretch without a character of a placeholder for one that begins none. -/
theorem swap {old new t t' : Text} (hold : old ≠ []) (hbare : Bare old)
    (hnew : Mask.opening ∉ new) (h : Respells t t') : Respells (old ++ t) (new ++ t') := by
  intro p s hs hspell
  obtain ⟨c, old, rfl⟩ := List.exists_cons_of_ne_nil hold
  obtain ⟨a, b, rfl, rfl, hb⟩ := exists_cut (hbare c (by simp)) hspell
  obtain ⟨b', rfl, ht⟩ := exists_chars_append (bare_cons.mp hbare).2 hb
  rw [legible_append, legible_char, legible_append] at hs
  obtain ⟨s', h1, hm, hl⟩ := h [] b' hs.2.2.2 ht
  refine ⟨a ++ (chars new ++ s'), ?_, ?_, ?_⟩
  · rw [spell_append, spell_append, spell_chars, h1, List.nil_append]
  · simp only [marks_append, marks_chars, marks, hm]
  · exact legible_append.mpr ⟨hs.1, legible_append.mpr ⟨legible_chars hnew, hl⟩⟩

theorem exists_spell {s : List Symbol} {t : Text} (h : Respells (spell s) t) (hs : Legible s) :
    ∃ s', spell s' = t ∧ marks s' = marks s ∧ Legible s' := h [] s hs rfl

end Respells

end Symbol

end Stencil
