import Stencil.Proofs.Mask.Symbols
/-!
# Masked texts in glyphs

Every masked text is read as characters and placeholders, also one in which characters of its own
look like a placeholder. A character that no placeholder has cuts a reading in two, and put between
two readings it leaves both of them as they are.
-/
namespace Stencil

/-- What restoring reads: a character, or a placeholder with its digits. -/
inductive Glyph where
  | char (c : Char)
  | mark (digits : Text)
deriving Repr, DecidableEq

namespace Glyph

def spelling : Glyph → Text
  | char c => [c]
  | mark digits => Mask.opening :: (digits ++ [Mask.closing])

def spell (ps : List Glyph) : Text := ps.flatMap spelling

/-- What a glyph stands for. A placeholder of no literal stands for itself. -/
def meaning (m : Mask) : Glyph → Text
  | char c => [c]
  | mark digits => (m.literal? digits).getD (spelling (mark digits))

def fill (m : Mask) (ps : List Glyph) : Text := ps.flatMap (meaning m)

def chars (t : Text) : List Glyph := t.map char

/-- Whether placeholders can have the character. -/
def inMark (c : Char) : Bool := c == Mask.opening || c == Mask.closing || isDecimalDigit c

/-- The glyphs that a text is read as, from left to right. -/
inductive ReadAs : Text → List Glyph → Prop
  | nil : ReadAs [] []
  | char {c : Char} {t : Text} {ps : List Glyph} : Mask.placeholder? (c :: t) = none → ReadAs t ps →
      ReadAs (c :: t) (.char c :: ps)
  | mark {digits t : Text} {ps : List Glyph} : digits ≠ [] →
      (∀ d ∈ digits, isDecimalDigit d = true) → ReadAs t ps →
      ReadAs (Mask.opening :: (digits ++ Mask.closing :: t)) (.mark digits :: ps)

@[simp] theorem spell_append (a b : List Glyph) : spell (a ++ b) = spell a ++ spell b := by
  simp [spell]

@[simp] theorem spell_chars (t : Text) : spell (chars t) = t := by
  induction t with
  | nil => rfl
  | cons c t ih => exact congrArg (c :: ·) ih

theorem spell_cons (p : Glyph) (ps : List Glyph) : spell (p :: ps) = spelling p ++ spell ps := rfl

@[simp] theorem fill_append (m : Mask) (a b : List Glyph) : fill m (a ++ b) = fill m a ++ fill m b := by
  simp [fill]

@[simp] theorem fill_chars (m : Mask) (t : Text) : fill m (chars t) = t := by
  induction t with
  | nil => rfl
  | cons c t ih => exact congrArg (c :: ·) ih

theorem spell_eq_nil {ps : List Glyph} : spell ps = [] ↔ ps = [] := by
  constructor
  · intro h
    cases ps with
    | nil => rfl
    | cons p ps => cases p <;> simp [spell_cons, spelling] at h
  · rintro rfl
    rfl

/-- Every text is read as some glyphs. -/
theorem exists_readAs (t : Text) : ∃ ps, ReadAs t ps := by
  induction hn : t.length using Nat.strongRecOn generalizing t with
  | ind n ih =>
      cases t with
      | nil => exact ⟨[], .nil⟩
      | cons c t =>
          cases hp : Mask.placeholder? (c :: t) with
          | none =>
              obtain ⟨ps, hps⟩ := ih t.length (by simp [← hn]) t rfl
              exact ⟨_, .char hp hps⟩
          | some found =>
              obtain ⟨ht, hne, hdigits⟩ := Symbol.placeholder?_eq_some.mp hp
              have hlen := congrArg List.length ht
              simp only [List.length_cons, List.length_append] at hlen
              obtain ⟨ps, hps⟩ := ih found.2.length
                (by rw [← hn, List.length_cons]; omega) found.2 rfl
              refine ⟨.mark found.1 :: ps, ?_⟩
              rw [ht]
              exact .mark hne hdigits hps

namespace ReadAs

variable {t u : Text} {ps a b : List Glyph}

theorem spell_eq (h : ReadAs t ps) : spell ps = t := by
  induction h with
  | nil => rfl
  | char _ _ ih => exact congrArg (_ :: ·) ih
  | mark _ _ _ ih => simp [spell_cons, spelling, ih]

private theorem replaceFrom_eq (m : Mask) (h : ReadAs t ps) (before : Option Char) :
    Text.replaceFrom m.restoreRule 0 before t = fill m ps := by
  induction h generalizing before with
  | nil => rfl
  | @char c t ps hp _ ih =>
      rw [Text.replaceFrom_miss (by rw [Mask.restoreRule, hp]; rfl), ih]
      rfl
  | @mark digits t ps hne hdigits _ ih =>
      have hsplit : Mask.opening :: (digits ++ Mask.closing :: t) =
          (Mask.opening :: (digits ++ [Mask.closing])) ++ t := by simp
      have hrule : m.restoreRule before ((Mask.opening :: (digits ++ [Mask.closing])) ++ t) =
          some (meaning m (.mark digits), t) := by
        rw [← hsplit, Mask.restoreRule, Symbol.placeholder?_eq_some.mpr ⟨rfl, hne, hdigits⟩]
        rfl
      rw [hsplit, Text.replaceFrom_match (by simp) hrule, ih]
      rfl

/-- Restoring shows what the glyphs stand for. -/
theorem restore_eq (m : Mask) (h : ReadAs t ps) : m.restore t = fill m ps := h.replaceFrom_eq m none

private theorem not_mem_mark {c : Char} {digits : Text} (hc : inMark c = false)
    (hdigits : ∀ d ∈ digits, isDecimalDigit d = true) :
    c ∉ Mask.opening :: (digits ++ [Mask.closing]) := by
  simp only [inMark, Bool.or_eq_false_iff, beq_eq_false_iff_ne] at hc
  simp only [List.mem_cons, List.mem_append, List.not_mem_nil, or_false, not_or]
  exact ⟨hc.1.1, fun hmem => by simp [hdigits c hmem] at hc, hc.1.2⟩

/-- Whether a placeholder begins a text is seen before a character that none has. -/
private theorem placeholder?_cut {c d : Char} (hc : inMark c = false) (u t : Text) :
    Mask.placeholder? (d :: (u ++ c :: t)) = none ↔ Mask.placeholder? (d :: u) = none := by
  simp only [Option.eq_none_iff_forall_not_mem, Option.mem_def, Prod.forall]
  constructor
  · intro h digits rest hp
    obtain ⟨hu, hne, hdigits⟩ := Symbol.placeholder?_eq_some.mp hp
    refine h digits (rest ++ c :: t) (Symbol.placeholder?_eq_some.mpr ⟨?_, hne, hdigits⟩)
    rw [← List.cons_append, hu]
    simp
  · intro h digits rest hp
    obtain ⟨hu, hne, hdigits⟩ := Symbol.placeholder?_eq_some.mp hp
    have hmark := not_mem_mark hc hdigits
    have hsplit : d :: u ++ c :: t = Mask.opening :: (digits ++ [Mask.closing]) ++ rest := by
      rw [List.cons_append, hu]
      simp
    rcases List.append_eq_append_iff.mp hsplit with ⟨x, hx, hrest⟩ | ⟨x, hx, -⟩
    · cases x with
      | nil => exact h digits [] (Symbol.placeholder?_eq_some.mpr
          ⟨by rw [List.append_nil] at hx; rw [← hx], hne, hdigits⟩)
      | cons e x =>
          obtain ⟨rfl, -⟩ := List.cons.inj hrest
          exact hmark (by rw [hx]; simp)
    · exact h digits x (Symbol.placeholder?_eq_some.mpr ⟨by rw [hx]; simp, hne, hdigits⟩)

/-- Two readings with a character between that no placeholder has make one reading. -/
theorem join {c : Char} (hc : inMark c = false) (hu : ReadAs u a) (ht : ReadAs t b) :
    ReadAs (u ++ c :: t) (a ++ .char c :: b) := by
  induction hu with
  | nil =>
      refine .char (Symbol.placeholder?_eq_none ?_ t) ht
      rintro rfl
      simp [inMark] at hc
  | char hp _ ih => exact .char ((placeholder?_cut hc _ t).mpr hp) ih
  | @mark digits u a hne hdigits _ ih =>
      have hjoined := ReadAs.mark hne hdigits ih
      simpa using hjoined

/-- At such a character a reading comes apart. -/
theorem cut {c : Char} (hc : inMark c = false) (h : ReadAs (u ++ c :: t) ps) :
    ∃ a b, ps = a ++ .char c :: b ∧ ReadAs u a ∧ ReadAs t b := by
  generalize hs : u ++ c :: t = s at h
  induction h generalizing u with
  | nil => simp at hs
  | @char d s ps hp hread ih =>
      cases u with
      | nil =>
          obtain ⟨rfl, rfl⟩ := List.cons.inj hs
          exact ⟨[], ps, rfl, .nil, hread⟩
      | cons e u =>
          obtain ⟨rfl, rfl⟩ := List.cons.inj hs
          obtain ⟨a, b, rfl, ha, hb⟩ := ih rfl
          exact ⟨.char e :: a, b, rfl, .char ((placeholder?_cut hc u t).mp hp) ha, hb⟩
  | @mark digits s ps hne hdigits hread ih =>
      have hmark := not_mem_mark hc hdigits
      have hsplit : u ++ c :: t = Mask.opening :: (digits ++ [Mask.closing]) ++ s := by
        rw [hs]
        simp
      have within {x : Text} (hx : u = Mask.opening :: (digits ++ [Mask.closing]) ++ x)
          (hrest : s = x ++ c :: t) :
          ∃ a b, .mark digits :: ps = a ++ .char c :: b ∧ ReadAs u a ∧ ReadAs t b := by
        obtain ⟨a, b, rfl, ha, hb⟩ := ih hrest.symm
        have hu := ReadAs.mark hne hdigits ha
        refine ⟨.mark digits :: a, b, rfl, ?_, hb⟩
        rw [hx]
        simpa using hu
      rcases List.append_eq_append_iff.mp hsplit with ⟨x, hx, hrest⟩ | ⟨x, hx, hrest⟩
      · cases x with
        | nil => exact within (x := []) (by rw [hx]; simp) hrest.symm
        | cons e x =>
            obtain ⟨rfl, -⟩ := List.cons.inj hrest
            exact absurd (by rw [hx]; simp) hmark
      · exact within hx hrest

/-- A word without a character of a placeholder is put between two readings. -/
theorem insert {word : Text} (hword : ∀ c ∈ word, inMark c = false) (hne : word ≠ [])
    (hu : ReadAs u a) (ht : ReadAs t b) : ReadAs (u ++ (word ++ t)) (a ++ (chars word ++ b)) := by
  induction word generalizing u a with
  | nil => exact absurd rfl hne
  | cons c word ih =>
      rw [List.forall_mem_cons] at hword
      by_cases hw : word = []
      · subst hw
        exact hu.join hword.1 ht
      · have hc := ih hword.2 hw (hu.join hword.1 .nil)
        simpa [chars] using hc

end ReadAs

end Glyph

end Stencil
