import Stencil.Text.Word
/-!
# White space is in no word

White space has a few code points only, and none of them lies in a range of the characters of words.
-/
namespace Stencil

/-- The code points of white space. -/
def blankCodes : List Nat :=
  List.range' 9 5 ++ List.range' 0x2000 11 ++
    [0x20, 0x85, 0xA0, 0x1680, 0x2028, 0x2029, 0x202F, 0x205F, 0x3000]

theorem toNat_mem_blankCodes {c : Char} (h : isBlank c = true) : c.toNat ∈ blankCodes := by
  by_cases hs : c = ' '
  · subst hs
    decide
  · have hc : c.toNat = c.val.toNat := rfl
    simp only [isBlank, beq_eq_false_iff_ne.mpr hs, Bool.false_or, Bool.or_eq_true,
      Bool.and_eq_true, decide_eq_true_eq, UInt32.le_iff_toNat_le, beq_iff_eq, ← UInt32.toNat_inj,
      UInt32.reduceToNat, ← hc] at h
    simp only [blankCodes, List.mem_append, List.mem_range'_1, List.mem_cons, List.not_mem_nil,
      or_false]
    rcases h with (((((((((h | h) | h) | h) | h) | h) | h) | h) | h) | h) <;> omega

private theorem not_word_of_mem_blankCodes :
    ∀ n ∈ blankCodes, isWordChar (Char.ofNat n) = false ∧ isNameChar (Char.ofNat n) = false := by
  decide +kernel

theorem isWordChar_of_blank {c : Char} (h : isBlank c = true) : isWordChar c = false := by
  have := (not_word_of_mem_blankCodes _ (toNat_mem_blankCodes h)).1
  rwa [Char.ofNat_toNat] at this

theorem isNameChar_of_blank {c : Char} (h : isBlank c = true) : isNameChar c = false := by
  have := (not_word_of_mem_blankCodes _ (toNat_mem_blankCodes h)).2
  rwa [Char.ofNat_toNat] at this

theorem isBlank_of_nameChar {c : Char} (h : isNameChar c = true) : isBlank c = false := by
  rw [Bool.eq_false_iff]
  intro hblank
  rw [isNameChar_of_blank hblank] at h
  simp at h

end Stencil
