import Stencil.Proofs.Lua.Spelling
import Stencil.Proofs.Mask.Lexing
import Mathlib.Data.List.TakeWhile
/-!
# Numerals under the mask

A numeral is read up to the first character that belongs to none. It ends in no sign, since a sign
takes digits after it, so no two dashes of it and of what follows begin a comment.
-/
namespace Stencil.Lua

open Token Tile

/-! ## The last character -/

private theorem getLast?_ne {t s : Text} (hs : s <:+ t) (hne : s ≠ []) (hdash : '-' ∉ s) :
    t.getLast? ≠ some '-' := by
  obtain ⟨r, rfl⟩ := hs
  obtain ⟨c, hc⟩ := Option.isSome_iff_exists.mp (List.getLast?_isSome.mpr hne)
  rw [List.getLast?_append, hc]
  rintro ⟨⟩
  exact hdash (List.mem_of_getLast? hc)

/-- An exponent ends in a digit. -/
private theorem getLast?_ne_of_exponent {t digits : Text} {n value : Num} (hs : digits <:+ t)
    (h : (if digits.isEmpty || !digits.all Char.isDigit then none else some value) = some n) :
    t.getLast? ≠ some '-' := by
  split at h
  · simp at h
  · rename_i hdigits
    simp only [Bool.or_eq_true, List.isEmpty_iff, Bool.not_eq_true', not_or,
      Bool.not_eq_false] at hdigits
    refine getLast?_ne hs hdigits.1 fun hmem => ?_
    have hdigit := List.all_eq_true.mp hdigits.2 '-' hmem
    exact absurd hdigit (by decide)

private theorem suffix_of_sign {t power : Text} (h : power <:+ t) :
    (match power with
      | '-' :: digits => ((-1, digits) : Int × Text)
      | '+' :: digits => (1, digits)
      | digits => (1, digits)).2 <:+ t := by
  split
  · exact (List.suffix_cons _ _).trans h
  · exact (List.suffix_cons _ _).trans h
  · exact h

/-- What comes after a character that ends a run is at the end of the text. -/
private theorem suffix_of_dropWhile {p : Char → Bool} {t s power : Text} {e : Char}
    (h : s.dropWhile p = e :: power) (hs : s <:+ t) : power <:+ t :=
  (List.suffix_cons e power).trans ((h ▸ List.dropWhile_suffix p).trans hs)

private theorem getLast?_ne_of_all {p : Char → Bool} (hp : p '-' = false) {t : Text}
    (h : t.dropWhile p = []) : t.getLast? ≠ some '-' := by
  intro hlast
  have hdash := List.dropWhile_eq_nil_iff.mp h '-' (List.mem_of_getLast? hlast)
  simp [hp] at hdash

private theorem getLast?_ne_of_fraction {p : Char → Bool} (hp : p '-' = false) {t rest : Text}
    (hs : '.' :: rest <:+ t) (h : rest.dropWhile p = []) : t.getLast? ≠ some '-' := by
  refine getLast?_ne hs (by simp) fun hmem => ?_
  rcases List.mem_cons.mp hmem with hpoint | hmem
  · simp at hpoint
  · have hdash := List.dropWhile_eq_nil_iff.mp h '-' hmem
    simp [hp] at hdash

private theorem getLast?_of_ofHex? {t : Text} {n : Num} (h : Num.ofHex? t = some n) :
    t.getLast? ≠ some '-' := by
  have hp : (fun c : Char => c.isDigit || decide ('a' ≤ c) && decide (c ≤ 'f') ||
      decide ('A' ≤ c) && decide (c ≤ 'F')) '-' = false := by decide
  unfold Num.ofHex? at h
  dsimp only at h
  generalize (fun c : Char => c.isDigit || decide ('a' ≤ c) && decide (c ≤ 'f') ||
    decide ('A' ≤ c) && decide (c ≤ 'F')) = p at h hp
  split at h
  · rename_i rest hpoint
    have hs : '.' :: rest <:+ t := hpoint ▸ List.dropWhile_suffix p
    split at h
    · simp at h
    · dsimp only [Option.getD_some] at h
      split at h
      · exact getLast?_ne_of_fraction hp hs ‹_›
      · rename_i e power hpower
        have hin : power <:+ t := suffix_of_dropWhile hpower ((List.suffix_cons '.' rest).trans hs)
        split at h
        · exact getLast?_ne_of_exponent (suffix_of_sign hin) h
        · simp at h
  · split at h
    · simp at h
    · dsimp only [Option.getD_none] at h
      split at h
      · exact getLast?_ne_of_all hp ‹_›
      · rename_i e power hpower
        have hin : power <:+ t := suffix_of_dropWhile hpower (List.suffix_refl t)
        split at h
        · exact getLast?_ne_of_exponent (suffix_of_sign hin) h
        · simp at h

private theorem getLast?_of_ofDecimal? {bound : Nat} {t : Text} {n : Num}
    (h : Num.ofDecimal? bound t = some n) : t ≠ [] ∧ t.getLast? ≠ some '-' := by
  have hp : Char.isDigit '-' = false := by decide
  refine ⟨?_, ?_⟩
  · rintro rfl
    simp [Num.ofDecimal?] at h
  unfold Num.ofDecimal? at h
  dsimp only at h
  split at h
  · rename_i rest hpoint
    have hs : '.' :: rest <:+ t := hpoint ▸ List.dropWhile_suffix Char.isDigit
    split at h
    · simp at h
    · dsimp only at h
      split at h
      · exact getLast?_ne_of_fraction hp hs ‹_›
      · rename_i e power hpower
        have hin : power <:+ t := suffix_of_dropWhile hpower ((List.suffix_cons '.' rest).trans hs)
        split at h
        · exact getLast?_ne_of_exponent (suffix_of_sign hin) h
        · simp at h
  · split at h
    · simp at h
    · dsimp only at h
      split at h
      · exact getLast?_ne_of_all hp ‹_›
      · rename_i e power hpower
        have hin : power <:+ t := suffix_of_dropWhile hpower (List.suffix_refl t)
        split at h
        · exact getLast?_ne_of_exponent (suffix_of_sign hin) h
        · simp at h

/-- A numeral ends in no sign. -/
private theorem getLast?_of_ofNumeral? {t : Text} {n : Num} (h : Num.ofNumeral? t = some n) :
    t ≠ [] ∧ t.getLast? ≠ some '-' := by
  have hex {x : Char} {rest : Text} (hx : x ≠ '-') (h : Num.ofHex? rest = some n) :
      '0' :: x :: rest ≠ [] ∧ ('0' :: x :: rest).getLast? ≠ some '-' := by
    refine ⟨by simp, ?_⟩
    cases rest with
    | nil => simpa using hx
    | cons d rest => simpa [List.getLast?_cons_cons] using getLast?_of_ofHex? h
  unfold Num.ofNumeral? Num.ofUnsigned? at h
  split at h
  · exact hex (by decide) h
  · exact hex (by decide) h
  · exact getLast?_of_ofDecimal? h

/-! ## The tiles of a numeral -/

theorem isLone_of_continuesName {c : Char} (h : continuesName c = true) : isLone c = true := by
  have hall : ∀ d ∈ ['\'', '"', '[', '-', '/'], continuesName d = false := by decide
  rw [isLone, Bool.not_eq_true', Bool.eq_false_iff]
  intro hc
  simp [hall c (List.contains_iff_mem.mp hc)] at h

private theorem isLone_of_isNumeralChar {c : Char} (h : isNumeralChar c = true) (hdash : c ≠ '-') :
    isLone c = true := by
  rw [isNumeralChar, Bool.or_eq_true, List.contains_iff_mem] at h
  rcases h with h | h
  · exact isLone_of_continuesName (continuesName_of_hex h)
  · have hall : ∀ d ∈ ['.', '+', '-', 'x', 'X', 'p', 'P'], d ≠ '-' → isLone d = true := by decide
    exact hall c h hdash

/-- So many characters of the text are a numeral, each a tile unless the last one is a dash. -/
structure Numeral (n : Nat) (t : Text) : Prop where
  chars : ∀ c ∈ t.take n, isNumeralChar c = true
  ends : ∀ c, (t.drop n).head? = some c → c.isDigit = false
  tiles : (t.take n).getLast? ≠ some '-' →
    Stencil.tiles t = (t.take n).map .plain ++ Stencil.tiles (t.drop n)

private theorem numeral_zero {t : Text} (h : ∀ c, t.head? = some c → c.isDigit = false) :
    Numeral 0 t :=
  ⟨by simp, h, fun _ => rfl⟩

private theorem Numeral.cons {n : Nat} {c : Char} {t : Text} (h : Numeral n t)
    (hc : isNumeralChar c = true)
    (hdash : c = '-' → (t.take n).getLast? ≠ some '-' → t.take n ≠ [] → t.head? ≠ some '-') :
    Numeral (n + 1) (c :: t) := by
  refine ⟨?_, h.ends, fun hlast => ?_⟩
  · rw [List.take_succ_cons]
    exact List.forall_mem_cons.mpr ⟨hc, h.chars⟩
  · rw [List.take_succ_cons] at hlast ⊢
    have hlast' : (t.take n).getLast? ≠ some '-' := by
      intro hd
      rw [List.getLast?_cons, hd] at hlast
      simp at hlast
    have hsingle : Stencil.tiles (c :: t) = .plain c :: Stencil.tiles t := by
      by_cases hd : c = '-'
      · subst hd
        have hmore : t.take n ≠ [] := by
          intro hnil
          rw [hnil] at hlast
          simp at hlast
        exact tiles_lone ⟨by decide, by decide, fun h => absurd h (by decide),
          fun _ => hdash rfl hlast' hmore, fun h => absurd h (by decide),
          fun h => absurd h (by decide)⟩
      · exact tiles_code (s := [c]) (by simpa using isLone_of_isNumeralChar hc hd) t
    rw [hsingle, h.tiles hlast']
    rfl

section Length

variable {hex : Bool}

private theorem isNumeralChar_of_exponent {c : Char} (h : numeralLength.isExponent hex c = true) :
    isNumeralChar c = true ∧ c ≠ '-' := by
  have hall : ∀ d ∈ ['p', 'P', 'e', 'E'], isNumeralChar d = true ∧ d ≠ '-' := by decide
  refine hall c ?_
  unfold numeralLength.isExponent at h
  split at h
  · rw [Bool.or_eq_true, beq_iff_eq, beq_iff_eq] at h
    rcases h with rfl | rfl <;> simp
  · rw [Bool.or_eq_true, beq_iff_eq, beq_iff_eq] at h
    rcases h with rfl | rfl <;> simp

private theorem isNumeralChar_of_digit {c : Char} (h : (c == '.' || (hexValue? c).isSome) = true) :
    isNumeralChar c = true ∧ c ≠ '-' := by
  rw [Bool.or_eq_true, beq_iff_eq] at h
  rcases h with rfl | h
  · decide
  · refine ⟨by rw [isNumeralChar, h]; rfl, ?_⟩
    rintro rfl
    exact absurd h (by decide)

private theorem numeralLength_dash (t : Text) : numeralLength hex ('-' :: t) = 0 := by
  cases t <;> cases hex <;> rfl

private theorem hexValue?_of_isDigit {c : Char} (h : c.isDigit = true) : (hexValue? c).isSome = true := by
  rw [hexValue?, if_pos h]
  rfl

/-- A numeral is read up to its end. -/
private theorem numeral (t : Text) : Numeral (numeralLength hex t) t := by
  -- what no numeral goes on with is no digit
  have stops {c : Char} {t : Text} (h : ¬ (c == '.' || (hexValue? c).isSome) = true) :
      Numeral 0 (c :: t) := by
    refine numeral_zero ?_
    rintro d ⟨⟩
    rw [Bool.eq_false_iff]
    intro hdigit
    simp [hexValue?_of_isDigit hdigit] at h
  have goes {c : Char} {n : Nat} {t : Text} (hc : isNumeralChar c = true ∧ c ≠ '-')
      (h : Numeral n t) : Numeral (n + 1) (c :: t) := h.cons hc.1 fun hd => absurd hd hc.2
  induction t using numeralLength.induct hex with
  | case1 => exact numeral_zero (by simp)
  | case2 c hc =>
      rw [numeralLength, if_pos hc]
      refine goes ?_ (numeral_zero (by simp))
      simp only [Bool.or_eq_true, beq_iff_eq] at hc
      rcases hc with ((hc | hc) | hc) | hc
      · exact isNumeralChar_of_digit (by simp [hexValue?_of_isDigit hc])
      · exact isNumeralChar_of_digit (by simp [hc])
      · exact isNumeralChar_of_digit (by simp [hc])
      · exact isNumeralChar_of_exponent hc
  | case3 c hc =>
      rw [numeralLength, if_neg hc]
      refine stops fun h => hc ?_
      simp only [Bool.or_eq_true] at h ⊢
      exact Or.inl (h.imp_left Or.inr)
  | case4 c d rest hexponent hsign ih =>
      rw [numeralLength, if_pos hexponent, if_pos hsign]
      refine goes (isNumeralChar_of_exponent hexponent) (ih.cons ?_ fun _ _ hmore hhead => ?_)
      · rw [Bool.or_eq_true, beq_iff_eq, beq_iff_eq] at hsign
        rcases hsign with rfl | rfl <;> decide
      · obtain ⟨rest, rfl⟩ := List.head?_eq_some_iff.mp hhead
        rw [numeralLength_dash] at hmore
        exact hmore rfl
  | case5 c d rest hexponent hsign ih =>
      rw [numeralLength, if_pos hexponent, if_neg hsign]
      exact goes (isNumeralChar_of_exponent hexponent) ih
  | case6 c d rest hexponent hc ih =>
      rw [numeralLength, if_neg hexponent, if_pos hc]
      exact goes (isNumeralChar_of_digit hc) ih
  | case7 c d rest hexponent hc =>
      rw [numeralLength, if_neg hexponent, if_neg hc]
      exact stops hc

end Length

/-- A numeral that is read is written with characters of numerals, each a tile, and no name goes on
with it. -/
theorem readNumeral_eq_some {t rest : Text} {n : Num} (h : readNumeral t = some (n, rest)) :
    ∃ w, t = w ++ rest ∧ w ≠ [] ∧ (∀ c ∈ w, isNumeralChar c = true) ∧
      tiles t = w.map .plain ++ tiles rest ∧ Stops rest := by
  have of_length {length : Nat} {t : Text} (hlength : Numeral length t)
      (h : (if (t.drop length).head?.any startsName then none
        else (Num.ofNumeral? (t.take length)).map fun n => (n, t.drop length)) = some (n, rest)) :
      ∃ w, t = w ++ rest ∧ w ≠ [] ∧ (∀ c ∈ w, isNumeralChar c = true) ∧
        tiles t = w.map .plain ++ tiles rest ∧ Stops rest := by
    split at h
    · simp at h
    · rename_i hstart
      obtain ⟨m, hm, hpair⟩ := Option.map_eq_some_iff.mp h
      obtain ⟨-, rfl⟩ := Prod.mk.inj hpair
      obtain ⟨hne, hlast⟩ := getLast?_of_ofNumeral? hm
      refine ⟨t.take length, (List.take_append_drop length t).symm, hne, hlength.chars,
        hlength.tiles hlast, fun c hc => ?_⟩
      have hdigit := hlength.ends c hc
      rw [hc] at hstart
      simp only [Option.any_some, startsName, Bool.or_eq_true, not_or, Bool.not_eq_true] at hstart
      simp [continuesName, Char.isAlphanum, hdigit, hstart.1, hstart.2]
  unfold readNumeral at h
  dsimp only at h
  split at h
  · exact of_length (((numeral _).cons (by decide) (by simp)).cons (by decide) (by simp)) h
  · exact of_length (((numeral _).cons (by decide) (by simp)).cons (by decide) (by simp)) h
  · exact of_length (numeral t) h

end Stencil.Lua
