import Stencil.Lua.Token
import Stencil.Proofs.Body.Source
/-!
# Strings of escaped texts

What a text is escaped to means the text again: between its quotes it is read as the bytes of the
text, whatever the text says.
-/
namespace Stencil.Lua

namespace Token

/-! ## Code points -/

/-- A character written as a code point has the bytes of its UTF-8 encoding. -/
theorem encodeCode_toNat (c : Char) : encodeCode c.toNat = String.utf8EncodeChar c := by
  have hvalid := c.valid
  rw [UInt32.isValidChar, Nat.isValidChar] at hvalid
  have hval : c.toNat = c.val.toNat := rfl
  unfold encodeCode String.utf8EncodeChar
  simp only [hval, show Nat.pow 64 0 = 1 from rfl, show Nat.pow 64 1 = 64 from rfl,
    show Nat.pow 64 2 = 4096 from rfl, show Nat.pow 64 3 = 262144 from rfl, Nat.div_one]
  generalize c.val.toNat = v at hvalid ⊢
  by_cases hone : v < 0x80
  · rw [if_pos hone, if_pos (by omega)]
  rw [if_neg hone, if_neg (show ¬ v ≤ 127 by omega)]
  by_cases htwo : v < 0x800
  · have hfirst : v / 64 % 32 = v / 64 := Nat.mod_eq_of_lt (by omega)
    rw [if_pos htwo, if_pos (by omega), hfirst, Nat.add_comm 0xC0, Nat.add_comm 0x80]
  rw [if_neg htwo, if_neg (show ¬ v ≤ 2047 by omega)]
  by_cases hthree : v < 0x10000
  · have hfirst : v / 4096 % 16 = v / 4096 := Nat.mod_eq_of_lt (by omega)
    rw [if_pos hthree, if_pos (by omega), hfirst]
    simp only [Nat.add_comm]
  · have hfirst : v / 262144 % 8 = v / 262144 := Nat.mod_eq_of_lt (by omega)
    rw [if_neg hthree, if_pos (by omega), if_neg (by omega), hfirst]
    simp only [Nat.add_comm]

private theorem readCode_digitChar {code digit : Nat} (hdigit : digit < 16)
    (hcode : code * 16 + digit < Nat.pow 2 31) (rest : Text) :
    readCode code (Nat.digitChar digit :: rest) = readCode (code * 16 + digit) rest := by
  have hvalue : ∀ d < 16, hexValue? (Nat.digitChar d) = some d ∧ Nat.digitChar d ≠ '}' := by decide
  obtain ⟨hhex, hne⟩ := hvalue digit hdigit
  rw [readCode, hhex]
  · simp only [if_pos hcode]
  · exact hne

/-- The hexadecimal digits of a number are read as it. -/
theorem readCode_toDigits {n : Nat} (hn : n < Nat.pow 2 31) (rest : Text) :
    readCode 0 (Nat.toDigits 16 n ++ rest) = readCode n rest := by
  induction n using Nat.strongRecOn generalizing rest with
  | ind n ih =>
      by_cases hsmall : n < 16
      · rw [Nat.toDigits_of_lt_base hsmall, List.singleton_append,
          readCode_digitChar hsmall (by omega), Nat.zero_mul, Nat.zero_add]
      · have hsplit : n / 16 * 16 + n % 16 = n := Nat.div_add_mod' n 16
        rw [Nat.toDigits_of_base_le (by decide) (Nat.le_of_not_lt hsmall), List.append_assoc,
          ih (n / 16) (by omega) (by omega), List.singleton_append,
          readCode_digitChar (Nat.mod_lt n (by decide)) (by omega), hsplit]

private theorem readEscape_code (c : Char) (rest : Text) :
    readEscape ('u' :: '{' :: (Nat.toDigits 16 c.toNat ++ '}' :: rest)) =
      some (String.utf8EncodeChar c, 0, rest) := by
  have hsize : c.toNat < Nat.pow 2 31 := by
    have hvalid := c.valid
    rw [UInt32.isValidChar, Nat.isValidChar] at hvalid
    change c.val.toNat < 2147483648
    omega
  have hread : readCode 0 (Nat.toDigits 16 c.toNat ++ '}' :: rest) = some (c.toNat, rest) := by
    rw [readCode_toDigits hsize, readCode]
  rw [readEscape, hread, ← encodeCode_toNat]
  · rfl
  -- the digits do not begin with the brace that ends them
  intro tail htail
  obtain ⟨digit, digits, hdigits⟩ := List.exists_cons_of_ne_nil (@Nat.toDigits_ne_nil c.toNat 16)
  obtain ⟨d, hd⟩ := @exists_digitChar c.toNat digit (by simp [hdigits])
  rw [hdigits, List.cons_append, List.cons.injEq, hd] at htail
  exact Nat.digitChar_ne _ (by decide) htail.1

/-! ## Texts -/

private theorem readQuoted_plain {c : Char} (hquote : c ≠ '"') (hbreak : isBreak c = false)
    (hslash : c ≠ '\\') (fuel : Nat) (t : Text) : readQuoted '"' (fuel + 1) (c :: t) =
      (readQuoted '"' fuel t).map fun (s, lines, rest) =>
        (String.utf8EncodeChar c ++ s, lines, rest) := by
  rw [readQuoted, if_neg hquote, hbreak, if_neg Bool.false_ne_true, if_neg hslash]

private theorem readQuoted_escaped {t t' : Text} {bytes : Bytes}
    (h : readEscape t = some (bytes, 0, t')) (fuel : Nat) : readQuoted '"' (fuel + 1) ('\\' :: t) =
      (readQuoted '"' fuel t').map fun (s, lines, rest) => (bytes ++ s, lines, rest) := by
  rw [readQuoted, if_neg (by decide), if_neg (by decide), if_pos rfl, h]
  simp only [Nat.zero_add]

/-- What a character is escaped to is read as its bytes, in one step. -/
theorem readQuoted_escapeChar (c : Char) (fuel : Nat) (t : Text) :
    readQuoted '"' (fuel + 1) (escapeChar c ++ t) =
      (readQuoted '"' fuel t).map fun (s, lines, rest) =>
        (String.utf8EncodeChar c ++ s, lines, rest) := by
  unfold escapeChar
  split
  · exact readQuoted_escaped rfl fuel
  · exact readQuoted_escaped rfl fuel
  · exact readQuoted_escaped rfl fuel
  · exact readQuoted_escaped rfl fuel
  · exact readQuoted_escaped rfl fuel
  · exact readQuoted_escaped rfl fuel
  · rename_i hslash hquote _ hfeed hreturn _
    split
    · have happend : ['\\', 'u', '{'] ++ Nat.toDigits 16 c.toNat ++ ['}'] ++ t =
          '\\' :: 'u' :: '{' :: (Nat.toDigits 16 c.toNat ++ '}' :: t) := by simp
      rw [happend]
      exact readQuoted_escaped (readEscape_code c t) fuel
    · have hbreak : isBreak c = false := by
        simp only [isBreak, Bool.or_eq_false_iff, beq_eq_false_iff_ne]
        exact ⟨hfeed, hreturn⟩
      exact readQuoted_plain hquote hbreak hslash fuel t

/-- An escaped text is read up to its quote as the bytes of the text. -/
theorem readQuoted_escape (t rest : Text) {fuel : Nat} (hfuel : t.length < fuel) :
    readQuoted '"' fuel (escape t ++ '"' :: rest) = some (t.toBytes, 0, rest) := by
  induction t generalizing fuel with
  | nil =>
      obtain ⟨fuel, rfl⟩ : ∃ more, fuel = more + 1 := ⟨fuel - 1, by simp at hfuel; omega⟩
      rfl
  | cons c t ih =>
      rw [List.length_cons] at hfuel
      obtain ⟨fuel, rfl⟩ : ∃ more, fuel = more + 1 := ⟨fuel - 1, by omega⟩
      have hcons : escape (c :: t) = escapeChar c ++ escape t := rfl
      rw [hcons, List.append_assoc, readQuoted_escapeChar, ih (by omega)]
      rfl

theorem length_le_escape (t : Text) : t.length ≤ (escape t).length := by
  induction t with
  | nil => exact Nat.le_refl 0
  | cons c t ih =>
      have hcons : escape (c :: t) = escapeChar c ++ escape t := rfl
      have hpos := List.length_pos_iff.mpr (escapeChar_ne_nil c)
      rw [hcons, List.length_append, List.length_cons]
      omega

/-- The string of a document text is one token. -/
theorem lexFrom_quoted (fuel line : Nat) (t rest : Text) :
    lexFrom (fuel + 1) line (quoted t ++ rest) =
      ⟨.string t.toBytes, line⟩ :: lexFrom fuel line rest := by
  have happend : quoted t ++ rest = '"' :: (escape t ++ '"' :: rest) := by simp [quoted]
  have hlength : t.length < (escape t ++ '"' :: rest).length + 1 := by
    have hle := length_le_escape t
    rw [List.length_append]
    omega
  rw [happend, lexFrom, readQuoted_escape t rest hlength]
  rfl

end Token

end Stencil.Lua
