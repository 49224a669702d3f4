import Stencil.Text.Utf8
import Mathlib.Tactic.SplitIfs
/-!
# Texts through UTF-8

The bytes of a text decode to the text. Each character is read off the front of its encoding, with
nothing of what comes after it.
-/
namespace Stencil

namespace Utf8

/-! ## One character -/

private theorem toNat_byte {n : Nat} (h : n < 256) : (UInt8.ofNat n).toNat = n := by
  simp only [UInt8.toNat_ofNat']
  omega

/-- A byte that follows adds six bits. -/
private theorem readOwed_tail {bits length owed x : Nat} {low high : UInt8} {rest : Bytes}
    (hlow : low.toNat ≤ x % 64 + 128) (hhigh : x % 64 + 128 ≤ high.toNat) :
    readOwed bits length (owed + 1) low high (UInt8.ofNat (x % 64 + 128) :: rest) =
      readOwed (bits * 64 + x % 64) (length + 1) owed 0x80 0xBF rest := by
  have hbyte : (UInt8.ofNat (x % 64 + 128)).toNat = x % 64 + 128 := toNat_byte (by omega)
  have hbounds : (low ≤ UInt8.ofNat (x % 64 + 128) && UInt8.ofNat (x % 64 + 128) ≤ high) = true := by
    simp only [Bool.and_eq_true, decide_eq_true_eq, UInt8.le_iff_toNat_le, hbyte]
    exact ⟨hlow, hhigh⟩
  have hbits : (UInt8.ofNat (x % 64 + 128)).toNat - 0x80 = x % 64 := by omega
  rw [readOwed, if_pos hbounds, hbits]

private theorem readOwed_zero (bits length : Nat) (low high : UInt8) (rest : Bytes) :
    readOwed bits length 0 low high rest = .char (Char.ofNat bits) length := by
  cases rest <;> rfl

private theorem continuation?_two : ∀ n < 32, 2 ≤ n →
    continuation? (UInt8.ofNat (n + 192)) = some (1, 0x80, 0xBF) := by
  decide

private theorem continuation?_three : ∀ n < 16, continuation? (UInt8.ofNat (n + 224)) =
    some (2, if n = 0 then 0xA0 else 0x80, if n = 13 then 0x9F else 0xBF) := by
  decide

private theorem continuation?_four : ∀ n < 5, continuation? (UInt8.ofNat (n + 240)) =
    some (3, if n = 0 then 0x90 else 0x80, if n = 4 then 0x8F else 0xBF) := by
  decide

private theorem front_long {n owed : Nat} {low high : UInt8} (rest : Bytes) (hn : n < 256)
    (hlong : 128 ≤ n) (h : continuation? (UInt8.ofNat n) = some (owed, low, high)) :
    front (UInt8.ofNat n) rest = readOwed (n % Nat.pow 2 (6 - owed)) 1 owed low high rest := by
  have hbig : ¬ UInt8.ofNat n < 0x80 := by
    rw [UInt8.lt_iff_toNat_lt, toNat_byte hn]
    exact Nat.not_lt.mpr hlong
  rw [front, if_neg hbig, h, toNat_byte hn]

private theorem front_one {v : Nat} (h : v ≤ 127) (rest : Bytes) :
    front (UInt8.ofNat v) rest = .char (Char.ofNat v) 1 := by
  have hbyte : (UInt8.ofNat v).toNat = v := toNat_byte (by omega)
  have hsmall : UInt8.ofNat v < 0x80 := by
    rw [UInt8.lt_iff_toNat_lt, hbyte]
    exact Nat.lt_succ_of_le h
  rw [front, if_pos hsmall, hbyte]

private theorem front_two {v : Nat} (hmin : 127 < v) (hmax : v ≤ 2047) (rest : Bytes) :
    front (UInt8.ofNat (v / 64 % 32 + 192)) (UInt8.ofNat (v % 64 + 128) :: rest) =
      .char (Char.ofNat v) 2 := by
  have hbits : (v / 64 % 32 + 192) % Nat.pow 2 (6 - 1) * 64 + v % 64 = v := by
    change (v / 64 % 32 + 192) % 32 * 64 + v % 64 = v
    omega
  rw [front_long _ (by omega) (by omega) (continuation?_two _ (by omega) (by omega)),
    readOwed_tail (Nat.le_add_left ..) (by change _ ≤ 191; omega), readOwed_zero, hbits]

/-- Three bytes are no surrogate. -/
private theorem front_three {v : Nat} (hmin : 2047 < v) (hmax : v ≤ 65535)
    (hvalid : v < 0xD800 ∨ 0xDFFF < v) (rest : Bytes) :
    front (UInt8.ofNat (v / 4096 % 16 + 224))
        (UInt8.ofNat (v / 64 % 64 + 128) :: UInt8.ofNat (v % 64 + 128) :: rest) =
      .char (Char.ofNat v) 3 := by
  have hbits : ((v / 4096 % 16 + 224) % Nat.pow 2 (6 - 2) * 64 + v / 64 % 64) * 64 + v % 64 = v := by
    change ((v / 4096 % 16 + 224) % 16 * 64 + v / 64 % 64) * 64 + v % 64 = v
    omega
  have hlow : (if v / 4096 % 16 = 0 then 0xA0 else 0x80 : UInt8).toNat ≤ v / 64 % 64 + 128 := by
    split_ifs
    · change 160 ≤ _
      omega
    · exact Nat.le_add_left ..
  have hhigh : v / 64 % 64 + 128 ≤ (if v / 4096 % 16 = 13 then 0x9F else 0xBF : UInt8).toNat := by
    split_ifs
    · change _ ≤ 159
      omega
    · change _ ≤ 191
      omega
  rw [front_long _ (by omega) (by omega) (continuation?_three _ (by omega)), readOwed_tail hlow hhigh,
    readOwed_tail (Nat.le_add_left ..) (by change _ ≤ 191; omega), readOwed_zero, hbits]

/-- Four bytes do not go beyond the last code point. -/
private theorem front_four {v : Nat} (hmin : 65535 < v) (hmax : v < 0x110000) (rest : Bytes) :
    front (UInt8.ofNat (v / 262144 % 8 + 240))
        (UInt8.ofNat (v / 4096 % 64 + 128) :: UInt8.ofNat (v / 64 % 64 + 128) ::
          UInt8.ofNat (v % 64 + 128) :: rest) =
      .char (Char.ofNat v) 4 := by
  have hbits : (((v / 262144 % 8 + 240) % Nat.pow 2 (6 - 3) * 64 + v / 4096 % 64) * 64 +
      v / 64 % 64) * 64 + v % 64 = v := by
    change (((v / 262144 % 8 + 240) % 8 * 64 + v / 4096 % 64) * 64 + v / 64 % 64) * 64 + v % 64 = v
    omega
  have hlow : (if v / 262144 % 8 = 0 then 0x90 else 0x80 : UInt8).toNat ≤ v / 4096 % 64 + 128 := by
    split_ifs
    · change 144 ≤ _
      omega
    · exact Nat.le_add_left ..
  have hhigh : v / 4096 % 64 + 128 ≤ (if v / 262144 % 8 = 4 then 0x8F else 0xBF : UInt8).toNat := by
    split_ifs
    · change _ ≤ 143
      omega
    · change _ ≤ 191
      omega
  rw [front_long _ (by omega) (by omega) (continuation?_four _ (by omega)), readOwed_tail hlow hhigh,
    readOwed_tail (Nat.le_add_left ..) (by change _ ≤ 191; omega),
    readOwed_tail (Nat.le_add_left ..) (by change _ ≤ 191; omega), readOwed_zero, hbits]

/-- The encoding of a character stands for it, whatever comes after it. -/
theorem front_encode (c : Char) (rest : Bytes) : ∃ b bs, String.utf8EncodeChar c = b :: bs ∧
    front b (bs ++ rest) = .char c (bs.length + 1) := by
  have hvalid := c.valid
  have hc : Char.ofNat c.toNat = c := Char.ofNat_toNat c
  generalize hv : c.toNat = v at hc
  have hval : c.val.toNat = v := hv
  rw [UInt32.isValidChar, hval, Nat.isValidChar] at hvalid
  unfold String.utf8EncodeChar
  simp only [hval]
  rw [← hc]
  split_ifs with hone htwo hthree
  · exact ⟨_, _, rfl, front_one hone rest⟩
  · exact ⟨_, _, rfl, front_two (by omega) htwo rest⟩
  · exact ⟨_, _, rfl, front_three (by omega) hthree (by omega) rest⟩
  · exact ⟨_, _, rfl, front_four (by omega) (by omega) rest⟩

/-- Only NUL has a zero byte. -/
theorem eq_nul_of_mem {c : Char} (h : (0 : UInt8) ∈ String.utf8EncodeChar c) : c = '\x00' := by
  have hbyte {n : Nat} (hn : n < 256) (hzero : (0 : UInt8) = UInt8.ofNat n) : n = 0 := by
    have hnat := congrArg UInt8.toNat hzero
    rw [toNat_byte hn] at hnat
    exact hnat.symm
  have hc : c.val.toNat = 0 → c = '\x00' := fun hc => by
    rw [← Char.ofNat_toNat c, show c.toNat = 0 from hc]
  unfold String.utf8EncodeChar at h
  simp only at h
  generalize c.val.toNat = v at h hc
  -- the bytes of a longer encoding are not less than 128
  split_ifs at h with hone htwo hthree <;>
    simp only [List.mem_cons, List.not_mem_nil, or_false] at h
  · exact hc (hbyte (by omega) h)
  · rcases h with h | h <;> exact absurd (hbyte (by omega) h) (by omega)
  · rcases h with h | h | h <;> exact absurd (hbyte (by omega) h) (by omega)
  · rcases h with h | h | h | h <;> exact absurd (hbyte (by omega) h) (by omega)

/-! ## Texts -/

theorem decodeFrom_skip (index : Nat) (bs rest : Bytes) :
    decodeFrom index bs.length (bs ++ rest) = decodeFrom (index + bs.length) 0 rest := by
  induction bs generalizing index with
  | nil => rfl
  | cons b bs ih =>
      rw [List.length_cons, List.cons_append, decodeFrom, ih]
      congr 1
      omega

theorem decodeFrom_toBytes (index : Nat) (t : Text) : decodeFrom index 0 t.toBytes = .ok t := by
  induction t generalizing index with
  | nil => rfl
  | cons c t ih =>
      obtain ⟨b, bs, hbytes, hfront⟩ := front_encode c (Text.toBytes t)
      have hcons : Text.toBytes (c :: t) = b :: (bs ++ Text.toBytes t) := by
        rw [Text.toBytes, List.flatMap_cons, hbytes]
        rfl
      rw [hcons, decodeFrom, hfront]
      dsimp only
      rw [Nat.add_sub_cancel, decodeFrom_skip, ih]
      rfl

end Utf8

/-- The bytes of a text read as that text. -/
theorem Bytes.toText?_toBytes (t : Text) : Bytes.toText? t.toBytes = .ok t :=
  Utf8.decodeFrom_toBytes 0 t

end Stencil
