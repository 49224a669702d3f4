import Stencil.Text.Blank
/-!
# UTF-8

Texts as bytes and bytes as texts. Bytes that are no UTF-8 are refused with the place and the
length of the first bad sequence, or replaced one bad sequence at a time.
-/
namespace Stencil

/-- The bytes of files and of the strings of the fragment language. -/
abbrev Bytes := List UInt8

def Text.toBytes (t : Text) : Bytes := t.flatMap String.utf8EncodeChar

def Bytes.ofString (s : String) : Bytes := Text.toBytes s.toList

namespace Utf8

/-- The bytes that may follow the first byte of a longer character: how many are owed, and the
least and the greatest value of the next one. -/
def continuation? (first : UInt8) : Option (Nat × UInt8 × UInt8) :=
  -- lower bytes after E0 and F0 would write a shorter character, higher ones after ED a surrogate
  -- and after F4 what lies beyond the last character
  if 0xC2 ≤ first && first ≤ 0xDF then some (1, 0x80, 0xBF)
  else if first == 0xE0 then some (2, 0xA0, 0xBF)
  else if first == 0xED then some (2, 0x80, 0x9F)
  else if 0xE1 ≤ first && first ≤ 0xEF then some (2, 0x80, 0xBF)
  else if first == 0xF0 then some (3, 0x90, 0xBF)
  else if 0xF1 ≤ first && first ≤ 0xF3 then some (3, 0x80, 0xBF)
  else if first == 0xF4 then some (3, 0x80, 0x8F)
  else none

inductive Front where
  /-- A character of the given number of bytes. -/
  | char (c : Char) (length : Nat)
  /-- A sequence that no character begins with, of the given number of bytes. -/
  | invalid (length : Nat)
  /-- The beginning of a character that the end cuts off. -/
  | incomplete
deriving Repr, DecidableEq

/-- Read the owed bytes of a character, given its bits and the number of bytes so far. -/
def readOwed (bits length : Nat) : Nat → UInt8 → UInt8 → Bytes → Front
  | 0, _, _, _ => .char (Char.ofNat bits) length
  | _ + 1, _, _, [] => .incomplete
  | owed + 1, low, high, b :: rest =>
    if low ≤ b && b ≤ high then
      readOwed (bits * 64 + (b.toNat - 0x80)) (length + 1) owed 0x80 0xBF rest
    else .invalid length

def front (b : UInt8) (rest : Bytes) : Front :=
  if b < 0x80 then .char (Char.ofNat b.toNat) 1
  else
    match continuation? b with
    | none => .invalid 1
    | some (owed, low, high) => readOwed (b.toNat % Nat.pow 2 (6 - owed)) 1 owed low high rest

/-- The first fault of bytes that are no UTF-8. -/
structure Fault where
  /-- The number of good bytes before it. -/
  index : Nat
  /-- The length of the bad sequence; the end of the bytes cuts off a sequence without one. -/
  length : Option Nat
deriving Repr, DecidableEq

/-- Decode bytes, a number of them being passed over first. -/
def decodeFrom : Nat → Nat → Bytes → Except Fault Text
  | _, _, [] => .ok []
  | index, pending + 1, _ :: rest => decodeFrom (index + 1) pending rest
  | index, 0, b :: rest =>
    match front b rest with
    | .char c length => (decodeFrom (index + 1) (length - 1) rest).map (c :: ·)
    | .invalid length => .error ⟨index, some length⟩
    | .incomplete => .error ⟨index, none⟩

/-- Decode bytes, every bad sequence becoming a replacement character. -/
def decodeLossyFrom : Nat → Bytes → Text
  | _, [] => []
  | pending + 1, _ :: rest => decodeLossyFrom pending rest
  | 0, b :: rest =>
    match front b rest with
    | .char c length => c :: decodeLossyFrom (length - 1) rest
    | .invalid length => '\uFFFD' :: decodeLossyFrom (length - 1) rest
    -- nothing can follow a sequence that the end cuts off
    | .incomplete => ['\uFFFD']

end Utf8

def Bytes.toText? (bytes : Bytes) : Except Utf8.Fault Text := Utf8.decodeFrom 0 0 bytes

def Bytes.toTextLossy (bytes : Bytes) : Text := Utf8.decodeLossyFrom 0 bytes

end Stencil
