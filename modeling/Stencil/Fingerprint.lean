import Stencil.Text.Utf8
/-!
# Fingerprints

A template is known by the SHA-1 digest of its content, written in hexadecimal.
-/
namespace Stencil

namespace Sha1

structure State where
  a : UInt32
  b : UInt32
  c : UInt32
  d : UInt32
  e : UInt32
deriving Repr, DecidableEq

def initial : State := ⟨0x67452301, 0xEFCDAB89, 0x98BADCFE, 0x10325476, 0xC3D2E1F0⟩

def rotateLeft (w : UInt32) (n : UInt32) : UInt32 := (w <<< n) ||| (w >>> (32 - n))

def bigEndian (count n : Nat) : Bytes :=
  (List.range count).map fun i => UInt8.ofNat (n / Nat.pow 256 (count - 1 - i))

/-- The message with its padding: a one bit, zeros, and the length in bits. -/
def pad (message : Bytes) : Bytes :=
  -- as many as leave room for eight bytes at the end of a block
  let zeros := (119 - message.length % 64) % 64
  message ++ 0x80 :: List.replicate zeros 0 ++ bigEndian 8 (message.length * 8)

def words : Bytes → List UInt32
  | a :: b :: c :: d :: rest =>
    ((a.toUInt32 <<< 24) ||| (b.toUInt32 <<< 16) ||| (c.toUInt32 <<< 8) ||| d.toUInt32) ::
      words rest
  | _ => []

/-- Further words of the schedule, from the sixteen before them. -/
def extend : Nat → List UInt32 → List UInt32
  | count + 1, w :: rest =>
    let next := rotateLeft (w ^^^ rest.getD 1 0 ^^^ rest.getD 7 0 ^^^ rest.getD 12 0) 1
    w :: extend count (rest ++ [next])
  | _, window => window

/-- The function and the constant of a round. -/
def mix (round : Nat) (s : State) : UInt32 :=
  if round < 20 then ((s.b &&& s.c) ||| (~~~s.b &&& s.d)) + 0x5A827999
  else if round < 40 then (s.b ^^^ s.c ^^^ s.d) + 0x6ED9EBA1
  else if round < 60 then ((s.b &&& s.c) ||| (s.b &&& s.d) ||| (s.c &&& s.d)) + 0x8F1BBCDC
  else (s.b ^^^ s.c ^^^ s.d) + 0xCA62C1D6

def rounds : Nat → List UInt32 → State → State
  | _, [], s => s
  | round, w :: rest, s =>
    rounds (round + 1) rest
      ⟨rotateLeft s.a 5 + mix round s + s.e + w, s.a, rotateLeft s.b 30, s.c, s.d⟩

/-- Take one block of sixteen words into the digest. -/
def compress (s : State) (block : List UInt32) : State :=
  let t := rounds 0 (extend 64 block) s
  ⟨s.a + t.a, s.b + t.b, s.c + t.c, s.d + t.d, s.e + t.e⟩

def digestBlocks : Nat → List UInt32 → State → State
  | count + 1, ws, s => digestBlocks count (ws.drop 16) (compress s (ws.take 16))
  | 0, _, s => s

def digest (message : Bytes) : Bytes :=
  let ws := words (pad message)
  let s := digestBlocks (ws.length / 16) ws initial
  [s.a, s.b, s.c, s.d, s.e].flatMap fun w => bigEndian 4 w.toNat

end Sha1

/-- The digest of a template's content, as hexadecimal digits. -/
structure Fingerprint where
  hex : String
deriving Repr, DecidableEq, Inhabited

namespace Fingerprint

def hexByte (b : UInt8) : Text := [Nat.digitChar (b.toNat / 16), Nat.digitChar (b.toNat % 16)]

def ofContent (content : Text) : Fingerprint :=
  ⟨String.ofList ((Sha1.digest content.toBytes).flatMap hexByte)⟩

def lastChars (count : Nat) (s : String) : String :=
  String.ofList (s.toList.drop (s.toList.length - count))

/-- The abbreviation used in file names. -/
def short (f : Fingerprint) : String := lastChars 7 f.hex

/-- The abbreviation used in labels. -/
def nickname (f : Fingerprint) : String := lastChars 5 f.hex

end Fingerprint

end Stencil
