import Stencil.Lua.Tree
/-!
# Arithmetic on numbers

What the operators give for two numbers. Division and power are on doubles, the bitwise operators on
integers, and all others on integers if both numbers are integers and else on doubles.
-/
namespace Stencil.Lua

/-- Why an operator has no result for two numbers. -/
inductive Unsuited where
  /-- The left or the right number stands for no integer. -/
  | noInteger (right : Bool)
  | zeroDivisor
  | zeroModulus
deriving Repr, DecidableEq

namespace Num

/-- Division of integers toward minus infinity. -/
def floorDiv (m n : Int64) : Except Unsuited Int64 :=
  if n = 0 then .error .zeroDivisor else .ok (Int64.ofInt (Int.fdiv m.toInt n.toInt))

def floorMod (m n : Int64) : Except Unsuited Int64 :=
  if n = 0 then .error .zeroModulus else .ok (Int64.ofInt (Int.fmod m.toInt n.toInt))

/-- Shift left; a negative amount shifts right, and every bit may be shifted out. -/
def shift (m n : Int64) : Int64 :=
  let amount := n.toInt
  if 64 ≤ amount || amount ≤ -64 then 0
  else if 0 ≤ amount then (m.toUInt64 <<< UInt64.ofNat amount.toNat).toInt64
  else (m.toUInt64 >>> UInt64.ofNat (-amount).toNat).toInt64

def power (x y : Float) : Float := if y == 2 then x * x else Float.pow x y

/-- An operation that is its own on integers and on doubles. -/
def mixed (onInts : Int64 → Int64 → Except Unsuited Int64) (f : Float → Float → Float) :
    Num → Num → Except Unsuited Num
  | int m, int n => (onInts m n).map int
  | x, y => .ok (onFloats f x y)

def onIntegers (f : Int64 → Int64 → Int64) (x y : Num) : Except Unsuited Num :=
  match x.toInt?, y.toInt? with
  | some m, some n => .ok (int (f m n))
  | none, _ => .error (.noInteger false)
  | some _, none => .error (.noInteger true)

end Num

namespace Arithmetic

def apply (op : Arithmetic) (x y : Num) : Except Unsuited Num :=
  match op with
  | .add => Num.mixed (fun m n => .ok (m + n)) (· + ·) x y
  | .sub => Num.mixed (fun m n => .ok (m - n)) (· - ·) x y
  | .mul => Num.mixed (fun m n => .ok (m * n)) (· * ·) x y
  | .floorDiv => Num.mixed Num.floorDiv (fun x y => (x / y).floor) x y
  | .mod => Num.mixed Num.floorMod Num.floatMod x y
  | .div => .ok (Num.onFloats (· / ·) x y)
  | .pow => .ok (Num.onFloats Num.power x y)
  | .bitAnd => Num.onIntegers (· &&& ·) x y
  | .bitOr => Num.onIntegers (· ||| ·) x y
  | .bitXor => Num.onIntegers (· ^^^ ·) x y
  | .shiftLeft => Num.onIntegers Num.shift x y
  | .shiftRight => Num.onIntegers (fun m n => Num.shift m (-n)) x y

def isBitwise : Arithmetic → Bool
  | .bitAnd | .bitOr | .bitXor | .shiftLeft | .shiftRight => true
  | _ => false

def commutes : Arithmetic → Bool
  | .add | .mul | .bitAnd | .bitOr | .bitXor => true
  | _ => false

end Arithmetic

end Stencil.Lua
