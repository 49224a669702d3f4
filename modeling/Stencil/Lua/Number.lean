import Stencil.Number.Decimal
/-!
# Numbers of the fragment language

A number is a 64-bit integer, whose arithmetic wraps, or a double. Integers become doubles where an
operation needs them to, and doubles with an integer value serve as integers. A double that is not a
number has a sign, which arithmetic keeps and negation turns.
-/
namespace Stencil.Lua

inductive Num where
  | int (n : Int64)
  /-- A double that is a number. -/
  | float (x : Float)
  /-- A double that is not a number, with its sign. -/
  | nan (negative : Bool)
deriving Repr, Inhabited

namespace Num

def toFloat : Num → Float
  | int n => Float.ofInt n.toInt
  | float x => x
  | nan _ => 0.0 / 0.0

def toDouble : Num → Num
  | int n => float (Float.ofInt n.toInt)
  | x => x

/-- What an operation on doubles gives for two numbers. A result that is not a number takes its sign
from the first operand that is not one either, and else it is negative. -/
def onFloats (f : Float → Float → Float) (x y : Num) : Num :=
  let result := f x.toFloat y.toFloat
  if result.isNaN then
    match x, y with
    | nan negative, _ | _, nan negative => nan negative
    | _, _ => nan true
  else float result

def limit : Float := 9223372036854775808.0

def floatToInt? (x : Float) : Option Int64 :=
  if x.floor == x && -limit ≤ x && x < limit then some x.toInt64 else none

def toInt? : Num → Option Int64
  | int n => some n
  | float x => floatToInt? x
  | nan _ => none

/-- A number in the form in which it is a key of a table. -/
def normalize : Num → Num
  | int n => int n
  | float x =>
    match floatToInt? x with
    | some n => int n
    | none => float x
  | nan negative => nan negative

/-- Equality of values, whatever the form. -/
def equal (a b : Num) : Bool :=
  match a.normalize, b.normalize with
  | int m, int n => m == n
  | float x, float y => x == y
  | _, _ => false

def wholeOf (x : Float) : Int := x.toInt64.toInt

def less (a b : Num) : Bool :=
  match a, b with
  | int m, int n => m < n
  | float x, float y => x < y
  | int m, float y =>
    -- compared as integers, since a double need not hold the integer
    if limit ≤ y then true
    else if -limit ≤ y then m.toInt < wholeOf y.ceil
    else false
  | float x, int n =>
    if limit ≤ x then false
    else if -limit ≤ x then wholeOf x.floor < n.toInt
    else true
  | nan _, _ | _, nan _ => false

def lessEq (a b : Num) : Bool :=
  match a, b with
  | int m, int n => m ≤ n
  | float x, float y => x ≤ y
  | int m, float y =>
    if limit ≤ y then true
    else if -limit ≤ y then m.toInt ≤ wholeOf y.floor
    else false
  | float x, int n =>
    if limit ≤ x then false
    else if -limit ≤ x then wholeOf x.ceil ≤ n.toInt
    else true
  | nan _, _ | _, nan _ => false

def truncRem (x y : Float) : Float :=
  if x.abs < y.abs then x
  else
    let a := Magnitude.ofFloat x
    let b := Magnitude.ofFloat y
    let low := min a.exponent b.exponent
    let left := a.mantissa * Nat.pow 2 (a.exponent - low).toNat
    let right := b.mantissa * Nat.pow 2 (b.exponent - low).toNat
    let size := (Float.ofNat (left % right)).scaleB low
    if x < 0 then -size else size

def floatMod (x y : Float) : Float :=
  if x.isNaN || y.isNaN || x.isInf || y == 0 then 0.0 / 0.0
  else if y.isInf then
    if x == 0 || (x < 0) == (y < 0) then x else y
  else
    let r := truncRem x y
    if r != 0 && (r < 0) != (y < 0) then r + y else r

/-- The double nearest to a whole number times a power of two. Far powers are cut to ones that give
zero or no finite double as well. -/
def scaled (mantissa : Nat) (exponent : Int) : Float :=
  if 0 ≤ exponent then
    if mantissa = 0 then 0
    else Float.ofScientific (mantissa * Nat.pow 2 (min exponent 2000).toNat) false 0
  else
    -- to halve is to multiply by five and to move the point
    let places := (min (-exponent) (mantissa.log2 + 2000)).toNat
    Float.ofScientific (mantissa * Nat.pow 5 places) true places

/-- The number of a numeral without sign and blanks, if all of the text is one. -/
def ofHex? (t : Text) : Option Num :=
  let digit (c : Char) : Nat :=
    if c.isDigit then c.toNat - 48 else if 'a' ≤ c then c.toNat - 87 else c.toNat - 55
  let isHex (c : Char) : Bool := c.isDigit || ('a' ≤ c && c ≤ 'f') || ('A' ≤ c && c ≤ 'F')
  let value (digits : Text) : Nat := digits.foldl (fun n c => n * 16 + digit c) 0
  let whole := t.takeWhile isHex
  let rest := t.dropWhile isHex
  let (fraction, rest) := match rest with
    | '.' :: rest => (rest.takeWhile isHex, some (rest.dropWhile isHex))
    | _ => ([], none)
  let pointed := rest.isSome
  let rest := rest.getD (t.dropWhile isHex)
  if whole.isEmpty && fraction.isEmpty then none
  else
    let scale (exponent : Int) : Num :=
      float (scaled (value (whole ++ fraction)) (exponent - 4 * fraction.length))
    match rest with
    | [] => if pointed then some (scale 0) else some (int (Int64.ofInt (value whole)))
    | p :: rest =>
      if p = 'p' || p = 'P' then
        let (sign, digits) : Int × Text := match rest with
          | '-' :: digits => (-1, digits)
          | '+' :: digits => (1, digits)
          | digits => (1, digits)
        if digits.isEmpty || !digits.all Char.isDigit then none
        else some (scale (sign * Int.ofNat (digits.foldl (fun n c => n * 10 + (c.toNat - 48)) 0)))
      else none

/-- The number of a decimal numeral without sign and blanks. An integer that is not below the bound
becomes a double. -/
def ofDecimal? (bound : Nat) (t : Text) : Option Num :=
  let value (digits : Text) : Nat := digits.foldl (fun n c => n * 10 + (c.toNat - 48)) 0
  let whole := t.takeWhile Char.isDigit
  let (fraction, rest) := match t.dropWhile Char.isDigit with
    | '.' :: rest => (some (rest.takeWhile Char.isDigit), rest.dropWhile Char.isDigit)
    | rest => (none, rest)
  let digits := whole ++ fraction.getD []
  if digits.isEmpty then none
  else
    let scale (exponent : Int) : Num :=
      let mantissa := value digits
      let exponent := exponent - (fraction.getD []).length
      if mantissa = 0 then float 0
      else if exponent < 0 then
        float (if exponent < -100000 then 0 else Float.ofScientific mantissa true (-exponent).toNat)
      else float (Float.ofScientific mantissa false (min exponent 400).toNat)
    match rest with
    | [] =>
      match fraction with
      | some _ => some (scale 0)
      | none =>
        if value whole < bound then some (int (Int64.ofInt (value whole))) else some (scale 0)
    | e :: rest =>
      if e = 'e' || e = 'E' then
        let (sign, power) : Int × Text := match rest with
          | '-' :: power => (-1, power)
          | '+' :: power => (1, power)
          | power => (1, power)
        if power.isEmpty || !power.all Char.isDigit then none
        else some (scale (sign * Int.ofNat (value power)))
      else none

def ofUnsigned? (bound : Nat) (t : Text) : Option Num :=
  match t with
  | '0' :: 'x' :: rest | '0' :: 'X' :: rest => ofHex? rest
  | _ => ofDecimal? bound t

def ofNumeral? (t : Text) : Option Num := ofUnsigned? (Nat.pow 2 63) t

def isSpace (c : Char) : Bool := c == ' ' || (9 ≤ c.val && c.val ≤ 13)

def negate : Num → Num
  | int n => int (-n)
  | float x => float (-x)
  | nan negative => nan !negative

/-- The number that a string holds, with blanks and a sign. The least integer has no positive
counterpart, so a minus sign raises the bound by one. -/
def ofString? (t : Text) : Option Num :=
  let t := ((t.dropWhile isSpace).reverse.dropWhile isSpace).reverse
  match t with
  | '-' :: rest => (ofUnsigned? (Nat.pow 2 63 + 1) rest).map negate
  | '+' :: rest => ofNumeral? rest
  | _ => ofNumeral? t

/-- A double with fourteen digits: positional from four zeros after the point up to fourteen digits
before it, without zeros at the end. -/
def floatDigits (x : Float) : Text :=
  let (num, den) := (Magnitude.ofFloat x).ratio
  let d := (Decimal.rounded num den 14).trimZeros
  let count : Int := d.digits.length
  if -4 < d.point && d.point ≤ 14 then
    if count ≤ d.point then d.digits ++ List.replicate (d.point - count).toNat '0'
    else if 0 < d.point then d.digits.take d.point.toNat ++ '.' :: d.digits.drop d.point.toNat
    else ['0', '.'] ++ List.replicate (-d.point).toNat '0' ++ d.digits
  else
    let fraction := d.digits.drop 1
    let exponent := d.point - 1
    let power := Nat.toDigits 10 exponent.natAbs
    d.digits.take 1 ++ (if fraction.isEmpty then [] else '.' :: fraction) ++
      'e' :: (if exponent < 0 then '-' else '+') ::
        (if power.length < 2 then '0' :: power else power)

/-- The text of a number; a double that looks like an integer gets `.0`. -/
def toText : Num → Text
  | int n => (toString n.toInt).toList
  | nan negative => (if negative then "-nan" else "nan").toList
  | float x =>
    if x.isInf then (if x < 0 then "-inf" else "inf").toList
    else if x == 0 then signText x ++ "0.0".toList
    else
      let digits := floatDigits x
      signText x ++ digits ++ (if digits.all Char.isDigit then ['.', '0'] else [])

end Num

end Stencil.Lua
