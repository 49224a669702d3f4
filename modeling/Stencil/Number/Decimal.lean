import Stencil.Text.Blank
/-!
# Decimal digits of binary numbers

A finite double is a fraction of two natural numbers. Its decimal digits come from exact division:
as many as asked for, rounded to nearest with ties to even, or the fewest that read back as the
same double.
-/
namespace Stencil

/-- A finite double without its sign: `mantissa * 2 ^ exponent`. -/
structure Magnitude where
  mantissa : Nat
  exponent : Int
deriving Repr, DecidableEq

namespace Magnitude

def ofFloat (x : Float) : Magnitude :=
  let bits := x.toBits.toNat % Nat.pow 2 63
  let field := bits / Nat.pow 2 52
  let fraction := bits % Nat.pow 2 52
  if field = 0 then ⟨fraction, -1074⟩ else ⟨fraction + Nat.pow 2 52, Int.ofNat field - 1075⟩

/-- The last place of the mantissa as a fraction. -/
def place (m : Magnitude) : Nat × Nat :=
  if 0 ≤ m.exponent then (Nat.pow 2 m.exponent.toNat, 1) else (1, Nat.pow 2 (-m.exponent).toNat)

def ratio (m : Magnitude) : Nat × Nat := (m.mantissa * m.place.1, m.place.2)

end Magnitude

/-- Decimal digits: their value is `0.d₁d₂…` times ten to the point. -/
structure Decimal where
  digits : List Char
  point : Int
deriving Repr, DecidableEq

namespace Decimal

def width (n : Nat) : Nat := (Nat.toDigits 10 n).length

def power (k : Int) : Nat × Nat := if 0 ≤ k then (Nat.pow 10 k.toNat, 1) else (1, Nat.pow 10 (-k).toNat)

/-- Where the point of a positive fraction stands: the least power of ten above it. -/
def pointOf (num den : Nat) : Int :=
  -- the widths give the place or one less
  let guess : Int := (width num : Int) - width den
  let (up, down) := power guess
  if num * down < up * den then guess else guess + 1

/-- The quotient rounded to nearest, ties to even. -/
def roundDiv (num den : Nat) : Nat :=
  let floor := num / den
  let twice := 2 * (num % den)
  if twice < den || (twice == den && floor % 2 == 0) then floor else floor + 1

/-- A positive fraction in units of its digit at the given number of places. -/
def inUnits (num den : Nat) (point : Int) (places : Nat) : Nat × Nat :=
  let (up, down) := power ((places : Int) - point)
  (num * up, den * down)

/-- The digits of a number that counts units of the given place. -/
def ofUnits (units : Nat) (point : Int) (places : Nat) : Decimal :=
  let digits := Nat.toDigits 10 units
  ⟨digits, point + ((digits.length : Int) - places)⟩

/-- The digits without the zeros at their end; one digit stays. -/
def trimZeros (d : Decimal) : Decimal :=
  match d.digits with
  | [] => d
  | first :: rest => { d with digits := first :: (rest.reverse.dropWhile (· == '0')).reverse }

def rounded (num den places : Nat) : Decimal :=
  let point := pointOf num den
  let (n, d) := inUnits num den point places
  ofUnits (roundDiv n d) point places

/-- The fewest digits that read back: of two equally short ones the nearer. The fractions bound what
reads back as the same double, the ends included for an even mantissa. -/
def shortest (m : Magnitude) : Decimal :=
  let quarter := m.place.1
  let num := 4 * m.mantissa * quarter
  let den := 4 * m.place.2
  -- below a power of two the doubles lie half as far apart
  let low := num - (if m.mantissa == Nat.pow 2 52 && m.exponent != -1074 then quarter else 2 * quarter)
  let high := num + 2 * quarter
  let point := pointOf num den
  let inside (units places : Nat) : Bool :=
    let (up, down) := power (point - (places : Int))
    let value := units * up * den
    let least := low * down
    let most := high * down
    if m.mantissa % 2 == 0 then least ≤ value && value ≤ most else least < value && value < most
  let attempt (places : Nat) : Option Decimal :=
    let (n, d) := inUnits num den point places
    let floor := n / d
    let nearest := roundDiv n d
    let other := if nearest = floor then floor + 1 else floor
    if inside nearest places then some (ofUnits nearest point places)
    else if inside other places then some (ofUnits other point places)
    else none
  ((List.range 17).findSome? fun i => attempt (i + 1)).getD (rounded num den 17) |>.trimZeros

/-- The digits around a point, with zeros where digits are missing. A whole number has no point. -/
def positional (d : Decimal) : Text :=
  let count : Int := d.digits.length
  if count ≤ d.point then d.digits ++ List.replicate (d.point - count).toNat '0'
  else if 0 < d.point then d.digits.take d.point.toNat ++ '.' :: d.digits.drop d.point.toNat
  else ['0', '.'] ++ List.replicate (-d.point).toNat '0' ++ d.digits

end Decimal

/-- A sign for negative numbers, the negative zero among them. -/
def signText (x : Float) : Text := if x.toBits.toNat < Nat.pow 2 63 then [] else ['-']

end Stencil
