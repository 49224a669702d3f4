import Stencil.Json.Basic
import Stencil.Number.Decimal
/-!
# Writing JSON

The compact form: no white space, the fewest digits for a float, and escapes only where needed. The
spread form puts every item and field on a line of its own.
-/
namespace Stencil.Json

/-- A positional text that has a point, if need be before a zero. -/
def pointed (t : Text) : Text := if t.any (· == '.') then t else t ++ ['.', '0']

/-- The text of a decimal: positional up to sixteen digits before the point and five zeros after
it, with a signed exponent otherwise. -/
def decimalText (d : Decimal) : Text :=
  if -5 < d.point && d.point ≤ 16 then pointed d.positional
  else
    let fraction := d.digits.drop 1
    let exponent := d.point - 1
    d.digits.take 1 ++ (if fraction.isEmpty then [] else '.' :: fraction) ++
      'e' :: (if exponent < 0 then '-' else '+') :: Nat.toDigits 10 exponent.natAbs

/-- The text of a float. What is not finite has no form and becomes null. -/
def floatText (x : Float) : Text :=
  if x.isNaN || x.isInf then ['n', 'u', 'l', 'l']
  else if x == 0 then signText x ++ ['0', '.', '0']
  else signText x ++ decimalText (Decimal.shortest (.ofFloat x))

def charText (c : Char) : Text :=
  match c with
  | '"' => ['\\', '"']
  | '\\' => ['\\', '\\']
  | '\n' => ['\\', 'n']
  | '\r' => ['\\', 'r']
  | '\t' => ['\\', 't']
  | c =>
    if c.val = 8 then ['\\', 'b']
    else if c.val = 12 then ['\\', 'f']
    else if c.val < 0x20 then
      ['\\', 'u', '0', '0', Nat.digitChar (c.toNat / 16), Nat.digitChar (c.toNat % 16)]
    else [c]

def stringText (s : String) : Text := '"' :: s.toList.flatMap charText ++ ['"']

mutual

def toText : Json → Text
  | .null => "null".toList
  | .bool b => (if b then "true" else "false").toList
  | .int n => (toString n).toList
  | .float x => floatText x
  | .string s => stringText s
  | .list items => '[' :: itemsText items ++ [']']
  | .object fields => '{' :: fieldsText fields ++ ['}']

def itemsText : List Json → Text
  | [] => []
  | [item] => toText item
  | item :: rest => toText item ++ ',' :: itemsText rest

def fieldsText : List (String × Json) → Text
  | [] => []
  | [(key, value)] => stringText key ++ ':' :: toText value
  | (key, value) :: rest => stringText key ++ ':' :: toText value ++ ',' :: fieldsText rest

end

def lineStart (depth : Nat) : Text := '\n' :: List.replicate (2 * depth) ' '

mutual

/-- The spread form of a value at a depth of nesting. -/
def toSpread (depth : Nat) : Json → Text
  | .list [] => ['[', ']']
  | .list items => '[' :: spreadItems (depth + 1) items ++ lineStart depth ++ [']']
  | .object [] => ['{', '}']
  | .object fields => '{' :: spreadFields (depth + 1) fields ++ lineStart depth ++ ['}']
  | value => toText value

def spreadItems (depth : Nat) : List Json → Text
  | [] => []
  | [item] => lineStart depth ++ toSpread depth item
  | item :: rest => lineStart depth ++ toSpread depth item ++ ',' :: spreadItems depth rest

def spreadFields (depth : Nat) : List (String × Json) → Text
  | [] => []
  | [(key, value)] => lineStart depth ++ stringText key ++ ':' :: ' ' :: toSpread depth value
  | (key, value) :: rest =>
    lineStart depth ++ stringText key ++ ':' :: ' ' :: toSpread depth value ++
      ',' :: spreadFields depth rest

end

end Stencil.Json
