import Stencil.Lua.Arithmetic
import Stencil.Lua.Code.Basic
import Stencil.Lua.Value
/-!
# Operators on values

What the operators do to values, and why some values do not suit them. Strings that hold numbers
serve as numbers in arithmetic, though not where bits are meant.
-/
namespace Stencil.Lua

/-- Why an operator does not apply. -/
inductive Misuse where
  /-- What was attempted, and the operand, left or right, that is of the wrong type. -/
  | attempt (what : String) (right : Bool) (type : String)
  | noInteger (right : Bool)
  /-- Anything else, in full words. -/
  | other (message : String)
  /-- A number that a string holds does not suit. The operator is then no instruction but a function
  of its own, so the message has no position. -/
  | inside (message : String)
deriving Repr

namespace Misuse

/-- The words for a misuse, given what the operands are called. -/
def message (describe : Bool → Bytes) : Misuse → Bytes
  | attempt what right type =>
    .ofString ("attempt to " ++ what ++ " a " ++ type ++ " value") ++ describe right
  | noInteger right =>
    .ofString "number" ++ describe right ++ .ofString " has no integer representation"
  | other message | inside message => .ofString message

end Misuse

namespace Unsuited

def misuse : Unsuited → Misuse
  | noInteger right => .noInteger right
  | zeroDivisor => .other "attempt to perform 'n//0'"
  | zeroModulus => .other "attempt to perform 'n%%0'"

end Unsuited

namespace Value

def isString : Value → Bool
  | .string _ => true
  | _ => false

def isNumber : Value → Bool
  | .number _ => true
  | _ => false

def eitherString (a b : Value) : Bool := a.isString || b.isString

end Value

namespace Op

/-- The name of an arithmetic operator in messages about strings. -/
def name : Arithmetic → String
  | .add => "add"
  | .sub => "sub"
  | .mul => "mul"
  | .div => "div"
  | .floorDiv => "idiv"
  | .mod => "mod"
  | .pow => "pow"
  | .bitAnd => "band"
  | .bitOr => "bor"
  | .bitXor => "bxor"
  | .shiftLeft => "shl"
  | .shiftRight => "shr"

/-- The misuse of an operator on values of which one is no number. The left one is at fault if it
is no number, whatever the right one is. -/
def notNumbers (what : String) (a b : Value) : Misuse :=
  if a.isNumber then .attempt what true b.typeName else .attempt what false a.typeName

def notNumeric (name : String) (a b : Value) : Misuse :=
  .other ("attempt to " ++ name ++ " a '" ++ a.typeName ++ "' with a '" ++ b.typeName ++ "'")

/-- Whether arithmetic on two values goes by what strings hold. -/
def isByText (op : Arithmetic) (a b : Value) : Bool := !op.isBitwise && a.eitherString b

def arithmetic (op : Arithmetic) (a b : Value) : Except Misuse Value :=
  match a, b with
  | .number x, .number y => ((op.apply x y).map Value.number).mapError Unsuited.misuse
  | a, b =>
    if op.isBitwise then .error (notNumbers "perform bitwise operation on" a b)
    else if a.eitherString b then
      match a.toNumber?, b.toNumber? with
      | some x, some y =>
        ((op.apply x y).map Value.number).mapError fun u =>
          match u.misuse with
          | .other message => .inside message
          | m => m
      | _, _ => .error (notNumeric (name op) a b)
    else .error (notNumbers "perform arithmetic on" a b)

def bytesLess : Bytes → Bytes → Bool
  | [], [] => false
  | [], _ :: _ => true
  | _ :: _, [] => false
  | x :: xs, y :: ys => x < y || (x == y && bytesLess xs ys)

/-- Compare two values: any two for sameness, and two numbers or two strings by their order. -/
def compare (op : Comparison) (a b : Value) : Except Misuse Bool :=
  match op, a, b with
  | .equal, a, b => .ok (a.same b)
  | .less, .number x, .number y => .ok (x.less y)
  | .lessEqual, .number x, .number y => .ok (x.lessEq y)
  | .less, .string x, .string y => .ok (bytesLess x y)
  | .lessEqual, .string x, .string y => .ok (!bytesLess y x)
  | _, a, b =>
    if a.typeName = b.typeName then
      .error (.other ("attempt to compare two " ++ a.typeName ++ " values"))
    else .error (.other ("attempt to compare " ++ a.typeName ++ " with " ++ b.typeName))

def negative (a : Value) : Except Misuse Value :=
  match a with
  | .number n => .ok (.number n.negate)
  | .string _ =>
    match a.toNumber? with
    | some n => .ok (.number n.negate)
    | none => .error (notNumeric "unm" a a)
  | a => .error (.attempt "perform arithmetic on" false a.typeName)

def complement (a : Value) : Except Misuse Value :=
  match a with
  | .number n =>
    match n.toInt? with
    | some i => .ok (.number (.int (~~~i)))
    | none => .error (.noInteger false)
  | a => .error (.attempt "perform bitwise operation on" false a.typeName)

/-- The place of the value that cannot be joined to what comes after it, or of the last one if only
that cannot be joined. -/
def unjoinable? (values : List Value) : Option Nat :=
  let bad (i : Nat) : Bool := (values.getD i .nil).toBytes?.isNone
  let last := values.length - 1
  if bad (last - 1) then some (last - 1)
  else if bad last then some last
  else (List.range last).reverse.find? bad

def join (values : List Value) : Bytes :=
  values.foldr (fun v joined => v.toBytes?.getD [] ++ joined) []

end Op

end Stencil.Lua
