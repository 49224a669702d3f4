import Stencil.Lua.Value
/-!
# Counting loops

How a counting loop goes on is settled before its first round. Over integers the number of rounds is
fixed, so the index cannot wrap; over doubles the index is compared with the limit every time.
-/
namespace Stencil.Lua

/-- A counting loop before a round. -/
inductive Counting where
  /-- The index, the rounds left after this one, and the step. -/
  | ints (index : Int64) (left : UInt64) (step : Int64)
  /-- The index, the limit and the step, which are doubles. -/
  | floats (index limit step : Num)

namespace Counting

/-- The number that a value of a loop is or holds as a string. -/
def number (v : Value) (what : String) : Except String Num :=
  match v.toNumber? with
  | some n => .ok n
  | none => .error ("bad 'for' " ++ what ++ " (number expected, got " ++ v.typeName ++ ")")

def zeroStep : String := "'for' step is zero"

/-- The last integer that a loop over integers may reach. A limit that is no integer is cut to one,
and what is not a number counts as less than all of them. There is none if no integer is reached. -/
def lastInt? (limit : Num) (up : Bool) : Option Int64 :=
  match limit with
  | .int n => some n
  | .nan _ => if up then none else some Int64.minValue
  | .float x =>
    let cut := if up then x.floor else x.ceil
    match Num.floatToInt? cut with
    | some n => some n
    | none =>
      if 0 < x then if up then some Int64.maxValue else none
      else if up then none else some Int64.minValue

/-- The rounds after the first one of a loop over integers, if it has a first one. -/
def roundsAfter? (start last step : Int64) : Option UInt64 :=
  if 0 < step then
    if last < start then none
    else some ((last.toUInt64 - start.toUInt64) / step.toUInt64)
  else if start < last then none
  -- one is put back after the negation, because the least integer has no negative
  else some ((start.toUInt64 - last.toUInt64) / ((-(step + 1)).toUInt64 + 1))

/-- A loop before its first round, if it has one. -/
def prepare (start stop step : Value) : Except String (Option Counting) :=
  match start, step with
  | .number (.int a), .number (.int k) =>
    if k = 0 then .error zeroStep
    else
      (number stop "limit").map fun limit =>
        (lastInt? limit (0 < k)).bind fun last =>
          (roundsAfter? a last k).map fun left => .ints a left k
  | _, _ => do
    let b := (← number stop "limit").toDouble
    let k := (← number step "step").toDouble
    let a := (← number start "initial value").toDouble
    if k.toFloat == 0 then .error zeroStep
    else if (if 0 < k.toFloat then b.less a else a.less b) then .ok none
    else .ok (some (.floats a b k))

def next? : Counting → Option Counting
  | ints index left step =>
    if left = 0 then none else some (.ints (index + step) (left - 1) step)
  | floats index limit step =>
    let index := Num.onFloats (· + ·) index step
    if (if 0 < step.toFloat then index.lessEq limit else limit.lessEq index) then
      some (.floats index limit step)
    else none

def index : Counting → Value
  | ints index .. => .number (.int index)
  | floats index .. => .number index

/-- The loop as values: its index, the rounds left or the limit, and its step. -/
def values : Counting → List Value
  | ints index left step =>
    [.number (.int index), .number (.int left.toInt64), .number (.int step)]
  | floats index limit step => [.number index, .number limit, .number step]

def ofValues? : Value → Value → Value → Option Counting
  | .number (.int index), .number (.int left), .number (.int step) =>
    some (.ints index left.toUInt64 step)
  | .number index, .number limit, .number step => some (.floats index limit step)
  | _, _, _ => none

end Counting

end Stencil.Lua
