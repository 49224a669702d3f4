import Stencil.Lua.Exchange
/-!
# The functions that every chunk finds

These are the ones that give their results at once. A message about an argument calls the function
by the name under which it was called, or else by its place in the tables of functions, and begins
with the position of the caller.
-/
namespace Stencil.Lua

/-- What a function of the library does: it gives values or raises one. -/
abbrev Lib := EStateM Value State

def firstOf (values : List Value) : Value := values.headD .nil

namespace Lib

def raiseHere {α : Type} (message : Bytes) : Lib α := do
  throw (.string ((← get).positionAt 1 ++ message))

/-- Refuse an argument for a reason. The object of a method is not counted. -/
def refuse {α : Type} (i : Nat) (f : Value) (why : Bytes) : Lib α := do
  let s ← get
  let reason : Bytes := .ofString " (" ++ why ++ .ofString ")"
  let argument (n : Nat) (name : Bytes) : Bytes :=
    .ofString ("bad argument #" ++ toString n ++ " to '") ++ name ++ .ofString "'" ++ reason
  match s.calleeName? with
  | some ⟨.method, name⟩ =>
    if i = 0 then raiseHere (.ofString "calling '" ++ name ++ .ofString "' on bad self" ++ reason)
    else raiseHere (argument i name)
  | some ⟨_, name⟩ => raiseHere (argument (i + 1) name)
  | none => raiseHere (argument (i + 1) ((s.libraryName? f).getD (.ofString "?")))

end Lib

structure Call where
  function : Builtin
  args : List Value

namespace Call

def arg (c : Call) (i : Nat) : Value := c.args.getD i .nil

def lacks (c : Call) (i : Nat) : Bool := (c.arg i).isNil

def refuse {α : Type} (c : Call) (i : Nat) (why : String) : Lib α :=
  Lib.refuse i (.builtin c.function) (.ofString why)

def typeOf (c : Call) (i : Nat) : String :=
  match c.args[i]? with
  | some v => v.typeName
  | none => "no value"

def refuseType {α : Type} (c : Call) (i : Nat) (expected : String) : Lib α :=
  c.refuse i (expected ++ " expected, got " ++ c.typeOf i)

/-- An argument of any type that has to be there. -/
def needAny (c : Call) (i : Nat) : Lib Value :=
  match c.args[i]? with
  | some v => pure v
  | none => c.refuse i "value expected"

def needNumber (c : Call) (i : Nat) : Lib Num :=
  match (c.arg i).toNumber? with
  | some n => pure n
  | none => c.refuseType i "number"

def needInt (c : Call) (i : Nat) : Lib Int := do
  match (← c.needNumber i).toInt? with
  | some k => return k.toInt
  | none => c.refuse i "number has no integer representation"

def intOr (c : Call) (i : Nat) (absent : Int) : Lib Int :=
  if c.lacks i then pure absent else c.needInt i

def needBytes (c : Call) (i : Nat) : Lib Bytes :=
  match (c.arg i).toBytes? with
  | some s => pure s
  | none => c.refuseType i "string"

def bytesOr (c : Call) (i : Nat) (absent : Bytes) : Lib Bytes :=
  if c.lacks i then pure absent else c.needBytes i

def needTable (c : Call) (i : Nat) : Lib Nat :=
  match c.arg i with
  | .table place => pure place
  | _ => c.refuseType i "table"

end Call

/-! ## Basic functions -/

/-- Raise a value. A string gets the position of the level asked for, which is cut to 32 bits. -/
def errorCall (c : Call) : Lib (List Value) := do
  let level := Int32.ofInt (← c.intOr 1 1)
  match c.arg 0 with
  | .string s => throw (.string ((← get).positionAt level.toInt.toNat ++ s))
  | v => throw v

def digitOf? (base : Nat) (c : Char) : Option Nat :=
  let digit := if c.isDigit then c.toNat - 48 else if c.isAlpha then c.toLower.toNat - 87 else base
  if digit < base then some digit else none

def readBase (base : Nat) : Nat → Text → Option Nat
  | n, [] => some n
  | n, c :: rest =>
    match digitOf? base c with
    | some digit => readBase base (n * base + digit) rest
    | none => none

/-- The integer of a numeral in a base, with blanks and a sign. -/
def integerIn? (base : Nat) (t : Text) : Option Int :=
  let t := ((t.dropWhile Num.isSpace).reverse.dropWhile Num.isSpace).reverse
  let (sign, digits) : Int × Text := match t with
    | '-' :: rest => (-1, rest)
    | '+' :: rest => (1, rest)
    | _ => (1, t)
  if digits.isEmpty then none else (readBase base 0 digits).map fun n => sign * n

def tonumberCall (c : Call) : Lib (List Value) := do
  if c.lacks 1 then
    match (← c.needAny 0).toNumber? with
    | some n => return [.number n]
    | none => return [.nil]
  else
    let base ← c.needInt 1
    match c.arg 0 with
    | .string s =>
      if base < 2 || 36 < base then c.refuse 1 "base out of range"
      else
        match integerIn? base.toNat s.toTextLossy with
        | some n => return [.ofInt n]
        | none => return [.nil]
    | _ => c.refuseType 0 "string"

def nextItemCall (c : Call) : Lib (List Value) := do
  let key := Value.ofInt ((← c.needInt 1) + 1)
  let found ← match c.arg 0 with
    | .table place => modifyGet (State.getKey · place key)
    | .string _ => modifyGet fun s => s.getKey s.strings key
    | v => throw (.ofString ("attempt to index a " ++ v.typeName ++ " value"))
  return if found.isNil then [.nil] else [key, found]

/-- The arguments from a place on, or how many there are. -/
def selectCall (c : Call) : Lib (List Value) := do
  let rest := c.args.drop 1
  match c.arg 0 with
  | .string (35 :: _) => return [.ofInt rest.length]
  | _ =>
    let n ← c.needInt 0
    if 0 < n then return rest.drop (n.toNat - 1)
    else if n = 0 || n < -(rest.length : Int) then c.refuse 0 "index out of range"
    else return rest.drop (rest.length - n.natAbs)

/-! ## Tables -/

/-- Move the values from a place on up by one, the last first. -/
def shiftUp (place first : Nat) : Nat → State → State
  | 0, s => s
  | count + 1, s =>
    let i := first + count
    let (v, s) := s.getKey place (.ofInt i)
    shiftUp place first count (s.modifyTable place (·.set (.ofInt (i + 1)) v))

def tableInsertCall (c : Call) : Lib (List Value) := do
  let place ← c.needTable 0
  let size ← modifyGet (State.lengthOf · place)
  match c.args.length with
  | 2 =>
    modify fun s => s.modifyTable place (·.set (.ofInt (size + 1)) (c.arg 1))
    return []
  | 3 =>
    let i ← c.needInt 1
    if 1 ≤ i && i ≤ size + 1 then
      modify fun s =>
        (shiftUp place i.toNat (size + 1 - i.toNat) s).modifyTable place
          (·.set (.ofInt i) (c.arg 2))
      return []
    else c.refuse 1 "position out of bounds"
  | _ => Lib.raiseHere (.ofString "wrong number of arguments to 'insert'")

/-- The strings and numbers of a table from an index on, as bytes. -/
def textsFrom (place : Nat) : Nat → Int → Lib (List Bytes)
  | 0, _ => return []
  | count + 1, i => do
    let v ← modifyGet (State.getKey · place (.ofInt i))
    match v.toBytes? with
    | some s => return s :: (← textsFrom place count (i + 1))
    | none =>
      Lib.raiseHere (.ofString ("invalid value (" ++ v.typeName ++ ") at index " ++ toString i ++
        " in table for 'concat'"))

def tableConcatCall (c : Call) : Lib (List Value) := do
  let place ← c.needTable 0
  let size ← modifyGet (State.lengthOf · place)
  let separator ← c.bytesOr 1 []
  let first ← c.intOr 2 1
  let last ← c.intOr 3 size
  let pieces ← textsFrom place (last + 1 - first).toNat first
  return [.string (List.intercalate separator pieces)]

/-! ## Numbers and strings -/

/-- The greatest integer that is not greater than a number. A string holds a double. -/
def mathFloorCall (c : Call) : Lib (List Value) := do
  match c.arg 0 with
  | .number (.int n) => return [.number (.int n)]
  | .number (.nan negative) => return [.number (.nan negative)]
  | _ => return [.number (Num.normalize (.float (← c.needNumber 0).toFloat.floor))]

def formatFrom (c : Call) : Nat → Bytes → Lib Bytes
  | _, [] => return []
  | i, 37 :: 37 :: rest => do return 37 :: (← formatFrom c i rest)
  | i, 37 :: rest => do
    if c.args.length ≤ i then c.refuse i "no value"
    match rest with
    | 100 :: rest | 105 :: rest =>
      let n ← c.needInt i
      return .ofString (toString n) ++ (← formatFrom c (i + 1) rest)
    | 115 :: rest => return (c.arg i).display ++ (← formatFrom c (i + 1) rest)
    | _ =>
      Lib.raiseHere (.ofString "invalid conversion '%" ++ rest.take 1 ++ .ofString "' to 'format'")
  | i, b :: rest => do return b :: (← formatFrom c i rest)

/-- A number of bytes for which there is no room. -/
def memorySize : Int := Nat.pow 2 40

/-- So many further copies of a string before what follows, each with a separator after it. -/
def copiesBefore (s separator : Bytes) : Nat → Bytes → Bytes
  | 0, rest => rest
  | count + 1, rest => copiesBefore s separator count (s ++ (separator ++ rest))

def stringRepCall (c : Call) : Lib (List Value) := do
  let s ← c.needBytes 0
  let n ← c.needInt 1
  let separator ← c.bytesOr 2 []
  let size := n * (s.length + separator.length)
  if Nat.pow 2 63 ≤ size then Lib.raiseHere (.ofString "resulting string too large")
  else if memorySize ≤ size then throw (.ofString "not enough memory")
  else if size ≤ 0 then return [.string []]
  else return [.string (copiesBefore s separator (n.toNat - 1) s)]

/-- The part of a string between two places, which count from the end if negative. -/
def stringSubCall (c : Call) : Lib (List Value) := do
  let s ← c.needBytes 0
  let first ← c.needInt 1
  let last ← c.intOr 2 (-1)
  let size : Int := s.length
  let first :=
    if 0 < first then first else if first = 0 || first < -size then 1 else size + first + 1
  let last := if size < last then size else if 0 ≤ last then last else max 0 (size + last + 1)
  return [.string ((s.drop (first.toNat - 1)).take (last + 1 - first).toNat)]

def mapBytes (c : Call) (f : UInt8 → UInt8) : Lib (List Value) := do
  return [.string ((← c.needBytes 0).map f)]

def upperByte (b : UInt8) : UInt8 := if 97 ≤ b && b ≤ 122 then b - 32 else b

def lowerByte (b : UInt8) : UInt8 := if 65 ≤ b && b ≤ 90 then b + 32 else b

/-! ## Calls -/

namespace Builtin

/-- What a function gives for some arguments. Those that call functions or ask for renders give
nothing here. -/
def results (b : Builtin) (args : List Value) : Lib (List Value) :=
  let c : Call := { function := b, args }
  match b with
  | .emit _ | .render _ | .pcall => return []
  | .error => errorCall c
  | .type => do return [.ofString (← c.needAny 0).typeName]
  | .tostring => do return [.string (← c.needAny 0).display]
  | .tonumber => tonumberCall c
  | .ipairs => do return [.builtin .nextItem, ← c.needAny 0, .ofInt 0]
  | .nextItem => nextItemCall c
  | .select => selectCall c
  | .tableInsert => tableInsertCall c
  | .tableConcat => tableConcatCall c
  | .mathFloor => mathFloorCall c
  | .stringFormat => do return [.string (← formatFrom c 1 (← c.needBytes 0))]
  | .stringRep => stringRepCall c
  | .stringUpper => mapBytes c upperByte
  | .stringLower => mapBytes c lowerByte
  | .stringSub => stringSubCall c
  | .stringLen => do return [.ofInt (← c.needBytes 0).length]

end Builtin

end Stencil.Lua
