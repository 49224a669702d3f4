import Stencil.Json.Writer
import Stencil.Lua.State
/-!
# Values as JSON and JSON as values

Scopes come in as JSON, and the options and scopes of nested renders go out as JSON. A null comes in
as nil. A table goes out as a list if it has a length or came from a list, and else as an object,
whose keys have to be strings.
-/
namespace Stencil.Lua

namespace Value

/-- An integer of JSON; one too large for a word becomes a double. -/
def ofWhole (n : Int) : Value :=
  if -(Nat.pow 2 63 : Int) ≤ n && n < Nat.pow 2 63 then ofInt n
  else if 0 ≤ n then .number (.float (Float.ofScientific n.toNat false 0))
  else .number (.float (-Float.ofScientific n.natAbs false 0))

mutual

def ofJson : Json → StateM State Value
  | .null => return .nil
  | .bool b => return .bool b
  | .int n => return ofWhole n
  | .float x => return .number (.float x)
  | .string s => return ofString s
  | .list items => do
    let items := (← itemsOfJson items).toArray
    modifyGet (State.addTable · { items, limit := items.size, isList := true })
  | .object fields => do
    let t ← fieldsOfJson fields (Table.ofSizes 0 fields.length)
    modifyGet (State.addTable · t)

def itemsOfJson : List Json → StateM State (List Value)
  | [] => return []
  | j :: rest => do
    let v ← ofJson j
    return v :: (← itemsOfJson rest)

def fieldsOfJson : List (String × Json) → Table → StateM State Table
  | [], t => return t
  | (key, j) :: rest, t => do
    let v ← ofJson j
    fieldsOfJson rest (t.set (ofString key) v)

end

end Value

/-- Why a value cannot go out. -/
inductive Unfit where
  | type (name : String)
  | key (reason : String)
  | recursive
  | bytes
deriving Repr, DecidableEq

namespace Unfit

def message : Unfit → String
  | type name => "deserialize error: unsupported value type `" ++ name ++ "`"
  | key reason => "deserialize error: " ++ reason
  | recursive => "deserialize error: recursive table detected"
  | bytes => "deserialize error: invalid type: byte array, expected any valid JSON value"

end Unfit

namespace Value

/-- All the digits of a double that read back, around a point. -/
def floatWords (x : Float) : Text :=
  if x.isInf then (if x < 0 then "-inf" else "inf").toList
  else if x == 0 then signText x ++ "0.0".toList
  else signText x ++ Json.pointed (Decimal.shortest (.ofFloat x)).positional

/-- Whether a table goes out as a list, and its length. -/
def listLength (place : Nat) : EStateM Unfit State (Option Nat) := do
  let length ← modifyGet (State.lengthOf · place)
  return if length ≠ 0 || ((← get).table place).isList then some length else none

/-- A key that goes out: a string, or the reason why there is none. The reasons tell the first key
of a table from the others. -/
def fieldName (first : Bool) (key : Value) : EStateM Unfit State String :=
  let expected := if first then ", expected a string key" else ", expected a string"
  let wrongType (words : String) : EStateM Unfit State String :=
    throw (.key ("invalid type: " ++ words ++ expected))
  match key with
  | .string s =>
    match s.toText? with
    | .ok t => return String.ofList t
    | .error _ =>
      if first then wrongType "byte array"
      else throw (.key ("invalid value: byte array" ++ expected))
  | .bool b => wrongType ("boolean `" ++ toString b ++ "`")
  | .number (.int n) => wrongType ("integer `" ++ toString n.toInt ++ "`")
  | .number n => wrongType ("floating point `" ++ String.ofList (floatWords n.toFloat) ++ "`")
  | .table place => do
    wrongType (if (← listLength place).isSome then "sequence" else "map")
  | .failure .. => throw (.type "error")
  | _ => throw (.type "function")

/-- Refuse a table that lies in itself. -/
def refuseWithin (path : List Nat) : Value → EStateM Unfit State Unit
  | .table place => if path.contains place then throw .recursive else return
  | _ => return

end Value

namespace Value

/-- The JSON of a value, given the tables it lies in. A path through the tables of a state is no
longer than their number, unless a table lies in itself. -/
def toJsonIn : Nat → List Nat → Value → EStateM Unfit State Json
  | _, _, .nil => return .null
  | _, _, .bool b => return .bool b
  | _, _, .number (.int n) => return .int n.toInt
  | _, _, .number (.float x) => return if x.isInf then .null else .float x
  | _, _, .number (.nan _) => return .null
  | _, _, .string bytes =>
    match bytes.toText? with
    | .ok t => return .string (String.ofList t)
    | .error _ => throw .bytes
  | _, _, .closure _ | _, _, .builtin _ => throw (.type "function")
  | _, _, .failure .. => throw (.type "error")
  | 0, _, .table _ => throw .recursive
  | depth + 1, path, .table place => do
    let path := place :: path
    match ← listLength place with
    | some length =>
      let items ← (List.range length).mapM fun i => do
        let v ← modifyGet (State.getKey · place (.ofInt (Int.ofNat i + 1)))
        refuseWithin path v
        toJsonIn depth path v
      return .list items
    | none =>
      let fields ← ((← get).table place).entries.zipIdx.mapM fun ((key, v), i) => do
        refuseWithin path key
        refuseWithin path v
        let name ← key.fieldName (i = 0)
        return (name, ← toJsonIn depth path v)
      return Json.ofFields fields

def toJson (v : Value) : EStateM Unfit State Json := do
  toJsonIn ((← get).tables.size + 1) [] v

end Value

end Stencil.Lua
