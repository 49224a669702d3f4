import Stencil.Lua.Tree
/-!
# Values of the fragment language

Tables and functions live in a store and are known by their place in it.
-/
namespace Stencil.Lua

/-- The functions that every chunk finds. -/
inductive Builtin where
  /-- `print` and `echo` of one run of a chunk. -/
  | emit (run : Nat)
  /-- `render` of one run of a chunk. -/
  | render (run : Nat)
  | error | pcall | type | tostring | tonumber | ipairs | nextItem | select
  | tableInsert | tableConcat | mathFloor | stringFormat
  | stringRep | stringUpper | stringLower | stringSub | stringLen
deriving Repr, DecidableEq

inductive Value where
  | nil
  | bool (b : Bool)
  | number (n : Num)
  | string (s : Bytes)
  | table (place : Nat)
  | closure (place : Nat)
  | builtin (b : Builtin)
  /-- An error that came from outside the language, with its number and its words. -/
  | failure (number : Nat) (message : Text)
deriving Repr, Inhabited

namespace Value

def isTrue : Value → Bool
  | .nil | .bool false => false
  | _ => true

def isNil : Value → Bool
  | .nil => true
  | _ => false

def same : Value → Value → Bool
  | .nil, .nil => true
  | .bool a, .bool b => a == b
  | .number a, .number b => a.equal b
  | .string a, .string b => a == b
  | .table a, .table b => a == b
  | .closure a, .closure b => a == b
  | .builtin a, .builtin b => a == b
  | .failure a _, .failure b _ => a == b
  | _, _ => false

def typeName : Value → String
  | .nil => "nil"
  | .bool _ => "boolean"
  | .number _ => "number"
  | .string _ => "string"
  | .table _ => "table"
  | .closure _ | .builtin _ => "function"
  | .failure .. => "userdata"

def ofText (t : Text) : Value := .string t.toBytes

def ofString (s : String) : Value := .string (.ofString s)

def ofInt (n : Int) : Value := .number (.int (Int64.ofInt n))

def ofLiteral : Literal → Value
  | .nil => .nil
  | .bool b => .bool b
  | .number n => .number n
  | .string s => .string s

def isFunction : Value → Bool
  | .closure _ | .builtin _ => true
  | _ => false

/-- The number that a value is or holds as a string. -/
def toNumber? : Value → Option Num
  | .number n => some n
  | .string s =>
    match s.toText? with
    | .ok t => Num.ofString? t
    | .error _ => none
  | _ => none

def toInt? (v : Value) : Option Int64 := v.toNumber?.bind Num.toInt?

def toBytes? : Value → Option Bytes
  | .string s => some s
  | .number n => some n.toText.toBytes
  | _ => none

def address (place : Nat) : Text :=
  let digits := Nat.toDigits 16 place
  "0x".toList ++ List.replicate (14 - digits.length) '0' ++ digits

def display : Value → Bytes
  | .nil => .ofString "nil"
  | .bool b => .ofString (if b then "true" else "false")
  | .number n => n.toText.toBytes
  | .string s => s
  | .table place => Text.toBytes ("table: ".toList ++ address place)
  | .closure place => Text.toBytes ("function: ".toList ++ address place)
  | .builtin _ => .ofString "function: builtin"
  | .failure _ message => message.toBytes

end Value

end Stencil.Lua
