/-!
# JSON values

Scopes and options come and go as JSON. Numbers keep whether they were written as integers. The
fields of an object stand in the order of their keys, each key once.
-/
namespace Stencil

inductive Json where
  | null
  | bool (value : Bool)
  | int (value : Int)
  | float (value : Float)
  | string (value : String)
  | list (items : List Json)
  | object (fields : List (String × Json))
deriving Repr, Inhabited, BEq

namespace Json

/-- Put a field among fields in order; an old one of the same key goes. -/
def insertField (key : String) (value : Json) : List (String × Json) → List (String × Json)
  | [] => [(key, value)]
  | (k, v) :: rest =>
    if key < k then (key, value) :: (k, v) :: rest
    else if key = k then (key, value) :: rest
    else (k, v) :: insertField key value rest

/-- The object of some fields; of two with one key the later counts. -/
def ofFields (fields : List (String × Json)) : Json :=
  .object (fields.foldl (fun done field => insertField field.1 field.2 done) [])

def field? (j : Json) (key : String) : Option Json :=
  match j with
  | .object fields => (fields.find? fun f => f.1 == key).map (·.2)
  | _ => none

/-- A non-negative integer that fits into a machine word. -/
def asWord? : Json → Option Nat
  | .int n => if 0 ≤ n && n < Nat.pow 2 64 then some n.toNat else none
  | _ => none

def asString? : Json → Option String
  | .string s => some s
  | _ => none

def kind : Json → String
  | .null => "null"
  | .bool _ => "a boolean"
  | .int _ | .float _ => "a number"
  | .string _ => "a string"
  | .list _ => "a list"
  | .object _ => "an object"

end Json

end Stencil
