import Stencil.Lua.Code.Names
import Stencil.Lua.Table
/-!
# The state that chunks share

Tables, functions and shared variables live in stores. The registers of all functions at work lie on
one stack, and the calls under way are frames, innermost first: code that goes on after a call, or a
function from outside the language that waits for one. What happens next is kept beside them, so a
run can stop anywhere and go on later.
-/
namespace Stencil.Lua

/-- A function with the shared variables it sees. -/
structure Closure where
  code : Code
  cells : Array Nat
deriving Inhabited

/-- A shared variable: in a register as long as it is in scope, and after that on its own. -/
inductive Cell where
  | onStack (place : Nat)
  | own (v : Value)
deriving Inhabited

/-- Where the results of a call go, and how many are wanted, if not all. -/
structure Landing where
  place : Nat
  count : Option Nat
deriving Inhabited

structure Activation where
  closure : Closure
  /-- The place of its first register. -/
  base : Nat
  landing : Landing
  /-- The number of further arguments, which lie before its registers. -/
  extra : Nat
  /-- How deep calls from outside the language are nested around it. -/
  level : Nat
deriving Inhabited

/-- A call under way, which waits for the one after it. -/
inductive Frame where
  | code (a : Activation) (pc : Nat)
  /-- A guarded call. -/
  | guard (landing : Landing) (level : Nat)
  /-- The emission of values, with the function that gives their texts and the values left. -/
  | emit (landing : Landing) (level run : Nat) (shower : Value) (rest : List Value)
  | render (landing : Landing) (level run : Nat)
  /-- The beginning of a run, from a place of the stack on. -/
  | entry (place level : Nat)
deriving Inhabited

inductive Control where
  | run
  /-- A call from outside the language of the value at a place, with so many arguments after it. -/
  | call (place count : Nat) (wanted : Option Nat) (level : Nat)
  | back (values : List Value) (landing : Landing)
  | raise (v : Value)
deriving Inhabited

structure State where
  tables : Array Table
  closures : Array Closure
  cells : Array Cell
  /-- The shared variables that are in registers: place and cell, the last place first. -/
  inScope : List (Nat × Nat)
  stack : Array Value
  /-- The end of the values last put on the stack where their number was open. -/
  top : Nat
  frames : List Frame
  control : Control
  /-- The table of global variables. -/
  globals : Nat
  /-- The table in which fields of strings are looked up. -/
  strings : Nat
  /-- The tables of functions, each with what precedes the names in it. -/
  libraries : List (String × Nat)
  /-- The runs under way, innermost first, each with what it has emitted, the last first. -/
  runs : List (Nat × List Text)
  nextRun : Nat
  nextFailure : Nat
deriving Inhabited

namespace Frame

/-- How deep calls from outside the language are nested around a frame. -/
def level : Frame → Nat
  | code a _ => a.level
  | guard _ level | emit _ level .. | render _ level _ | entry _ level => level

/-- The position of a frame in error messages. Only code has one. -/
def position : Frame → Bytes
  | code a pc =>
    let c := a.closure.code
    c.chunk ++ .ofString (":" ++ toString (c.lines.getD (pc - 1) 0) ++ ": ")
  | _ => []

def isCall : Frame → Bool
  | entry .. => false
  | _ => true

end Frame

namespace State

def level (s : State) : Nat := (s.frames.head?.map Frame.level).getD 0

/-- The position so many calls up. Level zero has none. -/
def positionAt (s : State) (level : Nat) : Bytes :=
  match level with
  | 0 => []
  | level + 1 => (((s.frames.filter Frame.isCall)[level]?).map Frame.position).getD []

def calleeName? (s : State) : Option Called :=
  match s.frames with
  | .code a pc :: _ => a.closure.code.calleeName? (pc - 1)
  | _ => none

/-! ## Tables -/

def table (s : State) (place : Nat) : Table := s.tables.getD place {}

def modifyTable (s : State) (place : Nat) (f : Table → Table) : State :=
  { s with tables := s.tables.modify place f }

def addFailure (s : State) (message : Text) : Value × State :=
  (.failure s.nextFailure message, { s with nextFailure := s.nextFailure + 1 })

def addTable (s : State) (t : Table) : Value × State :=
  (.table s.tables.size, { s with tables := s.tables.push t })

/-- The value under a key of a table. Looking for it may move the table's limit. -/
def getKey (s : State) (place : Nat) (key : Value) : Value × State :=
  let key := Table.normalKey key
  let t := s.table place
  let v := t.getNormal key
  if t.reaches key then (v, s.modifyTable place (Table.reach · key)) else (v, s)

def lengthOf (s : State) (place : Nat) : Nat × State :=
  let (n, t) := (s.table place).length
  (n, if t.limit = (s.table place).limit then s
    else s.modifyTable place fun u => { u with limit := t.limit })

def global (s : State) (id : String) : Value := (s.table s.globals).get (.ofString id)

/-- The name under which a function is found in the tables of functions. -/
def libraryName? (s : State) (f : Value) : Option Bytes :=
  s.libraries.findSome? fun (lead, place) =>
    (s.table place).entries.findSome? fun (key, v) =>
      match key with
      | .string name => if v.same f then some (.ofString lead ++ name) else none
      | _ => none

/-! ## The stack -/

def read (s : State) (place : Nat) : Value := s.stack.getD place .nil

def ensure (s : State) (size : Nat) : State :=
  if s.stack.size < size then
    { s with stack := s.stack ++ Array.replicate (max size (2 * s.stack.size) - s.stack.size) .nil }
  else s

def write (s : State) (place : Nat) (v : Value) : State :=
  { s with stack := s.stack.setIfInBounds place v }

def writeAll (s : State) (place : Nat) : List Value → State
  | [] => s
  | v :: rest => (s.write place v).writeAll (place + 1) rest

def clear (s : State) (place : Nat) : Nat → State
  | 0 => s
  | count + 1 => (s.write place .nil).clear (place + 1) count

/-- Copy values to places that do not come after them. -/
def moveDown (s : State) (source dest : Nat) : Nat → State
  | 0 => s
  | count + 1 => (s.write dest (s.read source)).moveDown (source + 1) (dest + 1) count

def readAll (s : State) (place count : Nat) : List Value :=
  (List.range count).map fun i => s.read (place + i)

/-- Put the results of a call where they are wanted. -/
def land (s : State) (values : List Value) (landing : Landing) : State :=
  match landing.count with
  | some count =>
    ((s.ensure (landing.place + count)).writeAll landing.place (values.take count)).clear
      (landing.place + values.length) (count - values.length)
  | none =>
    let top := landing.place + values.length
    { (s.ensure top).writeAll landing.place values with top }

/-! ## Shared variables -/

/-- The cell of a variable in scope, and the state in which it has one. -/
def share (s : State) (place : Nat) : Nat × State :=
  match s.inScope.find? fun entry => entry.1 = place with
  | some (_, cell) => (cell, s)
  | none =>
    let cell := s.cells.size
    -- the last place comes first, so that leaving a scope takes from the front
    let before := s.inScope.takeWhile fun entry => place < entry.1
    let after := s.inScope.dropWhile fun entry => place < entry.1
    (cell, { s with
      cells := s.cells.push (.onStack place), inScope := before ++ (place, cell) :: after })

/-- Give the shared variables from a place on a place of their own. -/
def detachFrom (s : State) (place : Nat) : State :=
  go s.inScope s
where
  go : List (Nat × Nat) → State → State
    | [], s => { s with inScope := [] }
    | (p, cell) :: rest, s =>
      if place ≤ p then
        go rest { s with cells := s.cells.setIfInBounds cell (.own (s.read p)) }
      else { s with inScope := (p, cell) :: rest }

def readCell (s : State) (cell : Nat) : Value :=
  match s.cells.getD cell default with
  | .onStack place => s.read place
  | .own v => v

def writeCell (s : State) (cell : Nat) (v : Value) : State :=
  match s.cells.getD cell default with
  | .onStack place => s.write place v
  | .own _ => { s with cells := s.cells.setIfInBounds cell (.own v) }

/-! ## Runs -/

def emit (s : State) (run : Nat) (t : Text) : State :=
  { s with runs := s.runs.map fun r => if r.1 = run then (r.1, t :: r.2) else r }

def isRunning (s : State) (run : Nat) : Bool := s.runs.any fun r => r.1 == run

def emitted (s : State) (run : Nat) : Text :=
  (((s.runs.find? fun r => r.1 == run).map (·.2)).getD []).reverse.flatten

def endRun (s : State) (run : Nat) : State :=
  { s with runs := s.runs.filter fun r => r.1 != run }

end State

end Stencil.Lua
