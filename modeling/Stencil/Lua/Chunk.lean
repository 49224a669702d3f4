import Stencil.Lua.Code.OfTree
import Stencil.Lua.Machine
import Stencil.Lua.Parser
/-!
# Chunks

A program is a chunk: the code of a text under a name. Its first line gives names to what a run
hands to it: the function that emits, twice, the scope and the function that renders.
-/
namespace Stencil.Lua

namespace Chunk

/-- The line before every text. -/
def prelude : Text := "local print, echo, scope, render = ...\n".toList

/-- The number of bytes of a name that messages show. -/
def shownLength : Nat := 59

/-- The place of the first NUL in a name, counted in bytes after the mark of a name. -/
def nulPlace? (name : Text) : Option Nat :=
  (name.toBytes.findIdx? (· == 0)).map (· + 1)

/-- How many levels deep statements and expressions may lie in each other, given how deep calls from
outside the language are nested. -/
def room (level : Nat) : Nat := State.levelLimit - 1 - level

/-- Why a text is refused that is too deep for the calls under way. -/
def overflow : String := String.ofList (raisedWords ++ Bytes.toTextLossy State.tooNested)

/-- Compile a text under a name, for the place in a run at which the state is. -/
def compile (s : State) (name : String) (source : Text) : Except String Code :=
  match nulPlace? name.toList with
  | some place =>
    .error ("runtime error: invalid name: nul byte found in provided data at position: " ++
      toString place)
  | none =>
    match Parse.chunk (room s.level) (Token.lex (prelude ++ source)) with
    | .ok body =>
      match Code.ofBlock? ((Bytes.ofString name).take shownLength) body with
      | some code => .ok code
      | none => .error "syntax error"
    | .error .malformed => .error "syntax error"
    | .error .tooDeep => .error overflow

def stepLimit : Nat := Nat.pow 2 62

/-- The value of a scope. A missing scope is a table without fields. -/
def scopeValue : Json → StateM State Value
  | .null => modifyGet (State.addTable · {})
  | scope => Value.ofJson scope

/-- The place on the stack at which a run begins. Below it is the function that looks at errors. -/
def startPlace (s : State) : Nat := if s.frames.isEmpty then 2 else s.top + 1

/-- A state in which a run of a chunk is about to begin, and the number of the run. -/
def begin (c : Code) (scope : Json) (s : State) : Nat × State :=
  let run := s.nextRun
  let level := s.level
  let place := startPlace s
  let (scope, s) := (scopeValue scope).run s
  let globals := s.cells.size
  let function := s.closures.size
  let emit := Value.builtin (.emit run)
  let s := (s.ensure (place + 5)).writeAll place
    [.closure function, emit, emit, scope, .builtin (.render run)]
  -- the one outer variable of a chunk is the table of global variables
  (run, { s with
    nextRun := run + 1
    runs := (run, []) :: s.runs
    cells := s.cells.push (.own (.table s.globals))
    closures := s.closures.push { code := c, cells := #[globals] }
    frames := .entry place level :: s.frames
    control := .call place 4 none (level + 1) })

def run (c : Code) (scope : Json) (s : State) : Run State Execution :=
  let (run, s) := begin c scope s
  (s.drive stepLimit).bind fun s raised =>
    .done (s.endRun run)
      { output := s.emitted run
        error := raised.map fun v => String.ofList v.message }

end Chunk

namespace State

def libraryTable (functions : List (String × Builtin)) : Table :=
  functions.foldl (fun t f => t.set (.ofString f.1) (.builtin f.2))
    (Table.ofSizes 0 functions.length)

def stringLibrary : Table :=
  libraryTable [("format", .stringFormat), ("rep", .stringRep), ("upper", .stringUpper),
    ("lower", .stringLower), ("sub", .stringSub), ("len", .stringLen)]

def tableLibrary : Table := libraryTable [("insert", .tableInsert), ("concat", .tableConcat)]

def mathLibrary : Table := libraryTable [("floor", .mathFloor)]

/-- The global variables before the first chunk runs, given the places of the tables in them. -/
def globalTable (string table math : Nat) : Table :=
  let basic := libraryTable [("error", .error), ("pcall", .pcall), ("type", .type),
    ("tostring", .tostring), ("tonumber", .tonumber), ("ipairs", .ipairs), ("select", .select)]
  [("string", string), ("table", table), ("math", math)].foldl
    (fun t l => t.set (.ofString l.1) (.table l.2)) basic

def initial : State where
  tables := #[stringLibrary, tableLibrary, mathLibrary, globalTable 0 1 2]
  closures := #[]
  cells := #[]
  inScope := []
  stack := #[]
  top := 0
  frames := []
  control := .run
  globals := 3
  strings := 0
  libraries := [("", 3), ("string.", 0), ("table.", 1), ("math.", 2)]
  runs := []
  nextRun := 0
  nextFailure := 0

end State

/-- The fragment language. -/
def interpreter : Interpreter where
  State := State
  Program := Code
  initial := State.initial
  compile := Chunk.compile
  run := Chunk.run

end Stencil.Lua
