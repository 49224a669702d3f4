import Stencil.Interpreter
import Stencil.Lua.Counting
import Stencil.Lua.Library
import Stencil.Lua.Message
import Stencil.Lua.Operators
/-!
# The machine

A run is a sequence of steps. Each one executes an instruction, begins a call from outside the
language, hands the results of a call to whoever waits for them, or lets an error out of a frame. A
run stops when its entry is reached, and it asks for a nested render where its code does.
-/
namespace Stencil.Lua

inductive Outcome where
  | go (s : State)
  /-- A nested render is asked for; the frame that waits for it is the innermost one. -/
  | ask (s : State) (request : Request)
  /-- The run is over, with what it raised, if it did. -/
  | stop (s : State) (raised : Option Value)

namespace State

/-! ## Errors -/

def stackLimit : Nat := 1000000

def levelLimit : Nat := 200

/-- Room on the stack for a function from outside the language. -/
def outsideRoom : Nat := 20

def stackOverflow : Bytes := .ofString "stack overflow"

def tooNested : Bytes := .ofString "C stack overflow"

def raise (s : State) (v : Value) : Outcome := .go { s with control := .raise v }

/-- Raise a message at the position of the innermost frame. -/
def fail (s : State) (message : Bytes) : Outcome := s.raise (.string (s.positionAt 1 ++ message))

def failOutside (s : State) (message : Text) : Outcome :=
  let (failure, s) := s.addFailure message
  s.raise failure

def wordsFor (called : Option Called) : Bytes := (called.map Called.words).getD []

def refuse (s : State) (what : String) (v : Value) (called : Option Called) : Outcome :=
  s.fail (.ofString ("attempt to " ++ what ++ " a " ++ v.typeName ++ " value") ++ wordsFor called)

/-! ## Calls -/

/-- Begin the work of a function whose arguments lie after its place on the stack. -/
def enter (s : State) (f : Closure) (count : Nat) (landing : Landing) (level place : Nat) :
    Outcome :=
  let top := place + 1 + count
  if stackLimit < top + f.code.size then s.fail stackOverflow
  else
    let s := (s.ensure (top + f.code.size)).clear top (f.code.params - count)
    let a : Activation := { closure := f, base := place + 1, landing, extra := 0, level }
    .go { s with
      frames := .code a 0 :: s.frames, top := max top (place + 1 + f.code.params), control := .run }

/-- Hand the results of a call to whoever waits for them. -/
def giveBack (s : State) (values : List Value) (landing : Landing) : Outcome :=
  match s.frames with
  | .code .. :: _ => .go { s.land values landing with control := .run }
  | _ => .go { s with control := .back values landing }

/-- Call a function that gives its results at once. -/
def runBuiltin (s : State) (b : Builtin) (args : List Value) (landing : Landing) : Outcome :=
  match (b.results args).run s with
  | .ok values s => s.giveBack values landing
  | .error v s => s.raise v

/-- Call the function that shows values for the next value to be emitted, or end the emission. -/
def emitNext (s : State) (landing : Landing) (level run : Nat) (shower : Value) :
    List Value → Outcome
  | [] => s.giveBack [] landing
  | v :: rest =>
    let place := s.top
    let s := ((s.ensure (place + 2)).write place shower).write (place + 1) v
    -- the function that shows values is called from outside the language, so one level deeper
    .go { s with
      frames := .emit landing level run shower rest :: s.frames
      control := .call place 1 none (level + 1) }

/-- Words for a function that belongs to a run that is over. -/
def overWords : Text := "a destructed callback or destructed userdata method was called".toList

/-- Begin to emit values, as the global function `tostring` shows them. -/
def beginEmit (s : State) (run : Nat) (args : List Value) (landing : Landing) (level : Nat) :
    Outcome :=
  if !s.isRunning run then s.failOutside overWords
  else
    let shower := s.global "tostring"
    if shower.isFunction then s.emitNext landing level run shower args
    else
      s.failOutside
        ("error converting Lua ".toList ++ shower.givenName.toList ++ " to function".toList)

def optionalJson (v : Value) : EStateM Unfit State (Option Json) :=
  if v.isNil then return none else return some (← v.toJson)

def beginRender (s : State) (run : Nat) (args : List Value) (landing : Landing) (level : Nat) :
    Outcome :=
  if !s.isRunning run then s.failOutside overWords
  else
    match (args.getD 0 .nil).toText with
    | .error message => s.failOutside ("bad argument #1: ".toList ++ message)
    | .ok source =>
      let parts : EStateM Unfit State (Option Json × Option Json) := do
        let options ← optionalJson (args.getD 1 .nil)
        let scope ← optionalJson (args.getD 2 .nil)
        return (options, scope)
      match parts.run s with
      | .error unfit s => s.failOutside unfit.message.toList
      | .ok (options, scope) s =>
        let owner := s.runs.findIdx fun r => r.1 == run
        .ask { s with frames := .render landing level run :: s.frames }
          { source, options, scope, owner }

/-- Call a function of the library whose arguments lie after its place on the stack. -/
def enterBuiltin (s : State) (b : Builtin) (count : Nat) (landing : Landing) (level place : Nat) :
    Outcome :=
  let top := place + 1 + count
  if stackLimit < top + outsideRoom then s.fail stackOverflow
  else
    let s := { s with top }
    match b with
    | .emit run => s.beginEmit run (s.readAll (place + 1) count) landing level
    | .render run => s.beginRender run (s.readAll (place + 1) count) landing level
    | .pcall =>
      if count = 0 then
        match (Lib.refuse (α := Unit) 0 (.builtin .pcall) (.ofString "value expected")).run s with
        | .ok _ s => s.giveBack [] landing
        | .error v s => s.raise v
      else
        .go { s with
          -- the guarded function stands where the first argument was
          frames := .guard landing level :: s.frames
          control := .call (place + 1) (count - 1) none (level + 1) }
    | b => s.runBuiltin b (s.readAll (place + 1) count) landing

/-- Call the value at a place of the stack with the arguments after it. -/
def call (s : State) (place count : Nat) (landing : Landing) (level : Nat) : Outcome :=
  match s.read place with
  | .closure c => s.enter (s.closures.getD c default) count landing level place
  | .builtin b => s.enterBuiltin b count landing level place
  | v => s.refuse "call" v s.calleeName?

/-- A call from outside the language, which may be nested too deep. -/
def callNested (s : State) (place count : Nat) (wanted : Option Nat) (level : Nat) : Outcome :=
  if levelLimit ≤ level then s.fail tooNested
  else s.call place count { place, count := wanted } level

/-! ## Results and errors on their way out -/

/-- Hand values to a frame that is no code. -/
def handBack (s : State) (values : List Value) (landing : Landing) : Outcome :=
  match s.frames with
  | [] => .stop s none
  | .code .. :: _ => s.giveBack values landing
  | .guard landing _ :: frames => { s with frames }.giveBack (.bool true :: values) landing
  | .emit landing level run shower rest :: frames =>
    let s := { s with frames }
    match (firstOf values).toText with
    | .ok t => (s.emit run t).emitNext landing level run shower rest
    | .error message => s.failOutside message
  | .render landing _ _ :: frames => { s with frames }.giveBack values landing
  | .entry place _ :: frames => .stop ({ s with frames }.detachFrom place) none

def unwind (s : State) (v : Value) : Outcome :=
  match s.frames with
  | [] => .stop s (some v)
  | .code .. :: frames => .go { s with frames }
  | .guard landing _ :: frames =>
    -- functions that outlive the failed call keep the variables that they share
    ({ s with frames }.detachFrom landing.place).giveBack [.bool false, v] landing
  -- an error from showing a value reaches the caller in words
  | .emit .. :: frames => { s with frames }.failOutside v.message
  | .render .. :: frames => .go { s with frames }
  | .entry place _ :: frames => .stop ({ s with frames }.detachFrom place) (some v)

/-! ## Instructions -/

def register (s : State) (a : Activation) (r : Nat) : Value := s.read (a.base + r)

def operand (s : State) (a : Activation) : Operand → Value
  | .register r => s.register a r
  | .literal v => .ofLiteral v

/-- The value under a key of a value, if it can be looked into. -/
def index? (s : State) (object key : Value) : Option (Value × State) :=
  match object with
  | .table place => some (s.getKey place key)
  | .string _ => some (s.getKey s.strings key)
  | _ => none

def badKey? : Value → Option Bytes
  | .nil => some (.ofString "table index is nil")
  | .number (.nan _) => some (.ofString "table index is NaN")
  | _ => none

def getInto (s : State) (a : Activation) (dest : Nat) (object key : Value)
    (called : Unit → Option Called) : Outcome :=
  match s.index? object key with
  | some (v, s) => .go (s.write (a.base + dest) v)
  | none => s.refuse "index" object (called ())

def setField (s : State) (object key v : Value) (called : Unit → Option Called) : Outcome :=
  match object with
  | .table place =>
    match badKey? key with
    | some message => s.fail message
    | none => .go (s.modifyTable place (·.set key v))
  | _ => s.refuse "index" object (called ())

def resultInto (s : State) (a : Activation) (dest : Nat) (describe : Bool → Option Called) :
    Except Misuse Value → Outcome
  | .ok v => .go (s.write (a.base + dest) v)
  | .error (.inside message) => s.raise (.ofString message)
  | .error m => s.fail (m.message fun right => wordsFor (describe right))

def jumpTo (s : State) (target : Nat) : State :=
  match s.frames with
  | .code a _ :: frames => { s with frames := .code a target :: frames }
  | _ => s

def skip (s : State) : State :=
  match s.frames with
  | .code a pc :: frames => { s with frames := .code a (pc + 1) :: frames }
  | _ => s

def captured (s : State) (a : Activation) (c : Capture) : Nat × State :=
  if c.inRegister then s.share (a.base + c.index) else (a.closure.cells.getD c.index 0, s)

def capturedAll (s : State) (a : Activation) : List Capture → List Nat × State
  | [] => ([], s)
  | c :: rest =>
    let (cell, s) := s.captured a c
    let (cells, s) := s.capturedAll a rest
    (cell :: cells, s)

/-- Refuse a variable that would have to be closed: nothing has a way of being closed. -/
def refuseClosing (s : State) (a : Activation) (pc r : Nat) : Option Outcome :=
  if (s.register a r).isTrue then
    let name := (a.closure.code.variableAt? pc r).getD "?"
    some (s.fail (.ofString ("variable '" ++ name ++ "' got a non-closable value")))
  else none

/-- Give values from the registers of a function back. -/
def leave (s : State) (a : Activation) (first count : Nat) : Outcome :=
  let s := if s.inScope.isEmpty then s else s.detachFrom a.base
  match s.frames with
  | _ :: .code b pc :: frames =>
    let s := { s with frames := .code b pc :: frames }
    let place := a.landing.place
    match a.landing.count with
    | some wanted =>
      .go ((s.moveDown (a.base + first) place (min wanted count)).clear (place + count)
        (wanted - count))
    | none => .go { s.moveDown (a.base + first) place count with top := place + count }
  | _ :: frames =>
    let values := s.readAll (a.base + first) count
    .go { s with frames, control := .back values a.landing }
  | [] => .stop s none

/-- Let a function take the place of another one. -/
def replace (s : State) (a : Activation) (callee count : Nat) (f : Closure) : Outcome :=
  let place := a.landing.place
  let source := a.base + callee
  if stackLimit + source < source + 1 + count + f.code.size + place then s.fail stackOverflow
  else
    let s := (s.detachFrom a.base).moveDown source place (count + 1)
    { s with frames := s.frames.drop 1 }.enter f count a.landing a.level place

/-- Set the further arguments of a function apart: its registers begin after all its arguments. -/
def separate (s : State) (a : Activation) (params : Nat) : Outcome :=
  let count := s.top - a.base
  let size := a.closure.code.size
  if stackLimit < s.top + size + 1 then s.fail stackOverflow
  else
    let base := s.top + 1
    let s := s.ensure (base + size)
    let s := (List.range params).foldl (fun (s : State) i =>
      s.write (base + i) (s.read (a.base + i))) s
    match s.frames with
    | .code a pc :: frames =>
      .go { s with frames := .code { a with base, extra := count - params } pc :: frames }
    | _ => .stop s none

def spread (s : State) (a : Activation) (dest : Nat) (count : Option Nat) : Outcome :=
  let source := a.base - 1 - a.extra
  let copy (s : State) (count : Nat) : State :=
    (List.range count).foldl (fun (s : State) i =>
      s.write (a.base + dest + i) (s.read (source + i))) s
  match count with
  | some count =>
    .go ((copy s (min count a.extra)).clear (a.base + dest + a.extra) (count - a.extra))
  | none =>
    let top := a.base + dest + a.extra
    if stackLimit < a.base + a.closure.code.size + a.extra then s.fail stackOverflow
    else .go { copy (s.ensure top) a.extra with top }

/-- Execute an instruction of a function at work. The innermost frame already goes on with the next
one. -/
def execute (s : State) (a : Activation) (pc : Nat) (i : Instr) : Outcome :=
  let code := a.closure.code
  match i with
  | .move dest source => .go (s.write (a.base + dest) (s.register a source))
  | .load dest v => .go (s.write (a.base + dest) (.ofLiteral v))
  | .clear dest count => .go (s.clear (a.base + dest) count)
  | .loadFalseSkip dest => .go (s.write (a.base + dest) (.bool false)).skip
  | .getOuter dest i => .go (s.write (a.base + dest) (s.readCell (a.closure.cells.getD i 0)))
  | .setOuter i source => .go (s.writeCell (a.closure.cells.getD i 0) (s.register a source))
  | .getOuterField dest i key =>
    s.getInto a dest (s.readCell (a.closure.cells.getD i 0)) (.string key) fun _ =>
      some (code.outerName i)
  | .setOuterField i key v =>
    s.setField (s.readCell (a.closure.cells.getD i 0)) (.string key) (s.operand a v) fun _ =>
      some (code.outerName i)
  | .get dest t key =>
    s.getInto a dest (s.register a t) (s.operand a key) fun _ => code.nameOf? pc t
  | .set t key v =>
    s.setField (s.register a t) (s.operand a key) (s.operand a v) fun _ => code.nameOf? pc t
  | .newTable dest items fields =>
    let (t, s) := s.addTable (Table.ofSizes items fields)
    .go (s.write (a.base + dest) t)
  | .setItems t count offset =>
    let first := a.base + t + 1
    let values := s.readAll first (count.getD (s.top - first))
    match s.register a t with
    | .table place => .go (s.modifyTable place (·.setItems offset values))
    | _ => .go s
  | .method dest object key =>
    let v := s.register a object
    (s.write (a.base + dest + 1) v).getInto a dest v (.string key) fun _ => code.nameOf? pc object
  | .arithmetic dest op left right =>
    let x := s.operand a left
    let y := s.operand a right
    -- strings are taken for numbers by a function from outside the language
    if Op.isByText op x y && levelLimit ≤ a.level + 1 then s.fail tooNested
    else
      s.resultInto a dest (fun r => code.operandName? pc (if r then right else left))
        (Op.arithmetic op x y)
  | .unary dest op r =>
    let v := s.register a r
    match op with
    | .not => .go (s.write (a.base + dest) (.bool !v.isTrue))
    | .minus =>
      if v.isString && levelLimit ≤ a.level + 1 then s.fail tooNested
      else s.resultInto a dest (fun _ => code.nameOf? pc r) (Op.negative v)
    | .complement => s.resultInto a dest (fun _ => code.nameOf? pc r) (Op.complement v)
    | .length =>
      match v with
      | .string bytes => .go (s.write (a.base + dest) (.ofInt bytes.length))
      | .table place =>
        let (n, s) := s.lengthOf place
        .go (s.write (a.base + dest) (.ofInt n))
      | _ => s.refuse "get length of" v (code.nameOf? pc r)
  | .concat first count =>
    let values := s.readAll (a.base + first) count
    match Op.unjoinable? values with
    | some k => s.refuse "concatenate" (values.getD k .nil) (code.nameOf? pc (first + k))
    | none => .go (s.write (a.base + first) (.string (Op.join values)))
  | .compare op left right want =>
    match Op.compare op (s.operand a left) (s.operand a right) with
    | .ok b => .go (if b = want then s else s.skip)
    | .error m => s.fail (m.message fun _ => [])
  | .test r want => .go (if (s.register a r).isTrue = want then s else s.skip)
  | .testSet dest r want =>
    let v := s.register a r
    .go (if v.isTrue = want then s.write (a.base + dest) v else s.skip)
  | .jump target => .go (s.jumpTo target)
  | .close first => .go (s.detachFrom (a.base + first))
  | .closing r => (s.refuseClosing a pc r).getD (.go s)
  | .call callee args results =>
    let place := a.base + callee
    s.call place (args.getD (s.top - place - 1)) { place, count := results } a.level
  | .tailCall callee args =>
    let place := a.base + callee
    let count := args.getD (s.top - place - 1)
    match s.read place with
    -- only code takes the place of the function; anything else is called as always
    | .closure c => s.replace a callee count (s.closures.getD c default)
    | _ => s.call place count { place, count := none } a.level
  | .giveBack first count => s.leave a first (count.getD (s.top - a.base - first))
  | .countPrepare base target =>
    match Counting.prepare (s.register a base) (s.register a (base + 1))
        (s.register a (base + 2)) with
    | .error message => s.fail (.ofString message)
    -- no round at all, so past the instruction that begins another one
    | .ok none => .go (s.jumpTo (target + 1))
    | .ok (some loop) => .go (s.writeAll (a.base + base) (loop.values ++ [loop.index]))
  | .countLoop base target =>
    match (Counting.ofValues? (s.register a base) (s.register a (base + 1))
        (s.register a (base + 2))).bind Counting.next? with
    | none => .go s
    | some loop => .go ((s.writeAll (a.base + base) (loop.values ++ [loop.index])).jumpTo target)
  | .iteratePrepare base target =>
    (s.refuseClosing a pc (base + 3)).getD (.go (s.jumpTo target))
  | .iterateCall base count =>
    let place := a.base + base + 4
    -- the call gets copies, since its results go where they stand
    let s := (s.ensure (max (place + 3) (place + count))).writeAll place
      (s.readAll (a.base + base) 3)
    .go { s with control := .call place 2 (some count) (a.level + 1), top := place + 3 }
  | .iterateLoop base target =>
    let v := s.register a (base + 4)
    .go (if v.isNil then s else (s.write (a.base + base + 2) v).jumpTo target)
  | .closure dest i =>
    let f := code.functions.getD i default
    let (cells, s) := s.capturedAll a f.captures.toList
    let place := s.closures.size
    let s := { s with closures := s.closures.push { code := f, cells := cells.toArray } }
    .go (s.write (a.base + dest) (.closure place))
  | .varargs dest count => s.spread a dest count
  | .separate params => s.separate a params

def step (s : State) : Outcome :=
  match s.control with
  | .run =>
    match s.frames with
    | .code a pc :: frames =>
      if h : pc < a.closure.code.instrs.size then
        { s with frames := .code a (pc + 1) :: frames }.execute a pc a.closure.code.instrs[pc]
      else .stop s none
    | _ => .stop s none
  | .call place count wanted level =>
    { s with control := .run }.callNested place count wanted level
  | .back values landing => s.handBack values landing
  | .raise v => s.unwind v

def resume (s : State) (reply : Except String Text) : State :=
  match s.frames with
  | .render landing _ run :: frames =>
    let s := { s with frames }
    match reply with
    | .ok output => { s.emit run output with control := .back [] landing }
    | .error message =>
      let (failure, s) := s.addFailure (raisedWords ++ message.toList)
      { s with control := .raise failure }
  | _ => s

/-- Take steps until the run stops, at most the given number of them. -/
def drive : Nat → State → Run State (Option Value)
  -- the bound is there for the recursion: it is more steps than any run gets through
  | 0, s => .done s (some (.string stackOverflow))
  | count + 1, s =>
    match s.step with
    | .go s => drive count s
    | .ask s request => .ask s request fun s reply => drive count (s.resume reply)
    | .stop s raised => .done s raised

end State

end Stencil.Lua
