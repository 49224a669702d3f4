import Stencil.Lua.Code.Operation
/-!
# Code of syntax trees

Expressions become values on their way, statements become instructions, and every function becomes
code of its own. The line kept along the way is that of the last token that the code so far stands
for, so an instruction that is laid down late has a late line.
-/
namespace Stencil.Lua

namespace Emit

/-! ## Lists of values -/

/-- Let a value that may be many be a number of values, or all of them. -/
def giving (count : Option Nat) (a : Access) : Emit Unit := do
  match a.place with
  | .call pc => changeAt pc (Instr.giving count)
  | .varargs pc =>
    let r := (← draft).free
    changeAt pc fun i => (i.giving count).into r
    reserve 1
  | _ => pure ()

/-- Fit a number of values, of which the last one is still on its way, to a number of variables. -/
def adjust (wanted values : Nat) (last : Access) : Emit Unit := do
  let missing := wanted - values
  -- the last value stands for itself and for those that are missing
  if last.isMulti then giving (some (wanted + 1 - values)) last
  else
    match last.place with
    | .absent => pure ()
    | _ =>
      let _ ← intoNext last
    if 0 < missing then
      let _ ← emit (.clear (← draft).free missing)
  if 0 < missing then reserve missing
  else change fun d => { d with free := d.free - (values - wanted) }

/-- Call the function in a register with the values after it, of which the last one is still on its
way. -/
def callWith (callee : Nat) (last : Access) (start stop : Nat) : Emit Access := do
  let count ←
    if last.isMulti then do
      giving none last
      pure none
    else do
      match last.place with
      | .absent => pure ()
      | _ =>
        let _ ← intoNext last
      pure (some ((← draft).free - callee - 1))
  let pc ← emitAt start (.call callee count (some 1))
  setLine stop
  change fun d => { d with free := callee + 1 }
  return { place := .call pc }

/-! ## Tables -/

/-- How many items wait in registers before they are put into their table. -/
def itemsAtOnce : Nat := 50

/-- A table constructor on its way: the fields that have keys, the items that are in the table, the
ones that wait in registers, and the one that is in no register yet. -/
structure Filling where
  fields : Nat
  stored : Nat
  waiting : Nat
  last : Access

/-- Bring the last item into its register, and put the waiting items into the table once they are
many. -/
def flush (table : Nat) (f : Filling) : Emit Filling := do
  match f.last.place with
  | .absent => return f
  | _ =>
    let _ ← intoNext f.last
    let f := { f with last := { place := .absent }, waiting := f.waiting + 1 }
    if f.waiting = itemsAtOnce then
      putItems f
      return { f with stored := f.stored + f.waiting, waiting := 0 }
    else return f
where
  putItems (f : Filling) : Emit Unit := do
    let _ ← emit (.setItems table (some f.waiting) f.stored)
    change fun d => { d with free := table + 1 }

/-- Put all waiting items into the table. Tells how many items the constructor counts. -/
def finishItems (table : Nat) (f : Filling) : Emit Nat := do
  if f.waiting = 0 && f.last.place matches .absent then return f.stored
  if f.last.isMulti then
    giving none f.last
    let _ ← emit (.setItems table none f.stored)
    change fun d => { d with free := table + 1 }
    return f.stored + f.waiting
  else
    let f ← match f.last.place with
      | .absent => pure f
      | _ => do
        let _ ← intoNext f.last
        pure { f with waiting := f.waiting + 1 }
    let _ ← emit (.setItems table (some f.waiting) f.stored)
    change fun d => { d with free := table + 1 }
    return f.stored + f.waiting

/-! ## Functions -/

def openFunction (variadic : Bool) : Emit Unit := do
  modify fun s => { s with current := Draft.empty variadic, around := s.current :: s.around }
  openScope false

def takeParams (params : List String) (variadic : Bool) (line : Nat) : Emit Unit := do
  declare params.length
  params.forM fun id => activate id .regular
  if variadic then
    setLine line
    let _ ← emit (.separate params.length)
  reserve (← draft).visible.length

/-- End the current function, and give its code to the one around it. -/
def closeFunction (params : Nat) : Emit Access := do
  let _ ← emit (.giveBack (← draft).variableRegisters (some 0))
  closeScope
  let s ← get
  match s.around with
  | [] => giveUp
  | d :: around =>
    let code := s.current.code params s.chunk
    let place := d.functions.size
    set { s with current := { d with functions := d.functions.push code }, around }
    let pc ← emit (.closure 0 place)
    let r ← intoNext { place := .pending pc }
    return { place := .register r }

/-! ## Statements -/

def releaseAll : Emit Unit :=
  change fun d => { d with free := d.variableRegisters }

/-- Bring a list of variables into scope, and tell the register of the one that would have to be
closed. -/
def activateAll (names : List (String × Attribute)) : Emit (Option Nat) :=
  names.foldlM (fun closing (id, kind) => do
    let r := (← draft).variableRegisters
    activate id kind
    return if kind = .closing then some r else closing) none

def refuseClosing : Option Nat → Emit Unit
  | none => pure ()
  | some r => do
    markClosing
    let _ ← emit (.closing r)

/-- Define variables, given the number of values, of which the last one is still on its way. -/
def define (names : List (String × Attribute)) (values : Nat) (last : Access) : Emit Unit := do
  match names.getLast?, last.literal? with
  | some (id, .constant), some v =>
    if names.length = values then
      let closing ← activateAll names.dropLast
      activateFixed id v
      refuseClosing closing
    else plain
  | _, _ => plain
where
  plain : Emit Unit := do
    adjust names.length values last
    refuseClosing (← activateAll names)

/-- A target of an assignment in which a place is no longer what it was, because another target is
the variable that it goes through. A copy of the variable stands in for it. -/
def detach (target : Access) (copy : Nat) (before : Access) : Access :=
  match before.place, target.place with
  | .outerField i key, .outer j =>
    if i = j then { place := .element copy (.literal (.string key)) } else before
  | .element table key, .variable r =>
    let table' := if table = r then copy else table
    match key with
    | .register k =>
      { place := .element table' (.register (if k = r then copy else k)) }
    | .literal _ => { place := .element table' key }
  | _, _ => before

/-- Whether a target goes through the variable that another target is. -/
def goesThrough (target before : Access) : Bool :=
  match before.place, target.place with
  | .outerField i _, .outer j => i = j
  | .element table key, .variable r =>
    table = r ||
      (match key with
      | .register k => k = r
      | .literal _ => false)
  | _, _ => false

def addTarget (target : Access) (before : List Access) : Emit (List Access) := do
  if before.any (goesThrough target) then
    let copy := (← draft).free
    match target.place with
    | .variable r =>
      let _ ← emit (.move copy r)
    | .outer i =>
      let _ ← emit (.getOuter copy i)
    | _ => pure ()
    reserve 1
    return target :: before.map (detach target copy)
  else return target :: before

/-- Assign to targets, the last one first, given the number of values, of which the last one is
still on its way. -/
def assign (targets : List Access) (values : Nat) (last : Access) : Emit Unit := do
  if targets.length = values then
    match targets with
    | [] => pure ()
    | target :: rest =>
      store target (← settle last)
      storeAll rest
  else
    adjust targets.length values last
    storeAll targets
where
  storeAll : List Access → Emit Unit
    | [] => pure ()
    | target :: rest => do
      let r := (← draft).free - 1
      store target { place := .register r }
      storeAll rest

def goto (id : String) : Emit Unit := do
  let d ← draft
  match findLabel? d id with
  | some l =>
    let registers := d.registersTo l.depth
    if registers < d.variableRegisters then
      let _ ← emit (.close registers)
    patch [← jump] l.target
  | none => await id [← jump]

def label (id : String) (last : Bool) : Emit Unit := do
  if (findLabel? (← draft) id).isSome then giveUp
  let _ ← putLabel id last

/-- Give values back, the last of which is still on its way. A call that gives all of them takes the
place of the function, unless a variable would have to be closed after it. -/
def giveBack (values : Nat) (last : Access) : Emit Unit := do
  let d ← draft
  let registers := d.variableRegisters
  match last.place with
  | .absent =>
    let _ ← emit (.giveBack registers (some 0))
  | .call pc =>
    changeAt pc (Instr.giving none)
    if values = 1 && !d.scopes.head?.any (·.closing) then
      changeAt pc fun i =>
        match i with
        | .call callee args _ => .tailCall callee args
        | i => i
    let _ ← emit (.giveBack registers none)
  | .varargs _ =>
    giving none last
    let _ ← emit (.giveBack registers none)
  | _ =>
    if values = 1 then
      let r ← intoAny last
      let _ ← emit (.giveBack r (some 1))
    else
      let _ ← intoNext last
      let _ ← emit (.giveBack registers (some values))

def hidden (count : Nat) : Emit Unit := do
  (List.range count).forM fun _ => activate "(for state)" .regular

/-- The body of a loop after its hidden variables, given the instructions that begin and end a
round. -/
def loopBody (begin : Instr) (finish : Emit Nat) (vars : List String) (doLine line : Nat)
    (body : Emit Unit) : Emit Unit := do
  setLine doLine
  let entry ← emit begin
  openScope false
  vars.forM fun id => activate id .regular
  reserve vars.length
  body
  closeScope
  let target ← mark
  changeAt entry (Instr.leadTo target)
  let again ← finish
  changeAt again (Instr.leadTo (entry + 1))
  change fun d => { d with lines := d.lines.setIfInBounds again line }

/-- End an arm of a branch: a jump to what comes after the branch, if there is more of it, and the
place to which the condition leads if it is false. -/
def endArm (hasMore : Bool) (skip exits : List Nat) : Emit (List Nat) := do
  closeScope
  let exits ← if hasMore then pure ((← jump) :: exits) else pure exits
  patchHere skip
  return exits

/-- End the block of a loop whose condition stands in it. Another round gives shared variables a
place of their own just as the end does. -/
def closeRound (again : List Nat) (start : Nat) : Emit Unit := do
  let shared := (← draft).scopes.head?.any (·.shared)
  closeScope
  if shared then
    let exit ← jump
    patchHere again
    let _ ← emit (.close (← draft).variableRegisters)
    let round ← jump
    patchHere [exit]
    patch [round] start
  else patch again start

end Emit

open Emit

mutual

def Expr.emit : Expr → Emit Access
  | .literal v line => do
    setLine line
    return .ofLiteral v
  | .varargs line => do
    if !(← draft).variadic then giveUp
    let pc ← Emit.emit (.varargs 0 (some 1))
    setLine line
    return { place := .varargs pc }
  | .function f => f.emit
  | .name id line => do
    setLine line
    nameValue id
  | .index object key line => do
    let table ← intoTable (← object.emit)
    let key ← intoValue (← key.emit)
    setLine line
    index table key
  | .call callee args start stop => do
    let callee ← intoNext (← callee.emit)
    let (_, last) ← emitItems args
    callWith callee last start stop
  | .method object name nameLine args start stop => do
    let object ← object.emit
    setLine nameLine
    let r ← intoAny object
    release r
    let callee := (← draft).free
    reserve 2
    let _ ← Emit.emit (.method callee r (.ofString name))
    let (_, last) ← emitItems args
    callWith callee last start stop
  | .unary op operand line => do
    Emit.unary op (← operand.emit) line
  | .binary op left right line => do
    let left ← left.emit
    setLine line
    let left ← between op left
    let right ← right.emit
    Emit.binary op left right line
  | .both left right line => do
    let left ← left.emit
    setLine line
    let left ← ifTrue left
    let right ← settle (← right.emit)
    return { right with whenFalse := right.whenFalse ++ left.whenFalse }
  | .either left right line => do
    let left ← left.emit
    setLine line
    let left ← ifFalse left
    let right ← settle (← right.emit)
    return { right with whenTrue := right.whenTrue ++ left.whenTrue }
  | .table fields line => do
    let pc ← Emit.emit (.newTable 0 0 0)
    let r := (← draft).free
    reserve 1
    let f ← emitFields r fields
      { fields := 0, stored := 0, waiting := 0, last := { place := .absent } }
    setLine line
    let items ← finishItems r f
    changeAt pc fun _ => .newTable r items f.fields
    return { place := .register r }
  | .paren inner line => do
    let inner ← inner.emit
    setLine line
    settle inner

/-- The values of a list, all but the last one in registers. Tells how many there are. -/
def emitItems : List Item → Emit (Nat × Access)
  | [] => return (0, { place := .absent })
  | .mk e line :: rest => do
    let a ← e.emit
    setLine line
    match rest with
    | [] => return (1, a)
    | _ =>
      let _ ← intoNext a
      let (count, last) ← emitItems rest
      return (count + 1, last)

def emitFields (table : Nat) : List Field → Filling → Emit Filling
  | [], f => return f
  | .item value line :: rest, f => do
    let f ← flush table f
    let a ← value.emit
    setLine line
    emitFields table rest { f with last := a }
  | .keyed key value :: rest, f => do
    let f ← flush table f
    let free := (← draft).free
    let key ← intoValue (← key.emit)
    let target ← index { place := .register table } key
    let value ← value.emit
    store target value
    change fun d => { d with free }
    emitFields table rest { f with fields := f.fields + 1 }

def Function.emit : Function → Emit Access
  | .mk params variadic line body => do
    openFunction variadic
    takeParams params variadic line
    emitBlock body
    closeFunction params.length

def emitBlock : List Stat → Emit Unit
  | [] => pure ()
  | s :: rest => do
    s.emit
    releaseAll
    emitBlock rest

/-- The targets of an assignment, the last one first, after the ones that are there. -/
def emitTargets : List Expr → List Access → Emit (List Access)
  | [], before => return before
  | e :: rest, before => do
    let target ← e.emitTarget
    emitTargets rest (← addTarget target before)

def Expr.emitTarget : Expr → Emit Access
  | .name id line => do
    setLine line
    nameTarget id
  | .index object key line => do
    let table ← intoTable (← object.emit)
    let key ← intoValue (← key.emit)
    setLine line
    index table key
  | _ => giveUp

/-- The arms of a branch, with the jumps to what comes after it. An arm that only leaves a loop
needs no jump of its own. -/
def emitArms (hasMore : Bool) : List Arm → List Nat → Emit (List Nat)
  | [], exits => return exits
  | .mk condition line [.leave] :: rest, exits => do
    let condition ← condition.emit
    setLine line
    let condition ← ifFalse condition
    openScope false
    await breakLabel condition.whenTrue
    closeScope
    emitArms hasMore rest exits
  | .mk condition line (.leave :: body) :: rest, exits => do
    let condition ← condition.emit
    setLine line
    let condition ← ifFalse condition
    openScope false
    await breakLabel condition.whenTrue
    -- something follows the leap, so a false condition has to go past it
    let skip ← jump
    emitBlock body
    let exits ← endArm (hasMore || !rest.isEmpty) [skip] exits
    emitArms hasMore rest exits
  | .mk condition line body :: rest, exits => do
    let condition ← condition.emit
    setLine line
    let condition ← ifTrue condition
    openScope false
    emitBlock body
    let exits ← endArm (hasMore || !rest.isEmpty) condition.whenFalse exits
    emitArms hasMore rest exits

def emitOtherwise : Option (List Stat) → Emit Unit
  | none => pure ()
  | some body => do
    openScope false
    emitBlock body
    closeScope

/-- The step of a counting loop, one if it is left out, in the next register. -/
def emitStep : Option Expr → Emit Unit
  | none => do
    let _ ← Emit.emit (.load (← draft).free (.number (.int 1)))
    reserve 1
  | some e => do
    let _ ← intoNext (← e.emit)

def Stat.emit : Stat → Emit Unit
  | .define names values => do
    declare names.length
    if 1 < (names.filter fun n => n.2 == .closing).length then giveUp
    let (count, last) ← emitItems values
    define names count last
  | .defineFunction id f => do
    declare 1
    let name := (← draft).names.size
    activate id .regular
    let _ ← f.emit
    -- the function sees the name from its beginning, messages only from its end on
    change fun d => { d with
      names := d.names.modify name fun n => { n with first := d.instrs.size } }
  | .assign targets values => do
    let targets ← emitTargets targets []
    let (count, last) ← emitItems values
    assign targets count last
  | .nameFunction target f line => do
    let target ← target.emitTarget
    store target (← f.emit)
    -- the definition counts as done where it begins
    change fun d => { d with lines := d.lines.setIfInBounds (d.lines.size - 1) line }
  | .run call => do
    let a ← call.emit
    giving (some 0) a
  | .block body => do
    openScope false
    emitBlock body
    closeScope
  | .whileLoop condition body => do
    let start ← mark
    let condition ← ifTrue (← condition.emit)
    openScope true
    openScope false
    emitBlock body
    closeScope
    patch [← jump] start
    closeScope
    patchHere condition.whenFalse
  | .repeatLoop body condition => do
    let start ← mark
    openScope true
    openScope false
    emitBlock body
    let condition ← ifTrue (← condition.emit)
    closeRound condition.whenFalse start
    closeScope
  | .branch arms otherwise => do
    let exits ← emitArms otherwise.isSome arms []
    emitOtherwise otherwise
    patchHere exits
  | .count var start stop step doLine line body => do
    openScope true
    let base := (← draft).free
    declare 4
    let _ ← intoNext (← start.emit)
    let _ ← intoNext (← stop.emit)
    emitStep step
    hidden 3
    loopBody (.countPrepare base 0) (Emit.emit (.countLoop base 0)) [var] doLine line
      (emitBlock body)
    closeScope
  | .iterate vars values doLine line body => do
    openScope true
    let base := (← draft).free
    declare (4 + vars.length)
    let (count, last) ← emitItems values
    adjust 4 count last
    hidden 4
    markClosing
    -- the call of a round gets copies of three values
    ensure 3
    loopBody (.iteratePrepare base 0)
      (do
        let _ ← emitAt line (.iterateCall base vars.length)
        Emit.emit (.iterateLoop base 0))
      vars doLine line (emitBlock body)
    closeScope
  | .giveBack values => do
    let (count, last) ← emitItems values
    giveBack count last
  | .leave => do await breakLabel [← jump]
  | .goto target => Emit.goto target
  | .label id last => Emit.label id last

end

namespace Code

/-- The code of a whole chunk: a function that takes any arguments, whose one outer variable is the
global table. -/
def ofBlock? (chunk : Bytes) (body : Block) : Option Code :=
  let globals : Capture :=
    { name := globalsName, inRegister := true, index := 0, readOnly := false }
  let whole : Emit Unit := do
    openScope false
    takeParams [] true 1
    emitBlock body
    let _ ← Emit.emit (.giveBack 0 (some 0))
    closeScope
  let start : Drafts :=
    { current := { Draft.empty true with captures := #[globals] }, around := [], line := 1, chunk }
  (whole.run start).map fun (_, s) => s.current.code 0 chunk

end Code

end Stencil.Lua
