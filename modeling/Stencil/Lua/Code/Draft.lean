import Stencil.Lua.Code.Basic
/-!
# Drafts

A function while its code is laid down: the instructions so far, the registers in use, and the
variables, labels and jumps of the blocks that are open. A draft may be given up, where the text
asks for more than code can hold or jumps to where it must not.
-/
namespace Stencil.Lua

/-- Where a variable in scope has its value. -/
inductive Binding where
  /-- In a register; its name is the given one of the code's. -/
  | register (r : Nat) (readOnly : Bool) (name : Nat)
  /-- Nowhere, because the value never changes. -/
  | fixed (value : Literal)
deriving Repr, Inhabited

/-- A place that jumps can name, with the number of variables in scope there. -/
structure Label where
  name : String
  target : Nat
  depth : Nat
deriving Repr

/-- Jumps to a place that has not come yet, with the number of variables in scope. -/
structure Leap where
  target : String
  jumps : List Nat
  depth : Nat
  /-- The jumps leave the scope of a variable that functions share. -/
  closes : Bool
deriving Repr

/-- An open block, with the number of variables in scope where it begins. -/
structure Scope where
  isLoop : Bool
  depth : Nat
  labels : List Label
  leaps : List Leap
  /-- Functions share a variable of the block. -/
  shared : Bool
  /-- A variable that would have to be closed is in scope. -/
  closing : Bool
deriving Repr

/-- A function whose code is being laid down. -/
structure Draft where
  instrs : Array Instr
  lines : Array Nat
  /-- The first register that nothing is in. -/
  free : Nat
  /-- The number of registers needed so far. -/
  size : Nat
  /-- The last place to which jumps were told to go. -/
  lastTarget : Nat
  /-- The variables in scope, innermost first. -/
  visible : List (String × Binding)
  names : Array VariableName
  /-- The open blocks, innermost first. -/
  scopes : List Scope
  captures : Array Capture
  functions : Array Code
  variadic : Bool
deriving Inhabited

structure Drafts where
  current : Draft
  /-- The functions around it, innermost first. -/
  around : List Draft
  /-- The line of the last token that the code so far stands for. -/
  line : Nat
  chunk : Bytes

/-- Laying down code, which may have to be given up. -/
abbrev Emit := StateT Drafts Option

namespace Draft

def empty (variadic : Bool) : Draft where
  instrs := #[]
  lines := #[]
  free := 0
  size := 2
  lastTarget := 0
  visible := []
  names := #[]
  scopes := []
  captures := #[]
  functions := #[]
  variadic := variadic

/-- The registers that the outermost variables take, given their number. -/
def registersTo (d : Draft) (depth : Nat) : Nat :=
  (((d.visible.drop (d.visible.length - depth)).findSome? fun v =>
    match v.2 with
    | .register r .. => some (r + 1)
    -- a constant takes no register
    | .fixed _ => none)).getD 0

def variableRegisters (d : Draft) : Nat := d.registersTo d.visible.length

/-- The place where a jump to a place ends up, if jumps follow each other at most so often. -/
def finalTarget (instrs : Array Instr) : Nat → Nat → Nat
  | 0, target => target
  | count + 1, target =>
    match instrs.getD target default with
    | .jump next => finalTarget instrs count next
    | _ => target

/-- How many jumps in a row are made one. -/
def jumpChain : Nat := 100

def code (d : Draft) (params : Nat) (chunk : Bytes) : Code where
  instrs := d.instrs.map fun i =>
    match i with
    | .jump target => .jump (finalTarget d.instrs jumpChain target)
    | i => i
  lines := d.lines
  params := params
  size := d.size
  captures := d.captures
  variableNames := d.names
  functions := d.functions
  chunk := chunk

end Draft

namespace Instr

def into (dest : Nat) : Instr → Instr
  | move _ source => move dest source
  | load _ v => load dest v
  | getOuter _ outer => getOuter dest outer
  | getOuterField _ outer key => getOuterField dest outer key
  | get _ table key => get dest table key
  | arithmetic _ op left right => arithmetic dest op left right
  | unary _ op operand => unary dest op operand
  | concat _ count => concat dest count
  | testSet _ source want => testSet dest source want
  | closure _ function => closure dest function
  | varargs _ count => varargs dest count
  | i => i

def leadTo (target : Nat) : Instr → Instr
  | jump _ => jump target
  | countPrepare base _ => countPrepare base target
  | countLoop base _ => countLoop base target
  | iteratePrepare base _ => iteratePrepare base target
  | iterateLoop base _ => iterateLoop base target
  | i => i

def giving (count : Option Nat) : Instr → Instr
  | call callee args _ => call callee args count
  | varargs dest _ => varargs dest count
  | i => i

/-- Whether the instruction decides about the jump after it. -/
def isTest : Instr → Bool
  | compare .. | test .. | testSet .. => true
  | _ => false

def negate : Instr → Instr
  | compare op left right want => compare op left right !want
  | test source want => test source !want
  | testSet dest source want => testSet dest source !want
  | i => i

end Instr

namespace Emit

def giveUp {α : Type} : Emit α := failure

def draft : Emit Draft := do return (← get).current

def change (f : Draft → Draft) : Emit Unit := modify fun s => { s with current := f s.current }

def setLine (line : Nat) : Emit Unit := modify fun s => { s with line }

def emit (i : Instr) : Emit Nat := do
  let pc := (← draft).instrs.size
  modify fun s =>
    { s with current := { s.current with
        instrs := s.current.instrs.push i, lines := s.current.lines.push s.line } }
  return pc

def emitAt (line : Nat) (i : Instr) : Emit Nat := do
  let pc ← emit i
  change fun d => { d with lines := d.lines.setIfInBounds pc line }
  return pc

def changeAt (pc : Nat) (f : Instr → Instr) : Emit Unit :=
  change fun d => { d with instrs := d.instrs.modify pc f }

/-! ## Registers -/

/-- One more than the number of registers that a function may use. -/
def registerLimit : Nat := 255

/-- See that so many registers above those in use are there. -/
def ensure (count : Nat) : Emit Unit := do
  let d ← draft
  let size := d.free + count
  if d.size < size then
    if registerLimit ≤ size then giveUp else change fun d => { d with size }

def reserve (count : Nat) : Emit Unit := do
  ensure count
  change fun d => { d with free := d.free + count }

/-- Give back the last register taken, unless it is that of a variable. -/
def release (r : Nat) : Emit Unit := do
  if (← draft).variableRegisters ≤ r then change fun d => { d with free := d.free - 1 }

/-! ## Jumps -/

/-- The place of the next instruction, to which jumps will go. -/
def mark : Emit Nat := do
  let pc := (← draft).instrs.size
  change fun d => { d with lastTarget := pc }
  return pc

/-- Lay down a jump whose target comes later. -/
def jump : Emit Nat := emit (.jump 0)

def branch (test : Instr) : Emit Nat := do
  let _ ← emit test
  jump

/-- The instruction that decides about a jump. -/
def controlOf (d : Draft) (pc : Nat) : Nat :=
  if 0 < pc && (d.instrs.getD (pc - 1) default).isTest then pc - 1 else pc

def bringsValue (d : Draft) (pc : Nat) : Bool :=
  match d.instrs.getD (controlOf d pc) default with
  | .testSet .. => true
  | _ => false

/-- Let the value that a jump brings go into a register, or nowhere. -/
def valueInto (dest : Option Nat) : Instr → Instr
  | .testSet _ source want =>
    match dest with
    | some r => if r = source then .test source want else .testSet r source want
    | none => .test source want
  | i => i

def dropValues (jumps : List Nat) : Emit Unit :=
  change fun d => { d with
    instrs := jumps.foldl (fun code pc => code.modify (controlOf d pc) (valueInto none)) d.instrs }

def patch (jumps : List Nat) (target : Nat) : Emit Unit := do
  dropValues jumps
  change fun d => { d with
    instrs := jumps.foldl (fun code pc => code.modify pc (Instr.leadTo target)) d.instrs }

def patchHere (jumps : List Nat) : Emit Unit := do
  let target ← mark
  patch jumps target

/-- Let the jumps that bring a value into a register go to one place, and the others to another. -/
def patchValues (jumps : List Nat) (dest target other : Nat) : Emit Unit :=
  jumps.forM fun pc => do
    let d ← draft
    if bringsValue d pc then
      changeAt (controlOf d pc) (valueInto (some dest))
      patch [pc] target
    else patch [pc] other

end Emit

end Stencil.Lua
