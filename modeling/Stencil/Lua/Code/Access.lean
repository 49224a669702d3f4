import Stencil.Lua.Code.Scope
/-!
# Values on their way into registers

While the code of an expression is laid down, its value may still be anywhere: in the text, in a
variable, in a field not yet read, in the result of an instruction whose register is not chosen, or
in the outcome of a test. It is brought into a register only where something needs it there, so a
variable is read as late as possible.
-/
namespace Stencil.Lua

/-- Where a value is. -/
inductive Place where
  | absent
  | literal (v : Literal)
  | register (r : Nat)
  /-- In the register of a variable. -/
  | variable (r : Nat)
  | outer (i : Nat)
  | outerField (outer : Nat) (key : Bytes)
  | element (table : Nat) (key : Operand)
  /-- In the outcome of a test, which a jump follows. -/
  | jump (pc : Nat)
  /-- In the result of an instruction whose register is not chosen. -/
  | pending (pc : Nat)
  | call (pc : Nat)
  | varargs (pc : Nat)
deriving Repr, Inhabited

/-- A value with the jumps that leave its computation because it is true or because it is false. -/
structure Access where
  place : Place
  whenTrue : List Nat := []
  whenFalse : List Nat := []
deriving Repr, Inhabited

namespace Access

def hasJumps (a : Access) : Bool := !a.whenTrue.isEmpty || !a.whenFalse.isEmpty

def isMulti (a : Access) : Bool :=
  match a.place with
  | .call _ | .varargs _ => true
  | _ => false

def ofLiteral (v : Literal) : Access := { place := .literal v }

def literal? (a : Access) : Option Literal :=
  match a.place with
  | .literal v => if a.hasJumps then none else some v
  | _ => none

def number? (a : Access) : Option Num :=
  match a.literal? with
  | some (.number n) => some n
  | _ => none

end Access

namespace Emit

def releaseValue (a : Access) : Emit Unit :=
  match a.place with
  | .register r => release r
  | _ => pure ()

/-- Give back two registers, the last one first. -/
def releaseBoth (r₁ r₂ : Nat) : Emit Unit := do
  release (max r₁ r₂)
  release (min r₁ r₂)

def releaseValues (a b : Access) : Emit Unit :=
  match a.place, b.place with
  | .register r₁, .register r₂ => releaseBoth r₁ r₂
  | _, _ => do
    releaseValue a
    releaseValue b

/-- The value as the result of a new instruction. -/
def result (a : Access) (i : Instr) : Emit Access := do
  return { a with place := .pending (← emit i) }

/-- Read the value from where it is, and cut it to one value. -/
def settle (a : Access) : Emit Access := do
  match a.place with
  | .variable r => return { a with place := .register r }
  | .outer i => result a (.getOuter 0 i)
  | .outerField i key => result a (.getOuterField 0 i key)
  | .element table key =>
    match key with
    | .register r => releaseBoth table r
    | .literal _ => release table
    result a (.get 0 table key)
  | .call pc =>
    -- the first result comes where the function was
    match (← draft).instrs.getD pc default with
    | .call callee .. => return { a with place := .register callee }
    | _ => giveUp
  | .varargs pc =>
    changeAt pc (Instr.giving (some 1))
    return { a with place := .pending pc }
  | _ => return a

/-- Bring a value into a register, its jumps left alone. The outcome of a test stays where it is. -/
def intoPlain (dest : Nat) (a : Access) : Emit Access := do
  let a ← settle a
  let there := { a with place := .register dest }
  match a.place with
  | .literal .nil =>
    let _ ← emit (.clear dest 1)
    return there
  | .literal v =>
    let _ ← emit (.load dest v)
    return there
  | .pending pc =>
    changeAt pc (Instr.into dest)
    return there
  | .register r =>
    if r = dest then return there
    let _ ← emit (.move dest r)
    return there
  | _ => return a

/-- Lay down the loading of the truth values that jumps without a value need. -/
def loadOutcomes (dest : Nat) (isJump : Bool) : Emit (Nat × Nat) := do
  let skip ← if isJump then pure [] else pure [← jump]
  let _ ← mark
  let whenFalse ← emit (.loadFalseSkip dest)
  let _ ← mark
  let whenTrue ← emit (.load dest (.bool true))
  patchHere skip
  return (whenFalse, whenTrue)

def into (dest : Nat) (a : Access) : Emit Access := do
  let a ← intoPlain dest a
  let (isJump, whenTrue) := match a.place with
    | .jump pc => (true, a.whenTrue ++ [pc])
    | _ => (false, a.whenTrue)
  if whenTrue.isEmpty && a.whenFalse.isEmpty then return { place := .register dest }
  let d ← draft
  let (loadFalse, loadTrue) ←
    -- where all jumps bring their values along there is none to load
    if (whenTrue ++ a.whenFalse).all (bringsValue d) then pure (0, 0) else loadOutcomes dest isJump
  let final ← mark
  patchValues a.whenFalse dest final loadFalse
  patchValues whenTrue dest final loadTrue
  return { place := .register dest }

def intoNext (a : Access) : Emit Nat := do
  let a ← settle a
  releaseValue a
  reserve 1
  let r := (← draft).free - 1
  let _ ← into r a
  return r

def intoAny (a : Access) : Emit Nat := do
  let a ← settle a
  match a.place with
  | .register r =>
    if !a.hasJumps then return r
    -- a register of a variable is not to be written by the jumps
    else if (← draft).variableRegisters ≤ r then
      let _ ← into r a
      return r
    else intoNext a
  | _ => intoNext a

/-- Bring a value into a register, its jumps left alone, if it is in none. -/
def intoAnyPlain (a : Access) : Emit (Nat × Access) := do
  match a.place with
  | .register r => return (r, a)
  | _ =>
    reserve 1
    let r := (← draft).free - 1
    return (r, ← intoPlain r a)

/-- Read a value, and bring it into a register if jumps leave its computation. -/
def intoValue (a : Access) : Emit Access := do
  if a.hasJumps then return { place := .register (← intoAny a) } else settle a

/-- Bring a value into a register, unless it is an outer variable. -/
def intoTable (a : Access) : Emit Access := do
  match a.place, a.hasJumps with
  | .outer _, false => return a
  | _, _ => return { place := .register (← intoAny a) }

def intoOperand (a : Access) : Emit Operand := do
  match a.literal? with
  | some v => return .literal v
  | none => return .register (← intoAny a)

/-! ## Variables and fields -/

/-- The largest index that stands in an instruction. -/
def indexLimit : Int64 := 255

/-- The key as an operand: names and small indices as they are, anything else in a register. -/
def keyOperand (key : Access) : Emit Operand := do
  match key.literal? with
  | some (.string s) => return .literal (.string s)
  | some (.number (.int n)) =>
    if 0 ≤ n && n ≤ indexLimit then return .literal (.number (.int n))
    else return .register (← intoAny key)
  | _ => return .register (← intoAny key)

def index (table key : Access) : Emit Access := do
  match table.place, key.literal? with
  | .outer i, some (.string s) => return { place := .outerField i s }
  | .register r, _ => return { place := .element r (← keyOperand key) }
  | _, _ =>
    let r ← intoAny table
    return { place := .element r (← keyOperand key) }

/-- The name of the variable that holds the global table. -/
def globalsName : String := "_ENV"

def ofMeaning : Meaning → Access
  | .register r _ => { place := .variable r }
  | .outer i _ => { place := .outer i }
  | .fixed v => .ofLiteral v
  | .global => { place := .absent }

def nameValue (id : String) : Emit Access := do
  match ← resolve id with
  | .global =>
    let table ← intoTable (ofMeaning (← resolve globalsName))
    index table (.ofLiteral (.string (.ofString id)))
  | meaning => return ofMeaning meaning

def nameTarget (id : String) : Emit Access := do
  match ← resolve id with
  -- nothing may be assigned to a constant
  | .register _ true | .outer _ true | .fixed _ => giveUp
  | _ => nameValue id

def store (target value : Access) : Emit Unit := do
  match target.place with
  | .variable r =>
    releaseValue value
    let _ ← into r value
  | .outer i =>
    let r ← intoAny value
    let _ ← emit (.setOuter i r)
    release r
  | .outerField i key =>
    let v ← intoOperand value
    let _ ← emit (.setOuterField i key v)
    releaseOperand v
  | .element table key =>
    let v ← intoOperand value
    let _ ← emit (.set table key v)
    releaseOperand v
  | _ => giveUp
where
  releaseOperand : Operand → Emit Unit
    | .register r => release r
    | .literal _ => pure ()

/-! ## Tests -/

/-- Lay down a jump that is taken if the value is as true as wanted. The value goes with it. -/
def jumpOn (a : Access) (want : Bool) : Emit Nat := do
  let plain : Emit Nat := do
    let (r, a) ← intoAnyPlain a
    releaseValue a
    branch (.testSet 0 r want)
  match a.place with
  | .pending pc =>
    match (← draft).instrs.getD pc default with
    | .unary _ .not r =>
      -- the negation is taken back, and the test reversed
      change fun d => { d with instrs := d.instrs.pop, lines := d.lines.pop }
      branch (.test r !want)
    | _ => plain
  | _ => plain

def negateTest (pc : Nat) : Emit Unit := do
  changeAt (controlOf (← draft) pc) Instr.negate

/-- Go on if the value is true, and leave if it is false. -/
def ifTrue (a : Access) : Emit Access := do
  let a ← settle a
  let jumps ← match a.place with
    | .jump pc =>
      negateTest pc
      pure [pc]
    | .literal .nil | .literal (.bool false) => pure [← jumpOn a false]
    | .literal _ => pure []
    | _ => pure [← jumpOn a false]
  patchHere a.whenTrue
  return { a with whenTrue := [], whenFalse := a.whenFalse ++ jumps }

/-- Go on if the value is false, and leave if it is true. -/
def ifFalse (a : Access) : Emit Access := do
  let a ← settle a
  let jumps ← match a.place with
    | .jump pc => pure [pc]
    | .literal .nil | .literal (.bool false) => pure []
    | _ => pure [← jumpOn a true]
  patchHere a.whenFalse
  return { a with whenTrue := a.whenTrue ++ jumps, whenFalse := [] }

def opposite (a : Access) : Emit Access := do
  let a ← settle a
  let a ← match a.place with
    | .literal .nil | .literal (.bool false) => pure { a with place := .literal (.bool true) }
    | .literal _ => pure { a with place := .literal (.bool false) }
    | .jump pc => do
      negateTest pc
      pure a
    | _ => do
      let (r, a) ← intoAnyPlain a
      releaseValue a
      result a (.unary 0 .not r)
  dropValues (a.whenTrue ++ a.whenFalse)
  return { a with whenTrue := a.whenFalse, whenFalse := a.whenTrue }

end Emit

end Stencil.Lua
