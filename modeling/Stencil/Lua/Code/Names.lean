import Stencil.Lua.Code.Basic
/-!
# Names for values in code

Error messages call a value by what the code was doing: the variable whose register it is in, or
else the field, outer variable, method or constant that the last instruction to fill the register
took it from. Where a jump makes it uncertain which instruction that was, the value has no name.
-/
namespace Stencil.Lua

inductive NameKind where
  | own | outer | global | field | method | constant | iterator
deriving Repr, DecidableEq

namespace NameKind

def words : NameKind → String
  | own => "local"
  | outer => "upvalue"
  | global => "global"
  | field => "field"
  | method => "method"
  | constant => "constant"
  | iterator => "for iterator"

end NameKind

/-- What a value is called. -/
structure Called where
  kind : NameKind
  name : Bytes
deriving Repr, DecidableEq

namespace Called

/-- A name as it is shown, which ends before the first NUL. -/
def of (kind : NameKind) (name : Bytes) : Called := ⟨kind, name.takeWhile (· != 0)⟩

def ofWords (kind : NameKind) (name : String) : Called := ⟨kind, .ofString name⟩

def words (c : Called) : Bytes :=
  .ofString (" (" ++ c.kind.words ++ " '") ++ c.name ++ .ofString "')"

end Called

namespace Instr

def fills (r : Nat) : Instr → Bool
  | move dest _ | load dest _ | loadFalseSkip dest | getOuter dest _ | getOuterField dest ..
  | get dest .. | newTable dest .. | method dest .. | arithmetic dest .. | unary dest ..
  | concat dest _ | testSet dest .. | countPrepare dest _ | countLoop dest _ | iterateLoop dest _
  | closure dest _ | varargs dest _ | separate dest => r = dest
  | clear dest count => dest ≤ r && r < dest + count
  | iterateCall base _ => base + 2 ≤ r
  | call callee .. | tailCall callee _ => callee ≤ r
  | _ => false

end Instr

namespace Code

def variableAt? (c : Code) (pc r : Nat) : Option String :=
  ((c.variableNames.toList.filter fun v => v.first ≤ pc && pc < v.stop)[r]?).map (·.name)

/-- Look through instructions for the last one that fills a register, given the place from which on
code is reached for certain and the one found so far. -/
def filledFrom (last r : Nat) : Nat → List Instr → Nat → Option Nat → Option Nat
  | _, [], _, found => found
  | pc, i :: rest, certain, found =>
    match i with
    | .jump target =>
      filledFrom last r (pc + 1) rest
        -- what stands before the target of a jump may have been passed over
        (if target ≤ last && certain < target then target else certain) found
    | i =>
      filledFrom last r (pc + 1) rest certain
        (if i.fills r then (if pc < certain then none else some pc) else found)

/-- The instruction before another one that filled a register, if it is certain. -/
def filledBy? (c : Code) (last r : Nat) : Option (Nat × Instr) :=
  (filledFrom last r 0 (c.instrs.toList.take last) 0 none).map fun pc =>
    (pc, c.instrs.getD pc default)

def outerName (c : Code) (i : Nat) : Called :=
  .ofWords .outer (c.captures.getD i default).name

/-- The variable or constant that a register holds at an instruction. A value that was moved up is
called what it was called below; the first number bounds how often. -/
def simpleName? (c : Code) : Nat → Nat → Nat → Option Called
  | bound, pc, r =>
    match c.variableAt? pc r with
    | some name => some (.ofWords .own name)
    | none =>
      match bound, c.filledBy? pc r with
      | bound + 1, some (pc, .move dest source) =>
        if source < dest then simpleName? c bound pc source else none
      | _, some (_, .getOuter _ i) => some (c.outerName i)
      | _, some (_, .load _ (.string s)) => some (.of .constant s)
      | _, _ => none

/-- The name for a field, given what its table is called. The fields of the global table are the
global variables. -/
def fieldName (table : Option Called) (name : Bytes) : Called :=
  match table with
  | some ⟨.own, id⟩ | some ⟨.outer, id⟩ =>
    .of (if id == .ofString "_ENV" then .global else .field) name
  | _ => .of .field name

/-- The instruction that a value in a register came from, through moves. -/
def sourceOf? (c : Code) : Nat → Nat → Nat → Option (Nat × Instr)
  | bound, pc, r =>
    match bound, c.filledBy? pc r with
    | bound + 1, some (pc, .move dest source) =>
      if source < dest then sourceOf? c bound pc source else none
    | _, found => found

def nameOf? (c : Code) (pc r : Nat) : Option Called :=
  match c.simpleName? r pc r with
  | some called => some called
  | none =>
    match c.sourceOf? r pc r with
    | some (_, .getOuterField _ i key) => some (fieldName (some (c.outerName i)) key)
    | some (pc, .get _ table key) =>
      match key with
      | .literal (.string s) => some (fieldName (c.simpleName? table pc table) s)
      | .literal _ => some (.ofWords .field "integer index")
      | .register k =>
        let name := match c.simpleName? k pc k with
          | some ⟨.constant, name⟩ => name
          | _ => .ofString "?"
        some (fieldName (c.simpleName? table pc table) name)
    | some (_, .method _ _ key) => some (.of .method key)
    | _ => none

def operandName? (c : Code) (pc : Nat) : Operand → Option Called
  | .register r => c.nameOf? pc r
  | .literal _ => none

def calleeName? (c : Code) (pc : Nat) : Option Called :=
  match c.instrs.getD pc default with
  | .call callee .. | .tailCall callee _ => c.nameOf? pc callee
  | .iterateCall .. => some (.ofWords .iterator "for iterator")
  | _ => none

end Code

end Stencil.Lua
