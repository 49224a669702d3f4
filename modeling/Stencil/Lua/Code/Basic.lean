import Stencil.Lua.Tree
/-!
# Register code

A function runs as instructions on numbered registers. Its variables have registers of their own for
as long as they are in scope, and values in passing take the registers above them. The code keeps a
line for each instruction and the names of variables, because error messages show both.
-/
namespace Stencil.Lua

inductive Operand where
  | register (r : Nat)
  | literal (v : Literal)
deriving Repr, Inhabited

/-- The comparisons that code makes; the others are these with their operands swapped or their
outcome reversed. -/
inductive Comparison where
  | equal | less | lessEqual
deriving Repr, DecidableEq

/-- An instruction. Where a number of values is left out, they reach up to the top of the stack. -/
inductive Instr where
  | move (dest source : Nat)
  | load (dest : Nat) (v : Literal)
  /-- Put nil into consecutive registers. -/
  | clear (dest count : Nat)
  /-- Put false into a register and skip the next instruction. -/
  | loadFalseSkip (dest : Nat)
  | getOuter (dest outer : Nat)
  | setOuter (outer source : Nat)
  | getOuterField (dest outer : Nat) (key : Bytes)
  | setOuterField (outer : Nat) (key : Bytes) (value : Operand)
  | get (dest table : Nat) (key : Operand)
  | set (table : Nat) (key value : Operand)
  /-- Make a table with room for items and for fields. -/
  | newTable (dest items fields : Nat)
  /-- Put the values after a table's register into it, the first one under the given index plus
  one. -/
  | setItems (table : Nat) (count : Option Nat) (offset : Nat)
  /-- Read a field of an object, with the object in the register after it. -/
  | method (dest object : Nat) (key : Bytes)
  | arithmetic (dest : Nat) (op : Arithmetic) (left right : Operand)
  | unary (dest : Nat) (op : Unary) (operand : Nat)
  /-- Join the strings of consecutive registers into the first of them. -/
  | concat (first count : Nat)
  /-- Skip the next instruction unless a comparison comes out as wanted. -/
  | compare (op : Comparison) (left right : Operand) (want : Bool)
  /-- Skip the next instruction unless a register is as true as wanted. -/
  | test (source : Nat) (want : Bool)
  /-- The same, and keep the value if it is as wanted. -/
  | testSet (dest source : Nat) (want : Bool)
  | jump (target : Nat)
  /-- Give the variables from a register on a place of their own where functions share them. -/
  | close (first : Nat)
  /-- Refuse a variable that would have to be closed. -/
  | closing (r : Nat)
  | call (callee : Nat) (args results : Option Nat)
  | tailCall (callee : Nat) (args : Option Nat)
  | giveBack (first : Nat) (count : Option Nat)
  | countPrepare (base target : Nat)
  | countLoop (base target : Nat)
  | iteratePrepare (base target : Nat)
  | iterateCall (base count : Nat)
  | iterateLoop (base target : Nat)
  | closure (dest function : Nat)
  | varargs (dest : Nat) (count : Option Nat)
  /-- Set further arguments apart from the parameters. -/
  | separate (params : Nat)
deriving Repr, Inhabited

/-- An outer variable of a function: a register or an outer variable of the function around it. -/
structure Capture where
  name : String
  inRegister : Bool
  index : Nat
  readOnly : Bool
deriving Repr, Inhabited

/-- The name of a variable from one instruction up to another. -/
structure VariableName where
  name : String
  first : Nat
  stop : Nat
deriving Repr, Inhabited

structure Code where
  instrs : Array Instr
  lines : Array Nat
  params : Nat
  /-- The number of registers. -/
  size : Nat
  captures : Array Capture
  /-- The variables with registers, in the order in which they come into scope. -/
  variableNames : Array VariableName
  /-- The functions inside. -/
  functions : Array Code
  /-- The name of the chunk that the function stands in. -/
  chunk : Bytes
deriving Repr, Inhabited

end Stencil.Lua
