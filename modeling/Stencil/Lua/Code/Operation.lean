import Stencil.Lua.Arithmetic
import Stencil.Lua.Code.Access
/-!
# Operators in code

An operator is laid down in two parts: one between its operands, and one after them. Arithmetic on
numbers of the text is done at once where its result can stand in the code.
-/
namespace Stencil.Lua

namespace Num

/-- Whether a number as a result may take the place of an operation. A zero double and what is not a
number may not. -/
def standsInCode : Num → Bool
  | int _ => true
  | float x => x != 0
  | nan _ => false

def isZero (n : Num) : Bool := n.toFloat == 0

/-- Whether a number is an integer so small that instructions compare with it. -/
def isSmall (n : Num) : Bool :=
  match n.toInt? with
  | some i => -127 ≤ i && i ≤ 128
  | none => false

def isSmallInt : Num → Bool
  | int i => isSmall (int i)
  | _ => false

end Num

namespace Arithmetic

/-- The result of an operator on two numbers of the text, if it is to stand in the code. -/
def fold? (op : Arithmetic) (x y : Num) : Option Num :=
  match op with
  | .div | .floorDiv | .mod => if y.isZero then none else result
  | _ => result
where
  result : Option Num :=
    match op.apply x y with
    | .ok n => if n.standsInCode then some n else none
    | .error _ => none

end Arithmetic

namespace Unary

def fold? (op : Unary) (n : Num) : Option Num :=
  match op with
  | .minus => if n.negate.standsInCode then some n.negate else none
  | .complement => n.toInt?.map fun i => .int (~~~i)
  | .not | .length => none

end Unary

namespace Emit

def unary (op : Unary) (a : Access) (line : Nat) : Emit Access := do
  let a ← settle a
  match op, a.number?.bind op.fold? with
  | .not, _ => opposite a
  | _, some n => return .ofLiteral (.number n)
  | _, none =>
    let r ← intoAny a
    releaseValue { place := .register r }
    return { place := .pending (← emitAt line (.unary 0 op r)) }

/-- What an operator needs of its left operand before the code of the right one. -/
def between (op : Binary) (left : Access) : Emit Access := do
  let left ← settle left
  match op, left.number? with
  | .concat, _ => return { place := .register (← intoNext left) }
  | .arithmetic _, some _ => return left
  | .equal, _ | .notEqual, _ =>
    if left.literal?.isSome then return left
    else return { place := .register (← intoAny left) }
  | _, some n =>
    if n.isSmall then return left else return { place := .register (← intoAny left) }
  | _, none => return { place := .register (← intoAny left) }

def arithmeticOf (op : Arithmetic) (left right : Operand) (line : Nat) : Emit Access := do
  let release : Operand → Emit Unit
    | .register r => release r
    | .literal _ => pure ()
  match left, right with
  | .register r₁, .register r₂ => releaseBoth r₁ r₂
  | _, _ =>
    release left
    release right
  return { place := .pending (← emitAt line (.arithmetic 0 op left right)) }

/-- Whether arithmetic takes its left operand from the text, given that the right one is not. -/
def takesLeft (op : Arithmetic) (n : Num) : Bool :=
  match op, n with
  | .add, _ | .mul, _ => true
  | .bitAnd, .int _ | .bitOr, .int _ | .bitXor, .int _ => true
  | .shiftLeft, n => n.isSmallInt
  | _, _ => false

def takesRight (op : Arithmetic) (n : Num) : Bool :=
  match op, n with
  | .bitAnd, n | .bitOr, n | .bitXor, n =>
    match n with
    | .int _ => true
    | _ => false
  | .shiftLeft, n | .shiftRight, n => n.isSmallInt
  | _, _ => true

/-- Arithmetic on two values. A number of the text stays there where an instruction can hold it;
otherwise the right operand comes into a register before the left one does. -/
def arithmetic (op : Arithmetic) (left right : Access) (line : Nat) : Emit Access := do
  match left.number?, right.number? with
  | some x, some y =>
    match op.fold? x y with
    | some n => return .ofLiteral (.number n)
    | none => both (some x) (some y)
  | x, y => both x y
where
  both (x y : Option Num) : Emit Access := do
    match x, y with
    | some x, y =>
      if takesLeft op x then
        let r ← intoAny right
        arithmeticOf op (.literal (.number x)) (.register r) line
      else onRight y
    | none, y => onRight y
  onRight (y : Option Num) : Emit Access := do
    match y with
    | some y =>
      if takesRight op y then
        let r ← intoAny left
        arithmeticOf op (.register r) (.literal (.number y)) line
      else inRegisters
    | none => inRegisters
  inRegisters : Emit Access := do
    let r₂ ← intoAny right
    let r₁ ← intoAny left
    arithmeticOf op (.register r₁) (.register r₂) line

/-- Join two values. The right one, if it is itself a joining that nothing jumps behind, takes the
left one in. -/
def concat (left right : Access) (line : Nat) : Emit Access := do
  let r₂ ← intoNext right
  let d ← draft
  let last := d.instrs.size - 1
  match left.place with
  | .register r₁ =>
    let joined : Option Nat :=
      match d.instrs.getD last default with
      | .concat _ count => if d.lastTarget < d.instrs.size then some count else none
      | _ => none
    match joined with
    | some count =>
      release r₂
      changeAt last fun _ => .concat r₁ (count + 1)
    | none =>
      let _ ← emitAt line (.concat r₁ 2)
      release r₂
    return left
  | _ => giveUp

/-- A comparison, with the jump that its outcome decides about. -/
def compareOf (op : Comparison) (left right : Operand) (want : Bool) : Emit Access := do
  let release : Operand → Emit Unit
    | .register r => release r
    | .literal _ => pure ()
  match left, right with
  | .register r₁, .register r₂ => releaseBoth r₁ r₂
  | _, _ =>
    release left
    release right
  return { place := .jump (← branch (.compare op left right want)) }

def equality (left right : Access) (want : Bool) : Emit Access := do
  -- an instruction has its left operand in a register
  let (left, right) := match left.place with
    | .register _ => (left, right)
    | _ => (right, left)
  let r₁ ← intoAny left
  let r₂ ← intoOperand right
  compareOf .equal (.register r₁) r₂ want

def order (op : Comparison) (left right : Access) : Emit Access := do
  match left.number?.filter Num.isSmall, right.number?.filter Num.isSmall with
  | _, some n =>
    let r ← intoAny left
    compareOf op (.register r) (.literal (.number n)) true
  | some n, none =>
    let r ← intoAny right
    compareOf op (.literal (.number n)) (.register r) true
  | none, none =>
    let r₁ ← intoAny left
    let r₂ ← intoAny right
    compareOf op (.register r₁) (.register r₂) true

/-- An operator on two values, given its line. A greater value is one that the other is less
than. -/
def binary (op : Binary) (left right : Access) (line : Nat) : Emit Access := do
  let right ← settle right
  match op with
  | .arithmetic op => arithmetic op left right line
  | .concat => concat left right line
  | .equal => equality left right true
  | .notEqual => equality left right false
  | .less => order .less left right
  | .lessEqual => order .lessEqual left right
  | .greater => order .less right left
  | .greaterEqual => order .lessEqual right left

end Emit

end Stencil.Lua
