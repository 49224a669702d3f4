import Stencil.Lua.Token
/-!
# Syntax trees of the fragment language

Trees keep the lines that error messages can name: where a name or value stands, where an operator
or an opening parenthesis stands, and where a token closes what comes before it.
-/
namespace Stencil.Lua

inductive Unary where
  | minus | not | length | complement
deriving Repr, DecidableEq

inductive Arithmetic where
  | add | sub | mul | div | floorDiv | mod | pow
  | bitAnd | bitOr | bitXor | shiftLeft | shiftRight
deriving Repr, DecidableEq

inductive Binary where
  | arithmetic (op : Arithmetic)
  | concat
  | equal | notEqual | less | lessEqual | greater | greaterEqual
deriving Repr, DecidableEq

/-- A value that stands in a text as it is. -/
inductive Literal where
  | nil
  | bool (b : Bool)
  | number (n : Num)
  | string (s : Bytes)
deriving Repr, Inhabited

/-- How a local variable may be used. -/
inductive Attribute where
  | regular
  | constant
  | closing
deriving Repr, DecidableEq

mutual

inductive Expr where
  | literal (value : Literal) (line : Nat)
  | varargs (line : Nat)
  | function (f : Function)
  | name (id : String) (line : Nat)
  | index (object key : Expr) (line : Nat)
  /-- A call, with the lines of the token that begins its arguments and of the one that ends it. -/
  | call (callee : Expr) (args : List Item) (start stop : Nat)
  /-- A call of a method, with the line of its name. -/
  | method (object : Expr) (name : String) (nameLine : Nat) (args : List Item) (start stop : Nat)
  | unary (op : Unary) (operand : Expr) (line : Nat)
  | binary (op : Binary) (left right : Expr) (line : Nat)
  | both (left right : Expr) (line : Nat)
  | either (left right : Expr) (line : Nat)
  | table (fields : List Field) (line : Nat)
  /-- An expression in parentheses, cut to one value. -/
  | paren (inner : Expr) (line : Nat)
deriving Repr

/-- An expression of a list, with the line of the token that ends it there. -/
inductive Item where
  | mk (value : Expr) (line : Nat)
deriving Repr

inductive Field where
  | item (value : Expr) (line : Nat)
  | keyed (key value : Expr)
deriving Repr

/-- A function, with the line on which its parameters end. -/
inductive Function where
  | mk (params : List String) (variadic : Bool) (line : Nat) (body : List Stat)
deriving Repr

/-- A condition, the line of the word after it, and what it guards. -/
inductive Arm where
  | mk (condition : Expr) (line : Nat) (body : List Stat)
deriving Repr

inductive Stat where
  | define (names : List (String × Attribute)) (values : List Item)
  | defineFunction (id : String) (f : Function)
  | assign (targets : List Expr) (values : List Item)
  /-- A function statement, with the line of its word. -/
  | nameFunction (target : Expr) (f : Function) (line : Nat)
  | run (call : Expr)
  | block (body : List Stat)
  | whileLoop (condition : Expr) (body : List Stat)
  | repeatLoop (body : List Stat) (condition : Expr)
  | branch (arms : List Arm) (otherwise : Option (List Stat))
  /-- A counting loop, with the lines of its `do` and of its `for`. -/
  | count (var : String) (start stop : Expr) (step : Option Expr) (doLine line : Nat)
    (body : List Stat)
  /-- A loop over what a function gives, with the lines of its `do` and of what follows `in`. -/
  | iterate (vars : List String) (values : List Item) (doLine line : Nat) (body : List Stat)
  | giveBack (values : List Item)
  | leave
  | goto (target : String)
  /-- A label; after the last one of a block, its variables are out of scope. -/
  | label (id : String) (last : Bool)
deriving Repr

end

abbrev Block := List Stat

instance : Inhabited Expr := ⟨.literal .nil 0⟩
instance : Inhabited Item := ⟨.mk default 0⟩
instance : Inhabited Function := ⟨.mk [] false 0 []⟩
instance : Inhabited Stat := ⟨.leave⟩

namespace Binary

/-- How strongly an operator binds on its left and on its right. -/
def binding : Binary → Nat × Nat
  | .arithmetic op =>
    match op with
    | .bitOr => (4, 4)
    | .bitXor => (5, 5)
    | .bitAnd => (6, 6)
    | .shiftLeft | .shiftRight => (7, 7)
    | .add | .sub => (10, 10)
    | .mul | .div | .floorDiv | .mod => (11, 11)
    | .pow => (14, 13)
  | .concat => (9, 8)
  | .equal | .notEqual | .less | .lessEqual | .greater | .greaterEqual => (3, 3)

end Binary

end Stencil.Lua
