import Stencil.Lua.Tree
/-!
# Parsing the fragment language

Recursive descent over tokens, with precedence climbing for operators. The first number of every
parser bounds its steps; sixteen for each token is more than any text needs. How deep statements and
expressions may lie in each other is given from outside.
-/
namespace Stencil.Lua

inductive Refusal where
  | malformed
  | tooDeep
deriving Repr, DecidableEq

structure Reading where
  tokens : List Located
  /-- The line of the last token taken. -/
  line : Nat
  /-- How many levels deeper statements and expressions may lie. -/
  room : Nat
deriving Inhabited

abbrev Parse := StateT Reading (Except Refusal)

namespace Parse

def refuse {α : Type} : Parse α := throw .malformed

/-- The next token, left where it is. -/
def peek : Parse (Option Token) := do return (← get).tokens.head?.map (·.token)

def nextLine : Parse Nat := do return ((← get).tokens.head?.map (·.line)).getD 0

def lastLine : Parse Nat := do return (← get).line

def next : Parse Located := do
  match (← get).tokens with
  | t :: tokens =>
    modify fun r => { r with tokens, line := t.line }
    return t
  | [] => refuse

def isMalformed : Option Token → Bool
  | some .malformed => true
  | _ => false

/-- Parse one level deeper. -/
def deeper {α : Type} (p : Parse α) : Parse α := do
  match (← get).room with
  -- the token ahead has been read by now, so a fault of it comes first
  | 0 => if isMalformed (← peek) then refuse else throw .tooDeep
  | room + 1 =>
    modify fun r => { r with room }
    let a ← p
    modify fun r => { r with room := room + 1 }
    return a

def isMark (m : Mark) : Option Token → Bool
  | some (.mark m') => m = m'
  | _ => false

def isWord (w : Word) : Option Token → Bool
  | some (.word w') => w = w'
  | _ => false

def acceptMark (m : Mark) : Parse Bool := do
  if isMark m (← peek) then
    let _ ← next
    return true
  else return false

def acceptWord (w : Word) : Parse Bool := do
  if isWord w (← peek) then
    let _ ← next
    return true
  else return false

/-- Take what may stand between the fields of a table if it is next. -/
def acceptSeparator : Parse Bool := do
  if ← acceptMark .comma then return true else acceptMark .semicolon

def expectMark (m : Mark) : Parse Unit := do
  if ← acceptMark m then return () else refuse

def expectWord (w : Word) : Parse Unit := do
  if ← acceptWord w then return () else refuse

def expectName : Parse String := do
  match ← peek with
  | some (.name id) =>
    let _ ← next
    return id
  | _ => refuse

/-- Whether the inside of a block that `until` does not end is over before the token. -/
def endsInside : Option Token → Bool
  | none => true
  | some (.word w) => [Word.end, .else, .elseif].contains w
  | some _ => false

def endsBlock (t : Option Token) : Bool := endsInside t || isWord .until t

/-- What an infix operator makes of its operands, and how strongly it binds. -/
inductive Infix where
  | operator (op : Binary)
  | both
  | either

namespace Infix

def binding : Infix → Nat × Nat
  | operator op => op.binding
  | both => (2, 2)
  | either => (1, 1)

def build (left right : Expr) (line : Nat) : Infix → Expr
  | operator op => .binary op left right line
  | both => .both left right line
  | either => .either left right line

def ofMark? : Mark → Option Infix
  | .plus => some (.operator (.arithmetic .add))
  | .minus => some (.operator (.arithmetic .sub))
  | .star => some (.operator (.arithmetic .mul))
  | .slash => some (.operator (.arithmetic .div))
  | .doubleSlash => some (.operator (.arithmetic .floorDiv))
  | .percent => some (.operator (.arithmetic .mod))
  | .caret => some (.operator (.arithmetic .pow))
  | .ampersand => some (.operator (.arithmetic .bitAnd))
  | .bar => some (.operator (.arithmetic .bitOr))
  | .tilde => some (.operator (.arithmetic .bitXor))
  | .shiftLeft => some (.operator (.arithmetic .shiftLeft))
  | .shiftRight => some (.operator (.arithmetic .shiftRight))
  | .concat => some (.operator .concat)
  | .equal => some (.operator .equal)
  | .notEqual => some (.operator .notEqual)
  | .less => some (.operator .less)
  | .lessEqual => some (.operator .lessEqual)
  | .greater => some (.operator .greater)
  | .greaterEqual => some (.operator .greaterEqual)
  | _ => none

def ofToken? : Token → Option Infix
  | .word .and => some .both
  | .word .or => some .either
  | .mark m => ofMark? m
  | _ => none

end Infix

def unaryOf? : Option Token → Option Unary
  | some (.word .not) => some .not
  | some (.mark .minus) => some .minus
  | some (.mark .hash) => some .length
  | some (.mark .tilde) => some .complement
  | _ => none

def unaryBinding : Nat := 12

def nameKey (id : String) (line : Nat) : Expr :=
  .literal (.string (.ofString id)) line

def names : Nat → Parse (List String)
  | 0 => refuse
  | fuel + 1 => do
    let id ← expectName
    if ← acceptMark .comma then return id :: (← names fuel) else return [id]

/-- The parameters of a function after its parenthesis, whether it takes further arguments, and the
line of the last one. -/
def params : Nat → Parse (List String × Bool × Nat)
  | 0 => refuse
  | fuel + 1 => do
    if ← acceptMark .dots then
      let line ← lastLine
      expectMark .closeParen
      return ([], true, line)
    let id ← expectName
    if ← acceptMark .comma then
      let (rest, variadic, line) ← params fuel
      return (id :: rest, variadic, line)
    let line ← lastLine
    expectMark .closeParen
    return ([id], false, line)

/-- How a name of a local definition may be used, as what follows it says. -/
def useOfName : Parse Attribute := do
  if ← acceptMark .less then
    let word ← expectName
    expectMark .greater
    if word = "const" then return .constant
    else if word = "close" then return .closing
    else refuse
  else return .regular

def attributedNames : Nat → Parse (List (String × Attribute))
  | 0 => refuse
  | fuel + 1 => do
    let id ← expectName
    let kind ← useOfName
    if ← acceptMark .comma then return (id, kind) :: (← attributedNames fuel)
    return [(id, kind)]

def isTarget : Expr → Bool
  | .name .. | .index .. => true
  | _ => false

def isCall : Expr → Bool
  | .call .. | .method .. => true
  | _ => false

/-- Let the last item of a list end at a line. -/
def endLast (line : Nat) : List Item → List Item
  | [] => []
  | [.mk value _] => [.mk value line]
  | i :: rest => i :: endLast line rest

def endField (line : Nat) : Field → Field
  | .item value _ => .item value line
  | f => f

mutual

/-- An expression whose operators bind more strongly than the limit. -/
def expr : Nat → Nat → Parse Expr
  | 0, _ => refuse
  | fuel + 1, limit => deeper do
    match unaryOf? (← peek) with
    | some op =>
      let line := (← next).line
      let operand ← expr fuel unaryBinding
      operators fuel limit (.unary op operand line)
    | none => operators fuel limit (← simple fuel)

/-- The operators after an operand, as long as they bind more strongly than the limit. -/
def operators : Nat → Nat → Expr → Parse Expr
  | 0, _, _ => refuse
  | fuel + 1, limit, left => do
    match (← peek).bind Infix.ofToken? with
    | some op =>
      if limit < op.binding.1 then
        let line := (← next).line
        let right ← expr fuel op.binding.2
        operators fuel limit (op.build left right line)
      else return left
    | none => return left

def simple : Nat → Parse Expr
  | 0 => refuse
  | fuel + 1 => do
    let literal (value : Literal) : Parse Expr := do return .literal value (← next).line
    match ← peek with
    | some (.number n) => literal (.number n)
    | some (.string s) => literal (.string s)
    | some (.word .nil) => literal .nil
    | some (.word .true) => literal (.bool true)
    | some (.word .false) => literal (.bool false)
    | some (.mark .dots) => return .varargs (← next).line
    | some (.mark .openBrace) => table fuel
    | some (.word .function) =>
      let _ ← next
      return .function (← function fuel [])
    | _ => suffixed fuel

def table : Nat → Parse Expr
  | 0 => refuse
  | fuel + 1 => do
    expectMark .openBrace
    let (fields, line) ← fields fuel
    return .table fields line

/-- The fields of a table constructor and the line of its closing brace. -/
def fields : Nat → Parse (List Field × Nat)
  | 0 => refuse
  | fuel + 1 => do
    if ← acceptMark .closeBrace then return ([], ← lastLine)
    let one ← field fuel
    if ← acceptSeparator then
      let line ← lastLine
      let (rest, stop) ← fields fuel
      -- an item is put into the table once the next one begins, the last one at the brace
      return (endField (if rest.isEmpty then stop else line) one :: rest, stop)
    expectMark .closeBrace
    let stop ← lastLine
    return ([endField stop one], stop)

def field : Nat → Parse Field
  | 0 => refuse
  | fuel + 1 => do
    match (← get).tokens with
    | ⟨.name id, line⟩ :: ⟨.mark .assign, _⟩ :: _ =>
      let _ ← next
      let _ ← next
      return .keyed (nameKey id line) (← expr fuel 0)
    | ⟨.mark .openBracket, _⟩ :: _ =>
      let _ ← next
      let key ← expr fuel 0
      expectMark .closeBracket
      expectMark .assign
      return .keyed key (← expr fuel 0)
    | _ => return .item (← expr fuel 0) 0

/-- A function after its word, with parameters that come before the written ones. -/
def function : Nat → List String → Parse Function
  | 0, _ => refuse
  | fuel + 1, before => do
    expectMark .openParen
    let (written, variadic, line) ←
      if ← acceptMark .closeParen then pure ([], false, 0) else params fuel
    let body ← block fuel
    expectWord .end
    return .mk (before ++ written) variadic line body

/-- A name or parenthesis with everything that is applied to it. -/
def suffixed : Nat → Parse Expr
  | 0 => refuse
  | fuel + 1 => do
    match ← peek with
    | some (.name id) => suffixes fuel (.name id (← next).line)
    | some (.mark .openParen) =>
      let _ ← next
      let inner ← expr fuel 0
      expectMark .closeParen
      suffixes fuel (.paren inner (← lastLine))
    | _ => refuse

def suffixes : Nat → Expr → Parse Expr
  | 0, _ => refuse
  | fuel + 1, e => do
    match ← peek with
    | some (.mark .dot) =>
      let _ ← next
      let id ← expectName
      let line ← lastLine
      suffixes fuel (.index e (nameKey id line) line)
    | some (.mark .openBracket) =>
      let _ ← next
      let key ← expr fuel 0
      expectMark .closeBracket
      suffixes fuel (.index e key (← lastLine))
    | some (.mark .colon) =>
      let _ ← next
      let id ← expectName
      let line ← lastLine
      let start ← nextLine
      let args ← args fuel
      suffixes fuel (.method e id line args start (← lastLine))
    | some (.mark .openParen) | some (.string _) | some (.mark .openBrace) =>
      let start ← nextLine
      let args ← args fuel
      suffixes fuel (.call e args start (← lastLine))
    | _ => return e

def args : Nat → Parse (List Item)
  | 0 => refuse
  | fuel + 1 => do
    match ← peek with
    | some (.string s) =>
      let line := (← next).line
      return [.mk (.literal (.string s) line) line]
    | some (.mark .openBrace) =>
      let value ← table fuel
      return [.mk value (← lastLine)]
    | _ =>
      expectMark .openParen
      if ← acceptMark .closeParen then return []
      let items ← exprs fuel
      expectMark .closeParen
      return endLast (← lastLine) items

def exprs : Nat → Parse (List Item)
  | 0 => refuse
  | fuel + 1 => do
    let e ← expr fuel 0
    if ← acceptMark .comma then
      let line ← lastLine
      return .mk e line :: (← exprs fuel)
    else return [.mk e (← lastLine)]

/-- Statements up to the end of their block. -/
def block : Nat → Parse Block
  | 0 => refuse
  | fuel + 1 => do
    if endsBlock (← peek) then return []
    if isWord .return (← peek) then
      let last ← deeper (giveBack fuel)
      -- nothing follows a return in its block
      if endsBlock (← peek) then return [last] else refuse
    else
      let first ← deeper (statement fuel)
      return first ++ (← block fuel)

def giveBack : Nat → Parse Stat
  | 0 => refuse
  | fuel + 1 => do
    expectWord .return
    let values ←
      if endsBlock (← peek) || isMark .semicolon (← peek) then pure [] else exprs fuel
    let _ ← acceptMark .semicolon
    return .giveBack values

/-- A statement that is no `return`. A semicolon is none, and a label comes after the labels that
follow it. -/
def statement : Nat → Parse (List Stat)
  | 0 => refuse
  | fuel + 1 => do
    let line ← nextLine
    match ← peek with
    | some (.mark .semicolon) =>
      let _ ← next
      return []
    | some (.word .if) => return [← branch fuel]
    | some (.word .while) =>
      let _ ← next
      let condition ← expr fuel 0
      expectWord .do
      let body ← block fuel
      expectWord .end
      return [.whileLoop condition body]
    | some (.word .do) =>
      let _ ← next
      let body ← block fuel
      expectWord .end
      return [.block body]
    | some (.word .for) =>
      let _ ← next
      return [← loop fuel line]
    | some (.word .repeat) =>
      let _ ← next
      let body ← block fuel
      expectWord .until
      return [.repeatLoop body (← expr fuel 0)]
    | some (.word .function) =>
      let _ ← next
      let id ← expectName
      return [← functionTarget fuel (.name id (← lastLine)) line]
    | some (.word .local) =>
      let _ ← next
      if ← acceptWord .function then
        let id ← expectName
        return [.defineFunction id (← function fuel [])]
      let names ← attributedNames fuel
      if ← acceptMark .assign then return [.define names (← exprs fuel)]
      return [.define names []]
    | some (.mark .label) =>
      let _ ← next
      let id ← expectName
      expectMark .label
      let others ← labels fuel
      -- before the word until, the variables of the block are still in scope
      return others ++ [.label id (endsInside (← peek))]
    | some (.word .break) =>
      let _ ← next
      return [.leave]
    | some (.word .goto) =>
      let _ ← next
      return [.goto (← expectName)]
    | _ =>
      let first ← suffixed fuel
      if isMark .assign (← peek) || isMark .comma (← peek) then
        return [← assignment fuel first []]
      else if isCall first then return [.run first]
      else refuse

def labels : Nat → Parse (List Stat)
  | 0 => refuse
  | fuel + 1 => do
    if isMark .semicolon (← peek) || isMark .label (← peek) then
      let first ← deeper (statement fuel)
      return first ++ (← labels fuel)
    else return []

/-- The rest of an assignment, given its last target so far and the ones before it, in reverse. -/
def assignment : Nat → Expr → List Expr → Parse Stat
  | 0, _, _ => refuse
  | fuel + 1, target, before => do
    if isTarget target then
      if ← acceptMark .comma then
        let another ← suffixed fuel
        deeper (assignment fuel another (target :: before))
      else
        expectMark .assign
        return .assign (target :: before).reverse (← exprs fuel)
    else refuse

/-- The rest of a function statement, given what names the function so far. -/
def functionTarget : Nat → Expr → Nat → Parse Stat
  | 0, _, _ => refuse
  | fuel + 1, target, line => do
    if ← acceptMark .dot then
      let id ← expectName
      let here ← lastLine
      functionTarget fuel (.index target (nameKey id here) here) line
    else if ← acceptMark .colon then
      let id ← expectName
      let here ← lastLine
      return .nameFunction (.index target (nameKey id here) here) (← function fuel ["self"]) line
    else return .nameFunction target (← function fuel []) line

def branch : Nat → Parse Stat
  | 0 => refuse
  | fuel + 1 => do
    let arms ← arms fuel
    if ← acceptWord .else then
      let otherwise ← block fuel
      expectWord .end
      return .branch arms (some otherwise)
    else
      expectWord .end
      return .branch arms none

def arms : Nat → Parse (List Arm)
  | 0 => refuse
  | fuel + 1 => do
    let _ ← next
    let condition ← expr fuel 0
    expectWord .then
    let line ← lastLine
    let body ← block fuel
    let arm := Arm.mk condition line body
    if isWord .elseif (← peek) then return arm :: (← arms fuel) else return [arm]

def loop : Nat → Nat → Parse Stat
  | 0, _ => refuse
  | fuel + 1, line => do
    let first ← expectName
    if ← acceptMark .assign then
      let start ← expr fuel 0
      expectMark .comma
      let stop ← expr fuel 0
      let step ← if ← acceptMark .comma then some <$> expr fuel 0 else pure none
      expectWord .do
      let doLine ← lastLine
      let body ← block fuel
      expectWord .end
      return .count first start stop step doLine line body
    else
      let rest ← if ← acceptMark .comma then names fuel else pure []
      expectWord .in
      let here ← nextLine
      let values ← exprs fuel
      expectWord .do
      let doLine ← lastLine
      let body ← block fuel
      expectWord .end
      return .iterate (first :: rest) values doLine here body

end

/-- The block that all the tokens make, with so many levels for statements and expressions. -/
def chunk (room : Nat) (tokens : List Located) : Except Refusal Block :=
  -- more calls inside each other than so many tokens can lead to
  match (block (16 * tokens.length + 16)).run { tokens, line := 1, room } with
  | .ok (body, rest) => if rest.tokens.isEmpty then .ok body else .error .malformed
  | .error refusal => .error refusal

end Parse

end Stencil.Lua
