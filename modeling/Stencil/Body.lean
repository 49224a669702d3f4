import Stencil.Scan
/-!
# The body of a template

Literal text to be written out and code to be run, in order, and the one source text that does
both: each literal becomes a call that prints it, each fragment stands as it was written.
-/
namespace Stencil

inductive Element where
  | emit (text : Text)
  | code (text : Text)
deriving Repr, DecidableEq, Inhabited

/-- Escape a character for a double-quoted string of the fragment language. -/
def escapeChar (c : Char) : Text :=
  match c with
  | '\\' => ['\\', '\\']
  | '"' => ['\\', '"']
  | '\'' => ['\\', '\'']
  | '\n' => ['\\', 'n']
  | '\r' => ['\\', 'r']
  | '\t' => ['\\', 't']
  | c =>
    -- the braces keep a digit that comes next out of the escape
    if c.val < 0x20 || (0x7F ≤ c.val && c.val < 0xA0) then
      ['\\', 'u', '{'] ++ Nat.toDigits 16 c.toNat ++ ['}']
    else [c]

def escape (t : Text) : Text := t.flatMap escapeChar

def Element.source : Element → Text
  | .emit text => "print(\"".toList ++ escape text ++ "\");\n".toList
  | .code text => text ++ ";\n".toList

/-- The elements of a template, no literal empty and no two of them adjacent. -/
structure Body where
  elements : List Element := []
deriving Repr, DecidableEq, Inhabited

namespace Body

def consLiteral (text : Text) : List Element → List Element
  | .emit next :: rest => .emit (text ++ next) :: rest
  | rest => if text.isEmpty then rest else .emit text :: rest

/-- Put elements together: empty literals vanish, adjacent ones merge. -/
def merge : List Element → List Element
  | [] => []
  | .emit text :: rest => consLiteral text (merge rest)
  | .code text :: rest => .code text :: merge rest

/-- Add an element at the end: an empty literal is dropped, a literal after a literal joins it. -/
def push (b : Body) : Element → Body
  | .code text => ⟨b.elements ++ [.code text]⟩
  | .emit text =>
    if text.isEmpty then b
    else
      match b.elements.getLast? with
      | some (.emit before) => ⟨b.elements.dropLast ++ [.emit (before ++ text)]⟩
      | _ => ⟨b.elements ++ [.emit text]⟩

def ofElements (elements : List Element) : Body := ⟨merge elements⟩

/-- What a piece of the document contributes. -/
def elementOf : Piece → Element
  | .literal text => .emit text
  | .code text _ => .code text

def ofPieces (pieces : List Piece) : Body := ofElements (pieces.map elementOf)

def hasCode (b : Body) : Bool :=
  b.elements.any fun e => match e with | .code _ => true | .emit _ => false

def source (b : Body) : Text := b.elements.flatMap Element.source

end Body

end Stencil
