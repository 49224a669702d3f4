import Stencil.Text.Location
/-!
# A cursor in a text

The cursor splits its text in two, so its position always lies between the start and the end.
Amounts given by a caller are machine words.
-/
namespace Stencil

/-- A place in a text: the characters behind it, nearest first, and those ahead of it. -/
structure Cursor where
  behind : Text
  ahead : Text
deriving Repr, DecidableEq, Inhabited

namespace Cursor

def ofText (text : Text) : Cursor := ⟨[], text⟩

def text (c : Cursor) : Text := c.behind.reverse ++ c.ahead

def length (c : Cursor) : Nat := c.behind.length + c.ahead.length

def position (c : Cursor) : Nat := c.behind.length

def atEnd (c : Cursor) : Bool := c.ahead.isEmpty

/-- The character at the cursor; at the end, the last one. Only an empty text has none. -/
def peek (c : Cursor) : Option Char := c.ahead.head? <|> c.behind.head?

/-- Move over the next characters, at most to the end. -/
def skip (c : Cursor) (count : Nat) : Cursor :=
  ⟨(c.ahead.take count).reverse ++ c.behind, c.ahead.drop count⟩

def back (c : Cursor) (count : Nat) : Cursor :=
  ⟨c.behind.drop count, (c.behind.take count).reverse ++ c.ahead⟩

/-- Move to a position, at most to the end. -/
def moveTo (c : Cursor) (position : UInt64) : Cursor :=
  ⟨(c.text.take position.toNat).reverse, c.text.drop position.toNat⟩

def advance (c : Cursor) : Cursor := c.skip 1

/-- Move forward; a negative amount is refused. -/
def advanceBy? (c : Cursor) (amount : Int64) : Option Cursor :=
  if amount < 0 then none else some (c.skip amount.toInt.toNat)

def retreat (c : Cursor) (count : UInt64) : Cursor := c.back count.toNat

def reset (c : Cursor) : Cursor := ofText c.text

/-- At most the given number of characters ahead. The position where they end is a machine word:
there is no answer when it does not fit into one. -/
def lookahead? (c : Cursor) (count : UInt64) : Option Text :=
  if c.position + count.toNat < UInt64.size then some (c.ahead.take count.toNat) else none

/-- At most the given number of characters behind, in reading order. -/
def lookbehind (c : Cursor) (count : UInt64) : Text := (c.behind.take count.toNat).reverse

def startsWith (c : Cursor) (pattern : Text) : Bool := pattern.isPrefixOf c.ahead

/-- The characters between two positions, both taken at most to the end. -/
def range (c : Cursor) (start stop : UInt64) : Text :=
  (c.text.take stop.toNat).drop start.toNat

def location (c : Cursor) : Location := Location.ofPosition c.text c.position

def locationAt (c : Cursor) (position : Nat) : Location := Location.ofPosition c.text position

end Cursor

end Stencil
