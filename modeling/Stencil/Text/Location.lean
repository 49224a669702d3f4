import Stencil.Text.Blank
/-!
# Line and column

A location is what a reader counts: lines and columns from one, a line break belonging to the
line it ends.
-/
namespace Stencil

/-- A line and a column, both counted from one. -/
structure Location where
  line : Nat
  column : Nat
deriving Repr, DecidableEq, Inhabited

namespace Location

def start : Location := ⟨1, 1⟩

def step (here : Location) (c : Char) : Location :=
  if c = '\n' then ⟨here.line + 1, 1⟩ else ⟨here.line, here.column + 1⟩

/-- The location of a position in a text; positions past the end count as the end. -/
def ofPosition (text : Text) (position : Nat) : Location :=
  (text.take position).foldl step start

end Location

/-- The number of lines of a text; the empty text has one. -/
def Text.lineCount (text : Text) : Nat := text.count '\n' + 1

end Stencil
