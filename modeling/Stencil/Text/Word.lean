import Stencil.Text.Blank
import Stencil.Text.CharRange
/-!
# Words

Which characters belong to a word, and where a word begins or ends.
-/
namespace Stencil

def isDecimalDigit (c : Char) : Bool :=
  if c.val < 0x80 then c.isDigit else CharRange.contains CharRange.decimal c.toNat

def isAlphanumeric (c : Char) : Bool :=
  if c.val < 0x80 then c.isAlphanum else CharRange.contains CharRange.alphanumeric c.toNat

/-- Letters, numbers and the underscore: the characters of a keyword's neighbourhood. -/
def isNameChar (c : Char) : Bool := isAlphanumeric c || c == '_'

/-- Letters, marks, decimal digits, connecting punctuation and joiners. -/
def isWordChar (c : Char) : Bool :=
  if c.val < 0x80 then c.isAlphanum || c == '_' else CharRange.contains CharRange.word c.toNat

def wordMayBegin (before : Option Char) : Bool := !before.any isWordChar

def wordHasEnded (rest : Text) : Bool := !rest.head?.any isWordChar

end Stencil
