import Stencil.Text.Blank
/-!
# Delimiters

The pair of texts between which code stands in a document.
-/
namespace Stencil

/-- What opens and what closes a code region. -/
structure Delimiters where
  start : Text
  stop : Text
deriving Repr, DecidableEq, Inhabited

namespace Delimiters

def standard : Delimiters := ⟨['<', '$'], ['$', '>']⟩

def isValid (d : Delimiters) : Bool := !d.start.isEmpty && !d.stop.isEmpty && d.start != d.stop

def isShort (d : Delimiters) : Bool := d.start.length < 2 || d.stop.length < 2

def keywords : List String :=
  ["and", "break", "do", "else", "elseif", "end", "false", "for", "function", "goto", "if", "in",
    "local", "nil", "not", "or", "repeat", "return", "then", "true", "until", "while"]

/-- Sequences that are common in code. -/
def riskySequences : List String :=
  ["\x7b\x7b", "\x7d\x7d", "((", "))", "[[", "]]", ";;", "==", "++", "--", "<=", ">=", "=>", "~=",
    "..", "\x27\x27", "\"\""]

def isRisky (delimiter : Text) : Bool :=
  keywords.any (fun w => w.toList == delimiter) ||
    riskySequences.any (fun s => Text.contains s.toList delimiter)

def riskyPart? (d : Delimiters) : Option Text := [d.start, d.stop].find? isRisky

end Delimiters

end Stencil
