import Stencil.Text.Replace
/-!
# Masking

The textual passes must never touch the inside of a string. A source is cut into tiles: plain
characters, string literals and comments. Its mask keeps the plain characters, drops the comments
and puts a numbered placeholder where a literal stood; the literals are put back at the end.
-/
namespace Stencil

/-- A lexical piece of a source. -/
inductive Tile where
  | plain (c : Char)
  | literal (text : Text)
  | comment (text : Text)
  /-- A comment whose place is taken by a blank. -/
  | spaced (text : Text)
deriving Repr, DecidableEq, Inhabited

namespace Tile

/-- The characters of the source that the tile covers. -/
def text : Tile → Text
  | plain c => [c]
  | literal t | comment t | spaced t => t

/-- The length of a quoted string after its opening quote, the closing quote included. A string
left open ends before the line break. -/
def quotedLength (quote : Char) : Text → Nat
  | [] => 0
  | '\\' :: [] => 1
  -- a line break after a backslash belongs to the string
  | '\\' :: _ :: cs => quotedLength quote cs + 2
  | c :: cs => if c = '\n' then 0 else if c = quote then 1 else quotedLength quote cs + 1

/-- Whether the text begins with a closing long bracket of the level, `]` already read. -/
def closesBracket (level : Nat) (t : Text) : Bool :=
  (List.replicate level '=' ++ [']']).isPrefixOf t

/-- The length of what a long bracket of the level holds, its closing bracket included. A bracket
left open runs to the end. -/
def bracketLength (level : Nat) : Text → Nat
  | [] => 0
  | c :: cs =>
    if c = ']' && closesBracket level cs then level + 2 else bracketLength level cs + 1

/-- The length of the long bracket that begins here, if one does. -/
def longBracket? : Text → Option Nat
  | '[' :: cs =>
    let level := (cs.takeWhile (· == '=')).length
    match cs.drop level with
    | '[' :: inside => some (level + 2 + bracketLength level inside)
    | _ => none
  | _ => none

def lineLength (t : Text) : Nat := (t.takeWhile (· != '\n')).length

/-- The length of a block comment after its opening, the closing included. One left open runs to
the end. -/
def blockLength : Text → Nat
  | '*' :: '/' :: _ => 2
  | _ :: cs => blockLength cs + 1
  | [] => 0

/-- The tile that begins at a character followed by the given text. -/
def first (c : Char) (cs : Text) : Tile :=
  match c, cs with
  | '\'', _ | '"', _ => .literal (c :: cs.take (quotedLength c cs))
  | '[', '[' :: _ | '[', '=' :: _ =>
    match longBracket? (c :: cs) with
    | some length => .literal ((c :: cs).take length)
    | none => .plain c
  | '-', '-' :: rest =>
    match longBracket? rest with
    | some length => .comment ('-' :: '-' :: rest.take length)
    -- without a bracket the comment ends with its line
    | none => .comment ('-' :: '-' :: rest.take (lineLength rest))
  | '/', '/' :: rest => .comment ('/' :: '/' :: rest.take (lineLength rest))
  | '/', '*' :: rest => .spaced ('/' :: '*' :: rest.take (blockLength rest))
  | _, _ => .plain c

def tilesFrom : Nat → Text → List Tile
  | _, [] => []
  | pending + 1, _ :: cs => tilesFrom pending cs
  | 0, c :: cs => first c cs :: tilesFrom ((first c cs).text.length - 1) cs

end Tile

def tiles (source : Text) : List Tile := Tile.tilesFrom 0 source

/-- A source with its literals set aside. -/
structure Mask where
  text : Text
  literals : List Text
deriving Repr, DecidableEq, Inhabited

namespace Mask

/-- The private-use characters around the number of a literal. -/
def opening : Char := '\uE000'
def closing : Char := '\uE001'

def placeholder (index : Nat) : Text := opening :: Nat.toDigits 10 index ++ [closing]

/-- The masked text of tiles, literals being numbered from an index on. -/
def textFrom : Nat → List Tile → Text
  | _, [] => []
  | index, .plain c :: rest => c :: textFrom index rest
  | index, .literal _ :: rest => placeholder index ++ textFrom (index + 1) rest
  -- a comment to the end of its line leaves the break; one in a bracket leaves nothing
  | index, .comment _ :: rest => textFrom index rest
  | index, .spaced _ :: rest => ' ' :: textFrom index rest

def literalsOf : List Tile → List Text
  | [] => []
  | .literal t :: rest => t :: literalsOf rest
  | _ :: rest => literalsOf rest

/-- Strip the comments of a source and set its literals aside. -/
def ofText (source : Text) : Mask := ⟨textFrom 0 (tiles source), literalsOf (tiles source)⟩

/-- The placeholder that begins here: its digits and the text after it. -/
def placeholder? : Text → Option (Text × Text)
  | c :: cs =>
    if c = opening then
      match cs.dropWhile isDecimalDigit with
      | d :: rest =>
        let digits := cs.takeWhile isDecimalDigit
        if d = closing && !digits.isEmpty then some (digits, rest) else none
      | [] => none
    else none
  | [] => none

/-- The number that digits write, if they are ASCII. -/
def index? (digits : Text) : Option Nat :=
  if digits.all Char.isDigit then some (digits.foldl (fun n d => n * 10 + (d.toNat - 48)) 0)
  else none

def literal? (m : Mask) (digits : Text) : Option Text := (index? digits).bind (m.literals[·]?)

/-- Replace a placeholder by its literal. A placeholder of no literal stays. -/
def restoreRule (m : Mask) : Rule := fun _ t =>
  (placeholder? t).map fun (digits, rest) =>
    ((m.literal? digits).getD (opening :: digits ++ [closing]), rest)

def restore (m : Mask) (t : Text) : Text := Text.replaceAll m.restoreRule t

end Mask

end Stencil
