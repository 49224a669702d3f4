import Stencil.Delimiters
import Stencil.Diagnostic
import Stencil.Error
import Stencil.Text.Cursor
/-!
# Scanning

A document is split into literal text and code. A delimiter or quote directly after exactly one
backslash is escaped: it has no structural meaning, and in literal text the backslash is dropped.
Inside code, quoted strings hide whatever looks like a delimiter.
-/
namespace Stencil

/-- A stretch of a document. Code is closed when its stop delimiter was found. -/
inductive Piece where
  | literal (text : Text)
  | code (text : Text) (closed : Bool)
deriving Repr, DecidableEq, Inhabited

inductive Mode where
  | literal
  | code
deriving Repr, DecidableEq, Inhabited

/-- A scan under way: the piece in hand and the pieces done are kept latest first. -/
structure Scan where
  mode : Mode := .literal
  quote : Option Char := none
  pending : Text := []
  done : List Piece := []
  opened : Nat := 0
  log : Collector
deriving Repr, DecidableEq, Inhabited

namespace Scan

/-- The delimiter that lies ahead: of two the one with more bytes, the first if they tie. -/
def longestAhead? (c : Cursor) (first second : Text) : Option Text :=
  match c.startsWith first, c.startsWith second with
  | true, true => if first.byteLength < second.byteLength then some second else some first
  | true, false => some first
  | false, true => some second
  | false, false => none

/-- Whether exactly one backslash stands directly behind the cursor. -/
def isEscaped (c : Cursor) : Bool :=
  match c.behind with
  | '\\' :: '\\' :: _ => false
  | '\\' :: _ => true
  | _ => false

def take (s : Scan) (c : Cursor) : Scan × Cursor :=
  ({ s with pending := c.peek.toList ++ s.pending }, c.advance)

def takeAll (s : Scan) (delimiter : Text) : Scan :=
  { s with pending := delimiter.reverse ++ s.pending }

/-- Close the literal in hand, if it holds anything. -/
def closeLiteral (s : Scan) : Scan :=
  if s.pending.isEmpty then s
  else { s with pending := [], done := .literal s.pending.reverse :: s.done }

/-- Close the code in hand, empty or not. -/
def closeCode (s : Scan) (closed : Bool) : Scan :=
  { s with quote := none, pending := [], done := .code s.pending.reverse closed :: s.done }

def stepLiteral (d : Delimiters) (s : Scan) (c : Cursor) : Scan × Cursor :=
  match longestAhead? c d.start d.stop with
  | none => s.take c
  | some found =>
    if isEscaped c then
      -- in text the backslash was written for the delimiter only
      ({ s with pending := s.pending.drop 1 }.takeAll found, c.skip found.length)
    else if found = d.start then
      ({ s.closeLiteral with mode := .code, opened := c.position }, c.skip d.start.length)
    else
      let log := s.log.errorAt Diagnostic.danglingStop
        ("Found '" ++ String.ofList d.stop ++ "' without a matching '" ++ String.ofList d.start ++
          "'")
        c.location
      ({ s with log }.takeAll d.stop, c.skip d.stop.length)

/-- One step inside a quoted string of code: only its own quote, not escaped, ends it. -/
def stepQuoted (s : Scan) (quote : Char) (c : Cursor) : Scan × Cursor :=
  let ends := c.peek == some quote && !isEscaped c
  { s with quote := if ends then none else some quote }.take c

def stepCode (d : Delimiters) (s : Scan) (c : Cursor) : Scan × Cursor :=
  match longestAhead? c d.stop d.start with
  | some found =>
    -- in code the backslash may mean something, so it stays
    if isEscaped c then (s.takeAll found, c.skip found.length)
    else if found = d.stop then
      ({ s.closeCode true with mode := .literal }, c.skip d.stop.length)
    else
      let log := s.log.errorAt Diagnostic.danglingStart
        ("Found '" ++ String.ofList d.start ++ "' inside a code region that is still open")
        c.location
      -- unlike a stray stop in text, the delimiter is not kept
      ({ s with log }, c.skip d.start.length)
  | none =>
    let quote := if isEscaped c then none else c.peek.filter fun q => q == '\'' || q == '"'
    { s with quote }.take c

/-- One step: a whole delimiter or a single character. An empty text has nothing to step over in
code. -/
def step (d : Delimiters) (s : Scan) (c : Cursor) : Scan × Cursor :=
  match s.mode, s.quote with
  | .literal, _ => stepLiteral d s c
  | .code, some quote => if c.peek.isNone then (s, c) else stepQuoted s quote c
  | .code, none => if c.peek.isNone then (s, c) else stepCode d s c

def steps (d : Delimiters) : Nat → Scan × Cursor → Scan × Cursor
  | 0, here => here
  | count + 1, here => if here.2.atEnd then here else steps d count (step d here.1 here.2)

/-- Close the piece in hand. A code region that is still open is reported where it began. -/
def finish (d : Delimiters) (s : Scan) (c : Cursor) : Scan :=
  match s.mode with
  | .literal => s.closeLiteral
  | .code =>
    let log := s.log.errorAt Diagnostic.unterminated
      ("Code region opened here is never closed with '" ++ String.ofList d.stop ++ "'")
      (c.locationAt s.opened)
    { s with log }.closeCode false

def pieces (s : Scan) : List Piece := s.done.reverse

/-- Scan a whole text; each step of a valid pair consumes something, so the length is enough. -/
def ofText (d : Delimiters) (source : Text) (log : Collector) : Scan :=
  let (s, c) := steps d source.length ({ log }, Cursor.ofText source)
  s.finish d c

end Scan

/-- Split a source into pieces. A code region that is still open at the end is an error, whatever
the reporting level; the diagnostics are kept in both cases. -/
def scan (d : Delimiters) (source : Text) (template : String) (log : Collector) :
    Except Error (List Piece) × Collector :=
  let s := Scan.ofText d source log
  match s.done with
  -- only the last piece can have been left open
  | .code _ false :: _ =>
    (.error (.unterminatedCode template d.stop (Location.ofPosition source s.opened)), s.log)
  | _ => (.ok s.pieces, s.log)

end Stencil
