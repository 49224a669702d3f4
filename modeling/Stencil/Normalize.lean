import Stencil.BlockHead
import Stencil.Mask
/-!
# The canonical brace form

Blocks may be written with colons, `if (c): … else: … endif;`, or with braces. Both become braces
with no white space around them and no needless semicolons. All of this works on the masked source,
so strings stay as they are.
-/
namespace Stencil.Normalize

/-- A head followed by a colon gets a brace instead; one without a colon is passed over. -/
def colonHead : Rule := fun before t =>
  (BlockHead.read? before t).map fun head =>
    -- the search goes on inside the condition, which may hold a head of its own
    let kept := (t.take (t.length - head.afterOpen.length), head.afterOpen)
    match Text.splitGroup? '(' ')' 0 head.afterOpen with
    | none => kept
    | some (condition, after) =>
      match Text.trimStart after with
      | ':' :: rest =>
        let keyword := if head.isElse then "\x7d else if".toList else head.keyword
        (keyword ++ " (".toList ++ condition ++ ") \x7b".toList, rest)
      | _ => kept

/-- `else` with a colon closes a block and opens one. -/
def colonElse : Rule := fun before t =>
  if wordMayBegin before then
    match (Text.after? "else".toList t).map Text.trimStart with
    | some (':' :: rest) => some ("\x7d else \x7b".toList, rest)
    | _ => none
  else none

/-- The white space, the word `else` and the end of a statement: the space before the word, the end
as written and the text after it. -/
def bareElse? (t : Text) : Option (Text × Text × Text) :=
  match Text.after? "else".toList (Text.trimStart t) with
  | none => none
  | some after =>
    if wordHasEnded after then
      match Text.trimStart after with
      | [] => some (t.takeWhile isBlank, [], [])
      | ';' :: rest => some (t.takeWhile isBlank, [';'], rest)
      | _ => none
    else none

/-- `else` as a statement of its own, at the start or after a semicolon. -/
def statementElse : Rule := fun before t =>
  let divide (lead : Text) (found : Text × Text × Text) : Text × Text :=
    (lead ++ found.1 ++ "\x7d else \x7b".toList ++ found.2.1, found.2.2)
  -- only the first character of all has none before it
  let atStart := if before.isNone then (bareElse? t).map (divide []) else none
  atStart <|>
    match t with
    | ';' :: rest => (bareElse? rest).map (divide [';'])
    | _ => none

/-- The keyword of a block after `end`, with the text after it. -/
def endedKeyword? (t : Text) : Option Text :=
  ["if", "for", "while"].findSome? fun word => Text.after? word.toList t

/-- `endif`, `endfor`, `endwhile` with an optional semicolon, and `end if;` and so on with one. -/
def blockEnd : Rule := fun before t =>
  if wordMayBegin before then
    match Text.after? "end".toList t with
    | none => none
    | some after =>
      match (endedKeyword? after).filter wordHasEnded with
      | some rest =>
        match Text.trimStart rest with
        | ';' :: rest => some (['}'], rest)
        | rest => some (['}'], rest)
      | none =>
        -- native code goes on with `end if` as well, and there without a semicolon
        match ((Text.after? [' '] after).bind endedKeyword?).map Text.trimStart with
        | some (';' :: rest) => some (['}'], rest)
        | _ => none
  else none

/-- Colon and `end…` blocks to braces. -/
def toBraces (t : Text) : Text :=
  t.replaceAll colonHead |>.replaceAll colonElse |>.replaceAll statementElse |>.replaceAll blockEnd

def semicolonSpace : Rule := fun _ t =>
  match Text.trimStart t with
  | ';' :: rest => some ([';'], Text.trimStart rest)
  | _ => none

/-- The call of an emitting function on one literal, with an optional semicolon: the digits of the
literal and the text after the call. -/
def literalEmit? (t : Text) : Option (Text × Text) :=
  match ["print", "echo"].findSome? fun word => Text.after? word.toList t with
  | none => none
  | some after =>
    match Text.trimStart after with
    | '(' :: inside =>
      match Mask.placeholder? (Text.trimStart inside) with
      | some (digits, rest) =>
        match Text.trimStart rest with
        | ')' :: rest =>
          match Text.trimStart rest with
          | ';' :: rest => some (digits, rest)
          | rest => some (digits, rest)
        | _ => none
      | none => none
    | _ => none

def isEmptyQuoted (literal : Text) : Bool := literal == ['"', '"'] || literal == ['\'', '\'']

/-- A call that emits an empty string goes; one that emits another literal is passed over. -/
def emptyEmit (m : Mask) : Rule := fun before t =>
  if wordMayBegin before then
    (literalEmit? t).map fun (digits, rest) =>
      if (m.literal? digits).any isEmptyQuoted then ([], rest)
      else (t.take (t.length - rest.length), rest)
  else none

def repeatedSemicolon : Rule := fun _ t =>
  match t with
  | ';' :: ';' :: rest => some ([';'], rest.dropWhile (· == ';'))
  | _ => none

def braceSpace : Rule := fun _ t =>
  match Text.trimStart t with
  | '{' :: rest => some (['{'], Text.trimStart rest)
  | '}' :: rest => some (['}'], Text.trimStart rest)
  | _ => none

/-- A semicolon after a brace goes, unless a parenthesis follows: there it keeps the next statement
from being read as a call. -/
def braceSemicolon : Rule := fun _ t =>
  match t with
  | '{' :: ';' :: rest | '}' :: ';' :: rest =>
    match rest with
    | '(' :: after => some (t.take 3, after)
    | _ => some (t.take 1, rest)
  | _ => none

/-- White space and needless semicolons and emits go. -/
def collapse (m : Mask) (t : Text) : Text :=
  t.replaceAll semicolonSpace |>.replaceAll (emptyEmit m) |>.replaceAll repeatedSemicolon
    |>.replaceAll braceSpace |>.replaceAll braceSemicolon |> Text.trim

end Stencil.Normalize

namespace Stencil

/-- The canonical brace form of a body. -/
def normalize (body : Text) : Text :=
  let m := Mask.ofText body
  m.restore (Normalize.collapse m (Normalize.toBraces m.text))

end Stencil
