import Stencil.Mask
/-!
# From braces to native blocks

A brace after the parenthesised head of a block opens that block; its partner becomes `end`, or
`else` and `elseif` where another branch follows. Every other brace belongs to a table and stays.
What an opening brace means is read off the text written so far.
-/
namespace Stencil.Lower

inductive Brace where
  | block
  | table
deriving Repr, DecidableEq

/-- The keyword that owns a parenthesised head. -/
inductive Head where
  | conditional
  | branch
  | loop
  | iteration
deriving Repr, DecidableEq

def Head.ofWord? (word : Text) : Option Head :=
  if word = "if".toList then some .conditional
  else if word = "elseif".toList then some .branch
  else if word = "while".toList then some .loop
  else if word = "for".toList then some .iteration
  else none

/-- The head at the end of a text read backwards: its keyword, what its parentheses hold, and the
text before them, read backwards. -/
def head? (written : Text) : Option (Head × Text × Text) :=
  match written.dropWhile isBlank with
  | ')' :: behind =>
    match Text.splitGroup? ')' '(' 0 behind with
    | some (inside, before) =>
      (Head.ofWord? ((before.dropWhile isBlank).takeWhile isNameChar).reverse).map fun head =>
        (head, inside.reverse, before)
    | none => none
  | _ => none

/-- Write further at the end of a text read backwards. -/
def append (written : Text) (more : Text) : Text := more.reverse ++ written

/-- What an opening brace becomes: the text written, read backwards, and the open braces. -/
def openBrace (written : Text) (braces : List Brace) : Text × List Brace :=
  match head? written with
  | some (.iteration, header, before) =>
    (append (before.dropWhile isBlank) (' ' :: Text.trim header ++ " do ".toList), .block :: braces)
  | some (.loop, _, _) => (append written " do ".toList, .block :: braces)
  | some (.conditional, _, _) => (append written " then ".toList, .block :: braces)
  | some (.branch, _, _) => (append written " then ".toList, braces)
  | none => ('{' :: written, .table :: braces)

/-- The text after a word that ends here. -/
def afterName? (word : Text) (t : Text) : Option Text :=
  (Text.after? word t).filter fun rest => !rest.head?.any isNameChar

/-- After a closing brace: whether `else {` or `else if` follows, and the text after it. -/
def elseAfter? (t : Text) : Option (Text × Text) :=
  match (afterName? "else".toList (Text.trimStart t)).map Text.trimStart with
  | some ('{' :: rest) => some (" else ".toList, rest)
  | some rest =>
    (afterName? "if".toList rest).map fun after => (" elseif ".toList, Text.trimStart after)
  | none => none

/-- Lower a text, a number of its characters being passed over first. The text written so far and
the result are read backwards. -/
def lowerFrom : Nat → List Brace → Text → Text → Text
  | _, _, written, [] => written
  | pending + 1, braces, written, _ :: cs => lowerFrom pending braces written cs
  | 0, braces, written, c :: cs =>
    if c = '{' then
      let (written, braces) := openBrace written braces
      lowerFrom 0 braces written cs
    else if c = '}' then
      match braces with
      -- what follows the brace of a table is never a branch of a block
      | .table :: outer => lowerFrom 0 outer ('}' :: written) cs
      | braces =>
        match elseAfter? cs with
        | some (branch, rest) =>
          lowerFrom (cs.length - rest.length) braces (append written branch) cs
        | none =>
          match braces with
          | _ :: outer => lowerFrom 0 outer (append written " end ".toList) cs
          -- a brace that closes nothing stays
          | [] => lowerFrom 0 [] ('}' :: written) cs
    else lowerFrom 0 braces (c :: written) cs

end Stencil.Lower

namespace Stencil

/-- A body in native blocks. -/
def lower (body : Text) : Text :=
  let m := Mask.ofText body
  m.restore (Text.trimEnd (Lower.lowerFrom 0 [] [] m.text).reverse)

end Stencil
