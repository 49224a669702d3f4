import Stencil.Text.Replace
/-!
# Output styles

The compressed style drops markup comments, the gaps between tags, and needless white space. The
other two leave the output as it is.
-/
namespace Stencil

inductive Style where
  | compressed
  | compact
  | preserve
deriving Repr, DecidableEq, Inhabited

namespace Style

/-- The style of a name; every unknown name preserves. -/
def ofName (name : String) : Style :=
  if name = "compressed" then .compressed else if name = "compact" then .compact else .preserve

def name : Style → String
  | .compressed => "compressed"
  | .compact => "compact"
  | .preserve => "preserve"

def afterCommentEnd? : Text → Option Text
  | '-' :: '-' :: '>' :: rest => some rest
  | _ :: rest => afterCommentEnd? rest
  | [] => none

def comment : Rule := fun _ t =>
  match t with
  | '<' :: '!' :: '-' :: '-' :: inside => (afterCommentEnd? inside).map fun rest => ([], rest)
  | _ => none

/-- White space between the end of a tag and the start of another goes. -/
def tagGap : Rule := fun _ t =>
  match t with
  | '>' :: gap =>
    match gap.head?.any isBlank, Text.trimStart gap with
    | true, '<' :: rest => some (['>', '<'], rest)
    | _, _ => none
  | _ => none

def blankRun : Rule := fun _ t =>
  if t.head?.any isBlank then some ([' '], Text.trimStart t) else none

/-- White space directly inside a pair of quotes goes. -/
def quotedPadding : Rule := fun _ t =>
  match t with
  | '"' :: inside =>
    match inside.dropWhile (· != '"') with
    | '"' :: rest =>
      some ('"' :: Text.trim (inside.takeWhile (· != '"')) ++ ['"'], rest)
    | _ => none
  | _ => none

def compress (t : Text) : Text :=
  -- comments first, since one may stand between two tags
  t.replaceAll comment |>.replaceAll tagGap |>.replaceAll blankRun |>.replaceAll quotedPadding
    |> Text.trim

def apply (s : Style) (t : Text) : Text :=
  match s with
  | .compressed => compress t
  | .compact | .preserve => t

end Style

end Stencil
