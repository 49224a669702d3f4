import Stencil.Text.Blank
/-!
# Paths

Paths are texts of names between slashes. Repeated slashes and single dots inside a path mean
nothing; a leading dot does. A name's extension follows its last dot, unless that dot comes first.
-/
namespace Stencil

abbrev Path := Text

namespace Path

def isAbsolute (p : Path) : Bool := p.head? == some '/'

/-- The names between the slashes of a text, empty ones included. -/
def segments : Text → List Text
  | [] => [[]]
  | c :: cs =>
    if c = '/' then [] :: segments cs
    else
      match segments cs with
      | first :: rest => (c :: first) :: rest
      | [] => [[c]]

def ofSegments (names : List Text) : Text := List.intercalate ['/'] names

/-- Whether a name inside a path means nothing. -/
def isVoid (name : Text) : Bool := name.isEmpty || name == ['.']

/-- The part of a path that is not made of names: the root slash, or a leading dot. -/
def lead (p : Path) : Text :=
  match p with
  | '/' :: _ => ['/']
  | ['.'] => ['.']
  | '.' :: '/' :: _ => ['.']
  | _ => []

/-- The names after the lead, last one first, without those at the end that mean nothing. -/
def namesBack (p : Path) : List Text :=
  (segments (p.drop (lead p).length)).reverse.dropWhile isVoid

/-- The path without its last name. -/
def parent? (p : Path) : Option Path :=
  match namesBack p with
  | _ :: before => some (lead p ++ ofSegments (before.dropWhile isVoid).reverse)
  | [] => if lead p = ['.'] then some [] else none

/-- The last name, unless the path ends in a step up. -/
def fileName? (p : Path) : Option Text := (namesBack p).head?.filter (· != ['.', '.'])

/-- A file name split at its last dot: the stem and the extension. -/
def splitName (name : Text) : Text × Option Text :=
  let extension := (name.reverse.takeWhile (· != '.')).reverse
  let stem := name.take (name.length - extension.length - 1)
  if extension.length = name.length || stem.isEmpty then (name, none) else (stem, some extension)

def stem? (p : Path) : Option Text := (fileName? p).map fun name => (splitName name).1

def extension? (p : Path) : Option Text := (fileName? p).bind fun name => (splitName name).2

/-- The path with another extension; an empty one takes the old one away. -/
def withExtension (p : Path) (extension : Text) : Path :=
  match fileName? p, namesBack p with
  | some name, _ :: before =>
    let stem := (splitName name).1
    lead p ++ ofSegments ((stem :: before).reverse) ++
      (if extension.isEmpty then [] else '.' :: extension)
  | _, _ => p

/-- A path below another; an absolute one stands for itself. -/
def join (base below : Path) : Path :=
  if isAbsolute below then below
  else if base.isEmpty || base.getLast? == some '/' then base ++ below
  else base ++ '/' :: below

/-- Where a template finds the file it names: beside its own file, whose extension a name without
one takes. -/
def resolveChild (child : Path) (parentFile : Option Path) : Path :=
  match parentFile with
  | none => child
  | some file =>
    if isAbsolute child then child
    else
      let resolved := join ((parent? file).getD ['.']) child
      match extension? child, extension? file with
      -- a name with an extension keeps its own
      | none, some extension => withExtension resolved extension
      | _, _ => resolved

end Path

end Stencil
