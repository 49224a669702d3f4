import Stencil.Error
import Stencil.Path
import Stencil.Text.Utf8
/-!
# Files

A directory with everything below it. Paths lead from this directory; an absolute path is known
only if it leads back here.
-/
namespace Stencil

inductive Node where
  | file (content : Bytes)
  | directory
deriving Repr, DecidableEq, Inhabited

/-- The files and directories below a root, each under the names that lead to it. -/
structure Disk where
  root : Path := []
  nodes : List (List Text × Node) := []
deriving Repr, DecidableEq, Inhabited

namespace Disk

def node? (d : Disk) (place : List Text) : Option Node :=
  if place.isEmpty then some .directory else (d.nodes.find? fun n => n.1 == place).map (·.2)

def setNode (d : Disk) (place : List Text) (node : Node) : Disk :=
  { d with nodes := (d.nodes.filter fun n => n.1 != place) ++ [(place, node)] }

/-- Follow names from a place. The last name need not exist; every other must be a directory. -/
def follow (d : Disk) (here : List Text) : List Text → Except FileFault (List Text)
  | [] => .ok here
  | name :: rest =>
    match d.node? here with
    | none => .error .notFound
    | some (.file _) => .error .notADirectory
    | some .directory =>
      if Path.isVoid name then follow d here rest
      else if name = ['.', '.'] then
        -- nothing above the root is known
        if here.isEmpty then .error .notFound else follow d here.dropLast rest
      else if 255 < name.byteLength then .error .nameTooLong
      else follow d (here ++ [name]) rest

/-- The part of a path below a root. -/
def below? (root p : Path) : Option Path :=
  if !root.isEmpty && (root ++ ['/']).isPrefixOf p then some (p.drop (root.length + 1)) else none

/-- The place that a path leads to. -/
def place (d : Disk) (p : Path) : Except FileFault (List Text) :=
  if p.any (· == '\x00') then .error .nulInName
  else if p.isEmpty then .error .notFound
  else if 4095 < p.byteLength then .error .nameTooLong
  else if Path.isAbsolute p then
    match below? d.root p with
    | some rest => d.follow [] (Path.segments rest)
    | none => .error .notFound
  else d.follow [] (Path.segments p)

def readBytes (d : Disk) (p : Path) : Except FileFault Bytes :=
  match d.place p with
  | .error fault => .error fault
  | .ok place =>
    match d.node? place with
    | none => .error .notFound
    | some .directory => .error .isADirectory
    | some (.file content) => .ok content

def readText (d : Disk) (p : Path) : Except FileFault Text :=
  match d.readBytes p with
  | .error fault => .error fault
  | .ok content =>
    match content.toText? with
    | .ok text => .ok text
    | .error _ => .error .notUtf8

def isDirectory (d : Disk) (p : Path) : Bool :=
  match d.place p with
  | .ok place => d.node? place == some .directory
  | .error _ => false

/-- The absolute form of a path that leads to something. -/
def absolute? (d : Disk) (p : Path) : Option Path :=
  match d.place p with
  | .ok place =>
    if (d.node? place).isSome then some (d.root ++ place.flatMap fun name => '/' :: name) else none
  | .error _ => none

/-- Make a directory where nothing is. -/
def makeDirectory (d : Disk) (p : Path) : Except FileFault Disk :=
  match d.place p with
  | .error fault => .error fault
  | .ok place => if (d.node? place).isSome then .error .exists else .ok (d.setNode place .directory)

/-- Make a directory and those above it that are missing; the number bounds how many. -/
def makeDirectories : Nat → Disk → Path → Except FileFault Disk
  | 0, d, _ => .ok d
  | count + 1, d, p =>
    if p.isEmpty then .ok d
    else
      match d.makeDirectory p with
      | .ok d => .ok d
      | .error .notFound =>
        match Path.parent? p with
        | none => .error .notFound
        | some above =>
          match makeDirectories count d above with
          | .error fault => .error fault
          | .ok d =>
            match d.makeDirectory p with
            | .ok d => .ok d
            -- that it is there already is no fault
            | .error fault => if d.isDirectory p then .ok d else .error fault
      | .error fault => if d.isDirectory p then .ok d else .error fault

/-- Write a file into an existing directory. A path that ends in a slash names no file. -/
def writeBytes (d : Disk) (p : Path) (content : Bytes) : Except FileFault Disk :=
  let named := (p.reverse.dropWhile (· == '/')).reverse
  match d.place (if named.isEmpty then p else named) with
  | .error fault => .error fault
  | .ok place =>
    if named.length < p.length then .error .isADirectory
    else
      match d.node? place with
      | some .directory => .error .isADirectory
      | _ => .ok (d.setNode place (.file content))

/-- Take away what a path leads to. -/
def remove (d : Disk) (p : Path) : Disk :=
  match d.place p with
  | .ok place => { d with nodes := d.nodes.filter fun n => !place.isPrefixOf n.1 }
  | .error _ => d

/-- Write a file and make the directories above it. A fault names what could not be made. -/
def write (d : Disk) (p : Path) (content : Bytes) : Except Error Disk :=
  let above := (Path.parent? p).getD []
  match makeDirectories (p.length + 1) d above with
  | .error fault => .error (.unwritable above fault)
  | .ok d =>
    match d.writeBytes p content with
    | .error fault => .error (.unwritable p fault)
    | .ok d => .ok d

def files (d : Disk) : List (Path × Bytes) :=
  d.nodes.filterMap fun n =>
    match n.2 with
    | .file content => some (Path.ofSegments n.1, content)
    | .directory => none

end Disk

end Stencil
