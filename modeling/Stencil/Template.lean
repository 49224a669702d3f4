import Stencil.Disk
import Stencil.Interpreter
import Stencil.Stats
/-!
# Templates

A template is a content with the options and the scope it is rendered with, and with what its
renders left behind: a compiled program, an output and a history.
-/
namespace Stencil

inductive Source where
  | file (path : Path)
  | inline (code : Text)
deriving Repr, DecidableEq, Inhabited

namespace Source

def load (d : Disk) : Source → Except Error Text
  | .inline code => .ok code
  | .file path =>
    match d.readText path with
    | .ok content => .ok content
    | .error fault => .error (.unreadable path fault)

def path? : Source → Option Path
  | .file path => some path
  | .inline _ => none

end Source

structure Template (I : Interpreter) where
  source : Source
  content : Text
  fingerprint : Fingerprint
  created : Nat
  options : Options
  scope : Json
  program : Option I.Program := none
  output : Text := []
  history : History := {}
  /-- The options of the last render that was completed. -/
  lastOptions : Option Options := none
  /-- The templates rendered inside this one, in order and each once. -/
  children : List Fingerprint := []
  /-- The children about whose cycles a warning has been given. -/
  warned : List Fingerprint := []
  rendering : Bool := false

namespace Template

variable {I : Interpreter}

instance : Inhabited (Template I) :=
  ⟨{ source := .inline [], content := [], fingerprint := ⟨""⟩, created := 0, options := {},
     scope := .null }⟩

/-- What labels and statistics call the template. -/
def displayPath (t : Template I) (d : Disk) : String :=
  match t.source with
  | .file path =>
    String.ofList (if t.options.absolutePaths then (d.absolute? path).getD path else path)
  | .inline _ => t.options.name.getD ("inline:" ++ t.fingerprint.nickname)

/-- What messages call the template. -/
def label (t : Template I) (d : Disk) : String := "Template [" ++ t.displayPath d ++ "]"

/-- Give up the compiled program; the next render starts from source. -/
def forgetProgram (t : Template I) : Template I :=
  { t with program := none, history := t.history.invalidate }

/-- Put a fingerprint among others in order, unless it is there. -/
def insertOrdered (f : Fingerprint) : List Fingerprint → List Fingerprint
  | [] => [f]
  | g :: rest =>
    if f.hex < g.hex then f :: g :: rest
    else if f = g then g :: rest
    else g :: insertOrdered f rest

def addChild (t : Template I) (f : Fingerprint) : Template I :=
  { t with children := insertOrdered f t.children }

def hasChild (t : Template I) (f : Fingerprint) : Bool := t.children.contains f

/-- Where a nested render finds the child that it names: code as it stands, or a file beside the
template's own. -/
def childSource (t : Template I) (code : Bool) (name : Text) : Source :=
  if code then .inline name else .file (Path.resolveChild name t.source.path?)

/-- The options of a child that a nested render creates. -/
def childOptions (t : Template I) : Options := { t.options with forceFull := false, name := none }

def outputStem (t : Template I) (o : Options) : String :=
  match t.source with
  | .file path => String.ofList ((Path.stem? path).getD [])
  | .inline _ => o.name.getD "inline"

def stats (t : Template I) (d : Disk) (now : Nat) : Stats :=
  { path := t.displayPath d, fingerprint := t.fingerprint, created := t.created
    lifetime := now - t.created, history := t.history, options := t.lastOptions.getD t.options }

end Template

end Stencil
