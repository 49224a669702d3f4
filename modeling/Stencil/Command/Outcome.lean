import Stencil.Command.Arguments
import Stencil.Engine.Registry
import Stencil.Json.Reader
import Stencil.Json.Writer
import Stencil.Lua.Chunk
/-!
# What commands do

A command runs on a disk and ends with an exit code, texts for both streams, and the disk as it
leaves it.
-/
namespace Stencil

namespace Command

inductive Failure where
  | arguments
  | noRenders
  | scopeNotJson
  | scopeFileUnreadable (path : String) (fault : FileFault)
  | scopeFileNotJson (path : String)
  | delimiterCount
  | engine (error : Error)
deriving Repr, DecidableEq, Inhabited

namespace Failure

def message : Failure → String
  | arguments => "invalid arguments; see 'notpl help'"
  | noRenders => "--times must be at least 1"
  | scopeNotJson => "--scope is not valid JSON"
  | scopeFileUnreadable path _ => "Failed to read scope file " ++ path
  | scopeFileNotJson path => "Scope file " ++ path ++ " is not valid JSON"
  | delimiterCount => "--delimiters takes exactly two values"
  | engine error => error.message

/-- What lies behind a failure. -/
def cause? : Failure → Option String
  | scopeFileUnreadable _ fault => some fault.message
  | engine (.unreadable _ fault) | engine (.unwritable _ fault) => some fault.message
  | _ => none

end Failure

structure Outcome where
  exit : Nat := 0
  stdout : Text := []
  diagnostics : List Diagnostic := []
  failure : Option Failure := none
  disk : Disk
deriving Repr, Inhabited

namespace Outcome

/-- The text for the error stream: the diagnostics, and the failure with what lies behind it. -/
def stderr (o : Outcome) : Text :=
  let lines := o.diagnostics.map fun d => d.describe ++ "\n"
  let last := match o.failure with
    | some failure =>
      let behind := match failure.cause? with
        | some cause => "\n\nCaused by:\n    " ++ cause
        | none => ""
      "Error: " ++ failure.message ++ behind ++ "\n"
    | none => ""
  (String.join lines ++ last).toList

end Outcome

/-- The engine of commands. -/
abbrev Rendering := Engine Lua.interpreter

/-- The scope that a command is given: text, a file, or nothing. -/
def loadScope (d : Disk) (text file : Option String) : Except Failure (Option Json) :=
  match text, file with
  | some text, _ =>
    match Json.ofText? text.toList with
    | some scope => .ok (some scope)
    | none => .error .scopeNotJson
  | none, some path =>
    match d.readText path.toList with
    | .error fault => .error (.scopeFileUnreadable path fault)
    | .ok text =>
      match Json.ofText? text with
      | some scope => .ok (some scope)
      | none => .error (.scopeFileNotJson path)
  | none, none => .ok none

def patchOf (r : RenderCommand) : Except Failure Patch :=
  let patch : Patch :=
    { style := r.style.map Style.ofName
      reporting := r.reporting
      haltOnError := if r.noHalt then some false else none
      output := r.outputDir.map fun _ => true
      outputDir := r.outputDir.map String.toList
      code := if r.code then some true else none }
  match r.delimiters with
  | [] => .ok patch
  | [start, stop] =>
    .ok { patch with delimiterStart := some start.toList, delimiterStop := some stop.toList }
  | _ => .error .delimiterCount

/-- Render a template a number of times and keep the last output. The diagnostics are taken after
every render. -/
def renderTimes (id : TemplateId) : Nat → Text → List Diagnostic → Rendering →
    Except Error Text × List Diagnostic × Rendering
  | 0, last, log, e => (.ok last, log, e)
  | times + 1, _, log, e =>
    let (result, e) := e.render id {}
    let (reported, e) := e.takeReported
    match result with
    | .ok output => renderTimes id times output (log ++ reported) e
    | .error error => (.error error, log ++ reported, e)

/-- Create a template, render it a number of times, and make the text to print of the last output
and the engine. -/
def renderAndPrint (source : Source) (patch : Patch) (scope : Option Json) (times : Nat)
    (print : Text → Rendering → Text) (e : Rendering) : Outcome :=
  match e.create source patch scope with
  | (.error error, e) => { exit := 1, failure := some (.engine error), disk := e.disk }
  | (.ok id, e) =>
    let (reported, e) := e.takeReported
    match renderTimes id times [] reported e with
    | (.error error, diagnostics, e) =>
      { exit := 1, diagnostics, failure := some (.engine error), disk := e.disk }
    | (.ok output, diagnostics, e) => { stdout := print output e, diagnostics, disk := e.disk }

def statsText (e : Rendering) : Text :=
  (Json.list (e.stats.map Stats.toJson)).toSpread 0

def run (disk : Disk) (clock : Clock) (c : Command) : Outcome :=
  let e : Rendering := { disk, clock }
  let failed (failure : Failure) : Outcome := { exit := 1, failure := some failure, disk }
  match c with
  | .stats input times =>
    if times = 0 then failed .noRenders
    else renderAndPrint (.file input.toList) {} none times (fun _ e => statsText e ++ ['\n']) e
  | .render r =>
    if r.times = 0 then failed .noRenders
    else
      match loadScope disk r.scope r.scopeFile, patchOf r with
      | .error failure, _ => failed failure
      | _, .error failure => failed failure
      | .ok scope, .ok patch =>
        let source := if r.code then Source.inline r.input.toList else .file r.input.toList
        renderAndPrint source patch scope r.times (fun output _ => output ++ ['\n']) e

def usage : Text :=
  ("Render templates with embedded Lua\n\n" ++
    "Usage: notpl <COMMAND>\n\n" ++
    "Commands:\n" ++
    "  render  Render a template and print the output\n" ++
    "  stats   Render a template and print its statistics as JSON\n" ++
    "  help    Print this message\n").toList

def version : Text := "notpl 0.1.0\n".toList

def runArgs (disk : Disk) (clock : Clock) (args : List String) : Outcome :=
  match Arguments.command? args with
  | .ok command => command.run disk clock
  | .error .help => { stdout := usage, disk }
  | .error .version => { stdout := version, disk }
  | .error .invalid => { exit := 2, failure := some .arguments, disk }

end Command

end Stencil
