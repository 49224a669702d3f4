import Stencil.Body
import Stencil.Engine.Basic
import Stencil.Lower
import Stencil.Normalize
import Stencil.Options.Reader
import Stencil.OutputName
import Stencil.Repair
import Stencil.Tier
/-!
# Rendering

A render applies its patch, chooses a tier, produces text, styles it and enters the result. Programs
ask for nested renders, which go through the same steps one level deeper. A template that is being
rendered is never entered again: its last output stands in for it.
-/
namespace Stencil

namespace Engine

variable {I : Interpreter}

/-- A render of one template, with what is settled when it begins. -/
structure Task where
  id : TemplateId
  options : Options
  label : String
  type : RenderType
  started : Nat
deriving Repr, Inhabited

/-- A run over what programs share, as a run over the whole engine. -/
def lift {α : Type} : Run I.State α → Engine I → Run (Engine I) α
  | .done shared answer, e => .done { e with shared } answer
  | .ask shared request next, e =>
    .ask { e with shared } request fun e reply => lift (next e.shared reply) e

def execute (id : TemplateId) (program : I.Program) (e : Engine I) : Run (Engine I) Execution :=
  lift (I.run program (e.template id).scope e.shared) e

/-- Keep a program that ran well. -/
def keepProgram (id : TemplateId) (program : I.Program) (e : Engine I) (ended : Execution) :
    Engine I :=
  if ended.error.isNone then e.modify id fun t => { t with program := some program } else e

/-- Compile and run a body for a template, which keeps the program if all went well. -/
def attempt (id : TemplateId) (label : String) (body : Text) (e : Engine I) :
    Run (Engine I) Execution :=
  match I.compile e.shared label (lower body) with
  | .error message => .done e { output := [], error := some message }
  | .ok program =>
    (execute id program e).bind fun e ended => .done (keepProgram id program e ended) ended

def warnRepaired (repairs : List Repair) (log : Collector) : Collector :=
  repairs.foldl (fun log fix => log.warn Diagnostic.repaired
    ("Inserted a missing '\x7b' after `" ++ String.ofList fix.head ++ "`")) log

/-- Run a body; where that fails and repair finds braces to put in, run the repaired one. -/
def attemptRepairing (task : Task) (body : Text) (log : Collector) (e : Engine I) :
    Run (Engine I) (Execution × Collector) :=
  (attempt task.id task.label body e).bind fun e first =>
    let (repaired, repairs) := repair body
    if first.error.isSome && task.options.autoRepair && !repairs.isEmpty then
      -- what the first run did to the state stays, and the second one counts even if it fails
      (attempt task.id task.label repaired e).bind fun e second =>
        .done e (second, warnRepaired repairs log)
    else .done e (first, log)

/-- Render a template from its content. -/
def renderFull (task : Task) (log : Collector) (e : Engine I) :
    Run (Engine I) (Except Error Execution × Collector) :=
  let e := e.modify task.id fun t => { t.forgetProgram with children := [] }
  match scan task.options.delimiters (e.template task.id).content task.label log with
  | (.error error, log) => .done e (.error error, log)
  | (.ok pieces, log) =>
    (attemptRepairing task (normalize (Body.ofPieces pieces).source) log e).bind fun e last =>
      .done (if last.1.error.isSome then e.modify task.id Template.forgetProgram else e)
        (.ok last.1, last.2)

/-- Run the compiled program of a template once more. -/
def renderPartly (id : TemplateId) (program : I.Program) (log : Collector) (e : Engine I) :
    Run (Engine I) (Except Error Execution × Collector) :=
  (execute id program e).bind fun e ended => .done e (.ok ended, log)

def produce (task : Task) (e : Engine I) : Run (Engine I) (Except Error Execution × Collector) :=
  let log : Collector := { reporting := task.options.reporting, template := some task.label }
  match task.type, (e.template task.id).program with
  | .fixed, _ => .done e (.ok { output := (e.template task.id).output, error := none }, log)
  | .partly, some program => renderPartly task.id program log e
  | _, _ => renderFull task log e

/-- The way a template is rendered: the one asked for if there is a program to run, or else by its
history. -/
def chooseType (t : Template I) (again delimitersChanged : Bool) (now : Nat) : RenderType :=
  if again && t.program.isSome then .partly
  else RenderType.choose t.history t.program.isSome t.options delimitersChanged now

/-- Nanoseconds as milliseconds with three places. -/
def millisText (nanos : Nat) : String :=
  let micros := (nanos + 500) / 1000
  let places := toString (micros % 1000)
  toString (micros / 1000) ++ "." ++ String.ofList (List.replicate (3 - places.length) '0') ++
    places

def writeOutput (task : Task) (output : Text) (e : Engine I) : Except Error Unit × Engine I :=
  let t := e.template task.id
  let name : OutputName :=
    { fingerprint := t.fingerprint.hex, short := t.fingerprint.short
      stem := t.outputStem task.options, type := task.type, millis := epochMillis e.clock.now }
  match e.disk.write (name.path task.options) output.toBytes with
  | .ok disk => (.ok (), { e.tick with disk })
  | .error error => (.error error, e.tick)

/-- The output that a text makes: styled, unless it is the last output as it was. -/
def Task.style (task : Task) (raw : Text) : Text :=
  if task.type = .fixed then raw else task.options.style.apply raw

/-- A template after a render that produced text: the output is kept and the render counted. -/
def Task.record (task : Task) (raw : Text) (now : Nat) (t : Template I) : Template I :=
  { t with
    output := task.style raw
    history := t.history.record task.type task.started (now - task.started) now
    lastOptions := some task.options }

/-- Enter a render that produced text: style it, keep it, count it, announce it, and write it where
that is wanted. -/
def complete (task : Task) (raw : Text) (e : Engine I) : Except Error Text × Engine I :=
  let output := task.style raw
  let now := e.clock.now
  -- from here on the render counts, whether or not its output can be written
  let e := e.tick.modify task.id (task.record raw now)
  let log : Collector := { reporting := task.options.reporting, template := some task.label }
  let e := e.report (log.notify Diagnostic.rendered
    ("Rendered " ++ task.type.name ++ " in " ++ millisText (now - task.started) ++ "ms"))
  if task.options.output then
    match e.writeOutput task output with
    | (.ok (), e) => (.ok output, e)
    | (.error error, e) => (.error error, e)
  else (.ok output, e)

/-- What an execution amounts to: its text, or where it failed, an error if failures halt, and else
what it emitted and a diagnostic. -/
def Task.settle (task : Task) (log : Collector) (ended : Execution) :
    Except Error Text × Collector :=
  match ended.error with
  | none => (.ok ended.output, log)
  | some message =>
    if task.options.haltOnError then (.error (.execution task.label message), log)
    else (.ok ended.output, log.error Diagnostic.executionFailed message)

/-- A template whose render has ended. What forced a full render does so once. -/
def Task.release (task : Task) (t : Template I) : Template I :=
  { t with
    rendering := false
    options := if task.options.forceFull then { t.options with forceFull := false } else t.options }

/-- End a render with what its way of rendering came to. -/
def finish (task : Task) (e : Engine I) :
    Except Error Execution × Collector → Except Error Text × Engine I
  | (.error error, log) => (.error error, (e.modify task.id task.release).report log)
  | (.ok ended, log) =>
    match task.settle log ended with
    | (.error error, log) => (.error error, (e.modify task.id task.release).report log)
    | (.ok raw, log) => complete task raw ((e.modify task.id task.release).report log)

/-- Apply a patch to the options of a template. Tells whether the delimiters changed. -/
def applyPatch (id : TemplateId) (patch : Patch) (label : String) (e : Engine I) :
    Bool × Engine I :=
  let before := (e.template id).options
  let (options, log, changed) :=
    before.apply patch { reporting := before.reporting, template := some label }
  (changed, (e.modify id fun t => { t with options }).report log)

/-- Begin to render a template that is not being rendered. Whether another run of its program is
asked for comes before the patch. -/
def enter (again : Bool) (id : TemplateId) (patch : Patch) (e : Engine I) : Task × Engine I :=
  let started := e.clock.now
  let label := e.label id
  let (changed, e) := e.tick.applyPatch id patch label
  let t := e.template id
  ({ id, options := t.options, label, type := chooseType t again changed started, started },
    e.modify id fun t => { t with rendering := true })

/-- Give the last output of a template, which counts as a render unless one is under way. -/
def renderStatic (id : TemplateId) (e : Engine I) : Text × Engine I :=
  let t := e.template id
  if t.rendering then (t.output, e)
  else
    -- one reading for the beginning and one for the end
    let started := e.clock.now
    let now := e.tick.clock.now
    (t.output, e.tick.tick.modify id fun t =>
      { t with history := t.history.record .fixed started (now - started) now })

/-- Note that a template includes a child that includes it, with a warning the first time. -/
def noteCycle (parent child : TemplateId) (log : Collector) (e : Engine I) : Collector × Engine I :=
  let f := (e.template child).fingerprint
  if (e.template parent).warned.contains f then (log, e)
  else
    let name := e.label child
    (log.warn Diagnostic.includeCycle
      (e.label parent ++ " and " ++ name ++ " include each other; using the last output of " ++
        name),
      e.modify parent fun t => { t with warned := f :: t.warned })

/-- What comes of a request: a reply at once, or a render of a child. -/
inductive Resolution where
  | reply (text : Except Error Text)
  | render (child : TemplateId) (patch : Patch)

/-- Resolve a nested render that a running template asks for. A child that includes the template, or
that is being rendered itself, is not run. -/
def resolve (parent : TemplateId) (request : Request) (e : Engine I) : Resolution × Engine I :=
  let t := e.template parent
  let (patch, log) := Patch.ofJson (request.options.getD .null)
    { reporting := t.options.reporting, template := some (e.label parent) }
  let source := t.childSource (patch.code.getD t.options.code) request.source
  match source.load e.disk with
  | .error error => (.reply (.error error), e)
  | .ok content =>
    let f := Fingerprint.ofContent content
    -- noted before the test for a cycle, so that a template that names itself fails it
    let e := e.modify parent fun t => t.addChild f
    match e.find? f with
    | some child =>
      if (e.template child).hasChild t.fingerprint || (e.template child).rendering then
        let (log, e) := noteCycle parent child log e
        let (output, e) := renderStatic child (e.report log)
        (.reply (.ok output), e)
      else (.render child patch, (e.report log).setScope? child request.scope)
    | none =>
      -- the patch waits for the render, which applies it
      let (child, e) := (e.report log).insert source content t.childOptions {} none
      (.render child patch, e.setScope? child request.scope)

/-- The template whose run lent its `render` to a fragment, among those being rendered, innermost
first. -/
def requester (running : List TemplateId) (request : Request) : TemplateId :=
  running.getD request.owner (running.headD 0)

/-- Drive a run, answering what it asks for. -/
def drive {α : Type} (nested : Request → Engine I → Except Error Text × Engine I) :
    Run (Engine I) α → α × Engine I
  | .done e answer => (answer, e)
  | .ask e request next =>
    let (reply, e) := nested request e
    drive nested (next e (reply.mapError Error.message))

def tooDeep : String := "runtime error: C stack overflow"

/-- Render a template inside others, the innermost first, with renders nested to less than the given
depth. -/
def renderTo : Nat → List TemplateId → Bool → TemplateId → Patch → Engine I →
    Except Error Text × Engine I
  | 0, _, _, id, _, e => (.error (.execution (e.label id) tooDeep), e)
  | depth + 1, outer, again, id, patch, e =>
    if (e.template id).rendering then (.ok (e.template id).output, e)
    else if !e.alive then (.error .registryDropped, e)
    else
      let (task, e) := enter again id patch e
      let nested (request : Request) (e : Engine I) :=
        match resolve (requester (id :: outer) request) request e with
        | (.reply reply, e) => (reply, e)
        | (.render child patch, e) => renderTo depth (id :: outer) false child patch e
      let (answer, e) := drive nested (produce task e)
      finish task e answer

def maxDepth : Nat := 200

def render (id : TemplateId) (patch : Patch) (e : Engine I) : Except Error Text × Engine I :=
  renderTo maxDepth [] false id patch e

/-- Run the program of a template once more, or render it from source if it has none. -/
def update (id : TemplateId) (e : Engine I) : Except Error Text × Engine I :=
  renderTo maxDepth [] true id {} e

end Engine

end Stencil
