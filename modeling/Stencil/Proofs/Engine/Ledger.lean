import Stencil.Proofs.Diagnostic
import Stencil.Proofs.Engine.Levels
/-!
# Engines whose books are kept

A render keeps its diagnostics in logs of its own until it reports them, and a log that it leaves
behind is gone. Here every render and every call is carried out with a ledger beside the engine: what
a log accepts is entered at once, whatever becomes of the log, and so is what a render gives up with
its log. But for the ledger nothing is done differently.
-/
namespace Stencil.Engine

/-- An engine, what logs have accepted, and what was in logs that were given up. -/
structure Ledger (I : Interpreter) where
  engine : Engine I
  accepted : List Diagnostic := []
  lost : List Diagnostic := []

namespace Ledger

variable {I : Interpreter} {α : Type}

/-! ## Entries -/

/-- Change the engine alone. -/
def change (f : Engine I → Engine I) (l : Ledger I) : Ledger I := { l with engine := f l.engine }

/-- Enter what a log has accepted since it was as before. -/
def enterLog (before after : Collector) (l : Ledger I) : Ledger I :=
  { l with accepted := l.accepted ++ after.entries.drop before.entries.length }

def giveUp (log : Collector) (l : Ledger I) : Ledger I := { l with lost := l.lost ++ log.entries }

def report (log : Collector) (l : Ledger I) : Ledger I := l.change (·.report log)

section Entries

variable (f : Engine I → Engine I) (before after log : Collector) (l : Ledger I)

@[simp] theorem engine_change : (l.change f).engine = f l.engine := rfl

@[simp] theorem engine_enterLog : (l.enterLog before after).engine = l.engine := rfl

@[simp] theorem engine_giveUp : (l.giveUp log).engine = l.engine := rfl

@[simp] theorem engine_report : (l.report log).engine = l.engine.report log := rfl

end Entries

/-! ## Runs -/

def lift : Run I.State α → Ledger I → Run (Ledger I) α
  | .done shared answer, l => .done (l.change fun e => { e with shared }) answer
  | .ask shared request next, l =>
    .ask (l.change fun e => { e with shared }) request fun l reply =>
      lift (next l.engine.shared reply) l

def execute (id : TemplateId) (program : I.Program) (l : Ledger I) : Run (Ledger I) Execution :=
  lift (I.run program (l.engine.template id).scope l.engine.shared) l

def attempt (id : TemplateId) (label : String) (body : Text) (l : Ledger I) :
    Run (Ledger I) Execution :=
  match I.compile l.engine.shared label (lower body) with
  | .error message => .done l { output := [], error := some message }
  | .ok program =>
    (execute id program l).bind fun l ended =>
      .done (l.change fun e => keepProgram id program e ended) ended

def attemptRepairing (task : Task) (body : Text) (log : Collector) (l : Ledger I) :
    Run (Ledger I) (Execution × Collector) :=
  (attempt task.id task.label body l).bind fun l first =>
    let (repaired, repairs) := repair body
    if first.error.isSome && task.options.autoRepair && !repairs.isEmpty then
      (attempt task.id task.label repaired l).bind fun l second =>
        .done (l.enterLog log (warnRepaired repairs log)) (second, warnRepaired repairs log)
    else .done l (first, log)

def renderFull (task : Task) (log : Collector) (l : Ledger I) :
    Run (Ledger I) (Except Error Execution × Collector) :=
  let l := l.change (·.modify task.id fun t => { t.forgetProgram with children := [] })
  let scanned :=
    scan task.options.delimiters (l.engine.template task.id).content task.label log
  let l := l.enterLog log scanned.2
  match scanned with
  | (.error error, log) => .done l (.error error, log)
  | (.ok pieces, log) =>
    (attemptRepairing task (normalize (Body.ofPieces pieces).source) log l).bind fun l last =>
      .done (if last.1.error.isSome then l.change (·.modify task.id Template.forgetProgram) else l)
        (.ok last.1, last.2)

def renderPartly (id : TemplateId) (program : I.Program) (log : Collector) (l : Ledger I) :
    Run (Ledger I) (Except Error Execution × Collector) :=
  (execute id program l).bind fun l ended => .done l (.ok ended, log)

def produce (task : Task) (l : Ledger I) : Run (Ledger I) (Except Error Execution × Collector) :=
  let log : Collector := { reporting := task.options.reporting, template := some task.label }
  match task.type, (l.engine.template task.id).program with
  | .fixed, _ => .done l (.ok { output := (l.engine.template task.id).output, error := none }, log)
  | .partly, some program => renderPartly task.id program log l
  | _, _ => renderFull task log l

/-! ## Renders -/

def insert (source : Source) (content : Text) (base : Options) (patch : Patch) (scope : Option Json)
    (l : Ledger I) : TemplateId × Ledger I :=
  let blank : Collector := { reporting := base.reporting }
  let (options, log, _) := base.apply patch blank
  let f := Fingerprint.ofContent content
  let id := l.engine.templates.length
  let t : Template I :=
    { source, content, fingerprint := f, created := l.engine.clock.now, options
      scope := scope.getD .null }
  (id, ((l.enterLog blank log).report log).change fun e =>
    { e.tick with templates := e.templates ++ [t]
                  entries := (e.entries.filter fun entry => entry.1 != f) ++ [(f, id)] })

def applyPatch (id : TemplateId) (patch : Patch) (label : String) (l : Ledger I) :
    Bool × Ledger I :=
  let before := (l.engine.template id).options
  let blank : Collector := { reporting := before.reporting, template := some label }
  let (options, log, changed) := before.apply patch blank
  (changed,
    ((l.change (·.modify id fun t => { t with options })).enterLog blank log).report log)

def enter (again : Bool) (id : TemplateId) (patch : Patch) (l : Ledger I) : Task × Ledger I :=
  let started := l.engine.clock.now
  let label := l.engine.label id
  let (changed, l) := (l.change (·.tick)).applyPatch id patch label
  let t := l.engine.template id
  ({ id, options := t.options, label, type := chooseType t again changed started, started },
    l.change (·.modify id fun t => { t with rendering := true }))

def complete (task : Task) (raw : Text) (l : Ledger I) : Except Error Text × Ledger I :=
  let output := task.style raw
  let now := l.engine.clock.now
  let l := l.change fun e => e.tick.modify task.id (task.record raw now)
  let blank : Collector := { reporting := task.options.reporting, template := some task.label }
  let log := blank.notify Diagnostic.rendered
    ("Rendered " ++ task.type.name ++ " in " ++ millisText (now - task.started) ++ "ms")
  let l := (l.enterLog blank log).report log
  if task.options.output then
    let written := l.engine.writeOutput task output
    (written.1.map fun _ => output, l.change fun _ => written.2)
  else (.ok output, l)

def finish (task : Task) (l : Ledger I) :
    Except Error Execution × Collector → Except Error Text × Ledger I
  | (.error error, log) => (.error error, (l.change (·.modify task.id task.release)).report log)
  | (.ok ended, log) =>
    let settled := task.settle log ended
    let l := ((l.change (·.modify task.id task.release)).enterLog log settled.2).report settled.2
    match settled.1 with
    | .error error => (.error error, l)
    | .ok raw => complete task raw l

def noteCycle (parent child : TemplateId) (log : Collector) (l : Ledger I) :
    Collector × Ledger I :=
  let noted := Engine.noteCycle parent child log l.engine
  (noted.1, (l.enterLog log noted.1).change fun _ => noted.2)

/-- Resolve a nested render. Where its source cannot be loaded, what its options were written with is
given up. -/
def resolve (parent : TemplateId) (request : Request) (l : Ledger I) : Resolution × Ledger I :=
  let t := l.engine.template parent
  let blank : Collector :=
    { reporting := t.options.reporting, template := some (l.engine.label parent) }
  let (patch, log) := Patch.ofJson (request.options.getD .null) blank
  let l := l.enterLog blank log
  let source := t.childSource (patch.code.getD t.options.code) request.source
  match source.load l.engine.disk with
  | .error error => (.reply (.error error), l.giveUp log)
  | .ok content =>
    let f := Fingerprint.ofContent content
    let l := l.change (·.modify parent fun t => t.addChild f)
    match l.engine.find? f with
    | some child =>
      if (l.engine.template child).hasChild t.fingerprint ||
          (l.engine.template child).rendering then
        let (log, l) := noteCycle parent child log l
        let l := l.report log
        let given := renderStatic child l.engine
        (.reply (.ok given.1), l.change fun _ => given.2)
      else (.render child patch, (l.report log).change (·.setScope? child request.scope))
    | none =>
      let (child, l) := (l.report log).insert source content t.childOptions {} none
      (.render child patch, l.change (·.setScope? child request.scope))

def drive (nested : Request → Ledger I → Except Error Text × Ledger I) :
    Run (Ledger I) α → α × Ledger I
  | .done l answer => (answer, l)
  | .ask l request next =>
    let (reply, l) := nested request l
    drive nested (next l (reply.mapError Error.message))

def renderTo : Nat → List TemplateId → Bool → TemplateId → Patch → Ledger I →
    Except Error Text × Ledger I
  | 0, _, _, id, _, l => (.error (.execution (l.engine.label id) tooDeep), l)
  | depth + 1, outer, again, id, patch, l =>
    if (l.engine.template id).rendering then (.ok (l.engine.template id).output, l)
    else if !l.engine.alive then (.error .registryDropped, l)
    else
      let (task, l) := enter again id patch l
      let nested (request : Request) (l : Ledger I) :=
        match resolve (requester (id :: outer) request) request l with
        | (.reply reply, l) => (reply, l)
        | (.render child patch, l) => renderTo depth (id :: outer) false child patch l
      let (answer, l) := drive nested (produce task l)
      finish task l answer

/-! ## Calls -/

def create (source : Source) (patch : Patch) (scope : Option Json) (l : Ledger I) :
    Except Error TemplateId × Ledger I :=
  match source.load l.engine.disk with
  | .error error => (.error error, l)
  | .ok content =>
    match l.engine.find? (Fingerprint.ofContent content) with
    | some id => (.ok id, l)
    | none =>
      let (id, l) := l.insert source content l.engine.defaults patch scope
      (.ok id, l)

def register (source : Source) (patch : Patch) (scope : Option Json) (l : Ledger I) :
    Except Error TemplateId × Ledger I :=
  match source.load l.engine.disk with
  | .error error => (.error error, l)
  | .ok content =>
    let (id, l) := l.insert source content l.engine.defaults patch scope
    (.ok id, l)

def renderSource (source : Source) (patch : Patch) (scope : Option Json) (l : Ledger I) :
    Except Error Text × Ledger I :=
  match source.load l.engine.disk with
  | .error error => (.error error, l)
  | .ok content =>
    match l.engine.find? (Fingerprint.ofContent content) with
    | some id => renderTo maxDepth [] false id patch (l.change (·.setScope? id scope))
    | none =>
      let (id, l) := l.insert source content l.engine.defaults patch scope
      renderTo maxDepth [] false id {} l

/-- Answer a call. Those that keep no log are answered by the engine alone. -/
def perform (l : Ledger I) : Call → Answer I × Ledger I
  | .create source patch scope =>
    let called := create source patch scope l
    (.created called.1, called.2)
  | .register source patch scope =>
    let called := register source patch scope l
    (.created called.1, called.2)
  | .renderSource source patch scope =>
    let called := renderSource source patch scope l
    (.text called.1, called.2)
  | .render id patch =>
    let called := renderTo maxDepth [] false id patch l
    (.text called.1, called.2)
  | .update id =>
    let called := renderTo maxDepth [] true id {} l
    (.text called.1, called.2)
  | call =>
    let called := Engine.perform l.engine call
    (called.1, l.change fun _ => called.2)

def session (l : Ledger I) : List Call → List (Answer I) × Ledger I
  | [] => ([], l)
  | call :: calls =>
    let called := perform l call
    let rest := session called.2 calls
    (called.1 :: rest.1, rest.2)

end Ledger

end Stencil.Engine
