import Stencil.Template
/-!
# Engines

An engine holds templates, the registry that finds them by content, the diagnostics reported so
far, and what all fragments share. Templates are known by their place and stay usable when the
registry no longer finds them.
-/
namespace Stencil

/-- A clock, given by its readings in nanoseconds and how many have been taken. -/
structure Clock where
  reading : Nat → Nat := fun _ => 0
  taken : Nat := 0

namespace Clock

instance : Inhabited Clock := ⟨{}⟩

def now (c : Clock) : Nat := c.reading c.taken

def tick (c : Clock) : Clock := { c with taken := c.taken + 1 }

/-- The clock after a pause. -/
def wait (c : Clock) (nanos : Nat) : Clock := { c with reading := fun n => c.reading n + nanos }

end Clock

/-- The place of a template in its engine. -/
abbrev TemplateId := Nat

structure Engine (I : Interpreter) where
  /-- What the programs of all templates share. -/
  shared : I.State := I.initial
  templates : List (Template I) := []
  /-- The templates that the registry finds by their content. -/
  entries : List (Fingerprint × TemplateId) := []
  /-- The registry has not been given up. -/
  alive : Bool := true
  defaults : Options := {}
  /-- The diagnostics reported since they were last taken. -/
  reported : List Diagnostic := []
  clock : Clock := {}
  disk : Disk := {}

namespace Engine

variable {I : Interpreter}

def template (e : Engine I) (id : TemplateId) : Template I := e.templates.getD id default

def modify (e : Engine I) (id : TemplateId) (f : Template I → Template I) : Engine I :=
  { e with templates := e.templates.modify id f }

def setScope (e : Engine I) (id : TemplateId) (scope : Json) : Engine I :=
  e.modify id fun t => { t with scope }

def setScope? (e : Engine I) (id : TemplateId) (scope : Option Json) : Engine I :=
  match scope with
  | some scope => e.setScope id scope
  | none => e

/-- What messages call the template at a place. -/
def label (e : Engine I) (id : TemplateId) : String := (e.template id).label e.disk

def report (e : Engine I) (log : Collector) : Engine I :=
  { e with reported := e.reported ++ log.entries }

def takeReported (e : Engine I) : List Diagnostic × Engine I :=
  (e.reported, { e with reported := [] })

def tick (e : Engine I) : Engine I := { e with clock := e.clock.tick }

def find? (e : Engine I) (f : Fingerprint) : Option TemplateId :=
  (e.entries.find? fun entry => entry.1 == f).map (·.2)

/-- Put a new template in, in place of any other with its content. -/
def insert (e : Engine I) (source : Source) (content : Text) (base : Options) (patch : Patch)
    (scope : Option Json) : TemplateId × Engine I :=
  let (options, log, _) := base.apply patch { reporting := base.reporting }
  let f := Fingerprint.ofContent content
  let id := e.templates.length
  let t : Template I :=
    { source, content, fingerprint := f, created := e.clock.now, options
      scope := scope.getD .null }
  let e := (e.report log).tick
  -- a template that is replaced keeps its place, for those who still hold it
  (id, { e with templates := e.templates ++ [t]
                entries := (e.entries.filter fun entry => entry.1 != f) ++ [(f, id)] })

end Engine

end Stencil
