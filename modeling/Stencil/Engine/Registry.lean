import Stencil.Engine.Render
/-!
# The registry

Templates by content. What is already there is found or replaced; nothing goes away on its own.
-/
namespace Stencil

namespace Engine

variable {I : Interpreter}

/-- Find the template of a content, or create it. One that is there keeps its options and scope. -/
def create (source : Source) (patch : Patch) (scope : Option Json) (e : Engine I) :
    Except Error TemplateId × Engine I :=
  match source.load e.disk with
  | .error error => (.error error, e)
  | .ok content =>
    match e.find? (Fingerprint.ofContent content) with
    | some id => (.ok id, e)
    | none =>
      let (id, e) := e.insert source content e.defaults patch scope
      (.ok id, e)

/-- Create a template, in place of any other with its content. -/
def register (source : Source) (patch : Patch) (scope : Option Json) (e : Engine I) :
    Except Error TemplateId × Engine I :=
  match source.load e.disk with
  | .error error => (.error error, e)
  | .ok content =>
    let (id, e) := e.insert source content e.defaults patch scope
    (.ok id, e)

/-- Render the template of a content, creating it if it is not there. -/
def renderSource (source : Source) (patch : Patch) (scope : Option Json) (e : Engine I) :
    Except Error Text × Engine I :=
  match source.load e.disk with
  | .error error => (.error error, e)
  | .ok content =>
    match e.find? (Fingerprint.ofContent content) with
    | some id => (e.setScope? id scope).render id patch
    | none =>
      let (id, e) := e.insert source content e.defaults patch scope
      -- the patch is in the options of the new template already
      e.render id {}

def get? (source : Source) (e : Engine I) : Except Error (Option TemplateId) :=
  match source.load e.disk with
  | .error error => .error error
  | .ok content => .ok (e.find? (Fingerprint.ofContent content))

/-- Take a template out of the registry; it stays usable. -/
def remove (f : Fingerprint) (e : Engine I) : Option TemplateId × Engine I :=
  (e.find? f, { e with entries := e.entries.filter fun entry => entry.1 != f })

def size (e : Engine I) : Nat := e.entries.length

/-- The statistics of every template in the registry, by path and then by fingerprint. -/
def stats (e : Engine I) : List Stats :=
  (e.entries.map fun entry => (e.template entry.2).stats e.disk e.clock.now).mergeSort fun a b =>
    if a.path = b.path then a.fingerprint.hex ≤ b.fingerprint.hex else a.path ≤ b.path

/-- Give up the registry. Its templates can no longer be rendered. -/
def close (e : Engine I) : Engine I := { e with alive := false }

end Engine

end Stencil
