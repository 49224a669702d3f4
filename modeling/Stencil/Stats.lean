import Stencil.Fingerprint
import Stencil.History
import Stencil.Options.Writer
/-!
# Statistics

What a template's history amounts to at one moment.
-/
namespace Stencil

/-- A snapshot of a template: how it was rendered, and with which options last. -/
structure Stats where
  path : String
  fingerprint : Fingerprint
  created : Nat
  lifetime : Nat
  history : History
  options : Options
deriving Repr, DecidableEq, Inhabited

namespace Stats

def lastDuration? (s : Stats) : Option Nat := s.history.times.getLast?.map (·.2)

/-- A duration as an object of whole seconds and nanoseconds. -/
def durationJson (nanos : Nat) : Json :=
  .object [("secs", .int (nanos / 1000000000 : Nat)), ("nanos", .int (nanos % 1000000000 : Nat))]

/-- An instant as milliseconds since the Unix epoch. -/
def instantJson (nanos : Nat) : Json := .int (epochMillis nanos)

def optionalJson {α : Type} (write : α → Json) (value : Option α) : Json :=
  (value.map write).getD .null

def toJson (s : Stats) : Json :=
  let h := s.history
  .object [
    ("path", .string s.path),
    ("fingerprint", .string s.fingerprint.hex),
    ("created_at_ms", instantJson s.created),
    ("lifetime", durationJson s.lifetime),
    ("last_full_render_ms", optionalJson instantJson h.lastFullAt),
    ("last_render_ms", optionalJson instantJson h.lastRenderAt),
    ("last_render_type", optionalJson (fun type => .string (RenderType.name type)) h.lastType),
    ("full_renders", .int h.fullCount),
    ("partial_renders", .int h.partialCount),
    ("static_renders", .int h.staticCount),
    ("last_render_duration", optionalJson durationJson s.lastDuration?),
    ("render_times", .list (h.times.map fun t =>
      .object [("duration", durationJson t.2), ("render_type", .string t.1.name)])),
    ("render_options", s.options.toJson)]

end Stats

end Stencil
