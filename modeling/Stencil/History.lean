/-!
# Render history

How a template's renders were produced, when, and how often. Instants and durations are in
nanoseconds; instants count from a fixed origin, which is the Unix epoch for a clock on the wall.
-/
namespace Stencil

/-- How a render produced its output: from source, from the compiled body, or from the last
output. -/
inductive RenderType where
  | full
  | partly
  | fixed
deriving Repr, DecidableEq, Inhabited

namespace RenderType

def name : RenderType → String
  | .full => "full"
  | .partly => "partial"
  | .fixed => "static"

def tag : RenderType → Char
  | .full => 'f'
  | .partly => 'p'
  | .fixed => 's'

end RenderType

/-- The renders of one template, oldest first, with what the choice of a tier consults. -/
structure History where
  /-- When the last full render began, unless it has been invalidated since. -/
  lastFull : Option Nat := none
  /-- When the last full render was recorded. -/
  lastFullAt : Option Nat := none
  lastRenderAt : Option Nat := none
  lastType : Option RenderType := none
  fullCount : Nat := 0
  partialCount : Nat := 0
  staticCount : Nat := 0
  times : List (RenderType × Nat) := []
deriving Repr, DecidableEq, Inhabited

namespace History

/-- Enter a render that began at an instant, took a duration, and is recorded at another. -/
def record (h : History) (type : RenderType) (started duration now : Nat) : History :=
  { lastFull := if type = .full then some started else h.lastFull
    lastFullAt := if type = .full then some now else h.lastFullAt
    lastRenderAt := some now
    lastType := some type
    fullCount := h.fullCount + if type = .full then 1 else 0
    partialCount := h.partialCount + if type = .partly then 1 else 0
    staticCount := h.staticCount + if type = .fixed then 1 else 0
    times := h.times ++ [(type, duration)] }

/-- Forget when the last full render began, so that the next one starts from source. -/
def invalidate (h : History) : History := { h with lastFull := none }

def sinceFull? (h : History) (now : Nat) : Option Nat := h.lastFull.map fun started => now - started

def count (h : History) : RenderType → Nat
  | .full => h.fullCount
  | .partly => h.partialCount
  | .fixed => h.staticCount

def total (h : History) : Nat := h.fullCount + h.partialCount + h.staticCount

def tags (h : History) : String := String.ofList (h.times.map fun t => t.1.tag)

end History

def nanosPerMilli : Nat := 1000000

/-- Whole milliseconds since the Unix epoch; instants before it count as the epoch. -/
def epochMillis (nanos : Int) : Nat := nanos.toNat / nanosPerMilli

end Stencil
