import Stencil.History
import Stencil.Options.Basic
/-!
# Tiers

Which of the three ways of rendering is taken: the last output as it is, the compiled body once
more, or everything from source.
-/
namespace Stencil

/-- Choose a tier. While the last full render is younger than a tier's time to live, that tier
serves; what is not compiled, or no longer fits the delimiters, is rendered from source. -/
def RenderType.choose (h : History) (compiled : Bool) (o : Options) (delimitersChanged : Bool)
    (now : Nat) : RenderType :=
  if o.forceFull || delimitersChanged || !compiled then .full
  else
    match h.sinceFull? now with
    | none => .full
    | some elapsed =>
      if elapsed < o.fullTtl * nanosPerMilli then .fixed
      else if elapsed < o.partialTtl * nanosPerMilli then .partly
      else .full

end Stencil
