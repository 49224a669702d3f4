import Stencil.Fingerprint
import Stencil.History
import Stencil.Options.Basic
/-!
# Output file names

The name of an output file is put together from tokens, dashes between them, and the extension
after a dot wherever its token stands.
-/
namespace Stencil

/-- What the tokens of an output name stand for. -/
structure OutputName where
  fingerprint : String
  short : String
  stem : String
  type : RenderType
  millis : Nat
deriving Repr, DecidableEq, Inhabited

namespace OutputName

def extend (n : OutputName) (ext : String) (name : Text) (token : NameToken) : Text :=
  let part (s : String) : Text := if name.isEmpty then s.toList else name ++ '-' :: s.toList
  match token with
  | .ext => name ++ '.' :: ext.toList
  | .tid => part n.fingerprint
  | .atid => part n.short
  | .time => part (toString n.millis)
  | .filename => part n.stem
  | .type => part n.type.name

/-- The file name: its tokens, or the abbreviated fingerprint if they give nothing. -/
def fileName (n : OutputName) (o : Options) : Text :=
  let name := o.outputFormat.foldl (n.extend o.outputExt) []
  if name.isEmpty then n.short.toList else name

def path (n : OutputName) (o : Options) : Path := Path.join o.outputDir (n.fileName o)

end OutputName

end Stencil
