import Stencil.Text.Location
/-!
# Errors

What stops a render, a load or a cursor. Everything milder is a diagnostic.
-/
namespace Stencil

/-- Why a file could not be read or written. -/
inductive FileFault where
  | notFound
  | exists
  | notADirectory
  | isADirectory
  | nameTooLong
  | nulInName
  | notUtf8
deriving Repr, DecidableEq, Inhabited

def FileFault.message : FileFault → String
  | .notFound => "No such file or directory (os error 2)"
  | .exists => "File exists (os error 17)"
  | .notADirectory => "Not a directory (os error 20)"
  | .isADirectory => "Is a directory (os error 21)"
  | .nameTooLong => "File name too long (os error 36)"
  | .nulInName => "file name contained an unexpected NUL byte"
  | .notUtf8 => "stream did not contain valid UTF-8"

/-- The errors that reach a caller. -/
inductive Error where
  /-- A code region is open at the end of the source. -/
  | unterminatedCode (template : String) (missing : Text) (opened : Location)
  /-- A fragment failed to compile or to run. -/
  | execution (template message : String)
  | unreadable (path : Text) (fault : FileFault)
  | unwritable (path : Text) (fault : FileFault)
  | negativeAdvance (amount : Int)
  /-- A template was rendered after its registry was given up. -/
  | registryDropped
deriving Repr, DecidableEq, Inhabited

namespace Error

def message : Error → String
  | unterminatedCode template missing opened =>
    template ++ ": unterminated code region, missing '" ++ String.ofList missing ++
      "' (opened at " ++ toString opened.line ++ ":" ++ toString opened.column ++ ")"
  | execution template message => template ++ ": execution failed: " ++ message
  | unreadable path fault =>
    "Failed to read template '" ++ String.ofList path ++ "': " ++ fault.message
  | unwritable path fault =>
    "Failed to write output '" ++ String.ofList path ++ "': " ++ fault.message
  | negativeAdvance amount =>
    "Invalid argument: cannot advance the scanner by a negative amount (" ++ toString amount ++ ")"
  | registryDropped => "The template registry has been dropped"

end Error

end Stencil
