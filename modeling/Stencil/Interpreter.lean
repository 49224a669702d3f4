import Stencil.Json.Basic
import Stencil.Text.Blank
/-!
# Interpreters of fragments

What rendering needs of a fragment language: bodies compile to programs, and a program run with a
scope emits text. A run may ask for nested renders on its way. It is given as a tree, so whatever
the language, a run can only emit, fail and ask.
-/
namespace Stencil

/-- A nested render that a running fragment asks for. -/
structure Request where
  source : Text
  options : Option Json
  scope : Option Json
  /-- How many runs further out the one is that lent its `render` to the fragment; a fragment's own
  run is none further. -/
  owner : Nat := 0
deriving Repr, Inhabited

/-- A run over the state of an interpreter: it ends with an answer, or it asks for a nested render
and goes on with the state and the reply that come back. -/
inductive Run (σ α : Type) : Type where
  | done (state : σ) (answer : α)
  | ask (state : σ) (request : Request) (next : σ → Except String Text → Run σ α)

namespace Run

variable {σ α β : Type}

def bind : Run σ α → (σ → α → Run σ β) → Run σ β
  | .done s a, k => k s a
  | .ask s request next, k => .ask s request fun s reply => (next s reply).bind k

end Run

/-- What a program emitted before it ended, and why it failed, if it did. -/
structure Execution where
  output : Text
  error : Option String
deriving Repr, DecidableEq, Inhabited

/-- A fragment language. -/
structure Interpreter where
  /-- What all programs of one interpreter share. -/
  State : Type
  Program : Type
  initial : State
  /-- Compile a source text under a name that error messages show. What is under way may leave less
  room for a deep text. -/
  compile : State → (name : String) → (source : Text) → Except String Program
  run : Program → Json → State → Run State Execution

end Stencil
