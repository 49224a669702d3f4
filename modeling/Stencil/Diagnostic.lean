import Stencil.Text.Location
/-!
# Diagnostics

Problems that do not stop a render. Each has a stable code and a kind, and a collector keeps those
that its reporting level shows: nothing at 0, errors at 1, warnings too at 2, notices too at 3.
-/
namespace Stencil

inductive Severity where
  | error
  | warning
  | notice
deriving Repr, DecidableEq, Inhabited

namespace Severity

/-- The lowest reporting level at which the kind is shown. -/
def level : Severity → Nat
  | .error => 1
  | .warning => 2
  | .notice => 3

def visibleAt (s : Severity) (reporting : Nat) : Bool := s.level ≤ reporting

def name : Severity → String
  | .error => "error"
  | .warning => "warning"
  | .notice => "notice"

end Severity

/-- A reported problem, with the template and the place it concerns where these are known. -/
structure Diagnostic where
  code : String
  severity : Severity
  message : String
  template : Option String := none
  location : Option Location := none
deriving Repr, DecidableEq, Inhabited

namespace Diagnostic

/-! Codes: `N-1-…` scanning, `N-2-…` options, `N-3-…` running and repair, `N-4-…` nesting. -/

def danglingStop : String := "N-1-1"
def danglingStart : String := "N-1-2"
def unterminated : String := "N-1-3"
def shortDelimiter : String := "N-2-1"
def riskyDelimiter : String := "N-2-2"
def invalidOption : String := "N-2-3"
def shorterTtl : String := "N-2-4"
def longTtl : String := "N-2-5"
def repaired : String := "N-3-1"
def executionFailed : String := "N-3-2"
def rendered : String := "N-3-3"
def includeCycle : String := "N-4-1"

def describe (d : Diagnostic) : String :=
  let place := match d.template, d.location with
    | some template, some l =>
      " (" ++ template ++ ":" ++ toString l.line ++ ":" ++ toString l.column ++ ")"
    | some template, none => " (" ++ template ++ ")"
    | none, some l => " (line " ++ toString l.line ++ ", column " ++ toString l.column ++ ")"
    | none, none => ""
  "[" ++ d.code ++ "] " ++ d.message ++ place

end Diagnostic

/-- Diagnostics in the order they were reported, those hidden by the level left out. -/
structure Collector where
  reporting : Nat
  template : Option String := none
  entries : List Diagnostic := []
deriving Repr, DecidableEq, Inhabited

namespace Collector

/-- Report a diagnostic. One without a template is stamped with the collector's. -/
def add (c : Collector) (d : Diagnostic) : Collector :=
  if d.severity.visibleAt c.reporting then
    { c with entries := c.entries ++ [{ d with template := d.template <|> c.template }] }
  else c

def error (c : Collector) (code message : String) : Collector :=
  c.add ⟨code, .error, message, none, none⟩

def warn (c : Collector) (code message : String) : Collector :=
  c.add ⟨code, .warning, message, none, none⟩

def notify (c : Collector) (code message : String) : Collector :=
  c.add ⟨code, .notice, message, none, none⟩

def errorAt (c : Collector) (code message : String) (place : Location) : Collector :=
  c.add ⟨code, .error, message, none, some place⟩

def hasErrors (c : Collector) : Bool := c.entries.any fun d => d.severity == .error

end Collector

end Stencil
