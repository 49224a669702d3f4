import Stencil.Json.Basic
import Stencil.Options.Basic
/-!
# Patches from JSON

A patch written as a JSON object. Keys may be in snake case or camel case; an unknown key or a
value of the wrong kind is reported and skipped. Entries are read in the order of their keys as
written.
-/
namespace Stencil.Patch

def snakeCase (key : String) : String :=
  String.ofList (key.toList.flatMap fun c => if c.isUpper then ['_', c.toLower] else [c])

/-- A value read for an option, or the words for what was expected instead. -/
abbrev Reading (α : Type) := Except String α

def readText (value : Json) : Reading Text :=
  match value with
  | .string s => .ok s.toList
  | _ => .error "a string"

def readString (value : Json) : Reading String :=
  match value with
  | .string s => .ok s
  | _ => .error "a string"

def readBool (value : Json) : Reading Bool :=
  match value with
  | .bool b => .ok b
  | _ => .error "a boolean"

def readTtl (value : Json) : Reading Nat :=
  match value.asWord? with
  | some n => .ok n
  | none => .error "a non-negative integer"

def readLevel (value : Json) : Reading Nat :=
  match value.asWord?.filter (· ≤ Options.maxReporting) with
  | some level => .ok level
  | none => .error "a reporting level from 0 to 3"

def readTokens (value : Json) : Reading (List NameToken) :=
  match value with
  | .list items =>
    match items.mapM fun item => item.asString?.bind NameToken.ofName? with
    | some tokens => .ok tokens
    | none => .error "tokens among tid, atid, time, filename, type, ext"
  | _ => .error "a list of filename tokens"

/-- Set one option from its entry. A value of the wrong kind is reported and leaves it unset. -/
def setField {α : Type} (log : Collector) (key : String) (value : Json) (reading : Reading α)
    (set : Option α → Patch) : Patch × Collector :=
  match reading with
  | .ok v => (set (some v), log)
  | .error expected =>
    (set none, log.warn Diagnostic.invalidOption
      ("Ignoring option '" ++ key ++ "': expected " ++ expected ++ ", found " ++ value.kind))

/-- Take in one entry, its key in snake case. -/
def setEntry (p : Patch) (log : Collector) (key : String) (value : Json) : Patch × Collector :=
  match key with
  | "delimiter_start" =>
    setField log key value (readText value) fun v => { p with delimiterStart := v }
  | "delimiter_stop" =>
    setField log key value (readText value) fun v => { p with delimiterStop := v }
  | "reporting" => setField log key value (readLevel value) fun v => { p with reporting := v }
  | "style" =>
    setField log key value (readString value) fun v => { p with style := v.map Style.ofName }
  | "halt_on_error" =>
    setField log key value (readBool value) fun v => { p with haltOnError := v }
  | "full_cache_ttl" => setField log key value (readTtl value) fun v => { p with fullTtl := v }
  | "partial_cache_ttl" =>
    setField log key value (readTtl value) fun v => { p with partialTtl := v }
  | "output" => setField log key value (readBool value) fun v => { p with output := v }
  | "output_format" =>
    setField log key value (readTokens value) fun v => { p with outputFormat := v }
  | "output_ext" => setField log key value (readString value) fun v => { p with outputExt := v }
  | "output_dir" => setField log key value (readText value) fun v => { p with outputDir := v }
  | "force_full_render" =>
    setField log key value (readBool value) fun v => { p with forceFull := v }
  | "code" => setField log key value (readBool value) fun v => { p with code := v }
  | "name" => setField log key value (readString value) fun v => { p with name := v }
  | "use_absolute_paths" =>
    setField log key value (readBool value) fun v => { p with absolutePaths := v }
  | "auto_repair" => setField log key value (readBool value) fun v => { p with autoRepair := v }
  | _ => (p, log.warn Diagnostic.invalidOption ("Ignoring unknown option '" ++ key ++ "'"))

/-- The patch that a JSON value writes. -/
def ofJson (value : Json) (log : Collector) : Patch × Collector :=
  match value with
  | .null => ({}, log)
  | .object fields =>
    fields.foldl (fun (p, log) (key, value) => setEntry p log (snakeCase key) value) ({}, log)
  | other =>
    ({}, log.warn Diagnostic.invalidOption
      ("Ignoring options: expected an object, found " ++ other.kind))

end Stencil.Patch
