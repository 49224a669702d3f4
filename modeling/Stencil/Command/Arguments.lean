/-!
# Command lines

What a command line asks for. Options begin with two dashes and take their values from the arguments
that follow, or a single value after an equals sign; a lone pair of dashes ends them. What remains
is the one input of the command.
-/
namespace Stencil

structure RenderCommand where
  input : String
  /-- The input is the template itself and no path. -/
  code : Bool := false
  scope : Option String := none
  scopeFile : Option String := none
  /-- The delimiters as given, which are a pair if they were given once. -/
  delimiters : List String := []
  style : Option String := none
  reporting : Option Nat := none
  noHalt : Bool := false
  times : Nat := 1
  outputDir : Option String := none
deriving Repr, DecidableEq, Inhabited

inductive Command where
  | render (request : RenderCommand)
  | stats (input : String) (times : Nat)
deriving Repr, DecidableEq, Inhabited

/-- Why a command line gives no command. -/
inductive Refusal where
  | help
  | version
  | invalid
deriving Repr, DecidableEq, Inhabited

namespace Arguments

/-- How an option is given. -/
structure Shape where
  name : String
  values : Nat := 1
  repeatable : Bool := false
  /-- The greatest number that its value may be, if it is a number. -/
  limit : Option Nat := none
deriving Repr, DecidableEq, Inhabited

structure Reading where
  given : List (String × List String) := []
  input : Option String := none
  /-- The option of which values are still to come, and those it has. -/
  pending : Option (Shape × List String) := none
  /-- No more options follow. -/
  closed : Bool := false
deriving Repr, DecidableEq, Inhabited

/-- A number up to a limit, with an optional sign. -/
def number? (limit : Nat) (s : String) : Option Nat :=
  let (negative, digits) := match s.toList with
    | '-' :: digits => (true, digits)
    | '+' :: digits => (false, digits)
    | digits => (false, digits)
  let n := digits.foldl (fun n c => n * 10 + (c.toNat - 48)) 0
  if digits.isEmpty || !digits.all Char.isDigit || limit < n || (negative && n != 0) then none
  else some n

namespace Reading

def has (r : Reading) (name : String) : Bool := r.given.any fun g => g.1 == name

def valuesOf (r : Reading) (name : String) : List String :=
  r.given.flatMap fun g => if g.1 == name then g.2 else []

def value? (r : Reading) (name : String) : Option String := (r.valuesOf name).head?

def number? (r : Reading) (name : String) : Option Nat :=
  (r.value? name).bind (Arguments.number? (Nat.pow 2 64))

def give (r : Reading) (shape : Shape) (values : List String) : Except Refusal Reading :=
  let fits := match shape.limit with
    | some limit => values.all fun v => (Arguments.number? limit v).isSome
    | none => true
  if !fits || (r.has shape.name && !shape.repeatable) then .error .invalid
  else .ok { r with given := r.given ++ [(shape.name, values)], pending := none }

def takeInput (r : Reading) (arg : String) : Except Refusal Reading :=
  if r.input.isSome then .error .invalid else .ok { r with input := some arg }

/-- Take an option by its name, with the value attached to it, if there is one. -/
def takeOption (r : Reading) (shapes : List Shape) (name : String) (attached : Option String) :
    Except Refusal Reading :=
  match shapes.find? fun shape => shape.name == name with
  | none => .error (if name == "help" && attached.isNone then .help else .invalid)
  | some shape =>
    match attached with
    | some value => if shape.values = 1 then r.give shape [value] else .error .invalid
    | none =>
      if shape.values = 0 then r.give shape [] else .ok { r with pending := some (shape, []) }

/-- Take an argument. What looks like an option is no value. -/
def take (shapes : List Shape) (r : Reading) (arg : String) : Except Refusal Reading :=
  match r.closed, r.pending, arg.toList with
  | true, none, _ => r.takeInput arg
  -- a single hyphen is a value, with more behind it an option
  | _, some _, '-' :: _ :: _ => .error .invalid
  | _, some (shape, values), _ =>
    if values.length + 1 = shape.values then r.give shape (values ++ [arg])
    else .ok { r with pending := some (shape, values ++ [arg]) }
  | _, none, ['-', '-'] => .ok { r with closed := true }
  | _, none, '-' :: '-' :: body =>
    let name := String.ofList (body.takeWhile (· != '='))
    match body.dropWhile (· != '=') with
    | _ :: value => r.takeOption shapes name (some (String.ofList value))
    | [] => r.takeOption shapes name none
  | _, none, '-' :: letter :: _ => .error (if letter = 'h' then .help else .invalid)
  | _, none, _ => r.takeInput arg

end Reading

/-- Read the arguments of a command. -/
def read (shapes : List Shape) (args : List String) : Except Refusal (String × Reading) := do
  let r ← args.foldlM (Reading.take shapes) {}
  match r.pending, r.input with
  | none, some input => return (input, r)
  | _, _ => throw .invalid

def times : Shape := { name := "times", limit := some (Nat.pow 2 32 - 1) }

def renderShapes : List Shape :=
  [{ name := "code", values := 0 }, { name := "scope" }, { name := "scope-file" },
    { name := "delimiters", values := 2, repeatable := true }, { name := "style" },
    { name := "reporting", limit := some 255 }, { name := "no-halt", values := 0 }, times,
    { name := "output-dir" }]

def names : List String := ["render", "stats", "help"]

def command? : List String → Except Refusal Command
  | [] => .error .invalid
  | first :: args =>
    match first with
    | "render" => do
      let (input, r) ← read renderShapes args
      if r.has "scope" && r.has "scope-file" then throw .invalid
      return .render
        { input, code := r.has "code", scope := r.value? "scope", scopeFile := r.value? "scope-file"
          delimiters := r.valuesOf "delimiters", style := r.value? "style"
          reporting := r.number? "reporting", noHalt := r.has "no-halt"
          times := (r.number? "times").getD 1, outputDir := r.value? "output-dir" }
    | "stats" => do
      let (input, r) ← read [times] args
      return .stats input ((r.number? "times").getD 1)
    | "help" =>
      match args with
      | [] => .error .help
      | [name] => .error (if names.contains name then .help else .invalid)
      | _ => .error .invalid
    | "--help" => .error .help
    | "--version" => .error .version
    | first =>
      match first.toList with
      | '-' :: 'h' :: _ => .error .help
      | '-' :: 'V' :: _ => .error .version
      | _ => .error .invalid

end Arguments

end Stencil
