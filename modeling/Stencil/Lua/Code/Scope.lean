import Stencil.Lua.Code.Draft
/-!
# Variables, blocks and labels of drafts

A name stands for the innermost variable of that name, for an outer variable of the function, or for
a field of the global table. A jump goes to a label of a block that is still open, or waits for one;
it may leave the scope of variables and never enters it.
-/
namespace Stencil.Lua

inductive Meaning where
  | register (r : Nat) (readOnly : Bool)
  | outer (i : Nat) (readOnly : Bool)
  | fixed (value : Literal)
  | global
deriving Repr

namespace Draft

/-- The variable of a name, with the number of variables outside it. -/
def find? (d : Draft) (id : String) : Option (Nat × Binding) :=
  (d.visible.findIdx? fun v => v.1 == id).map fun i =>
    (d.visible.length - 1 - i, (d.visible.getD i default).2)

/-- Note that functions share a variable, given the number of variables outside it. -/
def share (depth : Nat) : List Scope → List Scope
  | [] => []
  | b :: rest =>
    if depth < b.depth then b :: share depth rest else { b with shared := true } :: rest

def captureLimit : Nat := 255

def capture (d : Draft) (c : Capture) : Option (Meaning × Draft) :=
  if d.captures.size < captureLimit then
    some (.outer d.captures.size c.readOnly, { d with captures := d.captures.push c })
  else none

/-- What a name stands for in the first of some functions inside each other, innermost first. It may
become an outer variable of functions on the way. -/
def resolve (id : String) (inside : Bool) : List Draft → Option (Meaning × List Draft)
  | [] => some (.global, [])
  | d :: around =>
    match d.find? id with
    | some (_, .fixed v) => some (.fixed v, d :: around)
    | some (depth, .register r readOnly _) =>
      some (.register r readOnly,
        (if inside then { d with scopes := share depth d.scopes } else d) :: around)
    | none =>
      match d.captures.findIdx? fun c => c.name == id with
      | some i => some (.outer i (d.captures.getD i default).readOnly, d :: around)
      | none => do
        let (meaning, around) ← resolve id true around
        match meaning with
        | .register r readOnly =>
          let (meaning, d) ← d.capture { name := id, inRegister := true, index := r, readOnly }
          return (meaning, d :: around)
        | .outer i readOnly =>
          let (meaning, d) ← d.capture { name := id, inRegister := false, index := i, readOnly }
          return (meaning, d :: around)
        | meaning => return (meaning, d :: around)

end Draft

namespace Emit

def resolve (id : String) : Emit Meaning := do
  let s ← get
  match Draft.resolve id false (s.current :: s.around) with
  | some (meaning, current :: around) =>
    set { s with current, around }
    return meaning
  | _ => giveUp

/-! ## Variables -/

def variableLimit : Nat := 200

def declare (count : Nat) : Emit Unit := do
  if variableLimit < (← draft).visible.length + count then giveUp

/-- Bring a variable into scope, in the register after those of the others. -/
def activate (id : String) (kind : Attribute) : Emit Unit :=
  change fun d =>
    let binding := .register d.variableRegisters (kind != .regular) d.names.size
    { d with
      visible := (id, binding) :: d.visible
      names := d.names.push { name := id, first := d.instrs.size, stop := 0 } }

def activateFixed (id : String) (value : Literal) : Emit Unit :=
  change fun d => { d with visible := (id, .fixed value) :: d.visible }

def endNames (stop : Nat) (names : Array VariableName) :
    List (String × Binding) → Array VariableName
  | [] => names
  | (_, .register _ _ i) :: rest =>
    endNames stop (names.modify i fun n => { n with stop }) rest
  | _ :: rest => endNames stop names rest

def leaveVariables (depth : Nat) : Emit Unit :=
  change fun d =>
    let count := d.visible.length - depth
    { d with
      visible := d.visible.drop count
      names := endNames d.instrs.size d.names (d.visible.take count) }

def markClosing : Emit Unit :=
  change fun d => { d with
    scopes := match d.scopes with
      | [] => []
      | b :: rest => { b with shared := true, closing := true } :: rest }

/-! ## Labels -/

def findLabel? (d : Draft) (id : String) : Option Label :=
  d.scopes.findSome? fun b => b.labels.find? fun l => l.name == id

/-- Let a jump wait for a label of the innermost block. -/
def await (id : String) (jumps : List Nat) : Emit Unit :=
  change fun d => { d with
    scopes := match d.scopes with
      | [] => []
      | b :: rest =>
        { b with
          leaps := b.leaps ++ [{ target := id, jumps, depth := d.visible.length
                                 closes := false }] } :: rest }

/-- Put a label at the next instruction, and let the jumps that wait for it go there. Tells whether
they leave the scope of a variable that functions share. -/
def putLabel (id : String) (last : Bool) : Emit Bool := do
  let target ← mark
  let d ← draft
  match d.scopes with
  | [] => giveUp
  | b :: rest =>
    let depth := if last then b.depth else d.visible.length
    let (mine, others) := b.leaps.partition fun leap => leap.target == id
    -- no jump leads into the scope of a variable
    if mine.any fun leap => leap.depth < depth then giveUp
    change fun d => { d with
      scopes := { b with
        labels := { name := id, target, depth } :: b.labels, leaps := others } :: rest }
    mine.forM fun leap => patch leap.jumps target
    if mine.any (·.closes) then
      let _ ← emit (.close (← draft).variableRegisters)
      return true
    else return false

/-- What the text of a `break` waits for. -/
def breakLabel : String := "break"

/-! ## Blocks -/

def openScope (isLoop : Bool) : Emit Unit :=
  change fun d => { d with
    scopes := { isLoop, depth := d.visible.length, labels := [], leaps := [], shared := false
                closing := d.scopes.head?.any (·.closing) } :: d.scopes }

def moveOut (d : Draft) (b : Scope) (leap : Leap) : Leap :=
  { leap with
    closes := leap.closes || (d.registersTo b.depth < d.registersTo leap.depth && b.shared)
    depth := b.depth }

/-- End the innermost block. Jumps that still wait go out of it, and out of a function none may
go. -/
def closeScope : Emit Unit := do
  match (← draft).scopes with
  | [] => giveUp
  | b :: _ =>
    let before ← draft
    leaveVariables b.depth
    let closed ← if b.isLoop then putLabel breakLabel false else pure false
    let registers := (← draft).variableRegisters
    match (← draft).scopes with
    | b :: c :: rest =>
      if !closed && b.shared then
        let _ ← emit (.close registers)
      change fun d => { d with
        free := registers
        scopes := { c with leaps := c.leaps ++ b.leaps.map (moveOut before b) } :: rest }
    | b :: [] =>
      if b.leaps.isEmpty then change fun d => { d with free := registers, scopes := [] }
      else giveUp
    | [] => giveUp

end Emit

end Stencil.Lua
