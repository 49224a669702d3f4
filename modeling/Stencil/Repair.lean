import Stencil.BlockHead
import Stencil.Mask
/-!
# Repair

A block head that no brace, `then` or `do` follows gets a brace. An `else if` first closes the
block before it, and where the new brace would stay open it is closed after one statement.
-/
namespace Stencil

/-- One brace put in: after which head, and whether a closing brace was put in with it. -/
structure Repair where
  head : Text
  closed : Bool
deriving Repr, DecidableEq, Inhabited

namespace Repair

/-- Whether what follows a head opens its block. -/
def opensBlock (t : Text) : Bool :=
  let rest := Text.trimStart t
  rest.head? == some '{' ||
    ["then", "do"].any fun word =>
      (Text.after? word.toList rest).any fun after => !after.head?.any isNameChar

/-- How many more braces a text opens than it closes. -/
def balance : Text → Int
  | [] => 0
  | c :: cs => (if c = '{' then 1 else if c = '}' then -1 else 0) + balance cs

/-- Close a block after the first statement that ends at the given depth of braces, or at the
end. -/
def closeStatement : Int → Text → Text
  | _, [] => ['}']
  | depth, c :: cs =>
    if c = ';' ∧ depth = 0 then c :: '}' :: cs
    else c :: closeStatement (depth + balance [c]) cs

theorem length_closeStatement (depth : Int) (t : Text) :
    (closeStatement depth t).length = t.length + 1 := by
  induction t generalizing depth with
  | nil => rfl
  | cons c cs ih =>
    rw [closeStatement]
    split
    · simp
    · simp [ih]

def closeIf (wanted : Bool) (t : Text) : Text := if wanted then closeStatement 0 t else t

theorem length_closeIf_le (wanted : Bool) (t : Text) :
    (closeIf wanted t).length ≤ t.length + 1 := by
  unfold closeIf
  split
  · exact Nat.le_of_eq (length_closeStatement 0 t)
  · omega

/-- Repair the rest of a masked text, the text before it being read backwards. -/
def repairFrom (m : Mask) (before : Text) : Text → Text × List Repair
  | [] => (before.reverse, [])
  | c :: cs =>
    match h : BlockHead.read? before.head? (c :: cs) with
    | none => repairFrom m (c :: before) cs
    | some head =>
      match hs : Text.splitGroup? '(' ')' 0 head.afterOpen with
      -- a parenthesis that is never closed leaves no later head to look for
      | none => (before.reverse ++ c :: cs, [])
      | some (_, after) =>
        have shorter : after.length + 1 < (c :: cs).length := by
          have h1 := BlockHead.length_afterOpen h
          have h2 := Text.splitGroup?_length hs
          omega
        let written := (c :: cs).take ((c :: cs).length - after.length)
        if opensBlock after then repairFrom m (written.reverse ++ before) after
        else
          let lead : Text :=
            if head.isElse && (before.dropWhile isBlank).head? != some '}' then ['}', ' '] else []
          let before := '{' :: (written.reverse ++ (lead.reverse ++ before))
          -- the brace may have its partner already, further on in what was written
          let closed : Bool := 0 < balance (before.reverse ++ after)
          have closing := length_closeIf_le closed after
          let (text, repairs) := repairFrom m before (closeIf closed after)
          (text, ⟨m.restore written, closed⟩ :: repairs)
termination_by t => t.length
decreasing_by
  · simp
  · omega
  · exact Nat.lt_of_le_of_lt closing shorter

end Repair

/-- A body with its missing braces put in, and what was put in, in order. -/
def repair (body : Text) : Text × List Repair :=
  let m := Mask.ofText body
  let (text, repairs) := Repair.repairFrom m [] m.text
  (m.restore text, repairs)

end Stencil
