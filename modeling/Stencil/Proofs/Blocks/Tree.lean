import Stencil.Text.Blank
/-!
# Trees of blocks

A program is a tree of blocks over leaves. Written out it is a list of clauses: the leaves, and the
places where a block begins, goes on to another branch, or ends.
-/
namespace Stencil

inductive BlockKind where
  | conditional
  | loop
  | iteration
deriving Repr, DecidableEq

def BlockKind.word : BlockKind → Text
  | .conditional => "if".toList
  | .loop => "while".toList
  | .iteration => "for".toList

mutual

/-- A sequence of leaves and blocks. -/
inductive Tree (α : Type) where
  | nil
  | leaf (a : α) (next : Tree α)
  | conditional (condition : Text) (body : Tree α) (more : Branches α) (next : Tree α)
  | loop (condition : Text) (body next : Tree α)
  | iteration (header : Text) (body next : Tree α)

/-- The branches of a conditional after its first. -/
inductive Branches (α : Type) where
  | nil
  | otherwise (body : Tree α)
  | elseIf (condition : Text) (body : Tree α) (more : Branches α)

end

/-- A leaf, or a place where a block begins, goes on to another branch, or ends. -/
inductive Clause (α : Type) where
  | leaf (a : α)
  | head (kind : BlockKind) (condition : Text)
  | elseIf (condition : Text)
  | otherwise
  | close (kind : BlockKind)
deriving Repr, DecidableEq

mutual

/-- The clauses of a program in reading order. -/
def Tree.clauses {α : Type} : Tree α → List (Clause α)
  | .nil => []
  | .leaf a next => .leaf a :: next.clauses
  | .conditional condition body more next =>
    .head .conditional condition ::
      (body.clauses ++ (more.clauses ++ .close .conditional :: next.clauses))
  | .loop condition body next =>
    .head .loop condition :: (body.clauses ++ .close .loop :: next.clauses)
  | .iteration header body next =>
    .head .iteration header :: (body.clauses ++ .close .iteration :: next.clauses)

def Branches.clauses {α : Type} : Branches α → List (Clause α)
  | .nil => []
  | .otherwise body => .otherwise :: body.clauses
  | .elseIf condition body more => .elseIf condition :: (body.clauses ++ more.clauses)

end

namespace Clause

def map {α β : Type} (f : α → β) : Clause α → Clause β
  | .leaf a => .leaf (f a)
  | .head kind condition => .head kind condition
  | .elseIf condition => .elseIf condition
  | .otherwise => .otherwise
  | .close kind => .close kind

/-- The code of a clause, without the punctuation of its style. -/
def code : Clause Text → Text
  | .leaf text => text
  | .head kind condition => kind.word ++ (" (".toList ++ (condition ++ [')']))
  | .elseIf condition => "else if (".toList ++ (condition ++ [')'])
  | .otherwise => "else".toList
  | .close _ => []

theorem head_code (kind : BlockKind) (c : Text) :
    (head kind c).code = kind.word ++ (" (".toList ++ (c ++ [')'])) := rfl

theorem elseIf_code (c : Text) : (elseIf c).code = "else if (".toList ++ (c ++ [')']) := rfl

theorem otherwise_code : code .otherwise = "else".toList := rfl

def colon : Clause Text → Text
  | .leaf text => text
  | .close kind => "end".toList ++ kind.word
  | clause => clause.code ++ [':']

/-- The clause in the brace style, with white space before an opening brace and after a closing
one. -/
def brace (gap : Text) : Clause Text → Text
  | .leaf text => text
  | .head kind condition => (head kind condition).code ++ (gap ++ ['{'])
  | .elseIf condition => '}' :: (gap ++ ((elseIf condition).code ++ (gap ++ ['{'])))
  | .otherwise => '}' :: (gap ++ (code .otherwise ++ (gap ++ ['{'])))
  | .close _ => ['}']

/-- The clause in the canonical form of a body: a statement with its semicolon, a brace without
white space. -/
def canonical (clause : Clause Text) : Text := (clause.map (· ++ [';'])).brace []

end Clause

end Stencil
