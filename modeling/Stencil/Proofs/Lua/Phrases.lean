import Stencil.Lua.Parser
import Stencil.Proofs.Text.Reading
/-!
# Phrases

What a parser takes is a phrase: its parentheses have their partners, the word that begins a block is
followed by all that belongs to the head of the block, and nothing is unreadable. A condition that
begins with a parenthesis ends with the partner or goes on after it as an expression does.
-/
namespace Stencil.Lua

namespace Token

def isParen : Token → Bool
  | .mark .openParen | .mark .closeParen => true
  | _ => false

/-- A word that says what follows it. -/
def isHead : Token → Bool
  | .word .if | .word .elseif | .word .while | .word .for | .word .else => true
  | _ => false

/-- A token that says nothing about what stands beside it. -/
def isPlain : Token → Bool
  | .malformed => false
  | t => !t.isParen && !t.isHead

/-- The word after a condition. -/
def opensBlock : Token → Bool
  | .word .then | .word .do => true
  | _ => false

/-- Whether an expression that may end before the token goes on with it: with an operator, an index, a
method or a call. -/
def continues : Token → Bool
  | .string _ => true
  | .mark .dot | .mark .openBracket | .mark .colon | .mark .openParen | .mark .openBrace => true
  | t => (Parse.Infix.ofToken? t).isSome

/-- A mark that cannot begin an expression and that two statements may have between them, or a head
and its body. -/
def isStop : Token → Bool
  | .mark .semicolon | .mark .colon => true
  | _ => false

end Token

/-- The parentheses among tokens, as written. -/
def parens (ts : List Token) : Text :=
  ts.flatMap fun
    | .mark .openParen => ['(']
    | .mark .closeParen => [')']
    | _ => []

/-- Every parenthesis has its partner. -/
def Paired (ts : List Token) : Prop := Text.Balanced '(' ')' (parens ts)

/-- The tokens of a condition. -/
structure Condition (c : List Token) : Prop where
  begins : ∃ t, c.head? = some t ∧ t.isStop = false
  group : ∀ rest, c = .mark .openParen :: rest → ∃ inside after,
    rest = inside ++ .mark .closeParen :: after ∧ Paired inside ∧
      ∀ t, after.head? = some t → t.continues = true

/-- What follows the word of a block. -/
def Heads : Word → List Token → Prop
  | .if, post | .elseif, post | .while, post =>
    ∃ c t rest, post = c ++ t :: rest ∧ Condition c ∧ t.opensBlock = true
  | .for, post => ∃ id rest, post = .name id :: rest
  | .else, post => ∃ t rest, post = t :: rest ∧ t ≠ .mark .colon
  | _, _ => True

/-- Every word of a block is followed by what belongs to it. -/
def Headed (ts : List Token) : Prop := ∀ pre w post, ts = pre ++ .word w :: post → Heads w post

/-- Tokens in which all that a word announces comes. -/
structure Phrase (ts : List Token) : Prop where
  paired : Paired ts
  headed : Headed ts
  readable : ∀ t ∈ ts, t ≠ .malformed

structure Expression (c : List Token) : Prop where
  phrase : Phrase c
  condition : Condition c

structure Continuation (c : List Token) : Prop where
  phrase : Phrase c
  continues : ∀ t, c.head? = some t → t.continues = true

structure Sentence (c : List Token) : Prop where
  phrase : Phrase c
  begins : ∃ t, c.head? = some t ∧ t ≠ .mark .colon

/-- The tokens of a block. No colon comes first in it, and no `else`. -/
structure Body (c : List Token) : Prop where
  phrase : Phrase c
  begins : ∀ t, c.head? = some t → t ≠ .mark .colon ∧ t ≠ .word .else

section Phrases

variable {c c' ts ts' : List Token} {t : Token}

/-! ## Putting phrases together -/

@[simp] theorem parens_append (ts ts' : List Token) :
    parens (ts ++ ts') = parens ts ++ parens ts' :=
  List.flatMap_append

theorem parens_cons (ht : t.isParen = false) : parens (t :: ts) = parens ts := by
  unfold Token.isParen at ht
  rw [parens, List.flatMap_cons]
  split at ht
  · simp at ht
  · simp at ht
  · rename_i hopen hclose
    rfl

theorem paired_nil : Paired [] := rfl

theorem Paired.append (h : Paired ts) (h' : Paired ts') : Paired (ts ++ ts') := by
  rw [Paired, Text.Balanced, parens_append, Text.nest?_append, h]
  exact h'

theorem Paired.cons (ht : t.isParen = false) (h : Paired ts) : Paired (t :: ts) := by
  rw [Paired, parens_cons ht]
  exact h

theorem Paired.group (h : Paired ts) :
    Paired (.mark .openParen :: (ts ++ [.mark .closeParen])) := by
  have hparens : parens (.mark .openParen :: (ts ++ [.mark .closeParen])) =
      '(' :: (parens ts ++ [')']) := by
    rw [← List.singleton_append, parens_append, parens_append]
    rfl
  have hdeeper := Text.nest?_add h 1
  rw [Paired, Text.Balanced, hparens, Text.nest?_opening, Text.nest?_append, hdeeper]
  rfl

theorem Heads.append {w : Word} {post : List Token} (h : Heads w post) (more : List Token) :
    Heads w (post ++ more) := by
  unfold Heads at h ⊢
  split
  · obtain ⟨c, t, rest, rfl, hc, ht⟩ := h
    exact ⟨c, t, rest ++ more, by simp, hc, ht⟩
  · obtain ⟨c, t, rest, rfl, hc, ht⟩ := h
    exact ⟨c, t, rest ++ more, by simp, hc, ht⟩
  · obtain ⟨c, t, rest, rfl, hc, ht⟩ := h
    exact ⟨c, t, rest ++ more, by simp, hc, ht⟩
  · obtain ⟨id, rest, rfl⟩ := h
    exact ⟨id, rest ++ more, rfl⟩
  · obtain ⟨t, rest, rfl, ht⟩ := h
    exact ⟨t, rest ++ more, rfl, ht⟩
  · trivial

theorem Headed.append (h : Headed ts) (h' : Headed ts') : Headed (ts ++ ts') := by
  intro pre w post hsplit
  rcases List.append_eq_append_iff.mp hsplit with ⟨more, hpre, hpost⟩ | ⟨more, hts, hpost⟩
  · exact h' more w post hpost
  · cases more with
    | nil => exact h' [] w post (by simpa using hpost.symm)
    | cons t more =>
        obtain ⟨rfl, rfl⟩ := List.cons.inj hpost
        exact (h pre w more hts).append ts'

theorem Headed.cons (h : Headed ts) (ht : ∀ w, t = .word w → Heads w ts) : Headed (t :: ts) := by
  intro pre w post hsplit
  cases pre with
  | nil =>
      obtain ⟨hw, rfl⟩ := List.cons.inj hsplit
      exact ht w hw
  | cons t' pre => exact h pre w post (List.cons.inj hsplit).2

theorem phrase_nil : Phrase [] := ⟨paired_nil, fun pre w post h => by simp at h, by simp⟩

theorem Phrase.append (h : Phrase ts) (h' : Phrase ts') : Phrase (ts ++ ts') :=
  ⟨h.paired.append h'.paired, h.headed.append h'.headed, fun t ht =>
    (List.mem_append.mp ht).elim (h.readable t) (h'.readable t)⟩

/-- A word before a phrase that follows it as it says. -/
theorem Phrase.cons_word {w : Word} (h : Phrase ts) (hheads : Heads w ts) :
    Phrase (.word w :: ts) := by
  refine ⟨h.paired.cons rfl, h.headed.cons fun w' hw => ?_,
    List.forall_mem_cons.mpr ⟨by simp, h.readable⟩⟩
  obtain rfl := Token.word.inj hw
  exact hheads

theorem Phrase.cons (h : Phrase ts) (ht : t.isPlain = true) : Phrase (t :: ts) := by
  unfold Token.isPlain at ht
  split at ht
  · simp at ht
  · rename_i hreadable
    simp only [Bool.and_eq_true, Bool.not_eq_true'] at ht
    refine ⟨h.paired.cons ht.1, h.headed.cons fun w hw => ?_,
      List.forall_mem_cons.mpr ⟨hreadable, h.readable⟩⟩
    subst hw
    unfold Heads
    split <;> simp_all [Token.isHead]

theorem Phrase.group (h : Phrase ts) :
    Phrase (.mark .openParen :: (ts ++ [.mark .closeParen])) := by
  have hclose : Headed [.mark .closeParen] := by
    intro pre w post hsplit
    cases pre <;> simp at hsplit
  refine ⟨h.paired.group, (h.headed.append hclose).cons fun w hw => by simp at hw, fun t ht => ?_⟩
  simp only [List.mem_cons, List.mem_append, List.not_mem_nil, or_false] at ht
  rcases ht with rfl | ht | rfl
  · simp
  · exact h.readable t ht
  · simp

/-! ## Expressions -/

theorem Expression.append (h : Expression c) (h' : Continuation c') : Expression (c ++ c') := by
  obtain ⟨t, hhead, ht⟩ := h.condition.begins
  refine ⟨h.phrase.append h'.phrase, ⟨t, by simp [hhead], ht⟩, fun rest hrest => ?_⟩
  obtain ⟨first, c, rfl⟩ : ∃ first more, c = first :: more := by
    cases c with
    | nil => simp at hhead
    | cons first more => exact ⟨first, more, rfl⟩
  obtain ⟨rfl, rfl⟩ := List.cons.inj hrest
  obtain ⟨inside, after, rfl, hinside, hafter⟩ := h.condition.group c rfl
  refine ⟨inside, after ++ c', by simp, hinside, fun t ht => ?_⟩
  cases after with
  | nil => exact h'.continues t ht
  | cons t' after => exact hafter t ht

/-- An expression that begins with a token of its own. -/
theorem expression_cons (h : Phrase c) (ht : t.isPlain = true) (hstop : t.isStop = false) :
    Expression (t :: c) := by
  refine ⟨h.cons ht, ⟨t, rfl, hstop⟩, fun rest hrest => ?_⟩
  obtain ⟨rfl, -⟩ := List.cons.inj hrest
  simp [Token.isPlain, Token.isParen] at ht

/-- An expression in parentheses. -/
theorem expression_group (h : Phrase c) :
    Expression (.mark .openParen :: (c ++ [.mark .closeParen])) := by
  refine ⟨h.group, ⟨_, rfl, rfl⟩, fun rest hrest => ?_⟩
  obtain ⟨-, rfl⟩ := List.cons.inj hrest
  exact ⟨c, [], rfl, h.paired, by simp⟩

theorem continuation_nil : Continuation [] := ⟨phrase_nil, by simp⟩

theorem Phrase.continuation (h : Phrase (t :: c)) (ht : t.continues = true) :
    Continuation (t :: c) :=
  ⟨h, fun _ ht' => Option.some.inj ht' ▸ ht⟩

/-- A word, its condition and the word after it. -/
theorem Expression.guard {w : Word} (hw : w = .if ∨ w = .elseif ∨ w = .while) (h : Expression c)
    (ht : t.opensBlock = true) (hplain : t.isPlain = true) (hrest : Phrase ts) :
    Phrase (.word w :: (c ++ t :: ts)) := by
  refine (h.phrase.append (hrest.cons hplain)).cons_word ?_
  have hheads : ∃ c' t' rest, c ++ t :: ts = c' ++ t' :: rest ∧ Condition c' ∧
      t'.opensBlock = true := ⟨c, t, ts, rfl, h.condition, ht⟩
  rcases hw with rfl | rfl | rfl <;> exact hheads

/-! ## Statements -/

theorem Sentence.append (h : Sentence c) (h' : Phrase c') : Sentence (c ++ c') := by
  obtain ⟨t, hhead, ht⟩ := h.begins
  exact ⟨h.phrase.append h', t, by simp [hhead], ht⟩

/-- An `else`, its block and the end of the branch. -/
theorem Body.otherwise (h : Body c) : Phrase (.word .else :: (c ++ [.word .end])) := by
  refine (h.phrase.append (phrase_nil.cons rfl)).cons_word ?_
  cases c with
  | nil => exact ⟨_, [], rfl, by simp⟩
  | cons t c => exact ⟨t, c ++ [.word .end], rfl, (h.begins t rfl).1⟩

/-- A `for` and the name it counts with. -/
theorem Phrase.loop {id : String} (h : Phrase c) : Phrase (.word .for :: .name id :: c) :=
  (h.cons rfl).cons_word ⟨id, c, rfl⟩

end Phrases

end Stencil.Lua
