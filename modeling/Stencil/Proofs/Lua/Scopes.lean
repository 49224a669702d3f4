import Stencil.Proofs.Lua.Taking
/-!
# Semicolons of tables and of blocks

Between the fields of a table a semicolon is a separator, between statements it is a terminator. Which
of the two it is depends on what is open around it. In a text that the parser takes, a separator comes
after a value, and what comes after a terminator does not go on with a value before it.
-/
namespace Stencil.Lua

/-- What tokens may stand in: a table constructor or a block. -/
inductive Enclosure where
  | table
  | block
deriving Repr, DecidableEq

namespace Token

/-- The scopes open after a token, the innermost one first. The condition of an `elseif` stands outside
the branches. -/
def enter (scopes : List Enclosure) : Token → List Enclosure
  | .mark .openBrace => .table :: scopes
  | .word .function | .word .do | .word .then | .word .repeat => .block :: scopes
  | .word .else => .block :: scopes.tail
  | .mark .closeBrace | .word .end | .word .until | .word .elseif => scopes.tail
  | _ => scopes

/-- Whether a value may end with the token. -/
def endsValue : Token → Bool
  | .name _ | .number _ | .string _ => true
  | .word .nil | .word .true | .word .false | .word .end => true
  | .mark .dots | .mark .closeParen | .mark .closeBracket | .mark .closeBrace => true
  | _ => false

/-- Whether the token goes on with what stands before it and begins no statement. -/
def goesOn : Token → Bool
  | .mark .openParen => false
  | .mark .comma | .mark .assign => true
  | t => t.continues

end Token

open Token

def scopesAfter (scopes : List Enclosure) (ts : List Token) : List Enclosure := ts.foldl enter scopes

def inTable (scopes : List Enclosure) : Bool := scopes.head? == some .table

/-- For each semicolon, whether it stands between the fields of a table. -/
def separators : List Enclosure → List Token → List Bool
  | _, [] => []
  | scopes, .mark .semicolon :: ts => inTable scopes :: separators scopes ts
  | scopes, t :: ts => separators (t.enter scopes) ts

/-- The tokens lead from some open scopes to others. On the way every separator comes after a value, and
what comes after a terminator does not go on with what stands before it. -/
structure Runs (s : List Enclosure) (c : List Token) (s' : List Enclosure) : Prop where
  leads : scopesAfter s c = s'
  separated : ∀ pre post, c = pre ++ .mark .semicolon :: post →
    (scopesAfter s pre).head? = some .table → ∃ t, pre.getLast? = some t ∧ t.endsValue = true
  parted : ∀ pre t post, c = pre ++ .mark .semicolon :: t :: post →
    (scopesAfter s pre).head? ≠ some .table → t.goesOn = false

/-- Tokens that end a value, whatever is open around them. -/
structure Valued (c : List Token) : Prop where
  runs : ∀ s, Runs s c s
  ends : ∃ t, c.getLast? = some t ∧ t.endsValue = true

/-- Tokens that go on with a value, if there are any. -/
structure Sequel (c : List Token) : Prop where
  runs : ∀ s, Runs s c s
  ends : ∀ t, c.getLast? = some t → t.endsValue = true

/-- Tokens that lead back to where they begin, without a terminator at the end. -/
structure Level (c : List Token) : Prop where
  runs : ∀ s, Runs s c s
  ends : c.getLast? ≠ some (.mark .semicolon)

/-- What comes after the brace or the word that opens a scope, up to its end. -/
structure Closes (scope : Enclosure) (c : List Token) : Prop where
  runs : ∀ s, Runs (scope :: s) c s
  ends : ∃ t, c.getLast? = some t ∧ t.endsValue = true

structure Steps (c : List Token) : Prop where
  runs : ∀ s, s.head? ≠ some .table → Runs s c s
  begins : ∀ t, c.head? = some t → t.goesOn = false

section Runs

variable {s s' s'' : List Enclosure} {scope : Enclosure} {c c' : List Token} {t : Token}

theorem scopesAfter_append (s : List Enclosure) (c c' : List Token) :
    scopesAfter s (c ++ c') = scopesAfter (scopesAfter s c) c' := List.foldl_append

theorem runs_nil : Runs s [] s :=
  ⟨rfl, fun pre post h => by simp at h, fun pre t post h => by simp at h⟩

theorem Runs.cons (ht : t ≠ .mark .semicolon) (h : Runs (t.enter s) c s') : Runs s (t :: c) s' := by
  refine ⟨h.leads, fun pre post hsplit htable => ?_, fun pre t' post hsplit htable => ?_⟩
  · cases pre with
    | nil => exact absurd (List.cons.inj hsplit).1 ht
    | cons t' pre =>
        obtain ⟨rfl, hrest⟩ := List.cons.inj hsplit
        obtain ⟨last, hlast, hvalue⟩ := h.separated pre post hrest htable
        exact ⟨last, by rw [List.getLast?_cons, hlast]; rfl, hvalue⟩
  · cases pre with
    | nil => exact absurd (List.cons.inj hsplit).1 ht
    | cons t'' pre =>
        obtain ⟨rfl, hrest⟩ := List.cons.inj hsplit
        exact h.parted pre t' post hrest htable

/-- After a semicolon no token may come that goes on with what stands before it. -/
theorem Runs.append (h : Runs s c s') (h' : Runs s' c' s'')
    (hmeet : c.getLast? = some (.mark .semicolon) → ∀ t, c'.head? = some t → t.goesOn = false) :
    Runs s (c ++ c') s'' := by
  refine ⟨by rw [scopesAfter_append, h.leads, h'.leads], fun pre post hsplit htable => ?_,
    fun pre t post hsplit htable => ?_⟩
  · rcases List.append_eq_append_iff.mp hsplit with ⟨more, rfl, hrest⟩ | ⟨more, hc, hrest⟩
    · rw [scopesAfter_append, h.leads] at htable
      obtain ⟨last, hlast, hvalue⟩ := h'.separated more post hrest htable
      exact ⟨last, by rw [List.getLast?_append, hlast]; rfl, hvalue⟩
    · cases more with
      | nil =>
          rw [List.append_nil] at hc
          subst hc
          rw [h.leads] at htable
          obtain ⟨last, hlast, -⟩ := h'.separated [] post hrest.symm htable
          simp at hlast
      | cons t more =>
          obtain ⟨rfl, rfl⟩ := List.cons.inj hrest
          exact h.separated pre more hc htable
  · rcases List.append_eq_append_iff.mp hsplit with ⟨more, rfl, hrest⟩ | ⟨more, hc, hrest⟩
    · rw [scopesAfter_append, h.leads] at htable
      exact h'.parted more t post hrest htable
    · cases more with
      | nil =>
          rw [List.append_nil] at hc
          subst hc
          rw [h.leads] at htable
          exact h'.parted [] t post hrest.symm htable
      | cons t' more =>
          obtain ⟨rfl, htail⟩ := List.cons.inj hrest
          cases more with
          | nil =>
              have hhead : c'.head? = some t := (congrArg List.head? htail).symm
              exact hmeet (by rw [hc, List.getLast?_append]; rfl) t hhead
          | cons t'' more =>
              obtain ⟨rfl, rfl⟩ := List.cons.inj htail
              exact h.parted pre t more hc htable

/-! ## Values -/

theorem value_single (ht : t.endsValue = true) (henter : ∀ s, t.enter s = s) : Valued [t] := by
  have hne : t ≠ .mark .semicolon := by
    rintro rfl
    simp [endsValue] at ht
  exact ⟨fun s => .cons hne (by rw [henter]; exact runs_nil), t, rfl, ht⟩

theorem Valued.cons (h : Valued c) (ht : t ≠ .mark .semicolon) (henter : ∀ s, t.enter s = s) :
    Valued (t :: c) := by
  obtain ⟨last, hlast, hvalue⟩ := h.ends
  exact ⟨fun s => .cons ht (by rw [henter]; exact h.runs s), last,
    by rw [List.getLast?_cons, hlast]; rfl, hvalue⟩

/-- A value is no terminator, so anything may follow it. -/
theorem Valued.append (h : Valued c) (h' : Runs s c' s') : Runs s (c ++ c') s' := by
  refine (h.runs s).append h' fun hlast => ?_
  obtain ⟨last, hlast', hvalue⟩ := h.ends
  rw [hlast] at hlast'
  obtain rfl := Option.some.inj hlast'
  simp [endsValue] at hvalue

theorem Valued.more (h : Valued c) (h' : Sequel c') : Valued (c ++ c') := by
  refine ⟨fun s => h.append (h'.runs s), ?_⟩
  obtain ⟨last, hlast, hvalue⟩ := h.ends
  cases hc' : c'.getLast? with
  | none => exact ⟨last, by rw [List.getLast?_append, hc', hlast]; rfl, hvalue⟩
  | some last' => exact ⟨last', by rw [List.getLast?_append, hc']; rfl, h'.ends last' hc'⟩

theorem Valued.sequel (h : Valued c) : Sequel c := by
  refine ⟨h.runs, fun t ht => ?_⟩
  obtain ⟨last, hlast, hvalue⟩ := h.ends
  rw [hlast] at ht
  exact Option.some.inj ht ▸ hvalue

theorem sequel_nil : Sequel [] := ⟨fun _ => runs_nil, by simp⟩

/-- A value and what another one begins with. -/
theorem Valued.around (h : Valued c) (h' : Valued c') : Valued (c ++ c') := h.more h'.sequel

theorem level_nil : Level [] := ⟨fun _ => runs_nil, by simp⟩

theorem Level.cons (h : Level c) (ht : t ≠ .mark .semicolon) (henter : ∀ s, t.enter s = s) :
    Level (t :: c) := by
  refine ⟨fun s => .cons ht (by rw [henter]; exact h.runs s), ?_⟩
  rw [List.getLast?_cons]
  cases hc : c.getLast? with
  | none => simpa using ht
  | some last => simpa [hc] using h.ends

theorem Level.append (h : Level c) (h' : Runs s c' s') : Runs s (c ++ c') s' :=
  (h.runs s).append h' fun hlast => absurd hlast h.ends

theorem Level.more (h : Level c) (h' : Level c') : Level (c ++ c') := by
  refine ⟨fun s => h.append (h'.runs s), ?_⟩
  rw [List.getLast?_append]
  cases hc' : c'.getLast? with
  | none => exact h.ends
  | some last => simpa [hc'] using h'.ends

/-- A token that opens a scope, and what comes up to its end. -/
theorem Closes.value (h : Closes scope c) (ht : t ≠ .mark .semicolon)
    (henter : ∀ s, t.enter s = scope :: s) : Valued (t :: c) := by
  obtain ⟨last, hlast, hvalue⟩ := h.ends
  exact ⟨fun s => .cons ht (by rw [henter]; exact h.runs s), last,
    by rw [List.getLast?_cons, hlast]; rfl, hvalue⟩

theorem closes_single (ht : t.endsValue = true) (henter : ∀ s, t.enter (scope :: s) = s) :
    Closes scope [t] := by
  have hne : t ≠ .mark .semicolon := by
    rintro rfl
    simp [endsValue] at ht
  exact ⟨fun s => .cons hne (by rw [henter]; exact runs_nil), t, rfl, ht⟩

theorem Closes.cons (h : Closes scope c) (ht : t ≠ .mark .semicolon) (henter : ∀ s, t.enter s = s) :
    Closes scope (t :: c) := by
  obtain ⟨last, hlast, hvalue⟩ := h.ends
  exact ⟨fun s => .cons ht (by rw [henter]; exact h.runs s), last,
    by rw [List.getLast?_cons, hlast]; rfl, hvalue⟩

theorem Valued.closes (h : Valued c) (h' : Closes scope c') : Closes scope (c ++ c') := by
  obtain ⟨last, hlast, hvalue⟩ := h'.ends
  exact ⟨fun s => h.append (h'.runs s), last, by rw [List.getLast?_append, hlast]; rfl, hvalue⟩

/-- A value, a separator and more fields. -/
theorem Valued.separate (h : Valued c) (h' : Closes .table c') :
    Closes .table (c ++ .mark .semicolon :: c') := by
  obtain ⟨last, hlast, hvalue⟩ := h'.ends
  refine ⟨fun s => ?_, last, by rw [List.getLast?_append, List.getLast?_cons, hlast]; rfl, hvalue⟩
  refine ⟨?_, fun pre post hsplit htable => ?_, fun pre t post hsplit htable => ?_⟩
  · rw [scopesAfter_append, (h.runs _).leads]
    exact (h'.runs s).leads
  · rcases List.append_eq_append_iff.mp hsplit with ⟨more, rfl, hrest⟩ | ⟨more, hc, hrest⟩
    · cases more with
      | nil => simpa using h.ends
      | cons t more =>
          obtain ⟨rfl, htail⟩ := List.cons.inj hrest
          rw [scopesAfter_append, (h.runs _).leads] at htable
          obtain ⟨t, ht, hends⟩ := (h'.runs s).separated more post htail htable
          exact ⟨t, by rw [List.getLast?_append, List.getLast?_cons, ht]; rfl, hends⟩
    · cases more with
      | nil => simpa [hc] using h.ends
      | cons t more =>
          obtain ⟨rfl, -⟩ := List.cons.inj hrest
          exact (h.runs _).separated pre more hc htable
  · rcases List.append_eq_append_iff.mp hsplit with ⟨more, rfl, hrest⟩ | ⟨more, hc, hrest⟩
    · rw [scopesAfter_append, (h.runs _).leads] at htable
      cases more with
      | nil => exact absurd rfl htable
      | cons t' more =>
          obtain ⟨rfl, htail⟩ := List.cons.inj hrest
          exact (h'.runs s).parted more t post htail htable
    · cases more with
      | nil =>
          rw [List.append_nil] at hc
          rw [← hc, (h.runs _).leads] at htable
          exact absurd rfl htable
      | cons t' more =>
          obtain ⟨rfl, htail⟩ := List.cons.inj hrest
          cases more with
          | nil =>
              obtain ⟨rfl, -⟩ := List.cons.inj htail
              rfl
          | cons t'' more =>
              obtain ⟨rfl, rfl⟩ := List.cons.inj htail
              exact (h.runs _).parted pre t more hc htable

/-! ## Statements -/

/-- Statements, and what no statement goes on with. -/
theorem Steps.append (h : Steps c) (hs : s.head? ≠ some .table) (h' : Runs s c' s')
    (hbegins : ∀ t, c'.head? = some t → t.goesOn = false) : Runs s (c ++ c') s' :=
  (h.runs s hs).append h' fun _ => hbegins

theorem steps_nil : Steps [] := ⟨fun _ _ => runs_nil, by simp⟩

theorem Steps.more (h : Steps c) (h' : Steps c') : Steps (c ++ c') := by
  refine ⟨fun s hs => h.append hs (h'.runs s hs) h'.begins, fun t ht => ?_⟩
  cases c with
  | nil => exact h'.begins t ht
  | cons t' c => exact h.begins t ht

theorem steps_semicolon : Steps [.mark .semicolon] := by
  refine ⟨fun s hs => ⟨rfl, fun pre post hsplit htable => ?_, fun pre t post hsplit _ => ?_⟩, ?_⟩
  · cases pre with
    | nil => exact absurd htable hs
    | cons t pre => simp at hsplit
  · cases pre <;> simp at hsplit
  · rintro t ⟨⟩
    rfl

theorem Valued.steps (h : Valued c) (hbegins : ∀ t, c.head? = some t → t.goesOn = false) : Steps c :=
  ⟨fun s _ => h.runs s, hbegins⟩

theorem Steps.cons (h : Steps c) (ht : t ≠ .mark .semicolon) (henter : ∀ s, t.enter s = s)
    (hgoesOn : t.goesOn = false) : Steps (t :: c) := by
  refine ⟨fun s hs => .cons ht (by rw [henter]; exact h.runs s hs), ?_⟩
  rintro t' ⟨⟩
  exact hgoesOn

/-- Statements and the word that ends their block. -/
theorem Steps.close (h : Steps c) (ht : t.endsValue = true) (henter : ∀ s, t.enter (.block :: s) = s)
    (hgoesOn : t.goesOn = false) : Closes .block (c ++ [t]) := by
  refine ⟨fun s => h.append (by simp) ((closes_single ht henter).runs s) ?_, t,
    List.getLast?_concat, ht⟩
  rintro t' ⟨⟩
  exact hgoesOn

end Runs

namespace Parse

/-- The guarded blocks of an `if` statement, up to the word after the last one. -/
structure Guarded (w : Word) (c : List Token) : Prop where
  runs : ∀ s, Runs s c (.block :: (Token.word w).enter s)
  begins : c.head? = some (.word w)

/-- A value that a statement may begin with. -/
structure Begun (c : List Token) : Prop where
  value : Valued c
  begins : ∀ t, c.head? = some t → t.goesOn = false

/-! ## What parsers take -/

section Names

variable {s : List Enclosure} {c : List Token} {id : String} {m : Mark}

private theorem valued_name (id : String) : Valued [.name id] := value_single rfl fun _ => rfl

private theorem valued_names (fuel : Nat) (r : Reading) : Takes Valued (names fuel) r := by
  induction fuel generalizing r with
  | zero => exact takes_refuse
  | succ fuel ih =>
      refine takes_expectName fun id r' _ => takes_acceptMark (fun r' _ => ?_) ?_
      · exact (ih r').returning fun c hc =>
          (hc.cons (by simp) fun _ => rfl).cons (by simp) fun _ => rfl
      · exact takes_pure (valued_name id)

private theorem valued_params (fuel : Nat) (r : Reading) : Takes Valued (params fuel) r := by
  have hclose : Valued [.mark .closeParen] := value_single rfl fun _ => rfl
  induction fuel generalizing r with
  | zero => exact takes_refuse
  | succ fuel ih =>
      refine takes_acceptMark (fun r' _ => ?_) ?_
      · exact takes_lastLine fun _ => takes_expectMark fun r' _ =>
          takes_pure (hclose.cons (by simp) fun _ => rfl)
      · refine takes_expectName fun id r' _ => takes_acceptMark (fun r' _ => ?_) ?_
        · exact (ih r').returning fun c hc =>
            (hc.cons (by simp) fun _ => rfl).cons (by simp) fun _ => rfl
        · exact takes_lastLine fun _ => takes_expectMark fun r' _ =>
            takes_pure (hclose.cons (by simp) fun _ => rfl)

private theorem level_useOfName (r : Reading) : Takes Level useOfName r := by
  refine takes_acceptMark (fun r' _ => ?_) (takes_pure level_nil)
  refine takes_expectName fun word r' _ => takes_expectMark fun r' _ => ?_
  have hlevel : Level [.mark .less, .name word, .mark .greater] :=
    ((level_nil.cons (by simp) fun _ => rfl).cons (by simp) fun _ => rfl).cons (by simp) fun _ => rfl
  split
  · exact takes_pure hlevel
  · split
    · exact takes_pure hlevel
    · exact takes_refuse

private theorem level_attributedNames (fuel : Nat) (r : Reading) :
    Takes Level (attributedNames fuel) r := by
  induction fuel generalizing r with
  | zero => exact takes_refuse
  | succ fuel ih =>
      refine takes_expectName fun id r' _ => (level_useOfName r').bind fun kind c r' hc _ =>
        takes_acceptMark (fun r' _ => ?_) ?_
      · exact (ih r').returning fun c' hc' =>
          (hc.more (hc'.cons (by simp) fun _ => rfl)).cons (by simp) fun _ => rfl
      · refine takes_pure ?_
        rw [List.append_nil]
        exact hc.cons (by simp) fun _ => rfl

end Names

/-- What the parsers that call each other take, with the same bound on their steps. -/
structure AllRun (fuel : Nat) : Prop where
  expr : ∀ limit r, Takes Valued (expr fuel limit) r
  operators : ∀ limit left r, Takes Sequel (operators fuel limit left) r
  simple : ∀ r, Takes Valued (simple fuel) r
  table : ∀ r, Takes Valued (table fuel) r
  fields : ∀ r, Takes (Closes .table) (fields fuel) r
  field : ∀ r, Takes Valued (field fuel) r
  function : ∀ before r, Takes (Closes .block) (function fuel before) r
  suffixed : ∀ r, Takes Begun (suffixed fuel) r
  suffixes : ∀ e r, Takes Sequel (suffixes fuel e) r
  args : ∀ r, Takes Valued (args fuel) r
  exprs : ∀ r, Takes Valued (exprs fuel) r
  block : ∀ r, Takes Steps (block fuel) r
  giveBack : ∀ r, Takes Steps (giveBack fuel) r
  statement : ∀ r, Takes Steps (statement fuel) r
  labels : ∀ r, Takes Steps (labels fuel) r
  assignment : ∀ target before r, Takes Valued (assignment fuel target before) r
  functionTarget : ∀ target line r, Takes (Closes .block) (functionTarget fuel target line) r
  branch : ∀ r, (left r).head? = some (.word .if) → Takes Steps (branch fuel) r
  arms : ∀ r w, (left r).head? = some (.word w) → Takes (Guarded w) (arms fuel) r
  loop : ∀ line r, Takes Valued (loop fuel line) r

private theorem allRun_zero : AllRun 0 := by
  constructor <;> intros <;>
    simp only [Parse.expr, Parse.operators, Parse.simple, Parse.table, Parse.fields, Parse.field,
      Parse.function, Parse.suffixed, Parse.suffixes, Parse.args, Parse.exprs, Parse.block,
      Parse.giveBack, Parse.statement, Parse.labels, Parse.assignment, Parse.functionTarget,
      Parse.branch, Parse.arms, Parse.loop] <;>
    exact takes_refuse

/-- A prefix operator is no semicolon and opens nothing. -/
private theorem flat_unary {t : Option Token} {op : Unary} (h : unaryOf? t = some op) :
    ∃ t', t = some t' ∧ t' ≠ .mark .semicolon ∧ ∀ s, t'.enter s = s := by
  unfold unaryOf? at h
  split at h
  · exact ⟨_, rfl, by simp, fun _ => rfl⟩
  · exact ⟨_, rfl, by simp, fun _ => rfl⟩
  · exact ⟨_, rfl, by simp, fun _ => rfl⟩
  · exact ⟨_, rfl, by simp, fun _ => rfl⟩
  · simp at h

/-- Nor is an infix operator. -/
private theorem flat_infix {t : Token} {op : Infix} (h : Infix.ofToken? t = some op) :
    t ≠ .mark .semicolon ∧ ∀ s, t.enter s = s := by
  cases t with
  | word w => cases w <;> first | (simp [Infix.ofToken?] at h; done) | exact ⟨by simp, fun _ => rfl⟩
  | mark m =>
      cases m <;>
        first
          | (simp [Infix.ofToken?, Infix.ofMark?] at h; done)
          | exact ⟨by simp, fun _ => rfl⟩
  | _ => simp [Infix.ofToken?] at h

section Succ

variable {fuel : Nat} (ih : AllRun fuel)
include ih

private theorem valued_expr (limit : Nat) (r : Reading) : Takes Valued (expr (fuel + 1) limit) r := by
  rw [Parse.expr]
  refine takes_deeper fun r' _ => takes_peek ?_
  split
  · rename_i op hop
    obtain ⟨t, hhead, ht, henter⟩ := flat_unary hop
    exact takes_next hhead fun l r' _ => (ih.expr _ r').bind fun operand c r' hc _ =>
      (ih.operators _ _ r').imp fun c' hc' => (hc.more hc').cons ht henter
  · exact (ih.simple r').bind fun _ c r' hc _ => (ih.operators _ _ r').imp fun c' hc' => hc.more hc'

private theorem sequel_operators (limit : Nat) (e : Expr) (r : Reading) :
    Takes Sequel (operators (fuel + 1) limit e) r := by
  rw [Parse.operators]
  refine takes_peek ?_
  split
  · rename_i op hop
    obtain ⟨t, hhead, ht⟩ := Option.bind_eq_some_iff.mp hop
    obtain ⟨hne, henter⟩ := flat_infix ht
    split
    · exact takes_next hhead fun l r' _ => (ih.expr _ r').bind fun right c r' hc _ =>
        (ih.operators _ _ r').imp fun c' hc' => ((hc.more hc').cons hne henter).sequel
    · exact takes_pure sequel_nil
  · exact takes_pure sequel_nil

private theorem valued_simple (r : Reading) : Takes Valued (simple (fuel + 1)) r := by
  rw [Parse.simple]
  have hsingle {t : Token} {g : Located → Expr} (hhead : (left r).head? = some t)
      (hends : t.endsValue = true) (henter : ∀ s, t.enter s = s) :
      Takes Valued (do return g (← next)) r :=
    takes_next hhead fun l r' _ => takes_pure (value_single hends henter)
  refine takes_peek ?_
  split
  · exact hsingle ‹_› rfl fun _ => rfl
  · exact hsingle ‹_› rfl fun _ => rfl
  · exact hsingle ‹_› rfl fun _ => rfl
  · exact hsingle ‹_› rfl fun _ => rfl
  · exact hsingle ‹_› rfl fun _ => rfl
  · exact hsingle ‹_› rfl fun _ => rfl
  · exact ih.table r
  · exact takes_next ‹_› fun l r' _ => (ih.function _ r').returning fun c hc =>
      hc.value (by simp) fun _ => rfl
  · exact (ih.suffixed r).imp fun c hc => hc.value

private theorem valued_table (r : Reading) : Takes Valued (table (fuel + 1)) r := by
  rw [Parse.table]
  exact takes_expectMark fun r' _ => (ih.fields r').returning fun c hc =>
    hc.value (by simp) fun _ => rfl

/-- What comes after a field and its separator. -/
private theorem closes_rest (one : Field) {c : List Token} (r : Reading) (sep : Token)
    (hsep : ∀ c', Closes .table c' → Closes .table (c ++ sep :: c')) :
    Takes (fun c' => Closes .table (c ++ sep :: c')) (do
      let line ← lastLine
      let (rest, stop) ← fields fuel
      return (endField (if rest.isEmpty then stop else line) one :: rest, stop) :
      Parse (List Field × Nat)) r :=
  takes_lastLine fun _ => (ih.fields r).returning fun c' hc' => hsep c' hc'

private theorem closes_fields (r : Reading) : Takes (Closes .table) (fields (fuel + 1)) r := by
  rw [Parse.fields]
  have hclose : Closes .table [.mark .closeBrace] := closes_single rfl fun _ => rfl
  refine takes_acceptMark (fun r' _ => ?_) ?_
  · exact takes_lastLine fun _ => takes_pure hclose
  · refine (ih.field r).bind fun one c r' hc _ => ?_
    rw [acceptSeparator, bind_assoc]
    refine takes_acceptMark (fun r' _ => ?_) (takes_acceptMark (fun r' _ => ?_) ?_)
    · exact closes_rest ih one r' (.mark .comma) fun c' hc' => hc.closes (hc'.cons (by simp) fun _ => rfl)
    · exact closes_rest ih one r' (.mark .semicolon) fun c' hc' => hc.separate hc'
    · exact takes_expectMark fun r' _ => takes_lastLine fun _ => takes_pure (hc.closes hclose)

private theorem valued_field (r : Reading) : Takes Valued (field (fuel + 1)) r := by
  rw [Parse.field]
  refine takes_get ?_
  split
  · rename_i id line line' tokens htokens
    refine takes_next (t := .name id) (by simp [left, htokens]) fun l r' hleft =>
      takes_next (t := .mark .assign) ?_ fun l r' _ => (ih.expr _ r').returning fun c hc =>
        (hc.cons (by simp) fun _ => rfl).cons (by simp) fun _ => rfl
    have hrest : left r' = .mark .assign :: tokens.map (·.token) := by
      simpa [left, htokens] using hleft.symm
    rw [hrest]
    rfl
  · rename_i line tokens htokens
    refine takes_next (t := .mark .openBracket) (by simp [left, htokens]) fun l r' _ =>
      (ih.expr _ r').bind fun key c r' hc _ => takes_expectMark fun r' _ => takes_expectMark fun r' _ =>
        (ih.expr _ r').returning fun c' hc' => ?_
    have hvalue : Valued (.mark .assign :: c') := hc'.cons (by simp) fun _ => rfl
    exact (hc.around (hvalue.cons (by simp) fun _ => rfl)).cons (by simp) fun _ => rfl
  · exact (ih.expr _ r).returning fun c hc => hc

private theorem closes_function (before : List String) (r : Reading) :
    Takes (Closes .block) (function (fuel + 1) before) r := by
  rw [Parse.function]
  have hbody (params : List String × Bool × Nat) (r : Reading) : Takes (Closes .block) (do
      let body ← block fuel
      expectWord .end
      return Function.mk (before ++ params.1) params.2.1 params.2.2 body : Parse Function) r :=
    (ih.block r).bind fun _ c r' hc _ => takes_expectWord fun r' _ => takes_pure
      (hc.close rfl (fun _ => rfl) rfl)
  refine takes_expectMark fun r' _ => takes_acceptMark (fun r' _ => ?_) ?_
  · exact (hbody ([], false, 0) r').imp fun c hc =>
      (hc.cons (by simp) fun _ => rfl).cons (by simp) fun _ => rfl
  · exact (valued_params fuel r').bind fun params c r' hc _ => (hbody params r').imp fun c' hc' =>
      (hc.closes hc').cons (by simp) fun _ => rfl

private theorem begun_suffixed (r : Reading) : Takes Begun (suffixed (fuel + 1)) r := by
  rw [Parse.suffixed]
  refine takes_peek ?_
  split
  · refine takes_next ‹_› fun l r' _ => (ih.suffixes _ r').imp fun c hc =>
      ⟨(valued_name _).more hc, ?_⟩
    rintro t ⟨⟩
    rfl
  · refine takes_next ‹_› fun l r' _ => (ih.expr _ r').bind fun inner c r' hc _ =>
      takes_expectMark fun r' _ => takes_lastLine fun _ => (ih.suffixes _ r').imp fun c' hc' => ?_
    have hclose : Valued [.mark .closeParen] := value_single rfl fun _ => rfl
    refine ⟨(hc.around (hclose.more hc')).cons (by simp) fun _ => rfl, ?_⟩
    rintro t ⟨⟩
    rfl
  · exact takes_refuse

private theorem sequel_suffixes (e : Expr) (r : Reading) :
    Takes Sequel (suffixes (fuel + 1) e) r := by
  rw [Parse.suffixes]
  have hcall : Takes Sequel (do
      let start ← nextLine
      let args ← args fuel
      suffixes fuel (.call e args start (← lastLine)) : Parse Expr) r :=
    takes_nextLine fun _ => (ih.args r).bind fun args c r' hc _ => takes_lastLine fun _ =>
      (ih.suffixes _ r').imp fun c' hc' => (hc.more hc').sequel
  refine takes_peek ?_
  split
  · exact takes_next ‹_› fun l r' _ => takes_expectName fun id r' _ => takes_lastLine fun _ =>
      (ih.suffixes _ r').imp fun c hc =>
        (((valued_name id).more hc).cons (by simp) fun _ => rfl).sequel
  · refine takes_next ‹_› fun l r' _ => (ih.expr _ r').bind fun key c r' hc _ =>
      takes_expectMark fun r' _ => takes_lastLine fun _ => (ih.suffixes _ r').imp fun c' hc' => ?_
    have hclose : Valued [.mark .closeBracket] := value_single rfl fun _ => rfl
    exact ((hc.around (hclose.more hc')).cons (by simp) fun _ => rfl).sequel
  · exact takes_next ‹_› fun l r' _ => takes_expectName fun id r' _ => takes_lastLine fun _ =>
      takes_nextLine fun _ => (ih.args r').bind fun args c r' hc _ => takes_lastLine fun _ =>
        (ih.suffixes _ r').imp fun c' hc' =>
          (((hc.more hc').cons (by simp) fun _ => rfl).cons (by simp) fun _ => rfl).sequel
  · exact hcall
  · exact hcall
  · exact hcall
  · exact takes_pure sequel_nil

private theorem valued_args (r : Reading) : Takes Valued (args (fuel + 1)) r := by
  rw [Parse.args]
  have hclose : Valued [.mark .closeParen] := value_single rfl fun _ => rfl
  refine takes_peek ?_
  split
  · exact takes_next ‹_› fun l r' _ => takes_pure (value_single rfl fun _ => rfl)
  · exact (ih.table r).bind fun value c r' hc _ => takes_lastLine fun _ => takes_pure (by
      rwa [List.append_nil])
  · refine takes_expectMark fun r' _ => takes_acceptMark (fun r' _ => ?_) ?_
    · exact takes_pure (hclose.cons (by simp) fun _ => rfl)
    · exact (ih.exprs r').bind fun items c r' hc _ => takes_expectMark fun r' _ =>
        takes_lastLine fun _ => takes_pure ((hc.around hclose).cons (by simp) fun _ => rfl)

private theorem valued_exprs (r : Reading) : Takes Valued (exprs (fuel + 1)) r := by
  rw [Parse.exprs]
  refine (ih.expr _ r).bind fun e c r' hc _ => takes_acceptMark (fun r' _ => ?_) ?_
  · exact takes_lastLine fun _ => (ih.exprs r').returning fun c' hc' =>
      hc.around (hc'.cons (by simp) fun _ => rfl)
  · refine takes_lastLine fun _ => takes_pure ?_
    rwa [List.append_nil]

private theorem steps_block (r : Reading) : Takes Steps (block (fuel + 1)) r := by
  rw [Parse.block]
  refine takes_peek ?_
  split
  · exact takes_pure steps_nil
  · refine takes_peek ?_
    split
    · refine (takes_deeper fun r' _ => ih.giveBack r').bind fun last c r' hc _ => takes_peek ?_
      split
      · refine takes_pure ?_
        rwa [List.append_nil]
      · exact takes_refuse
    · exact (takes_deeper fun r' _ => ih.statement r').bind fun first c r' hc _ =>
        (ih.block r').returning fun c' hc' => hc.more hc'

private theorem steps_giveBack (r : Reading) : Takes Steps (giveBack (fuel + 1)) r := by
  rw [Parse.giveBack]
  have hrest (values : List Item) (r : Reading) : Takes Steps (do
      let _ ← acceptMark .semicolon
      return Stat.giveBack values : Parse Stat) r :=
    takes_acceptMark (fun r' _ => takes_pure steps_semicolon) (takes_pure steps_nil)
  refine takes_expectWord fun r' _ => takes_peek (takes_peek ?_)
  split
  · exact (hrest [] r').imp fun c hc => hc.cons (by simp) (fun _ => rfl) rfl
  · refine (ih.exprs r').bind fun values c r' hc _ => (hrest values r').imp fun c' hc' => ?_
    refine ⟨fun s hs => .cons (by simp) (hc.append (hc'.runs s hs)), ?_⟩
    rintro t ⟨⟩
    rfl

private theorem steps_statement (r : Reading) : Takes Steps (statement (fuel + 1)) r := by
  rw [Parse.statement]
  -- a statement that begins with a word and ends as a value does
  have hword {w : Word} {c : List Token} (hw : (Token.word w).goesOn = false)
      (h : Valued (.word w :: c)) : Steps (.word w :: c) :=
    h.steps (by rintro t ⟨⟩; exact hw)
  have hend {c : List Token} (hc : Steps c) : Closes .block (c ++ [.word .end]) :=
    hc.close rfl (fun _ => rfl) rfl
  refine takes_nextLine fun line => takes_peek ?_
  split
  · exact takes_next ‹_› fun _ r' _ => takes_pure steps_semicolon
  · exact (ih.branch r ‹_›).returning fun c hc => hc
  · refine takes_next ‹_› fun _ r' _ => (ih.expr _ r').bind fun condition c r' hc _ =>
      takes_expectWord fun r' _ => (ih.block r').bind fun body c' r' hc' _ =>
        takes_expectWord fun r' _ => takes_pure (hword rfl ?_)
    have hbody : Valued (.word .do :: (c' ++ [.word .end])) :=
      (hend hc').value (by simp) fun _ => rfl
    exact (hc.around hbody).cons (by simp) fun _ => rfl
  · exact takes_next ‹_› fun _ r' _ => (ih.block r').bind fun body c r' hc _ =>
      takes_expectWord fun r' _ => takes_pure (hword rfl ((hend hc).value (by simp) fun _ => rfl))
  · exact takes_next ‹_› fun _ r' _ => (ih.loop line r').returning fun c hc =>
      hword rfl (hc.cons (by simp) fun _ => rfl)
  · refine takes_next ‹_› fun _ r' _ => (ih.block r').bind fun body c r' hc _ =>
      takes_expectWord fun r' _ => (ih.expr _ r').returning fun c' hc' => ?_
    refine ⟨fun s _ => .cons (by simp) (hc.append (by simp [enter]) (.cons (by simp) (hc'.runs s)) ?_),
      ?_⟩
    · rintro t ⟨⟩
      rfl
    · rintro t ⟨⟩
      rfl
  · exact takes_next ‹_› fun _ r' _ => takes_expectName fun id r' _ => takes_lastLine fun _ =>
      (ih.functionTarget _ _ r').returning fun c hc =>
        hword rfl ((hc.cons (by simp) fun _ => rfl).value (by simp) fun _ => rfl)
  · refine takes_next ‹_› fun _ r' _ => takes_acceptWord (fun r' _ => ?_) ?_
    · refine takes_expectName fun id r' _ => (ih.function _ r').returning fun c hc => hword rfl ?_
      have hfunction : Valued (.word .function :: .name id :: c) :=
        (hc.cons (by simp) fun _ => rfl).value (by simp) fun _ => rfl
      exact hfunction.cons (by simp) fun _ => rfl
    · refine (level_attributedNames fuel r').bind fun names c r' hc _ =>
        takes_acceptMark (fun r' _ => ?_) ?_
      · refine (ih.exprs r').returning fun c' hc' => ⟨fun s _ => .cons (by simp) ?_, ?_⟩
        · exact hc.append (.cons (by simp) (hc'.runs s))
        · rintro t ⟨⟩
          rfl
      · refine takes_pure ⟨fun s _ => .cons (by simp) ?_, ?_⟩
        · rw [List.append_nil]
          exact hc.runs s
        · rintro t ⟨⟩
          rfl
  · refine takes_next ‹_› fun _ r' _ => takes_expectName fun id r' _ => takes_expectMark fun r' _ =>
      (ih.labels r').bind fun _ c r' hc _ => takes_peek (takes_pure ?_)
    rw [List.append_nil]
    refine ⟨fun s hs => .cons (by simp) (.cons (by simp) (.cons (by simp) (hc.runs s hs))), ?_⟩
    rintro t ⟨⟩
    rfl
  · refine takes_next ‹_› fun _ r' _ => takes_pure (Steps.cons steps_nil (by simp) (fun _ => rfl) rfl)
  · exact takes_next ‹_› fun _ r' _ => takes_expectName fun id r' _ => takes_pure
      (hword rfl ((valued_name id).cons (by simp) fun _ => rfl))
  · refine (ih.suffixed r).bind fun first c r' hc _ => takes_peek (takes_peek ?_)
    split
    · refine (ih.assignment _ _ r').returning fun c' hc' =>
        (hc.value.around hc').steps fun t ht => hc.begins t ?_
      obtain ⟨last, hlast, -⟩ := hc.value.ends
      cases c with
      | nil => simp at hlast
      | cons first c => exact ht
    · split
      · refine takes_pure ?_
        rw [List.append_nil]
        exact hc.value.steps hc.begins
      · exact takes_refuse

private theorem steps_labels (r : Reading) : Takes Steps (labels (fuel + 1)) r := by
  rw [Parse.labels]
  refine takes_peek (takes_peek ?_)
  split
  · exact (takes_deeper fun r' _ => ih.statement r').bind fun first c r' hc _ =>
      (ih.labels r').returning fun c' hc' => hc.more hc'
  · exact takes_pure steps_nil

private theorem valued_assignment (target : Expr) (before : List Expr) (r : Reading) :
    Takes Valued (assignment (fuel + 1) target before) r := by
  rw [Parse.assignment]
  split
  · refine takes_acceptMark (fun r' _ => ?_) ?_
    · exact (ih.suffixed r').bind fun another c r' hc _ =>
        (takes_deeper fun r' _ => ih.assignment _ _ r').imp fun c' hc' =>
          (hc.value.around hc').cons (by simp) fun _ => rfl
    · exact takes_expectMark fun r' _ => (ih.exprs r').returning fun c hc =>
        hc.cons (by simp) fun _ => rfl
  · exact takes_refuse

private theorem closes_functionTarget (target : Expr) (line : Nat) (r : Reading) :
    Takes (Closes .block) (functionTarget (fuel + 1) target line) r := by
  rw [Parse.functionTarget]
  refine takes_acceptMark (fun r' _ => ?_) (takes_acceptMark (fun r' _ => ?_) ?_)
  · exact takes_expectName fun id r' _ => takes_lastLine fun _ =>
      (ih.functionTarget _ _ r').imp fun c hc =>
        (hc.cons (by simp) fun _ => rfl).cons (by simp) fun _ => rfl
  · exact takes_expectName fun id r' _ => takes_lastLine fun _ =>
      (ih.function _ r').returning fun c hc =>
        (hc.cons (by simp) fun _ => rfl).cons (by simp) fun _ => rfl
  · exact (ih.function _ r).returning fun c hc => hc

private theorem steps_branch (r : Reading) (hif : (left r).head? = some (.word .if)) :
    Takes Steps (branch (fuel + 1)) r := by
  rw [Parse.branch]
  have hends {c c' : List Token} (hc : Guarded .if c) (hc' : ∀ s, Runs (.block :: s) c' s)
      (hbegins : ∀ t, c'.head? = some t → t.goesOn = false) : Steps (c ++ c') := by
    refine ⟨fun s _ => (hc.runs s).append (hc' s) fun _ => hbegins, fun t ht => ?_⟩
    rw [List.head?_append, hc.begins] at ht
    obtain rfl := Option.some.inj ht
    rfl
  refine (ih.arms r .if hif).bind fun arms c r' hc _ =>
    takes_acceptWord (fun r' _ => ?_) ?_
  · refine (ih.block r').bind fun otherwise c' r' hc' _ => takes_expectWord fun r' _ =>
      takes_pure (hends hc (fun s => .cons (by simp) ?_) ?_)
    · exact (hc'.close rfl (fun _ => rfl) rfl).runs s
    · rintro t ⟨⟩
      rfl
  · refine takes_expectWord fun r' _ => takes_pure (hends hc (fun s => .cons (by simp) runs_nil) ?_)
    rintro t ⟨⟩
    rfl

private theorem guarded_arms (r : Reading) (w : Word) (hhead : (left r).head? = some (.word w)) :
    Takes (Guarded w) (arms (fuel + 1)) r := by
  rw [Parse.arms]
  refine takes_next hhead fun _ r' _ => (ih.expr _ r').bind fun condition c r' hc _ =>
    takes_expectWord fun r' _ => takes_lastLine fun _ => (ih.block r').bind fun body c' r' hc' _ =>
      takes_peek ?_
  have hbody (s : List Enclosure) : Runs s (c ++ .word .then :: c') (.block :: s) :=
    hc.append (.cons (by simp) (hc'.runs _ (by simp [enter])))
  split
  · rename_i hanother
    refine (ih.arms r' .elseif (eq_of_isWord hanother)).returning fun c'' hc'' =>
      ⟨fun s => .cons (by simp) ?_, rfl⟩
    have hmore := (hbody ((Token.word w).enter s)).append (hc''.runs _) fun _ t ht => by
      rw [hc''.begins] at ht
      exact Option.some.inj ht ▸ rfl
    rwa [List.append_assoc] at hmore
  · refine takes_pure ⟨fun s => .cons (by simp) ?_, rfl⟩
    rw [List.append_nil]
    exact hbody _

private theorem valued_loop (line : Nat) (r : Reading) : Takes Valued (loop (fuel + 1) line) r := by
  rw [Parse.loop]
  have hbody (finish : Nat → Block → Stat) (r : Reading) : Takes Valued (do
      expectWord .do
      let doLine ← lastLine
      let body ← block fuel
      expectWord .end
      return finish doLine body : Parse Stat) r :=
    takes_expectWord fun r' _ => takes_lastLine fun _ => (ih.block r').bind fun body c r' hc _ =>
      takes_expectWord fun r' _ => takes_pure
        ((hc.close rfl (fun _ => rfl) rfl).value (by simp) fun _ => rfl)
  have hvalues (names : List String) (r : Reading) : Takes Valued (do
      expectWord .in
      let here ← nextLine
      let values ← exprs fuel
      expectWord .do
      let doLine ← lastLine
      let body ← block fuel
      expectWord .end
      return .iterate names values doLine here body : Parse Stat) r :=
    takes_expectWord fun r' _ => takes_nextLine fun here => (ih.exprs r').bind fun values c r' hc _ =>
      (hbody (fun doLine => .iterate names values doLine here) r').imp fun c' hc' =>
        (hc.around hc').cons (by simp) fun _ => rfl
  refine takes_expectName fun first r' _ => takes_acceptMark (fun r' _ => ?_) ?_
  · refine (ih.expr _ r').bind fun start c r' hc _ => takes_expectMark fun r' _ =>
      (ih.expr _ r').bind fun stop c' r' hc' _ => ?_
    have hcount {c'' : List Token} (h : Valued (c' ++ c'')) :
        Valued (.name first :: .mark .assign :: (c ++ .mark .comma :: (c' ++ c''))) := by
      have hstop : Valued (.mark .comma :: (c' ++ c'')) := h.cons (by simp) fun _ => rfl
      exact ((hc.around hstop).cons (by simp) fun _ => rfl).cons (by simp) fun _ => rfl
    refine takes_acceptMark (fun r' _ => ?_) ?_
    · refine ((ih.expr _ r').map some).bind fun step c'' r' hc'' _ =>
        (hbody (fun doLine => .count first start stop step doLine line) r').imp fun c₃ hc₃ => ?_
      exact hcount (hc'.around ((hc''.around hc₃).cons (by simp) fun _ => rfl))
    · exact (hbody (fun doLine => .count first start stop none doLine line) r').imp fun c'' hc'' =>
        hcount (hc'.around hc'')
  · refine takes_acceptMark (fun r' _ => ?_) ?_
    · exact (valued_names fuel r').bind fun rest c r' hc _ => (hvalues (first :: rest) r').imp
        fun c' hc' => ((hc.around hc').cons (by simp) fun _ => rfl).cons (by simp) fun _ => rfl
    · exact (hvalues [first] r').imp fun c hc => hc.cons (by simp) fun _ => rfl

end Succ

theorem allRun : ∀ fuel, AllRun fuel
  | 0 => allRun_zero
  | fuel + 1 =>
    have ih := allRun fuel
    { expr := valued_expr ih
      operators := sequel_operators ih
      simple := valued_simple ih
      table := valued_table ih
      fields := closes_fields ih
      field := valued_field ih
      function := closes_function ih
      suffixed := begun_suffixed ih
      suffixes := sequel_suffixes ih
      args := valued_args ih
      exprs := valued_exprs ih
      block := steps_block ih
      giveBack := steps_giveBack ih
      statement := steps_statement ih
      labels := steps_labels ih
      assignment := valued_assignment ih
      functionTarget := closes_functionTarget ih
      branch := steps_branch ih
      arms := guarded_arms ih
      loop := valued_loop ih }

/-- The tokens of a text that the parser takes are statements. -/
theorem steps_of_chunk {room : Nat} {tokens : List Located} {b : Block}
    (h : chunk room tokens = .ok b) : Steps (tokens.map (·.token)) := by
  unfold chunk at h
  split at h
  · rename_i body rest hrun
    obtain ⟨c, hleft, hc⟩ := (allRun _).block _ _ _ hrun
    split at h
    · rename_i hnone
      have hleft' : tokens.map (·.token) = c ++ rest.tokens.map (·.token) := hleft
      rw [List.isEmpty_iff.mp hnone, List.map_nil, List.append_nil] at hleft'
      rwa [hleft']
    · cases h
  · cases h

end Parse

/-! ## Which semicolons separate -/

namespace Token

def isSemicolon : Token → Bool
  | .mark .semicolon => true
  | _ => false

end Token

section Separators

variable {s : List Enclosure} {ts pre post : List Token} {t : Token}

theorem inTable_iff : inTable s = true ↔ s.head? = some .table := by
  rw [inTable, beq_iff_eq]

theorem separators_cons (ht : t ≠ .mark .semicolon) :
    separators s (t :: ts) = separators (t.enter s) ts := by
  rw [separators]
  exact ht

theorem separators_append (s : List Enclosure) (pre post : List Token) :
    separators s (pre ++ post) = separators s pre ++ separators (scopesAfter s pre) post := by
  induction pre generalizing s with
  | nil => rfl
  | cons t pre ih =>
      by_cases ht : t = .mark .semicolon
      · subst ht
        exact congrArg _ (ih s)
      · rw [List.cons_append, separators_cons ht, separators_cons ht, ih]
        rfl

theorem length_separators (s : List Enclosure) (ts : List Token) :
    (separators s ts).length = ts.countP isSemicolon := by
  induction ts generalizing s with
  | nil => rfl
  | cons t ts ih =>
      by_cases ht : t = .mark .semicolon
      · subst ht
        rw [separators, List.length_cons, ih, List.countP_cons_of_pos rfl]
      · have hother : t.isSemicolon = false := by
          unfold isSemicolon
          split
          · exact absurd rfl ht
          · rfl
        rw [separators_cons ht, ih, List.countP_cons_of_neg (by simp [hother])]

/-- What a semicolon is, found by the number of semicolons before it. -/
theorem getElem?_separators (s : List Enclosure) (pre post : List Token) :
    (separators s (pre ++ .mark .semicolon :: post))[pre.countP isSemicolon]? =
      some (inTable (scopesAfter s pre)) := by
  rw [separators_append, List.getElem?_append_right (Nat.le_of_eq (length_separators s pre)), length_separators,
    Nat.sub_self]
  rfl

/-- A separator comes after a value. -/
theorem Steps.endsValue (h : Steps (pre ++ .mark .semicolon :: post))
    (hsep : inTable (scopesAfter [] pre) = true) : ∃ t, pre.getLast? = some t ∧ t.endsValue = true :=
  (h.runs [] (by simp)).separated pre post rfl (inTable_iff.mp hsep)

end Separators

end Stencil.Lua
