import Stencil.Lua.Chunk
/-!
# Room for deep texts

How much room there is for statements and expressions in each other decides whether a text is too
deep, and nothing else about what it is read as. So where fewer calls are under way a text compiles
to the same, unless it was too deep before.
-/
namespace Stencil.Lua

namespace Parse

variable {α β : Type}

/-- With more room the parser does the same and leaves as much more, unless there was too little. -/
def Roomy (p : Parse α) : Prop :=
  ∀ r more, p.run r = .error .tooDeep ∨
    p.run { r with room := r.room + more } =
      (p.run r).map fun (a, r') => (a, { r' with room := r'.room + more })

theorem roomy_pure (a : α) : Roomy (pure a : Parse α) := fun _ _ => .inr rfl

theorem roomy_throw (refusal : Refusal) : Roomy (throw refusal : Parse α) := fun _ _ => .inr rfl

theorem roomy_refuse : Roomy (refuse : Parse α) := roomy_throw .malformed

theorem Roomy.bind {p : Parse α} {f : α → Parse β} (hp : Roomy p) (hf : ∀ a, Roomy (f a)) :
    Roomy (p >>= f) := by
  intro r more
  rw [StateT.run_bind, StateT.run_bind]
  rcases hp r more with hdeep | hsame
  · exact .inl (by rw [hdeep]; rfl)
  · rw [hsame]
    cases p.run r with
    | error refusal => exact .inr rfl
    | ok first => exact hf first.1 first.2 more

theorem Roomy.map {p : Parse α} (hp : Roomy p) (f : α → β) : Roomy (f <$> p) := by
  rw [map_eq_pure_bind]
  exact hp.bind fun a => roomy_pure (f a)

/-- A parser may look at what is left, but not at the room. -/
theorem roomy_get {f : Reading → Parse α} (hf : ∀ r, Roomy (f r))
    (hroom : ∀ r more, f { r with room := r.room + more } = f r) : Roomy (get >>= f) := by
  intro r more
  change (f r).run r = _ ∨ (f { r with room := r.room + more }).run { r with room := r.room + more } =
    ((f r).run r).map _
  rw [hroom]
  exact hf r r more

theorem roomy_peek : Roomy peek := roomy_get (fun _ => roomy_pure _) fun _ _ => rfl

theorem roomy_nextLine : Roomy nextLine := roomy_get (fun _ => roomy_pure _) fun _ _ => rfl

theorem roomy_lastLine : Roomy lastLine := roomy_get (fun _ => roomy_pure _) fun _ _ => rfl

theorem roomy_next : Roomy next := by
  intro r more
  obtain ⟨tokens, line, room⟩ := r
  cases tokens <;> exact .inr rfl

/-! A token that cannot be read refuses the text whatever the room. -/

/-- The parser takes no token that cannot be read. -/
def Stops (p : Parse α) : Prop :=
  ∀ r, isMalformed (r.tokens.head?.map (·.token)) = true → p.run r = .error .malformed

theorem stops_refuse : Stops (refuse : Parse α) := fun _ _ => rfl

theorem Stops.bind {p : Parse α} (hp : Stops p) (f : α → Parse β) : Stops (p >>= f) := by
  intro r hr
  rw [StateT.run_bind, hp r hr]
  rfl

theorem stops_peek {f : Option Token → Parse α} (hf : Stops (f (some .malformed))) :
    Stops (peek >>= f) := by
  intro r hr
  have hhead : r.tokens.head?.map (·.token) = some .malformed := by
    generalize r.tokens.head?.map (·.token) = t at hr ⊢
    unfold isMalformed at hr
    split at hr
    · rfl
    · cases hr
  change (f (r.tokens.head?.map (·.token))).run r = _
  rw [hhead]
  exact hf r hr

theorem stops_nextLine {f : Nat → Parse α} (hf : ∀ line, Stops (f line)) : Stops (nextLine >>= f) :=
  fun r hr => hf _ r hr

/-- Parsing deeper takes a level of the room and gives it back. -/
theorem run_deeper_succ (p : Parse α) (tokens : List Located) (line room : Nat) :
    (deeper p).run ⟨tokens, line, room + 1⟩ =
      (p.run ⟨tokens, line, room⟩).map fun (a, r) => (a, { r with room := room + 1 }) := by
  change (p.run ⟨tokens, line, room⟩).bind _ = _
  cases p.run ⟨tokens, line, room⟩ <;> rfl

theorem Roomy.deeper {p : Parse α} (hp : Roomy p) (hstops : Stops p) : Roomy (deeper p) := by
  intro r more
  obtain ⟨tokens, line, room⟩ := r
  cases room with
  | zero =>
      change (if isMalformed (tokens.head?.map (·.token)) then refuse else throw .tooDeep :
        Parse α).run _ = _ ∨ _ = ((if isMalformed (tokens.head?.map (·.token)) then refuse
          else throw .tooDeep : Parse α).run _).map _
      split
      · rename_i hmalformed
        refine .inr ?_
        cases more with
        | zero =>
            change (if isMalformed (tokens.head?.map (·.token)) then refuse else throw .tooDeep :
              Parse α).run _ = _
            rw [if_pos hmalformed]
            rfl
        | succ more =>
            rw [show 0 + (more + 1) = more + 1 by omega, run_deeper_succ, hstops _ hmalformed]
            rfl
      · exact .inl rfl
  | succ room =>
      rw [run_deeper_succ, show room + 1 + more = room + more + 1 by omega, run_deeper_succ]
      rcases hp ⟨tokens, line, room⟩ more with hdeep | hsame
      · exact .inl (by rw [hdeep]; rfl)
      · refine .inr ?_
        rw [hsame]
        cases p.run ⟨tokens, line, room⟩ with
        | error refusal => rfl
        | ok first =>
            simp only [Except.map]
            congr 3
            omega

theorem roomy_acceptMark (m : Mark) : Roomy (acceptMark m) := by
  unfold acceptMark
  refine roomy_peek.bind fun t => ?_
  split
  · exact roomy_next.bind fun _ => roomy_pure true
  · exact roomy_pure false

theorem roomy_acceptWord (w : Word) : Roomy (acceptWord w) := by
  unfold acceptWord
  refine roomy_peek.bind fun t => ?_
  split
  · exact roomy_next.bind fun _ => roomy_pure true
  · exact roomy_pure false

theorem roomy_acceptSeparator : Roomy acceptSeparator := by
  refine (roomy_acceptMark _).bind fun found => ?_
  split
  · exact roomy_pure true
  · exact roomy_acceptMark _

theorem roomy_expectMark (m : Mark) : Roomy (expectMark m) := by
  refine (roomy_acceptMark m).bind fun found => ?_
  split
  · exact roomy_pure ()
  · exact roomy_refuse

theorem roomy_expectWord (w : Word) : Roomy (expectWord w) := by
  refine (roomy_acceptWord w).bind fun found => ?_
  split
  · exact roomy_pure ()
  · exact roomy_refuse

theorem roomy_expectName : Roomy expectName := by
  refine roomy_peek.bind fun t => ?_
  split
  · exact roomy_next.bind fun _ => roomy_pure _
  · exact roomy_refuse

theorem roomy_names (fuel : Nat) : Roomy (names fuel) := by
  induction fuel with
  | zero => exact roomy_refuse
  | succ fuel ih =>
      refine roomy_expectName.bind fun id => (roomy_acceptMark _).bind fun found => ?_
      split
      · exact ih.bind fun _ => roomy_pure _
      · exact roomy_pure _

theorem roomy_params (fuel : Nat) : Roomy (params fuel) := by
  induction fuel with
  | zero => exact roomy_refuse
  | succ fuel ih =>
      refine (roomy_acceptMark _).bind fun found => ?_
      split
      · exact roomy_lastLine.bind fun _ => (roomy_expectMark _).bind fun _ => roomy_pure _
      · refine roomy_expectName.bind fun id => (roomy_acceptMark _).bind fun found => ?_
        split
        · exact ih.bind fun _ => roomy_pure _
        · exact roomy_lastLine.bind fun _ => (roomy_expectMark _).bind fun _ => roomy_pure _

theorem roomy_useOfName : Roomy useOfName := by
  refine (roomy_acceptMark _).bind fun found => ?_
  split
  · refine roomy_expectName.bind fun word => (roomy_expectMark _).bind fun _ => ?_
    split
    · exact roomy_pure _
    · split
      · exact roomy_pure _
      · exact roomy_refuse
  · exact roomy_pure _

theorem roomy_attributedNames (fuel : Nat) : Roomy (attributedNames fuel) := by
  induction fuel with
  | zero => exact roomy_refuse
  | succ fuel ih =>
      refine roomy_expectName.bind fun id => roomy_useOfName.bind fun kind =>
        (roomy_acceptMark _).bind fun found => ?_
      split
      · exact ih.bind fun _ => roomy_pure _
      · exact roomy_pure _

private theorem stops_acceptMark (m : Mark) {f : Bool → Parse α} (hf : Stops (f false)) :
    Stops (acceptMark m >>= f) := by
  rw [acceptMark, bind_assoc]
  exact stops_peek hf

private theorem stops_expectMark (m : Mark) : Stops (expectMark m) := stops_acceptMark m stops_refuse

private theorem stops_expectWord (w : Word) : Stops (expectWord w) := by
  rw [expectWord, acceptWord, bind_assoc]
  exact stops_peek stops_refuse

private theorem stops_suffixed (fuel : Nat) : Stops (suffixed fuel) := by
  cases fuel with
  | zero =>
      rw [suffixed]
      exact stops_refuse
  | succ fuel =>
      rw [suffixed]
      exact stops_peek stops_refuse

private theorem stops_simple (fuel : Nat) : Stops (simple fuel) := by
  cases fuel with
  | zero =>
      rw [simple]
      exact stops_refuse
  | succ fuel =>
      rw [simple]
      exact stops_peek (stops_suffixed fuel)

private theorem stops_giveBack (fuel : Nat) : Stops (giveBack fuel) := by
  cases fuel with
  | zero =>
      rw [giveBack]
      exact stops_refuse
  | succ fuel =>
      rw [giveBack]
      exact (stops_expectWord .return).bind _

private theorem stops_statement (fuel : Nat) : Stops (statement fuel) := by
  cases fuel with
  | zero =>
      rw [statement]
      exact stops_refuse
  | succ fuel =>
      rw [statement]
      exact stops_nextLine fun _ => stops_peek ((stops_suffixed fuel).bind _)

private theorem stops_assignment (fuel : Nat) (target : Expr) (before : List Expr) :
    Stops (assignment fuel target before) := by
  cases fuel with
  | zero =>
      rw [assignment]
      exact stops_refuse
  | succ fuel =>
      rw [assignment]
      split
      · exact stops_acceptMark .comma ((stops_expectMark .assign).bind _)
      · exact stops_refuse

/-- All parsers that call each other are, with the same bound on their steps. -/
structure AllRoomy (fuel : Nat) : Prop where
  expr : ∀ limit, Roomy (expr fuel limit)
  operators : ∀ limit left, Roomy (operators fuel limit left)
  simple : Roomy (simple fuel)
  table : Roomy (table fuel)
  fields : Roomy (fields fuel)
  field : Roomy (field fuel)
  function : ∀ before, Roomy (function fuel before)
  suffixed : Roomy (suffixed fuel)
  suffixes : ∀ e, Roomy (suffixes fuel e)
  args : Roomy (args fuel)
  exprs : Roomy (exprs fuel)
  block : Roomy (block fuel)
  giveBack : Roomy (giveBack fuel)
  statement : Roomy (statement fuel)
  labels : Roomy (labels fuel)
  assignment : ∀ target before, Roomy (assignment fuel target before)
  functionTarget : ∀ target line, Roomy (functionTarget fuel target line)
  branch : Roomy (branch fuel)
  arms : Roomy (arms fuel)
  loop : ∀ line, Roomy (loop fuel line)

private theorem allRoomy_zero : AllRoomy 0 := by
  constructor <;> intros <;>
    simp only [Parse.expr, Parse.operators, Parse.simple, Parse.table, Parse.fields, Parse.field,
      Parse.function, Parse.suffixed, Parse.suffixes, Parse.args, Parse.exprs, Parse.block,
      Parse.giveBack, Parse.statement, Parse.labels, Parse.assignment, Parse.functionTarget,
      Parse.branch, Parse.arms, Parse.loop] <;>
    exact roomy_refuse

section Succ

variable {fuel : Nat} (ih : AllRoomy fuel)
include ih

private theorem roomy_expr (limit : Nat) : Roomy (expr (fuel + 1) limit) := by
  rw [Parse.expr]
  refine Roomy.deeper (roomy_peek.bind fun t => ?_)
    (stops_peek ((stops_simple fuel).bind _))
  split
  · exact roomy_next.bind fun _ => (ih.expr _).bind fun _ => ih.operators _ _
  · exact ih.simple.bind fun _ => ih.operators _ _

private theorem roomy_operators (limit : Nat) (left : Expr) :
    Roomy (operators (fuel + 1) limit left) := by
  rw [Parse.operators]
  refine roomy_peek.bind fun t => ?_
  split
  · split
    · exact roomy_next.bind fun _ => (ih.expr _).bind fun _ => ih.operators _ _
    · exact roomy_pure _
  · exact roomy_pure _

private theorem roomy_simple : Roomy (simple (fuel + 1)) := by
  rw [Parse.simple]
  have hliteral (value : Literal) :
      Roomy (do return Expr.literal value (← next).line : Parse Expr) :=
    roomy_next.bind fun _ => roomy_pure _
  refine roomy_peek.bind fun t => ?_
  split
  · exact hliteral _
  · exact hliteral _
  · exact hliteral _
  · exact hliteral _
  · exact hliteral _
  · exact roomy_next.bind fun _ => roomy_pure _
  · exact ih.table
  · exact roomy_next.bind fun _ => (ih.function _).bind fun _ => roomy_pure _
  · exact ih.suffixed

private theorem roomy_table : Roomy (table (fuel + 1)) := by
  rw [Parse.table]
  exact (roomy_expectMark _).bind fun _ => ih.fields.bind fun _ => roomy_pure _

private theorem roomy_fields : Roomy (fields (fuel + 1)) := by
  rw [Parse.fields]
  refine (roomy_acceptMark _).bind fun closed => ?_
  split
  · exact roomy_lastLine.bind fun _ => roomy_pure _
  · refine ih.field.bind fun one => roomy_acceptSeparator.bind fun found => ?_
    split
    · exact roomy_lastLine.bind fun _ => ih.fields.bind fun _ => roomy_pure _
    · exact (roomy_expectMark _).bind fun _ => roomy_lastLine.bind fun _ => roomy_pure _

private theorem roomy_field : Roomy (field (fuel + 1)) := by
  rw [Parse.field]
  refine roomy_get (fun r => ?_) fun _ _ => rfl
  split
  · exact roomy_next.bind fun _ => roomy_next.bind fun _ => (ih.expr _).bind fun _ => roomy_pure _
  · exact roomy_next.bind fun _ => (ih.expr _).bind fun _ => (roomy_expectMark _).bind fun _ =>
      (roomy_expectMark _).bind fun _ => (ih.expr _).bind fun _ => roomy_pure _
  · exact (ih.expr _).bind fun _ => roomy_pure _

private theorem roomy_function (before : List String) : Roomy (function (fuel + 1) before) := by
  rw [Parse.function]
  have hbody (written : List String × Bool × Nat) : Roomy (do
      let body ← block fuel
      expectWord .end
      return Function.mk (before ++ written.1) written.2.1 written.2.2 body : Parse Function) :=
    ih.block.bind fun _ => (roomy_expectWord _).bind fun _ => roomy_pure _
  refine (roomy_expectMark _).bind fun _ => (roomy_acceptMark _).bind fun closed => ?_
  dsimp only
  split
  · exact (roomy_pure _).bind hbody
  · exact (roomy_params _).bind hbody

private theorem roomy_suffixed : Roomy (suffixed (fuel + 1)) := by
  rw [Parse.suffixed]
  refine roomy_peek.bind fun t => ?_
  split
  · exact roomy_next.bind fun _ => ih.suffixes _
  · exact roomy_next.bind fun _ => (ih.expr _).bind fun _ => (roomy_expectMark _).bind fun _ =>
      roomy_lastLine.bind fun _ => ih.suffixes _
  · exact roomy_refuse

private theorem roomy_suffixes (e : Expr) : Roomy (suffixes (fuel + 1) e) := by
  rw [Parse.suffixes]
  have hcall : Roomy (do
      let start ← nextLine
      let args ← args fuel
      suffixes fuel (.call e args start (← lastLine)) : Parse Expr) :=
    roomy_nextLine.bind fun _ => ih.args.bind fun _ => roomy_lastLine.bind fun _ => ih.suffixes _
  refine roomy_peek.bind fun t => ?_
  split
  · exact roomy_next.bind fun _ => roomy_expectName.bind fun _ => roomy_lastLine.bind fun _ =>
      ih.suffixes _
  · exact roomy_next.bind fun _ => (ih.expr _).bind fun _ => (roomy_expectMark _).bind fun _ =>
      roomy_lastLine.bind fun _ => ih.suffixes _
  · exact roomy_next.bind fun _ => roomy_expectName.bind fun _ => roomy_lastLine.bind fun _ =>
      roomy_nextLine.bind fun _ => ih.args.bind fun _ => roomy_lastLine.bind fun _ => ih.suffixes _
  · exact hcall
  · exact hcall
  · exact hcall
  · exact roomy_pure _

private theorem roomy_args : Roomy (args (fuel + 1)) := by
  rw [Parse.args]
  refine roomy_peek.bind fun t => ?_
  split
  · exact roomy_next.bind fun _ => roomy_pure _
  · exact ih.table.bind fun _ => roomy_lastLine.bind fun _ => roomy_pure _
  · refine (roomy_expectMark _).bind fun _ => (roomy_acceptMark _).bind fun closed => ?_
    split
    · exact roomy_pure _
    · exact ih.exprs.bind fun _ => (roomy_expectMark _).bind fun _ =>
        roomy_lastLine.bind fun _ => roomy_pure _

private theorem roomy_exprs : Roomy (exprs (fuel + 1)) := by
  rw [Parse.exprs]
  refine (ih.expr _).bind fun _ => (roomy_acceptMark _).bind fun found => ?_
  split
  · exact roomy_lastLine.bind fun _ => ih.exprs.bind fun _ => roomy_pure _
  · exact roomy_lastLine.bind fun _ => roomy_pure _

private theorem roomy_block : Roomy (block (fuel + 1)) := by
  rw [Parse.block]
  refine roomy_peek.bind fun t => ?_
  split
  · exact roomy_pure _
  · refine roomy_peek.bind fun t => ?_
    split
    · refine (ih.giveBack.deeper (stops_giveBack fuel)).bind fun last => roomy_peek.bind fun t => ?_
      split
      · exact roomy_pure _
      · exact roomy_refuse
    · exact (ih.statement.deeper (stops_statement fuel)).bind fun _ => ih.block.bind fun _ => roomy_pure _

private theorem roomy_giveBack : Roomy (giveBack (fuel + 1)) := by
  rw [Parse.giveBack]
  have hrest (values : List Item) : Roomy (do
      let _ ← acceptMark .semicolon
      return Stat.giveBack values : Parse Stat) :=
    (roomy_acceptMark _).bind fun _ => roomy_pure _
  refine (roomy_expectWord _).bind fun _ => roomy_peek.bind fun _ => roomy_peek.bind fun _ => ?_
  dsimp only
  split
  · exact (roomy_pure _).bind hrest
  · exact ih.exprs.bind hrest

private theorem roomy_statement : Roomy (statement (fuel + 1)) := by
  rw [Parse.statement]
  refine roomy_nextLine.bind fun line => roomy_peek.bind fun t => ?_
  split
  · exact roomy_next.bind fun _ => roomy_pure _
  · exact ih.branch.bind fun _ => roomy_pure _
  · exact roomy_next.bind fun _ => (ih.expr _).bind fun _ => (roomy_expectWord _).bind fun _ =>
      ih.block.bind fun _ => (roomy_expectWord _).bind fun _ => roomy_pure _
  · exact roomy_next.bind fun _ => ih.block.bind fun _ => (roomy_expectWord _).bind fun _ =>
      roomy_pure _
  · exact roomy_next.bind fun _ => (ih.loop _).bind fun _ => roomy_pure _
  · exact roomy_next.bind fun _ => ih.block.bind fun _ => (roomy_expectWord _).bind fun _ =>
      (ih.expr _).bind fun _ => roomy_pure _
  · exact roomy_next.bind fun _ => roomy_expectName.bind fun _ => roomy_lastLine.bind fun _ =>
      (ih.functionTarget _ _).bind fun _ => roomy_pure _
  · refine roomy_next.bind fun _ => (roomy_acceptWord _).bind fun isFunction => ?_
    split
    · exact roomy_expectName.bind fun _ => (ih.function _).bind fun _ => roomy_pure _
    · refine (roomy_attributedNames _).bind fun names => (roomy_acceptMark _).bind fun found => ?_
      split
      · exact ih.exprs.bind fun _ => roomy_pure _
      · exact roomy_pure _
  · exact roomy_next.bind fun _ => roomy_expectName.bind fun _ => (roomy_expectMark _).bind fun _ =>
      ih.labels.bind fun _ => roomy_peek.bind fun _ => roomy_pure _
  · exact roomy_next.bind fun _ => roomy_pure _
  · exact roomy_next.bind fun _ => roomy_expectName.bind fun _ => roomy_pure _
  · refine ih.suffixed.bind fun first => roomy_peek.bind fun _ => roomy_peek.bind fun _ => ?_
    split
    · exact (ih.assignment _ _).bind fun _ => roomy_pure _
    · split
      · exact roomy_pure _
      · exact roomy_refuse

private theorem roomy_labels : Roomy (labels (fuel + 1)) := by
  rw [Parse.labels]
  refine roomy_peek.bind fun _ => roomy_peek.bind fun _ => ?_
  split
  · exact (ih.statement.deeper (stops_statement fuel)).bind fun _ => ih.labels.bind fun _ => roomy_pure _
  · exact roomy_pure _

private theorem roomy_assignment (target : Expr) (before : List Expr) :
    Roomy (assignment (fuel + 1) target before) := by
  rw [Parse.assignment]
  split
  · refine (roomy_acceptMark _).bind fun found => ?_
    split
    · exact ih.suffixed.bind fun _ => (ih.assignment _ _).deeper (stops_assignment fuel _ _)
    · exact (roomy_expectMark _).bind fun _ => ih.exprs.bind fun _ => roomy_pure _
  · exact roomy_refuse

private theorem roomy_functionTarget (target : Expr) (line : Nat) :
    Roomy (functionTarget (fuel + 1) target line) := by
  rw [Parse.functionTarget]
  refine (roomy_acceptMark _).bind fun dot => ?_
  split
  · exact roomy_expectName.bind fun _ => roomy_lastLine.bind fun _ => ih.functionTarget _ _
  · refine (roomy_acceptMark _).bind fun colon => ?_
    split
    · exact roomy_expectName.bind fun _ => roomy_lastLine.bind fun _ => (ih.function _).bind
        fun _ => roomy_pure _
    · exact (ih.function _).bind fun _ => roomy_pure _

private theorem roomy_branch : Roomy (branch (fuel + 1)) := by
  rw [Parse.branch]
  refine ih.arms.bind fun _ => (roomy_acceptWord _).bind fun found => ?_
  split
  · exact ih.block.bind fun _ => (roomy_expectWord _).bind fun _ => roomy_pure _
  · exact (roomy_expectWord _).bind fun _ => roomy_pure _

private theorem roomy_arms : Roomy (arms (fuel + 1)) := by
  rw [Parse.arms]
  refine roomy_next.bind fun _ => (ih.expr _).bind fun _ => (roomy_expectWord _).bind fun _ =>
    roomy_lastLine.bind fun _ => ih.block.bind fun _ => roomy_peek.bind fun t => ?_
  split
  · exact ih.arms.bind fun _ => roomy_pure _
  · exact roomy_pure _

private theorem roomy_loop (line : Nat) : Roomy (loop (fuel + 1) line) := by
  rw [Parse.loop]
  refine roomy_expectName.bind fun first => (roomy_acceptMark _).bind fun found => ?_
  split
  · refine (ih.expr _).bind fun start => (roomy_expectMark _).bind fun _ => (ih.expr _).bind
      fun stop => (roomy_acceptMark _).bind fun found => ?_
    have hrest (step : Option Expr) : Roomy (do
        expectWord .do
        let doLine ← lastLine
        let body ← block fuel
        expectWord .end
        return Stat.count first start stop step doLine line body : Parse Stat) :=
      (roomy_expectWord _).bind fun _ => roomy_lastLine.bind fun _ => ih.block.bind fun _ =>
        (roomy_expectWord _).bind fun _ => roomy_pure _
    dsimp only
    split
    · exact ((ih.expr _).map _).bind hrest
    · exact (roomy_pure _).bind hrest
  · have hrest (rest : List String) : Roomy (do
        expectWord .in
        let here ← nextLine
        let values ← exprs fuel
        expectWord .do
        let doLine ← lastLine
        let body ← block fuel
        expectWord .end
        return Stat.iterate (first :: rest) values doLine here body : Parse Stat) :=
      (roomy_expectWord _).bind fun _ => roomy_nextLine.bind fun _ => ih.exprs.bind fun _ =>
        (roomy_expectWord _).bind fun _ => roomy_lastLine.bind fun _ => ih.block.bind fun _ =>
          (roomy_expectWord _).bind fun _ => roomy_pure _
    refine (roomy_acceptMark _).bind fun found => ?_
    dsimp only
    split
    · exact (roomy_names _).bind hrest
    · exact (roomy_pure _).bind hrest

private theorem AllRoomy.succ : AllRoomy (fuel + 1) where
  expr := roomy_expr ih
  operators := roomy_operators ih
  simple := roomy_simple ih
  table := roomy_table ih
  fields := roomy_fields ih
  field := roomy_field ih
  function := roomy_function ih
  suffixed := roomy_suffixed ih
  suffixes := roomy_suffixes ih
  args := roomy_args ih
  exprs := roomy_exprs ih
  block := roomy_block ih
  giveBack := roomy_giveBack ih
  statement := roomy_statement ih
  labels := roomy_labels ih
  assignment := roomy_assignment ih
  functionTarget := roomy_functionTarget ih
  branch := roomy_branch ih
  arms := roomy_arms ih
  loop := roomy_loop ih

end Succ

/-- By induction on the bound: a parser calls others with a smaller one. -/
theorem allRoomy (fuel : Nat) : AllRoomy fuel := by
  induction fuel with
  | zero => exact allRoomy_zero
  | succ fuel ih => exact ih.succ

theorem chunk_room (room more : Nat) (tokens : List Located) :
    chunk room tokens = .error .tooDeep ∨ chunk (room + more) tokens = chunk room tokens := by
  unfold chunk
  rcases (allRoomy _).block { tokens, line := 1, room } more with hdeep | hsame
  · exact .inl (by rw [hdeep])
  · refine .inr ?_
    rw [hsame]
    cases (block (16 * tokens.length + 16)).run { tokens, line := 1, room } <;> rfl

end Parse

namespace Chunk

/-- Where more calls are under way a text compiles to the same, unless it is then too deep. -/
theorem compile_of_level_le {s s' : State} (hlevel : s'.level ≤ s.level) (name : String)
    (source : Text) :
    compile s name source = .error overflow ∨ compile s name source = compile s' name source := by
  obtain ⟨more, hroom⟩ : ∃ more, room s'.level = room s.level + more :=
    Nat.exists_eq_add_of_le (Nat.sub_le_sub_left hlevel _)
  unfold compile
  rw [hroom]
  split
  · exact .inr rfl
  · rcases Parse.chunk_room (room s.level) more (Token.lex (prelude ++ source)) with hdeep | hsame
    · exact .inl (by rw [hdeep])
    · exact .inr (by rw [hsame])

end Chunk

end Stencil.Lua
