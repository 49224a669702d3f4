import Stencil.Proofs.Lua.Phrases
import Stencil.Proofs.Lua.Room
/-!
# What parsers take

A parser takes tokens from the front of what is left to read. All that the parsers of statements and
expressions take are phrases.
-/
namespace Stencil.Lua.Parse

variable {α β : Type} {r : Reading}

def left (r : Reading) : List Token := r.tokens.map (·.token)

/-- Where the parser succeeds, it takes tokens from the front, and they are as said. -/
def Takes (taken : List Token → Prop) (p : Parse α) (r : Reading) : Prop :=
  ∀ a r', p.run r = .ok (a, r') → ∃ c, left r = c ++ left r' ∧ taken c

section Takes

variable {taken taken' : List Token → Prop} {p : Parse α} {f : α → Parse β}

theorem Takes.imp (h : Takes taken p r) (himp : ∀ c, taken c → taken' c) : Takes taken' p r := by
  intro a r' hrun
  obtain ⟨c, hleft, hc⟩ := h a r' hrun
  exact ⟨c, hleft, himp c hc⟩

theorem takes_pure {a : α} (h : taken []) : Takes taken (pure a : Parse α) r := by
  intro a' r' hrun
  obtain ⟨-, rfl⟩ : a = a' ∧ r = r' := by
    have hok : (Except.ok (a, r) : Except Refusal (α × Reading)) = .ok (a', r') := hrun
    simpa using hok
  exact ⟨[], rfl, h⟩

theorem takes_refuse : Takes taken (refuse : Parse α) r := by
  intro a r' hrun
  cases hrun

/-- What is taken first comes before what is taken then. -/
theorem Takes.bind (hp : Takes taken p r)
    (hf : ∀ a c r', taken c → left r = c ++ left r' → Takes (fun c' => taken' (c ++ c')) (f a) r') :
    Takes taken' (p >>= f) r := by
  intro b r'' hrun
  rw [StateT.run_bind] at hrun
  cases hfirst : p.run r with
  | error refusal =>
      rw [hfirst] at hrun
      cases hrun
  | ok first =>
      rw [hfirst] at hrun
      obtain ⟨c, hleft, hc⟩ := hp _ _ hfirst
      obtain ⟨c', hleft', hc'⟩ := hf _ c _ hc hleft b r'' hrun
      exact ⟨c ++ c', by rw [hleft, hleft', List.append_assoc], hc'⟩

/-- What is returned with what a parser reads takes nothing more. -/
theorem Takes.returning (hp : Takes taken p r) {g : α → β} (h : ∀ c, taken c → taken' c) :
    Takes taken' (p >>= fun a => pure (g a)) r := by
  refine hp.bind fun a c r' hc _ => takes_pure ?_
  rw [List.append_nil]
  exact h c hc

theorem Takes.map (hp : Takes taken p r) (g : α → β) : Takes taken (g <$> p) r := by
  rw [map_eq_pure_bind]
  exact hp.returning fun _ hc => hc

/-! ## One token -/

theorem takes_get {g : Reading → Parse β} (h : Takes taken (g r) r) : Takes taken (get >>= g) r := h

theorem takes_peek {g : Option Token → Parse β} (h : Takes taken (g (left r).head?) r) :
    Takes taken (peek >>= g) r := by
  rw [left, List.head?_map] at h
  exact h

theorem takes_nextLine {g : Nat → Parse β} (h : ∀ line, Takes taken (g line) r) :
    Takes taken (nextLine >>= g) r := h _

theorem takes_lastLine {g : Nat → Parse β} (h : ∀ line, Takes taken (g line) r) :
    Takes taken (lastLine >>= g) r := h _

theorem takes_next {t : Token} {g : Located → Parse β} (hhead : (left r).head? = some t)
    (h : ∀ l r', left r = t :: left r' → Takes (fun c => taken (t :: c)) (g l) r') :
    Takes taken (next >>= g) r := by
  have hnext : Takes (fun c => c = [t]) next r := by
    obtain ⟨tokens, line, room⟩ := r
    cases tokens with
    | nil => simp [left] at hhead
    | cons l tokens =>
        intro a r' hrun
        obtain ⟨rfl, rfl⟩ : l = a ∧ (⟨tokens, l.line, room⟩ : Reading) = r' := by
          have hok : (Except.ok (l, ⟨tokens, l.line, room⟩) : Except Refusal (Located × Reading)) =
              .ok (a, r') := hrun
          simpa using hok
        refine ⟨[t], ?_, rfl⟩
        simpa [left] using hhead
  refine hnext.bind fun l c r' hc hleft => ?_
  subst hc
  exact h l r' hleft

theorem eq_of_isMark {m : Mark} {t : Option Token} (h : isMark m t = true) :
    t = some (.mark m) := by
  unfold isMark at h
  split at h
  · rw [of_decide_eq_true h]
  · simp at h

theorem eq_of_isWord {w : Word} {t : Option Token} (h : isWord w t = true) :
    t = some (.word w) := by
  unfold isWord at h
  split at h
  · rw [of_decide_eq_true h]
  · simp at h

theorem takes_acceptMark {m : Mark} {g : Bool → Parse β}
    (hfound : ∀ r', left r = .mark m :: left r' → Takes (fun c => taken (.mark m :: c)) (g true) r')
    (hnot : Takes taken (g false) r) : Takes taken (acceptMark m >>= g) r := by
  rw [acceptMark, bind_assoc]
  refine takes_peek ?_
  split
  · rename_i hmark
    rw [bind_assoc]
    exact takes_next (eq_of_isMark hmark) fun _ r' hleft => hfound r' hleft
  · exact hnot

theorem takes_acceptWord {w : Word} {g : Bool → Parse β}
    (hfound : ∀ r', left r = .word w :: left r' → Takes (fun c => taken (.word w :: c)) (g true) r')
    (hnot : Takes taken (g false) r) : Takes taken (acceptWord w >>= g) r := by
  rw [acceptWord, bind_assoc]
  refine takes_peek ?_
  split
  · rename_i hword
    rw [bind_assoc]
    exact takes_next (eq_of_isWord hword) fun _ r' hleft => hfound r' hleft
  · exact hnot

theorem takes_expectMark {m : Mark} {g : Unit → Parse β}
    (h : ∀ r', left r = .mark m :: left r' → Takes (fun c => taken (.mark m :: c)) (g ()) r') :
    Takes taken (expectMark m >>= g) r := by
  rw [expectMark, bind_assoc]
  exact takes_acceptMark h takes_refuse

theorem takes_expectWord {w : Word} {g : Unit → Parse β}
    (h : ∀ r', left r = .word w :: left r' → Takes (fun c => taken (.word w :: c)) (g ()) r') :
    Takes taken (expectWord w >>= g) r := by
  rw [expectWord, bind_assoc]
  exact takes_acceptWord h takes_refuse

theorem takes_expectName {g : String → Parse β}
    (h : ∀ id r', left r = .name id :: left r' → Takes (fun c => taken (.name id :: c)) (g id) r') :
    Takes taken (expectName >>= g) r := by
  rw [expectName, bind_assoc]
  refine takes_peek ?_
  split
  · rename_i id hname
    rw [bind_assoc]
    exact takes_next hname fun _ r' hleft => h id r' hleft
  · exact takes_refuse

theorem takes_acceptSeparator {g : Bool → Parse β}
    (hfound : ∀ t r', t.isPlain = true → left r = t :: left r' →
      Takes (fun c => taken (t :: c)) (g true) r')
    (hnot : Takes taken (g false) r) : Takes taken (acceptSeparator >>= g) r := by
  rw [acceptSeparator, bind_assoc]
  refine takes_acceptMark (fun r' hleft => ?_) ?_
  · exact hfound _ r' rfl hleft
  · exact takes_acceptMark (fun r' hleft => hfound _ r' rfl hleft) hnot

/-- Lying deeper changes nothing about what is taken. -/
theorem takes_deeper (h : ∀ r', left r' = left r → Takes taken p r') : Takes taken (deeper p) r := by
  obtain ⟨tokens, line, room⟩ := r
  intro a r' hrun
  cases room with
  | zero =>
      change (if isMalformed (tokens.head?.map (·.token)) then refuse else throw .tooDeep :
        Parse α).run _ = _ at hrun
      split at hrun <;> cases hrun
  | succ room =>
      rw [run_deeper_succ] at hrun
      cases hinside : p.run ⟨tokens, line, room⟩ with
      | error refusal =>
          rw [hinside] at hrun
          cases hrun
      | ok first =>
          obtain ⟨c, hleft, hc⟩ := h ⟨tokens, line, room⟩ rfl _ _ hinside
          rw [hinside] at hrun
          cases hrun
          exact ⟨c, hleft, hc⟩

end Takes

/-! ## Lists of names -/

private theorem takes_names (fuel : Nat) (r : Reading) : Takes Phrase (names fuel) r := by
  induction fuel generalizing r with
  | zero => exact takes_refuse
  | succ fuel ih =>
      refine takes_expectName fun id r' _ => takes_acceptMark (fun r' _ => ?_) ?_
      · exact (ih r').returning fun c hc => (hc.cons rfl).cons rfl
      · exact takes_pure (phrase_nil.cons rfl)

/-- A phrase and the parenthesis that closes it. -/
def Closing (c : List Token) : Prop := ∃ inside, c = inside ++ [.mark .closeParen] ∧ Phrase inside

private theorem closing_single : Closing [.mark .closeParen] := ⟨[], rfl, phrase_nil⟩

private theorem Closing.cons {c : List Token} {t : Token} (h : Closing c) (ht : t.isPlain = true) :
    Closing (t :: c) := by
  obtain ⟨inside, rfl, hinside⟩ := h
  exact ⟨t :: inside, rfl, hinside.cons ht⟩

private theorem takes_params (fuel : Nat) (r : Reading) : Takes Closing (params fuel) r := by
  induction fuel generalizing r with
  | zero => exact takes_refuse
  | succ fuel ih =>
      refine takes_acceptMark (fun r' _ => ?_) ?_
      · exact takes_lastLine fun _ => takes_expectMark fun r' _ =>
          takes_pure (closing_single.cons rfl)
      · refine takes_expectName fun id r' _ => takes_acceptMark (fun r' _ => ?_) ?_
        · exact (ih r').returning fun c hc => (hc.cons rfl).cons rfl
        · exact takes_lastLine fun _ => takes_expectMark fun r' _ =>
            takes_pure (closing_single.cons rfl)

private theorem takes_useOfName (r : Reading) : Takes Phrase useOfName r := by
  refine takes_acceptMark (fun r' _ => ?_) (takes_pure phrase_nil)
  refine takes_expectName fun word r' _ => takes_expectMark fun r' _ => ?_
  have hphrase : Phrase [.mark .less, .name word, .mark .greater] :=
    ((phrase_nil.cons rfl).cons rfl).cons rfl
  split
  · exact takes_pure hphrase
  · split
    · exact takes_pure hphrase
    · exact takes_refuse

private theorem takes_attributedNames (fuel : Nat) (r : Reading) :
    Takes Phrase (attributedNames fuel) r := by
  induction fuel generalizing r with
  | zero => exact takes_refuse
  | succ fuel ih =>
      refine takes_expectName fun id r' _ => (takes_useOfName r').bind fun kind c r' hc _ =>
        takes_acceptMark (fun r' _ => ?_) ?_
      · exact (ih r').returning fun c' hc' => (hc.append (hc'.cons rfl)).cons rfl
      · exact takes_pure (by simpa using hc.cons (t := .name id) rfl)

/-! ## Expressions and statements -/

/-- What the parsers that call each other take, with the same bound on their steps. -/
structure AllTake (fuel : Nat) : Prop where
  expr : ∀ limit r, Takes Expression (expr fuel limit) r
  operators : ∀ limit left r, Takes Continuation (operators fuel limit left) r
  simple : ∀ r, Takes Expression (simple fuel) r
  table : ∀ r, Takes Expression (table fuel) r
  fields : ∀ r, Takes Phrase (fields fuel) r
  field : ∀ r, Takes Phrase (field fuel) r
  function : ∀ before r, Takes Phrase (function fuel before) r
  suffixed : ∀ r, Takes Expression (suffixed fuel) r
  suffixes : ∀ e r, Takes Continuation (suffixes fuel e) r
  args : ∀ r, Takes Phrase (args fuel) r
  exprs : ∀ r, Takes Phrase (exprs fuel) r
  block : ∀ r, Takes Body (block fuel) r
  giveBack : ∀ r, Takes Sentence (giveBack fuel) r
  statement : ∀ r, Takes Sentence (statement fuel) r
  labels : ∀ r, Takes Phrase (labels fuel) r
  assignment : ∀ target before r, Takes Phrase (assignment fuel target before) r
  functionTarget : ∀ target line r, Takes Phrase (functionTarget fuel target line) r
  branch : ∀ r, (left r).head? = some (.word .if) → Takes Sentence (branch fuel) r
  arms : ∀ r w, (left r).head? = some (.word w) → w = .if ∨ w = .elseif →
    Takes Sentence (arms fuel) r
  loop : ∀ line r, Takes (fun c => Phrase (.word .for :: c)) (loop fuel line) r

private theorem allTake_zero : AllTake 0 := by
  constructor <;> intros <;>
    simp only [Parse.expr, Parse.operators, Parse.simple, Parse.table, Parse.fields, Parse.field,
      Parse.function, Parse.suffixed, Parse.suffixes, Parse.args, Parse.exprs, Parse.block,
      Parse.giveBack, Parse.statement, Parse.labels, Parse.assignment, Parse.functionTarget,
      Parse.branch, Parse.arms, Parse.loop] <;>
    exact takes_refuse

/-- A prefix operator begins an expression. -/
private theorem of_unaryOf? {t : Option Token} {op : Unary} (h : unaryOf? t = some op) :
    ∃ t', t = some t' ∧ t'.isPlain = true ∧ t'.isStop = false := by
  unfold unaryOf? at h
  split at h
  · exact ⟨_, rfl, rfl, rfl⟩
  · exact ⟨_, rfl, rfl, rfl⟩
  · exact ⟨_, rfl, rfl, rfl⟩
  · exact ⟨_, rfl, rfl, rfl⟩
  · simp at h

/-- An infix operator goes on with an expression. -/
private theorem of_infix {t : Token} {op : Infix} (h : Infix.ofToken? t = some op) :
    t.continues = true ∧ t.isPlain = true := by
  cases t with
  | word w => cases w <;> first | exact ⟨rfl, rfl⟩ | simp [Infix.ofToken?] at h
  | mark m =>
      cases m <;> first | exact ⟨rfl, rfl⟩ | simp [Infix.ofToken?, Infix.ofMark?] at h
  | _ => simp [Infix.ofToken?] at h

/-- A sentence that begins where a block goes on, and the rest of the block. -/
private theorem body_of_sentence {c c' rest : List Token} (h : Sentence c) (h' : Phrase c')
    (hgoes : endsBlock (c ++ rest).head? = false) : Body (c ++ c') := by
  obtain ⟨t, hhead, hcolon⟩ := h.begins
  refine ⟨h.phrase.append h', fun t' ht' => ?_⟩
  have hsame : t = t' := by simpa [hhead] using ht'
  subst hsame
  refine ⟨hcolon, ?_⟩
  rintro rfl
  simp [hhead, endsBlock, endsInside] at hgoes

section Succ

variable {fuel : Nat} (ih : AllTake fuel)
include ih

private theorem takes_expr (limit : Nat) (r : Reading) : Takes Expression (expr (fuel + 1) limit) r := by
  rw [Parse.expr]
  refine takes_deeper fun r' _ => takes_peek ?_
  split
  · rename_i op hop
    obtain ⟨t, hhead, hplain, hstop⟩ := of_unaryOf? hop
    refine takes_next hhead fun l r' _ => (ih.expr _ r').bind fun operand c r' hc _ =>
      (ih.operators _ _ r').imp fun c' hc' => ?_
    exact expression_cons (hc.append hc').phrase hplain hstop
  · exact (ih.simple r').bind fun _ c r' hc _ => (ih.operators _ _ r').imp fun c' hc' => hc.append hc'

private theorem takes_operators (limit : Nat) (e : Expr) (r : Reading) :
    Takes Continuation (operators (fuel + 1) limit e) r := by
  rw [Parse.operators]
  refine takes_peek ?_
  split
  · rename_i op hop
    obtain ⟨t, hhead, ht⟩ := Option.bind_eq_some_iff.mp hop
    obtain ⟨hcontinues, hplain⟩ := of_infix ht
    split
    · refine takes_next hhead fun l r' _ => (ih.expr _ r').bind fun right c r' hc _ =>
        (ih.operators _ _ r').imp fun c' hc' => ?_
      exact ((hc.append hc').phrase.cons hplain).continuation hcontinues
    · exact takes_pure continuation_nil
  · exact takes_pure continuation_nil

private theorem takes_simple (r : Reading) : Takes Expression (simple (fuel + 1)) r := by
  rw [Parse.simple]
  have hsingle {t : Token} {g : Located → Expr} (hhead : (left r).head? = some t)
      (hplain : t.isPlain = true) (hstop : t.isStop = false) :
      Takes Expression (do return g (← next)) r :=
    takes_next hhead fun l r' _ => takes_pure (expression_cons phrase_nil hplain hstop)
  refine takes_peek ?_
  split
  · exact hsingle ‹_› rfl rfl
  · exact hsingle ‹_› rfl rfl
  · exact hsingle ‹_› rfl rfl
  · exact hsingle ‹_› rfl rfl
  · exact hsingle ‹_› rfl rfl
  · exact hsingle ‹_› rfl rfl
  · exact ih.table r
  · exact takes_next ‹_› fun l r' _ => (ih.function _ r').returning fun c hc =>
      expression_cons hc rfl rfl
  · exact ih.suffixed r

private theorem takes_table (r : Reading) : Takes Expression (table (fuel + 1)) r := by
  rw [Parse.table]
  exact takes_expectMark fun r' _ => (ih.fields r').returning fun c hc => expression_cons hc rfl rfl

private theorem takes_fields (r : Reading) : Takes Phrase (fields (fuel + 1)) r := by
  rw [Parse.fields]
  refine takes_acceptMark (fun r' _ => ?_) ?_
  · exact takes_lastLine fun _ => takes_pure (phrase_nil.cons rfl)
  · refine (ih.field r).bind fun one c r' hc _ => takes_acceptSeparator (fun t r' ht _ => ?_) ?_
    · exact takes_lastLine fun _ => (ih.fields r').returning fun c' hc' =>
        hc.append (hc'.cons ht)
    · exact takes_expectMark fun r' _ => takes_lastLine fun _ => takes_pure
        (hc.append (phrase_nil.cons rfl))

private theorem takes_field (r : Reading) : Takes Phrase (field (fuel + 1)) r := by
  rw [Parse.field]
  refine takes_get ?_
  split
  · rename_i id line line' tokens htokens
    refine takes_next (t := .name id) (by simp [left, htokens]) fun l r' hleft =>
      takes_next (t := .mark .assign) ?_ fun l r' _ => (ih.expr _ r').returning fun c hc =>
        (hc.phrase.cons rfl).cons rfl
    have hrest : left r' = .mark .assign :: tokens.map (·.token) := by
      simpa [left, htokens] using hleft.symm
    rw [hrest]
    rfl
  · rename_i line tokens htokens
    refine takes_next (t := .mark .openBracket) (by simp [left, htokens]) fun l r' _ =>
      (ih.expr _ r').bind fun key c r' hc _ => takes_expectMark fun r' _ => takes_expectMark fun r' _ =>
        (ih.expr _ r').returning fun c' hc' => ?_
    exact (hc.phrase.append ((hc'.phrase.cons rfl).cons rfl)).cons rfl
  · exact (ih.expr _ r).returning fun c hc => hc.phrase

private theorem takes_function (before : List String) (r : Reading) :
    Takes Phrase (function (fuel + 1) before) r := by
  rw [Parse.function]
  have hbody (params : List String × Bool × Nat) (r : Reading) : Takes Phrase (do
      let body ← block fuel
      expectWord .end
      return Function.mk (before ++ params.1) params.2.1 params.2.2 body : Parse Function) r :=
    (ih.block r).bind fun _ c r' hc _ => takes_expectWord fun r' _ => takes_pure
      (hc.phrase.append (phrase_nil.cons rfl))
  refine takes_expectMark fun r' _ => takes_acceptMark (fun r' _ => ?_) ?_
  · refine (hbody ([], false, 0) r').imp fun c hc => ?_
    exact phrase_nil.group.append hc
  · refine (takes_params fuel r').bind fun params c r' hc _ => (hbody params r').imp fun c' hc' => ?_
    obtain ⟨inside, rfl, hinside⟩ := hc
    exact hinside.group.append hc'

private theorem takes_suffixed (r : Reading) : Takes Expression (suffixed (fuel + 1)) r := by
  rw [Parse.suffixed]
  refine takes_peek ?_
  split
  · refine takes_next ‹_› fun l r' _ => (ih.suffixes _ r').imp fun c hc => ?_
    exact expression_cons hc.phrase rfl rfl
  · refine takes_next ‹_› fun l r' _ => (ih.expr _ r').bind fun inner c r' hc _ =>
      takes_expectMark fun r' _ => takes_lastLine fun _ => (ih.suffixes _ r').imp fun c' hc' => ?_
    simpa using (expression_group hc.phrase).append hc'
  · exact takes_refuse

private theorem takes_suffixes (e : Expr) (r : Reading) :
    Takes Continuation (suffixes (fuel + 1) e) r := by
  rw [Parse.suffixes]
  have hcall {t : Token} (hhead : (left r).head? = some t) (ht : t.continues = true) :
      Takes Continuation (do
        let start ← nextLine
        let args ← args fuel
        suffixes fuel (.call e args start (← lastLine)) : Parse Expr) r := by
    refine takes_nextLine fun _ => (ih.args r).bind fun args c r' hc hleft => takes_lastLine fun _ =>
      (ih.suffixes _ r').imp fun c' hc' => ⟨hc.append hc'.phrase, fun t' ht' => ?_⟩
    cases c with
    | nil => exact hc'.continues t' ht'
    | cons t'' c =>
        rw [hleft] at hhead
        obtain rfl := Option.some.inj hhead
        obtain rfl := Option.some.inj ht'
        exact ht
  refine takes_peek ?_
  split
  · refine takes_next ‹_› fun l r' _ => takes_expectName fun id r' _ => takes_lastLine fun _ =>
      (ih.suffixes _ r').imp fun c hc => ?_
    exact ((hc.phrase.cons rfl).cons rfl).continuation rfl
  · refine takes_next ‹_› fun l r' _ => (ih.expr _ r').bind fun key c r' hc _ =>
      takes_expectMark fun r' _ => takes_lastLine fun _ => (ih.suffixes _ r').imp fun c' hc' => ?_
    exact ((hc.phrase.append (hc'.phrase.cons rfl)).cons rfl).continuation rfl
  · refine takes_next ‹_› fun l r' _ => takes_expectName fun id r' _ => takes_lastLine fun _ =>
      takes_nextLine fun _ => (ih.args r').bind fun args c r' hc _ => takes_lastLine fun _ =>
        (ih.suffixes _ r').imp fun c' hc' => ?_
    exact (((hc.append hc'.phrase).cons rfl).cons rfl).continuation rfl
  · exact hcall ‹_› rfl
  · exact hcall ‹_› rfl
  · exact hcall ‹_› rfl
  · exact takes_pure continuation_nil

private theorem takes_args (r : Reading) : Takes Phrase (args (fuel + 1)) r := by
  rw [Parse.args]
  refine takes_peek ?_
  split
  · exact takes_next ‹_› fun l r' _ => takes_pure (phrase_nil.cons rfl)
  · refine (ih.table r).bind fun value c r' hc _ => takes_lastLine fun _ => takes_pure ?_
    rw [List.append_nil]
    exact hc.phrase
  · refine takes_expectMark fun r' _ => takes_acceptMark (fun r' _ => ?_) ?_
    · exact takes_pure phrase_nil.group
    · exact (ih.exprs r').bind fun items c r' hc _ => takes_expectMark fun r' _ =>
        takes_lastLine fun _ => takes_pure hc.group

private theorem takes_exprs (r : Reading) : Takes Phrase (exprs (fuel + 1)) r := by
  rw [Parse.exprs]
  refine (ih.expr _ r).bind fun e c r' hc _ => takes_acceptMark (fun r' _ => ?_) ?_
  · refine takes_lastLine fun _ => (ih.exprs r').returning fun c' hc' => ?_
    exact hc.phrase.append (hc'.cons rfl)
  · refine takes_lastLine fun _ => takes_pure ?_
    rw [List.append_nil]
    exact hc.phrase

private theorem takes_giveBack (r : Reading) : Takes Sentence (giveBack (fuel + 1)) r := by
  rw [Parse.giveBack]
  have hrest (values : List Item) (r : Reading) : Takes Phrase (do
      let _ ← acceptMark .semicolon
      return Stat.giveBack values : Parse Stat) r :=
    takes_acceptMark (fun r' _ => takes_pure (phrase_nil.cons rfl)) (takes_pure phrase_nil)
  refine takes_expectWord fun r' _ => takes_peek (takes_peek ?_)
  split
  · exact (hrest [] r').imp fun c hc => ⟨hc.cons rfl, _, rfl, by simp⟩
  · exact (ih.exprs r').bind fun values c r' hc _ => (hrest values r').imp fun c' hc' =>
      ⟨(hc.append hc').cons rfl, _, rfl, by simp⟩

private theorem takes_block (r : Reading) : Takes Body (block (fuel + 1)) r := by
  rw [Parse.block]
  refine takes_peek ?_
  split
  · exact takes_pure ⟨phrase_nil, by simp⟩
  · rename_i hgoes
    rw [Bool.not_eq_true] at hgoes
    refine takes_peek ?_
    split
    · refine (takes_deeper fun r' _ => ih.giveBack r').bind fun last c r' hc hleft => takes_peek ?_
      split
      · exact takes_pure (body_of_sentence hc phrase_nil (hleft ▸ hgoes))
      · exact takes_refuse
    · refine (takes_deeper fun r' _ => ih.statement r').bind fun first c r' hc hleft =>
        (ih.block r').returning fun c' hc' => ?_
      exact body_of_sentence hc hc'.phrase (hleft ▸ hgoes)

private theorem takes_statement (r : Reading) : Takes Sentence (statement (fuel + 1)) r := by
  rw [Parse.statement]
  have hended {t : Token} {c : List Token} (ht : t.isPlain = true) (hcolon : t ≠ .mark .colon)
      (hc : Phrase c) : Sentence (t :: c) := ⟨hc.cons ht, t, rfl, hcolon⟩
  refine takes_nextLine fun line => takes_peek ?_
  split
  · exact takes_next ‹_› fun _ r' _ => takes_pure (hended rfl (by simp) phrase_nil)
  · exact (ih.branch r ‹_›).returning fun c hc => hc
  · refine takes_next ‹_› fun _ r' _ => (ih.expr _ r').bind fun condition c r' hc _ =>
      takes_expectWord fun r' _ => (ih.block r').bind fun body c' r' hc' _ =>
        takes_expectWord fun r' _ => takes_pure ⟨?_, _, rfl, by simp⟩
    exact hc.guard (.inr (.inr rfl)) rfl rfl (hc'.phrase.append (phrase_nil.cons rfl))
  · refine takes_next ‹_› fun _ r' _ => (ih.block r').bind fun body c r' hc _ =>
      takes_expectWord fun r' _ => takes_pure (hended rfl (by simp) ?_)
    exact hc.phrase.append (phrase_nil.cons rfl)
  · exact takes_next ‹_› fun _ r' _ => (ih.loop line r').returning fun c hc =>
      ⟨hc, _, rfl, by simp⟩
  · refine takes_next ‹_› fun _ r' _ => (ih.block r').bind fun body c r' hc _ =>
      takes_expectWord fun r' _ => (ih.expr _ r').returning fun c' hc' =>
        hended rfl (by simp) ?_
    exact hc.phrase.append (hc'.phrase.cons rfl)
  · refine takes_next ‹_› fun _ r' _ => takes_expectName fun id r' _ => takes_lastLine fun _ =>
      (ih.functionTarget _ _ r').returning fun c hc => hended rfl (by simp) ?_
    exact hc.cons rfl
  · refine takes_next ‹_› fun _ r' _ => takes_acceptWord (fun r' _ => ?_) ?_
    · refine takes_expectName fun id r' _ => (ih.function _ r').returning fun c hc =>
        hended rfl (by simp) ?_
      exact (hc.cons rfl).cons rfl
    · refine (takes_attributedNames fuel r').bind fun names c r' hc _ =>
        takes_acceptMark (fun r' _ => ?_) ?_
      · refine (ih.exprs r').returning fun c' hc' => hended rfl (by simp) ?_
        exact hc.append (hc'.cons rfl)
      · refine takes_pure (hended rfl (by simp) ?_)
        rwa [List.append_nil]
  · refine takes_next ‹_› fun _ r' _ => takes_expectName fun id r' _ => takes_expectMark fun r' _ =>
      (ih.labels r').bind fun _ c r' hc _ => takes_peek (takes_pure (hended rfl (by simp) ?_))
    rw [List.append_nil]
    exact (hc.cons rfl).cons rfl
  · exact takes_next ‹_› fun _ r' _ => takes_pure (hended rfl (by simp) phrase_nil)
  · exact takes_next ‹_› fun _ r' _ => takes_expectName fun _ r' _ => takes_pure
      (hended rfl (by simp) (phrase_nil.cons rfl))
  · refine (ih.suffixed r).bind fun first c r' hc _ => takes_peek (takes_peek ?_)
    have hbegins : Sentence c := by
      obtain ⟨t, hhead, hstop⟩ := hc.condition.begins
      refine ⟨hc.phrase, t, hhead, ?_⟩
      rintro rfl
      simp [Token.isStop] at hstop
    split
    · exact (ih.assignment _ _ r').returning fun c' hc' => hbegins.append hc'
    · split
      · exact takes_pure (by rwa [List.append_nil])
      · exact takes_refuse

private theorem takes_labels (r : Reading) : Takes Phrase (labels (fuel + 1)) r := by
  rw [Parse.labels]
  refine takes_peek (takes_peek ?_)
  split
  · refine (takes_deeper fun r' _ => ih.statement r').bind fun first c r' hc _ =>
      (ih.labels r').returning fun c' hc' => ?_
    exact hc.phrase.append hc'
  · exact takes_pure phrase_nil

private theorem takes_assignment (target : Expr) (before : List Expr) (r : Reading) :
    Takes Phrase (assignment (fuel + 1) target before) r := by
  rw [Parse.assignment]
  split
  · refine takes_acceptMark (fun r' _ => ?_) ?_
    · refine (ih.suffixed r').bind fun another c r' hc _ =>
        (takes_deeper fun r' _ => ih.assignment _ _ r').imp fun c' hc' => ?_
      exact (hc.phrase.append hc').cons rfl
    · exact takes_expectMark fun r' _ => (ih.exprs r').returning fun c hc => hc.cons rfl
  · exact takes_refuse

private theorem takes_functionTarget (target : Expr) (line : Nat) (r : Reading) :
    Takes Phrase (functionTarget (fuel + 1) target line) r := by
  rw [Parse.functionTarget]
  refine takes_acceptMark (fun r' _ => ?_) (takes_acceptMark (fun r' _ => ?_) ?_)
  · refine takes_expectName fun id r' _ => takes_lastLine fun _ =>
      (ih.functionTarget _ _ r').imp fun c hc => ?_
    exact (hc.cons rfl).cons rfl
  · refine takes_expectName fun id r' _ => takes_lastLine fun _ =>
      (ih.function _ r').returning fun c hc => ?_
    exact (hc.cons rfl).cons rfl
  · exact (ih.function _ r).returning fun c hc => hc

private theorem takes_branch (r : Reading) (hif : (left r).head? = some (.word .if)) :
    Takes Sentence (branch (fuel + 1)) r := by
  rw [Parse.branch]
  refine (ih.arms r .if hif (.inl rfl)).bind fun arms c r' hc _ =>
    takes_acceptWord (fun r' _ => ?_) ?_
  · refine (ih.block r').bind fun otherwise c' r' hc' _ => takes_expectWord fun r' _ =>
      takes_pure (hc.append ?_)
    exact hc'.otherwise
  · exact takes_expectWord fun r' _ => takes_pure (hc.append (phrase_nil.cons rfl))

private theorem takes_arms (r : Reading) (w : Word) (hhead : (left r).head? = some (.word w))
    (hw : w = .if ∨ w = .elseif) : Takes Sentence (arms (fuel + 1)) r := by
  rw [Parse.arms]
  refine takes_next hhead fun _ r' _ => (ih.expr _ r').bind fun condition c r' hc _ =>
    takes_expectWord fun r' _ => takes_lastLine fun _ => (ih.block r').bind fun body c' r' hc' _ =>
      takes_peek ?_
  have hguard {c'' : List Token} (h : Phrase c'') :
      Sentence (.word w :: (c ++ .word .then :: (c' ++ c''))) :=
    ⟨hc.guard (hw.imp_right .inl) rfl rfl (hc'.phrase.append h), _, rfl, by simp⟩
  split
  · rename_i hanother
    refine (ih.arms r' .elseif (eq_of_isWord hanother) (.inr rfl)).returning fun c'' hc'' => ?_
    exact hguard hc''.phrase
  · exact takes_pure (hguard phrase_nil)

private theorem takes_loop (line : Nat) (r : Reading) :
    Takes (fun c => Phrase (.word .for :: c)) (loop (fuel + 1) line) r := by
  rw [Parse.loop]
  have hbody (finish : Nat → Block → Stat) (r : Reading) : Takes Phrase (do
      expectWord .do
      let doLine ← lastLine
      let body ← block fuel
      expectWord .end
      return finish doLine body : Parse Stat) r :=
    takes_expectWord fun r' _ => takes_lastLine fun _ => (ih.block r').bind fun body c r' hc _ =>
      takes_expectWord fun r' _ => takes_pure ((hc.phrase.append (phrase_nil.cons rfl)).cons rfl)
  have hvalues (names : List String) (r : Reading) : Takes Phrase (do
      expectWord .in
      let here ← nextLine
      let values ← exprs fuel
      expectWord .do
      let doLine ← lastLine
      let body ← block fuel
      expectWord .end
      return .iterate names values doLine here body : Parse Stat) r :=
    takes_expectWord fun r' _ => takes_nextLine fun here => (ih.exprs r').bind fun values c r' hc _ =>
      (hbody (fun doLine => .iterate names values doLine here) r').imp fun c' hc' =>
        (hc.append hc').cons rfl
  refine takes_expectName fun first r' _ => takes_acceptMark (fun r' _ => ?_) ?_
  · refine (ih.expr _ r').bind fun start c r' hc _ => takes_expectMark fun r' _ =>
      (ih.expr _ r').bind fun stop c' r' hc' _ => takes_acceptMark (fun r' _ => ?_) ?_
    · refine ((ih.expr _ r').map some).bind fun step c'' r' hc'' _ =>
        (hbody (fun doLine => .count first start stop step doLine line) r').imp fun c₃ hc₃ => ?_
      have hstep := (hc''.phrase.append hc₃).cons (t := .mark .comma) rfl
      exact ((hc.phrase.append ((hc'.phrase.append hstep).cons rfl)).cons rfl).loop
    · refine (hbody (fun doLine => .count first start stop none doLine line) r').imp fun c'' hc'' => ?_
      exact ((hc.phrase.append ((hc'.phrase.append hc'').cons rfl)).cons rfl).loop
  · refine takes_acceptMark (fun r' _ => ?_) ?_
    · exact (takes_names fuel r').bind fun rest c r' hc _ => (hvalues (first :: rest) r').imp
        fun c' hc' => ((hc.append hc').cons rfl).loop
    · exact (hvalues [first] r').imp fun c hc => hc.loop

end Succ

theorem allTake : ∀ fuel, AllTake fuel
  | 0 => allTake_zero
  | fuel + 1 =>
    have ih := allTake fuel
    { expr := takes_expr ih
      operators := takes_operators ih
      simple := takes_simple ih
      table := takes_table ih
      fields := takes_fields ih
      field := takes_field ih
      function := takes_function ih
      suffixed := takes_suffixed ih
      suffixes := takes_suffixes ih
      args := takes_args ih
      exprs := takes_exprs ih
      block := takes_block ih
      giveBack := takes_giveBack ih
      statement := takes_statement ih
      labels := takes_labels ih
      assignment := takes_assignment ih
      functionTarget := takes_functionTarget ih
      branch := takes_branch ih
      arms := takes_arms ih
      loop := takes_loop ih }

/-- The tokens of a text that the parser takes are a body. -/
theorem body_of_chunk {room : Nat} {tokens : List Located} {b : Block}
    (h : chunk room tokens = .ok b) : Body (tokens.map (·.token)) := by
  unfold chunk at h
  split at h
  · rename_i body rest hrun
    obtain ⟨c, hleft, hc⟩ := (allTake _).block _ _ _ hrun
    split at h
    · rename_i hnone
      have hleft' : tokens.map (·.token) = c ++ rest.tokens.map (·.token) := hleft
      rw [List.isEmpty_iff.mp hnone, List.map_nil, List.append_nil] at hleft'
      rwa [hleft']
    · cases h
  · cases h

end Stencil.Lua.Parse
