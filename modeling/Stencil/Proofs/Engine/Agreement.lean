import Stencil.Proofs.Engine.Alike
import Stencil.Proofs.Engine.Provenance
import Stencil.Proofs.Lua.Room
/-!
# Running the program once more, or rendering from source

Where the program of a template can be compiled as it was, a render from source does what another run
of the program does: it emits the same, its nested renders are the same, and it leaves the rest as it
is.
-/
namespace Stencil.Engine

variable {I : Interpreter} {e e' : Engine I} {id : TemplateId} {task : Task} {α β : Type}

/-! ## Runs -/

/-- Runs that ask the same and come to the same, from engines that are alike. -/
inductive AlikeRuns (id : TemplateId) : Run (Engine I) α → Run (Engine I) α → Prop
  | done {e e' : Engine I} {a : α} : Alike id e e' → AlikeRuns id (.done e a) (.done e' a)
  | ask {e e' : Engine I} {request : Request}
      {next next' : Engine I → Except String Text → Run (Engine I) α} : Alike id e e' →
      (∀ e₁ e₁' reply, Alike id e₁ e₁' → AlikeRuns id (next e₁ reply) (next' e₁' reply)) →
      AlikeRuns id (.ask e request next) (.ask e' request next')

theorem AlikeRuns.bind {run run' : Run (Engine I) α} {k k' : Engine I → α → Run (Engine I) β}
    (h : AlikeRuns id run run')
    (hk : ∀ e e' a, Alike id e e' → AlikeRuns id (k e a) (k' e' a)) :
    AlikeRuns id (run.bind k) (run'.bind k') := by
  induction h with
  | done h => exact hk _ _ _ h
  | ask h _ ih => exact .ask h ih

private theorem alike_lift (h : Alike id e e') (run : Run I.State α) :
    AlikeRuns id (lift run e) (lift run e') := by
  induction run generalizing e e' with
  | done shared answer => exact .done (h.map (g := fun e => { e with shared }) fun _ _ => rfl)
  | ask shared request next ih =>
      refine .ask (h.map (g := fun e => { e with shared }) fun _ _ => rfl) fun e₁ e₁' reply h₁ => ?_
      have hshared : e₁'.shared = e₁.shared := by rw [h₁.rest]
      rw [hshared]
      exact ih _ _ h₁

private theorem alike_execute (h : Alike id e e') (i : TemplateId) (program : I.Program) :
    AlikeRuns id (execute i program e) (execute i program e') := by
  have hshared : e'.shared = e.shared := by rw [h.rest]
  obtain ⟨_, _, _, hsame⟩ := h.template i
  have hscope : (e'.template i).scope = (e.template i).scope := by rw [hsame]
  rw [execute, execute, hshared, hscope]
  exact alike_lift h _

private theorem alike_attempt (h : Alike id e e') (i : TemplateId) (hi : i ≠ id) (label : String)
    (body : Text) : AlikeRuns id (attempt i label body e) (attempt i label body e') := by
  have hshared : e'.shared = e.shared := by rw [h.rest]
  unfold attempt
  rw [hshared]
  split
  · exact .done h
  · refine (alike_execute h i _).bind fun e₁ e₁' ended h₁ => .done ?_
    unfold keepProgram
    split
    · exact h₁.modify_other hi _
    · exact h₁

private theorem alike_attemptRepairing (h : Alike id e e') (htask : task.id ≠ id) (body : Text)
    (log : Collector) :
    AlikeRuns id (attemptRepairing task body log e) (attemptRepairing task body log e') := by
  refine (alike_attempt h task.id htask task.label body).bind fun e₁ e₁' first h₁ => ?_
  dsimp only
  split
  · exact (alike_attempt h₁ task.id htask task.label _).bind fun e₂ e₂' second h₂ => .done h₂
  · exact .done h₁

private theorem alike_renderFull (h : Alike id e e') (htask : task.id ≠ id) (log : Collector) :
    AlikeRuns id (renderFull task log e) (renderFull task log e') := by
  have hforgot := h.modify_other htask fun t => { t.forgetProgram with children := [] }
  unfold renderFull
  simp only [hforgot.others task.id htask]
  split
  · exact .done hforgot
  · refine (alike_attemptRepairing hforgot htask _ _).bind fun e₁ e₁' last h₁ => ?_
    split
    · exact .done (h₁.modify_other htask _)
    · exact .done h₁

private theorem alike_produce (h : Alike id e e') (htask : task.id ≠ id) :
    AlikeRuns id (produce task e) (produce task e') := by
  unfold produce
  simp only [h.others task.id htask]
  split
  · exact .done h
  · exact (alike_execute h task.id _).bind fun e₁ e₁' ended h₁ => .done h₁
  · exact alike_renderFull h htask _

/-! ## Renders -/

/-- What answers the same in engines that are alike. -/
def AnswersAlike (id : TemplateId) (nested : Request → Engine I → Except Error Text × Engine I) :
    Prop :=
  ∀ request e e', Alike id e e' →
    (nested request e').1 = (nested request e).1 ∧ Alike id (nested request e).2 (nested request e').2

private theorem drive_alike {nested : Request → Engine I → Except Error Text × Engine I}
    (hnested : AnswersAlike id nested) {run run' : Run (Engine I) α} (h : AlikeRuns id run run') :
    (drive nested run').1 = (drive nested run).1 ∧
      Alike id (drive nested run).2 (drive nested run').2 := by
  induction h with
  | done h => exact ⟨rfl, h⟩
  | @ask e e' request next next' h _ ih =>
      obtain ⟨hreply, hafter⟩ := hnested request e e' h
      rw [drive, drive]
      dsimp only
      rw [hreply]
      exact ih _ _ _ hafter

private theorem answer_alike {depth : Nat} {running : List TemplateId}
    (ih : ∀ {outer : List TemplateId} {child : TemplateId} {patch : Patch} {e e' : Engine I},
      Alike id e e' →
      (renderTo depth outer false child patch e').1 = (renderTo depth outer false child patch e).1 ∧
        Alike id (renderTo depth outer false child patch e).2
          (renderTo depth outer false child patch e').2) :
    AnswersAlike (I := I) id (answer depth running) := by
  intro request e e' h
  obtain ⟨hresolution, hresolved⟩ := h.resolve (requester running request) request
  unfold answer
  generalize resolve (requester running request) request e' = resolved' at hresolution hresolved ⊢
  generalize resolve (requester running request) request e = resolved at hresolution hresolved ⊢
  obtain ⟨resolution, e₁⟩ := resolved
  obtain ⟨resolution', e₁'⟩ := resolved'
  obtain rfl : resolution' = resolution := hresolution
  cases resolution' with
  | reply reply => exact ⟨rfl, hresolved⟩
  | render child patch => exact ih hresolved

/-- No render can tell engines that are alike apart. -/
theorem renderTo_alike {depth : Nat} {outer : List TemplateId} {again : Bool} {child : TemplateId}
    {patch : Patch} (h : Alike id e e') :
    (renderTo depth outer again child patch e').1 = (renderTo depth outer again child patch e).1 ∧
      Alike id (renderTo depth outer again child patch e).2
        (renderTo depth outer again child patch e').2 := by
  induction depth generalizing outer again child patch e e' with
  | zero =>
      rw [renderTo, renderTo, h.label]
      exact ⟨rfl, h⟩
  | succ depth ih =>
      obtain ⟨_, _, _, hsame⟩ := h.template child
      have hrendering : (e'.template child).rendering = (e.template child).rendering := by rw [hsame]
      have houtput : (e'.template child).output = (e.template child).output := by rw [hsame]
      have hrest : e'.alive = e.alive := by rw [h.rest]
      cases hidle : (e.template child).rendering with
      | true =>
          rw [renderTo, renderTo, if_pos hidle, if_pos (hrendering.trans hidle), houtput]
          exact ⟨rfl, h⟩
      | false =>
          cases halive : e.alive with
          | false =>
              rw [renderTo, renderTo]
              simp only [hrendering, hidle, hrest, halive, Bool.not_false, Bool.false_eq_true, if_true,
                if_false]
              exact ⟨trivial, h⟩
          | true =>
              have hchild : child ≠ id :=
                fun heq => Bool.false_ne_true (hidle.symm.trans (heq ▸ h.rendering))
              rw [renderTo_succ depth outer again patch hidle halive,
                renderTo_succ depth outer again patch (hrendering.trans hidle) (hrest.trans halive)]
              obtain ⟨htask, hentered⟩ := h.enter again patch hchild
              dsimp only
              rw [htask]
              have htaskId : (enter again child patch e).1.id ≠ id := by rwa [enter_id]
              have hanswers : AnswersAlike (I := I) id (answer depth (child :: outer)) := answer_alike ih
              obtain ⟨hanswer, hdriven⟩ := drive_alike hanswers (alike_produce hentered htaskId)
              rw [hanswer]
              exact hdriven.finish htaskId _

/-- Nor can an answer. -/
theorem answersAlike_answer (depth : Nat) (running : List TemplateId) :
    AnswersAlike (I := I) id (answer depth running) :=
  answer_alike renderTo_alike

/-! ## Nested renders -/

/-- A nested render that was asked for, and what came of it. -/
abbrev Exchange : Type := Request × Except Error Text

/-- The nested renders of a run, in the order they end, given those inside each of them. -/
def exchanges (nested : Request → Engine I → Except Error Text × Engine I)
    (inside : Request → Engine I → List Exchange) : Run (Engine I) α → List Exchange
  | .done _ _ => []
  | .ask e request next =>
    let reply := nested request e
    inside request e ++ (request, reply.1) ::
      exchanges nested inside (next reply.2 (reply.1.mapError Error.message))

/-- The nested renders inside the one that a request asks for. -/
def inside : Nat → List TemplateId → Request → Engine I → List Exchange
  | 0, _, _, _ => []
  | depth + 1, running, request, e =>
    match resolve (requester running request) request e with
    | (.reply _, _) => []
    | (.render child patch, e) =>
      if (e.template child).rendering || !e.alive then []
      else
        let begun := enter false child patch e
        exchanges (answer depth (child :: running)) (inside depth (child :: running))
          (produce begun.1 begun.2)

variable {nested : Request → Engine I → Except Error Text × Engine I}
  {within : Request → Engine I → List Exchange}

private theorem exchanges_alike (hnested : AnswersAlike id nested)
    (hwithin : ∀ request e e', Alike id e e' → within request e' = within request e)
    {run run' : Run (Engine I) α} (h : AlikeRuns id run run') :
    exchanges nested within run' = exchanges nested within run := by
  induction h with
  | done => rfl
  | @ask e e' request next next' h _ ih =>
      obtain ⟨hreply, hafter⟩ := hnested request e e' h
      rw [exchanges, exchanges, hreply, hwithin request e e' h, ih _ _ _ hafter]

/-- The nested renders inside others are the same. -/
theorem inside_alike {depth : Nat} {running : List TemplateId} (request : Request) (e e' : Engine I)
    (h : Alike id e e') : inside depth running request e' = inside depth running request e := by
  induction depth generalizing running request e e' with
  | zero => rfl
  | succ depth ih =>
      obtain ⟨hresolution, hresolved⟩ := h.resolve (requester running request) request
      rw [inside, inside]
      generalize resolve (requester running request) request e' = resolved' at hresolution hresolved ⊢
      generalize resolve (requester running request) request e = resolved at hresolution hresolved ⊢
      obtain ⟨resolution, e₁⟩ := resolved
      obtain ⟨resolution', e₁'⟩ := resolved'
      obtain rfl : resolution' = resolution := hresolution
      cases resolution' with
      | reply reply => rfl
      | render child patch =>
          dsimp only at hresolved ⊢
          obtain ⟨_, _, _, hsame⟩ := hresolved.template child
          have hrendering : (e₁'.template child).rendering = (e₁.template child).rendering := by
            rw [hsame]
          have halive : e₁'.alive = e₁.alive := by rw [hresolved.rest]
          rw [hrendering, halive]
          split
          · rfl
          · rename_i hruns
            have hchild : child ≠ id := fun heq =>
              hruns (by rw [heq, hresolved.rendering, Bool.true_or])
            obtain ⟨htask, hentered⟩ := hresolved.enter false patch hchild
            rw [htask]
            exact exchanges_alike (answersAlike_answer _ _) ih
              (alike_produce hentered (by rwa [enter_id]))

/-- What a run comes to: its answer, the engine after it and the nested renders in it. -/
structure Comes (nested : Request → Engine I → Except Error Text × Engine I)
    (within : Request → Engine I → List Exchange) (run : Run (Engine I) α) (answer : α)
    (after : Engine I) (texts : List Exchange) : Prop where
  drive : drive nested run = (answer, after)
  exchanges : exchanges nested within run = texts

/-- What follows a run without asking for more changes only what it comes to. -/
theorem Comes.bind {run : Run (Engine I) α} {k : Engine I → α → Run (Engine I) β} {a : α} {b : β}
    {texts : List Exchange} (h : Comes nested within run a e texts) (hk : k e a = .done e' b) :
    Comes nested within (run.bind k) b e' texts := by
  obtain ⟨hdrive, rfl⟩ := h
  induction run with
  | done e₁ a₁ =>
      obtain ⟨rfl, rfl⟩ := Prod.mk.inj hdrive
      rw [Run.bind, hk]
      exact ⟨rfl, rfl⟩
  | ask e₁ request next ih =>
      obtain ⟨hlast, htexts⟩ := ih _ _ hdrive
      exact ⟨hlast, by rw [Run.bind, Engine.exchanges, Engine.exchanges, htexts]⟩

theorem comes (nested : Request → Engine I → Except Error Text × Engine I)
    (within : Request → Engine I → List Exchange) (run : Run (Engine I) α) :
    Comes nested within run (drive nested run).1 (drive nested run).2 (exchanges nested within run) :=
  ⟨rfl, rfl⟩

/-! ## From source -/

section Full

private theorem alike_forget (hr : (e.template id).rendering = true) :
    Alike id e (e.modify id fun t => { t.forgetProgram with children := [] }) := by
  refine (Alike.refl hr).modify_right fun t t' ht => ?_
  obtain ⟨_, _, _, rfl⟩ := ht
  exact ⟨_, _, _, rfl⟩

private theorem alike_keepProgram (h : Alike id e e') (program : I.Program) (ended : Execution) :
    Alike id e (keepProgram id program e' ended) := by
  unfold keepProgram
  split
  · refine h.modify_right fun t t' ht => ?_
    obtain ⟨_, _, _, rfl⟩ := ht
    exact ⟨_, _, _, rfl⟩
  · exact h

private theorem scan_of_bodyOf? {d : Delimiters} {content body : Text} (h : bodyOf? d content = some body)
    (label : String) (log : Collector) :
    ∃ pieces, (scan d content label log).1 = .ok pieces ∧ normalize (Body.ofPieces pieces).source = body := by
  rw [bodyOf?, toOption_scan d content "" label _ log] at h
  obtain ⟨pieces, hpieces, hbody⟩ := Option.map_eq_some_iff.mp h
  refine ⟨pieces, ?_, hbody⟩
  cases hscan : (scan d content label log).1 with
  | error error => simp [hscan, Except.toOption] at hpieces
  | ok pieces' => simpa [hscan, Except.toOption] using hpieces

variable {p : I.Program} {body output : Text}

private theorem comes_renderPartly {ended : Execution} {texts : List Exchange} (log : Collector)
    (h : Comes nested within (execute id p e) ended e' texts) :
    Comes nested within (renderPartly id p log e) (.ok ended, log) e' texts :=
  h.bind rfl

/-- A render from source that compiles the program and runs it well does no more. -/
private theorem comes_renderFull (task : Task) {texts : List Exchange} (log : Collector)
    (hlt : task.id < e.templates.length)
    (hbody : bodyOf? task.options.delimiters (e.template task.id).content = some body)
    (hcompile : I.compile e.shared task.label (lower body) = .ok p)
    (h : Comes nested within
      (execute task.id p (e.modify task.id fun t => { t.forgetProgram with children := [] }))
      { output, error := none } e' texts) :
    ∃ log', Comes nested within (renderFull task log e) (.ok { output, error := none }, log')
      (keepProgram task.id p e' { output, error := none }) texts := by
  have hcontent : ((e.modify task.id fun t => { t.forgetProgram with children := [] }).template
      task.id).content = (e.template task.id).content := by
    rw [template_modify_self hlt]
    rfl
  obtain ⟨pieces, hpieces, rfl⟩ := scan_of_bodyOf? hbody task.label log
  unfold renderFull
  simp only [hcontent]
  generalize scan task.options.delimiters (e.template task.id).content task.label log = scanned
    at hpieces ⊢
  obtain ⟨result, log'⟩ := scanned
  obtain rfl : result = .ok pieces := hpieces
  have hattempt : Comes nested within (attempt task.id task.label
      (normalize (Body.ofPieces pieces).source)
      (e.modify task.id fun t => { t.forgetProgram with children := [] })) { output, error := none }
      (keepProgram task.id p e' { output, error := none }) texts := by
    rw [attempt, show (Engine.modify e task.id _).shared = e.shared from rfl, hcompile]
    exact h.bind rfl
  have hlast : Comes nested within (attemptRepairing task (normalize (Body.ofPieces pieces).source) log'
      (e.modify task.id fun t => { t.forgetProgram with children := [] }))
      ({ output, error := none }, log') (keepProgram task.id p e' { output, error := none }) texts :=
    hattempt.bind rfl
  exact ⟨log', hlast.bind rfl⟩

/-- If another run of the program comes to a text without an error, so does a render from source that
compiles the same program. -/
theorem full_of_partly (task : Task) (hnested : AnswersAlike task.id nested)
    (hwithin : ∀ request e e', Alike task.id e e' → within request e' = within request e)
    (hr : (e.template task.id).rendering = true) (hp : (e.template task.id).program = some p)
    (hbody : bodyOf? task.options.delimiters (e.template task.id).content = some body)
    (hcompile : I.compile e.shared task.label (lower body) = .ok p)
    {log : Collector} {eP : Engine I} {texts : List Exchange}
    (h : Comes nested within (produce { task with type := .partly } e)
      (.ok { output, error := none }, log) eP texts) :
    ∃ log' eF, Comes nested within (produce { task with type := .full } e)
      (.ok { output, error := none }, log') eF texts ∧ Alike task.id eP eF := by
  -- both make the same run, from engines that are alike
  have hruns := alike_execute (alike_forget hr) task.id p
  obtain ⟨hended, hafter⟩ := drive_alike hnested hruns
  have htexts := exchanges_alike hnested hwithin hruns
  have hpartly : produce { task with type := .partly } e = renderPartly task.id p
      { reporting := task.options.reporting, template := some task.label } e := by
    simp only [produce, hp]
  obtain ⟨hdrive, hexchanges⟩ := comes_renderPartly
    { reporting := task.options.reporting, template := some task.label }
    (comes nested within (execute task.id p e))
  rw [hpartly] at h
  obtain ⟨hanswer, heP⟩ := Prod.mk.inj (hdrive.symm.trans h.drive)
  have hran : (drive nested (execute task.id p e)).1 = { output, error := none } :=
    Except.ok.inj (Prod.mk.inj hanswer).1
  have hagain := comes nested within
    (execute task.id p (e.modify task.id fun t => { t.forgetProgram with children := [] }))
  rw [hended, hran, htexts, ← hexchanges, h.exchanges] at hagain
  obtain ⟨log', hfull⟩ := comes_renderFull { task with type := .full }
    { reporting := task.options.reporting, template := some task.label }
    (lt_length_of_rendering hr) hbody hcompile hagain
  exact ⟨log', _, hfull, heP ▸ alike_keepProgram hafter p _⟩

end Full

end Stencil.Engine
