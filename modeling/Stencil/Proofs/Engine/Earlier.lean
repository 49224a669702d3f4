import Stencil.Proofs.Engine.Moments
/-!
# What was reported earlier

An engine only ever adds to what it has reported. Whatever was reported before a render, the render
comes to the same and reports the same after it.
-/
namespace Stencil.Engine

variable {I : Interpreter} {α β : Type} {earlier : List Diagnostic}

/-- The engine with more reported, before all else. -/
def after (earlier : List Diagnostic) (e : Engine I) : Engine I :=
  { e with reported := earlier ++ e.reported }

/-- What comes of a step, with more reported before it. -/
def afterAll (earlier : List Diagnostic) (came : α × Engine I) : α × Engine I :=
  (came.1, came.2.after earlier)

@[simp] theorem afterAll_mk (a : α) (e : Engine I) :
    afterAll earlier (a, e) = (a, e.after earlier) := rfl

@[simp] theorem afterAll_fst (came : α × Engine I) : (afterAll earlier came).1 = came.1 := rfl

@[simp] theorem afterAll_snd (came : α × Engine I) :
    (afterAll earlier came).2 = came.2.after earlier := rfl

/-! ## Changes -/

section Changes

variable (earlier) (e : Engine I)

@[simp] theorem template_after (id : TemplateId) : (e.after earlier).template id = e.template id := rfl

@[simp] theorem label_after (id : TemplateId) : (e.after earlier).label id = e.label id := rfl

@[simp] theorem find?_after (f : Fingerprint) : (e.after earlier).find? f = e.find? f := rfl

@[simp] theorem shared_after : (e.after earlier).shared = e.shared := rfl

@[simp] theorem clock_after : (e.after earlier).clock = e.clock := rfl

@[simp] theorem disk_after : (e.after earlier).disk = e.disk := rfl

@[simp] theorem alive_after : (e.after earlier).alive = e.alive := rfl

@[simp] theorem tick_after : (e.after earlier).tick = e.tick.after earlier := rfl

@[simp] theorem modify_after (id : TemplateId) (f : Template I → Template I) :
    (e.after earlier).modify id f = (e.modify id f).after earlier := rfl

@[simp] theorem report_after (log : Collector) :
    (e.after earlier).report log = (e.report log).after earlier := by
  simp only [report, after, List.append_assoc]

@[simp] theorem setScope?_after (id : TemplateId) (scope : Option Json) :
    (e.after earlier).setScope? id scope = (e.setScope? id scope).after earlier := by
  cases scope <;> rfl

theorem insert_after (source : Source) (content : Text) (base : Options) (patch : Patch)
    (scope : Option Json) : (e.after earlier).insert source content base patch scope =
      afterAll earlier (e.insert source content base patch scope) := by
  simp only [insert, report_after]
  rfl

end Changes

/-! ## Requests -/

section Requests

variable (earlier) (e : Engine I) (parent id : TemplateId)

theorem renderStatic_after :
    renderStatic id (e.after earlier) = afterAll earlier (renderStatic id e) := by
  simp only [renderStatic, apply_ite (afterAll earlier)]
  rfl

theorem noteCycle_after (log : Collector) :
    noteCycle parent id log (e.after earlier) = afterAll earlier (noteCycle parent id log e) := by
  simp only [noteCycle, apply_ite (afterAll earlier)]
  rfl

theorem resolve_after (request : Request) :
    resolve parent request (e.after earlier) = afterAll earlier (resolve parent request e) := by
  simp only [resolve, template_after, label_after, disk_after, modify_after, find?_after]
  generalize Patch.ofJson _ _ = read
  generalize (e.template parent).childSource _ _ = source
  cases source.load e.disk with
  | error error => rfl
  | ok content =>
      dsimp only
      cases (e.modify parent fun t => t.addChild (.ofContent content)).find? (.ofContent content) with
      | none =>
          simp only [report_after, insert_after, afterAll_mk, afterAll_fst, afterAll_snd,
            setScope?_after]
      | some child =>
          simp only [apply_ite (afterAll earlier), noteCycle_after, renderStatic_after, afterAll_mk,
            afterAll_fst, afterAll_snd, report_after, setScope?_after]

end Requests

/-! ## Runs -/

/-- The second run is the first with more reported before it. -/
inductive RunsAfter (earlier : List Diagnostic) : Run (Engine I) α → Run (Engine I) α → Prop
  | done (e : Engine I) (a : α) : RunsAfter earlier (.done e a) (.done (e.after earlier) a)
  | ask (e : Engine I) (request : Request)
      {next next' : Engine I → Except String Text → Run (Engine I) α}
      (h : ∀ e reply, RunsAfter earlier (next e reply) (next' (e.after earlier) reply)) :
      RunsAfter earlier (.ask e request next) (.ask (e.after earlier) request next')

theorem RunsAfter.bind {run run' : Run (Engine I) α} {k k' : Engine I → α → Run (Engine I) β}
    (h : RunsAfter earlier run run')
    (hk : ∀ e a, RunsAfter earlier (k e a) (k' (e.after earlier) a)) :
    RunsAfter earlier (run.bind k) (run'.bind k') := by
  induction h with
  | done e a => exact hk e a
  | ask e request _ ih => exact .ask e request ih

section Runs

variable (earlier) (e : Engine I)

private theorem runsAfter_lift (run : Run I.State α) :
    RunsAfter earlier (lift run e) (lift run (e.after earlier)) := by
  induction run generalizing e with
  | done shared answer => exact .done _ answer
  | ask shared request next ih => exact .ask _ request fun e reply => ih e.shared reply e

private theorem runsAfter_execute (id : TemplateId) (program : I.Program) :
    RunsAfter earlier (execute id program e) (execute id program (e.after earlier)) :=
  runsAfter_lift earlier e _

private theorem keepProgram_after (id : TemplateId) (program : I.Program) (ended : Execution) :
    keepProgram id program (e.after earlier) ended =
      (keepProgram id program e ended).after earlier := by
  unfold keepProgram
  split <;> rfl

private theorem runsAfter_attempt (id : TemplateId) (label : String) (body : Text) :
    RunsAfter earlier (attempt id label body e) (attempt id label body (e.after earlier)) := by
  unfold attempt
  rw [shared_after]
  split
  · exact .done e _
  · refine (runsAfter_execute earlier e id _).bind fun e ended => ?_
    rw [keepProgram_after]
    exact .done _ ended

private theorem runsAfter_attemptRepairing (task : Task) (body : Text) (log : Collector) :
    RunsAfter earlier (attemptRepairing task body log e)
      (attemptRepairing task body log (e.after earlier)) := by
  refine (runsAfter_attempt earlier e task.id task.label body).bind fun e first => ?_
  dsimp only
  split
  · exact (runsAfter_attempt earlier e task.id task.label _).bind fun e second => .done e _
  · exact .done e _

private theorem runsAfter_renderFull (task : Task) (log : Collector) :
    RunsAfter earlier (renderFull task log e) (renderFull task log (e.after earlier)) := by
  simp only [renderFull, modify_after, template_after]
  split
  · exact .done _ _
  · refine (runsAfter_attemptRepairing earlier _ task _ _).bind fun e last => ?_
    split
    · exact .done _ _
    · exact .done e _

private theorem runsAfter_produce (task : Task) :
    RunsAfter earlier (produce task e) (produce task (e.after earlier)) := by
  unfold produce
  rw [template_after]
  split
  · exact .done e _
  · exact (runsAfter_execute earlier e task.id _).bind fun e ended => .done e _
  · exact runsAfter_renderFull earlier e task _

end Runs

/-! ## Renders -/

section Renders

variable (earlier) (e : Engine I)

private theorem writeOutput_after (task : Task) (output : Text) :
    writeOutput task output (e.after earlier) = afterAll earlier (writeOutput task output e) := by
  simp only [writeOutput, template_after, clock_after, disk_after]
  split <;> rfl

private theorem complete_after (task : Task) (raw : Text) :
    complete task raw (e.after earlier) = afterAll earlier (complete task raw e) := by
  simp only [complete, clock_after, tick_after, modify_after, report_after, writeOutput_after]
  rw [apply_ite (afterAll earlier)]
  generalize writeOutput task (task.style raw) _ = written
  obtain ⟨result, e₁⟩ := written
  cases result <;> rfl

theorem finish_after (task : Task) (answer : Except Error Execution × Collector) :
    finish task (e.after earlier) answer = afterAll earlier (finish task e answer) := by
  obtain ⟨result, log⟩ := answer
  cases result with
  | error error =>
      simp only [finish, modify_after, report_after]
      rfl
  | ok ended =>
      simp only [finish, modify_after, report_after, complete_after]
      split <;> rfl

theorem applyPatch_after (id : TemplateId) (patch : Patch) (label : String) :
    applyPatch id patch label (e.after earlier) = afterAll earlier (applyPatch id patch label e) := by
  simp only [applyPatch, template_after, modify_after, report_after]
  rfl

theorem enter_after (again : Bool) (id : TemplateId) (patch : Patch) :
    enter again id patch (e.after earlier) = afterAll earlier (enter again id patch e) := by
  simp only [enter, clock_after, label_after, tick_after, applyPatch_after, afterAll_mk, afterAll_fst,
    afterAll_snd, template_after, modify_after]

variable {earlier e}

/-- What answers the same whatever was reported before. -/
def AnswersAfter (earlier : List Diagnostic)
    (nested : Request → Engine I → Except Error Text × Engine I) : Prop :=
  ∀ request e, nested request (e.after earlier) = afterAll earlier (nested request e)

theorem RunsAfter.drive {nested : Request → Engine I → Except Error Text × Engine I}
    (hnested : AnswersAfter earlier nested) {run run' : Run (Engine I) α}
    (h : RunsAfter earlier run run') : drive nested run' = afterAll earlier (drive nested run) := by
  induction h with
  | done e a => rfl
  | ask e request _ ih =>
      rw [Engine.drive, Engine.drive, hnested request e]
      exact ih _ _

private theorem answersAfter_of {depth : Nat} (running : List TemplateId)
    (h : ∀ (e : Engine I) outer id patch, renderTo depth outer false id patch (e.after earlier) =
      afterAll earlier (renderTo depth outer false id patch e)) :
    AnswersAfter (I := I) earlier (answer depth running) := by
  intro request e
  unfold answer
  rw [resolve_after]
  generalize resolve _ request e = resolved
  obtain ⟨resolution, e₁⟩ := resolved
  cases resolution with
  | reply reply => rfl
  | render child patch => exact h e₁ _ child patch

variable (earlier e)

/-- What is left of a render that has begun. -/
theorem finish_drive_after {nested : Request → Engine I → Except Error Text × Engine I}
    (hnested : AnswersAfter earlier nested) (task : Task) :
    finish task (drive nested (produce task (e.after earlier))).2
        (drive nested (produce task (e.after earlier))).1 =
      afterAll earlier
        (finish task (drive nested (produce task e)).2 (drive nested (produce task e)).1) := by
  rw [(runsAfter_produce earlier e task).drive hnested, afterAll_fst, afterAll_snd, finish_after]

/-- A render does not depend on what was reported before it. -/
theorem renderTo_after (depth : Nat) (outer : List TemplateId) (again : Bool) (id : TemplateId)
    (patch : Patch) : renderTo depth outer again id patch (e.after earlier) =
      afterAll earlier (renderTo depth outer again id patch e) := by
  induction depth generalizing outer again id patch e with
  | zero => rfl
  | succ depth ih =>
      cases hidle : (e.template id).rendering with
      | true =>
          rw [renderTo, renderTo, template_after, if_pos hidle, if_pos hidle]
          rfl
      | false =>
          cases halive : e.alive with
          | false =>
              rw [renderTo, renderTo]
              simp only [template_after, hidle, alive_after, halive, Bool.not_false, Bool.false_eq_true,
                if_true, if_false]
              rfl
          | true =>
              rw [renderTo_succ depth outer again patch hidle halive,
                renderTo_succ depth outer again patch (e := e.after earlier) hidle halive, enter_after]
              have hanswers := answersAfter_of (id :: outer) fun e outer id patch =>
                ih e outer false id patch
              exact finish_drive_after earlier _ hanswers _

theorem answersAfter_answer (depth : Nat) (running : List TemplateId) :
    AnswersAfter (I := I) earlier (answer depth running) :=
  answersAfter_of running fun e outer id patch => renderTo_after earlier e depth outer false id patch

end Renders

end Stencil.Engine
