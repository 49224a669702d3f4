import Stencil.Proofs.Engine.Outcomes
import Stencil.Proofs.Engine.Reports
/-!
# Failed executions

A render executes what it is to execute, from source once more if repair finds something. What it comes
to is decided by its last execution: if that failed, the render fails where failures halt, and else it
goes on with what was emitted and reports the failure.
-/
namespace Stencil.Engine

open Relation Run

variable {I : Interpreter} {limit : Nat} {e e' : Engine I} {id : TemplateId} {task : Task}
  {nested : Request → Engine I → Except Error Text × Engine I}

/-! ## Executions -/

/-- What is executed: a body, which is compiled first, or a program that is there. -/
inductive Code (I : Interpreter) where
  | body (text : Text)
  | compiled (program : I.Program)

def Code.run (task : Task) : Code I → Engine I → Run (Engine I) Execution
  | .body text => attempt task.id task.label text
  | .compiled program => execute task.id program

/-- Executions for a render, one after the other, and what came of each. -/
inductive Executes (nested : Request → Engine I → Except Error Text × Engine I) (task : Task) :
    Engine I → List (Code I × Execution) → Engine I → Prop
  | nil {e : Engine I} : Executes nested task e [] e
  | cons {e e' e'' : Engine I} {code : Code I} {ended : Execution} {rest : List (Code I × Execution)} :
      drive nested (code.run task e) = (ended, e') → Executes nested task e' rest e'' →
      Executes nested task e ((code, ended) :: rest) e''

/-- An execution of a body that failed, where repair is wanted and finds something. -/
structure Retried (task : Task) (body : Text) (ended : Execution) : Prop where
  failed : ended.error.isSome = true
  wanted : task.options.autoRepair = true
  repaired : (repair body).2 ≠ []

/-- The executions of a render of a template, in order, and what they come to. -/
inductive Course (task : Task) (t : Template I) :
    List (Code I × Execution) → Except Error Execution → Prop
  | fixed : task.type = .fixed → Course task t [] (.ok { output := t.output, error := none })
  | partly {program : I.Program} {ended : Execution} : task.type = .partly →
      t.program = some program → Course task t [(.compiled program, ended)] (.ok ended)
  | unterminated {opened : Location} : task.type = .full →
      bodyOf? task.options.delimiters t.content = none →
      Course task t [] (.error (.unterminatedCode task.label task.options.delimiters.stop opened))
  | once {body : Text} {ended : Execution} : task.type = .full →
      bodyOf? task.options.delimiters t.content = some body → ¬ Retried task body ended →
      Course task t [(.body body, ended)] (.ok ended)
  | again {body : Text} {first second : Execution} : task.type = .full →
      bodyOf? task.options.delimiters t.content = some body → Retried task body first →
      Course task t [(.body body, first), (.body (repair body).1, second)] (.ok second)

theorem drive_bind {α β : Type} (nested : Request → Engine I → Except Error Text × Engine I)
    (run : Run (Engine I) α) (k : Engine I → α → Run (Engine I) β) :
    drive nested (run.bind k) = drive nested (k (drive nested run).2 (drive nested run).1) := by
  induction run with
  | done e a => rfl
  | ask e request next ih => exact ih _ _

/-- A render from source begins without what the last one left. -/
def Task.cleared (task : Task) (e : Engine I) : Engine I :=
  if task.type = .full then e.modify task.id fun t => { t.forgetProgram with children := [] } else e

/-- The body that repair retries is executed right after the one that failed. -/
private theorem executes_attemptRepairing (nested) (task : Task) (body : Text) (log : Collector)
    (e : Engine I) : ∃ tries ended log' e',
      drive nested (attemptRepairing task body log e) = ((ended, log'), e') ∧
      Executes nested task e tries e' ∧
      (tries = [(.body body, ended)] ∧ ¬ Retried task body ended ∨
        ∃ first, tries = [(.body body, first), (.body (repair body).1, ended)] ∧
          Retried task body first) := by
  rw [attemptRepairing, drive_bind]
  have hfirst : drive nested ((Code.body body).run task e) =
    drive nested (attempt task.id task.label body e) := rfl
  generalize drive nested (attempt task.id task.label body e) = driven at hfirst ⊢
  obtain ⟨first, e₁⟩ := driven
  dsimp only
  have hretried : (first.error.isSome && task.options.autoRepair && !(repair body).2.isEmpty) = true ↔
      Retried task body first := by
    simp only [Bool.and_eq_true, Bool.not_eq_true', List.isEmpty_eq_false_iff]
    exact ⟨fun h => ⟨h.1.1, h.1.2, h.2⟩, fun h => ⟨⟨h.failed, h.wanted⟩, h.repaired⟩⟩
  by_cases hagain : Retried task body first
  · rw [if_pos (hretried.mpr hagain), drive_bind]
    have hsecond : drive nested ((Code.body (repair body).1).run task e₁) =
      drive nested (attempt task.id task.label (repair body).1 e₁) := rfl
    generalize drive nested (attempt task.id task.label (repair body).1 e₁) = driven at hsecond ⊢
    obtain ⟨second, e₂⟩ := driven
    exact ⟨_, second, _, e₂, rfl, .cons hfirst (.cons hsecond .nil), .inr ⟨first, rfl, hagain⟩⟩
  · rw [if_neg (hretried.not.mpr hagain)]
    exact ⟨_, first, _, e₁, rfl, .cons hfirst .nil, .inl ⟨rfl, hagain⟩⟩

private theorem bodyOf?_eq_none {d : Delimiters} {content : Text} {label : String} {log : Collector}
    {error : Error} (h : (scan d content label log).1 = .error error) : bodyOf? d content = none := by
  rw [bodyOf?, toOption_scan d content "" label _ log, h]
  rfl

private theorem executes_renderFull (nested) (htype : task.type = .full) (log : Collector)
    (hlt : task.id < e.templates.length) : ∃ tries answer log' e₁ e',
      drive nested (renderFull task log e) = ((answer, log'), e') ∧
      Executes nested task (task.cleared e) tries e₁ ∧ Course task (e.template task.id) tries answer ∧
      (e' = e₁ ∨ e' = e₁.modify task.id Template.forgetProgram) := by
  have hcleared : task.cleared e = e.modify task.id fun t => { t.forgetProgram with children := [] } :=
    if_pos htype
  have hcontent : ((task.cleared e).template task.id).content = (e.template task.id).content := by
    rw [hcleared, template_modify_self hlt]
    rfl
  unfold renderFull
  rw [← hcleared]
  dsimp only
  rw [hcontent]
  cases hscan : scan task.options.delimiters (e.template task.id).content task.label log with
  | mk result log' =>
      have hresult := congrArg Prod.fst hscan
      cases result with
      | error error =>
          obtain ⟨opened, rfl⟩ := scan_error hresult
          exact ⟨[], _, log', _, _, rfl, .nil, .unterminated htype (bodyOf?_eq_none hresult), .inl rfl⟩
      | ok pieces =>
          have hbody := bodyOf?_eq_some hresult
          obtain ⟨tries, ended, log'', e₁, hdrive, hexecutes, hshape⟩ := executes_attemptRepairing
            nested task (normalize (Body.ofPieces pieces).source) log' (task.cleared e)
          dsimp only
          rw [drive_bind, hdrive]
          refine ⟨tries, .ok ended, log'', e₁, _, rfl, hexecutes, ?_, ?_⟩
          · rcases hshape with ⟨rfl, hlast⟩ | ⟨first, rfl, hretried⟩
            · exact .once htype hbody hlast
            · exact .again htype hbody hretried
          · dsimp only
            split
            · exact .inr rfl
            · exact .inl rfl

/-- The text of a render is produced by a course of executions. -/
theorem executes_produce (nested) (hlt : task.id < e.templates.length)
    (hprogram : task.type ≠ .full → (e.template task.id).program.isSome = true) :
    ∃ tries answer log e₁ e',
      drive nested (produce task e) = ((answer, log), e') ∧
      Executes nested task (task.cleared e) tries e₁ ∧ Course task (e.template task.id) tries answer ∧
      (e' = e₁ ∨ e' = e₁.modify task.id Template.forgetProgram) := by
  unfold produce
  cases htype : task.type with
  | full => exact executes_renderFull nested htype _ hlt
  | fixed =>
      have hcleared : task.cleared e = e := if_neg (by simp [htype])
      exact ⟨[], _, _, e, e, rfl, by rw [hcleared]; exact .nil, .fixed htype, .inl rfl⟩
  | partly =>
      have hcleared : task.cleared e = e := if_neg (by simp [htype])
      obtain ⟨program, hsome⟩ := Option.isSome_iff_exists.mp (hprogram (by simp [htype]))
      rw [hsome, hcleared]
      dsimp only
      rw [renderPartly, drive_bind]
      have hdrive : drive nested ((Code.compiled program).run task e) =
        drive nested (execute task.id program e) := rfl
      exact ⟨_, _, _, _, _, rfl, .cons hdrive .nil, .partly htype hsome, .inl rfl⟩

/-! ## What becomes of a failure -/

/-- The last of the executions failed, and this was emitted before. -/
def Failed (tries : List (Code I × Execution)) (output : Text) (message : String) : Prop :=
  ∃ code, tries.getLast? = some (code, { output, error := some message })

/-- What comes of the executions of a render where it ends. -/
structure Settled (task : Task) (tries : List (Code I × Execution)) (result : Except Error Text)
    (e e' : Engine I) : Prop where
  halts : ∀ output message, Failed tries output message → task.options.haltOnError = true →
    result = .error (.execution task.label message) ∧ Reported Diagnostic.executionFailed [] e e'
  goesOn : ∀ output message, Failed tries output message → task.options.haltOnError = false →
    (result = .ok (task.options.style.apply output) ∨
      task.options.output = true ∧ ∃ path fault, result = .error (.unwritable path fault)) ∧
    Reported Diagnostic.executionFailed
      (if 1 ≤ task.options.reporting then
        [⟨Diagnostic.executionFailed, .error, message, some task.label, none⟩] else []) e e'
  well : (∀ output message, ¬ Failed tries output message) → Reported Diagnostic.executionFailed [] e e'
  errors : task.options.haltOnError = false → ∀ error, result = .error error →
    (∃ opened, error = .unterminatedCode task.label task.options.delimiters.stop opened) ∨
      ∃ path fault, error = .unwritable path fault

/-- A session reports a failed execution nowhere but where a render ends whose last one failed. -/
theorem Step.reportsFailed {m m' : Moment I} (h : Step limit m m') (hm : Reachable limit m) :
    Reported Diagnostic.executionFailed m.failures m.engine m'.engine := by
  have htells := (h.tells hm.sound hm.quiet).1
  exact m.filter_failures ▸ htells.of_code (.inl rfl)

private theorem Course.length_le {t : Template I} {tries : List (Code I × Execution)}
    {answer : Except Error Execution} (h : Course task t tries answer) :
    tries.length ≤ 1 ∨ tries.length = 2 ∧ task.type = .full ∧
      ∃ body ended, tries.head? = some (.body body, ended) ∧ Retried task body ended := by
  cases h with
  | fixed => exact .inl (Nat.zero_le _)
  | partly => exact .inl (Nat.le_refl _)
  | unterminated => exact .inl (Nat.zero_le _)
  | once => exact .inl (Nat.le_refl _)
  | again htype _ hretried => exact .inr ⟨rfl, htype, _, _, rfl, hretried⟩

/-- A render from source is stopped by a code region that is left open. -/
private theorem Course.unterminated_of_none {t : Template I} {tries : List (Code I × Execution)}
    {answer : Except Error Execution} (h : Course task t tries answer) (htype : task.type = .full)
    (hnone : bodyOf? task.options.delimiters t.content = none) : ∃ opened,
      answer = .error (.unterminatedCode task.label task.options.delimiters.stop opened) := by
  cases h with
  | unterminated => exact ⟨_, rfl⟩
  | fixed hfixed => simp [htype] at hfixed
  | partly hpartly => simp [htype] at hpartly
  | once _ hsome => simp [hnone] at hsome
  | again _ hsome => simp [hnone] at hsome

/-- What an execution comes to that was the last. -/
private theorem Course.answer {t : Template I} {tries : List (Code I × Execution)}
    {answer : Except Error Execution} (h : Course task t tries answer) {code : Code I}
    {ended : Execution} (hlast : tries.getLast? = some (code, ended)) :
    answer = .ok ended ∧ task.type ≠ .fixed := by
  cases h with
  | fixed => simp at hlast
  | unterminated => simp at hlast
  | partly htype =>
      obtain ⟨-, rfl⟩ := Prod.mk.inj (Option.some.inj hlast)
      exact ⟨rfl, by simp [htype]⟩
  | once htype =>
      obtain ⟨-, rfl⟩ := Prod.mk.inj (Option.some.inj hlast)
      exact ⟨rfl, by simp [htype]⟩
  | again htype =>
      obtain ⟨-, rfl⟩ := Prod.mk.inj (Option.some.inj hlast)
      exact ⟨rfl, by simp [htype]⟩

private theorem failures_of_not_failed {t : Template I} {tries : List (Code I × Execution)}
    {answer : Except Error Execution} (h : Course task t tries answer)
    (hwell : ∀ output message, ¬ Failed tries output message) : task.failures answer = [] := by
  cases hlast : tries.getLast? with
  | none => cases h <;> first | rfl | simp at hlast
  | some last =>
      obtain ⟨code, output, error⟩ := last
      rw [(h.answer hlast).1]
      cases error with
      | none => rfl
      | some message => exact absurd ⟨code, hlast⟩ (hwell output message)

private theorem complete_cases (task : Task) (raw : Text) (e : Engine I) :
    (complete task raw e).1 = .ok (task.style raw) ∨
      task.options.output = true ∧
        ∃ path fault, (complete task raw e).1 = .error (.unwritable path fault) := by
  cases houtput : task.options.output with
  | true => exact (complete_fst task raw e).imp_right fun h => ⟨rfl, h⟩
  | false =>
      refine .inl ?_
      unfold complete
      simp [houtput]

private theorem text?_ok (hhalt : task.options.haltOnError = false) (ended : Execution) (error : Error) :
    task.text? (.ok ended) ≠ .error error := by
  obtain ⟨output, failure⟩ := ended
  cases failure <;> simp [Task.text?, hhalt]

/-- Where failures do not halt, a render is stopped only by a code region that is left open. -/
private theorem Course.error {t : Template I} {tries : List (Code I × Execution)}
    {answer : Except Error Execution} (h : Course task t tries answer)
    (hhalt : task.options.haltOnError = false) {error : Error} (htext : task.text? answer = .error error) :
    ∃ opened, error = .unterminatedCode task.label task.options.delimiters.stop opened := by
  cases h with
  | unterminated => exact ⟨_, (Except.error.inj htext).symm⟩
  | fixed => simp [Task.text?] at htext
  | partly => exact absurd htext (text?_ok hhalt _ _)
  | once => exact absurd htext (text?_ok hhalt _ _)
  | again => exact absurd htext (text?_ok hhalt _ _)

private theorem Course.settled {t : Template I} {tries : List (Code I × Execution)}
    {answer : Except Error Execution × Collector} (h : Course task t tries answer.1)
    (hreports : Reported Diagnostic.executionFailed (task.failures answer.1) e (finish task e answer).2) :
    Settled task tries (finish task e answer).1 e (finish task e answer).2 := by
  have hcases := finish_cases task e answer
  refine ⟨fun output message hfailed hhalt => ?_, fun output message hfailed hhalt => ?_,
    fun hwell => failures_of_not_failed h hwell ▸ hreports, fun hhalt error herror => ?_⟩
  · obtain ⟨code, hlast⟩ := hfailed
    rw [(h.answer hlast).1] at hreports hcases
    simp only [Task.text?, hhalt, if_true, Except.error.injEq, reduceCtorEq, false_and,
      exists_false, or_false] at hcases
    obtain ⟨_, log, rfl, hfinish⟩ := hcases
    exact ⟨by rw [hfinish], by simpa [Task.failures, hhalt] using hreports⟩
  · obtain ⟨code, hlast⟩ := hfailed
    obtain ⟨hanswer, htype⟩ := h.answer hlast
    rw [hanswer] at hreports hcases
    simp only [Task.text?, hhalt, Bool.false_eq_true, if_false, reduceCtorEq, false_and,
      exists_false, false_or, Except.ok.injEq] at hcases
    obtain ⟨_, log, rfl, hfinish⟩ := hcases
    have hstyle : task.style output = task.options.style.apply output := if_neg htype
    refine ⟨?_, ?_⟩
    · rw [hfinish, ← hstyle]
      exact complete_cases task output _
    · simpa only [Task.failures, hhalt, true_and] using hreports
  · rcases hcases with ⟨_, log, htext, hfinish⟩ | ⟨raw, log, -, hfinish⟩ <;> rw [hfinish] at herror
    · obtain rfl := Except.error.inj herror
      exact .inl (h.error hhalt htext)
    · rcases complete_fst task raw ((e.modify task.id task.release).report log) with hok | hwrite
      · rw [hok] at herror
        cases herror
      · obtain ⟨path, fault, hwrite⟩ := hwrite
        exact .inr ⟨path, fault, Except.error.inj (herror.symm.trans hwrite)⟩

/-- A render is of an idle template. If the registry was given up, it fails with that. Else it goes
through its executions, of which there are two only if it is from source and the first failed where
repair is wanted and found something. What it comes to depends on the last one: if that failed, either
the render fails with it where failures halt, and reports nothing of it, or it comes to the text emitted
before, styled, unless that is to be written and cannot be, and reports the failure once. Where failures
do not halt there is no other error but that of a code region left open, which stops a render wherever
there is one. From there on the session reports a failure only where a render ends whose own last
execution failed. -/
theorem failures_halt_or_are_reported {ws : List (Waiting I)} {again : Bool} {patch : Patch}
    (h : Reachable limit ⟨ws, .call again id patch e⟩) (hlimit : ws.length < limit) :
    (e.alive = false → Step limit ⟨ws, .call again id patch e⟩ ⟨ws, .back (.error .registryDropped) e⟩) ∧
    (e.alive = true →
      let begun := enter again id patch e
      let task := begun.1
      ∃ tries e₁ produced e₂ result e₃,
        Executes (answer (limit - ws.length - 1) (id :: ws.map (·.task.id))) task
          (task.cleared begun.2) tries e₁ ∧
        (tries.length ≤ 1 ∨ tries.length = 2 ∧ task.type = .full ∧
          ∃ body ended, tries.head? = some (.body body, ended) ∧ Retried task body ended) ∧
        Course task (begun.2.template id) tries produced.1 ∧
        (e₂ = e₁ ∨ e₂ = e₁.modify id Template.forgetProgram) ∧
        ReflTransGen (Step limit) ⟨ws, .call again id patch e⟩ ⟨ws, .work task (.done e₂ produced)⟩ ∧
        Step limit ⟨ws, .work task (.done e₂ produced)⟩ ⟨ws, .back result e₃⟩ ∧
        renderTo (limit - ws.length) (ws.map (·.task.id)) again id patch e = (result, e₃) ∧
        Settled task tries result e₂ e₃ ∧
        (task.type = .full → bodyOf? task.options.delimiters (e.template id).content = none →
          ∃ opened,
            result = .error (.unterminatedCode task.label task.options.delimiters.stop opened))) ∧
    ∀ m m', ReflTransGen (Step limit) ⟨ws, .call again id patch e⟩ m → Step limit m m' →
      Reported Diagnostic.executionFailed m.failures m.engine m'.engine := by
  obtain ⟨hid, hidle, -⟩ := h.sound.activity
  refine ⟨fun hclosed => .closed hlimit hidle hclosed, fun halive => ?_,
    fun m m' hsteps hstep => hstep.reportsFailed (h.of_steps hsteps)⟩
  obtain ⟨depth, hdepth⟩ : ∃ depth, limit - ws.length = depth + 1 := ⟨limit - ws.length - 1, by omega⟩
  have hrender := renderTo_succ depth (ws.map (·.task.id)) again patch hidle halive
  have hvalid : e.Valid := h.sound.consistent.valid
  obtain ⟨hsteps, -, -⟩ := work_begun again patch (show ws.length + 1 + depth = limit by omega)
    hvalid hid hidle halive
  have htemplate : (enter again id patch e).2.template id = _ := template_enter_self hid
  have hlt : (enter again id patch e).1.id < (enter again id patch e).2.templates.length :=
    lt_length_of_rendering (by rw [enter_id, htemplate])
  obtain ⟨tries, answered, log, e₁, e₂, hdrive, hexecutes, hcourse, hforget⟩ :=
    executes_produce (answer depth (id :: ws.map (·.task.id))) hlt fun htype => by
      rw [enter_type again patch hid] at htype
      rw [enter_id, htemplate]
      exact isSome_of_chooseType htype
  dsimp only at hrender hsteps ⊢
  rw [hdrive] at hrender hsteps
  rw [hdepth, Nat.add_sub_cancel]
  have hends : Step limit ⟨ws, .work (enter again id patch e).1 (.done e₂ (answered, log))⟩ _ := .ends
  have hsettled := hcourse.settled (hends.reportsFailed (h.of_steps hsteps))
  refine ⟨tries, e₁, (answered, log), e₂, _, _, hexecutes, hcourse.length_le, hcourse, hforget, hsteps,
    hends, hrender, hsettled, fun hfull hnone => ?_⟩
  have hcontent : ((enter again id patch e).2.template id).content = (e.template id).content := by
    rw [htemplate]
  obtain ⟨opened, herror⟩ := hcourse.unterminated_of_none hfull (by rw [enter_id, hcontent, hnone])
  refine ⟨opened, ?_⟩
  obtain rfl : answered = _ := herror
  rfl

/-- A template whose fragment lacks a brace and fails, which does not halt. -/
def goingOn : Engine Failing :=
  (register (.inline "<$ if (a) b $>".toList) { haltOnError := some false } none {}).2

/-- It comes to what its repaired body emitted, and one failure is reported. -/
theorem failures_halt_or_are_reported_going_on :
    Reachable maxDepth ⟨[], .call false 0 {} goingOn⟩ ∧ ([] : List (Waiting Failing)).length < maxDepth ∧
      ∃ tries result e₂ e₃, renderTo maxDepth [] false 0 {} goingOn = (result, e₃) ∧
        Settled (enter false 0 {} goingOn).1 tries result e₂ e₃ ∧ result = .ok ['a'] ∧
        e₃.reported.map (·.code) =
          [Diagnostic.repaired, Diagnostic.executionFailed] := by
  have hreachable : Reachable maxDepth ⟨[], .call false 0 {} goingOn⟩ :=
    ((Reachable.start ⟨rfl, rfl, rfl⟩).goes (.operation (.register _ _ _))).goes
      (.operation (.render {} (by decide)))
  have hlimit : ([] : List (Waiting Failing)).length < maxDepth := by decide
  obtain ⟨tries, e₁, produced, e₂, result, e₃, -, -, -, -, -, -, hrender, hsettled, -⟩ :=
    (failures_halt_or_are_reported hreachable hlimit).2.1 rfl
  have hgoes : (renderTo maxDepth [] false 0 {} goingOn).1 = .ok ['a'] ∧
      (renderTo maxDepth [] false 0 {} goingOn).2.reported.map (·.code) =
        [Diagnostic.repaired, Diagnostic.executionFailed] := by decide +kernel
  rw [show renderTo maxDepth [] false 0 {} goingOn = (result, e₃) from hrender] at hgoes
  exact ⟨hreachable, hlimit, tries, result, e₂, e₃, hrender, hsettled, hgoes⟩

end Stencil.Engine
