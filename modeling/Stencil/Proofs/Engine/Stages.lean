import Stencil.Proofs.Engine.Changes
import Stencil.Proofs.Options.Patches
/-!
# The stages of a render

A render begins by taking over its patch, resolves what its fragments ask for, and ends by entering
its output or by nothing at all. Each stage changes its own template, and the others only as nested
renders do.
-/
namespace Stencil.Engine

variable {I : Interpreter} {e : Engine I} {id i : TemplateId} {task : Task}

/-! ## Begin -/

section Enter

variable {again : Bool} {patch : Patch}

@[simp] theorem enter_id : (enter again id patch e).1.id = id := rfl

@[simp] theorem enter_started : (enter again id patch e).1.started = e.clock.now := rfl

@[simp] theorem enter_label : (enter again id patch e).1.label = e.label id := rfl

theorem grown_enter : Grown e (enter again id patch e).2 :=
  grown_of_eq (by simp [enter, applyPatch]) rfl rfl

theorem template_enter_of_ne (h : i ≠ id) : (enter again id patch e).2.template i = e.template i := by
  simp only [enter, applyPatch]
  rw [template_modify_of_ne h, template_report, template_modify_of_ne h, template_tick]

/-- The options that a patch makes of a template's own. -/
def patchedOptions (id : TemplateId) (patch : Patch) (e : Engine I) : Options :=
  let before := (e.template id).options
  (before.apply patch { reporting := before.reporting, template := some (e.label id) }).1

private theorem template_applyPatch (patch : Patch) (h : id < e.templates.length) :
    (e.tick.applyPatch id patch (e.label id)).2.template id =
      { e.template id with options := patchedOptions id patch e } := by
  simp only [applyPatch]
  rw [template_report, template_modify_self (by simpa using h)]
  rfl

theorem enter_options (again : Bool) (patch : Patch) (h : id < e.templates.length) :
    (enter again id patch e).1.options = patchedOptions id patch e := by
  have htemplate := template_applyPatch patch h
  simp only [enter]
  rw [htemplate]

theorem template_enter_self (h : id < e.templates.length) : (enter again id patch e).2.template id =
    { e.template id with options := patchedOptions id patch e, rendering := true } := by
  have htemplate := template_applyPatch patch h
  simp only [enter]
  rw [template_modify_self (by simpa [applyPatch] using h), htemplate]

/-- The way a render is begun in: that of the template with its new options. -/
theorem enter_type (again : Bool) (patch : Patch) (h : id < e.templates.length) :
    (enter again id patch e).1.type =
    chooseType { e.template id with options := patchedOptions id patch e } again
      ((patchedOptions id patch e).delimiters != (e.template id).options.delimiters)
      e.clock.now := by
  have htemplate := template_applyPatch patch h
  have hchanged : (e.tick.applyPatch id patch (e.label id)).1 =
      ((patchedOptions id patch e).delimiters != (e.template id).options.delimiters) :=
    Options.apply_changed ..
  simp only [enter]
  rw [htemplate, hchanged]

end Enter

/-! ## Ask -/

section Resolve

variable {parent child : TemplateId} {request : Request} {log : Collector}

theorem beside_renderStatic (id : TemplateId) (e : Engine I) : Beside e (renderStatic id e).2 := by
  unfold renderStatic
  by_cases hr : (e.template id).rendering = true
  · simp only [hr, if_true]
    exact Beside.refl e
  · simp only [hr, if_false, Bool.false_eq_true]
    have hrecord := Template.beside_record (t := e.tick.tick.template id) (by simpa using hr)
    exact ((beside_tick e).trans (beside_tick _)).trans (beside_modify (hrecord _ _ _))

theorem beside_noteCycle (parent child : TemplateId) (log : Collector) (e : Engine I) :
    Beside e (noteCycle parent child log e).2 := by
  unfold noteCycle
  simp only
  split
  · exact Beside.refl e
  · exact beside_modify (Template.Untouched.beside ⟨_, _, rfl⟩)

/-- The content that a request of a template leads to. -/
def requested (parent : TemplateId) (request : Request) (e : Engine I) : Except Error Text :=
  let t := e.template parent
  let patch := (Patch.ofJson (request.options.getD .null)
    { reporting := t.options.reporting, template := some (e.label parent) }).1
  (t.childSource (patch.code.getD t.options.code) request.source).load e.disk

private theorem beside_addChild (parent : TemplateId) (f : Fingerprint) (e : Engine I) :
    Beside e (e.modify parent fun t => t.addChild f) :=
  beside_modify (Template.Untouched.beside ⟨_, _, rfl⟩)

theorem beside_resolve (parent : TemplateId) (request : Request) (e : Engine I) :
    Beside e (resolve parent request e).2 := by
  unfold resolve
  simp only
  split
  · exact Beside.refl e
  · rename_i content _
    have hnote := beside_addChild parent (.ofContent content) e
    split
    · rename_i child _
      split
      · exact ((hnote.trans (beside_noteCycle ..)).trans (beside_report ..)).trans
          (beside_renderStatic ..)
      · rename_i hidle
        rw [Bool.not_eq_true, Bool.or_eq_false_iff] at hidle
        exact (hnote.trans (beside_report ..)).trans (beside_setScope (by exact hidle.2) _)
    · rename_i hnone
      refine ((hnote.trans (beside_report ..)).trans (beside_insert _ _ _ _ _ _ hnone)).trans
        (beside_setScope ?_ _)
      obtain ⟨options, created, hnew⟩ := exists_template_insert _ _ content _ {} none
      rw [insert_fst, hnew]

private theorem find?_setScope (id : TemplateId) (scope : Option Json) (e : Engine I) :
    (e.setScope? id scope).find? = e.find? := by
  cases scope <;> rfl

/-- A child to be rendered is idle, and the registry finds it by the content asked for. -/
theorem resolve_eq_render {patch : Patch} {e' : Engine I}
    (h : resolve parent request e = (.render child patch, e')) :
    (e'.template child).rendering = false ∧
      ∃ content, requested parent request e = .ok content ∧
        e'.find? (.ofContent content) = some child := by
  unfold resolve at h
  simp only at h
  split at h
  · simp at h
  · rename_i content hload
    split at h
    · rename_i child' hfound
      split at h
      · simp at h
      · rename_i hidle
        rw [Bool.not_eq_true, Bool.or_eq_false_iff] at hidle
        simp only [Prod.mk.injEq, Resolution.render.injEq] at h
        obtain ⟨⟨rfl, -⟩, rfl⟩ := h
        refine ⟨?_, content, hload, ?_⟩
        · rw [((beside_setScope (by exact hidle.2) _).template child').rendering]
          exact hidle.2
        · rw [find?_setScope]
          exact hfound
    · simp only [Prod.mk.injEq, Resolution.render.injEq] at h
      obtain ⟨⟨rfl, -⟩, rfl⟩ := h
      obtain ⟨options, created, hnew⟩ := exists_template_insert _ _ content _ {} none
      refine ⟨?_, content, hload, ?_⟩
      · rw [((beside_setScope (by rw [insert_fst, hnew]) _).template _).rendering, insert_fst, hnew]
      · rw [find?_setScope, insert_fst, find?_insert_self]

end Resolve

/-! ## End -/

section Finish

variable {answer : Except Error Execution × Collector}

/-- The text that a way of rendering comes to, or the error that stops the render. -/
def Task.text? (task : Task) : Except Error Execution → Except Error Text
  | .error error => .error error
  | .ok ended =>
    match ended.error with
    | none => .ok ended.output
    | some message =>
      if task.options.haltOnError then .error (.execution task.label message) else .ok ended.output

theorem Task.settle_eq (task : Task) (log : Collector) (ended : Execution) :
    (task.settle log ended).1 = task.text? (.ok ended) := by
  obtain ⟨output, error⟩ := ended
  cases error with
  | none => rfl
  | some message =>
      unfold settle text?
      simp only
      split <;> rfl

/-- The output is written into its file, or an error says why not. -/
theorem writeOutput_cases (task : Task) (output : Text) (e : Engine I) :
    (∃ disk, writeOutput task output e = (.ok (), { e.tick with disk })) ∨
      ∃ (name : OutputName) (error : Error),
        e.disk.write (name.path task.options) output.toBytes = .error error ∧
          writeOutput task output e = (.error error, e.tick) := by
  unfold writeOutput
  dsimp only
  split
  · exact .inl ⟨_, rfl⟩
  · rename_i error herror
    exact .inr ⟨_, error, herror, rfl⟩

theorem templates_writeOutput (task : Task) (output : Text) (e : Engine I) :
    (writeOutput task output e).2.templates = e.templates ∧
      (writeOutput task output e).2.entries = e.entries ∧
      (writeOutput task output e).2.alive = e.alive := by
  rcases writeOutput_cases task output e with ⟨disk, hwritten⟩ | ⟨name, error, -, hwritten⟩ <;>
    rw [hwritten] <;> exact ⟨rfl, rfl, rfl⟩

/-- What a completed render announces. -/
def announcement (task : Task) (e : Engine I) : Collector :=
  Collector.notify { reporting := task.options.reporting, template := some task.label }
    Diagnostic.rendered ("Rendered " ++ task.type.name ++ " in " ++
      millisText (e.clock.now - task.started) ++ "ms")

/-- The engine in which the output of a render has been entered and announced. -/
def entered (task : Task) (raw : Text) (e : Engine I) : Engine I :=
  (e.tick.modify task.id (task.record raw e.clock.now)).report (announcement task e)

/-- A render that produced text is entered, and its output is then written if that is wanted. -/
theorem complete_eq (task : Task) (raw : Text) (e : Engine I) : complete task raw e =
    if task.options.output then
      let written := (entered task raw e).writeOutput task (task.style raw)
      (written.1.map fun _ => task.style raw, written.2)
    else (.ok (task.style raw), entered task raw e) := by
  unfold complete
  dsimp only
  split
  · split <;> rename_i hwritten
    · rw [show (entered task raw e).writeOutput task (task.style raw) = _ from hwritten]
      rfl
    · rw [show (entered task raw e).writeOutput task (task.style raw) = _ from hwritten]
      rfl
  · rfl

/-- A completed render is entered in its template, whether or not its file can be written. -/
theorem templates_complete (task : Task) (raw : Text) (e : Engine I) :
    (complete task raw e).2.templates =
        (e.modify task.id (task.record raw e.clock.now)).templates ∧
      (complete task raw e).2.entries = e.entries ∧ (complete task raw e).2.alive = e.alive := by
  rw [complete_eq]
  split
  · exact templates_writeOutput task (task.style raw) (entered task raw e)
  · exact ⟨rfl, rfl, rfl⟩

private theorem write_error {d : Disk} {p : Path} {content : Bytes} {error : Error}
    (h : d.write p content = .error error) : ∃ path fault, error = .unwritable path fault := by
  unfold Disk.write at h
  simp only at h
  split at h
  · exact ⟨_, _, (Except.error.inj h).symm⟩
  · split at h
    · exact ⟨_, _, (Except.error.inj h).symm⟩
    · simp at h

/-- A completed render returns its output, unless that cannot be written. -/
theorem complete_fst (task : Task) (raw : Text) (e : Engine I) :
    (complete task raw e).1 = .ok (task.style raw) ∨
      ∃ path fault, (complete task raw e).1 = .error (.unwritable path fault) := by
  rw [complete_eq]
  split
  · rcases writeOutput_cases task (task.style raw) (entered task raw e) with
      ⟨disk, hwritten⟩ | ⟨name, error, herror, hwritten⟩
    · rw [hwritten]
      exact .inl rfl
    · rw [hwritten]
      obtain ⟨path, fault, rfl⟩ := write_error herror
      exact .inr ⟨path, fault, rfl⟩
  · exact .inl rfl

/-- How a render ends: an error leaves no more than the release of its template, a text is entered. -/
theorem finish_cases (task : Task) (e : Engine I) (answer : Except Error Execution × Collector) :
    (∃ error log, task.text? answer.1 = .error error ∧
      finish task e answer = (.error error, (e.modify task.id task.release).report log)) ∨
    ∃ raw log, task.text? answer.1 = .ok raw ∧
      finish task e answer = complete task raw ((e.modify task.id task.release).report log) := by
  obtain ⟨result, log⟩ := answer
  cases result with
  | error error => exact .inl ⟨error, log, rfl, rfl⟩
  | ok ended =>
      have hsettle := task.settle_eq log ended
      rw [finish]
      split
      · rename_i error log' heq
        rw [heq] at hsettle
        exact .inl ⟨error, log', hsettle.symm, rfl⟩
      · rename_i raw log' heq
        rw [heq] at hsettle
        exact .inr ⟨raw, log', hsettle.symm, rfl⟩

/-- What the end of a render makes of its template. -/
def Task.ended (task : Task) (answer : Except Error Execution) (now : Nat) (t : Template I) :
    Template I :=
  match task.text? answer with
  | .error _ => task.release t
  | .ok raw => task.record raw now (task.release t)

theorem grown_finish : Grown e (finish task e answer).2 := by
  rcases finish_cases task e answer with ⟨error, log, -, h⟩ | ⟨raw, log, -, h⟩ <;> rw [h]
  · exact grown_of_eq (by simp) rfl rfl
  · obtain ⟨htemplates, hentries, halive⟩ :=
      templates_complete task raw ((e.modify task.id task.release).report log)
    exact grown_of_eq (by rw [htemplates]; simp) hentries halive

theorem template_finish_of_ne (h : i ≠ task.id) :
    (finish task e answer).2.template i = e.template i := by
  rcases finish_cases task e answer with ⟨error, log, -, hf⟩ | ⟨raw, log, -, hf⟩ <;> rw [hf]
  · rw [template_report, template_modify_of_ne h]
  · rw [Engine.template, (templates_complete _ _ _).1, ← Engine.template, template_modify_of_ne h,
      template_report, template_modify_of_ne h]

theorem template_finish_self (h : task.id < e.templates.length) :
    (finish task e answer).2.template task.id =
      task.ended answer.1 e.clock.now (e.template task.id) := by
  rcases finish_cases task e answer with ⟨error, log, ht, hf⟩ | ⟨raw, log, ht, hf⟩ <;>
    rw [hf, Task.ended, ht]
  · rw [template_report, template_modify_self h]
  · rw [Engine.template, (templates_complete _ _ _).1, ← Engine.template,
      template_modify_self (by simpa using h), template_report, template_modify_self h]
    rfl

end Finish

end Stencil.Engine
