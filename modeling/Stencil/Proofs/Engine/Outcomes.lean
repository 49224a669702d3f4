import Stencil.Proofs.Engine.Sound
/-!
# What comes of a render

A render that returns an error of its content, of its fragments or of the registry leaves its template
as it was, but for its options and what the next render starts from. One that produced text is counted
once, whether or not that text can be written. In between, whatever nested renders do, a template
under render is held.
-/
namespace Stencil.Engine

open Relation Run

variable {I : Interpreter} {limit depth : Nat} {outer : List TemplateId} {again : Bool}
  {id : TemplateId} {patch : Patch} {e e' : Engine I} {task : Task}

/-! ## Nested renders hold what is under render -/

/-- Templates stay there, and those under render are held. -/
structure Holds (e e' : Engine I) : Prop where
  valid : e.Valid → e'.Valid
  held : ∀ i, (e.template i).rendering = true → Held i e e'

private theorem Holds.refl (e : Engine I) : Holds e e :=
  ⟨fun h => h, fun _ _ => Template.Untouched.refl _⟩

private theorem rendering_of_held {i : TemplateId} (h : Held i e e')
    (hr : (e.template i).rendering = true) : (e'.template i).rendering = true := by
  obtain ⟨children, warned, hsame⟩ := h
  rw [hsame]
  exact hr

private theorem Holds.trans {e'' : Engine I} (h : Holds e e') (h' : Holds e' e'') : Holds e e'' :=
  ⟨h'.valid ∘ h.valid, fun i hr =>
    (h.held i hr).trans (h'.held i (rendering_of_held (h.held i hr) hr))⟩

private theorem holds_beside (h : Beside e e') : Holds e e' :=
  ⟨h.valid, fun i hr => (h.template i).untouched hr⟩

/-- What the work of a render and the nested ones do together, to its template and to others under
render. -/
structure Around (id : TemplateId) (e e' : Engine I) : Prop where
  self : Template.Underway (e.template id) (e'.template id)
  others : ∀ i ≠ id, (e.template i).rendering = true → Held i e e'

private theorem Around.refl (id : TemplateId) (e : Engine I) : Around id e e :=
  ⟨Template.Underway.refl _, fun _ _ _ => Template.Untouched.refl _⟩

private theorem Around.trans {e'' : Engine I} (h : Around id e e') (h' : Around id e' e'') :
    Around id e e'' :=
  ⟨h.self.trans h'.self, fun i hi hr =>
    (h.others i hi hr).trans (h'.others i hi (rendering_of_held (h.others i hi hr) hr))⟩

private theorem around_own (h : Own task e e') : Around task.id e e' :=
  ⟨h.self, fun i hi _ => held_of_eq (h.others i hi)⟩

private theorem Around.rendering (h : Around id e e') (hr : (e.template id).rendering = true) :
    (e'.template id).rendering = true := by
  obtain ⟨program, lastFull, children, warned, hsame⟩ := h.self
  rw [hsame]
  exact hr

private theorem around_holds (h : Holds e e') (hr : (e.template id).rendering = true) :
    Around id e e' :=
  ⟨(h.held id hr).underway, fun i _ => h.held i⟩

/-- The work of a render comes to what it should if nested renders hold what is under render. -/
theorem drive_work {α : Type} {ends : Engine I → α → Prop}
    {nested : Request → Engine I → Except Error Text × Engine I} {run : Run (Engine I) α}
    (hnested : ∀ request e, e.Valid → Holds e (nested request e).2) (hvalid : e.Valid)
    (hrendering : (e.template task.id).rendering = true)
    (hworks : SafeFrom (Held task.id) (Own task) ends e run) :
    ends (drive nested run).2 (drive nested run).1 ∧ (drive nested run).2.Valid ∧
      Around task.id e (drive nested run).2 := by
  have hstretch := around_own hworks.stretch
  have hstate : run.state.Valid ∧ (run.state.template task.id).rendering = true :=
    ⟨(grown_own hworks.stretch).valid hvalid, hstretch.rendering hrendering⟩
  obtain ⟨hends, ⟨hvalid', -⟩, haround⟩ := drive_safe
    (fun e => e.Valid ∧ (e.template task.id).rendering = true)
    (Around.refl task.id) Around.trans
    (fun {e e'} holds hown => ⟨⟨(grown_own hown).valid holds.1,
      (around_own hown).rendering holds.2⟩, around_own hown⟩)
    (fun request e holds =>
      have hheld := hnested request e holds.1
      ⟨hheld.held task.id holds.2, ⟨hheld.valid holds.1,
        rendering_of_held (hheld.held _ holds.2) holds.2⟩, around_holds hheld holds.2⟩)
    hworks.safe hstate
  exact ⟨hends, hvalid', hstretch.trans haround⟩

private theorem held_enter {i : TemplateId} (again : Bool) (patch : Patch)
    (hidle : (e.template id).rendering = false)
    (hr : (e.template i).rendering = true) : i ≠ id ∧ Held i e (enter again id patch e).2 := by
  have hne : i ≠ id := by
    rintro rfl
    exact Bool.false_ne_true (hidle.symm.trans hr)
  exact ⟨hne, held_of_eq (template_enter_of_ne hne)⟩

/-- What a render does to the rest, if its nested ones hold what is under render. -/
private theorem holds_begun {nested : Request → Engine I → Except Error Text × Engine I}
    (hnested : ∀ request e, e.Valid → Holds e (nested request e).2) (hvalid : e.Valid)
    (hid : id < e.templates.length) (hidle : (e.template id).rendering = false)
    (htask : (enter again id patch e).1 = task) :
    let driven := drive nested (produce task (enter again id patch e).2)
    Holds e (finish task driven.2 driven.1).2 := by
  have htaskId : task.id = id := by rw [← htask, enter_id]
  have hrendering : ((enter again id patch e).2.template task.id).rendering = true := by
    rw [htaskId, template_enter_self hid]
  obtain ⟨-, hvalid', haround⟩ :=
    drive_work hnested (grown_enter.valid hvalid) hrendering (works_enter _ _ hid htask)
  refine ⟨fun _ => grown_finish.valid hvalid', fun i hr => ?_⟩
  obtain ⟨hne, hentered⟩ := held_enter again patch hidle hr
  rw [← htaskId] at hne
  refine (hentered.trans (haround.others i hne (rendering_of_held hentered hr))).trans ?_
  exact held_of_eq (template_finish_of_ne hne)

private theorem holds_answer {running : List TemplateId} (hvalid : e.Valid) (request : Request)
    (ih : ∀ {e : Engine I} {id : TemplateId} {patch : Patch}, e.Valid → id < e.templates.length →
      Holds e (renderTo depth running false id patch e).2) :
    Holds e (answer depth running request e).2 := by
  have hb := beside_resolve (requester running request) request e
  unfold answer
  cases hresolve : resolve (requester running request) request e with
  | mk resolution e' =>
      rw [hresolve] at hb
      cases resolution with
      | reply reply => exact holds_beside hb
      | render child patch =>
          obtain ⟨-, content, -, hfound⟩ := resolve_eq_render hresolve
          have hvalid' := hb.valid hvalid
          exact (holds_beside hb).trans (ih hvalid' (hvalid'.find? hfound))

/-- Whatever is rendered, templates under render are held. -/
theorem holds_renderTo (hvalid : e.Valid) (hid : id < e.templates.length) :
    Holds e (renderTo depth outer again id patch e).2 := by
  induction depth generalizing outer again id patch e with
  | zero => exact Holds.refl e
  | succ depth ih =>
      cases hidle : (e.template id).rendering with
      | true =>
          rw [renderTo, if_pos hidle]
          exact Holds.refl e
      | false =>
          cases halive : e.alive with
          | false =>
              rw [renderTo]
              simp only [hidle, halive, Bool.not_false, Bool.false_eq_true, if_true, if_false]
              exact Holds.refl e
          | true =>
              rw [renderTo_succ depth _ again patch hidle halive]
              exact holds_begun (fun request e hvalid => holds_answer hvalid request ih)
                hvalid hid hidle rfl

/-! ## What is counted -/

/-- No render of the template was completed in between. -/
structure Unrendered (t t' : Template I) : Prop where
  output : t'.output = t.output
  scope : t'.scope = t.scope
  times : t'.history.times = t.history.times
  count : ∀ type, t'.history.count type = t.history.count type
  lastType : t'.history.lastType = t.history.lastType
  lastOptions : t'.lastOptions = t.lastOptions

/-- Just the render of the task was completed in between, with this output. -/
structure Rendered (task : Task) (output : Text) (t t' : Template I) : Prop where
  output : t'.output = output
  scope : t'.scope = t.scope
  times : ∃ duration, t'.history.times = t.history.times ++ [(task.type, duration)]
  count : ∀ type, t'.history.count type = t.history.count type + if type = task.type then 1 else 0
  lastType : t'.history.lastType = some task.type
  lastOptions : t'.lastOptions = some task.options

private theorem Unrendered.refl (t : Template I) : Unrendered t t :=
  ⟨rfl, rfl, rfl, fun _ => rfl, rfl, rfl⟩

private theorem Unrendered.trans {t t' t'' : Template I} (h : Unrendered t t')
    (h' : Unrendered t' t'') : Unrendered t t'' :=
  ⟨h'.output.trans h.output, h'.scope.trans h.scope, h'.times.trans h.times,
    fun type => (h'.count type).trans (h.count type), h'.lastType.trans h.lastType,
    h'.lastOptions.trans h.lastOptions⟩

private theorem unrendered_underway {t t' : Template I} (h : Template.Underway t t') :
    Unrendered t t' := by
  obtain ⟨program, lastFull, children, warned, rfl⟩ := h
  exact ⟨rfl, rfl, rfl, fun type => by cases type <;> rfl, rfl, rfl⟩

private theorem rendered_record {t t' : Template I} (h : Unrendered t t') (raw : Text) (now : Nat) :
    Rendered task (task.style raw) t (task.record raw now (task.release t')) := by
  refine ⟨rfl, h.scope, ⟨_, congrArg (· ++ _) h.times⟩, fun type => ?_, rfl, rfl⟩
  rw [← h.count type]
  cases htype : task.type <;> cases type <;>
    simp [Task.record, Task.release, History.record, History.count, htype]

/-- What has come of a call when it returns. The text of a render that was begun is what its work
ended with, if it is one. -/
def Outcome (limit : Nat) (ws : List (Waiting I)) (again : Bool) (id : TemplateId) (patch : Patch)
    (e : Engine I) (result : Except Error Text) (e' : Engine I) : Prop :=
  let task := (enter again id patch e).1
  let Made (raw : Text) := ∃ e₂ answer, task.text? answer.1 = .ok raw ∧
    ReflTransGen (Step limit) ⟨ws, .call again id patch e⟩ ⟨ws, .work task (.done e₂ answer)⟩
  match result with
  | .ok output =>
    ∃ raw, Made raw ∧ output = task.style raw ∧
      Rendered task output (e.template id) (e'.template id)
  | .error (.unwritable _ _) =>
    ∃ raw, Made raw ∧ Rendered task (task.style raw) (e.template id) (e'.template id)
  | .error (.unterminatedCode _ _ _) | .error (.execution _ _) | .error .registryDropped =>
    Unrendered (e.template id) (e'.template id)
  | .error (.unreadable _ _) | .error (.negativeAdvance _) => False

private theorem text?_error {answer : Except Error Execution} {error : Error}
    (h : task.text? answer = .error error) :
    answer = .error error ∨ ∃ message, error = .execution task.label message := by
  unfold Task.text? at h
  split at h
  · exact .inl (congrArg Except.error (Except.error.inj h))
  · split at h
    · simp at h
    · split at h
      · exact .inr ⟨_, (Except.error.inj h).symm⟩
      · simp at h

private theorem unrendered_enter (again : Bool) (patch : Patch) (hid : id < e.templates.length) :
    Unrendered (e.template id) ((enter again id patch e).2.template id) := by
  rw [template_enter_self hid]
  exact ⟨rfl, rfl, rfl, fun _ => rfl, rfl, rfl⟩

/-- An error of the end of a render, and the text that its work ended with. -/
private theorem finish_outcome (task : Task) {s : I.State} {t : Template I}
    {answer : Except Error Execution × Collector}
    (hlt : task.id < e.templates.length) (ht : Unrendered t (e.template task.id))
    (hproduced : Produced s task (e.template task.id) answer.1) :
    (∃ error, (finish task e answer).1 = .error error ∧
      ((∃ template stop opened, error = .unterminatedCode template stop opened) ∨
        ∃ template message, error = .execution template message) ∧
      Unrendered t ((finish task e answer).2.template task.id)) ∨
    ∃ raw, task.text? answer.1 = .ok raw ∧
      ((finish task e answer).1 = .ok (task.style raw) ∨
        ∃ path fault, (finish task e answer).1 = .error (.unwritable path fault)) ∧
      Rendered task (task.style raw) t ((finish task e answer).2.template task.id) := by
  rw [template_finish_self hlt]
  rcases finish_cases task e answer with ⟨error, log, htext, hfinish⟩ | ⟨raw, log, htext, hfinish⟩ <;>
    rw [hfinish, Task.ended, htext]
  · refine .inl ⟨error, rfl, ?_, ht.trans ⟨rfl, rfl, rfl, fun type => by cases type <;> rfl, rfl, rfl⟩⟩
    rcases text?_error htext with hanswer | ⟨message, rfl⟩
    · obtain ⟨-, stop, opened, rfl⟩ := hproduced.error error hanswer
      exact .inl ⟨_, _, _, rfl⟩
    · exact .inr ⟨_, _, rfl⟩
  · exact .inr ⟨raw, rfl, complete_fst task raw _, rendered_record ht raw _⟩

/-- The work of a call comes to its end with what the function that renders makes of its requests. -/
theorem work_begun {ws : List (Waiting I)} (again : Bool) (patch : Patch)
    (hlimit : ws.length + 1 + depth = limit) (hvalid : e.Valid) (hid : id < e.templates.length) (hidle : (e.template id).rendering = false)
    (halive : e.alive = true) :
    let begun := enter again id patch e
    let driven := drive (answer depth (id :: ws.map (·.task.id))) (produce begun.1 begun.2)
    ReflTransGen (Step limit) ⟨ws, .call again id patch e⟩ ⟨ws, .work begun.1 (.done driven.2 driven.1)⟩ ∧
      Produced e.shared begun.1 (driven.2.template id) driven.1.1 ∧ Around id begun.2 driven.2 := by
  dsimp only
  have hentered : ((enter again id patch e).2.template (enter again id patch e).1.id).rendering =
      true := by rw [enter_id, template_enter_self hid]
  have hanswer (request : Request) (e : Engine I) (hvalid : e.Valid) :
      Holds e (answer depth (id :: ws.map (·.task.id)) request e).2 :=
    holds_answer hvalid request holds_renderTo
  have hwork := drive_work hanswer (grown_enter.valid hvalid) hentered (works_enter again patch hid rfl)
  have hsteps := (ReflTransGen.single (.begins (by omega) hidle halive)).trans
    (steps_work (enter again id patch e).1 hlimit
      (produce (enter again id patch e).1 (enter again id patch e).2))
  rw [enter_id] at hwork hsteps
  exact ⟨hsteps, hwork.1, hwork.2.2⟩

private theorem outcome_begun {ws : List (Waiting I)} (hlimit : ws.length + 1 + depth = limit)
    (hvalid : e.Valid) (hid : id < e.templates.length) (hidle : (e.template id).rendering = false)
    (halive : e.alive = true) :
    Outcome limit ws again id patch e
      (renderTo (depth + 1) (ws.map (·.task.id)) again id patch e).1
      (renderTo (depth + 1) (ws.map (·.task.id)) again id patch e).2 := by
  rw [renderTo_succ depth _ again patch hidle halive]
  dsimp only
  obtain ⟨hsteps, hproduced, haround⟩ := work_begun again patch hlimit hvalid
    hid hidle halive
  generalize drive (answer depth (id :: ws.map (·.task.id)))
    (produce (enter again id patch e).1 (enter again id patch e).2) = driven
    at hsteps hproduced haround ⊢
  obtain ⟨answer, e₂⟩ := driven
  have hunrendered := (unrendered_enter again patch hid).trans
    (unrendered_underway haround.self)
  have hlt : id < e₂.templates.length :=
    lt_length_of_rendering (haround.rendering (by rw [template_enter_self hid]))
  have houtcome := finish_outcome (enter again id patch e).1 hlt hunrendered hproduced
  rw [enter_id] at houtcome
  generalize finish (enter again id patch e).1 e₂ answer = finished at houtcome ⊢
  obtain ⟨result, e₃⟩ := finished
  rcases houtcome with ⟨error, hresult, herror, hsame⟩ | ⟨raw, htext, hresult, hrendered⟩
  · obtain rfl : result = .error error := hresult
    obtain ⟨_, _, _, rfl⟩ | ⟨_, _, rfl⟩ := herror <;> exact hsame
  · obtain hresult | ⟨path, fault, hresult⟩ := hresult
    · obtain rfl : result = _ := hresult
      exact ⟨raw, ⟨e₂, answer, htext, hsteps⟩, rfl, hrendered⟩
    · obtain rfl : result = _ := hresult
      exact ⟨raw, ⟨e₂, answer, htext, hsteps⟩, hrendered⟩

/-- A render or update of an idle template that returns an error of its content, of its fragments or
of the registry leaves the template's output, scope and counts as they were; one that returns a text,
or fails to write it, is entered once, with the styled text for output. A template under render only
shows its last output. So at every moment the counts are those of the entries. -/
theorem renders_counted_once {m : Moment I} (h : Reachable limit m) :
    (∀ i, (m.engine.template i).history.Tallied) ∧
    (∀ depth outer again id patch (e : Engine I), (e.template id).rendering = true →
      renderTo (depth + 1) outer again id patch e = (.ok (e.template id).output, e)) ∧
    ∀ ws again id patch e, m = ⟨ws, .call again id patch e⟩ →
      ∃ result e', ReflTransGen (Step limit) m ⟨ws, .back result e'⟩ ∧
        renderTo (limit - ws.length) (ws.map (·.task.id)) again id patch e = (result, e') ∧
        Outcome limit ws again id patch e result e' := by
  obtain ⟨hc, -, hactivity⟩ := h.sound
  refine ⟨hc.tallied, fun depth outer again id patch e hr => by rw [renderTo, if_pos hr],
    fun ws again id patch e hm => ?_⟩
  subst hm
  obtain ⟨hid, hidle, -⟩ := hactivity
  rcases Nat.lt_or_ge ws.length limit with hlt | hge
  · obtain ⟨depth, hdepth⟩ : ∃ depth, limit - ws.length = depth + 1 := ⟨limit - ws.length - 1, by omega⟩
    rw [hdepth]
    refine ⟨_, _, steps_renderTo ws (show ws.length + (depth + 1) = limit by omega), rfl, ?_⟩
    cases halive : e.alive with
    | true => exact outcome_begun (by omega) hc.valid hid hidle halive
    | false =>
        simp only [renderTo, hidle, halive, Bool.not_false, Bool.false_eq_true, if_true, if_false]
        exact Unrendered.refl _
  · rw [Nat.sub_eq_zero_of_le hge]
    exact ⟨_, _, .single (.deep hge), rfl, Unrendered.refl _⟩

/-- A language whose programs emit a letter and fail. -/
def Failing : Interpreter where
  State := Unit
  Program := Unit
  initial := ()
  compile _ _ _ := .ok ()
  run _ _ _ := .done () { output := ['a'], error := some "stopped" }

/-- A template there, whose failures halt. -/
def halting : Engine Failing := (register (.inline []) { haltOnError := some true } none {}).2

/-- Its render fails and leaves no entry. -/
theorem renders_counted_once_halting :
    Reachable maxDepth ⟨[], .call false 0 {} halting⟩ ∧
      ∃ e', renderTo maxDepth [] false 0 {} halting =
          (.error (.execution (halting.label 0) "stopped"), e') ∧
        Unrendered (halting.template 0) (e'.template 0) := by
  have hreachable : Reachable maxDepth ⟨[], .call false 0 {} halting⟩ :=
    ((Reachable.start ⟨rfl, rfl, rfl⟩).goes (.operation (.register _ _ _))).goes
      (.operation (.render {} (by decide)))
  obtain ⟨result, e', -, hrender, houtcome⟩ :=
    (renders_counted_once hreachable).2.2 _ _ _ _ _ rfl
  have hfails : (renderTo maxDepth [] false 0 {} halting).1 =
      .error (.execution (halting.label 0) "stopped") := by decide +kernel
  obtain rfl : _ = result := hfails.symm.trans (congrArg Prod.fst hrender)
  exact ⟨hreachable, e', hrender, houtcome⟩

end Stencil.Engine
