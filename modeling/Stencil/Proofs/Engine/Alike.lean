import Stencil.Proofs.Engine.Stages
/-!
# Engines that differ where a render from source begins

A render from source gives up the program of its template, the instant of its last full render and
what is noted of its children. While the template is under render, nothing else can tell: what nested
renders do and reply is the same with and without them.
-/
namespace Stencil

variable {I : Interpreter}

/-- Templates that differ in what a render from source gives up. -/
def Template.Alike (t t' : Template I) : Prop :=
  ∃ program lastFull children,
    t' = { t with program, children, history := { t.history with lastFull } }

namespace Engine

variable {e e' : Engine I} {id i : TemplateId} {task : Task}

/-- Engines that differ at most so in one template, which is under render. -/
structure Alike (id : TemplateId) (e e' : Engine I) : Prop where
  rest : e' = { e with templates := e'.templates }
  length : e'.templates.length = e.templates.length
  others : ∀ i ≠ id, e'.template i = e.template i
  self : Template.Alike (e.template id) (e'.template id)
  rendering : (e.template id).rendering = true

theorem Alike.refl (hr : (e.template id).rendering = true) : Alike id e e :=
  ⟨rfl, rfl, fun _ _ => rfl,
    ⟨(e.template id).program, (e.template id).history.lastFull, (e.template id).children, rfl⟩, hr⟩

theorem Alike.template (h : Alike id e e') (i : TemplateId) :
    Template.Alike (e.template i) (e'.template i) := by
  by_cases hi : i = id
  · exact hi ▸ h.self
  · rw [h.others i hi]
    exact ⟨(e.template i).program, (e.template i).history.lastFull, (e.template i).children, rfl⟩

/-! ## What an engine keeps beside its templates -/

theorem Alike.label (h : Alike id e e') (i : TemplateId) : e'.label i = e.label i := by
  obtain ⟨program, lastFull, children, hsame⟩ := h.template i
  rw [Engine.label, Engine.label, hsame, h.rest]
  rfl

theorem Alike.find? (h : Alike id e e') (f : Fingerprint) : e'.find? f = e.find? f := by
  rw [h.rest]
  rfl

/-- What changes nothing but what is kept beside the templates, and does not look at them, changes
both alike. -/
theorem Alike.map (h : Alike id e e') {g : Engine I → Engine I}
    (hg : ∀ (e : Engine I) templates, g { e with templates } = { g e with templates }) :
    Alike id (g e) (g e') := by
  have hsame (e : Engine I) : (g e).templates = e.templates := by
    rw [show g e = { g e with templates := e.templates } from hg e e.templates]
  have htemplate (e : Engine I) (i : TemplateId) : (g e).template i = e.template i := by
    rw [Engine.template, hsame, Engine.template]
  refine ⟨?_, by rw [hsame, hsame, h.length], fun i hi => ?_, ?_, ?_⟩
  · rw [hsame, ← hg, ← h.rest]
  · rw [htemplate, htemplate, h.others i hi]
  · rw [htemplate, htemplate]
    exact h.self
  · rw [htemplate, h.rendering]

theorem Alike.report (h : Alike id e e') (log : Collector) : Alike id (e.report log) (e'.report log) :=
  h.map (g := (·.report log)) fun _ _ => rfl

theorem Alike.tick (h : Alike id e e') : Alike id e.tick e'.tick := h.map (g := (·.tick)) fun _ _ => rfl

theorem Alike.modify (h : Alike id e e') {f f' : Template I → Template I}
    (hother : i ≠ id → f' (e.template i) = f (e.template i))
    (hself : i = id → Template.Alike (f (e.template i)) (f' (e'.template i)) ∧
      (f (e.template i)).rendering = true) :
    Alike id (e.modify i f) (e'.modify i f') := by
  have hlt : id < e.templates.length := lt_length_of_rendering h.rendering
  have hlt' : id < e'.templates.length := h.length ▸ hlt
  refine ⟨?_, by simp [h.length], fun j hj => ?_, ?_, ?_⟩
  · rw [Engine.modify, h.rest]
    rfl
  · by_cases hji : j = i
    · subst hji
      by_cases hj' : j < e.templates.length
      · rw [template_modify_self hj', template_modify_self (h.length ▸ hj'), h.others j hj, hother hj]
      · have hle : e.templates.length ≤ j := Nat.le_of_not_lt hj'
        rw [template_of_length_le (by rwa [length_modify, h.length]),
          template_of_length_le (by rwa [length_modify])]
    · rw [template_modify_of_ne hji, template_modify_of_ne hji, h.others j hj]
  · by_cases hid : id = i
    · subst hid
      rw [template_modify_self hlt, template_modify_self hlt']
      exact (hself rfl).1
    · rw [template_modify_of_ne hid, template_modify_of_ne hid]
      exact h.self
  · by_cases hid : id = i
    · subst hid
      rw [template_modify_self hlt]
      exact (hself rfl).2
    · rw [template_modify_of_ne hid]
      exact h.rendering

/-- The same change of one template in both. -/
theorem Alike.modify_same (h : Alike id e e') {f : Template I → Template I}
    (hself : ∀ t t', Template.Alike t t' → Template.Alike (f t) (f t'))
    (hrendering : ∀ t, t.rendering = true → (f t).rendering = true) :
    Alike id (e.modify i f) (e'.modify i f) :=
  h.modify (fun _ => rfl) fun hi => ⟨hself _ _ (h.template i), hrendering _ (hi ▸ h.rendering)⟩

theorem Alike.modify_other (h : Alike id e e') (hi : i ≠ id) (f : Template I → Template I) :
    Alike id (e.modify i f) (e'.modify i f) :=
  h.modify (fun _ => rfl) fun heq => absurd heq hi

/-- What a render from source gives up or takes makes no more of a difference. -/
theorem Alike.modify_right (h : Alike id e e') {f : Template I → Template I}
    (hf : ∀ t t', Template.Alike t t' → Template.Alike t (f t')) : Alike id e (e'.modify id f) := by
  have hboth : Alike id (e.modify id fun t => t) (e'.modify id f) :=
    h.modify (fun hne => absurd rfl hne) fun _ => ⟨hf _ _ h.self, h.rendering⟩
  have hsame : e.modify id (fun t => t) = e := by
    exact congrArg (fun templates => { e with templates }) (List.modify_id id e.templates)
  rwa [hsame] at hboth

private theorem template_push (e : Engine I) (t : Template I) (i : TemplateId) :
    Engine.template { e with templates := e.templates ++ [t] } i =
      if i = e.templates.length then t else e.template i := by
  unfold Engine.template
  rw [List.getD_eq_getElem?_getD, List.getD_eq_getElem?_getD]
  split
  · rename_i hi
    simp [hi]
  · rename_i hi
    rcases Nat.lt_or_gt_of_ne hi with hlt | hgt
    · simp [List.getElem?_append, hlt]
    · rw [List.getElem?_eq_none (by simpa using Nat.succ_le_of_lt hgt), List.getElem?_eq_none (Nat.le_of_lt hgt)]

private theorem Alike.push (h : Alike id e e') (t : Template I) :
    Alike id { e with templates := e.templates ++ [t] }
      { e' with templates := e'.templates ++ [t] } := by
  have hne : id ≠ e.templates.length := (lt_length_of_rendering h.rendering).ne
  refine ⟨by rw [h.rest], by simp [h.length], fun i hi => ?_, ?_, ?_⟩
  · rw [template_push, template_push, h.length, h.others i hi]
  · rw [template_push, template_push, h.length, if_neg hne, if_neg hne]
    exact h.self
  · rw [template_push, if_neg hne]
    exact h.rendering

/-! ## What a request comes to -/

section Resolve

variable {parent child : TemplateId} {request : Request} {log : Collector}

private theorem alike_addChild {t t' : Template I} (h : Template.Alike t t') (f : Fingerprint) :
    Template.Alike (t.addChild f) (t'.addChild f) := by
  obtain ⟨program, lastFull, children, rfl⟩ := h
  exact ⟨program, lastFull, _, rfl⟩

private theorem Alike.noteCycle (h : Alike id e e') (parent child : TemplateId) (log : Collector) :
    (noteCycle parent child log e').1 = (noteCycle parent child log e).1 ∧
      Alike id (noteCycle parent child log e).2 (noteCycle parent child log e').2 := by
  obtain ⟨_, _, _, hparent⟩ := h.template parent
  obtain ⟨_, _, _, hchild⟩ := h.template child
  have hwarned : (e'.template parent).warned = (e.template parent).warned := by rw [hparent]
  have hfingerprint : (e'.template child).fingerprint = (e.template child).fingerprint := by
    rw [hchild]
  unfold Engine.noteCycle
  simp only [hwarned, hfingerprint, h.label]
  split
  · exact ⟨rfl, h⟩
  · refine ⟨rfl, h.modify_same (fun t t' ht => ?_) fun _ hr => hr⟩
    obtain ⟨program, lastFull, children, rfl⟩ := ht
    exact ⟨program, lastFull, children, rfl⟩

private theorem Alike.renderStatic (h : Alike id e e') (child : TemplateId) :
    (renderStatic child e').1 = (renderStatic child e).1 ∧
      Alike id (renderStatic child e).2 (renderStatic child e').2 := by
  obtain ⟨_, _, _, hchild⟩ := h.template child
  have hrendering : (e'.template child).rendering = (e.template child).rendering := by rw [hchild]
  have houtput : (e'.template child).output = (e.template child).output := by rw [hchild]
  have hclock : e'.clock = e.clock := by rw [h.rest]
  unfold Engine.renderStatic
  simp only [hrendering, houtput, Engine.tick, hclock]
  split
  · exact ⟨rfl, h⟩
  · rename_i hidle
    have hne : child ≠ id := fun heq => hidle (heq ▸ h.rendering)
    have hticked := h.tick.tick
    simp only [Engine.tick, hclock] at hticked
    exact ⟨rfl, hticked.modify_other hne _⟩

private theorem Alike.insert (h : Alike id e e') (source : Source) (content : Text) (base : Options)
    (patch : Patch) (scope : Option Json) :
    (e'.insert source content base patch scope).1 = (e.insert source content base patch scope).1 ∧
      Alike id (e.insert source content base patch scope).2
        (e'.insert source content base patch scope).2 := by
  refine ⟨h.length, ?_⟩
  have hclock : e'.clock = e.clock := by rw [h.rest]
  unfold Engine.insert
  simp only [h.length, hclock]
  exact (h.push _).map (g := fun e₁ =>
    { (e₁.report _).tick with
      entries := (e₁.entries.filter fun entry => entry.1 != .ofContent content) ++
        [(.ofContent content, e.templates.length)] }) fun _ _ => rfl

private theorem Alike.setScope (h : Alike id e e') (hidle : (e.template child).rendering = false)
    (scope : Option Json) : Alike id (e.setScope? child scope) (e'.setScope? child scope) := by
  have hne : child ≠ id := fun heq => Bool.false_ne_true (hidle.symm.trans (heq ▸ h.rendering))
  cases scope with
  | none => exact h
  | some scope => exact h.modify_other hne _

/-- Whether a child is run does not depend on what is noted of the children of a template under
render. -/
private theorem Alike.closes (h : Alike id e e') (child : TemplateId) (f : Fingerprint) :
    ((e'.template child).hasChild f || (e'.template child).rendering) =
      ((e.template child).hasChild f || (e.template child).rendering) := by
  by_cases hchild : child = id
  · subst hchild
    obtain ⟨_, _, _, hself⟩ := h.self
    rw [hself, h.rendering, Bool.or_true, Bool.or_true]
  · rw [h.others child hchild]

theorem Alike.resolve (h : Alike id e e') (parent : TemplateId) (request : Request) :
    (resolve parent request e').1 = (resolve parent request e).1 ∧
      Alike id (resolve parent request e).2 (resolve parent request e').2 := by
  have hdisk : e'.disk = e.disk := by rw [h.rest]
  obtain ⟨_, _, _, hparent⟩ := h.template parent
  have hoptions : (e'.template parent).options = (e.template parent).options := by rw [hparent]
  have hfingerprint : (e'.template parent).fingerprint = (e.template parent).fingerprint := by
    rw [hparent]
  have hchildSource : (e'.template parent).childSource = (e.template parent).childSource := by
    rw [hparent]
    rfl
  have hchildOptions : (e'.template parent).childOptions = (e.template parent).childOptions := by
    rw [hparent]
    rfl
  unfold Engine.resolve
  simp only [h.label, hoptions, hfingerprint, hchildSource, hchildOptions, hdisk]
  generalize Patch.ofJson _ _ = patched
  generalize (e.template parent).childSource _ _ = source
  cases source.load e.disk with
  | error error => exact ⟨rfl, h⟩
  | ok content =>
      have hnoted := h.modify_same (i := parent) (f := fun t => t.addChild (.ofContent content))
        (fun _ _ ht => alike_addChild ht _) fun _ hr => hr
      simp only [hnoted.find?]
      generalize e.modify parent _ = e₁ at hnoted ⊢
      generalize e'.modify parent _ = e₁' at hnoted ⊢
      cases e₁.find? (.ofContent content) with
      | none =>
          obtain ⟨hid, hinserted⟩ := (hnoted.report patched.2).insert source content
            (e.template parent).childOptions {} none
          obtain ⟨options, created, hnew⟩ := exists_template_insert (e₁.report patched.2) source
            content (e.template parent).childOptions {} none
          simp only [hid]
          exact ⟨trivial, hinserted.setScope (by rw [insert_fst, hnew]) request.scope⟩
      | some child =>
          simp only [hnoted.closes]
          split
          · obtain ⟨hlog, hcycle⟩ := hnoted.noteCycle parent child patched.2
            obtain ⟨houtput, hstatic⟩ := (hcycle.report _).renderStatic child
            rw [hlog, houtput]
            exact ⟨rfl, hstatic⟩
          · rename_i hidle
            rw [Bool.not_eq_true, Bool.or_eq_false_iff] at hidle
            exact ⟨rfl, (hnoted.report _).setScope hidle.2 _⟩

end Resolve

/-! ## Renders of other templates -/

section Other

variable {child : TemplateId} {again : Bool} {patch : Patch}

private theorem Alike.applyPatch (h : Alike id e e') (hchild : child ≠ id) (patch : Patch)
    (label : String) :
    (applyPatch child patch label e').1 = (applyPatch child patch label e).1 ∧
      Alike id (applyPatch child patch label e).2 (applyPatch child patch label e').2 := by
  unfold Engine.applyPatch
  simp only [h.others child hchild]
  exact ⟨trivial, (h.modify_other hchild _).report _⟩

theorem Alike.enter (h : Alike id e e') (again : Bool) (patch : Patch) (hchild : child ≠ id) :
    (enter again child patch e').1 = (enter again child patch e).1 ∧
      Alike id (enter again child patch e).2 (enter again child patch e').2 := by
  have hclock : e'.clock = e.clock := by rw [h.rest]
  obtain ⟨hchanged, hpatched⟩ := h.tick.applyPatch hchild patch (e.label child)
  unfold Engine.enter
  simp only [h.label, hclock, hchanged, hpatched.others child hchild]
  exact ⟨trivial, hpatched.modify_other hchild _⟩

private theorem Alike.writeOutput (h : Alike id e e') (htask : task.id ≠ id) (output : Text) :
    (writeOutput task output e').1 = (writeOutput task output e).1 ∧
      Alike id (writeOutput task output e).2 (writeOutput task output e').2 := by
  have hclock : e'.clock = e.clock := by rw [h.rest]
  have hdisk : e'.disk = e.disk := by rw [h.rest]
  unfold Engine.writeOutput
  simp only [h.others task.id htask, hclock, hdisk]
  split
  · rename_i disk _
    exact ⟨rfl, h.tick.map (g := fun e => { e with disk }) fun _ _ => rfl⟩
  · exact ⟨rfl, h.tick⟩

private theorem Alike.complete (h : Alike id e e') (htask : task.id ≠ id) (raw : Text) :
    (complete task raw e').1 = (complete task raw e).1 ∧
      Alike id (complete task raw e).2 (complete task raw e').2 := by
  have hclock : e'.clock = e.clock := by rw [h.rest]
  unfold Engine.complete
  simp only [hclock]
  have hkept := h.tick.modify_other htask (task.record raw e.clock.now)
  split
  · obtain ⟨hresult, hwritten⟩ := (hkept.report _).writeOutput htask (task.style raw)
    generalize Engine.writeOutput task (task.style raw) _ = written' at hresult hwritten ⊢
    generalize Engine.writeOutput task (task.style raw) _ = written at hresult hwritten ⊢
    obtain ⟨result, e₁⟩ := written
    obtain ⟨result', e₁'⟩ := written'
    obtain rfl : result' = result := hresult
    cases result' <;> exact ⟨rfl, hwritten⟩
  · exact ⟨rfl, hkept.report _⟩

theorem Alike.finish (h : Alike id e e') (htask : task.id ≠ id)
    (answer : Except Error Execution × Collector) :
    (finish task e' answer).1 = (finish task e answer).1 ∧
      Alike id (finish task e answer).2 (finish task e' answer).2 := by
  have hreleased := h.modify_other htask (Task.release task)
  obtain ⟨result, log⟩ := answer
  cases result with
  | error error => exact ⟨rfl, hreleased.report log⟩
  | ok ended =>
      simp only [Engine.finish]
      split
      · exact ⟨rfl, hreleased.report _⟩
      · exact (hreleased.report _).complete htask _

end Other

end Engine

end Stencil
