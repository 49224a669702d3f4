import Stencil.Proofs.Engine.Agreement
import Stencil.Proofs.Showing
/-!
# Engines that show less

An engine that shows everything, and the same at another reporting level. Renders cannot tell them
apart: they come to the same texts, and what the second engine reports is what of the reports of the
first is shown at its level.
-/
namespace Stencil

variable {I : Interpreter}

/-- The template with another reporting level. -/
def Template.reportingAt (level : Nat) (t : Template I) : Template I :=
  { t with
    options := t.options.reportingAt level
    lastOptions := t.lastOptions.map (·.reportingAt level) }

/-- The options that the request is written with do not set the reporting level. -/
def Request.KeepsLevel (request : Request) : Prop :=
  (Patch.ofJson (request.options.getD .null) { reporting := Options.maxReporting }).1.reporting = none

instance (request : Request) : Decidable request.KeepsLevel := by
  unfold Request.KeepsLevel
  infer_instance

namespace Engine

variable {level n : Nat} {e e' : Engine I} {id i : TemplateId} {task : Task}

/-- The engine with another reporting level everywhere, as if it had always been so. -/
def reportingAt (level : Nat) (e : Engine I) : Engine I :=
  { e with
    defaults := e.defaults.reportingAt level
    templates := e.templates.map (·.reportingAt level)
    reported := Diagnostic.shownAt level e.reported }

def Task.reportingAt (level : Nat) (task : Task) : Task :=
  { task with options := task.options.reportingAt level }

/-- Everything is shown, and there are at least so many templates. -/
structure Loud (n : Nat) (e : Engine I) : Prop where
  length : n ≤ e.templates.length
  valid : e.Valid
  defaults : e.defaults.Loud
  options : ∀ i < e.templates.length, (e.template i).options.Loud

/-- The first engine shows everything, and the second is the same at another level. -/
structure Shown (level n : Nat) (e e' : Engine I) : Prop where
  loud : Loud n e
  same : e' = e.reportingAt level

theorem Shown.mono {m : Nat} (h : Shown level n e e') (hm : m ≤ n) : Shown level m e e' :=
  ⟨⟨hm.trans h.loud.length, h.loud.valid, h.loud.defaults, h.loud.options⟩, h.same⟩

theorem Shown.grow {m : Nat} (h : Shown level n e e') (hm : m ≤ e.templates.length) :
    Shown level (max n m) e e' :=
  ⟨⟨max_le h.loud.length hm, h.loud.valid, h.loud.defaults, h.loud.options⟩, h.same⟩

theorem Shown.lt (h : Shown level n e e') (hi : i < n) : i < e.templates.length :=
  hi.trans_le h.loud.length

/-! ## Templates -/

theorem Shown.template_of_lt (h : Shown level n e e') (hi : i < e.templates.length) :
    e'.template i = (e.template i).reportingAt level := by
  rw [h.same]
  simp [template, reportingAt, hi]

/-- Also where there is no template, no more than the level differs. -/
theorem Shown.template (h : Shown level n e e') (i : TemplateId) :
    ∃ level', e'.template i = (e.template i).reportingAt level' := by
  by_cases hi : i < e.templates.length
  · exact ⟨level, h.template_of_lt hi⟩
  · have hlength : e'.templates.length = e.templates.length := by simp [h.same, reportingAt]
    rw [template_of_length_le (Nat.le_of_not_lt hi),
      template_of_length_le (by rw [hlength]; exact Nat.le_of_not_lt hi)]
    exact ⟨(default : Template I).options.reporting, rfl⟩

theorem Shown.label (h : Shown level n e e') (i : TemplateId) : e'.label i = e.label i := by
  obtain ⟨level', hsame⟩ := h.template i
  rw [Engine.label, Engine.label, hsame, h.same]
  rfl

theorem Shown.find? (h : Shown level n e e') (f : Fingerprint) : e'.find? f = e.find? f := by
  rw [h.same]
  rfl

theorem Shown.disk (h : Shown level n e e') : e'.disk = e.disk := by rw [h.same]; rfl

theorem Shown.clock (h : Shown level n e e') : e'.clock = e.clock := by rw [h.same]; rfl

theorem Shown.shared (h : Shown level n e e') : e'.shared = e.shared := by rw [h.same]; rfl

theorem Shown.alive (h : Shown level n e e') : e'.alive = e.alive := by rw [h.same]; rfl

theorem Shown.length (h : Shown level n e e') : e'.templates.length = e.templates.length := by
  simp [h.same, Engine.reportingAt]

/-! ## Changes -/

theorem Shown.modify (h : Shown level n e e') {f f' : Template I → Template I}
    (hloud : ∀ t : Template I, t.options.Loud → (f t).options.Loud)
    (hsame : ∀ t : Template I, f' (t.reportingAt level) = (f t).reportingAt level) :
    Shown level n (e.modify id f) (e'.modify id f') := by
  refine ⟨⟨by simpa using h.loud.length, (grown_modify f).valid h.loud.valid, h.loud.defaults,
    fun i hi => ?_⟩, ?_⟩
  · rw [length_modify] at hi
    rcases template_modify_cases e id i f with hi' | ⟨-, hi'⟩ <;> rw [hi']
    · exact h.loud.options i hi
    · exact hloud _ (h.loud.options i hi)
  · rw [h.same]
    have htemplates : (e.templates.map (·.reportingAt level)).modify id f' =
        (e.templates.modify id f).map (·.reportingAt level) := by
      apply List.ext_getElem?
      intro i
      simp only [List.getElem?_modify, List.getElem?_map]
      cases e.templates[i]? with
      | none => rfl
      | some t => by_cases hi : id = i <;> simp [hi, hsame]
    simp only [Engine.modify, Engine.reportingAt, htemplates]

/-- What has no part in the options of a template can be changed in both. -/
theorem Shown.modify_plain (h : Shown level n e e') {f : Template I → Template I}
    (hoptions : ∀ t : Template I, (f t).options = t.options)
    (hsame : ∀ t : Template I, f (t.reportingAt level) = (f t).reportingAt level) :
    Shown level n (e.modify id f) (e'.modify id f) :=
  h.modify (fun t ht => (hoptions t).symm ▸ ht) hsame

theorem Shown.report (h : Shown level n e e') {log log' : Collector}
    (hlog : Collector.Shown level log log') : Shown level n (e.report log) (e'.report log') := by
  refine ⟨⟨h.loud.length, h.loud.valid, h.loud.defaults, h.loud.options⟩, ?_⟩
  rw [h.same, hlog.same]
  simp only [Engine.report, Engine.reportingAt, Diagnostic.shownAt, List.filter_append]

theorem Shown.tick (h : Shown level n e e') : Shown level n e.tick e'.tick :=
  ⟨⟨h.loud.length, h.loud.valid, h.loud.defaults, h.loud.options⟩, by rw [h.same]; rfl⟩

theorem Shown.withShared (h : Shown level n e e') (shared : I.State) :
    Shown level n { e with shared } { e' with shared } :=
  ⟨⟨h.loud.length, h.loud.valid, h.loud.defaults, h.loud.options⟩, by rw [h.same]; rfl⟩

theorem Shown.withDisk (h : Shown level n e e') (disk : Disk) :
    Shown level n { e with disk } { e' with disk } :=
  ⟨⟨h.loud.length, h.loud.valid, h.loud.defaults, h.loud.options⟩, by rw [h.same]; rfl⟩

@[simp] theorem length_setScope? (id : TemplateId) (scope : Option Json) (e : Engine I) :
    (e.setScope? id scope).templates.length = e.templates.length := by
  cases scope <;> simp [setScope?, Engine.setScope]

theorem Shown.setScope (h : Shown level n e e') (id : TemplateId) (scope : Option Json) :
    Shown level n (e.setScope? id scope) (e'.setScope? id scope) := by
  cases scope with
  | none => exact h
  | some scope => exact h.modify_plain (fun _ => rfl) fun _ => rfl

private theorem Shown.push (h : Shown level n e e') {t : Template I} (ht : t.options.Loud)
    {entries : List (Fingerprint × TemplateId)}
    (hentries : ∀ entry ∈ entries, entry.2 < e.templates.length + 1) :
    Shown level n { e with templates := e.templates ++ [t], entries }
      { e' with templates := e'.templates ++ [t.reportingAt level], entries } := by
  refine ⟨⟨?_, fun entry hentry => ?_, h.loud.defaults, fun i hi => ?_⟩, ?_⟩
  · exact h.loud.length.trans (by simp)
  · simpa using hentries entry hentry
  · have hoptions := h.loud.options i
    simp only [Engine.template, List.getD_eq_getElem?_getD] at hoptions ⊢
    rw [List.length_append, List.length_singleton] at hi
    rcases Nat.lt_succ_iff_lt_or_eq.mp hi with hi | rfl
    · rw [List.getElem?_append_left hi]
      exact hoptions hi
    · simpa using ht
  · rw [h.same]
    simp only [Engine.reportingAt, List.map_append, List.map_singleton]

theorem Shown.insert (h : Shown level n e e') (source : Source) (content : Text) {base : Options}
    (hbase : base.Loud) {patch : Patch} (hpatch : patch.reporting = none) (scope : Option Json) :
    Shown level n (e.insert source content base patch scope).2
      (e'.insert source content (base.reportingAt level) patch scope).2 := by
  have hlog : Collector.Shown level { reporting := base.reporting }
      { reporting := (base.reportingAt level).reporting } := hbase.symm ▸ Collector.shown_new level none
  obtain ⟨hoptions, -, hshown, hreporting⟩ := Options.shown_apply hlog base hpatch
  have hentries := valid_insert e source content base patch scope h.loud.valid
  unfold Engine.Valid at hentries
  rw [length_insert] at hentries
  have hpushed := (h.report hshown).tick.push (t :=
    { source, content, fingerprint := .ofContent content, created := e.clock.now
      options := (base.apply patch { reporting := base.reporting }).1
      scope := scope.getD .null }) (hreporting.trans hbase) hentries
  have hsame (log : Collector) : (e'.report log).tick.entries = e.entries := by rw [h.same]; rfl
  simp only [Engine.insert, hoptions, h.length, h.clock, hsame]
  exact hpushed

/-! ## Requests -/

private theorem shown_log (hloud : (e.template id).options.Loud) (h : Shown level n e e')
    (hid : id < e.templates.length) (template : Option String) :
    Collector.Shown level { reporting := (e.template id).options.reporting, template }
      { reporting := (e'.template id).options.reporting, template } := by
  rw [h.template_of_lt hid, hloud]
  exact Collector.shown_new level template

private theorem Shown.noteCycle (h : Shown level n e e') (parent child : TemplateId)
    {log log' : Collector} (hlog : Collector.Shown level log log') :
    Collector.Shown level (noteCycle parent child log e).1 (noteCycle parent child log' e').1 ∧
      Shown level n (noteCycle parent child log e).2 (noteCycle parent child log' e').2 := by
  obtain ⟨_, hparent⟩ := h.template parent
  obtain ⟨_, hchild⟩ := h.template child
  have hwarned : (e'.template parent).warned = (e.template parent).warned := by rw [hparent]; rfl
  have hfingerprint : (e'.template child).fingerprint = (e.template child).fingerprint := by
    rw [hchild]
    rfl
  unfold Engine.noteCycle
  simp only [hwarned, hfingerprint, h.label]
  split
  · exact ⟨hlog, h⟩
  · exact ⟨hlog.add _, h.modify_plain (fun _ => rfl) fun _ => rfl⟩

theorem Shown.renderStatic (h : Shown level n e e') (id : TemplateId) :
    (renderStatic id e').1 = (renderStatic id e).1 ∧
      Shown level n (renderStatic id e).2 (renderStatic id e').2 := by
  obtain ⟨_, hsame⟩ := h.template id
  have hrendering : (e'.template id).rendering = (e.template id).rendering := by rw [hsame]; rfl
  have houtput : (e'.template id).output = (e.template id).output := by rw [hsame]; rfl
  unfold Engine.renderStatic
  simp only [hrendering, houtput, h.clock, h.tick.clock]
  split
  · exact ⟨rfl, h⟩
  · exact ⟨rfl, h.tick.tick.modify_plain (fun _ => rfl) fun _ => rfl⟩

theorem Shown.resolve (h : Shown level n e e') {parent : TemplateId}
    (hparent : parent < e.templates.length) {request : Request} (hrequest : request.KeepsLevel) :
    (resolve parent request e').1 = (resolve parent request e).1 ∧
      Shown level n (resolve parent request e).2 (resolve parent request e').2 ∧
      ∀ child patch, (resolve parent request e).1 = .render child patch →
        patch.reporting = none ∧ child < (resolve parent request e).2.templates.length := by
  have hloud := h.loud.options parent hparent
  have hlog := shown_log hloud h hparent (some (e.label parent))
  have hread := Patch.shown_ofJson hlog (request.options.getD .null)
  have hpatch := Patch.ofJson_log (request.options.getD .null)
    { reporting := (e.template parent).options.reporting, template := some (e.label parent) }
    { reporting := (e'.template parent).options.reporting, template := some (e.label parent) }
  have hsource (code : Option Bool) : (e'.template parent).childSource
      (code.getD (e'.template parent).options.code) request.source =
      (e.template parent).childSource (code.getD (e.template parent).options.code) request.source := by
    rw [h.template_of_lt hparent]
    rfl
  have hfingerprint : (e'.template parent).fingerprint = (e.template parent).fingerprint := by
    rw [h.template_of_lt hparent]
    rfl
  have hchildOptions : (e'.template parent).childOptions =
      (e.template parent).childOptions.reportingAt level := by
    rw [h.template_of_lt hparent]
    rfl
  have hlevel : (Patch.ofJson (request.options.getD .null)
      ⟨(e.template parent).options.reporting, some (e.label parent), []⟩).1.reporting = none :=
    (congrArg Patch.reporting (Patch.ofJson_log ..)).trans hrequest
  unfold Engine.resolve
  simp only [h.label, hsource, hfingerprint, hchildOptions, h.disk]
  generalize Patch.ofJson _ ⟨(e.template parent).options.reporting, _, _⟩ = read at *
  generalize Patch.ofJson _ ⟨(e'.template parent).options.reporting, _, _⟩ = read' at *
  obtain ⟨patch, log⟩ := read
  obtain ⟨patch', log'⟩ := read'
  obtain rfl : patch' = patch := hpatch
  dsimp only at hread hlevel ⊢
  generalize (e.template parent).childSource _ _ = source
  cases source.load e.disk with
  | error error =>
      dsimp only
      exact ⟨rfl, h, fun _ _ hrender => nomatch hrender⟩
  | ok content =>
      dsimp only
      have hnoted : Shown level n (e.modify parent fun t => t.addChild (.ofContent content))
          (e'.modify parent fun t => t.addChild (.ofContent content)) :=
        h.modify_plain (fun _ => rfl) fun _ => rfl
      have hoptions : (e.template parent).childOptions.Loud := hloud
      simp only [hnoted.find?]
      generalize e.modify parent _ = e₁ at hnoted ⊢
      generalize e'.modify parent _ = e₁' at hnoted ⊢
      cases hfind : e₁.find? (.ofContent content) with
      | none =>
          have hunchanged : ({} : Patch).reporting = none := rfl
          have hinserted := ((hnoted.report hread).insert source content hoptions hunchanged
            none).setScope e₁.templates.length request.scope
          simp only [insert_fst, templates_report, hnoted.length]
          refine ⟨trivial, hinserted, ?_⟩
          rintro child patch ⟨⟩
          rw [length_setScope?, length_insert]
          exact ⟨hlevel, Nat.lt_succ_self _⟩
      | some child =>
          obtain ⟨_, hchild⟩ := hnoted.template child
          have hcloses (f : Fingerprint) : ((e₁'.template child).hasChild f || (e₁'.template child).rendering) =
              ((e₁.template child).hasChild f || (e₁.template child).rendering) := by
            rw [hchild]
            rfl
          simp only [hcloses]
          split
          · obtain ⟨hlog, hcycle⟩ := hnoted.noteCycle parent child hread
            obtain ⟨houtput, hstatic⟩ := (hcycle.report hlog).renderStatic child
            rw [houtput]
            exact ⟨rfl, hstatic, fun _ _ hrender => nomatch hrender⟩
          · refine ⟨rfl, (hnoted.report hread).setScope child request.scope, ?_⟩
            rintro child patch ⟨⟩
            rw [length_setScope?]
            exact ⟨hlevel, hnoted.loud.valid.find? hfind⟩

/-! ## Begin and end -/

/-- The task of a render that begins. -/
private theorem enter_fst (again : Bool) (patch : Patch) (hid : id < e.templates.length) :
    (enter again id patch e).1 =
      { id, options := patchedOptions id patch e, label := e.label id
        type := chooseType { e.template id with options := patchedOptions id patch e } again
          ((patchedOptions id patch e).delimiters != (e.template id).options.delimiters) e.clock.now
        started := e.clock.now } := by
  rw [← enter_type again patch hid, ← enter_options again patch hid]
  rfl

theorem Shown.enter (h : Shown level n e e') (again : Bool) {patch : Patch}
    (hpatch : patch.reporting = none) (hid : id < e.templates.length) :
    (enter again id patch e').1 = (enter again id patch e).1.reportingAt level ∧
      (enter again id patch e).1.options.Loud ∧
      Shown level n (enter again id patch e).2 (enter again id patch e').2 := by
  have hloud := h.loud.options id hid
  have hlog := shown_log hloud h hid (some (e.label id))
  obtain ⟨hoptions, -, hshown, hreporting⟩ :=
    Options.shown_apply hlog (e.template id).options hpatch
  have hsame : (e'.template id).options = (e.template id).options.reportingAt level := by
    rw [h.template_of_lt hid]
    rfl
  rw [← hsame] at hoptions hshown
  have hpatched : patchedOptions id patch e' = (patchedOptions id patch e).reportingAt level := by
    simp only [patchedOptions, h.label]
    exact hoptions
  refine ⟨?_, ?_, ?_⟩
  · rw [enter_fst again patch hid, enter_fst again patch (h.length.symm ▸ hid), hpatched, hsame,
      h.label, h.clock, h.template_of_lt hid]
    rfl
  · rw [enter_options again patch hid]
    exact hreporting.trans hloud
  · unfold Engine.enter applyPatch
    dsimp only
    rw [h.label]
    have hchanged : Shown level n
        (e.tick.modify id fun t => { t with options := patchedOptions id patch e })
        (e'.tick.modify id fun t => { t with options := patchedOptions id patch e' }) :=
      h.tick.modify (fun _ _ => hreporting.trans hloud) fun t => by rw [hpatched]; rfl
    simp only [patchedOptions, h.label] at hchanged
    exact (hchanged.report hshown).modify_plain (fun _ => rfl) fun _ => rfl

/-- The texts and logs that a way of rendering comes to. -/
def ShownAnswers (level : Nat) (answer answer' : Except Error Execution × Collector) : Prop :=
  answer'.1 = answer.1 ∧ Collector.Shown level answer.2 answer'.2

private theorem shown_settle {log log' : Collector} (hlog : Collector.Shown level log log')
    (task : Task) (ended : Execution) :
    ((task.reportingAt level).settle log' ended).1 = (task.settle log ended).1 ∧
      Collector.Shown level (task.settle log ended).2 ((task.reportingAt level).settle log' ended).2 := by
  have hhalt : (task.reportingAt level).options.haltOnError = task.options.haltOnError := rfl
  have hlabel : (task.reportingAt level).label = task.label := rfl
  unfold Task.settle
  rw [hhalt, hlabel]
  split
  · exact ⟨rfl, hlog⟩
  · split
    · exact ⟨rfl, hlog⟩
    · exact ⟨rfl, hlog.add _⟩

private theorem Shown.writeOutput (h : Shown level n e e') (task : Task) (output : Text) :
    (writeOutput (task.reportingAt level) output e').1 = (writeOutput task output e).1 ∧
      Shown level n (writeOutput task output e).2
        (writeOutput (task.reportingAt level) output e').2 := by
  obtain ⟨level', hsame⟩ := h.template task.id
  have hname (name : OutputName) :
      name.path (task.options.reportingAt level) = name.path task.options := rfl
  have hstem (t : Template I) : (t.reportingAt level').outputStem (task.options.reportingAt level) =
      t.outputStem task.options := rfl
  have hfingerprint (t : Template I) : (t.reportingAt level').fingerprint = t.fingerprint := rfl
  unfold Engine.writeOutput
  simp only [Task.reportingAt, hsame, hname, hstem, hfingerprint, h.clock, h.disk]
  split
  · exact ⟨rfl, h.tick.withDisk _⟩
  · exact ⟨rfl, h.tick⟩

private theorem Shown.complete (h : Shown level n e e') (htask : task.options.Loud) (raw : Text) :
    (complete (task.reportingAt level) raw e').1 = (complete task raw e).1 ∧
      Shown level n (complete task raw e).2 (complete (task.reportingAt level) raw e').2 := by
  have hlog : Collector.Shown level
      { reporting := task.options.reporting, template := some task.label }
      { reporting := (task.reportingAt level).options.reporting, template := some task.label } :=
    htask.symm ▸ Collector.shown_new level (some task.label)
  have hentered : Shown level n (entered task raw e) (entered (task.reportingAt level) raw e') := by
    unfold entered announcement
    rw [h.clock]
    have hrecorded : Shown level n (e.tick.modify task.id (task.record raw e.clock.now))
        (e'.tick.modify task.id ((task.reportingAt level).record raw e.clock.now)) :=
      h.tick.modify (fun _ ht => ht) fun _ => rfl
    exact hrecorded.report (hlog.add _)
  obtain ⟨hresult, hwritten⟩ := hentered.writeOutput task (task.style raw)
  rw [complete_eq, complete_eq]
  by_cases houtput : task.options.output = true
  · rw [if_pos houtput, if_pos (show (task.reportingAt level).options.output = true from houtput)]
    exact ⟨congrArg (Except.map fun _ => task.style raw) hresult, hwritten⟩
  · rw [if_neg houtput, if_neg (show ¬ (task.reportingAt level).options.output = true from houtput)]
    exact ⟨rfl, hentered⟩

theorem Shown.finish (h : Shown level n e e') (htask : task.options.Loud)
    {answer answer' : Except Error Execution × Collector} (hanswer : ShownAnswers level answer answer') :
    (finish (task.reportingAt level) e' answer').1 = (finish task e answer).1 ∧
      Shown level n (finish task e answer).2 (finish (task.reportingAt level) e' answer').2 := by
  obtain ⟨result, log⟩ := answer
  obtain ⟨result', log'⟩ := answer'
  obtain ⟨rfl, hlog⟩ := hanswer
  have hreleased : Shown level n (e.modify task.id task.release)
      (e'.modify task.id (task.reportingAt level).release) := by
    refine h.modify (fun t ht => ?_) fun t => ?_
    · unfold Task.release
      dsimp only
      split <;> exact ht
    · have hforce : (task.reportingAt level).options.forceFull = task.options.forceFull := rfl
      unfold Task.release
      rw [hforce]
      split <;> rfl
  cases result' with
  | error error => exact ⟨rfl, hreleased.report hlog⟩
  | ok ended =>
      obtain ⟨hresult, hsettled⟩ := shown_settle hlog task ended
      unfold Engine.finish
      dsimp only
      generalize task.settle log ended = settled at hresult hsettled ⊢
      generalize (task.reportingAt level).settle log' ended = settled' at hresult hsettled ⊢
      obtain ⟨result, log₁⟩ := settled
      obtain ⟨result', log₁'⟩ := settled'
      obtain rfl : result' = result := hresult
      have hended := hreleased.report hsettled
      cases result' with
      | error error => exact ⟨rfl, hended⟩
      | ok raw => exact hended.complete htask raw

/-! ## Runs -/

section Runs

variable {α β : Type} {R : α → α → Prop} {S : β → β → Prop}

/-- Runs that ask the same and come to what is related, from engines that show more and less. -/
inductive ShownRuns (level n : Nat) (R : α → α → Prop) :
    Run (Engine I) α → Run (Engine I) α → Prop
  | done {e e' : Engine I} {a a' : α} : Shown level n e e' → R a a' →
      ShownRuns level n R (.done e a) (.done e' a')
  | ask {e e' : Engine I} {request : Request}
      {next next' : Engine I → Except String Text → Run (Engine I) α} : Shown level n e e' →
      (∀ e₁ e₁' reply, Shown level n e₁ e₁' → ShownRuns level n R (next e₁ reply) (next' e₁' reply)) →
      ShownRuns level n R (.ask e request next) (.ask e' request next')

theorem ShownRuns.bind {run run' : Run (Engine I) α} {k k' : Engine I → α → Run (Engine I) β}
    (h : ShownRuns level n R run run')
    (hk : ∀ e e' a a', Shown level n e e' → R a a' → ShownRuns level n S (k e a) (k' e' a')) :
    ShownRuns level n S (run.bind k) (run'.bind k') := by
  induction h with
  | done h hr => exact hk _ _ _ _ h hr
  | ask h _ ih => exact .ask h ih

private theorem shown_lift (h : Shown level n e e') (run : Run I.State α) :
    ShownRuns level n Eq (lift run e) (lift run e') := by
  induction run generalizing e e' with
  | done shared answer => exact .done (h.withShared shared) rfl
  | ask shared request next ih =>
      refine .ask (h.withShared shared) fun e₁ e₁' reply h₁ => ?_
      rw [h₁.shared]
      exact ih _ _ h₁

private theorem shown_execute (h : Shown level n e e') (id : TemplateId) (program : I.Program) :
    ShownRuns level n Eq (execute id program e) (execute id program e') := by
  obtain ⟨_, hsame⟩ := h.template id
  have hscope : (e'.template id).scope = (e.template id).scope := by rw [hsame]; rfl
  rw [execute, execute, h.shared, hscope]
  exact shown_lift h _

private theorem shown_attempt (h : Shown level n e e') (id : TemplateId) (label : String) (body : Text) :
    ShownRuns level n Eq (attempt id label body e) (attempt id label body e') := by
  unfold attempt
  rw [h.shared]
  split
  · exact .done h rfl
  · refine (shown_execute h id _).bind fun e₁ e₁' ended ended' h₁ hended => ?_
    subst hended
    refine .done ?_ rfl
    unfold keepProgram
    split
    · exact h₁.modify_plain (fun _ => rfl) fun _ => rfl
    · exact h₁

private theorem shown_attemptRepairing (h : Shown level n e e') (task : Task) (body : Text)
    {log log' : Collector} (hlog : Collector.Shown level log log') :
    ShownRuns level n (fun last last' => last'.1 = last.1 ∧ Collector.Shown level last.2 last'.2)
      (attemptRepairing task body log e)
      (attemptRepairing (task.reportingAt level) body log' e') := by
  refine (shown_attempt h task.id task.label body).bind fun e₁ e₁' first first' h₁ hfirst => ?_
  subst hfirst
  have hrepair : (task.reportingAt level).options.autoRepair = task.options.autoRepair := rfl
  dsimp only
  rw [hrepair]
  split
  · refine (shown_attempt h₁ task.id task.label _).bind fun e₂ e₂' second second' h₂ hsecond => ?_
    exact .done h₂ ⟨hsecond.symm, shown_warnRepaired hlog _⟩
  · exact .done h₁ ⟨rfl, hlog⟩

/-- A render from source, once its content has been scanned. -/
private def fromPieces (task : Task) (e : Engine I) :
    Except Error (List Piece) × Collector → Run (Engine I) (Except Error Execution × Collector)
  | (.error error, log) => .done e (.error error, log)
  | (.ok pieces, log) =>
    (attemptRepairing task (normalize (Body.ofPieces pieces).source) log e).bind fun e last =>
      .done (if last.1.error.isSome then e.modify task.id Template.forgetProgram else e)
        (.ok last.1, last.2)

/-- The engine without what the last render of a template left in it. -/
private def cleared (id : TemplateId) (e : Engine I) : Engine I :=
  e.modify id fun t => { t.forgetProgram with children := [] }

private theorem renderFull_eq (task : Task) (log : Collector) (e : Engine I) :
    renderFull task log e = fromPieces task (cleared task.id e) (scan task.options.delimiters
      ((cleared task.id e).template task.id).content task.label log) := rfl

private theorem shown_fromPieces (h : Shown level n e e') (task : Task)
    (result : Except Error (List Piece)) {log log' : Collector}
    (hlog : Collector.Shown level log log') :
    ShownRuns level n (ShownAnswers level) (fromPieces task e (result, log))
      (fromPieces (task.reportingAt level) e' (result, log')) := by
  cases result with
  | error error => exact .done h ⟨rfl, hlog⟩
  | ok pieces =>
      refine (shown_attemptRepairing h task _ hlog).bind fun e₁ e₁' last last' h₁ hlast => ?_
      obtain ⟨hended, hreported⟩ := hlast
      refine .done ?_ ⟨congrArg Except.ok hended, hreported⟩
      rw [hended]
      split
      · exact h₁.modify_plain (fun _ => rfl) fun _ => rfl
      · exact h₁

private theorem shown_renderFull (h : Shown level n e e') (task : Task) {log log' : Collector}
    (hlog : Collector.Shown level log log') :
    ShownRuns level n (ShownAnswers level) (renderFull task log e)
      (renderFull (task.reportingAt level) log' e') := by
  have hcleared : Shown level n (cleared task.id e) (cleared task.id e') :=
    h.modify_plain (fun _ => rfl) fun _ => rfl
  obtain ⟨_, hsame⟩ := hcleared.template task.id
  have hcontent : ((cleared task.id e').template task.id).content =
      ((cleared task.id e).template task.id).content := by rw [hsame]; rfl
  rw [renderFull_eq, renderFull_eq]
  dsimp only [Task.reportingAt, Options.reportingAt]
  rw [hcontent]
  obtain ⟨hresult, hscanned⟩ := shown_scan hlog task.options.delimiters
    ((cleared task.id e).template task.id).content task.label
  generalize scan _ _ _ log' = scanned' at hresult hscanned ⊢
  generalize scan _ _ _ log = scanned at hresult hscanned ⊢
  obtain ⟨result, log₁⟩ := scanned
  obtain ⟨result', log₁'⟩ := scanned'
  obtain rfl : result' = result := hresult
  exact shown_fromPieces hcleared task result' hscanned

private theorem shown_produce (h : Shown level n e e') {task : Task} (htask : task.options.Loud) :
    ShownRuns level n (ShownAnswers level) (produce task e)
      (produce (task.reportingAt level) e') := by
  obtain ⟨_, hsame⟩ := h.template task.id
  have hprogram : (e'.template task.id).program = (e.template task.id).program := by rw [hsame]; rfl
  have houtput : (e'.template task.id).output = (e.template task.id).output := by rw [hsame]; rfl
  have hlog : Collector.Shown level
      { reporting := task.options.reporting, template := some task.label }
      { reporting := (task.reportingAt level).options.reporting, template := some task.label } :=
    htask.symm ▸ Collector.shown_new level (some task.label)
  have htype : (task.reportingAt level).type = task.type := rfl
  have hid : (task.reportingAt level).id = task.id := rfl
  unfold produce
  simp only [htype, hid, hprogram, houtput]
  split
  · exact .done h ⟨rfl, hlog⟩
  · refine (shown_execute h task.id _).bind fun e₁ e₁' ended ended' h₁ hended => ?_
    subst hended
    exact .done h₁ ⟨rfl, hlog⟩
  · exact shown_renderFull h task hlog

end Runs

/-! ## Renders -/

/-- The nested renders that a render asks for, those inside them too. -/
def asked : Nat → List TemplateId → Bool → TemplateId → Patch → Engine I → List Exchange
  | 0, _, _, _, _, _ => []
  | depth + 1, outer, again, id, patch, e =>
    if (e.template id).rendering || !e.alive then []
    else
      let begun := enter again id patch e
      exchanges (answer depth (id :: outer)) (inside depth (id :: outer))
        (produce begun.1 begun.2)

private theorem inside_eq (depth : Nat) (running : List TemplateId) (request : Request)
    (e : Engine I) : inside depth running request e =
      match resolve (requester running request) request e with
      | (.reply _, _) => []
      | (.render child patch, e) => asked depth running false child patch e := by
  cases depth with
  | zero =>
      rw [inside]
      split <;> rfl
  | succ depth => rfl

/-- What answers the same in both engines, to a request that does not set the level, nor do the
requests inside. -/
def AnswersShown (level n : Nat) (nested : Request → Engine I → Except Error Text × Engine I)
    (within : Request → Engine I → List Exchange) : Prop :=
  ∀ request e e', Shown level n e e' → request.KeepsLevel →
    (∀ x ∈ within request e, x.1.KeepsLevel) →
    (nested request e').1 = (nested request e).1 ∧
      Shown level n (nested request e).2 (nested request e').2

private theorem drive_shown {α : Type} {R : α → α → Prop}
    {nested : Request → Engine I → Except Error Text × Engine I}
    {within : Request → Engine I → List Exchange} (hnested : AnswersShown level n nested within)
    {run run' : Run (Engine I) α} (h : ShownRuns level n R run run')
    (hkeeps : ∀ x ∈ exchanges nested within run, x.1.KeepsLevel) :
    R (drive nested run).1 (drive nested run').1 ∧
      Shown level n (drive nested run).2 (drive nested run').2 := by
  induction h with
  | done h hr => exact ⟨hr, h⟩
  | @ask e e' request next next' h _ ih =>
      rw [exchanges, List.forall_mem_append, List.forall_mem_cons] at hkeeps
      obtain ⟨hwithin, hrequest, hrest⟩ := hkeeps
      obtain ⟨hreply, hafter⟩ := hnested request e e' h hrequest hwithin
      rw [drive, drive]
      dsimp only
      rw [hreply]
      exact ih _ _ _ hafter hrest

/-- The request is one of a running template. -/
private theorem requester_lt {running : List TemplateId} (hne : running ≠ [])
    (h : ∀ i ∈ running, i < n) (request : Request) : requester running request < n := by
  obtain ⟨first, rest, rfl⟩ := List.exists_cons_of_ne_nil hne
  unfold requester
  rw [List.getD_eq_getElem?_getD]
  cases hfound : (first :: rest)[request.owner]? with
  | none => exact h first List.mem_cons_self
  | some i => exact h i (List.mem_of_getElem? hfound)

private theorem answers_shown {depth : Nat} {running : List TemplateId} (hne : running ≠ [])
    (hrunning : ∀ i ∈ running, i < n)
    (ih : ∀ {n : Nat} {e e' : Engine I} {id : TemplateId} {outer : List TemplateId} {again : Bool}
      {patch : Patch}, Shown level n e e' → (∀ i ∈ outer, i < n) → id < n →
      patch.reporting = none → (∀ x ∈ asked depth outer again id patch e, x.1.KeepsLevel) →
      (renderTo depth outer again id patch e').1 = (renderTo depth outer again id patch e).1 ∧
        Shown level n (renderTo depth outer again id patch e).2
          (renderTo depth outer again id patch e').2) :
    AnswersShown (I := I) level n (answer depth running) (inside depth running) := by
  intro request e e' h hrequest hkeeps
  have hparent := h.lt (requester_lt hne hrunning request)
  obtain ⟨hresolution, hresolved, hchild⟩ := h.resolve hparent hrequest
  rw [inside_eq] at hkeeps
  unfold answer
  generalize resolve (requester running request) request e' = resolved' at hresolution hresolved ⊢
  generalize resolve (requester running request) request e = resolved
    at hresolution hresolved hchild hkeeps ⊢
  obtain ⟨resolution, e₁⟩ := resolved
  obtain ⟨resolution', e₁'⟩ := resolved'
  obtain rfl : resolution' = resolution := hresolution
  cases resolution' with
  | reply reply => exact ⟨rfl, hresolved⟩
  | render child patch =>
      obtain ⟨hpatch, hlt⟩ := hchild child patch rfl
      obtain ⟨hresult, hafter⟩ := ih (hresolved.grow (m := child + 1) hlt)
        (fun i hi => (hrunning i hi).trans_le (le_max_left ..))
        ((Nat.lt_succ_self child).trans_le (le_max_right ..)) hpatch hkeeps
      exact ⟨hresult, hafter.mono (le_max_left ..)⟩

/-- No render can tell at which level it is reported. -/
theorem renderTo_shown {depth : Nat} {outer : List TemplateId} {again : Bool} {patch : Patch}
    (h : Shown level n e e') (houter : ∀ i ∈ outer, i < n) (hid : id < n)
    (hpatch : patch.reporting = none)
    (hkeeps : ∀ x ∈ asked depth outer again id patch e, x.1.KeepsLevel) :
    (renderTo depth outer again id patch e').1 = (renderTo depth outer again id patch e).1 ∧
      Shown level n (renderTo depth outer again id patch e).2
        (renderTo depth outer again id patch e').2 := by
  induction depth generalizing outer again id patch n e e' with
  | zero =>
      rw [renderTo, renderTo, h.label]
      exact ⟨rfl, h⟩
  | succ depth ih =>
      have hlt : id < e.templates.length := h.lt hid
      have hrendering : (e'.template id).rendering = (e.template id).rendering := by
        rw [h.template_of_lt hlt]
        rfl
      have houtput : (e'.template id).output = (e.template id).output := by
        rw [h.template_of_lt hlt]
        rfl
      cases hidle : (e.template id).rendering with
      | true =>
          rw [renderTo, renderTo, if_pos hidle, if_pos (hrendering.trans hidle), houtput]
          exact ⟨rfl, h⟩
      | false =>
          cases halive : e.alive with
          | false =>
              rw [renderTo, renderTo]
              simp only [hrendering, hidle, h.alive, halive, Bool.not_false, Bool.false_eq_true,
                if_true, if_false]
              exact ⟨trivial, h⟩
          | true =>
              rw [asked, if_neg (by simp [hidle, halive])] at hkeeps
              rw [renderTo_succ depth outer again patch hidle halive,
                renderTo_succ depth outer again patch (hrendering.trans hidle) (h.alive.trans halive)]
              obtain ⟨htask, hloud, hentered⟩ := h.enter again hpatch hlt
              dsimp only
              rw [htask]
              have hanswers : AnswersShown (I := I) level n (answer depth (id :: outer))
                  (inside depth (id :: outer)) :=
                answers_shown (List.cons_ne_nil _ _) (List.forall_mem_cons.mpr ⟨hid, houter⟩) ih
              obtain ⟨hanswer, hdriven⟩ := drive_shown hanswers (shown_produce hentered hloud) hkeeps
              exact hdriven.finish hloud hanswer

end Engine

end Stencil
