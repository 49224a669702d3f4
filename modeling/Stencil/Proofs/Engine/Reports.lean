import Stencil.Proofs.Diagnostic
import Stencil.Proofs.Engine.Sound
/-!
# What a session reports of failures and cycles

A failed execution is reported where its render ends, unless failures halt, and an include cycle where
a nested render closes it for the first time. No other step of a session reports either, and none but
those that close a cycle note that there was one.
-/
namespace Stencil.Engine

open Run

variable {I : Interpreter} {limit : Nat} {e e' e'' : Engine I} {id : TemplateId} {task : Task}
  {m m' : Moment I}

/-! ## Engines -/

/-- The registry finds templates by their own contents. -/
def Registered (e : Engine I) : Prop :=
  ∀ entry ∈ e.entries, entry.2 < e.templates.length ∧ (e.template entry.2).fingerprint = entry.1

theorem Registered.find? (h : e.Registered) {f : Fingerprint} (hf : e.find? f = some id) :
    id < e.templates.length ∧ (e.template id).fingerprint = f := by
  obtain ⟨entry, hentry, rfl⟩ := Option.map_eq_some_iff.mp hf
  have hkey : entry.1 = f := by simpa using List.find?_some hentry
  exact hkey ▸ h entry (List.mem_of_find?_eq_some hentry)

/-- What came of an engine reported these incidents, and noted that these templates have closed a
cycle with children of these contents. -/
structure Tells (incidents : List Diagnostic) (cycles : List (TemplateId × Fingerprint))
    (e e' : Engine I) : Prop where
  reported : Adds incidents e.reported e'.reported
  warned : ∀ i f, f ∈ (e'.template i).warned ↔ f ∈ (e.template i).warned ∨ (i, f) ∈ cycles
  registered : e.Registered → e'.Registered

/-- Of the diagnostics with this code, these were reported in between. -/
def Reported (code : String) (diagnostics : List Diagnostic) (e e' : Engine I) : Prop :=
  ∃ added, e'.reported = e.reported ++ added ∧ added.filter (·.code == code) = diagnostics

/-- Neither an incident nor a cycle. -/
abbrev Calm (e e' : Engine I) : Prop := Tells [] [] e e'

section Tells

variable {a b : List Diagnostic} {c d : List (TemplateId × Fingerprint)}

theorem Calm.refl (e : Engine I) : Calm e e := ⟨Adds.refl _, by simp, id⟩

theorem Tells.of_code (h : Tells a c e e') {code : String}
    (hcode : code = Diagnostic.executionFailed ∨ code = Diagnostic.includeCycle) :
    Reported code (a.filter (·.code == code)) e e' := by
  obtain ⟨added, hreported, rfl⟩ := h.reported
  refine ⟨added, hreported, ?_⟩
  rw [List.filter_filter]
  congr 1
  funext d
  cases h : d.code == code with
  | false => rfl
  | true =>
      rw [beq_iff_eq] at h
      rcases hcode with rfl | rfl <;> simp [Diagnostic.isIncident, h]

theorem Tells.trans (h : Tells a c e e') (h' : Tells b d e' e'') :
    Tells (a ++ b) (c ++ d) e e'' where
  reported := h.reported.trans h'.reported
  warned i f := by rw [h'.warned, h.warned, List.mem_append, or_assoc]
  registered := h'.registered ∘ h.registered

theorem Calm.trans (h : Calm e e') (h' : Calm e' e'') : Calm e e'' := Tells.trans h h'

theorem Tells.calm (h : Tells a c e e') (h' : Calm e' e'') : Tells a c e e'' := by
  have htells := h.trans h'
  rwa [List.append_nil, List.append_nil] at htells

theorem Calm.tells (h : Calm e e') (h' : Tells a c e' e'') : Tells a c e e'' :=
  Tells.trans h h'

theorem tells_of_eq (hreported : Adds a e.reported e'.reported)
    (htemplates : e'.templates = e.templates) (hentries : e'.entries = e.entries) :
    Tells a [] e e' := by
  have hsame (i : TemplateId) : e'.template i = e.template i := by
    rw [Engine.template, htemplates, Engine.template]
  refine ⟨hreported, fun i f => by simp [hsame], fun h entry hentry => ?_⟩
  rw [hsame, htemplates]
  exact h entry (hentries ▸ hentry)

theorem tells_report {log : Collector} (h : Adds a [] log.entries) (e : Engine I) :
    Tells a [] e (e.report log) :=
  tells_of_eq (h.append _) rfl rfl

theorem calm_tick (e : Engine I) : Calm e e.tick := tells_of_eq (Adds.refl _) rfl rfl

/-- The fingerprint of a template does not change, nor what is noted of its cycles but for some. -/
theorem tells_modify {f : Template I → Template I} (hfingerprint : ∀ t, (f t).fingerprint = t.fingerprint)
    (hwarned : ∀ i g, g ∈ ((e.modify id f).template i).warned ↔
      g ∈ (e.template i).warned ∨ (i, g) ∈ c) : Tells [] c e (e.modify id f) := by
  refine ⟨Adds.refl _, hwarned, fun h entry hentry => ?_⟩
  obtain ⟨hlt, hkey⟩ := h entry hentry
  refine ⟨by simpa using hlt, ?_⟩
  rcases template_modify_cases e id entry.2 f with hsame | ⟨-, hsame⟩ <;> rw [hsame]
  · exact hkey
  · rw [hfingerprint, hkey]

theorem calm_modify {f : Template I → Template I} (hfingerprint : ∀ t, (f t).fingerprint = t.fingerprint)
    (hwarned : ∀ t, (f t).warned = t.warned) : Calm e (e.modify id f) := by
  refine tells_modify hfingerprint fun i g => ?_
  rcases template_modify_cases e id i f with hsame | ⟨-, hsame⟩ <;> simp [hsame, hwarned]

theorem calm_setScope (id : TemplateId) (scope : Option Json) (e : Engine I) :
    Calm e (e.setScope? id scope) := by
  cases scope with
  | none => exact Calm.refl e
  | some scope => exact calm_modify (fun _ => rfl) fun _ => rfl

theorem calm_insert (e : Engine I) (source : Source) (content : Text) (base : Options)
    (patch : Patch) (scope : Option Json) : Calm e (e.insert source content base patch scope).2 := by
  obtain ⟨options, created, hnew⟩ := exists_template_insert e source content base patch scope
  refine ⟨?_, fun i f => ?_, fun h entry hentry => ?_⟩
  · have hlog := Options.adds_apply base patch { reporting := base.reporting }
    exact hlog.append e.reported
  · rcases template_insert_cases e source content base patch scope i with hsame | rfl
    · simp [hsame]
    · rw [hnew, template_of_length_le le_rfl]
      simp [show (default : Template I).warned = [] from rfl]
  · rw [length_insert]
    rcases List.mem_append.mp (entries_insert e source content base patch scope ▸ hentry) with
      hold | hlast
    · obtain ⟨hlt, hkey⟩ := h entry (List.mem_filter.mp hold).1
      rw [template_insert_of_lt _ _ _ _ _ _ hlt]
      exact ⟨Nat.lt_succ_of_lt hlt, hkey⟩
    · rw [List.mem_singleton.mp hlast, hnew]
      exact ⟨Nat.lt_succ_self _, rfl⟩

end Tells

/-! ## Work -/

/-- The log of a render before its end: at its level, under its label, and without an incident. -/
def Task.Logs (task : Task) (log : Collector) : Prop :=
  Collector.Calm { reporting := task.options.reporting, template := some task.label } log

/-- The work of a render reports nothing and closes no cycle by itself, whatever nested renders do. -/
def Hushed (task : Task) : Engine I → Work I → Prop :=
  SafeFrom (fun _ _ => True) Calm fun _ answer => task.Logs answer.2

section Work

variable {α : Type}

private theorem calm_shared (e : Engine I) (shared : I.State) : Calm e { e with shared } :=
  tells_of_eq (Adds.refl _) rfl rfl

private theorem hushed_lift (run : Run I.State α) (e : Engine I) :
    SafeFrom (fun _ _ => True) Calm (fun _ _ => True) e (lift run e) := by
  induction run generalizing e with
  | done shared answer => exact .done (calm_shared e shared) trivial
  | ask shared request next ih =>
      exact ⟨calm_shared e shared, fun e' reply _ =>
        ⟨(ih e'.shared reply e').stretch, (ih e'.shared reply e').safe⟩⟩

private theorem hushed_attempt (id : TemplateId) (label : String) (body : Text) (e : Engine I) :
    SafeFrom (fun _ _ => True) Calm (fun _ _ => True) e (attempt id label body e) := by
  unfold attempt
  split
  · exact .done (Calm.refl e) trivial
  · refine (hushed_lift _ _).bind Calm.refl Calm.trans fun e' ended _ => .done ?_ trivial
    unfold keepProgram
    split
    · exact calm_modify (fun _ => rfl) fun _ => rfl
    · exact Calm.refl e'

private theorem hushed_attemptRepairing (task : Task) (body : Text) {log : Collector}
    (hlog : task.Logs log) (e : Engine I) :
    SafeFrom (fun _ _ => True) Calm (fun _ last => task.Logs last.2) e
      (attemptRepairing task body log e) := by
  refine (hushed_attempt task.id task.label body e).bind Calm.refl Calm.trans fun e' first _ => ?_
  dsimp only
  split
  · exact (hushed_attempt task.id task.label _ e').bind Calm.refl Calm.trans fun e'' second _ =>
      .done (Calm.refl e'') (Collector.Calm.trans hlog (calm_warnRepaired _ log))
  · exact .done (Calm.refl e') hlog

private theorem calm_forget (id : TemplateId) (e : Engine I) :
    Calm e (e.modify id Template.forgetProgram) :=
  calm_modify (fun _ => rfl) fun _ => rfl

private theorem hushed_renderFull (task : Task) {log : Collector} (hlog : task.Logs log)
    (e : Engine I) : Hushed task e (renderFull task log e) := by
  have hforget : Calm e (e.modify task.id fun t => { t.forgetProgram with children := [] }) :=
    calm_modify (fun _ => rfl) fun _ => rfl
  unfold renderFull
  generalize e.modify task.id (fun t => { t.forgetProgram with children := [] }) = e₁ at hforget
  have hscanned := Collector.Calm.trans hlog
    (Scan.calm_scan task.options.delimiters (e₁.template task.id).content task.label log)
  dsimp only
  generalize scan task.options.delimiters (e₁.template task.id).content task.label log = scanned
    at hscanned
  obtain ⟨result, log'⟩ := scanned
  cases result with
  | error error => exact .done hforget hscanned
  | ok pieces =>
      refine .of_stretch Calm.trans hforget <| (hushed_attemptRepairing task _ hscanned e₁).bind
        Calm.refl Calm.trans fun e₂ last hlast => .done ?_ hlast
      split
      · exact calm_forget _ _
      · exact Calm.refl e₂

theorem hushed_produce (task : Task) (e : Engine I) : Hushed task e (produce task e) := by
  have hlog : task.Logs { reporting := task.options.reporting, template := some task.label } :=
    Collector.Calm.refl _
  unfold produce
  dsimp only
  split
  · exact .done (Calm.refl e) hlog
  · exact (hushed_lift _ _).bind Calm.refl Calm.trans fun e' ended _ => .done (Calm.refl e') hlog
  · exact hushed_renderFull task hlog e

end Work

/-! ## Stages -/

theorem calm_enter (again : Bool) (id : TemplateId) (patch : Patch) (e : Engine I) :
    Calm e (enter again id patch e).2 := by
  have hoptions (o : Options) : Calm e.tick (e.tick.modify id fun t => { t with options := o }) :=
    calm_modify (fun _ => rfl) fun _ => rfl
  exact (((calm_tick e).trans (hoptions _)).trans (tells_report (Options.adds_apply ..) _)).trans
    (calm_modify (fun _ => rfl) fun _ => rfl)

/-- What is reported where a render ends: a failed execution, unless failures halt. -/
def Task.failures (task : Task) : Except Error Execution → List Diagnostic
  | .error _ => []
  | .ok ended =>
    match ended.error with
    | none => []
    | some message =>
      if task.options.haltOnError = false ∧ 1 ≤ task.options.reporting then
        [⟨Diagnostic.executionFailed, .error, message, some task.label, none⟩] else []

private theorem Task.Logs.adds_settle {log : Collector} (hlog : task.Logs log) (ended : Execution) :
    Adds (task.failures (.ok ended)) [] (task.settle log ended).2.entries := by
  obtain ⟨output, error⟩ := ended
  cases error with
  | none => exact hlog.entries
  | some message =>
      unfold Task.failures Task.settle
      dsimp only
      cases hhalt : task.options.haltOnError with
      | true => exact hlog.entries
      | false =>
          have hfailed := Collector.entries_add log
            ⟨Diagnostic.executionFailed, .error, message, none, none⟩
          rw [hlog.reporting, hlog.template] at hfailed
          have hall := hlog.entries.trans hfailed
          simpa [Collector.error, Severity.level, Diagnostic.isIncident] using hall

private theorem calm_writeOutput (task : Task) (output : Text) (e : Engine I) :
    Calm e (writeOutput task output e).2 := by
  unfold writeOutput
  dsimp only
  split <;> exact tells_of_eq (Adds.refl _) rfl rfl

private theorem calm_complete (task : Task) (raw : Text) (e : Engine I) :
    Calm e (complete task raw e).2 := by
  have hrecord : Calm e (e.tick.modify task.id (task.record raw e.clock.now)) :=
    (calm_tick e).trans (calm_modify (fun _ => rfl) fun _ => rfl)
  have hrendered (message : String) : Calm e
      ((e.tick.modify task.id (task.record raw e.clock.now)).report (Collector.notify
        { reporting := task.options.reporting, template := some task.label } Diagnostic.rendered
        message)) :=
    hrecord.trans (tells_report (Collector.calm_add rfl).entries _)
  unfold complete
  dsimp only
  split
  · generalize hwritten : writeOutput task _ _ = written
    have hwrite := hwritten ▸ calm_writeOutput task (task.style raw) _
    obtain ⟨result, e'⟩ := written
    cases result <;> exact (hrendered _).trans hwrite
  · exact hrendered _

theorem tells_finish {answer : Except Error Execution × Collector} (hlog : task.Logs answer.2) :
    Tells (task.failures answer.1) [] e (finish task e answer).2 := by
  have hrelease : Calm e (e.modify task.id task.release) :=
    calm_modify (fun _ => rfl) fun _ => rfl
  obtain ⟨result, log⟩ := answer
  cases result with
  | error error => exact hrelease.tells (tells_report hlog.entries _)
  | ok ended =>
      have hsettled := hlog.adds_settle ended
      rw [finish]
      generalize task.settle log ended = settled at hsettled
      obtain ⟨result, log'⟩ := settled
      have hreported := hrelease.tells (tells_report hsettled _)
      cases result with
      | error error => exact hreported
      | ok raw => exact hreported.calm (calm_complete task raw _)

/-! ## Cycles -/

/-- The content and the child with which a request of a template closes a cycle: the child that the
registry finds is being rendered or includes the template. -/
def closing? (parent : TemplateId) (request : Request) (e : Engine I) :
    Option (Fingerprint × TemplateId) :=
  match requested parent request e with
  | .error _ => none
  | .ok content =>
    let f := Fingerprint.ofContent content
    ((e.find? f).filter fun child =>
      (e.template child).rendering || (e.template child).hasChild (e.template parent).fingerprint).map
        fun child => (f, child)

/-- The warning about a cycle of a template and a child. -/
def cycleWarning (parent child : TemplateId) (e : Engine I) : Diagnostic :=
  ⟨Diagnostic.includeCycle, .warning, e.label parent ++ " and " ++ e.label child ++
    " include each other; using the last output of " ++ e.label child, some (e.label parent), none⟩

/-- What is reported of a cycle: the warning if none was given before and warnings are shown. -/
def cycleWarnings (parent : TemplateId) (f : Fingerprint) (child : TemplateId) (e : Engine I) :
    List Diagnostic :=
  if f ∉ (e.template parent).warned ∧ 2 ≤ (e.template parent).options.reporting then
    [cycleWarning parent child e] else []

section Resolve

variable {parent child : TemplateId} {request : Request} {f : Fingerprint}

theorem calm_renderStatic (id : TemplateId) (e : Engine I) : Calm e (renderStatic id e).2 := by
  unfold renderStatic
  dsimp only
  split
  · exact Calm.refl e
  · exact ((calm_tick e).trans (calm_tick _)).trans (calm_modify (fun _ => rfl) fun _ => rfl)

private theorem calm_addChild (parent : TemplateId) (f : Fingerprint) (e : Engine I) :
    Calm e (e.modify parent fun t => t.addChild f) :=
  calm_modify (fun _ => rfl) fun _ => rfl

private theorem find?_addChild (parent : TemplateId) (f : Fingerprint) (e : Engine I) :
    (e.modify parent fun t => t.addChild f).find? = e.find? := rfl

/-- To note a child of a template under render does not change whether another closes a cycle. -/
private theorem cycle_addChild (hr : (e.template parent).rendering = true) (f : Fingerprint)
    (child : TemplateId) (g : Fingerprint) :
    let e' := e.modify parent fun t => t.addChild f
    ((e'.template child).hasChild g || (e'.template child).rendering) =
      ((e.template child).rendering || (e.template child).hasChild g) := by
  dsimp only
  by_cases hchild : child = parent
  · subst hchild
    rw [template_modify_self (lt_length_of_rendering hr)]
    simp [Template.addChild, hr]
  · rw [template_modify_of_ne hchild, Bool.or_comm]

private theorem label_addChild (parent : TemplateId) (f : Fingerprint) (id : TemplateId) (e : Engine I) :
    (e.modify parent fun t => t.addChild f).label id = e.label id := by
  unfold label
  rcases template_modify_cases e parent id fun t => t.addChild f with h | ⟨-, h⟩ <;> rw [h] <;> rfl

/-- The first time that a template closes a cycle with a content, it notes so. -/
private theorem tells_noteCycle (log : Collector) (hparent : parent < e.templates.length)
    (hf : (e.template child).fingerprint = f) :
    Tells [] [(parent, f)] e (noteCycle parent child log e).2 := by
  unfold noteCycle
  dsimp only
  rw [hf]
  split
  · rename_i hwarned
    rw [List.contains_iff_mem] at hwarned
    refine ⟨Adds.refl _, fun i g => ?_, id⟩
    simp only [List.mem_singleton, Prod.mk.injEq]
    exact ⟨.inl, by rintro (h | ⟨rfl, rfl⟩) <;> assumption⟩
  · refine tells_modify (fun _ => rfl) fun i g => ?_
    by_cases hi : i = parent
    · subst hi
      rw [template_modify_self hparent]
      simp [or_comm]
    · rw [template_modify_of_ne hi]
      simp [hi]

private theorem adds_noteCycle (parent child : TemplateId) {e : Engine I} {log : Collector}
    (hreporting : log.reporting = (e.template parent).options.reporting)
    (htemplate : log.template = some (e.label parent)) (hlog : Adds [] [] log.entries) :
    Adds (cycleWarnings parent (e.template child).fingerprint child e) []
      (noteCycle parent child log e).1.entries := by
  unfold noteCycle cycleWarnings
  dsimp only
  by_cases hwarned : (e.template child).fingerprint ∈ (e.template parent).warned
  · simpa [hwarned] using hlog
  · have hadded := hlog.trans (Collector.entries_add log ⟨Diagnostic.includeCycle, .warning,
      e.label parent ++ " and " ++ e.label child ++ " include each other; using the last output of " ++
        e.label child, none, none⟩)
    rw [hreporting, htemplate] at hadded
    simpa [cycleWarning, Collector.warn, Severity.level, Diagnostic.isIncident, hwarned] using hadded

theorem requested_of_closing (h : closing? parent request e = some (f, child)) :
    ∃ content, requested parent request e = .ok content ∧ f = .ofContent content ∧
      e.find? f = some child ∧ ((e.template child).rendering ||
        (e.template child).hasChild (e.template parent).fingerprint) = true := by
  unfold closing? at h
  split at h
  · simp at h
  · rename_i content hcontent
    obtain ⟨found, hfound, heq⟩ := Option.map_eq_some_iff.mp h
    obtain ⟨rfl, rfl⟩ := Prod.mk.inj heq
    obtain ⟨hfind, hcycle⟩ := Option.filter_eq_some_iff.mp hfound
    exact ⟨content, hcontent, rfl, hfind, hcycle⟩

/-- The way to the reply of a request that closes a cycle. -/
theorem resolve_of_closing (hr : (e.template parent).rendering = true)
    (h : closing? parent request e = some (f, child)) : ∃ log,
    Collector.Calm { reporting := (e.template parent).options.reporting
                     template := some (e.label parent) } log ∧
      let noted := noteCycle parent child log (e.modify parent fun t => t.addChild f)
      let shown := renderStatic child (noted.2.report noted.1)
      resolve parent request e = (.reply (.ok shown.1), shown.2) := by
  obtain ⟨content, hcontent, rfl, hfind, hcycle⟩ := requested_of_closing h
  refine ⟨_, Patch.calm_ofJson (request.options.getD .null) _, ?_⟩
  have hcycle' := cycle_addChild hr (.ofContent content) child (e.template parent).fingerprint
  rw [hcycle] at hcycle'
  unfold requested at hcontent
  unfold resolve
  dsimp only at hcontent ⊢
  rw [hcontent]
  dsimp only
  rw [find?_addChild, hfind]
  dsimp only at hcycle' ⊢
  rw [if_pos hcycle']

private theorem options_addChild (parent : TemplateId) (f : Fingerprint) (id : TemplateId)
    (e : Engine I) :
    ((e.modify parent fun t => t.addChild f).template id).options = (e.template id).options := by
  rcases template_modify_cases e parent id fun t => t.addChild f with h | ⟨-, h⟩ <;> rw [h]
  rfl

/-- A request that closes no cycle tells nothing. -/
private theorem calm_resolve (hr : (e.template parent).rendering = true)
    (h : closing? parent request e = none) : Calm e (resolve parent request e).2 := by
  have hlog := Patch.calm_ofJson (request.options.getD .null)
    { reporting := (e.template parent).options.reporting, template := some (e.label parent) }
  unfold closing? requested at h
  unfold resolve
  dsimp only at h ⊢
  split
  · exact Calm.refl e
  · rename_i content hcontent
    have hnoted := calm_addChild parent (.ofContent content) e
    rw [hcontent] at h
    dsimp only at h ⊢
    rw [find?_addChild]
    cases hfind : e.find? (.ofContent content) with
    | none =>
        exact ((hnoted.trans (tells_report hlog.entries _)).trans (calm_insert ..)).trans
          (calm_setScope ..)
    | some child =>
        have hcycle := cycle_addChild hr (.ofContent content) child (e.template parent).fingerprint
        rw [hfind] at h
        simp only [Option.map_eq_none_iff, Option.filter_eq_none_iff, Option.some.injEq,
          forall_eq', Bool.not_eq_true] at h
        rw [h] at hcycle
        dsimp only at hcycle ⊢
        rw [hcycle, if_neg Bool.false_ne_true]
        exact (hnoted.trans (tells_report hlog.entries _)).trans (calm_setScope ..)

/-- What a request tells that closes a cycle. -/
private theorem tells_resolve_of_closing (hr : (e.template parent).rendering = true)
    (hregistered : e.Registered) (h : closing? parent request e = some (f, child)) :
    Tells (cycleWarnings parent f child e) [(parent, f)] e (resolve parent request e).2 := by
  obtain ⟨-, -, -, hfind, -⟩ := requested_of_closing h
  obtain ⟨log, hlog, hresolve⟩ := resolve_of_closing hr h
  have hnoted := calm_addChild parent f e
  have hparent : parent < (e.modify parent fun t => t.addChild f).templates.length := by
    simpa using lt_length_of_rendering hr
  have hwarnings : cycleWarnings parent f child (e.modify parent fun t => t.addChild f) =
      cycleWarnings parent f child e := by
    simp only [cycleWarnings, cycleWarning, label_addChild, options_addChild, hnoted.warned, List.not_mem_nil,
      or_false]
  have hf := ((hnoted.registered hregistered).find? (find?_addChild parent f e ▸ hfind)).2
  have hwarned := tells_noteCycle log hparent hf
  have hadded := adds_noteCycle parent child (hlog.reporting.trans
    (congrArg Options.reporting (options_addChild parent f parent e)).symm)
    (hlog.template.trans (congrArg some (label_addChild parent f parent e)).symm) hlog.entries
  rw [hf, hwarnings] at hadded
  dsimp only at hresolve
  rw [hresolve]
  exact hnoted.tells ((hwarned.trans (tells_report hadded _)).calm (calm_renderStatic child _))

/-- What a request tells: a warning if it closes a cycle for the first time. -/
theorem tells_resolve (hr : (e.template parent).rendering = true) (hregistered : e.Registered) :
    Tells
      ((closing? parent request e).elim [] fun closed => cycleWarnings parent closed.1 closed.2 e)
      ((closing? parent request e).elim [] fun closed => [(parent, closed.1)])
      e (resolve parent request e).2 := by
  cases hclosing : closing? parent request e with
  | none => exact calm_resolve hr hclosing
  | some closed => exact tells_resolve_of_closing hr hregistered hclosing

end Resolve

/-! ## The session -/

namespace Moment

/-- The template whose fragment asks for a nested render, and the content and the child with which that
closes a cycle. -/
def closing? (m : Moment I) : Option (TemplateId × Fingerprint × TemplateId) :=
  match m.activity with
  | .work _ (.ask e request _) =>
    let parent := requester m.stack request
    (Engine.closing? parent request e).map fun closed => (parent, closed)
  | _ => none

/-- What the session goes on from a moment to report of failed executions. -/
def failures (m : Moment I) : List Diagnostic :=
  match m.activity with
  | .work task (.done _ answer) => task.failures answer.1
  | _ => []

/-- What the session goes on from a moment to report of a cycle. -/
def warnings (m : Moment I) : List Diagnostic :=
  m.closing?.elim [] fun (parent, f, child) => cycleWarnings parent f child m.engine

def incidents (m : Moment I) : List Diagnostic := m.warnings ++ m.failures

def cycles (m : Moment I) : List (TemplateId × Fingerprint) :=
  m.closing?.elim [] fun (parent, f, _) => [(parent, f)]

private theorem code_of_failures {m : Moment I} {d : Diagnostic} (h : d ∈ m.failures) :
    d.code = Diagnostic.executionFailed := by
  unfold failures at h
  split at h
  · unfold Task.failures at h
    repeat' split at h
    all_goals simp at h
    rw [h]
  · simp at h

private theorem code_of_cycleWarnings {parent child : TemplateId} {f : Fingerprint} {e : Engine I}
    {d : Diagnostic} (h : d ∈ cycleWarnings parent f child e) : d.code = Diagnostic.includeCycle := by
  unfold cycleWarnings at h
  split at h
  · rw [List.mem_singleton.mp h]
    rfl
  · simp at h

private theorem code_of_warnings {m : Moment I} {d : Diagnostic} (h : d ∈ m.warnings) :
    d.code = Diagnostic.includeCycle := by
  unfold warnings at h
  cases hclosing : m.closing? with
  | none => simp [hclosing] at h
  | some closing =>
      rw [hclosing] at h
      exact code_of_cycleWarnings h

theorem filter_failures (m : Moment I) :
    m.incidents.filter (·.code == Diagnostic.executionFailed) = m.failures := by
  have hwarnings : m.warnings.filter (·.code == Diagnostic.executionFailed) = [] := by
    rw [List.filter_eq_nil_iff]
    intro d hd
    rw [code_of_warnings hd]
    decide
  rw [incidents, List.filter_append, hwarnings, List.nil_append, List.filter_eq_self]
  exact fun d hd => beq_iff_eq.mpr (code_of_failures hd)

theorem filter_warnings (m : Moment I) :
    m.incidents.filter (·.code == Diagnostic.includeCycle) = m.warnings := by
  have hfailures : m.failures.filter (·.code == Diagnostic.includeCycle) = [] := by
    rw [List.filter_eq_nil_iff]
    intro d hd
    rw [code_of_failures hd]
    decide
  rw [incidents, List.filter_append, hfailures, List.append_nil, List.filter_eq_self]
  exact fun d hd => beq_iff_eq.mpr (code_of_warnings hd)

end Moment

/-- The work under way is hushed. -/
def Activity.Hushed : Activity I → Prop
  | .work task run => Engine.Hushed task run.state run
  | _ => True

/-- What is under way is hushed, and so will be what waits. -/
structure Quiet (m : Moment I) : Prop where
  registered : m.engine.Registered
  activity : m.activity.Hushed
  waiting : ∀ w ∈ m.waiting, ∀ e reply, Hushed w.task e (w.next e reply)

private theorem requester_mem (id : TemplateId) (outer : List TemplateId) (request : Request) :
    requester (id :: outer) request ∈ id :: outer := by
  unfold requester
  rw [List.headD_cons, List.getD_eq_getElem?_getD]
  cases hget : (id :: outer)[request.owner]? with
  | none => exact List.mem_cons_self
  | some i => exact List.mem_of_getElem? hget

theorem Consistent.rendering_requester {ws : List (Waiting I)}
    (hc : Consistent (task :: ws.map (·.task)) e) (request : Request) :
    (e.template (requester (task.id :: ws.map (·.task.id)) request)).rendering = true := by
  rw [hc.rendering, List.map_cons, List.map_map]
  exact requester_mem ..

/-- What an answer tells. -/
private theorem tells_answer {ws : List (Waiting I)} {request : Request} {r : Resolution}
    (next : Engine I → Except String Text → Work I)
    (hc : Consistent (task :: ws.map (·.task)) e) (hregistered : e.Registered)
    (hresolve : resolve (requester (task.id :: ws.map (·.task.id)) request) request e = (r, e')) :
    let m : Moment I := ⟨ws, .work task (.ask e request next)⟩
    Tells m.incidents m.cycles e e' := by
  have htells : Tells _ _ e (resolve _ request e).2 :=
    tells_resolve (hc.rendering_requester request) hregistered
  rw [hresolve] at htells
  have hclosing : (⟨ws, .work task (.ask e request next)⟩ : Moment I).closing? =
      let parent := requester (task.id :: ws.map (·.task.id)) request
      (closing? parent request e).map fun closed => (parent, closed) := by
    rw [Moment.closing?]
    simp only [Moment.stack_work]
  unfold Moment.incidents Moment.warnings Moment.failures Moment.cycles
  dsimp only at hclosing ⊢
  rw [hclosing]
  cases h : closing? (requester (task.id :: ws.map (·.task.id)) request) request e with
  | none => simpa [h] using htells
  | some closed => simpa [h, Moment.engine, Run.state] using htells

private theorem Hushed.activity {run : Work I} (h : Hushed task e run) :
    (Activity.work task run).Hushed :=
  ⟨Calm.refl _, h.safe⟩

/-- A step reports a failed execution if it ends a render that failed, and a cycle if it answers a
request that closes one, and it notes that cycle. -/
theorem Step.tells (h : Step limit m m') (hs : Sound limit m) (hq : Quiet m) :
    Tells m.incidents m.cycles m.engine m'.engine ∧ Quiet m' := by
  obtain ⟨hregistered, hactivity, hwaiting⟩ := hq
  have hquiet (htells : Tells m.incidents m.cycles m.engine m'.engine)
      (hactivity' : m'.activity.Hushed)
      (hwaiting' : ∀ w ∈ m'.waiting, ∀ e reply, Hushed w.task e (w.next e reply)) :
      Tells m.incidents m.cycles m.engine m'.engine ∧ Quiet m' :=
    ⟨htells, htells.registered hregistered, hactivity', hwaiting'⟩
  cases h with
  | deep => exact hquiet (Calm.refl _) trivial hwaiting
  | busy => exact hquiet (Calm.refl _) trivial hwaiting
  | closed => exact hquiet (Calm.refl _) trivial hwaiting
  | @begins ws again id patch e hlt hidle halive =>
      have hproduce := hushed_produce (enter again id patch e).1 (enter again id patch e).2
      exact hquiet ((calm_enter again id patch e).trans hproduce.stretch) hproduce.activity hwaiting
  | @answers ws task e request next reply e' hresolve =>
      obtain ⟨hstretch, hnext⟩ := hactivity.safe e' (reply.mapError Error.message) trivial
      exact hquiet ((tells_answer next hs.consistent hregistered hresolve).calm hstretch)
        ⟨Calm.refl _, hnext⟩ hwaiting
  | @descends ws task e request next child patch e' hresolve =>
      have htells := tells_answer next hs.consistent hregistered hresolve
      have hnext (e : Engine I) (reply : Except String Text) : Hushed task e (next e reply) :=
        ⟨(hactivity.safe e reply trivial).1, (hactivity.safe e reply trivial).2⟩
      exact hquiet htells trivial (List.forall_mem_cons.mpr ⟨hnext, hwaiting⟩)
  | ends => exact hquiet (tells_finish hactivity.safe) trivial hwaiting
  | @returns w ws result e =>
      obtain ⟨hw, hws⟩ := List.forall_mem_cons.mp hwaiting
      have hnext := hw e (result.mapError Error.message)
      exact hquiet hnext.stretch hnext.activity hws

private theorem calm_create (source : Source) (patch : Patch) (scope : Option Json) (e : Engine I) :
    Calm e (create source patch scope e).2 := by
  unfold create
  split
  · exact Calm.refl e
  · split
    · exact Calm.refl e
    · exact calm_insert ..

private theorem calm_register (source : Source) (patch : Patch) (scope : Option Json) (e : Engine I) :
    Calm e (register source patch scope e).2 := by
  unfold register
  split
  · exact Calm.refl e
  · exact calm_insert ..

private theorem calm_remove (f : Fingerprint) (e : Engine I) : Calm e (remove f e).2 :=
  ⟨Adds.refl _, by simp [remove, template],
    fun h entry hentry => h entry (List.mem_filter.mp hentry).1⟩

/-- No operation reports an incident or notes a cycle by itself. The reports may be taken. -/
theorem Operation.tells {activity : Activity I} (h : Operation e activity) :
    Calm e (Moment.engine ⟨[], activity⟩) ∨ activity = .back (.ok []) e.takeReported.2 := by
  cases h with
  | render => exact .inl (Calm.refl e)
  | update => exact .inl (Calm.refl e)
  | create source patch scope => exact .inl (calm_create source patch scope e)
  | register source patch scope => exact .inl (calm_register source patch scope e)
  | remove f => exact .inl (calm_remove f e)
  | setScope id scope => exact .inl (calm_setScope id (some scope) e)
  | renderStatic id => exact .inl (calm_renderStatic id e)
  | takeReported => exact .inr rfl
  | close => exact .inl (tells_of_eq (Adds.refl _) rfl rfl)
  | world => exact .inl (tells_of_eq (Adds.refl _) rfl rfl)

private theorem Operation.quiet {activity : Activity I} (h : Operation e activity)
    (hregistered : e.Registered) : Quiet ⟨[], activity⟩ := by
  have hafter : (Moment.engine ⟨[], activity⟩).Registered := by
    rcases h.tells with hcalm | rfl
    · exact hcalm.registered hregistered
    · exact hregistered
  refine ⟨hafter, ?_, by simp⟩
  cases h <;> trivial

theorem Reachable.quiet (h : Reachable limit m) : Quiet m := by
  induction h with
  | @start e hnew =>
      refine ⟨fun entry hentry => ?_, trivial, by simp⟩
      have hnone : e.entries = [] := hnew.entries
      rw [show Moment.engine ⟨[], .back (.ok []) e⟩ = e from rfl, hnone] at hentry
      exact absurd hentry List.not_mem_nil
  | goes hm hgoes ih =>
      cases hgoes with
      | step hstep => exact (hstep.tells hm.sound ih).2
      | operation hoperation => exact hoperation.quiet ih.registered

end Stencil.Engine
