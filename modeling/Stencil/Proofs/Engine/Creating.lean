import Stencil.Engine.Registry
import Stencil.Proofs.Engine.Earlier
import Stencil.Proofs.Engine.Nesting
/-!
# Rendering new content

The registry renders content that is new to it as if its template were created first and then rendered
with the patch. The patch is taken over before the template is there in the one case and by the render
in the other; only the diagnostics about it can tell, which name the template in the second.
-/
namespace Stencil

/-- The diagnostic as one about a template. -/
def Diagnostic.stamped (label : String) (d : Diagnostic) : Diagnostic :=
  { d with template := some label }

/-! ## Logs of a patch -/

namespace Collector

/-- Logs stay related that take the same. -/
structure Lockstep (R : Collector → Collector → Prop) : Prop where
  add : ∀ {log log'} (d : Diagnostic), d.template = none → R log log' → R (log.add d) (log'.add d)
  reporting : ∀ {log log'} (level : Nat), R log log' →
    R { log with reporting := level } { log' with reporting := level }

/-- The second log stamps what the first leaves without a template. -/
structure Stamps (label : String) (log log' : Collector) : Prop where
  unnamed : log.template = none ∧ ∀ d ∈ log.entries, d.template = none
  same : log' = { log with template := some label, entries := log.entries.map (·.stamped label) }

theorem lockstep_stamps (label : String) : Lockstep (Stamps label) := by
  refine ⟨?_, ?_⟩
  · rintro log - d hd ⟨⟨htemplate, hentries⟩, rfl⟩
    unfold Collector.add
    dsimp only
    split
    · refine ⟨⟨htemplate, fun d' hd' => ?_⟩, ?_⟩
      · rcases List.mem_append.mp hd' with hd' | hd'
        · exact hentries d' hd'
        · rw [List.mem_singleton.mp hd']
          simp [hd, htemplate]
      · simp [hd, Diagnostic.stamped]
    · exact ⟨⟨htemplate, hentries⟩, rfl⟩
  · rintro log - level ⟨hunnamed, rfl⟩
    exact ⟨hunnamed, rfl⟩

end Collector

namespace Options

variable {R : Collector → Collector → Prop} {log log' : Collector}

private theorem lockstep_reviewDelimiters (hR : Collector.Lockstep R) (h : R log log')
    (d : Delimiters) : R (reviewDelimiters d log) (reviewDelimiters d log') := by
  have hshort : R
      (if d.isShort then log.warn Diagnostic.shortDelimiter
        ("Delimiters " ++ quotedPair d ++ " are short and may match ordinary text") else log)
      (if d.isShort then log'.warn Diagnostic.shortDelimiter
        ("Delimiters " ++ quotedPair d ++ " are short and may match ordinary text") else log') := by
    split
    · exact hR.add _ rfl h
    · exact h
  unfold reviewDelimiters
  dsimp only
  split
  · exact hR.add _ rfl hshort
  · exact hshort

private theorem lockstep_reviewTtl (hR : Collector.Lockstep R) (h : R log log') (key : String)
    (ttl : Nat) : R (reviewTtl key ttl log) (reviewTtl key ttl log') := by
  unfold reviewTtl
  split
  · exact hR.add _ rfl h
  · exact h

private theorem lockstep_reporting (hR : Collector.Lockstep R) (h : R log log') (o : Options)
    (asked : Option Nat) : R (o.applyReporting log asked).2 (o.applyReporting log' asked).2 := by
  cases asked with
  | none => exact h
  | some level =>
      unfold applyReporting
      dsimp only
      split
      · exact hR.reporting level h
      · exact hR.add _ rfl h

private theorem lockstep_delimiters (hR : Collector.Lockstep R) (h : R log log') (o : Options)
    (start stop : Option Text) :
    R (o.applyDelimiters log start stop).2.1 (o.applyDelimiters log' start stop).2.1 := by
  unfold applyDelimiters
  dsimp only
  split
  · exact h
  · split
    · exact hR.add _ rfl h
    · split
      · exact h
      · exact lockstep_reviewDelimiters hR h _

private theorem lockstep_fullTtl (hR : Collector.Lockstep R) (h : R log log') (o : Options)
    (asked : Option Nat) : R (o.applyFullTtl log asked).2 (o.applyFullTtl log' asked).2 := by
  cases asked with
  | none => exact h
  | some ttl =>
      unfold applyFullTtl
      dsimp only
      split
      · exact hR.add _ rfl h
      · exact lockstep_reviewTtl hR h _ ttl

private theorem lockstep_partialTtl (hR : Collector.Lockstep R) (h : R log log') (o : Options)
    (asked : Option Nat) : R (o.applyPartialTtl log asked).2 (o.applyPartialTtl log' asked).2 := by
  cases asked with
  | none => exact h
  | some ttl => exact lockstep_reviewTtl hR h _ ttl

/-- What a patch reports is the same for every log to begin with. -/
theorem lockstep_apply (hR : Collector.Lockstep R) (h : R log log') (o : Options) (p : Patch) :
    R (o.apply p log).2.1 (o.apply p log').2.1 := by
  -- the options between the checks do not depend on the log
  simp only [apply, applyReporting_fst, applyDelimiters_fst, applyFullTtl_fst]
  have hlevel := lockstep_reporting hR h o p.reporting
  have hpair := lockstep_delimiters hR hlevel
    { o with reporting := (p.reporting.filter (· ≤ maxReporting)).getD o.reporting } p.delimiterStart
    p.delimiterStop
  exact lockstep_partialTtl hR (lockstep_fullTtl hR hpair _ p.fullTtl) _ p.partialTtl

/-- What a patch reports of the options it is applied to. -/
def reports (o : Options) (p : Patch) : List Diagnostic :=
  (o.apply p { reporting := o.reporting }).2.1.entries

private theorem stamps_apply (o : Options) (p : Patch) (label : String) :
    Collector.Stamps label (o.apply p { reporting := o.reporting }).2.1
      (o.apply p { reporting := o.reporting, template := some label }).2.1 := by
  have hnew : Collector.Stamps label { reporting := o.reporting }
      { reporting := o.reporting, template := some label } :=
    ⟨⟨rfl, fun _ hd => nomatch hd⟩, rfl⟩
  exact lockstep_apply (Collector.lockstep_stamps label) hnew o p

theorem template_of_mem_reports (o : Options) (p : Patch) : ∀ d ∈ o.reports p, d.template = none :=
  (stamps_apply o p "").unnamed.2

/-- For a template a patch reports the same, stamped with the template. -/
theorem entries_apply_stamped (o : Options) (p : Patch) (label : String) :
    (o.apply p { reporting := o.reporting, template := some label }).2.1.entries =
      (o.reports p).map (·.stamped label) := by
  rw [(stamps_apply o p label).same]
  rfl

end Options

namespace Engine

variable {I : Interpreter} {e : Engine I} {id : TemplateId} {patch : Patch}

/-! ## A patch taken over ahead of the render -/

/-- The engine in which a template has taken over a patch. -/
def takeOver (id : TemplateId) (patch : Patch) (e : Engine I) : Engine I :=
  e.modify id fun t => { t with options := t.options.patched patch }

/-- A patch that sets neither a name nor absolute paths leaves the label as it is. -/
theorem label_takeOver (hname : patch.name = none) (habsolute : patch.absolutePaths = none) :
    (e.takeOver id patch).label id = e.label id := by
  have hpatched (o : Options) : (o.patched patch).name = o.name ∧
      (o.patched patch).absolutePaths = o.absolutePaths := by
    simp [Options.patched, Options.applyPlain, hname, habsolute]
  rw [label, label, takeOver]
  rcases template_modify_cases e id id fun t => { t with options := t.options.patched patch } with
    hsame | ⟨-, hsame⟩
  · rw [hsame]
    rfl
  · rw [hsame]
    obtain ⟨hname, habsolute⟩ := hpatched (e.template id).options
    simp only [Template.label, Template.displayPath, hname, habsolute]
    rfl

theorem modify_modify (e : Engine I) (id : TemplateId) (f g : Template I → Template I) :
    (e.modify id f).modify id g = e.modify id fun t => g (f t) := by
  simp only [modify]
  congr 1
  refine List.ext_getElem? fun i => ?_
  simp only [List.getElem?_modify]
  cases e.templates[i]? with
  | none => rfl
  | some t => by_cases hi : id = i <;> simp [hi]

theorem modify_congr {f g : Template I → Template I} (h : f (e.template id) = g (e.template id)) :
    e.modify id f = e.modify id g := by
  simp only [modify]
  congr 1
  refine List.ext_getElem? fun i => ?_
  simp only [List.getElem?_modify]
  by_cases hi : id = i
  · subst hi
    rw [template, List.getD_eq_getElem?_getD] at h
    cases hget : e.templates[id]? with
    | none => rfl
    | some t => simpa [hget] using h
  · simp [hi]

private theorem modify_last {α : Type} (l : List α) (a : α) (f : α → α) :
    (l ++ [a]).modify l.length f = l ++ [f a] := by
  induction l with
  | nil => rfl
  | cons b l ih => simp [ih]

/-- New content is put in with the patch taken over and what the patch reports. -/
theorem insert_snd (e : Engine I) (source : Source) (content : Text) (base : Options) (patch : Patch)
    (scope : Option Json) : (e.insert source content base patch scope).2 =
      { (e.insert source content base {} scope).2.takeOver e.templates.length patch with
        reported := e.reported ++ base.reports patch } := by
  simp only [insert, Options.apply_fst, takeOver, modify, report, tick, modify_last]
  rfl

/-! ## The beginning of a first render -/

theorem enter_unrendered (patch : Patch) (h : id < e.templates.length)
    (hprogram : (e.template id).program = none) : (enter false id patch e).1 =
      { id, options := (e.template id).options.patched patch, label := e.label id, type := .full
        started := e.clock.now } := by
  have hoptions : (enter false id patch e).1.options = (e.template id).options.patched patch := by
    rw [enter_options false patch h, patchedOptions, Options.apply_fst]
  have htype : (enter false id patch e).1.type = .full := by
    rw [enter_type false patch h]
    simp [chooseType, RenderType.choose, hprogram]
  rw [← hoptions, ← htype]
  rfl

theorem enter_snd (again : Bool) (id : TemplateId) (patch : Patch) (e : Engine I) :
    (enter again id patch e).2 =
      { e.tick.modify id fun t => { t with options := t.options.patched patch, rendering := true } with
        reported := e.reported ++
          ((e.template id).options.reports patch).map (·.stamped (e.label id)) } := by
  have hmodified : ((e.tick.modify id fun t =>
      { t with options := (e.template id).options.patched patch }).modify id fun t =>
        { t with rendering := true }) =
      e.tick.modify id fun t => { t with options := t.options.patched patch, rendering := true } := by
    rw [modify_modify]
    exact modify_congr rfl
  rw [← Options.entries_apply_stamped]
  simp only [enter, applyPatch, template_tick, Options.apply_fst]
  exact congrArg (·.report ((e.template id).options.apply patch
    { reporting := (e.template id).options.reporting, template := some (e.label id) }).2.1) hmodified

/-- The first render of a template takes its patch over as if that had been done before. -/
theorem enter_takeOver (hname : patch.name = none) (habsolute : patch.absolutePaths = none)
    (h : id < e.templates.length) (hprogram : (e.template id).program = none) :
    enter false id patch e =
      ((enter false id {} (e.takeOver id patch)).1,
        { (enter false id {} (e.takeOver id patch)).2 with
          reported := e.reported ++ ((e.template id).options.reports patch).map
            (·.stamped (e.label id)) }) := by
  have htemplate : (e.takeOver id patch).template id =
      { e.template id with options := (e.template id).options.patched patch } :=
    template_modify_self h _
  refine Prod.ext ?_ ?_
  · have hlength : id < (e.takeOver id patch).templates.length := by simpa [takeOver] using h
    rw [enter_unrendered patch h hprogram, enter_unrendered {} hlength (by rw [htemplate, hprogram]),
      label_takeOver hname habsolute, htemplate]
    rfl
  · have htemplates : (((e.takeOver id patch).modify id fun t =>
        { t with options := t.options.patched {}, rendering := true })) =
        e.modify id fun t => { t with options := t.options.patched patch, rendering := true } := by
      rw [takeOver, modify_modify]
      rfl
    replace htemplates := congrArg Engine.templates htemplates
    simp only [modify] at htemplates
    simp only [enter_snd, modify, tick, htemplates]
    rfl

/-! ## Creating and rendering -/

theorem after_takeReported (e : Engine I) (r : List Diagnostic) :
    e.takeReported.2.after r = { e with reported := r } := by
  simp [after, takeReported]

/-- The first render of a template is the render of the template with the patch taken over, after
what the patch reports of the template. -/
theorem render_takeOver (halive : e.alive = true) (h : id < e.templates.length)
    (hidle : (e.template id).rendering = false) (hprogram : (e.template id).program = none)
    (hname : patch.name = none) (habsolute : patch.absolutePaths = none) :
    render id patch e =
      afterAll (e.reported ++ ((e.template id).options.reports patch).map (·.stamped (e.label id)))
        (render id {} (e.takeOver id patch).takeReported.2) := by
  have htaken : e.takeOver id patch = (e.takeOver id patch).takeReported.2.after e.reported := by
    rw [after_takeReported]
    rfl
  have hidle' : ((e.takeOver id patch).takeReported.2.template id).rendering = false := by
    have htemplate := template_modify_self h fun t =>
      { t with options := t.options.patched patch }
    exact (congrArg Template.rendering htemplate).trans hidle
  have hbegun := enter_takeOver hname habsolute h hprogram
  rw [htaken, enter_after] at hbegun
  have hquiet : (enter false id {} (e.takeOver id patch).takeReported.2).2.reported = [] := by
    rw [enter_snd]
    rfl
  obtain ⟨depth, hdepth⟩ : ∃ depth, maxDepth = depth + 1 := ⟨_, rfl⟩
  rw [render, render, hdepth, renderTo_succ depth [] false patch hidle halive, hbegun,
    renderTo_succ depth [] false {} hidle' halive]
  generalize enter false id {} (e.takeOver id patch).takeReported.2 = begun at hquiet ⊢
  dsimp only [afterAll_fst, afterAll_snd]
  rw [← finish_drive_after _ _ (answersAfter_answer _ depth [id])]
  have hsame (r : List Diagnostic) : begun.2.after r = { begun.2 with reported := r } := by
    rw [after, hquiet, List.append_nil]
  rw [hsame, hsame]

/-- Rendering content that the registry does not have yet comes to the same as creating its template
with the empty patch and rendering that with the patch, if the patch sets neither a name nor absolute
paths: to the same text or error and to the same engine, templates and all. Only what the patch reports
differs, which names no template in the one case and the new template in the other. -/
theorem renderSource_eq_create_render {source : Source} {content : Text} (scope : Option Json)
    (halive : e.alive = true) (hload : source.load e.disk = .ok content)
    (hnew : e.find? (.ofContent content) = none) (hname : patch.name = none)
    (habsolute : patch.absolutePaths = none) :
    let id := e.templates.length
    let created := create source {} scope e
    let warnings := e.defaults.reports patch
    created.1 = .ok id ∧ (∀ d ∈ warnings, d.template = none) ∧
      ∃ (result : Except Error Text) (rest : Engine I),
        renderSource source patch scope e = (result, rest.after (e.reported ++ warnings)) ∧
        render id patch created.2 =
          (result, rest.after (e.reported ++ warnings.map (·.stamped (created.2.label id)))) := by
  intro id created warnings
  have hcreated : created = (.ok id, (e.insert source content e.defaults {} scope).2) := by
    simp only [created, create, hload, hnew]
    rfl
  have hdirect : renderSource source patch scope e =
      render id {} (e.insert source content e.defaults patch scope).2 := by
    simp only [renderSource, hload, hnew]
    rfl
  rw [insert_snd] at hdirect
  rw [hcreated, hdirect]
  have htemplate : (e.insert source content e.defaults {} scope).2.template id =
      { source, content, fingerprint := .ofContent content, created := e.clock.now
        options := e.defaults, scope := scope.getD .null } := by
    simp [insert, template, id]
    rfl
  have hreported : (e.insert source content e.defaults {} scope).2.reported = e.reported :=
    List.append_nil _
  have hlength : id < (e.insert source content e.defaults {} scope).2.templates.length := by
    rw [length_insert]
    exact Nat.lt_succ_self _
  have halive' : (e.insert source content e.defaults {} scope).2.alive = true := halive
  generalize (e.insert source content e.defaults {} scope).2 = c at *
  have hrendered := render_takeOver halive' hlength (by rw [htemplate]) (by rw [htemplate]) hname
    habsolute
  refine ⟨rfl, e.defaults.template_of_mem_reports patch,
    (render id {} (c.takeOver id patch).takeReported.2).1,
    (render id {} (c.takeOver id patch).takeReported.2).2, ?_, hrendered.trans ?_⟩
  · rw [← after_takeReported, render, renderTo_after]
    rfl
  · rw [hreported, htemplate]
    rfl

/-- A patch with other delimiters, a level that there is not and a full render forced, for a content
that includes the empty text, which is there already. -/
theorem renderSource_eq_create_render_forced :
    let patch : Patch :=
      { delimiterStart := some "%<".toList, delimiterStop := some ">%".toList, reporting := some 7
        forceFull := some true }
    let source : Source := .inline "a%<b>%".toList
    let created := create source {} none selfIncluding
    (selfIncluding.defaults.reports patch).map (·.code) = [Diagnostic.invalidOption] ∧
      created.1 = .ok 1 ∧
      ∃ (result : Except Error Text) (rest : Engine Including),
        renderSource source patch none selfIncluding =
          (result, rest.after (selfIncluding.reported ++ selfIncluding.defaults.reports patch)) ∧
        render 1 patch created.2 = (result, rest.after (selfIncluding.reported ++
          (selfIncluding.defaults.reports patch).map (·.stamped (created.2.label 1)))) := by
  intro patch source created
  have halive : selfIncluding.alive = true := rfl
  have hload : source.load selfIncluding.disk = .ok "a%<b>%".toList := rfl
  have hnew : selfIncluding.find? (.ofContent "a%<b>%".toList) = none := by decide +kernel
  have hname : patch.name = none := rfl
  have habsolute : patch.absolutePaths = none := rfl
  obtain ⟨hcreated, -, hsame⟩ :=
    renderSource_eq_create_render none halive hload hnew hname habsolute
  exact ⟨by decide +kernel, hcreated, hsame⟩

end Engine

end Stencil
