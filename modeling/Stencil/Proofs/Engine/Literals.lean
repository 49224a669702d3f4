import Stencil.Proofs.Engine.Compiling
import Stencil.Proofs.Engine.Moments
import Stencil.Proofs.Engine.Stages
import Stencil.Proofs.Lua.Emission
/-!
# Documents without code render unchanged

A full render of a document in which neither delimiter occurs compiles and runs the one statement that
emits its text, and comes to that text in its style. It reports no more than that it rendered. There
are three things that it cannot do without: a name that a chunk can have, room for the calls of the
chunk, and an output file that can be written, if there is to be one.
-/
namespace Stencil.Engine

section Begins

variable {I : Interpreter}

/-- A full render is about to begin, of a template in whose content neither of the delimiters occurs
that it has then. -/
structure BeginsPlain (again : Bool) (id : TemplateId) (patch : Patch) (e : Engine I) : Prop where
  there : id < e.templates.length
  idle : (e.template id).rendering = false
  alive : e.alive = true
  type : (enter again id patch e).1.type = .full
  start : ¬ (patchedOptions id patch e).delimiters.start <:+: (e.template id).content
  stop : ¬ (patchedOptions id patch e).delimiters.stop <:+: (e.template id).content

instance (again : Bool) (id : TemplateId) (patch : Patch) (e : Engine I) :
    Decidable (BeginsPlain again id patch e) :=
  decidable_of_iff (id < e.templates.length ∧ (e.template id).rendering = false ∧ e.alive = true ∧
      (enter again id patch e).1.type = .full ∧
      ¬ (patchedOptions id patch e).delimiters.start <:+: (e.template id).content ∧
      ¬ (patchedOptions id patch e).delimiters.stop <:+: (e.template id).content)
    ⟨fun ⟨hthere, hidle, halive, htype, hstart, hstop⟩ =>
        ⟨hthere, hidle, halive, htype, hstart, hstop⟩,
      fun ⟨hthere, hidle, halive, htype, hstart, hstop⟩ =>
        ⟨hthere, hidle, halive, htype, hstart, hstop⟩⟩

end Begins

/-! ## The run -/

section Run

variable {e : Engine Lua.interpreter} {id : TemplateId} {task : Task} {t body : Text}
  {program : Lua.Code}

/-- A template holds a program, and nothing was reported or written since. -/
structure HoldsProgram (e : Engine Lua.interpreter) (id : TemplateId) (program : Lua.Code)
    (e' : Engine Lua.interpreter) : Prop where
  program : (e'.template id).program = some program
  length : e'.templates.length = e.templates.length
  reported : e'.reported = e.reported
  disk : e'.disk = e.disk

theorem execute_emits (hc : program.Emits t) (hs : Lua.Chunk.Ready e.shared) (id : TemplateId) :
    ∃ shared, execute id program e = .done { e with shared } { output := t, error := none } := by
  obtain ⟨shared, hrun⟩ := Lua.Chunk.run_emits hc hs (e.template id).scope
  refine ⟨shared, ?_⟩
  change lift (Lua.Chunk.run program _ _) e = _
  rw [hrun]
  rfl

/-- A body that lowers to the statement that emits a text compiles and runs well the first time. -/
theorem attempt_emits {label : String} (hlabel : '\x00' ∉ label.toList)
    (hs : Lua.Chunk.Ready e.shared) (hid : id < e.templates.length) (hbody : lower body = emission t) :
    ∃ program e', Lua.Chunk.compile e.shared label (lower body) = .ok program ∧
      attempt id label body e = .done e' { output := t, error := none } ∧ HoldsProgram e id program e' := by
  obtain ⟨program, hcompile, hc⟩ := Lua.Chunk.compile_emission hlabel hs.two_le_room t
  obtain ⟨shared, hrun⟩ := execute_emits hc hs id
  rw [← hbody] at hcompile
  have hcompiled : Lua.interpreter.compile e.shared label (lower body) = .ok program := hcompile
  refine ⟨program, Engine.modify { e with shared } id fun t => { t with program := some program },
    hcompile, ?_, ?_⟩
  · rw [attempt, hcompiled]
    dsimp only
    rw [hrun]
    rfl
  · exact ⟨congrArg Template.program (template_modify_self (e := { e with shared }) hid _),
      length_modify _, rfl, rfl⟩

/-- A render from source runs the body of the document, without repair. -/
theorem renderFull_plain (hstart : ¬ task.options.delimiters.start <:+: (e.template task.id).content)
    (hstop : ¬ task.options.delimiters.stop <:+: (e.template task.id).content)
    (hlabel : '\x00' ∉ task.label.toList) (hs : Lua.Chunk.Ready e.shared)
    (hid : task.id < e.templates.length) (log : Collector) :
    ∃ body program e', bodyOf? task.options.delimiters (e.template task.id).content = some body ∧
      Lua.Chunk.compile e.shared task.label (lower body) = .ok program ∧
      renderFull task log e =
        .done e' (.ok { output := (e.template task.id).content, error := none }, log) ∧
      HoldsProgram e task.id program e' := by
  let e₁ := e.modify task.id fun t => { t.forgetProgram with children := [] }
  have hcontent : (e₁.template task.id).content = (e.template task.id).content := by
    rw [template_modify_self hid]
    rfl
  have hscan := scan_literal hstart hstop task.label log
  obtain ⟨program, e₂, hcompile, hattempt, hholds⟩ := @attempt_emits e₁ task.id _ _ task.label hlabel
    hs (by rwa [length_modify]) (lower_literal (e.template task.id).content)
  refine ⟨_, program, e₂, bodyOf?_eq_some (congrArg Prod.fst hscan), hcompile, ?_, ?_⟩
  · unfold renderFull
    simp only [e₁] at hcontent hattempt
    simp only [hcontent, hscan, attemptRepairing, hattempt, Run.bind]
    rfl
  · exact ⟨hholds.program, hholds.length.trans (length_modify _), hholds.reported, hholds.disk⟩

end Run

/-! ## The end -/

section Ends

variable {I : Interpreter} {e : Engine I} {task : Task} {raw : Text}

theorem template_complete_self (h : task.id < e.templates.length) :
    (complete task raw e).2.template task.id =
      task.record raw e.clock.now (e.template task.id) := by
  rw [template, (templates_complete task raw e).1, ← template, template_modify_self h]

theorem of_mem_announcement {d : Diagnostic} (h : d ∈ (announcement task e).entries) :
    d.code = Diagnostic.rendered ∧ d.severity = .notice := by
  unfold announcement Collector.notify Collector.add at h
  split at h
  · rw [List.nil_append, List.mem_singleton] at h
    subst h
    exact ⟨rfl, rfl⟩
  · cases h

/-- A completed render announces that it rendered, and returns its output unless that was to be written
and could not be. -/
theorem complete_outcome (task : Task) (raw : Text) (e : Engine I) :
    (complete task raw e).2.reported = e.reported ++ (announcement task e).entries ∧
      ((complete task raw e).1 = .ok (task.style raw) ∨
        task.options.output = true ∧ ∃ (name : OutputName) (error : Error),
          e.disk.write (name.path task.options) (task.style raw).toBytes = .error error ∧
          (complete task raw e).1 = .error error) := by
  rw [complete_eq]
  split
  · rename_i houtput
    rcases writeOutput_cases task (task.style raw) (entered task raw e) with
      ⟨disk, hwritten⟩ | ⟨name, error, herror, hwritten⟩
    · rw [hwritten]
      exact ⟨rfl, .inl rfl⟩
    · rw [hwritten]
      exact ⟨rfl, .inr ⟨houtput, name, error, herror, rfl⟩⟩
  · exact ⟨rfl, .inl rfl⟩

end Ends

/-- The work of a full render of a template without code runs the body of its content, which takes no
repair, and completes the render with the content. -/
theorem work_plain {e : Engine Lua.interpreter} {task : Task} (htype : task.type = .full)
    (hstart : ¬ task.options.delimiters.start <:+: (e.template task.id).content)
    (hstop : ¬ task.options.delimiters.stop <:+: (e.template task.id).content)
    (hlabel : '\x00' ∉ task.label.toList) (hs : Lua.Chunk.Ready e.shared)
    (hid : task.id < e.templates.length)
    (nested : Request → Engine Lua.interpreter → Except Error Text × Engine Lua.interpreter) :
    ∃ body program e', bodyOf? task.options.delimiters (e.template task.id).content = some body ∧
      Lua.Chunk.compile e.shared task.label (lower body) = .ok program ∧
      finish task (drive nested (produce task e)).2 (drive nested (produce task e)).1 =
        complete task (e.template task.id).content e' ∧
      HoldsProgram e task.id program e' := by
  let log : Collector := { reporting := task.options.reporting, template := some task.label }
  obtain ⟨body, program, e₁, hbody, hcompile, hfull, hholds⟩ :=
    renderFull_plain hstart hstop hlabel hs hid log
  have hproduce : produce task e = renderFull task log e := by
    unfold produce
    rw [htype]
  refine ⟨body, program, (e₁.modify task.id task.release).report log, hbody, hcompile, ?_, ?_⟩
  · rw [hproduce, hfull]
    rfl
  · have hlt : task.id < e₁.templates.length := by rwa [hholds.length]
    exact ⟨(congrArg Template.program (template_modify_self hlt _)).trans hholds.program,
      (length_modify _).trans hholds.length, (List.append_nil _).trans hholds.reported, hholds.disk⟩

instance (v : Lua.Value) (b : Lua.Builtin) : Decidable (v = .builtin b) :=
  match v with
  | .builtin b' => decidable_of_iff (b' = b) (by rw [Lua.Value.builtin.injEq])
  | .nil | .bool _ | .number _ | .string _ | .table _ | .closure _ | .failure _ _ => isFalse nofun

/-- A template whose content says all that text in code must not say as it is. -/
def tricky : Engine Lua.interpreter :=
  (register (.inline "'\"\\n\x00\ue000\t -- if (a) \x7b print(1);\n\n */ else ]] $ >".toList)
    { style := some .compact } none {}).2

section Refused

/-- A template whose output is to be written into a directory in whose place there is a file. -/
def blocked : Engine Lua.interpreter :=
  (register (.inline "plain text".toList)
    { output := some true, outputDir := some "blocked".toList } none
    { disk := { nodes := [(["blocked".toList], .file (Text.toBytes "a file".toList))] } }).2

/-- A template with a name that no chunk can have. -/
def unnamable : Engine Lua.interpreter :=
  (register (.inline "plain text".toList) { name := some "a\x00b" } none {}).2

/-- A template of a file, and one that asks for it inside as many guarded calls as there may be. -/
def crowded : Engine Lua.interpreter :=
  let calls : Text := (List.replicate 13 "p,".toList).flatten
  let code : Text := "<$ local p, n = pcall, 15 local function f() n = n - 1 ".toList ++
    "if n == 0 then render('c') else p(".toList ++ calls ++ "f) end end p(f) $>".toList
  let disk : Disk := { nodes := [(["c".toList], .file (Text.toBytes "plain text".toList))] }
  (register (.inline code) {} none (register (.file "c".toList) {} none { disk }).2).2

/-- The second template is rendered, which begins to run and asks for the first. -/
def asking? : Option (Moment Lua.interpreter) :=
  (next? maxDepth ⟨[], .call false 1 {} crowded⟩).bind (next? maxDepth)

private theorem reachable_asking {m : Moment Lua.interpreter} (h : asking? = some m) :
    Reachable maxDepth m := by
  have hregistered : Reachable maxDepth ⟨[], .back (.ok []) crowded⟩ :=
    ((Reachable.start ⟨rfl, rfl, rfl⟩).goes (.operation (.register _ _ _))).goes
      (.operation (.register _ _ _))
  obtain ⟨m', hbegins, hasks⟩ := Option.bind_eq_some_iff.mp h
  exact ((hregistered.goes (.operation (.render {} (by decide)))).goes
    (.step (step_of_next? hbegins))).goes (.step (step_of_next? hasks))

private theorem blocked_refused : BeginsPlain false 0 {} blocked ∧
    '\x00' ∉ (blocked.label 0).toList ∧
    (render 0 {} blocked).1 = .error (.unwritable "blocked".toList .exists) := by
  decide +kernel

private theorem unnamable_refused : BeginsPlain false 0 {} unnamable ∧
    (patchedOptions 0 {} unnamable).output = false ∧
    (render 0 {} unnamable).1 = .error (.execution "Template [a\x00b]"
      "runtime error: invalid name: nul byte found in provided data at position: 12") := by
  decide +kernel

private theorem crowded_refused : ∃ m ∈ asking?, m.stack = [1] ∧ BeginsPlain false 0 {} m.engine ∧
    (m.engine.shared.global "tostring" = .builtin .tostring ∧
      '\x00' ∉ (m.engine.label 0).toList ∧ (patchedOptions 0 {} m.engine).output = false) ∧
    (renderTo 199 [1] false 0 {} m.engine).1 =
      .error (.execution "Template [c]" Lua.Chunk.overflow) := by
  decide +kernel

end Refused

end Stencil.Engine
