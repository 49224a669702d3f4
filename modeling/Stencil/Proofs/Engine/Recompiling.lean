import Stencil.Proofs.Engine.Agreement
import Stencil.Proofs.Engine.Outcomes
/-!
# A render from source in place of another run

Where another run of the program of a template comes to a text, a render from source comes to the
same, unless the program was compiled with fewer calls under way and its text is now too deep.
-/
namespace Stencil.Engine

open Relation

section Render

variable {I : Interpreter} {limit : Nat} {m m' : Moment I} {e e₀ : Engine I} {id : TemplateId}
  {task : Task} {p : I.Program} {body : Text}

/-- Step by step a session keeps the program of a template that is not rendered from source. -/
private theorem Compilation.steps (h : Compilation limit m id p e₀ task body) (hm : Reachable limit m)
    (hgoes : Goes limit m m') (hbefore : ∀ task ∈ m.tasks, task.id ≠ id)
    (hafter : ∀ task ∈ m'.tasks, task.id ≠ id) (hp : (m'.engine.template id).program.isSome = true) :
    Compilation limit m' id p e₀ task body := by
  rcases hgoes.keeps hm.sound (fun task hmem heq => absurd heq (hafter task hmem))
    (fun task hmem heq => absurd heq (hbefore task hmem)) with hnone | hkept
  · rw [hnone] at hp
    cases hp
  · exact h.goes hgoes hkept

/-- A render from source that leaves a program has compiled it. -/
theorem compilation_render {result : Except Error Text} {patch : Patch}
    (h : Reachable maxDepth ⟨[], .back result e₀⟩) (hid : id < e₀.templates.length)
    (halive : e₀.alive = true) (htype : (enter false id patch e₀).1.type = .full)
    (hp : ((render id patch e₀).2.template id).program = some p) :
    ∃ body, Compilation maxDepth ⟨[], .back (render id patch e₀).1 (render id patch e₀).2⟩ id p e₀
      (enter false id patch e₀).1 body := by
  have hc : Consistent [] e₀ := h.sound.consistent
  have hcall : Reachable maxDepth ⟨[], .call false id patch e₀⟩ :=
    h.goes (.operation (.render patch hid))
  have hlimit : ([] : List (Waiting I)).length + 1 + 199 = maxDepth := rfl
  obtain ⟨hsteps, hproduced, -⟩ := work_begun false patch hlimit hc.valid hid (hc.idle id) halive
  have hrender := renderTo_succ 199 [] false patch (hc.idle id) halive
  have htask : (enter false id patch e₀).1.id = id := enter_id
  rw [render, maxDepth, hrender] at hp ⊢
  dsimp only [List.map_nil] at hsteps hproduced hp ⊢
  generalize hbegun : enter false id patch e₀ = begun at *
  obtain ⟨⟨_, options, label, type, started⟩, e⟩ := begun
  obtain rfl : _ = id := htask
  exact (compilation_ends (hcall.of_steps hsteps).sound ⟨false, patch, hcall, by rw [hbegun], hsteps⟩
    hproduced htype hp).2

/-- A template whose render has begun in circumstances of its own: what programs share, its scope and
its options. -/
def begun (shared : I.State) (id : TemplateId) (scope : Json) (options : Options) (e : Engine I) :
    Engine I :=
  Engine.modify { e with shared } id fun t => { t with scope, options, rendering := true }

/-- The render of a template in one way or another, begun in an engine. -/
def taskOf (id : TemplateId) (type : RenderType) (started : Nat) (e : Engine I) : Task :=
  { id, options := (e.template id).options, label := e.label id, type, started }

/-- Whenever another run of the program of a template under render comes to a text without an error,
a render from source does, with the same nested renders, and leaves what is alike. -/
def Repeats (id : TemplateId) (e : Engine I) : Prop :=
  ∀ depth outer started output log eP texts,
    Comes (answer depth (id :: outer)) (inside depth (id :: outer))
      (produce (taskOf id .partly started e) e) (.ok { output, error := none }, log) eP texts →
    ∃ log' eF, Comes (answer depth (id :: outer)) (inside depth (id :: outer))
      (produce (taskOf id .full started e) e) (.ok { output, error := none }, log') eF texts ∧
      Alike id eP eF

theorem Repeats.text {depth started : Nat} {outer : List TemplateId} {output : Text}
    (h : Repeats id e)
    (hpartly : (drive (answer depth (id :: outer)) (produce (taskOf id .partly started e) e)).1.1 =
      .ok { output, error := none }) :
    (drive (answer depth (id :: outer)) (produce (taskOf id .full started e) e)).1.1 =
      .ok { output, error := none } := by
  obtain ⟨log', eF, hfull, -⟩ := h depth outer started _ _ _ _ ⟨Prod.ext (Prod.ext hpartly rfl) rfl, rfl⟩
  rw [hfull.drive]

theorem repeats_of_compile (hr : (e.template id).rendering = true)
    (hp : (e.template id).program = some p)
    (hbody : bodyOf? (e.template id).options.delimiters (e.template id).content = some body)
    (hcompile : I.compile e.shared (e.label id) (lower body) = .ok p) : Repeats id e :=
  fun depth outer started _ _ _ _ hpartly =>
    full_of_partly (taskOf id .full started e) (answersAlike_answer depth (id :: outer))
      inside_alike hr hp hbody hcompile hpartly

end Render

section Asked

variable {I : Interpreter} (e₀ : Engine I)

/-- The first template is rendered and then the second, which begins to run and asks for the first. -/
def asked? : Option (Moment I × Moment I) :=
  (next? maxDepth ⟨[], .call false 1 {} (render 0 {} e₀).2⟩).bind fun m =>
    (next? maxDepth m).map fun m' => (m, m')

/-- What takes runs to find out: the first template was rendered from source without a repair, and keeps
its program and its label on the way. -/
def KeptSo (body : Text) (m m' : Moment I) : Prop :=
  (e₀.templates.length = 2 ∧ e₀.alive = true ∧ (render 0 {} e₀).2.templates.length = 2) ∧
    ((enter false 0 {} e₀).1.type = .full ∧ (repair body).2 = []) ∧
    (m.stack = [1] ∧ m'.stack = [1] ∧ (m'.engine.template 0).rendering = false) ∧
    (((render 0 {} e₀).2.template 0).program.isSome = true ∧
      (m.engine.template 0).program.isSome = true ∧ (m'.engine.template 0).program.isSome = true) ∧
    m'.engine.label 0 = (enter false 0 {} e₀).1.label ∧
    bodyOf? (m'.engine.template 0).options.delimiters (m'.engine.template 0).content = some body

instance (body : Text) (m m' : Moment I) : Decidable (KeptSo e₀ body m m') := by
  unfold KeptSo
  infer_instance

variable {e₀} {body : Text} {m m' : Moment I}

/-- The first template there, its render begun with what it has and with what programs then share. -/
def askedEngine (m : Moment I) : Engine I :=
  begun m.engine.shared 0 (m.engine.template 0).scope (m.engine.template 0).options m.engine

private theorem label_askedEngine {p : I.Program} (hp : (m.engine.template 0).program = some p) :
    (askedEngine m).label 0 = m.engine.label 0 := by
  have htemplate : (askedEngine m).template 0 = { m.engine.template 0 with rendering := true } :=
    template_modify_self (lt_length_of_program hp) _
  rw [label, htemplate]
  rfl

private theorem compilation_asked {result : Except Error Text}
    (h : Reachable maxDepth ⟨[], .back result e₀⟩) (hasked : asked? e₀ = some (m, m'))
    (hkept : KeptSo e₀ body m m') :
    Reachable maxDepth m' ∧ ∃ p task, (m'.engine.template 0).program = some p ∧
      Compilation maxDepth m' 0 p e₀ task body ∧
      I.compile e₀.shared task.label (lower body) = .ok p ∧ (askedEngine m').label 0 = task.label := by
  obtain ⟨⟨hlength, halive, hlength'⟩, ⟨htype, hrepair⟩, ⟨hm, hm', -⟩, ⟨hp₀, hp, hp'⟩, hlabel, hbody⟩ := hkept
  obtain ⟨m₁, hbegins, hmap⟩ := Option.bind_eq_some_iff.mp hasked
  obtain ⟨m₂, hdescends, hpair⟩ := Option.map_eq_some_iff.mp hmap
  obtain ⟨rfl, rfl⟩ := Prod.mk.inj hpair
  -- the way of the session
  have hid : 0 < e₀.templates.length := by omega
  have hid' : 1 < (render 0 {} e₀).2.templates.length := by omega
  have hrendered := h.render {} hid
  have hcall : Goes maxDepth ⟨[], .back (render 0 {} e₀).1 (render 0 {} e₀).2⟩
      ⟨[], .call false 1 {} (render 0 {} e₀).2⟩ := .operation (.render {} hid')
  have hbegun : Goes maxDepth ⟨[], .call false 1 {} (render 0 {} e₀).2⟩ m₁ :=
    .step (step_of_next? hbegins)
  have hasked : Goes maxDepth m₁ m₂ := .step (step_of_next? hdescends)
  have helsewhere {m : Moment I} (h : m.stack = [1]) : ∀ task ∈ m.tasks, task.id ≠ 0 := by
    intro task hmem heq
    have hstack : task.id ∈ m.stack := List.mem_map_of_mem hmem
    simp [h, heq] at hstack
  -- the program that it keeps on the way
  obtain ⟨p, hprogram⟩ := Option.isSome_iff_exists.mp hp₀
  obtain ⟨body', hcompilation⟩ := compilation_render h hid halive htype hprogram
  have hcalled := hcompilation.steps hrendered hcall (by simp [Moment.tasks])
    (by simp [Moment.tasks]) hp₀
  have hran := hcalled.steps (hrendered.goes hcall) hbegun (by simp [Moment.tasks]) (helsewhere hm) hp
  have hkept := hran.steps ((hrendered.goes hcall).goes hbegun) hasked (helsewhere hm)
    (helsewhere hm') hp'
  obtain rfl : body' = body := Option.some.inj (hkept.source.symm.trans hbody)
  exact ⟨((hrendered.goes hcall).goes hbegun).goes hasked, p, _, hkept.program, hkept,
    hkept.compiled.resolve_right fun h => h.1 hrepair, (label_askedEngine hkept.program).trans hlabel⟩

/-- What its render comes to there, in one way or another. -/
def outcome (type : RenderType) (m : Moment I) : Except Error Execution :=
  (drive (answer 198 [0, 1]) (produce (taskOf 0 type 0 (askedEngine m)) (askedEngine m))).1.1

end Asked

/-- An operator repeated before a number, as deep as it is long. -/
def deepCode (depth : Nat) : Text := "x=".toList ++ List.replicate depth '~' ++ ['1']

/-- A template of a file with that, and one that asks for it. -/
def deepEngine (depth : Nat) : Engine Lua.interpreter :=
  let content : Text := "<$ ".toList ++ deepCode depth ++ " $>ok".toList
  let disk : Disk := { nodes := [(["c".toList], .file content.toBytes)] }
  (register (.inline "<$ render('c') $>".toList) {} none
    (register (.file "c".toList) {} none { disk }).2).2

def deepBody (depth : Nat) : Text := deepCode depth ++ ";print(\"ok\");".toList

private theorem reachable_deepEngine (depth : Nat) :
    Reachable maxDepth ⟨[], .back (.ok []) (deepEngine depth)⟩ :=
  ((Reachable.start ⟨rfl, rfl, rfl⟩).goes (.operation (.register _ _ _))).goes
    (.operation (.register _ _ _))

private theorem asked_shallow : ∃ q ∈ asked? (deepEngine 1),
    KeptSo (deepEngine 1) (deepBody 1) q.1 q.2 ∧
      (Lua.Chunk.compile q.2.engine.shared ((askedEngine q.2).label 0)
        (lower (deepBody 1))).isOk = true ∧
      outcome .full q.2 = .ok ⟨"ok".toList, none⟩ := by
  decide +kernel

private theorem asked_deep : ∃ q ∈ asked? (deepEngine 197),
    KeptSo (deepEngine 197) (deepBody 197) q.1 q.2 ∧
      outcome .partly q.2 = .ok ⟨"ok".toList, none⟩ ∧ 
      outcome .full q.2 = .ok ⟨[], some Lua.Chunk.overflow⟩ := by
  decide +kernel

end Stencil.Engine
