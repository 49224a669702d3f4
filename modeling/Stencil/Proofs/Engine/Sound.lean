import Stencil.Proofs.Engine.Compiling
import Stencil.Proofs.Engine.Moments
/-!
# What holds at every moment

The templates under render are the ones that say so, each with the options its render began with, and
every history is that of its entries. Renders that wait can go on from whatever nested ones leave.
-/
namespace Stencil.Engine

open Relation Run

variable {I : Interpreter} {limit : Nat} {e e' : Engine I} {id : TemplateId} {task : Task}
  {tasks : List Task} {w : Waiting I} {m m' : Moment I}

/-! ## The engine -/

/-- An engine in which renders are under way. -/
structure Consistent (tasks : List Task) (e : Engine I) : Prop where
  nodup : (tasks.map (·.id)).Nodup
  rendering : ∀ id, (e.template id).rendering = true ↔ id ∈ tasks.map (·.id)
  options : ∀ task ∈ tasks, (e.template task.id).options = task.options
  valid : e.Valid
  tallied : ∀ id, (e.template id).history.Tallied

theorem Consistent.rendering_of_mem (h : Consistent tasks e) (hmem : task ∈ tasks) :
    (e.template task.id).rendering = true :=
  (h.rendering _).mpr (List.mem_map_of_mem hmem)

theorem Consistent.not_mem_of_idle (h : Consistent tasks e)
    (hidle : (e.template id).rendering = false) : id ∉ tasks.map (·.id) :=
  fun hmem => Bool.false_ne_true (hidle ▸ (h.rendering id).mpr hmem)

private theorem Consistent.ne_head {task' : Task} (h : Consistent (task :: tasks) e)
    (hmem : task' ∈ tasks) : task'.id ≠ task.id := by
  intro heq
  have hnot : task.id ∉ tasks.map (·.id) := (List.nodup_cons.mp h.nodup).1
  rw [← heq] at hnot
  exact hnot (List.mem_map_of_mem hmem)

theorem Consistent.idle (h : Consistent [] e) (id : TemplateId) :
    (e.template id).rendering = false := by
  rw [← Bool.not_eq_true, h.rendering]
  exact List.not_mem_nil

theorem Consistent.beside (h : Consistent tasks e) (hb : Beside e e') : Consistent tasks e' where
  nodup := h.nodup
  rendering id := by rw [(hb.template id).rendering, h.rendering]
  options task hmem := by
    obtain ⟨children, warned, hsame⟩ := (hb.template task.id).untouched (h.rendering_of_mem hmem)
    rw [hsame, ← h.options task hmem]
  valid := hb.valid h.valid
  tallied id := (hb.template id).tallied (h.tallied id)

theorem grown_own (h : Own task e e') : Grown e e' := grown_of_eq h.length h.entries h.alive

private theorem fields_own (h : Own task e e') (i : TemplateId) :
    (e'.template i).rendering = (e.template i).rendering ∧
      (e'.template i).options = (e.template i).options ∧
      ((e.template i).history.Tallied → (e'.template i).history.Tallied) := by
  by_cases hi : i = task.id
  · subst hi
    obtain ⟨program, lastFull, children, warned, hsame⟩ := h.self
    rw [hsame]
    exact ⟨rfl, rfl, fun ht => ⟨ht.total, ht.count, ht.last⟩⟩
  · rw [h.others i hi]
    exact ⟨rfl, rfl, fun ht => ht⟩

theorem Consistent.own (h : Consistent tasks e) (hown : Own task e e') : Consistent tasks e' where
  nodup := h.nodup
  rendering id := by rw [(fields_own hown id).1, h.rendering]
  options task hmem := by rw [(fields_own hown _).2.1, h.options task hmem]
  valid := (grown_own hown).valid h.valid
  tallied id := (fields_own hown id).2.2 (h.tallied id)

theorem Consistent.enter (h : Consistent tasks e) (again : Bool) (patch : Patch)
    (hid : id < e.templates.length) (hidle : (e.template id).rendering = false) :
    Consistent ((enter again id patch e).1 :: tasks) (enter again id patch e).2 where
  nodup := by
    rw [List.map_cons, enter_id]
    exact List.nodup_cons.mpr ⟨h.not_mem_of_idle hidle, h.nodup⟩
  rendering i := by
    rw [List.map_cons, enter_id, List.mem_cons, ← h.rendering]
    by_cases hi : i = id
    · subst hi
      simp [template_enter_self hid]
    · simp [template_enter_of_ne hi, hi]
  options task hmem := by
    rcases List.mem_cons.mp hmem with rfl | hmem
    · rw [enter_id, template_enter_self hid, enter_options again patch hid]
    · have hne : task.id ≠ id := fun heq =>
        h.not_mem_of_idle hidle (heq ▸ List.mem_map_of_mem hmem)
      rw [template_enter_of_ne hne, h.options task hmem]
  valid := grown_enter.valid h.valid
  tallied i := by
    by_cases hi : i = id
    · subst hi
      rw [template_enter_self hid]
      exact h.tallied i
    · rw [template_enter_of_ne hi]
      exact h.tallied i

private theorem fields_ended (task : Task) (answer : Except Error Execution) (now : Nat) (t : Template I) :
    (task.ended answer now t).rendering = false ∧
      (t.history.Tallied → (task.ended answer now t).history.Tallied) := by
  unfold Task.ended
  split
  · exact ⟨rfl, fun ht => ht⟩
  · exact ⟨rfl, fun ht => ht.record ..⟩

theorem Consistent.finish {answer : Except Error Execution × Collector}
    (h : Consistent (task :: tasks) e) : Consistent tasks (finish task e answer).2 := by
  have hlt : task.id < e.templates.length :=
    lt_length_of_rendering (h.rendering_of_mem List.mem_cons_self)
  obtain ⟨hnot, hnodup⟩ := List.nodup_cons.mp h.nodup
  have hended := fields_ended task answer.1 e.clock.now (e.template task.id)
  rw [← template_finish_self hlt] at hended
  refine ⟨hnodup, fun i => ?_, fun task' hmem => ?_, grown_finish.valid h.valid, fun i => ?_⟩
  · by_cases hi : i = task.id
    · subst hi
      simp only [hended.1, Bool.false_eq_true, false_iff]
      exact hnot
    · rw [template_finish_of_ne hi, h.rendering, List.map_cons, List.mem_cons]
      simp [hi]
  · rw [template_finish_of_ne (h.ne_head hmem), h.options task' (List.mem_cons_of_mem _ hmem)]
  · by_cases hi : i = task.id
    · subst hi
      exact hended.2 (h.tallied _)
    · rw [template_finish_of_ne hi]
      exact h.tallied i

/-! ## What waits -/

/-- The work of a render that began at the state comes to what it should, whatever nested renders
do. -/
def Works (s : I.State) (task : Task) (run : Work I) : Prop :=
  run.Safe (Held task.id) (Own task) fun e answer => Produced s task (e.template task.id) answer.1

/-- A render that waits can go on from the engine, and from what nested renders still make of it. -/
def Waiting.Ready (s : I.State) (w : Waiting I) (e : Engine I) : Prop :=
  ∀ e' reply, Held w.task.id e e' →
    Own w.task e' (w.next e' reply).state ∧ Works s w.task (w.next e' reply)

theorem Waiting.Ready.held {s : I.State} (h : w.Ready s e) (hheld : Held w.task.id e e') :
    w.Ready s e' :=
  fun e'' reply hheld' => h e'' reply (Template.Untouched.trans hheld hheld')

theorem held_of_eq (h : e'.template id = e.template id) : Held id e e' := by
  rw [Held, h]
  exact Template.Untouched.refl _

/-- The render began in the engine, inside the ones that wait, and the session has come from there. -/
def Begun (limit : Nat) (ws : List (Waiting I)) (task : Task) (e : Engine I) (m : Moment I) : Prop :=
  ∃ again patch, Reachable limit ⟨ws, .call again task.id patch e⟩ ∧
    (enter again task.id patch e).1 = task ∧
    ReflTransGen (Step limit) ⟨ws, .call again task.id patch e⟩ m

private theorem Begun.step {ws : List (Waiting I)} (h : Begun limit ws task e m)
    (hstep : Step limit m m') : Begun limit ws task e m' := by
  obtain ⟨again, patch, hreachable, htask, hsteps⟩ := h
  exact ⟨again, patch, hreachable, htask, hsteps.tail hstep⟩

/-! ## The moment -/

/-- A call is of an idle template there is, and work comes to what it should. -/
def Activity.Sound (limit : Nat) (ws : List (Waiting I)) : Activity I → Prop
  | .call again id patch e =>
      id < e.templates.length ∧ (e.template id).rendering = false ∧ (again = true → patch = {})
  | .work task run =>
      ∃ e₀, Begun limit ws task e₀ ⟨ws, .work task run⟩ ∧ Works e₀.shared task run
  | .back _ _ => True

/-- Each of the renders that wait can go on. -/
def Resumes (limit : Nat) (m : Moment I) : Prop :=
  ∀ w ws, w :: ws <:+ m.waiting → ∃ e₀, Begun limit ws w.task e₀ m ∧ w.Ready e₀.shared m.engine

structure Sound (limit : Nat) (m : Moment I) : Prop where
  consistent : Consistent m.tasks m.engine
  resumes : Resumes limit m
  activity : m.activity.Sound limit m.waiting

private theorem mem_of_suffix {w : Waiting I} {ws ws' : List (Waiting I)} (h : w :: ws <:+ ws') :
    w ∈ ws' :=
  h.subset List.mem_cons_self

private theorem Resumes.step (h : Resumes limit m) (hstep : Step limit m m')
    (hwaiting : m'.waiting <:+ m.waiting)
    (hheld : ∀ w ∈ m'.waiting, Held w.task.id m.engine m'.engine) : Resumes limit m' := by
  intro w ws hws
  obtain ⟨e₀, hbegun, hready⟩ := h w ws (hws.trans hwaiting)
  exact ⟨e₀, hbegun.step hstep, hready.held (hheld w (mem_of_suffix hws))⟩

private theorem held_of_ne {ws : List (Waiting I)} (hc : Consistent (task :: ws.map (·.task)) e)
    {e₁ e₂ : Engine I} (hsame : ∀ i ≠ task.id, e₂.template i = e₁.template i) :
    ∀ w ∈ ws, Held w.task.id e₁ e₂ :=
  fun _ hw => held_of_eq (hsame _ (hc.ne_head (List.mem_map_of_mem hw)))

private theorem held_beside (hc : Consistent tasks e) (hmem : task ∈ tasks) (hb : Beside e e') :
    Held task.id e e' :=
  (hb.template _).untouched (hc.rendering_of_mem hmem)

theorem beside_of_resolve {parent : TemplateId} {request : Request} {r : Resolution}
    (h : resolve parent request e = (r, e')) : Beside e e' := by
  have hb := beside_resolve parent request e
  rwa [h] at hb

theorem isSome_of_chooseType {t : Template I} {again changed : Bool} {now : Nat}
    (h : chooseType t again changed now ≠ .full) : t.program.isSome = true := by
  unfold chooseType RenderType.choose at h
  by_contra hnone
  rw [Bool.not_eq_true] at hnone
  simp [hnone] at h

/-- The renders begun at a call come to what they should. -/
theorem works_enter (again : Bool) (patch : Patch) (hid : id < e.templates.length)
    (htask : (enter again id patch e).1 = task) :
    SafeFrom (Held task.id) (Own task)
      (fun e' answer => Produced e.shared task (e'.template task.id) answer.1)
      (enter again id patch e).2 (produce task (enter again id patch e).2) := by
  subst htask
  refine safe_produce rfl ?_ fun htype => ?_
  · rw [enter_id, template_enter_self hid]
  · rw [enter_type again patch hid] at htype
    rw [enter_id, template_enter_self hid]
    exact isSome_of_chooseType htype

theorem Step.sound (h : Step limit m m') (hm : Reachable limit m) (hs : Sound limit m) :
    Sound limit m' := by
  have hstep := h
  obtain ⟨hc, hresumes, hactivity⟩ := hs
  cases h with
  | deep => exact ⟨hc, hresumes.step hstep (List.suffix_refl _) fun _ _ => held_of_eq rfl, trivial⟩
  | busy => exact ⟨hc, hresumes.step hstep (List.suffix_refl _) fun _ _ => held_of_eq rfl, trivial⟩
  | closed =>
      exact ⟨hc, hresumes.step hstep (List.suffix_refl _) fun _ _ => held_of_eq rfl, trivial⟩
  | @begins ws again id patch e hlt hidle halive =>
      obtain ⟨hid, -, -⟩ := hactivity
      have hentered := hc.enter again patch hid hidle
      have hworks := works_enter again patch hid rfl
      have hbegun : Begun limit ws (enter again id patch e).1 e ⟨ws, .call again id patch e⟩ :=
        ⟨again, patch, by rw [enter_id]; exact hm, by rw [enter_id], by rw [enter_id]⟩
      refine ⟨hentered.own hworks.stretch, hresumes.step hstep (List.suffix_refl _) fun w hw => ?_,
        e, hbegun.step hstep, hworks.safe⟩
      have hne := hentered.ne_head (List.mem_map_of_mem hw)
      rw [enter_id] at hne
      exact Template.Untouched.trans (held_of_eq (template_enter_of_ne hne))
        (held_of_ne hentered hworks.stretch.others w hw)
  | @answers ws task e request next reply e' hresolve =>
      have hb : Beside e e' := beside_of_resolve hresolve
      obtain ⟨e₀, hbegun, hworks⟩ := hactivity
      obtain ⟨hown, hworks'⟩ := hworks e' (reply.mapError Error.message)
        (held_beside hc List.mem_cons_self hb)
      refine ⟨(hc.beside hb).own hown, hresumes.step hstep (List.suffix_refl _) fun w hw => ?_,
        e₀, hbegun.step hstep, hworks'⟩
      have hmem : w.task ∈ task :: ws.map (·.task) := List.mem_cons_of_mem _ (List.mem_map_of_mem hw)
      exact Template.Untouched.trans (held_beside hc hmem hb) (held_of_ne hc hown.others w hw)
  | @descends ws task e request next child patch e' hresolve =>
      have hb : Beside e e' := beside_of_resolve hresolve
      have hc' := hc.beside hb
      obtain ⟨hidle, content, -, hfound⟩ := resolve_eq_render hresolve
      refine ⟨hc', fun w ws' hws => ?_, hc'.valid.find? hfound, hidle, nofun⟩
      rcases List.suffix_cons_iff.mp hws with heq | hsuffix
      · obtain ⟨rfl, rfl⟩ := List.cons.inj heq
        obtain ⟨e₀, hbegun, hworks⟩ := hactivity
        have hready : Waiting.Ready e₀.shared ⟨task, next⟩ e := hworks
        exact ⟨e₀, hbegun.step hstep, hready.held (held_beside hc List.mem_cons_self hb)⟩
      · obtain ⟨e₀, hbegun, hready⟩ := hresumes w ws' hsuffix
        have hmem : w.task ∈ task :: ws.map (·.task) :=
          List.mem_cons_of_mem _ (List.mem_map_of_mem (mem_of_suffix hsuffix))
        exact ⟨e₀, hbegun.step hstep, hready.held (held_beside hc hmem hb)⟩
  | ends =>
      exact ⟨hc.finish, hresumes.step hstep (List.suffix_refl _)
        (held_of_ne hc fun i hi => template_finish_of_ne hi), trivial⟩
  | @returns w ws result e =>
      obtain ⟨e₀, hbegun, hready⟩ := hresumes w ws (List.suffix_refl _)
      obtain ⟨hown, hworks⟩ := hready e (result.mapError Error.message) (held_of_eq rfl)
      exact ⟨hc.own hown, hresumes.step hstep (List.suffix_cons _ _) (held_of_ne hc hown.others),
        e₀, hbegun.step hstep, hworks⟩

/-! ## Operations -/

private theorem Consistent.of_templates (h : Consistent tasks e) (e' : Engine I)
    (htemplates : e'.templates = e.templates) (hvalid : e'.Valid) : Consistent tasks e' := by
  have hsame (i : TemplateId) : e'.template i = e.template i := by
    rw [Engine.template, htemplates, Engine.template]
  refine ⟨h.nodup, fun i => ?_, fun task hmem => ?_, hvalid, fun i => ?_⟩ <;> rw [hsame]
  · exact h.rendering i
  · exact h.options task hmem
  · exact h.tallied i

private theorem Consistent.insert (h : Consistent [] e) (source : Source) (content : Text)
    (base : Options) (patch : Patch) (scope : Option Json) :
    Consistent [] (e.insert source content base patch scope).2 := by
  obtain ⟨options, created, hnew⟩ := exists_template_insert e source content base patch scope
  have hcases := template_insert_cases e source content base patch scope
  refine ⟨List.nodup_nil, fun i => ?_, by simp, valid_insert _ _ _ _ _ _ h.valid, fun i => ?_⟩
  · rcases hcases i with hi | rfl
    · rw [hi, h.rendering]
    · rw [hnew]
      simp
  · rcases hcases i with hi | rfl
    · rw [hi]
      exact h.tallied i
    · rw [hnew]
      exact History.tallied_new

private theorem Consistent.create (h : Consistent [] e) (source : Source) (patch : Patch)
    (scope : Option Json) : Consistent [] (create source patch scope e).2 := by
  unfold Engine.create
  split
  · exact h
  · split
    · exact h
    · exact h.insert ..

private theorem Consistent.register (h : Consistent [] e) (source : Source) (patch : Patch)
    (scope : Option Json) : Consistent [] (register source patch scope e).2 := by
  unfold Engine.register
  split
  · exact h
  · exact h.insert ..

private theorem resumes_nil {activity : Activity I} : Resumes limit ⟨[], activity⟩ :=
  fun _ _ hws => absurd (List.suffix_nil.mp hws) (List.cons_ne_nil _ _)

private theorem sound_back (h : Consistent [] e) (result : Except Error Text) :
    Sound limit ⟨[], .back result e⟩ :=
  ⟨h, resumes_nil, trivial⟩

theorem Operation.sound {activity : Activity I} (h : Operation e activity) (hc : Consistent [] e) :
    Sound limit ⟨[], activity⟩ := by
  cases h with
  | render patch hid => exact ⟨hc, resumes_nil, hid, hc.idle _, nofun⟩
  | update hid => exact ⟨hc, resumes_nil, hid, hc.idle _, fun _ => rfl⟩
  | create source patch scope => exact sound_back (hc.create source patch scope) _
  | register source patch scope => exact sound_back (hc.register source patch scope) _
  | remove f =>
      have hvalid : Engine.Valid (Engine.remove f e).2 :=
        fun entry hmem => hc.valid entry (List.mem_filter.mp hmem).1
      exact sound_back (hc.of_templates (Engine.remove f e).2 rfl hvalid) _
  | setScope id scope => exact sound_back (hc.beside (beside_setScope (hc.idle id) (some scope))) _
  | renderStatic id => exact sound_back (hc.beside (beside_renderStatic id e)) _
  | takeReported => exact sound_back (hc.of_templates e.takeReported.2 rfl hc.valid) _
  | close => exact sound_back (hc.of_templates e.close rfl hc.valid) _
  | world clock disk =>
      exact sound_back (hc.of_templates { e with clock, disk } rfl hc.valid) _

private theorem IsNew.consistent (h : IsNew e) : Consistent [] e := by
  have hdefault (i : TemplateId) : e.template i = default :=
    template_of_length_le (by simp [h.templates])
  refine ⟨List.nodup_nil, fun i => ?_, by simp, fun entry hmem => ?_, fun i => ?_⟩
  · rw [hdefault]
    simp [show (default : Template I).rendering = false from rfl]
  · simp [h.entries] at hmem
  · rw [hdefault]
    exact History.tallied_new

theorem Reachable.sound (h : Reachable limit m) : Sound limit m := by
  induction h with
  | start hnew => exact sound_back hnew.consistent _
  | goes hm hgoes ih =>
      cases hgoes with
      | step hstep => exact hstep.sound hm ih
      | operation hoperation => exact hoperation.sound ih.consistent

/-- A session does not lose templates, nor, while it goes on by itself, what the registry finds. -/
theorem Step.grown (h : Step limit m m') (hs : Sound limit m) : Grown m.engine m'.engine := by
  cases h with
  | deep => exact Grown.refl _
  | busy => exact Grown.refl _
  | closed => exact Grown.refl _
  | @begins ws again id patch e =>
      have hid : id < e.templates.length := hs.activity.1
      have hworks := works_enter again patch hid rfl
      have hentered : Grown e (enter again id patch e).2 := grown_enter
      exact hentered.trans (grown_own hworks.stretch)
  | @answers ws task e request next reply e' hresolve =>
      have hb := beside_of_resolve hresolve
      obtain ⟨e₀, -, hworks⟩ := hs.activity
      have hheld : Held task.id e e' := held_beside hs.consistent List.mem_cons_self hb
      exact hb.toGrown.trans (grown_own (hworks e' _ hheld).1)
  | descends hresolve => exact (beside_of_resolve hresolve).toGrown
  | ends => exact grown_finish
  | @returns w ws result e =>
      obtain ⟨e₀, -, hready⟩ := hs.resumes w ws (List.suffix_refl _)
      exact grown_own (hready e _ (held_of_eq rfl)).1

end Stencil.Engine
