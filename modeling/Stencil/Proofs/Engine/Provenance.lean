import Stencil.Proofs.Engine.Sound
/-!
# Where a program comes from

A program that a template holds while no full render of it is under way was compiled in its last full
render, which ended well, from the content and the delimiters that it still has. So the cheaper ways
of rendering never run what is stale, and a full render that failed is followed by a full one.
-/
namespace Stencil

variable {I : Interpreter}

namespace Template

/-- The program is still there, and what it was compiled from. -/
structure Kept (t t' : Template I) : Prop where
  program : t'.program = t.program
  lastFull : t'.history.lastFull = t.history.lastFull
  content : t'.content = t.content
  delimiters : t'.options.delimiters = t.options.delimiters
  unforced : t.options.forceFull = false → t'.options.forceFull = false

theorem Kept.refl (t : Template I) : Kept t t := ⟨rfl, rfl, rfl, rfl, id⟩

theorem Kept.trans {t t' t'' : Template I} (h : Kept t t') (h' : Kept t' t'') : Kept t t'' :=
  ⟨h'.program.trans h.program, h'.lastFull.trans h.lastFull, h'.content.trans h.content,
    h'.delimiters.trans h.delimiters, h'.unforced ∘ h.unforced⟩

theorem Carried.kept {t t' : Template I} (h : Carried t t') : Kept t t' :=
  ⟨h.program, h.lastFull, h.content, by rw [h.options], by rw [h.options]; exact id⟩

theorem Untouched.kept {t t' : Template I} (h : Untouched t t') : Kept t t' := by
  obtain ⟨children, warned, rfl⟩ := h
  exact ⟨rfl, rfl, rfl, rfl, id⟩

/-- A program there is was kept. -/
def Keeps (t t' : Template I) : Prop := t'.program = none ∨ Kept t t'

theorem Keeps.refl (t : Template I) : Keeps t t := .inr (Kept.refl t)

theorem Keeps.trans {t t' t'' : Template I} (h : Keeps t t') (h' : Keeps t' t'') : Keeps t t'' := by
  rcases h' with hnone | hkept
  · exact .inl hnone
  · exact h.imp (fun hnone => hkept.program.trans hnone) (·.trans hkept)

theorem Beside.keeps {t t' : Template I} (h : Beside t t') : Keeps t t' := h.carried.imp_right Carried.kept

end Template

namespace Engine

open Relation Template

variable {limit : Nat} {e e' : Engine I} {id : TemplateId} {task : Task} {m m' : Moment I}
  {again : Bool} {patch : Patch}

/-! ## What keeps a program -/

theorem patchedOptions_empty (id : TemplateId) (e : Engine I) :
    patchedOptions id {} e = (e.template id).options := rfl

/-- The last full render is younger than the time to live of a tier, which is not zero. -/
def Fresh (h : History) (o : Options) (now : Nat) (type : RenderType) : Prop :=
  ∃ elapsed, h.sinceFull? now = some elapsed ∧
    match type with
    | .fixed => 0 < o.fullTtl ∧ elapsed < o.fullTtl * nanosPerMilli
    | .partly => 0 < o.partialTtl ∧ elapsed < o.partialTtl * nanosPerMilli
    | .full => True

private theorem pos_of_lt_mul {a b c : Nat} (h : a < b * c) : 0 < b := by
  refine Nat.pos_of_ne_zero fun hzero => ?_
  rw [hzero, Nat.zero_mul] at h
  exact absurd h (Nat.not_lt_zero a)

/-- What the tiers other than the full one take for granted. -/
theorem of_choose_ne_full {h : History} {compiled changed : Bool} {o : Options} {now : Nat}
    (hne : RenderType.choose h compiled o changed now ≠ .full) :
    o.forceFull = false ∧ changed = false ∧
      Fresh h o now (RenderType.choose h compiled o changed now) := by
  generalize htype : RenderType.choose h compiled o changed now = type at hne ⊢
  unfold RenderType.choose at htype
  split at htype
  · exact absurd htype.symm hne
  · rename_i hserves
    simp only [Bool.or_eq_true, Bool.not_eq_true', not_or, Bool.not_eq_true, Bool.not_eq_false]
      at hserves
    obtain ⟨⟨hforce, hchanged⟩, -⟩ := hserves
    refine ⟨hforce, hchanged, ?_⟩
    split at htype
    · exact absurd htype.symm hne
    · rename_i elapsed hsince
      split at htype
      · subst htype
        exact ⟨elapsed, hsince, pos_of_lt_mul ‹_›, ‹_›⟩
      · split at htype
        · subst htype
          exact ⟨elapsed, hsince, pos_of_lt_mul ‹_›, ‹_›⟩
        · exact absurd htype.symm hne

theorem chooseType_cases (t : Template I) (again changed : Bool) (now : Nat) :
    again = true ∧ t.program.isSome = true ∧ chooseType t again changed now = .partly ∨
      chooseType t again changed now =
        RenderType.choose t.history t.program.isSome t.options changed now := by
  unfold chooseType
  split
  · rename_i hagain
    rw [Bool.and_eq_true] at hagain
    exact .inl ⟨hagain.1, hagain.2, rfl⟩
  · exact .inr rfl

/-- To begin a render that is not from source keeps the program. -/
private theorem kept_enter (patch : Patch) (hid : id < e.templates.length) (hpatch : again = true → patch = {})
    (htype : (enter again id patch e).1.type ≠ .full) :
    Kept (e.template id) ((enter again id patch e).2.template id) := by
  rw [template_enter_self hid]
  rw [enter_type _ _ hid] at htype
  rcases chooseType_cases _ again _ _ with ⟨hagain, -, -⟩ | hchoose
  · rw [hpatch hagain, patchedOptions_empty]
    exact ⟨rfl, rfl, rfl, rfl, fun hforce => hforce⟩
  · rw [hchoose] at htype
    obtain ⟨hforce, hchanged, -⟩ := of_choose_ne_full htype
    exact ⟨rfl, rfl, rfl, by simpa using hchanged, fun _ => hforce⟩

private theorem kept_own (id : TemplateId) (h : Own task e e') (htype : task.id = id → task.type ≠ .full) :
    Kept (e.template id) (e'.template id) := by
  by_cases hid : id = task.id
  · subst hid
    exact (h.kept (htype rfl)).kept
  · rw [h.others id hid]
    exact Kept.refl _

private theorem kept_ended {answer : Except Error Execution} {now : Nat} (htype : task.type ≠ .full)
    (t : Template I) : Kept t (task.ended answer now t) := by
  have hrelease : Kept t (task.release t) := by
    refine ⟨rfl, rfl, rfl, ?_, fun hforce => ?_⟩ <;> unfold Task.release <;> dsimp only <;> split
    · rfl
    · rfl
    · rfl
    · exact hforce
  unfold Task.ended
  split
  · exact hrelease
  · exact hrelease.trans ⟨rfl, if_neg htype, rfl, rfl, id⟩

private theorem kept_finish {answer : Except Error Execution × Collector}
    (hlt : task.id < e.templates.length) (htype : task.id = id → task.type ≠ .full) :
    Kept (e.template id) ((finish task e answer).2.template id) := by
  by_cases hid : id = task.id
  · subst hid
    rw [template_finish_self hlt]
    exact kept_ended (htype rfl) _
  · rw [template_finish_of_ne hid]
    exact Kept.refl _

private theorem keeps_insert (source : Source) (content : Text) (base : Options) (patch : Patch)
    (scope : Option Json) :
    Keeps (e.template id) ((e.insert source content base patch scope).2.template id) := by
  rcases template_insert_cases e source content base patch scope id with hsame | rfl
  · rw [hsame]
    exact Keeps.refl _
  · obtain ⟨options, created, hnew⟩ := exists_template_insert e source content base patch scope
    rw [hnew]
    exact .inl rfl

private theorem Operation.keeps {activity : Activity I} (h : Operation e activity)
    (hidle : ∀ i, (e.template i).rendering = false) :
    Keeps (e.template id) ((Moment.engine ⟨[], activity⟩).template id) := by
  cases h with
  | create source patch scope =>
      simp only [Moment.engine]
      unfold Engine.create
      split
      · exact Keeps.refl _
      · split
        · exact Keeps.refl _
        · exact keeps_insert _ _ _ _ _
  | register source patch scope =>
      simp only [Moment.engine]
      unfold Engine.register
      split
      · exact Keeps.refl _
      · exact keeps_insert _ _ _ _ _
  | setScope i scope => exact ((beside_setScope (hidle i) (some scope)).template id).keeps
  | renderStatic i => exact ((beside_renderStatic i e).template id).keeps
  | _ => exact Keeps.refl _

/-- A session keeps the program of a template unless a full render of it is begun or ends. -/
theorem Goes.keeps (h : Goes limit m m') (hs : Sound limit m)
    (hbegun : ∀ task ∈ m'.tasks, task.id = id → task.type ≠ .full)
    (hends : ∀ task ∈ m.tasks, task.id = id → task.type ≠ .full) :
    Keeps (m.engine.template id) (m'.engine.template id) := by
  obtain ⟨hc, hresumes, hactivity⟩ := hs
  cases h with
  | operation hoperation => exact hoperation.keeps hc.idle
  | step h =>
      cases h with
      | deep => exact Keeps.refl _
      | busy => exact Keeps.refl _
      | closed => exact Keeps.refl _
      | @begins ws again i patch e hlt hidle halive =>
          obtain ⟨hi, -, hpatch⟩ := hactivity
          have hworks := works_enter again patch hi rfl
          have hown := kept_own id hworks.stretch (hbegun _ List.mem_cons_self)
          by_cases hid : id = i
          · subst hid
            have htype := hbegun _ List.mem_cons_self enter_id
            exact .inr ((kept_enter _ hi hpatch htype).trans hown)
          · rw [template_enter_of_ne hid] at hown
            exact .inr hown
      | @answers ws task e request next reply e' hresolve =>
          have hb := beside_of_resolve hresolve
          have hheld : Held task.id e e' :=
            (hb.template _).untouched (hc.rendering_of_mem List.mem_cons_self)
          obtain ⟨e₀, -, hworks⟩ := hactivity
          have hown := (hworks e' (reply.mapError Error.message) hheld).1
          exact (hb.template id).keeps.trans (.inr (kept_own id hown (hends _ List.mem_cons_self)))
      | descends hresolve => exact ((beside_of_resolve hresolve).template id).keeps
      | ends =>
          exact .inr (kept_finish (lt_length_of_rendering (hc.rendering_of_mem List.mem_cons_self))
            (hends _ List.mem_cons_self))
      | @returns w ws result e =>
          obtain ⟨e₀, -, hready⟩ := hresumes w ws (List.suffix_refl _)
          have hown := (hready e (result.mapError Error.message) (held_of_eq rfl)).1
          exact .inr (kept_own id hown (hends _ List.mem_cons_self))

/-! ## What a program was compiled in -/

/-- The program of a template is what its last full render compiled from the body of its content. That
render began in an engine before, and the content and the delimiters are still as they were there. -/
structure Compilation (limit : Nat) (m : Moment I) (id : TemplateId) (p : I.Program) (e₀ : Engine I)
    (task : Task) (body : Text) : Prop where
  program : (m.engine.template id).program = some p
  place : task.id = id
  full : task.type = .full
  started : task.started = e₀.clock.now
  lastFull : (m.engine.template id).history.lastFull = some task.started
  source : bodyOf? (m.engine.template id).options.delimiters (m.engine.template id).content = some body
  compiled : CompiledFrom I e₀.shared task.label body p
  past : ∃ ws e answer, Begun limit ws task e₀ ⟨ws, .work task (.done e answer)⟩ ∧
    Succeeds answer.1 ∧ (e.template id).program = some p ∧
    ReflTransGen (Goes limit) ⟨ws, .work task (.done e answer)⟩ m

/-- The program has such an origin, and no full render is asked for. -/
def Current (limit : Nat) (m : Moment I) (id : TemplateId) (p : I.Program) : Prop :=
  (m.engine.template id).options.forceFull = false ∧
    ∃ e₀ task body, Compilation limit m id p e₀ task body

theorem Compilation.goes {p : I.Program} {e₀ : Engine I} {body : Text}
    (h : Compilation limit m id p e₀ task body) (hgoes : Goes limit m m')
    (hkept : Kept (m.engine.template id) (m'.engine.template id)) :
    Compilation limit m' id p e₀ task body := by
  obtain ⟨ws, e, answer, hbegun, hsucceeds, hp, hpast⟩ := h.past
  refine ⟨?_, h.place, h.full, h.started, ?_, ?_, h.compiled, ws, e, answer, hbegun, hsucceeds, hp,
    hpast.tail hgoes⟩
  · rw [hkept.program, h.program]
  · rw [hkept.lastFull, h.lastFull]
  · rw [hkept.delimiters, hkept.content, h.source]

private theorem Current.goes {p : I.Program} (h : Current limit m id p) (hgoes : Goes limit m m')
    (hkept : Kept (m.engine.template id) (m'.engine.template id)) : Current limit m' id p := by
  obtain ⟨hforce, e₀, task, body, hc⟩ := h
  exact ⟨hkept.unforced hforce, e₀, task, body, hc.goes hgoes hkept⟩

/-- Every program is current, unless a full render of its template is under way. -/
def Traced (limit : Nat) (m : Moment I) : Prop :=
  ∀ id p, (∀ task ∈ m.tasks, task.id = id → task.type ≠ .full) →
    (m.engine.template id).program = some p → Current limit m id p

private theorem release_fields {t : Template I} (hoptions : t.options = task.options) :
    (task.release t).options.delimiters = t.options.delimiters ∧
      (task.release t).options.forceFull = false := by
  unfold Task.release
  dsimp only
  split
  · exact ⟨rfl, rfl⟩
  · rename_i hforce
    exact ⟨rfl, by simpa [hoptions] using hforce⟩

private theorem text?_of_succeeds (task : Task) {answer : Except Error Execution} (h : Succeeds answer) :
    ∃ raw, task.text? answer = .ok raw := by
  cases answer with
  | error error => exact h.elim
  | ok ended => exact ⟨ended.output, by rw [Task.text?, show ended.error = none from h]⟩

private theorem program_finish (answer : Except Error Execution × Collector)
    (hlt : task.id < e.templates.length) :
    ((finish task e answer).2.template task.id).program = (e.template task.id).program := by
  rw [template_finish_self hlt, Task.ended]
  split <;> rfl

/-- What a full render leaves for its template when it ends. -/
theorem compilation_ends {ws : List (Waiting I)} {e e₀ : Engine I}
    {answer : Except Error Execution × Collector} {p : I.Program}
    (hs : Sound limit ⟨ws, .work task (.done e answer)⟩)
    (hbegun : Begun limit ws task e₀ ⟨ws, .work task (.done e answer)⟩)
    (hproduced : Produced e₀.shared task (e.template task.id) answer.1) (htype : task.type = .full)
    (hp : ((finish task e answer).2.template task.id).program = some p) :
    ((finish task e answer).2.template task.id).options.forceFull = false ∧
      ∃ body, Compilation limit ⟨ws, .back (finish task e answer).1 (finish task e answer).2⟩ task.id p
        e₀ task body := by
  have hlt : task.id < e.templates.length :=
    lt_length_of_rendering (hs.consistent.rendering_of_mem List.mem_cons_self)
  have hoptions : (e.template task.id).options = task.options :=
    hs.consistent.options task List.mem_cons_self
  have hfromSource := hproduced.full htype
  have hkeeps := hp
  rw [program_finish answer hlt] at hp
  -- a render that went wrong leaves no program
  have hsucceeds : Succeeds answer.1 := by
    by_contra hfails
    rw [hfromSource.none hfails] at hp
    cases hp
  obtain ⟨body, program, hbody, hcompiled, hprogram⟩ := hfromSource.program hsucceeds
  obtain rfl : program = p := Option.some.inj (hprogram.symm.trans hp)
  obtain ⟨raw, htext⟩ := text?_of_succeeds task hsucceeds
  have hended : (finish task e answer).2.template task.id =
      task.record raw e.clock.now (task.release (e.template task.id)) := by
    rw [template_finish_self hlt, Task.ended, htext]
  obtain ⟨hdelimiters, hforce⟩ := release_fields hoptions
  have hstarted : task.started = e₀.clock.now := by
    obtain ⟨again, patch, -, htask, -⟩ := hbegun
    rw [← htask, enter_started]
  refine ⟨hended ▸ hforce, body, hkeeps, rfl, htype, hstarted, ?_, ?_, hcompiled,
    ws, e, answer, hbegun, hsucceeds, hp, .single (.step .ends)⟩ <;> simp only [Moment.engine, hended]
  · simp [Task.record, History.record, htype]
  · rw [← hoptions] at hbody
    rw [show (task.record raw e.clock.now (task.release (e.template task.id))).options.delimiters =
      (e.template task.id).options.delimiters from hdelimiters]
    exact hbody

private theorem Goes.tasks_cases (h : Goes limit m m') :
    (∀ task ∈ m.tasks, task ∈ m'.tasks) ∨
      ∃ ws task e answer, m = ⟨ws, .work task (.done e answer)⟩ ∧
        m' = ⟨ws, .back (finish task e answer).1 (finish task e answer).2⟩ := by
  cases h with
  | operation => exact .inl fun _ hmem => absurd hmem List.not_mem_nil
  | step h =>
      cases h with
      | ends => exact .inr ⟨_, _, _, _, rfl, rfl⟩
      | begins => exact .inl fun _ hmem => List.mem_cons_of_mem _ hmem
      | _ => exact .inl fun _ hmem => hmem

private theorem current_goes (h : Goes limit m m') (hs : Sound limit m) (ht : Traced limit m)
    {p : I.Program}
    (hfull : ∀ task ∈ m'.tasks, task.id = id → task.type ≠ .full)
    (hp : (m'.engine.template id).program = some p) : Current limit m' id p := by
  by_cases hbefore : ∀ task ∈ m.tasks, task.id = id → task.type ≠ .full
  · rcases h.keeps hs hfull hbefore with hnone | hkept
    · rw [hnone] at hp
      cases hp
    · exact (ht id p hbefore (hkept.program ▸ hp)).goes h hkept
  · -- only the end of a full render can be why there is none any longer
    obtain ⟨task, hmem, rfl, htype⟩ : ∃ task ∈ m.tasks, task.id = id ∧ task.type = .full := by
      simpa using hbefore
    rcases h.tasks_cases with hstays | ⟨ws, task', e, answer, rfl, rfl⟩
    · exact absurd htype (hfull task (hstays task hmem) rfl)
    · rcases List.mem_cons.mp hmem with rfl | hmem
      · obtain ⟨e₀, hbegun, hworks⟩ := hs.activity
        obtain ⟨hforce, hcompilation⟩ := compilation_ends hs hbegun hworks htype hp
        exact ⟨hforce, e₀, _, hcompilation⟩
      · exact absurd htype (hfull task hmem rfl)

theorem Reachable.traced (h : Reachable limit m) : Traced limit m := by
  induction h with
  | @start e hnew =>
      intro id p _ hp
      rw [Moment.engine, template_of_length_le (by simp [hnew.templates])] at hp
      cases hp
  | goes hm hgoes ih => exact fun id p hfull hp => current_goes hgoes hm.sound ih hfull hp

/-! ## What renders start from -/

/-- The session goes on from a moment that is no call of the template. -/
def GoesElsewhere (limit : Nat) (id : TemplateId) (m m' : Moment I) : Prop :=
  Goes limit m m' ∧ ∀ ws again patch e, m ≠ ⟨ws, .call again id patch e⟩

private theorem GoesElsewhere.not_mem_stack (h : GoesElsewhere limit id m m') (hid : id ∉ m.stack) :
    id ∉ m'.stack := by
  obtain ⟨hgoes, hcall⟩ := h
  cases hgoes with
  | operation hoperation => cases hoperation <;> exact List.not_mem_nil
  | step h =>
      cases h with
      | @begins ws again i patch e hlt hidle halive =>
          rw [Moment.stack_work, enter_id, List.mem_cons, not_or]
          rw [Moment.stack_call] at hid
          exact ⟨fun heq => hcall ws again patch e (heq ▸ rfl), hid⟩
      | ends => exact fun hmem => hid (List.mem_cons_of_mem _ hmem)
      | _ => exact hid

/-- Without a render a template does not come by a program. -/
private theorem GoesElsewhere.program_eq_none (h : GoesElsewhere limit id m m') (hs : Sound limit m)
    (hid : id ∉ m.stack) (hnone : (m.engine.template id).program = none) :
    (m'.engine.template id).program = none := by
  have hnot {m : Moment I} (hid : id ∉ m.stack) :
      ∀ task ∈ m.tasks, task.id = id → task.type ≠ .full :=
    fun task hmem heq => absurd (heq ▸ List.mem_map_of_mem hmem) hid
  rcases h.1.keeps hs (hnot (h.not_mem_stack hid)) (hnot hid) with hnone' | hkept
  · exact hnone'
  · rw [hkept.program, hnone]

private theorem elsewhere_program_eq_none (hpath : ReflTransGen (GoesElsewhere limit id) m m')
    (hm : Reachable limit m) (hid : id ∉ m.stack) (hnone : (m.engine.template id).program = none) :
    Reachable limit m' ∧ id ∉ m'.stack ∧ (m'.engine.template id).program = none := by
  induction hpath with
  | refl => exact ⟨hm, hid, hnone⟩
  | tail _ hgoes ih =>
      exact ⟨ih.1.goes hgoes.1, hgoes.not_mem_stack ih.2.1,
        hgoes.program_eq_none ih.1.sound ih.2.1 ih.2.2⟩

/-- A template without a program is rendered from source. -/
private theorem enter_full (hid : id < e.templates.length) (hnone : (e.template id).program = none) :
    (enter again id patch e).1.type = .full := by
  by_contra htype
  rw [enter_type _ _ hid] at htype
  have hsome := isSome_of_chooseType htype
  simp [hnone] at hsome

/-- After a full render that failed there is no program until the next one. -/
private theorem elsewhere_of_failed {ws ws' : List (Waiting I)}
    {answer : Except Error Execution × Collector}
    (hm : Reachable limit ⟨ws, .work task (.done e answer)⟩) (htype : task.type = .full)
    (hfails : ¬ Succeeds answer.1)
    (hpath : ReflTransGen (GoesElsewhere limit task.id) ⟨ws, .work task (.done e answer)⟩
      ⟨ws', .call again task.id patch e'⟩) :
    task.id < e'.templates.length ∧ (e'.template task.id).program = none := by
  rcases hpath.cases_head with heq | ⟨m₁, hfirst, hpath⟩
  · cases heq
  have hm₁ : m₁ = ⟨ws, .back (finish task e answer).1 (finish task e answer).2⟩ := by
    cases hfirst.1 with
    | step h => exact h.unique .ends
  subst hm₁
  have hs := hm.sound
  have hlt : task.id < e.templates.length :=
    lt_length_of_rendering (hs.consistent.rendering_of_mem List.mem_cons_self)
  obtain ⟨e₀, -, hworks⟩ := hs.activity
  have hproduced : Produced e₀.shared task (e.template task.id) answer.1 := hworks
  have hnone := (hproduced.full htype).none hfails
  rw [← program_finish answer hlt] at hnone
  have hnot : task.id ∉ Moment.stack ⟨ws, .back (finish task e answer).1 (finish task e answer).2⟩ :=
    (List.nodup_cons.mp hs.consistent.nodup).1
  obtain ⟨hm', -, hnone'⟩ := elsewhere_program_eq_none hpath (hm.goes hfirst.1) hnot hnone
  exact ⟨hm'.sound.activity.1, hnone'⟩

/-- A render that is not from source was not asked to be otherwise. Unless another run of the program
was asked for, the last full render is young enough. -/
private theorem enter_of_ne_full (hid : id < e.templates.length) (hpatch : again = true → patch = {})
    (htask : (enter again id patch e).1 = task) (htype : task.type ≠ .full)
    (hforce : (e.template id).options.forceFull = false) :
    task.options.delimiters = (e.template id).options.delimiters ∧ task.options.forceFull = false ∧
      (again = true ∧ task.type = .partly ∨
        Fresh (e.template id).history task.options task.started task.type) := by
  have hkept := kept_enter patch hid hpatch (htask ▸ htype)
  rw [template_enter_self hid, ← enter_options again patch hid, htask] at hkept
  refine ⟨hkept.delimiters, hkept.unforced hforce, ?_⟩
  have hchosen := enter_type again patch hid
  have hstarted : e.clock.now = task.started := by rw [← htask, enter_started]
  rw [← enter_options again patch hid, htask, hstarted] at hchosen
  rcases chooseType_cases _ again _ _ with ⟨hagain, -, hpartly⟩ | hchoose
  · exact .inl ⟨hagain, hchosen.trans hpartly⟩
  · rw [hchoose] at hchosen
    rw [hchosen] at htype ⊢
    exact .inr (of_choose_ne_full htype).2.2

/-- The program of a template that is not under render was compiled in its last full render, from what
it still has of content and delimiters, and it is not to be rendered from source. So a render that is
not from source has such a program, its delimiters did not change, it was not forced, and it comes
within the time to live of its tier, if it is no update. After a full render that failed, the next
render or update is from source. -/
theorem programs_current (h : Reachable limit m) :
    (∀ id p, (m.engine.template id).rendering = false →
      (m.engine.template id).program = some p → Current limit m id p) ∧
    (∀ ws again id patch e task, m = ⟨ws, .call again id patch e⟩ →
      (enter again id patch e).1 = task → task.type ≠ .full →
      (∃ p, (e.template id).program = some p ∧ Current limit m id p) ∧
        task.options.delimiters = (e.template id).options.delimiters ∧
        task.options.forceFull = false ∧
        (again = true ∧ task.type = .partly ∨
          Fresh (e.template id).history task.options task.started task.type)) ∧
    ∀ ws task e answer, m = ⟨ws, .work task (.done e answer)⟩ → task.type = .full →
      ¬ Succeeds answer.1 → ∀ ws' again patch e',
        ReflTransGen (GoesElsewhere limit task.id) m ⟨ws', .call again task.id patch e'⟩ →
        (enter again task.id patch e').1.type = .full := by
  have hs := h.sound
  have ht := h.traced
  have hcurrent (id : TemplateId) (p : I.Program) (hidle : (m.engine.template id).rendering = false)
      (hp : (m.engine.template id).program = some p) : Current limit m id p :=
    ht id p (fun task hmem heq => absurd (heq ▸ List.mem_map_of_mem hmem)
      (hs.consistent.not_mem_of_idle hidle)) hp
  refine ⟨hcurrent, fun ws again id patch e task hm htask htype => ?_,
    fun ws task e answer hm htype hfails ws' again patch e' hpath => ?_⟩
  · subst hm
    obtain ⟨hid, hidle, hpatch⟩ := hs.activity
    have hsome : (e.template id).program.isSome = true := by
      rw [← htask, enter_type again patch hid] at htype
      have hsome := isSome_of_chooseType htype
      exact hsome
    obtain ⟨p, hp⟩ := Option.isSome_iff_exists.mp hsome
    have hc := hcurrent id p hidle hp
    exact ⟨⟨p, hp, hc⟩, enter_of_ne_full hid hpatch htask htype hc.1⟩
  · subst hm
    obtain ⟨hid, hnone⟩ := elsewhere_of_failed h htype hfails hpath
    exact enter_full hid hnone

/-- A language whose programs emit their own text and go well. -/
abbrev Steady : Interpreter where
  State := Nat
  Program := Text
  initial := 0
  compile _ _ source := .ok source
  run p _ n := .done (n + 1) { output := p, error := none }

/-- The empty text there, rendered once. -/
def renderedOnce : Except Error Text × Engine Steady :=
  render 0 {} (register (.inline []) {} none {}).2

private theorem reachable_renderedOnce :
    Reachable maxDepth ⟨[], .back renderedOnce.1 renderedOnce.2⟩ :=
  ((Reachable.start ⟨rfl, rfl, rfl⟩).goes (.operation (.register _ _ _))).render {} (by decide)

private theorem program_renderedOnce : (renderedOnce.2.template 0).program = some [] := by
  decide +kernel

/-- It has a current program. -/
theorem programs_current_rendered :
    Reachable maxDepth ⟨[], .back renderedOnce.1 renderedOnce.2⟩ ∧
      Current maxDepth ⟨[], .back renderedOnce.1 renderedOnce.2⟩ 0 [] :=
  ⟨reachable_renderedOnce,
    (programs_current reachable_renderedOnce).1 0 [] (by decide +kernel) program_renderedOnce⟩

end Engine

end Stencil
