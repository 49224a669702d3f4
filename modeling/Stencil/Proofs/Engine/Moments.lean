import Stencil.Proofs.Engine.Runs
import Stencil.Proofs.Engine.Stages
import Mathlib.Logic.Relation
/-!
# The moments of a session

A session is what becomes of a new engine by its operations. It passes through moments: a render is
asked for, its work goes on or waits for a nested one, it returns. The templates under render at a
moment form a stack. A render, as a function, is the way of the session from its call to its return.
-/
namespace Stencil.Engine

open Relation

/-- The work of a render on its text. -/
abbrev Work (I : Interpreter) : Type := Run (Engine I) (Except Error Execution × Collector)

/-- A render that waits for a nested one, and how it goes on. -/
structure Waiting (I : Interpreter) where
  task : Task
  next : Engine I → Except String Text → Work I

/-- What is going on: a template is to be rendered, the text of one is being produced, or the last
call has come back. -/
inductive Activity (I : Interpreter) where
  | call (again : Bool) (id : TemplateId) (patch : Patch) (e : Engine I)
  | work (task : Task) (run : Work I)
  | back (result : Except Error Text) (e : Engine I)

/-- A moment of a session: what is going on, and the renders that wait for it, innermost first. -/
structure Moment (I : Interpreter) where
  waiting : List (Waiting I)
  activity : Activity I

variable {I : Interpreter}

namespace Moment

def engine (m : Moment I) : Engine I :=
  match m.activity with
  | .call _ _ _ e => e
  | .work _ run => run.state
  | .back _ e => e

/-- The renders that have begun and not ended, innermost first. -/
def tasks (m : Moment I) : List Task :=
  match m.activity with
  | .work task _ => task :: m.waiting.map (·.task)
  | _ => m.waiting.map (·.task)

def stack (m : Moment I) : List TemplateId := m.tasks.map (·.id)

@[simp] theorem stack_call (ws : List (Waiting I)) (again : Bool) (id : TemplateId) (patch : Patch)
    (e : Engine I) : stack ⟨ws, .call again id patch e⟩ = ws.map (·.task.id) := by
  simp [stack, tasks]

@[simp] theorem stack_work (ws : List (Waiting I)) (task : Task) (run : Work I) :
    stack ⟨ws, .work task run⟩ = task.id :: ws.map (·.task.id) := by
  simp [stack, tasks]

@[simp] theorem stack_back (ws : List (Waiting I)) (result : Except Error Text) (e : Engine I) :
    stack ⟨ws, .back result e⟩ = ws.map (·.task.id) := by
  simp [stack, tasks]

end Moment

/-- How a session goes on by itself, with renders nested to less than a limit. -/
inductive Step (limit : Nat) : Moment I → Moment I → Prop
  | deep {ws again id patch e} : limit ≤ ws.length →
      Step limit ⟨ws, .call again id patch e⟩
        ⟨ws, .back (.error (.execution (e.label id) tooDeep)) e⟩
  | busy {ws again id patch e} : ws.length < limit → (e.template id).rendering = true →
      Step limit ⟨ws, .call again id patch e⟩ ⟨ws, .back (.ok (e.template id).output) e⟩
  | closed {ws again id patch e} : ws.length < limit → (e.template id).rendering = false →
      e.alive = false →
      Step limit ⟨ws, .call again id patch e⟩ ⟨ws, .back (.error .registryDropped) e⟩
  | begins {ws again id patch e} : ws.length < limit → (e.template id).rendering = false →
      e.alive = true → Step limit ⟨ws, .call again id patch e⟩
        ⟨ws, .work (enter again id patch e).1
          (produce (enter again id patch e).1 (enter again id patch e).2)⟩
  | answers {ws task e request next reply e'} :
      resolve (requester (task.id :: ws.map (·.task.id)) request) request e = (.reply reply, e') →
      Step limit ⟨ws, .work task (.ask e request next)⟩
        ⟨ws, .work task (next e' (reply.mapError Error.message))⟩
  | descends {ws task e request next child patch e'} :
      resolve (requester (task.id :: ws.map (·.task.id)) request) request e =
        (.render child patch, e') →
      Step limit ⟨ws, .work task (.ask e request next)⟩
        ⟨⟨task, next⟩ :: ws, .call false child patch e'⟩
  | ends {ws task e answer} : Step limit ⟨ws, .work task (.done e answer)⟩
      ⟨ws, .back (finish task e answer).1 (finish task e answer).2⟩
  | returns {w ws result e} :
      Step limit ⟨w :: ws, .back result e⟩
        ⟨ws, .work w.task (w.next e (result.mapError Error.message))⟩

/-- What may be done with an engine while no template is being rendered. The world around it may
change at any time. -/
inductive Operation (e : Engine I) : Activity I → Prop
  | render {id : TemplateId} (patch : Patch) : id < e.templates.length →
      Operation e (.call false id patch e)
  | update {id : TemplateId} : id < e.templates.length → Operation e (.call true id {} e)
  | create (source : Source) (patch : Patch) (scope : Option Json) :
      Operation e (.back (.ok []) (create source patch scope e).2)
  | register (source : Source) (patch : Patch) (scope : Option Json) :
      Operation e (.back (.ok []) (register source patch scope e).2)
  | remove (f : Fingerprint) : Operation e (.back (.ok []) (remove f e).2)
  | setScope (id : TemplateId) (scope : Json) : Operation e (.back (.ok []) (e.setScope id scope))
  | renderStatic (id : TemplateId) : Operation e (.back (.ok []) (renderStatic id e).2)
  | takeReported : Operation e (.back (.ok []) e.takeReported.2)
  | close : Operation e (.back (.ok []) e.close)
  | world (clock : Clock) (disk : Disk) : Operation e (.back (.ok []) { e with clock, disk })

/-- How a session goes on, by itself or by an operation. -/
inductive Goes (limit : Nat) : Moment I → Moment I → Prop
  | step {m m' : Moment I} : Step limit m m' → Goes limit m m'
  | operation {e : Engine I} {result : Except Error Text} {activity : Activity I} :
      Operation e activity → Goes limit ⟨[], .back result e⟩ ⟨[], activity⟩

/-- An engine without templates. -/
structure IsNew (e : Engine I) : Prop where
  shared : e.shared = I.initial
  templates : e.templates = []
  entries : e.entries = []

inductive Reachable (limit : Nat) : Moment I → Prop
  | start {e : Engine I} : IsNew e → Reachable limit ⟨[], .back (.ok []) e⟩
  | goes {m m' : Moment I} : Reachable limit m → Goes limit m m' → Reachable limit m'

variable {limit : Nat} {ws : List (Waiting I)} {again : Bool} {id : TemplateId} {patch : Patch}
  {e : Engine I} {task : Task}

theorem Reachable.of_steps {m m' : Moment I} (h : Reachable limit m)
    (hsteps : ReflTransGen (Step limit) m m') : Reachable limit m' := by
  induction hsteps with
  | refl => exact h
  | tail _ hstep ih => exact ih.goes (.step hstep)

/-- The moment that follows, unless the session waits for an operation. -/
def next? (limit : Nat) : Moment I → Option (Moment I)
  | ⟨ws, .call again id patch e⟩ =>
    if limit ≤ ws.length then some ⟨ws, .back (.error (.execution (e.label id) tooDeep)) e⟩
    else if (e.template id).rendering then some ⟨ws, .back (.ok (e.template id).output) e⟩
    else if !e.alive then some ⟨ws, .back (.error .registryDropped) e⟩
    else
      let begun := enter again id patch e
      some ⟨ws, .work begun.1 (produce begun.1 begun.2)⟩
  | ⟨ws, .work task (.ask e request next)⟩ =>
    match resolve (requester (task.id :: ws.map (·.task.id)) request) request e with
    | (.reply reply, e) => some ⟨ws, .work task (next e (reply.mapError Error.message))⟩
    | (.render child patch, e) => some ⟨⟨task, next⟩ :: ws, .call false child patch e⟩
  | ⟨ws, .work task (.done e answer)⟩ =>
    let ended := finish task e answer
    some ⟨ws, .back ended.1 ended.2⟩
  | ⟨w :: ws, .back result e⟩ => some ⟨ws, .work w.task (w.next e (result.mapError Error.message))⟩
  | ⟨[], .back _ _⟩ => none

theorem Step.next? {m m' : Moment I} (h : Step limit m m') : next? limit m = some m' := by
  cases h with
  | deep hlimit => rw [Engine.next?, if_pos hlimit]
  | busy hlt hbusy => rw [Engine.next?, if_neg (Nat.not_le.mpr hlt), if_pos hbusy]
  | closed hlt hidle hclosed => simp [Engine.next?, Nat.not_le.mpr hlt, hidle, hclosed]
  | begins hlt hidle halive => simp [Engine.next?, Nat.not_le.mpr hlt, hidle, halive]
  | answers hresolve => rw [Engine.next?, hresolve]
  | descends hresolve => rw [Engine.next?, hresolve]
  | ends => rfl
  | returns => rfl

theorem step_of_next? {m m' : Moment I} (h : next? limit m = some m') : Step limit m m' := by
  unfold next? at h
  split at h
  · split at h
    · exact Option.some.inj h ▸ .deep ‹_›
    · rename_i hlimit
      have hlt := Nat.lt_of_not_le hlimit
      split at h
      · exact Option.some.inj h ▸ .busy hlt ‹_›
      · rename_i hbusy
        have hidle := (Bool.not_eq_true _).mp hbusy
        split at h
        · rename_i hclosed
          exact Option.some.inj h ▸ .closed hlt hidle (by simpa using hclosed)
        · rename_i halive
          exact Option.some.inj h ▸ .begins hlt hidle (by simpa using halive)
  · split at h
    · exact Option.some.inj h ▸ .answers ‹_›
    · exact Option.some.inj h ▸ .descends ‹_›
  · exact Option.some.inj h ▸ .ends
  · exact Option.some.inj h ▸ .returns
  · cases h

/-- The session goes on in one way only, unless it waits for an operation. -/
theorem Step.unique {m m' m'' : Moment I} (h : Step limit m m') (h' : Step limit m m'') : m' = m'' :=
  Option.some.inj (h.next?.symm.trans h'.next?)

/-! ## Renders as functions -/

/-- How the function that renders answers a request of a template inside others. -/
def answer (depth : Nat) (running : List TemplateId) (request : Request) (e : Engine I) :
    Except Error Text × Engine I :=
  match resolve (requester running request) request e with
  | (.reply reply, e) => (reply, e)
  | (.render child patch, e) => renderTo depth running false child patch e

theorem renderTo_succ (depth : Nat) (outer : List TemplateId) (again : Bool) (patch : Patch)
    (hidle : (e.template id).rendering = false) (halive : e.alive = true) : renderTo (depth + 1) outer again id patch e =
      let begun := enter again id patch e
      let driven := drive (answer depth (id :: outer)) (produce begun.1 begun.2)
      finish begun.1 driven.2 driven.1 := by
  simp only [renderTo, hidle, halive, Bool.not_true, Bool.false_eq_true, if_false]
  rfl

private theorem steps_drive {depth : Nat} (task : Task)
    (hcall : ∀ {ws : List (Waiting I)} {id : TemplateId} {patch : Patch} {e : Engine I},
      ws.length + depth = limit → ReflTransGen (Step limit) ⟨ws, .call false id patch e⟩
        ⟨ws, .back (renderTo depth (ws.map (·.task.id)) false id patch e).1
          (renderTo depth (ws.map (·.task.id)) false id patch e).2⟩)
    (hlimit : ws.length + 1 + depth = limit) (run : Work I) :
    ReflTransGen (Step limit) ⟨ws, .work task run⟩
      ⟨ws, .work task (.done (drive (answer depth (task.id :: ws.map (·.task.id))) run).2
        (drive (answer depth (task.id :: ws.map (·.task.id))) run).1)⟩ := by
  induction run with
  | done e result => exact .refl
  | ask e request next ih =>
      rw [drive, answer]
      cases hresolve : resolve (requester (task.id :: ws.map (·.task.id)) request) request e with
      | mk resolution e' =>
          cases resolution with
          | reply reply => exact (ReflTransGen.single (.answers hresolve)).trans (ih _ _)
          | render child patch =>
              have hnested := @hcall (⟨task, next⟩ :: ws) child patch e' (by simp; omega)
              exact ((ReflTransGen.single (.descends hresolve)).trans
                (hnested.tail .returns)).trans (ih _ _)

/-- From a call the session comes to its return, with what the function gives. -/
theorem steps_renderTo {depth : Nat} (ws : List (Waiting I)) (hlimit : ws.length + depth = limit) :
    ReflTransGen (Step limit) ⟨ws, .call again id patch e⟩
      ⟨ws, .back (renderTo depth (ws.map (·.task.id)) again id patch e).1
        (renderTo depth (ws.map (·.task.id)) again id patch e).2⟩ := by
  induction depth generalizing ws again id patch e with
  | zero => exact .single (.deep (by omega))
  | succ depth ih =>
      have hlt : ws.length < limit := by omega
      cases hidle : (e.template id).rendering with
      | true =>
          rw [renderTo, if_pos hidle]
          exact .single (.busy hlt hidle)
      | false =>
          cases halive : e.alive with
          | false =>
              rw [renderTo]
              simp only [hidle, halive, Bool.not_false, Bool.false_eq_true, if_true, if_false]
              exact .single (.closed hlt hidle halive)
          | true =>
              rw [renderTo_succ depth _ again patch hidle halive]
              have hdrive := steps_drive (enter again id patch e).1 (ih _)
                (show ws.length + 1 + depth = limit by omega)
                (produce (enter again id patch e).1 (enter again id patch e).2)
              rw [enter_id] at hdrive
              exact ((ReflTransGen.single (.begins hlt hidle halive)).trans hdrive).tail .ends

/-- Work goes on to its end, with what the function that renders makes of its requests. -/
theorem steps_work {depth : Nat} (task : Task) (hlimit : ws.length + 1 + depth = limit) (run : Work I) :
    ReflTransGen (Step limit) ⟨ws, .work task run⟩
      ⟨ws, .work task (.done (drive (answer depth (task.id :: ws.map (·.task.id))) run).2
        (drive (answer depth (task.id :: ws.map (·.task.id))) run).1)⟩ :=
  steps_drive task (steps_renderTo _) hlimit run

/-- A render from outside is a stretch of the session. -/
theorem Reachable.render {result : Except Error Text} (h : Reachable maxDepth ⟨[], .back result e⟩)
    (patch : Patch) (hid : id < e.templates.length) :
    Reachable maxDepth ⟨[], .back (render id patch e).1 (render id patch e).2⟩ :=
  (h.goes (.operation (.render patch hid))).of_steps (steps_renderTo [] (by simp))

theorem Reachable.update {result : Except Error Text} (h : Reachable maxDepth ⟨[], .back result e⟩)
    (hid : id < e.templates.length) :
    Reachable maxDepth ⟨[], .back (update id e).1 (update id e).2⟩ :=
  (h.goes (.operation (.update hid))).of_steps (steps_renderTo [] (by simp))

end Stencil.Engine
