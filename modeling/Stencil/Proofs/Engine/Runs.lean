import Stencil.Proofs.Engine.Changes
/-!
# Runs among nested renders

A run goes on from whatever state a nested render leaves. It is safe if it ends as it should wherever
nested renders keep to what it relies on, and if each of its own stretches does no more than it may.
-/
namespace Stencil

namespace Run

variable {σ α β : Type}

/-- The state at which a run ends or asks. -/
def state : Run σ α → σ
  | .done s _ => s
  | .ask s _ _ => s

def Safe (rely may : σ → σ → Prop) (ends : σ → α → Prop) : Run σ α → Prop
  | .done s a => ends s a
  | .ask s _ next => ∀ s' reply, rely s s' →
      may s' (next s' reply).state ∧ Safe rely may ends (next s' reply)

/-- The run is safe, and so is the way to it from a state. -/
structure SafeFrom (rely may : σ → σ → Prop) (ends : σ → α → Prop) (s : σ) (run : Run σ α) :
    Prop where
  stretch : may s run.state
  safe : Safe rely may ends run

section Logic

variable {rely may : σ → σ → Prop} {ends ends' : σ → α → Prop} {s : σ} {run : Run σ α}

theorem Safe.imp (h : ∀ s a, ends s a → ends' s a) (hrun : Safe rely may ends run) :
    Safe rely may ends' run := by
  induction run with
  | done s a => exact h s a hrun
  | ask s request next ih =>
      exact fun s' reply hr => ⟨(hrun s' reply hr).1, ih s' reply (hrun s' reply hr).2⟩

theorem SafeFrom.imp (h : ∀ s a, ends s a → ends' s a) (hrun : SafeFrom rely may ends s run) :
    SafeFrom rely may ends' s run :=
  ⟨hrun.stretch, hrun.safe.imp h⟩

theorem SafeFrom.done {a : α} {s' : σ} (hmay : may s s') (h : ends s' a) :
    SafeFrom rely may ends s (.done s' a) :=
  ⟨hmay, h⟩

theorem SafeFrom.of_stretch {s' : σ} (htrans : ∀ {s s' s''}, may s s' → may s' s'' → may s s'')
    (hmay : may s s') (hrun : SafeFrom rely may ends s' run) : SafeFrom rely may ends s run :=
  ⟨htrans hmay hrun.stretch, hrun.safe⟩

private theorem Safe.bind {k : σ → α → Run σ β} {ends' : σ → β → Prop} (hrefl : ∀ s, may s s)
    (htrans : ∀ {s s' s''}, may s s' → may s' s'' → may s s'') (hrun : Safe rely may ends run)
    (hk : ∀ s a, ends s a → SafeFrom rely may ends' s (k s a)) :
    SafeFrom rely may ends' run.state (run.bind k) := by
  induction run with
  | done s a => exact hk s a hrun
  | ask s request next ih =>
      refine ⟨hrefl s, fun s' reply hr => ?_⟩
      obtain ⟨hstretch, hnext⟩ := hrun s' reply hr
      have hbind := ih s' reply hnext
      exact ⟨htrans hstretch hbind.stretch, hbind.safe⟩

theorem SafeFrom.bind {k : σ → α → Run σ β} {ends' : σ → β → Prop} (hrefl : ∀ s, may s s)
    (htrans : ∀ {s s' s''}, may s s' → may s' s'' → may s s'')
    (hrun : SafeFrom rely may ends s run)
    (hk : ∀ s a, ends s a → SafeFrom rely may ends' s (k s a)) :
    SafeFrom rely may ends' s (run.bind k) :=
  .of_stretch htrans hrun.stretch (hrun.safe.bind hrefl htrans hk)

end Logic

end Run

namespace Engine

open Run

variable {I : Interpreter} {e e' : Engine I} {id : TemplateId} {task : Task} {α : Type}

/-! ## Driving a run -/

/-- A safe run ends as it should if what answers it can be relied on, and keeps what all its
stretches and all answers keep. Both may depend on what holds throughout. -/
theorem drive_safe (holds : Engine I → Prop) {keeps rely may : Engine I → Engine I → Prop}
    {ends : Engine I → α → Prop} {nested : Request → Engine I → Except Error Text × Engine I}
    (hrefl : ∀ e, keeps e e) (htrans : ∀ {e e' e''}, keeps e e' → keeps e' e'' → keeps e e'')
    (hmay : ∀ {e e'}, holds e → may e e' → holds e' ∧ keeps e e')
    (hnested : ∀ request e, holds e → rely e (nested request e).2 ∧
      holds (nested request e).2 ∧ keeps e (nested request e).2)
    {run : Run (Engine I) α} (hrun : Safe rely may ends run) (hstate : holds run.state) :
    ends (drive nested run).2 (drive nested run).1 ∧ holds (drive nested run).2 ∧
      keeps run.state (drive nested run).2 := by
  induction run with
  | done e a => exact ⟨hrun, hstate, hrefl e⟩
  | ask e request next ih =>
      obtain ⟨hrely, hafter, hkeeps⟩ := hnested request e hstate
      obtain ⟨hstretch, hnext⟩ := hrun _ ((nested request e).1.mapError Error.message) hrely
      obtain ⟨hstate', hkeeps'⟩ := hmay hafter hstretch
      obtain ⟨hends, hholds, hrest⟩ := ih _ _ hnext hstate'
      exact ⟨hends, hholds, htrans hkeeps (htrans hkeeps' hrest)⟩

/-! ## Programs -/

/-- A template that is being rendered is as it was, but for its children. -/
def Held (id : TemplateId) (e e' : Engine I) : Prop :=
  Template.Untouched (e.template id) (e'.template id)

/-- What a render does before it ends. Only a full render gives up its program or takes another. -/
structure Own (task : Task) (e e' : Engine I) : Prop where
  length : e'.templates.length = e.templates.length
  entries : e'.entries = e.entries
  alive : e'.alive = e.alive
  others : ∀ i ≠ task.id, e'.template i = e.template i
  self : Template.Underway (e.template task.id) (e'.template task.id)
  kept : task.type ≠ .full → Template.Untouched (e.template task.id) (e'.template task.id)

theorem Own.trans {e e' e'' : Engine I} (h : Own task e e') (h' : Own task e' e'') :
    Own task e e'' :=
  ⟨h'.length.trans h.length, h'.entries.trans h.entries, h'.alive.trans h.alive,
    fun i hi => (h'.others i hi).trans (h.others i hi), h.self.trans h'.self,
    fun htype => (h.kept htype).trans (h'.kept htype)⟩

theorem own_modify (htype : task.type = .full) {f : Template I → Template I}
    (h : Template.Underway (e.template task.id) (f (e.template task.id))) :
    Own task e (e.modify task.id f) := by
  refine ⟨length_modify f, rfl, rfl, fun i hi => template_modify_of_ne hi f, ?_,
    fun hne => absurd htype hne⟩
  rcases template_modify_cases e task.id task.id f with hi | ⟨-, hi⟩ <;> rw [hi]
  · exact Template.Underway.refl _
  · exact h

private theorem own_shared (task : Task) (e : Engine I) (shared : I.State) :
    Own task e { e with shared } :=
  ⟨rfl, rfl, rfl, fun _ _ => rfl, Template.Underway.refl _, fun _ => Template.Untouched.refl _⟩

theorem Own.refl (task : Task) (e : Engine I) : Own task e e := own_shared task e e.shared

/-- What is so of a template that is being rendered, whatever nested renders do. -/
structure Firm (Q : Template I → Prop) : Prop where
  rendering : ∀ {t}, Q t → t.rendering = true
  untouched : ∀ {t t'}, Q t → Template.Untouched t t' → Q t'

theorem safe_lift {Q : Template I → Prop} (hQ : Firm Q) (he : Q (e.template task.id))
    (run : Run I.State α) :
    SafeFrom (Held task.id) (Own task) (fun e _ => Q (e.template task.id)) e (lift run e) := by
  induction run generalizing e with
  | done shared answer => exact .done (own_shared task e shared) he
  | ask shared request next ih =>
      refine ⟨own_shared task e shared, fun e' reply held => ?_⟩
      obtain ⟨hstretch, hsafe⟩ := ih e'.shared reply (hQ.untouched he held)
      exact ⟨hstretch, hsafe⟩

end Engine

end Stencil
