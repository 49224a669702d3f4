import Stencil.Proofs.Engine.Runs
import Stencil.Proofs.Scan.Diagnostics
/-!
# What a render leaves in its template

A full render begins by giving up the program. It leaves a program behind only if its last execution
went well, and that program was compiled from the body of the content or from its repair. The other
ways of rendering keep the program that there is.
-/
namespace Stencil.Engine

open Run

variable {I : Interpreter} {e : Engine I} {id : TemplateId} {task : Task}

/-- The normal form of the body of a content, unless a code region in it is left open. -/
def bodyOf? (d : Delimiters) (content : Text) : Option Text :=
  (scan d content "" { reporting := 0 }).1.toOption.map fun pieces =>
    normalize (Body.ofPieces pieces).source

theorem bodyOf?_eq_some {d : Delimiters} {content : Text} {label : String} {log : Collector}
    {pieces : List Piece} (h : (scan d content label log).1 = .ok pieces) :
    bodyOf? d content = some (normalize (Body.ofPieces pieces).source) := by
  rw [bodyOf?, toOption_scan d content "" label _ log, h]
  rfl

/-- The program was compiled under the label: at the state from the body, or where that did not do
later from its repair. -/
def CompiledFrom (I : Interpreter) (s : I.State) (label : String) (body : Text)
    (program : I.Program) : Prop :=
  I.compile s label (lower body) = .ok program ∨
    (repair body).2 ≠ [] ∧ ∃ s', I.compile s' label (lower (repair body).1) = .ok program

def Succeeds : Except Error Execution → Prop
  | .error _ => False
  | .ok ended => ended.error = none

section Attempts

variable {Q : Template I → Prop}

theorem safe_attempt (hQ : Firm Q) (htype : task.type = .full) (he : Q (e.template task.id))
    {shared : I.State} (hshared : e.shared = shared) (label : String) (body : Text) :
    SafeFrom (Held task.id) (Own task) (fun e ended =>
      if ended.error.isSome then Q (e.template task.id)
      else ∃ program t, I.compile shared label (lower body) = .ok program ∧ Q t ∧
        e.template task.id = { t with program := some program }) e
      (attempt task.id label body e) := by
  unfold attempt
  split
  · exact .done (Own.refl task e) (by simpa using he)
  · rename_i program hcompile
    refine (safe_lift hQ he _).bind (Own.refl task) Own.trans fun e' ended hended => .done ?_ ?_
    · unfold keepProgram
      split
      · exact own_modify htype ⟨some program, _, _, _, rfl⟩
      · exact Own.refl task e'
    · unfold keepProgram
      split
      · rename_i hsome
        rw [Option.isSome_iff_ne_none] at hsome
        simpa [hsome] using hended
      · rename_i hnone
        have hnone' : ended.error.isNone = true := by simpa using hnone
        rw [if_pos hnone', template_modify_self (lt_length_of_rendering (hQ.rendering hended))]
        exact ⟨program, _, hshared ▸ hcompile, hended, rfl⟩

theorem safe_attemptRepairing (hQ : Firm Q) (htype : task.type = .full)
    (he : Q (e.template task.id)) {shared : I.State} (hshared : e.shared = shared) (body : Text)
    (log : Collector) :
    SafeFrom (Held task.id) (Own task) (fun e last =>
      if last.1.error.isSome then Q (e.template task.id)
      else ∃ program t, CompiledFrom I shared task.label body program ∧ Q t ∧
        e.template task.id = { t with program := some program }) e
      (attemptRepairing task body log e) := by
  refine (safe_attempt hQ htype he hshared task.label body).bind (Own.refl _) Own.trans
    fun e' first hfirst => ?_
  simp only
  split
  · rename_i hagain
    simp only [Bool.and_eq_true] at hagain
    rw [if_pos hagain.1.1] at hfirst
    refine (safe_attempt hQ htype hfirst rfl task.label (repair body).1).bind (Own.refl _) Own.trans
      fun e'' second hsecond => .done (Own.refl _ _) ?_
    simp only
    split at hsecond
    · rwa [if_pos ‹_›]
    · rw [if_neg ‹_›]
      obtain ⟨program, t, hcompile, ht, htemplate⟩ := hsecond
      exact ⟨program, t, .inr ⟨by simpa using hagain.2, _, hcompile⟩, ht, htemplate⟩
  · refine .done (Own.refl _ _) ?_
    simp only
    split at hfirst
    · rwa [if_pos ‹_›]
    · rw [if_neg ‹_›]
      obtain ⟨program, t, hcompile, ht, htemplate⟩ := hfirst
      exact ⟨program, t, .inl hcompile, ht, htemplate⟩

end Attempts

/-- What a render from source, begun at the state, has come to when it ends: the program of its template is the one that
ran well, or there is none. -/
structure FromSource (s : I.State) (task : Task) (t : Template I) (answer : Except Error Execution) :
    Prop where
  program : Succeeds answer → ∃ body program,
    bodyOf? task.options.delimiters t.content = some body ∧
      CompiledFrom I s task.label body program ∧ t.program = some program
  none : ¬ Succeeds answer → t.program = none

/-- The template of a full render under way, without a program. -/
def Cleared (content : Text) (t : Template I) : Prop :=
  t.content = content ∧ t.program = none ∧ t.rendering = true

private theorem firm_cleared (content : Text) : Firm (I := I) (Cleared content) where
  rendering h := h.2.2
  untouched h held := by
    obtain ⟨children, warned, rfl⟩ := held
    exact h

theorem safe_renderFull {s : I.State} (hs : e.shared = s) (htype : task.type = .full)
    (hrendering : (e.template task.id).rendering = true) (log : Collector) :
    SafeFrom (Held task.id) (Own task) (fun e answer =>
      FromSource s task (e.template task.id) answer.1 ∧
        ∀ error, answer.1 = .error error → ∃ stop opened,
          error = .unterminatedCode task.label stop opened) e (renderFull task log e) := by
  have hlt : task.id < e.templates.length := lt_length_of_rendering hrendering
  unfold renderFull
  generalize hforget : e.modify task.id (fun t => { t.forgetProgram with children := [] }) = e₁
  have hown : Own task e e₁ := hforget ▸ own_modify htype (Template.underway_forgetProgram _ [])
  have hcleared : Cleared (e.template task.id).content (e₁.template task.id) := by
    rw [← hforget, template_modify_self hlt]
    exact ⟨rfl, rfl, hrendering⟩
  simp only
  split
  · rename_i error log' hscan
    refine .done hown ⟨⟨fun h => h.elim, fun _ => hcleared.2.1⟩, fun error' herror => ?_⟩
    obtain ⟨opened, hopened⟩ := scan_error (congrArg Prod.fst hscan)
    exact ⟨_, opened, by rw [← hopened, Except.error.inj herror]⟩
  · rename_i pieces log' hscan
    have hbody := bodyOf?_eq_some (congrArg Prod.fst hscan)
    rw [hcleared.1] at hbody
    have hshared : e₁.shared = s := hforget ▸ hs
    refine .of_stretch Own.trans hown <| (safe_attemptRepairing (firm_cleared _) htype hcleared
      hshared _ log').bind (Own.refl _) Own.trans fun e₂ last hlast => ?_
    split at hlast
    · -- the last execution failed, so there is no program before the template gives it up again
      rename_i hfailed
      rw [if_pos hfailed]
      refine .done (own_modify htype (Template.underway_forgetProgram _ _)) ?_
      rw [template_modify_self (lt_length_of_rendering hlast.2.2)]
      refine ⟨⟨fun h => ?_, fun _ => rfl⟩, fun error herror => by simp at herror⟩
      rw [show last.1.error = none from h] at hfailed
      exact absurd hfailed (by decide)
    · rename_i hran
      obtain ⟨program, t, hcompiled, ht, hprogram⟩ := hlast
      rw [if_neg hran]
      refine .done (Own.refl _ _) ?_
      rw [hprogram]
      refine ⟨⟨fun _ => ⟨_, program, ?_, hcompiled, rfl⟩, fun h => ?_⟩,
        fun error herror => by simp at herror⟩
      · rw [ht.1]
        exact hbody
      · exact absurd (by simpa [Succeeds] using hran) h

/-- What a render, begun at the state, has come to when its text is produced. Only a full render can be stopped by its
content. -/
structure Produced (s : I.State) (task : Task) (t : Template I) (answer : Except Error Execution) :
    Prop where
  full : task.type = .full → FromSource s task t answer
  error : ∀ error, answer = .error error → task.type = .full ∧ ∃ stop opened,
    error = .unterminatedCode task.label stop opened

/-- The run of a program that there is leaves it in place. -/
private theorem safe_renderPartly (hrendering : (e.template task.id).rendering = true)
    (htype : task.type ≠ .full) (s : I.State) (program : I.Program) (log : Collector) :
    SafeFrom (Held task.id) (Own task) (fun e answer =>
      Produced s task (e.template task.id) answer.1) e (renderPartly task.id program log e) := by
  have hfirm : Firm (I := I) fun t => t.rendering = true := by
    refine ⟨id, fun {t t'} h held => ?_⟩
    obtain ⟨_, _, rfl⟩ := held
    exact h
  exact (safe_lift hfirm hrendering _).bind (Own.refl _) Own.trans fun e' ended _ =>
    .done (Own.refl _ _) ⟨fun h => absurd h htype, fun error h => by simp at h⟩

/-- Text is produced as it should be, from any state in which the template is being rendered and
has a program unless everything is to be done from source. -/
theorem safe_produce {s : I.State} (hs : e.shared = s)
    (hrendering : (e.template task.id).rendering = true)
    (hprogram : task.type ≠ .full → (e.template task.id).program.isSome = true) :
    SafeFrom (Held task.id) (Own task) (fun e answer =>
      Produced s task (e.template task.id) answer.1) e (produce task e) := by
  unfold produce
  simp only
  split
  · rename_i htype
    exact .done (Own.refl _ _) ⟨fun h => by simp [h] at htype, fun error h => by simp at h⟩
  · rename_i program htype hsome
    exact safe_renderPartly hrendering (by simp [htype]) s program _
  · rename_i hfixed hpartly
    have htype : task.type = .full := by
      cases htype : task.type with
      | full => rfl
      | fixed => exact (hfixed htype).elim
      | partly =>
          obtain ⟨program, hsome⟩ := Option.isSome_iff_exists.mp (hprogram (by simp [htype]))
          exact (hpartly program htype hsome).elim
    exact (safe_renderFull hs htype hrendering _).imp fun e' answer h =>
      ⟨fun _ => h.1, fun error herror => ⟨htype, h.2 error herror⟩⟩

end Stencil.Engine
