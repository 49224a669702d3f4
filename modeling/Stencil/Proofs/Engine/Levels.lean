import Stencil.Engine.Registry
import Stencil.Proofs.Engine.Nesting
import Stencil.Proofs.Engine.Showing
/-!
# The reporting level is a filter

A session is a list of calls of an engine and of its templates. Begun at another default reporting
level, and if nothing in it sets one, it gives the same answers and comes to the same engine, but for
the level itself and for the diagnostics that the level does not show.
-/
namespace Stencil

namespace Engine

variable {I : Interpreter} {level n : Nat} {e e' : Engine I}

/-! ## Sessions -/

/-- A call from outside. Templates are known by their places. -/
inductive Call where
  | create (source : Source) (patch : Patch) (scope : Option Json)
  | register (source : Source) (patch : Patch) (scope : Option Json)
  | renderSource (source : Source) (patch : Patch) (scope : Option Json)
  | get (source : Source)
  | remove (f : Fingerprint)
  | stats
  | takeReported
  | close
  | render (id : TemplateId) (patch : Patch)
  | update (id : TemplateId)
  | renderStatic (id : TemplateId)
  | setScope (id : TemplateId) (scope : Json)
  /-- Look at all that there is to see of a template. -/
  | inspect (id : TemplateId)
  /-- Time goes by, and files change. -/
  | world (clock : Clock) (disk : Disk)

inductive Answer (I : Interpreter) where
  | none
  | created (result : Except Error TemplateId)
  | found (result : Except Error (Option TemplateId))
  | removed (id : Option TemplateId)
  | stats (all : List Stats)
  | reported (diagnostics : List Diagnostic)
  | text (result : Except Error Text)
  | template (t : Template I)

def perform (e : Engine I) : Call → Answer I × Engine I
  | .create source patch scope =>
    let called := create source patch scope e
    (.created called.1, called.2)
  | .register source patch scope =>
    let called := register source patch scope e
    (.created called.1, called.2)
  | .renderSource source patch scope =>
    let called := renderSource source patch scope e
    (.text called.1, called.2)
  | .get source => (.found (get? source e), e)
  | .remove f =>
    let called := remove f e
    (.removed called.1, called.2)
  | .stats => (.stats e.stats, e)
  | .takeReported =>
    let called := e.takeReported
    (.reported called.1, called.2)
  | .close => (.none, e.close)
  | .render id patch =>
    let called := render id patch e
    (.text called.1, called.2)
  | .update id =>
    let called := update id e
    (.text called.1, called.2)
  | .renderStatic id =>
    let called := renderStatic id e
    (.text (.ok called.1), called.2)
  | .setScope id scope => (.none, e.setScope id scope)
  | .inspect id => (.template (e.template id), e)
  | .world clock disk => (.none, { e with clock, disk })

/-- The answers to calls one after the other, and the engine after them. -/
def session (e : Engine I) : List Call → List (Answer I) × Engine I
  | [] => ([], e)
  | call :: calls =>
    let called := perform e call
    let rest := session called.2 calls
    (called.1 :: rest.1, rest.2)

/-! ## Levels -/

/-- The statistics as they are at another level. -/
def statsAt (level : Nat) (s : Stats) : Stats := { s with options := s.options.reportingAt level }

/-- The answer as it is at another level. -/
def Answer.reportingAt (level : Nat) : Answer I → Answer I
  | .stats all => .stats (all.map (statsAt level))
  | .reported diagnostics => .reported (Diagnostic.shownAt level diagnostics)
  | .template t => .template (t.reportingAt level)
  | answer => answer

/-- A render is asked for no option that sets a level, nor does it ask for one. -/
def RenderKeepsLevel (again : Bool) (id : TemplateId) (patch : Patch) (e : Engine I) : Prop :=
  patch.reporting = none ∧ ∀ x ∈ asked maxDepth [] again id patch e, x.1.KeepsLevel

/-- Nothing in the call sets a reporting level, and what is rendered or looked at is there. -/
def Call.KeepsLevel (e : Engine I) : Call → Prop
  | .create _ patch _ => patch.reporting = none
  | .register _ patch _ => patch.reporting = none
  | .renderSource source patch scope =>
    patch.reporting = none ∧ ∀ content, source.load e.disk = .ok content →
      match e.find? (.ofContent content) with
      | some id => RenderKeepsLevel false id patch (e.setScope? id scope)
      | none =>
        let inserted := e.insert source content e.defaults patch scope
        RenderKeepsLevel false inserted.1 {} inserted.2
  | .render id patch => id < e.templates.length ∧ RenderKeepsLevel false id patch e
  | .update id => id < e.templates.length ∧ RenderKeepsLevel true id {} e
  | .inspect id => id < e.templates.length
  | _ => True

/-- Nothing in a session sets a reporting level. -/
def KeepsLevel (e : Engine I) : List Call → Prop
  | [] => True
  | call :: calls => call.KeepsLevel e ∧ KeepsLevel (perform e call).2 calls

/-! ## One call -/

private theorem stats_reportingAt (t : Template I) (d : Disk) (now : Nat) :
    (t.reportingAt level).stats d now = statsAt level (t.stats d now) := by
  have hoptions : (t.lastOptions.map (·.reportingAt level)).getD (t.options.reportingAt level) =
      (t.lastOptions.getD t.options).reportingAt level := by
    cases t.lastOptions <;> rfl
  simp only [Template.stats, Template.reportingAt, hoptions]
  rfl

private theorem Shown.stats (h : Shown level n e e') : e'.stats = e.stats.map (statsAt level) := by
  have hentries : e'.entries = e.entries := by rw [h.same]; rfl
  have hall : (e'.entries.map fun entry => (e'.template entry.2).stats e'.disk e'.clock.now) =
      (e.entries.map fun entry => (e.template entry.2).stats e.disk e.clock.now).map
        (statsAt level) := by
    rw [hentries, List.map_map]
    refine List.map_congr_left fun entry hentry => ?_
    rw [h.template_of_lt (h.loud.valid entry hentry), h.disk, h.clock, stats_reportingAt]
    rfl
  rw [Engine.stats, hall, Engine.stats]
  exact (List.map_mergeSort (f := statsAt level) fun _ _ _ _ => rfl).symm

private theorem Shown.render (h : Shown level n e e') {again : Bool} {id : TemplateId} {patch : Patch}
    (hid : id < e.templates.length) (hkeeps : RenderKeepsLevel again id patch e) :
    (renderTo maxDepth [] again id patch e').1 = (renderTo maxDepth [] again id patch e).1 ∧
      Shown level n (renderTo maxDepth [] again id patch e).2
        (renderTo maxDepth [] again id patch e').2 := by
  have houter : ∀ i ∈ ([] : List TemplateId), i < max n (id + 1) := by simp
  obtain ⟨hresult, hafter⟩ := renderTo_shown (h.grow (m := id + 1) hid) houter
    ((Nat.lt_succ_self id).trans_le (le_max_right ..)) hkeeps.1 hkeeps.2
  exact ⟨hresult, hafter.mono (le_max_left ..)⟩

theorem Shown.perform (h : Shown level n e e') {call : Call} (hkeeps : call.KeepsLevel e) :
    (perform e' call).1 = (perform e call).1.reportingAt level ∧
      Shown level n (perform e call).2 (perform e' call).2 := by
  have hdefaults : e'.defaults = e.defaults.reportingAt level := by rw [h.same]; rfl
  cases call with
  | create source patch scope =>
      simp only [Engine.perform, create, h.disk, h.find?, hdefaults]
      split
      · exact ⟨rfl, h⟩
      · split
        · exact ⟨rfl, h⟩
        · exact ⟨by rw [insert_fst, insert_fst, h.length]; rfl, h.insert _ _ h.loud.defaults hkeeps _⟩
  | register source patch scope =>
      simp only [Engine.perform, register, h.disk, hdefaults]
      split
      · exact ⟨rfl, h⟩
      · exact ⟨by rw [insert_fst, insert_fst, h.length]; rfl, h.insert _ _ h.loud.defaults hkeeps _⟩
  | renderSource source patch scope =>
      obtain ⟨hpatch, hloaded⟩ := hkeeps
      simp only [Engine.perform, renderSource, h.disk, h.find?, hdefaults]
      cases hload : source.load e.disk with
      | error error => exact ⟨rfl, h⟩
      | ok content =>
          have hrender := hloaded content hload
          dsimp only
          cases hfind : e.find? (.ofContent content) with
          | some id =>
              rw [hfind] at hrender
              have hid : id < (e.setScope? id scope).templates.length := by
                rw [length_setScope?]
                exact h.loud.valid.find? hfind
              obtain ⟨hresult, hafter⟩ := (h.setScope id scope).render hid hrender
              exact ⟨congrArg Answer.text hresult, hafter⟩
          | none =>
              rw [hfind] at hrender
              have hid : e.templates.length <
                  (e.insert source content e.defaults patch scope).2.templates.length := by
                rw [length_insert]
                exact Nat.lt_succ_self _
              have hinserted := h.insert source content h.loud.defaults hpatch scope
              obtain ⟨hresult, hafter⟩ := hinserted.render hid hrender
              simp only [insert_fst, h.length]
              exact ⟨congrArg Answer.text hresult, hafter⟩
  | get source =>
      simp only [Engine.perform, get?, h.disk, h.find?]
      exact ⟨rfl, h⟩
  | remove f =>
      refine ⟨congrArg Answer.removed (h.find? f), ⟨h.loud.length, fun entry hentry => ?_,
        h.loud.defaults, h.loud.options⟩, by rw [h.same]; rfl⟩
      exact h.loud.valid entry (List.mem_filter.mp hentry).1
  | stats => exact ⟨congrArg Answer.stats h.stats, h⟩
  | takeReported =>
      have hreported : e'.reported = Diagnostic.shownAt level e.reported := by rw [h.same]; rfl
      exact ⟨congrArg Answer.reported hreported,
        ⟨h.loud.length, h.loud.valid, h.loud.defaults, h.loud.options⟩, by rw [h.same]; rfl⟩
  | close =>
      exact ⟨rfl, ⟨h.loud.length, h.loud.valid, h.loud.defaults, h.loud.options⟩, by rw [h.same]; rfl⟩
  | render id patch =>
      obtain ⟨hresult, hafter⟩ := h.render hkeeps.1 hkeeps.2
      exact ⟨congrArg Answer.text hresult, hafter⟩
  | update id =>
      obtain ⟨hresult, hafter⟩ := h.render hkeeps.1 hkeeps.2
      exact ⟨congrArg Answer.text hresult, hafter⟩
  | renderStatic id =>
      obtain ⟨hresult, hafter⟩ := h.renderStatic id
      exact ⟨congrArg (Answer.text ∘ Except.ok) hresult, hafter⟩
  | setScope id scope => exact ⟨rfl, h.setScope id (some scope)⟩
  | inspect id => exact ⟨congrArg Answer.template (h.template_of_lt hkeeps), h⟩
  | world clock disk =>
      exact ⟨rfl, ⟨h.loud.length, h.loud.valid, h.loud.defaults, h.loud.options⟩, by rw [h.same]; rfl⟩

/-! ## The session -/

theorem Shown.session (h : Shown level n e e') {calls : List Call} (hkeeps : KeepsLevel e calls) :
    (session e' calls).1 = (session e calls).1.map (·.reportingAt level) ∧
      Shown level n (session e calls).2 (session e' calls).2 := by
  induction calls generalizing e e' with
  | nil => exact ⟨rfl, h⟩
  | cons call calls ih =>
      obtain ⟨hcall, hcalls⟩ := hkeeps
      obtain ⟨hanswer, hafter⟩ := h.perform hcall
      obtain ⟨hanswers, hlast⟩ := ih hafter hcalls
      rw [Engine.session, Engine.session]
      exact ⟨by rw [hanswer, hanswers, List.map_cons], hlast⟩

/-- A new engine whose templates start at a level. -/
def newAt (level : Nat) (defaults : Options) (clock : Clock) (disk : Disk) : Engine I :=
  { defaults := defaults.reportingAt level, clock, disk }

/-- The reporting level is a filter and nothing else. Two sessions of the same calls in new engines
that differ in the default level, 3 in one and any other in the second, give the same answers and come to
the same engine, templates and all, but for the level in the options, if nothing in the first sets a
level. Of the diagnostics of the first, the second reports in order those that are shown at its
level. -/
theorem level_is_filter (level : Nat) (defaults : Options) (clock : Clock) (disk : Disk)
    {calls : List Call}
    (h : KeepsLevel (newAt Options.maxReporting defaults clock disk : Engine I) calls) :
    session (newAt level defaults clock disk : Engine I) calls =
      ((session (newAt Options.maxReporting defaults clock disk : Engine I) calls).1.map
          (·.reportingAt level),
        (session (newAt Options.maxReporting defaults clock disk : Engine I) calls).2.reportingAt
          level) := by
  have hnew : Shown level 0 (newAt Options.maxReporting defaults clock disk : Engine I)
      (newAt level defaults clock disk) :=
    ⟨⟨Nat.zero_le _, by simp [Valid, newAt], rfl, fun i hi => absurd hi (Nat.not_lt_zero i)⟩, rfl⟩
  obtain ⟨hanswers, hlast⟩ := hnew.session h
  exact Prod.ext hanswers hlast.same

/-- A text with a dangling delimiter, which includes the empty text, which includes itself: at level
1 only the error is reported, at level 3 also the cycle and the renders. -/
theorem level_is_filter_inclusion :
    let calls : List Call := [.create (.inline "a$>b".toList) {} none, .render 0 {}, .takeReported]
    let loud : Engine Including := newAt Options.maxReporting {} {} {}
    let codes (answers : List (Answer Including)) : List String := answers.flatMap fun
      | .reported diagnostics => diagnostics.map (·.code)
      | _ => []
    KeepsLevel loud calls ∧
      session (newAt 1 {} {} {} : Engine Including) calls =
        ((session loud calls).1.map (·.reportingAt 1), (session loud calls).2.reportingAt 1) ∧
      codes (session loud calls).1 = [Diagnostic.includeCycle, Diagnostic.rendered,
        Diagnostic.danglingStop, Diagnostic.rendered] ∧
      codes (session (newAt 1 {} {} {} : Engine Including) calls).1 = [Diagnostic.danglingStop] := by
  intro calls loud codes
  have hkeeps : KeepsLevel loud calls :=
    ⟨rfl, ⟨by decide +kernel, rfl, by decide +kernel⟩, trivial, trivial⟩
  exact ⟨hkeeps, level_is_filter 1 {} {} {} hkeeps, by decide +kernel, by decide +kernel⟩

end Engine

end Stencil
