import Stencil.Proofs.Engine.Nesting
import Stencil.Proofs.Engine.Reports
/-!
# Include cycles

A nested render of a child that is being rendered, or that includes the template, is answered at once
with the child's last output. Over a whole session a template warns of the cycles with each child once,
where the first of them is closed, if it shows warnings then.
-/
namespace Stencil

variable {I : Interpreter}

/-- A child is noted beside those that were there. -/
theorem Template.mem_insertOrdered (f g : Fingerprint) (l : List Fingerprint) :
    g ∈ insertOrdered f l ↔ g ∈ l ∨ g = f := by
  induction l with
  | nil => simp [insertOrdered]
  | cons h rest ih =>
      unfold insertOrdered
      split
      · simp [or_comm]
      · split
        · rename_i heq
          simp only [heq, List.mem_cons, iff_self_or]
          exact .inl
        · simp [ih, or_assoc]

namespace Engine

open Relation

variable {limit n k : Nat} {e e' : Engine I} {m : Moment I} {parent child : TemplateId}
  {f : Fingerprint} {request : Request}

/-! ## A cycle is broken -/

/-- Nothing was executed or put in, and no template was changed but that the parent includes a child of
the content, and that the child, if it was idle, has one more static entry. -/
structure Broken (parent child : TemplateId) (f : Fingerprint) (e e' : Engine I) : Prop where
  shared : e'.shared = e.shared
  entries : e'.entries = e.entries
  length : e'.templates.length = e.templates.length
  template : ∀ i, ∃ children warned history,
    e'.template i = { e.template i with children, warned, history } ∧
    (∀ g, g ∈ children ↔ g ∈ (e.template i).children ∨ i = parent ∧ g = f) ∧
    (i = child ∧ (e.template i).rendering = false ∧
        (∃ started duration now, history = (e.template i).history.record .fixed started duration now) ∨
      (i = child → (e.template i).rendering = true) ∧ history = (e.template i).history)

/-- What is noted and reported of a cycle changes no template but for that. -/
private theorem noteCycle_fields (parent child : TemplateId) (log : Collector) (e : Engine I) :
    let noted := noteCycle parent child log e
    let e' := noted.2.report noted.1
    e'.shared = e.shared ∧ e'.entries = e.entries ∧ e'.templates.length = e.templates.length ∧
      ∀ i, ∃ warned, e'.template i = { e.template i with warned } := by
  unfold noteCycle
  dsimp only
  split
  · exact ⟨rfl, rfl, rfl, fun i => ⟨(e.template i).warned, rfl⟩⟩
  · refine ⟨rfl, rfl, length_modify _, fun i => ?_⟩
    rcases template_modify_cases e parent i
      (fun t => { t with warned := (e.template child).fingerprint :: t.warned }) with h | ⟨-, h⟩
    · exact ⟨(e.template i).warned, h⟩
    · exact ⟨_, h⟩

private theorem renderStatic_of_busy (hr : (e.template child).rendering = true) :
    renderStatic child e = ((e.template child).output, e) :=
  if_pos hr

private theorem renderStatic_of_idle (hr : (e.template child).rendering = false) :
    ∃ started duration now, renderStatic child e = ((e.template child).output,
      e.tick.tick.modify child fun t =>
        { t with history := t.history.record .fixed started duration now }) :=
  ⟨_, _, _, if_neg (by simp [hr])⟩

private theorem renderStatic_fields (child : TemplateId) (e : Engine I)
    (hlt : child < e.templates.length) :
    let e' := (renderStatic child e).2
    e'.shared = e.shared ∧ e'.entries = e.entries ∧ e'.templates.length = e.templates.length ∧
      (renderStatic child e).1 = (e.template child).output ∧
      ∀ i, ∃ history, e'.template i = { e.template i with history } ∧
        (i = child ∧ (e.template i).rendering = false ∧ (∃ started duration now,
            history = (e.template i).history.record .fixed started duration now) ∨
          (i = child → (e.template i).rendering = true) ∧ history = (e.template i).history) := by
  dsimp only
  cases hr : (e.template child).rendering with
  | true =>
      rw [renderStatic_of_busy hr]
      exact ⟨rfl, rfl, rfl, rfl, fun i => ⟨_, rfl, .inr ⟨fun hi => hi ▸ hr, rfl⟩⟩⟩
  | false =>
      obtain ⟨started, duration, now, hstatic⟩ := renderStatic_of_idle hr
      rw [hstatic]
      refine ⟨rfl, rfl, length_modify _, rfl, fun i => ?_⟩
      by_cases hi : i = child
      · subst hi
        exact ⟨_, template_modify_self hlt _, .inl ⟨rfl, hr, started, duration, now, rfl⟩⟩
      · exact ⟨_, template_modify_of_ne hi _, .inr ⟨fun heq => absurd heq hi, rfl⟩⟩

/-- A request that closes a cycle is answered with the last output of the child, which is not run. -/
theorem broken_of_closing (hr : (e.template parent).rendering = true)
    (hchild : child < e.templates.length) (h : closing? parent request e = some (f, child)) :
    (resolve parent request e).1 = .reply (.ok (e.template child).output) ∧
      Broken parent child f e (resolve parent request e).2 := by
  obtain ⟨log, -, hresolve⟩ := resolve_of_closing hr h
  dsimp only at hresolve
  have hparent : parent < e.templates.length := lt_length_of_rendering hr
  have hadded (i : TemplateId) : ∃ children,
      (e.modify parent fun t => t.addChild f).template i = { e.template i with children } ∧
      ∀ g, g ∈ children ↔ g ∈ (e.template i).children ∨ i = parent ∧ g = f := by
    by_cases hi : i = parent
    · subst hi
      exact ⟨_, template_modify_self hparent _, by simp [Template.mem_insertOrdered]⟩
    · exact ⟨(e.template i).children, template_modify_of_ne hi _, by simp [hi]⟩
  obtain ⟨hshared, hentries, hlength, htemplate⟩ :=
    noteCycle_fields parent child log (e.modify parent fun t => t.addChild f)
  generalize Engine.report _ _ = e₂ at hresolve hshared hentries hlength htemplate
  have hlt : child < e₂.templates.length := by rw [hlength, length_modify]; exact hchild
  obtain ⟨hshared', hentries', hlength', houtput, htemplate'⟩ := renderStatic_fields child e₂ hlt
  have hsame (i : TemplateId) : ∃ children warned, e₂.template i = { e.template i with children, warned } ∧
      ∀ g, g ∈ children ↔ g ∈ (e.template i).children ∨ i = parent ∧ g = f := by
    obtain ⟨children, hchildren, hmem⟩ := hadded i
    obtain ⟨warned, hwarned⟩ := htemplate i
    exact ⟨children, warned, by rw [hwarned, hchildren], hmem⟩
  rw [hresolve, houtput]
  obtain ⟨_, _, hlast, -⟩ := hsame child
  refine ⟨by rw [hlast], hshared'.trans hshared, hentries'.trans hentries,
    hlength'.trans (hlength.trans (length_modify _)), fun i => ?_⟩
  obtain ⟨children, warned, hi, hmem⟩ := hsame i
  obtain ⟨history, hi', hcounted⟩ := htemplate' i
  rw [hi] at hi' hcounted
  exact ⟨children, warned, history, hi', hmem, hcounted⟩

/-! ## The session -/

/-- What a template notes of the cycles it closes, and nothing takes back. -/
theorem Goes.warned {m m' : Moment I} (h : Goes limit m m') (hm : Reachable limit m) (i : TemplateId)
    (f : Fingerprint) : f ∈ (m'.engine.template i).warned ↔
      f ∈ (m.engine.template i).warned ∨ (i, f) ∈ m.cycles := by
  cases h with
  | step hstep => exact (hstep.tells hm.sound hm.quiet).1.warned i f
  | operation hoperation =>
      rcases hoperation.tells with hcalm | rfl
      · exact hcalm.warned i f
      · exact (or_iff_left List.not_mem_nil).symm

/-- A session of some length: its moments, from a new engine on. -/
structure Session (limit n : Nat) (moment : Nat → Moment I) : Prop where
  start : ∃ e, IsNew e ∧ moment 0 = ⟨[], .back (.ok []) e⟩
  goes : ∀ k < n, Goes limit (moment k) (moment (k + 1))

section Session

variable {moment : Nat → Moment I}

theorem Session.reachable (h : Session limit n moment) (hk : k ≤ n) : Reachable limit (moment k) := by
  induction k with
  | zero =>
      obtain ⟨e, hnew, hstart⟩ := h.start
      exact hstart ▸ .start hnew
  | succ k ih => exact (ih (Nat.le_of_succ_le hk)).goes (h.goes k hk)

/-- The template has closed a cycle with a child of the content before. -/
def ClosedBefore (moment : Nat → Moment I) (k : Nat) (parent : TemplateId) (f : Fingerprint) : Prop :=
  ∃ j < k, ∃ child, (moment j).closing? = some (parent, f, child)

private theorem closedBefore_succ (moment : Nat → Moment I) (k : Nat) (parent : TemplateId)
    (f : Fingerprint) : ClosedBefore moment (k + 1) parent f ↔
      ClosedBefore moment k parent f ∨ (parent, f) ∈ (moment k).cycles := by
  have hcycles : (parent, f) ∈ (moment k).cycles ↔
      ∃ child, (moment k).closing? = some (parent, f, child) := by
    unfold Moment.cycles
    cases h : (moment k).closing? with
    | none => simp
    | some closing =>
        obtain ⟨parent', f', child'⟩ := closing
        simp [eq_comm]
  rw [hcycles]
  constructor
  · rintro ⟨j, hj, hclosing⟩
    rcases Nat.lt_succ_iff_lt_or_eq.mp hj with hj | rfl
    · exact .inl ⟨j, hj, hclosing⟩
    · exact .inr hclosing
  · rintro (⟨j, hj, hclosing⟩ | hclosing)
    · exact ⟨j, Nat.lt_succ_of_lt hj, hclosing⟩
    · exact ⟨k, Nat.lt_succ_self k, hclosing⟩

/-- A template has noted the cycles that it closed. -/
theorem Session.warned_iff (h : Session limit n moment) (hk : k ≤ n) (parent : TemplateId)
    (f : Fingerprint) : f ∈ ((moment k).engine.template parent).warned ↔
      ClosedBefore moment k parent f := by
  induction k with
  | zero =>
      obtain ⟨e, hnew, hstart⟩ := h.start
      have hdefault : e.template parent = default := template_of_length_le (by simp [hnew.templates])
      rw [hstart, show Moment.engine ⟨[], .back (.ok []) e⟩ = e from rfl, hdefault]
      refine iff_of_false List.not_mem_nil ?_
      rintro ⟨j, hj, -⟩
      exact absurd hj (Nat.not_lt_zero j)
  | succ k ih =>
      rw [closedBefore_succ, ← ih (Nat.le_of_succ_le hk)]
      exact (h.goes k hk).warned (h.reachable (Nat.le_of_succ_le hk)) parent f

/-- A request closes a cycle if it leads to a child that is being rendered or includes the template. -/
private theorem closing?_eq_some {content : Text} (hrequested : requested parent request e = .ok content)
    (hfind : e.find? (.ofContent content) = some child)
    (hcycle : (e.template child).rendering = true ∨
      (e.template child).hasChild (e.template parent).fingerprint = true) :
    closing? parent request e = some (.ofContent content, child) := by
  unfold closing?
  rw [hrequested]
  simp [hfind, Option.filter, hcycle]

/-- The session goes on from a request that closes a cycle with the answer to it. -/
private theorem Goes.answered {ws : List (Waiting I)} {task : Task}
    {next : Engine I → Except String Text → Work I} {m' : Moment I}
    (h : Goes limit ⟨ws, .work task (.ask e request next)⟩ m')
    (hm : Reachable limit ⟨ws, .work task (.ask e request next)⟩)
    (hparent : parent = requester (task.id :: ws.map (·.task.id)) request)
    (hclosing : closing? parent request e = some (f, child)) :
    (e.template child).fingerprint = f ∧
      ∃ e', m' = ⟨ws, .work task (next e' (.ok (e.template child).output))⟩ ∧
        Broken parent child f e e' := by
  subst hparent
  have hr := hm.sound.consistent.rendering_requester request
  obtain ⟨-, -, -, hfind, -⟩ := requested_of_closing hclosing
  obtain ⟨hchild, hfingerprint⟩ := Registered.find? hm.quiet.registered hfind
  obtain ⟨hreply, hbroken⟩ := broken_of_closing hr hchild hclosing
  refine ⟨hfingerprint, _, ?_, hbroken⟩
  cases h with
  | step hstep => exact hstep.unique (.answers (Prod.ext hreply rfl))

/-- Nothing but what closes a cycle reports one. The reports may be taken. -/
private theorem Goes.reported_cycles {m m' : Moment I} (h : Goes limit m m') (hm : Reachable limit m) :
    Reported Diagnostic.includeCycle m.warnings m.engine m'.engine ∨
      m' = ⟨[], .back (.ok []) m.engine.takeReported.2⟩ := by
  cases h with
  | step hstep =>
      have htells := (hstep.tells hm.sound hm.quiet).1
      exact .inl (Moment.filter_warnings _ ▸ htells.of_code (.inr rfl))
  | operation hoperation =>
      rcases hoperation.tells with hcalm | rfl
      · exact .inl (hcalm.of_code (.inr rfl))
      · exact .inr rfl

/-- Wherever a session comes to a nested render of a registered child that is being rendered or that
includes the template, the reply is the last output of the child at once: nothing is executed, and no
template is changed but that the template includes the child from then on, and that the child has one
more static entry if it was idle. Children are known by their contents. A warning is given if the
template has not closed a cycle with the child before and shows warnings, and at no other moment. -/
theorem cycles_are_broken_and_warned_of_once (h : Session limit n moment) (hk : k < n) :
    (∀ ws task e request next content child,
      moment k = ⟨ws, .work task (.ask e request next)⟩ →
      let parent := requester (moment k).stack request
      let f := Fingerprint.ofContent content
      requested parent request e = .ok content → e.find? f = some child →
      ((e.template child).rendering = true ∨
        (e.template child).hasChild (e.template parent).fingerprint = true) →
      (moment k).closing? = some (parent, f, child) ∧ (e.template child).fingerprint = f ∧
      ∃ e', moment (k + 1) = ⟨ws, .work task (next e' (.ok (e.template child).output))⟩ ∧
        Broken parent child f e e' ∧
        (¬ ClosedBefore moment k parent f → 2 ≤ (e.template parent).options.reporting →
          Reported Diagnostic.includeCycle [cycleWarning parent child e] e (moment (k + 1)).engine) ∧
        (ClosedBefore moment k parent f ∨ (e.template parent).options.reporting < 2 →
          Reported Diagnostic.includeCycle [] e (moment (k + 1)).engine)) ∧
    ((moment k).closing? = none →
      Reported Diagnostic.includeCycle [] (moment k).engine (moment (k + 1)).engine ∨
        moment (k + 1) = ⟨[], .back (.ok []) (moment k).engine.takeReported.2⟩) := by
  have hm := h.reachable (Nat.le_of_lt hk)
  have hgoes := h.goes k hk
  have hwarned := h.warned_iff (Nat.le_of_lt hk)
  refine ⟨fun ws task e request next content child hmoment => ?_, fun hnone => ?_⟩
  · dsimp only
    generalize moment (k + 1) = m' at hgoes ⊢
    rw [hmoment] at hgoes hm hwarned ⊢
    intro hrequested hfind hcycle
    rw [Moment.stack_work] at hrequested hcycle ⊢
    have hclosing := closing?_eq_some hrequested hfind hcycle
    obtain ⟨hfingerprint, e', hnext, hbroken⟩ := hgoes.answered hm rfl hclosing
    have hclosing' : (⟨ws, .work task (.ask e request next)⟩ : Moment I).closing? =
        some (requester (task.id :: ws.map (·.task.id)) request, .ofContent content, child) := by
      unfold Moment.closing?
      rw [Moment.stack_work]
      simp only [hclosing, Option.map_some]
    have hreported := hgoes.reported_cycles hm
    rw [Moment.warnings, hclosing', hnext] at hreported
    have hwarnings := hreported.resolve_right (by simp)
    have hfirst := hwarned (requester (task.id :: ws.map (·.task.id)) request) (.ofContent content)
    dsimp only [Option.elim_some, cycleWarnings] at hwarnings
    refine ⟨hclosing', hfingerprint, e', hnext, hbroken, fun hnot hshown => ?_, fun hsilent => ?_⟩ <;>
      rw [hnext]
    · rwa [if_pos ⟨hfirst.not.mpr hnot, hshown⟩] at hwarnings
    · rwa [if_neg] at hwarnings
      rintro ⟨hnew, hshown⟩
      rcases hsilent with hclosed | hless
      · exact hnew (hfirst.mpr hclosed)
      · exact Nat.not_le.mpr hless hshown
  · have hreported := hgoes.reported_cycles hm
    rwa [Moment.warnings, hnone] at hreported

end Session

/-- The session in which the empty text, which includes itself, is registered and rendered. -/
def selfInclusion : Nat → Moment Including
  | 0 => ⟨[], .back (.ok []) {}⟩
  | 1 => ⟨[], .back (.ok []) selfIncluding⟩
  | 2 => ⟨[], .call false 0 {} selfIncluding⟩
  | k + 3 => (next? maxDepth (selfInclusion (k + 2))).getD (selfInclusion (k + 2))

private theorem session_selfInclusion : Session maxDepth 4 selfInclusion where
  start := ⟨{}, ⟨rfl, rfl, rfl⟩, rfl⟩
  goes k hk := by
    have hstep (k : Nat) (h : (next? maxDepth (selfInclusion (k + 2))).isSome = true) :
        Goes maxDepth (selfInclusion (k + 2)) (selfInclusion (k + 3)) :=
      .step (step_of_next? (by rw [selfInclusion, Option.eq_some_of_isSome h, Option.getD_some]))
    match k with
    | 0 => exact .operation (.register _ _ _)
    | 1 => exact .operation (.render {} (by decide))
    | 2 => exact hstep 0 (by decide +kernel)
    | 3 => exact hstep 1 (by decide +kernel)

/-- The text closes a cycle with itself, and is warned of it. -/
theorem cycles_are_broken_and_warned_of_once_self_inclusion :
    Session maxDepth 4 selfInclusion ∧ 3 < 4 ∧
      (selfInclusion 3).closing? = some (0, .ofContent [], 0) ∧
      Reported Diagnostic.includeCycle [cycleWarning 0 0 (selfInclusion 3).engine]
        (selfInclusion 3).engine (selfInclusion 4).engine := by
  have hlt : 3 < 4 := by decide
  have hcycle := (cycles_are_broken_and_warned_of_once session_selfInclusion hlt).1
  have hstack : (selfInclusion 3).stack = [0] := rfl
  obtain ⟨task, e, request, next, hmoment, hparent, hrequested, hrendering, hfind, hshown⟩ :
      ∃ task e request next, selfInclusion 3 = ⟨[], .work task (.ask e request next)⟩ ∧
        requester [0] request = 0 ∧ requested 0 request e = .ok [] ∧
        (e.template 0).rendering = true ∧ e.find? (.ofContent []) = some 0 ∧
        2 ≤ (e.template 0).options.reporting :=
    ⟨_, _, _, _, rfl, rfl, rfl, rfl, by decide +kernel, by decide +kernel⟩
  have hclosed := hcycle [] task e request next [] 0 hmoment
  rw [hstack, hparent] at hclosed
  obtain ⟨hclosing, -, e', hnext, -, hwarned, -⟩ := hclosed hrequested hfind (.inl hrendering)
  have hfirst : ¬ ClosedBefore selfInclusion 3 0 (.ofContent []) := by
    rintro ⟨j, hj, child, hbefore⟩
    match j with
    | 0 => cases hbefore
    | 1 => cases hbefore
    | 2 => cases hbefore
  have hengine : (selfInclusion 3).engine = e := by rw [hmoment]; rfl
  refine ⟨session_selfInclusion, hlt, hclosing, ?_⟩
  rw [hengine]
  exact hwarned hfirst hshown

end Engine

end Stencil
