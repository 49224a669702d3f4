import Stencil.Engine.Registry
import Mathlib.Order.Nat
/-!
# What the operations of an engine change

An operation changes one template, or puts a new one in, and adds to what the engine keeps beside
its templates. What a nested render does to a template depends on whether that one is being rendered:
if so, nothing but what is noted about its children.
-/
namespace Stencil

variable {I : Interpreter}

/-! ## Templates -/

namespace History

/-- The counts of a history are those of its entries, and the last type is that of the last. -/
structure Tallied (h : History) : Prop where
  total : h.total = h.times.length
  count : ∀ type, h.count type = h.times.countP fun t => t.1 = type
  last : h.lastType = h.times.getLast?.map (·.1)

theorem tallied_new : Tallied {} := ⟨rfl, fun type => by cases type <;> rfl, rfl⟩

theorem Tallied.record {h : History} (ht : h.Tallied) (type : RenderType)
    (started duration now : Nat) : (h.record type started duration now).Tallied := by
  refine ⟨?_, fun type' => ?_, by simp [History.record]⟩
  · have htotal := ht.total
    simp only [History.total] at htotal
    cases type <;> simp [History.record, History.total, ← htotal] <;> omega
  · have hcount := ht.count type'
    cases type <;> cases type' <;>
      simp [History.record, History.count] at hcount ⊢ <;> exact hcount

theorem Tallied.invalidate {h : History} (ht : h.Tallied) : h.invalidate.Tallied :=
  ⟨ht.total, ht.count, ht.last⟩

end History

namespace Template

/-- Nothing changed but what is noted about the children. -/
def Untouched (t t' : Template I) : Prop :=
  ∃ children warned, t' = { t with children, warned }

/-- Nothing changed but what a render does to its template before it ends. -/
def Underway (t t' : Template I) : Prop :=
  ∃ program lastFull children warned,
    t' = { t with program, children, warned, history := { t.history with lastFull } }

theorem Untouched.refl (t : Template I) : Untouched t t := ⟨t.children, t.warned, rfl⟩

theorem Untouched.trans {t t' t'' : Template I} (h : Untouched t t') (h' : Untouched t' t'') :
    Untouched t t'' := by
  obtain ⟨children, warned, rfl⟩ := h
  obtain ⟨children', warned', rfl⟩ := h'
  exact ⟨children', warned', rfl⟩

theorem Underway.refl (t : Template I) : Underway t t :=
  ⟨t.program, t.history.lastFull, t.children, t.warned, rfl⟩

theorem Underway.trans {t t' t'' : Template I} (h : Underway t t') (h' : Underway t' t'') :
    Underway t t'' := by
  obtain ⟨program, lastFull, children, warned, rfl⟩ := h
  obtain ⟨program', lastFull', children', warned', rfl⟩ := h'
  exact ⟨program', lastFull', children', warned', rfl⟩

theorem Untouched.underway {t t' : Template I} (h : Untouched t t') : Underway t t' := by
  obtain ⟨children, warned, rfl⟩ := h
  exact ⟨t.program, t.history.lastFull, children, warned, rfl⟩

theorem underway_forgetProgram (t : Template I) (children : List Fingerprint) :
    Underway t { t.forgetProgram with children } :=
  ⟨none, none, children, t.warned, rfl⟩

/-- A program there is was there before, with the content and the options it was compiled under. -/
structure Carried (t t' : Template I) : Prop where
  program : t'.program = t.program
  lastFull : t'.history.lastFull = t.history.lastFull
  options : t'.options = t.options
  content : t'.content = t.content

/-- What the nested renders of others may do to a template. -/
structure Beside (t t' : Template I) : Prop where
  rendering : t'.rendering = t.rendering
  untouched : t.rendering = true → Untouched t t'
  carried : t'.program = none ∨ Carried t t'
  tallied : t.history.Tallied → t'.history.Tallied

theorem Carried.trans {t t' t'' : Template I} (h : Carried t t') (h' : Carried t' t'') :
    Carried t t'' :=
  ⟨h'.program.trans h.program, h'.lastFull.trans h.lastFull, h'.options.trans h.options,
    h'.content.trans h.content⟩

theorem Untouched.beside {t t' : Template I} (h : Untouched t t') : Beside t t' := by
  obtain ⟨children, warned, rfl⟩ := h
  exact ⟨rfl, fun _ => ⟨children, warned, rfl⟩, .inr ⟨rfl, rfl, rfl, rfl⟩, id⟩

theorem Beside.refl (t : Template I) : Beside t t := (Untouched.refl t).beside

theorem Beside.trans {t t' t'' : Template I} (h : Beside t t') (h' : Beside t' t'') :
    Beside t t'' where
  rendering := h'.rendering.trans h.rendering
  untouched hr := (h.untouched hr).trans (h'.untouched (h.rendering.trans hr))
  carried := by
    rcases h'.carried with hnone | hcarried
    · exact .inl hnone
    · exact h.carried.imp (fun hnone => hcarried.program.trans hnone) (·.trans hcarried)
  tallied := h'.tallied ∘ h.tallied

theorem beside_scope {t : Template I} (h : t.rendering = false) (scope : Json) :
    Beside t { t with scope } :=
  ⟨rfl, fun hr => absurd hr (by simp [h]), .inr ⟨rfl, rfl, rfl, rfl⟩, id⟩

theorem beside_record {t : Template I} (h : t.rendering = false) (started duration now : Nat) :
    Beside t { t with history := t.history.record .fixed started duration now } :=
  ⟨rfl, fun hr => absurd hr (by simp [h]), .inr ⟨rfl, rfl, rfl, rfl⟩, fun ht => ht.record ..⟩

end Template

namespace Engine

variable {e : Engine I} {id : TemplateId}

/-! ## One template at a time -/

theorem template_of_length_le (h : e.templates.length ≤ id) : e.template id = default := by
  rw [template, List.getD_eq_getElem?_getD, List.getElem?_eq_none h]
  rfl

theorem lt_length_of_rendering (h : (e.template id).rendering = true) :
    id < e.templates.length := by
  by_contra hlt
  rw [template_of_length_le (Nat.le_of_not_lt hlt)] at h
  exact absurd h Bool.false_ne_true

theorem lt_length_of_program {program : I.Program} (h : (e.template id).program = some program) :
    id < e.templates.length := by
  by_contra hge
  rw [template_of_length_le (Nat.le_of_not_lt hge)] at h
  cases h

@[simp] theorem length_modify (f : Template I → Template I) :
    (e.modify id f).templates.length = e.templates.length := by
  simp [modify]

theorem template_modify_of_ne {i : TemplateId} (h : i ≠ id) (f : Template I → Template I) :
    (e.modify id f).template i = e.template i := by
  simp [template, modify, h.symm]

theorem template_modify_self (h : id < e.templates.length) (f : Template I → Template I) :
    (e.modify id f).template id = f (e.template id) := by
  simp [template, modify, h]

theorem template_modify_cases (e : Engine I) (id i : TemplateId) (f : Template I → Template I) :
    (e.modify id f).template i = e.template i ∨
      i = id ∧ (e.modify id f).template i = f (e.template i) := by
  by_cases hi : i = id
  · subst hi
    by_cases hlt : i < e.templates.length
    · exact .inr ⟨rfl, template_modify_self hlt f⟩
    · refine .inl ?_
      rw [template_of_length_le (by simpa using hlt), template_of_length_le (by simpa using hlt)]
  · exact .inl (template_modify_of_ne hi f)

@[simp] theorem entries_modify (f : Template I → Template I) :
    (e.modify id f).entries = e.entries := rfl

@[simp] theorem alive_modify (f : Template I → Template I) : (e.modify id f).alive = e.alive := rfl

@[simp] theorem templates_report (log : Collector) : (e.report log).templates = e.templates := rfl

@[simp] theorem templates_tick : e.tick.templates = e.templates := rfl

@[simp] theorem template_report (log : Collector) (i : TemplateId) :
    (e.report log).template i = e.template i := rfl

@[simp] theorem template_tick (i : TemplateId) : e.tick.template i = e.template i := rfl

/-! ## What nested renders leave as it is -/

/-- The registry finds templates that there are. -/
def Valid (e : Engine I) : Prop := ∀ entry ∈ e.entries, entry.2 < e.templates.length

theorem Valid.find? (h : e.Valid) {f : Fingerprint} (hf : e.find? f = some id) :
    id < e.templates.length := by
  obtain ⟨entry, hentry, rfl⟩ := Option.map_eq_some_iff.mp hf
  exact h entry (List.mem_of_find?_eq_some hentry)

/-- Templates and entries are there to stay. -/
structure Grown (e e' : Engine I) : Prop where
  length : e.templates.length ≤ e'.templates.length
  found : ∀ {f id}, e.find? f = some id → e'.find? f = some id
  valid : e.Valid → e'.Valid
  alive : e'.alive = e.alive

theorem Grown.trans {e e' e'' : Engine I} (h : Grown e e') (h' : Grown e' e'') : Grown e e'' :=
  ⟨h.length.trans h'.length, h'.found ∘ h.found, h'.valid ∘ h.valid, h'.alive.trans h.alive⟩

theorem grown_of_eq {e' : Engine I} (hlength : e'.templates.length = e.templates.length)
    (hentries : e'.entries = e.entries) (halive : e'.alive = e.alive) : Grown e e' := by
  refine ⟨hlength.ge, fun {f id} h => ?_, fun h entry hentry => ?_, halive⟩
  · rwa [find?, hentries]
  · rw [hlength]
    exact h entry (hentries ▸ hentry)

theorem Grown.refl (e : Engine I) : Grown e e := grown_of_eq rfl rfl rfl

theorem grown_modify (f : Template I → Template I) : Grown e (e.modify id f) :=
  grown_of_eq (length_modify f) rfl rfl

/-- What a nested render does to an engine beside rendering its child. -/
structure Beside (e e' : Engine I) : Prop extends Grown e e' where
  template : ∀ i, Template.Beside (e.template i) (e'.template i)

theorem Beside.trans {e e' e'' : Engine I} (h : Beside e e') (h' : Beside e' e'') : Beside e e'' :=
  ⟨h.toGrown.trans h'.toGrown, fun i => (h.template i).trans (h'.template i)⟩

theorem beside_of_eq {e' : Engine I} (htemplates : e'.templates = e.templates)
    (hentries : e'.entries = e.entries) (halive : e'.alive = e.alive) : Beside e e' := by
  refine ⟨grown_of_eq (by rw [htemplates]) hentries halive, fun i => ?_⟩
  rw [show e'.template i = e.template i by rw [Engine.template, htemplates, Engine.template]]
  exact Template.Beside.refl _

theorem Beside.refl (e : Engine I) : Beside e e := beside_of_eq rfl rfl rfl

theorem beside_report (e : Engine I) (log : Collector) : Beside e (e.report log) :=
  beside_of_eq rfl rfl rfl

theorem beside_tick (e : Engine I) : Beside e e.tick := beside_of_eq rfl rfl rfl

theorem beside_modify {f : Template I → Template I}
    (h : Template.Beside (e.template id) (f (e.template id))) : Beside e (e.modify id f) := by
  refine ⟨grown_modify f, fun i => ?_⟩
  rcases template_modify_cases e id i f with hi | ⟨rfl, hi⟩ <;> rw [hi]
  · exact Template.Beside.refl _
  · exact h

theorem beside_setScope (h : (e.template id).rendering = false) (scope : Option Json) :
    Beside e (e.setScope? id scope) := by
  cases scope with
  | none => exact Beside.refl e
  | some scope => exact beside_modify (Template.beside_scope h scope)

/-! ## New templates -/

section Insert

variable (e) (source : Source) (content : Text) (base : Options) (patch : Patch)
  (scope : Option Json)

@[simp] theorem insert_fst : (e.insert source content base patch scope).1 = e.templates.length := rfl

theorem length_insert :
    (e.insert source content base patch scope).2.templates.length = e.templates.length + 1 := by
  simp [insert]

theorem template_insert_of_lt {i : TemplateId} (h : i < e.templates.length) :
    (e.insert source content base patch scope).2.template i = e.template i := by
  simp [insert, template, List.getElem?_append, h]

/-- A new template has not been rendered yet. -/
theorem exists_template_insert : ∃ options, ∃ created,
    (e.insert source content base patch scope).2.template e.templates.length =
      { source, content, fingerprint := .ofContent content, created, options
        scope := scope.getD .null } := by
  simp [insert, template]

theorem valid_insert (h : e.Valid) : (e.insert source content base patch scope).2.Valid := by
  intro entry hentry
  rw [length_insert]
  have hmem : entry ∈ (e.entries.filter fun entry => entry.1 != .ofContent content) ++
      [(.ofContent content, e.templates.length)] := hentry
  rcases List.mem_append.mp hmem with hold | hnew
  · exact (h entry (List.mem_filter.mp hold).1).trans (Nat.lt_succ_self _)
  · rw [List.mem_singleton.mp hnew]
    exact Nat.lt_succ_self _

theorem entries_insert : (e.insert source content base patch scope).2.entries =
    (e.entries.filter fun entry => entry.1 != .ofContent content) ++
      [(.ofContent content, e.templates.length)] := rfl

theorem find?_insert_self :
    (e.insert source content base patch scope).2.find? (.ofContent content) =
      some e.templates.length := by
  have hnone : (e.entries.filter fun entry => entry.1 != .ofContent content).find?
      (fun entry => entry.1 == .ofContent content) = none := by
    simp
  rw [find?, entries_insert, List.find?_append, hnone]
  simp

theorem find?_insert_of_ne {f : Fingerprint} (h : f ≠ .ofContent content) :
    (e.insert source content base patch scope).2.find? f = e.find? f := by
  have hsame : (e.entries.filter fun entry => entry.1 != .ofContent content).find?
      (fun entry => entry.1 == f) = e.entries.find? fun entry => entry.1 == f := by
    rw [List.find?_filter]
    congr 1
    funext entry
    by_cases hf : entry.1 = f
    · simp [hf, h]
    · simp [hf]
  have hlast : (Fingerprint.ofContent content == f) = false := by simpa using h.symm
  rw [find?, entries_insert, List.find?_append, hsame, find?]
  simp [hlast]

theorem template_insert_cases (i : TemplateId) :
    (e.insert source content base patch scope).2.template i = e.template i ∨
      i = e.templates.length := by
  rcases Nat.lt_trichotomy i e.templates.length with hi | hi | hi
  · exact .inl (template_insert_of_lt e source content base patch scope hi)
  · exact .inr hi
  · refine .inl ?_
    rw [template_of_length_le (by rw [length_insert]; omega), template_of_length_le (Nat.le_of_lt hi)]

theorem beside_insert (h : e.find? (.ofContent content) = none) :
    Beside e (e.insert source content base patch scope).2 := by
  refine ⟨⟨by rw [length_insert]; omega, fun {f id} hf => ?_, valid_insert _ _ _ _ _ _, rfl⟩, fun i => ?_⟩
  · rw [find?_insert_of_ne _ _ _ _ _ _ (fun heq => by simp [heq, h] at hf), hf]
  · rcases template_insert_cases e source content base patch scope i with hi | rfl
    · rw [hi]
      exact Template.Beside.refl _
    · obtain ⟨options, created, hnew⟩ := exists_template_insert e source content base patch scope
      rw [hnew, template_of_length_le le_rfl]
      exact ⟨rfl, fun hr => absurd hr Bool.false_ne_true, .inl rfl, fun _ => History.tallied_new⟩

end Insert

end Engine

end Stencil
