import Stencil.Engine.Registry
import Stencil.Proofs.Engine.Nesting
/-!
# Templates by content

The registry finds a template by the fingerprint of its content, and has one entry for a fingerprint.
While a session goes on by itself, entries are only put in, and only those of contents that were loaded.
-/
namespace Stencil.Engine

open Relation

variable {I : Interpreter} {limit : Nat} {e e' e'' : Engine I} {id : TemplateId} {task : Task}
  {content : Text} {m m' : Moment I}

/-! ## The map -/

/-- No two entries have the same key, and the key of an entry is the fingerprint of the content of its
template. -/
structure Faithful (e : Engine I) : Prop where
  nodup : (e.entries.map (·.1)).Nodup
  valid : e.Valid
  key : ∀ entry ∈ e.entries, entry.1 = .ofContent (e.template entry.2).content
  fingerprint : ∀ entry ∈ e.entries, (e.template entry.2).fingerprint = entry.1

theorem Faithful.find?_iff (h : e.Faithful) {f : Fingerprint} :
    e.find? f = some id ↔ (f, id) ∈ e.entries := by
  constructor
  · intro hfind
    obtain ⟨entry, hentry, rfl⟩ := Option.map_eq_some_iff.mp hfind
    have hkey : entry.1 = f := by simpa using List.find?_some hentry
    exact hkey ▸ List.mem_of_find?_eq_some hentry
  · intro hmem
    cases hfind : e.entries.find? fun entry => entry.1 == f with
    | none => exact absurd (List.find?_eq_none.mp hfind _ hmem) (by simp)
    | some entry =>
        have hkey : entry.1 = f := by simpa using List.find?_some hfind
        have hsame : entry = (f, id) :=
          List.inj_on_of_nodup_map h.nodup (List.mem_of_find?_eq_some hfind) hmem hkey
        rw [find?, hfind, hsame]
        rfl

theorem find?_eq_none {f : Fingerprint} (h : e.find? f = none) :
    ∀ entry ∈ e.entries, entry.1 ≠ f := by
  intro entry hentry hkey
  rw [find?, Option.map_eq_none_iff, List.find?_eq_none] at h
  exact h entry hentry (by simpa using hkey)

/-- No content but its own has the fingerprint of an entry, as far as the registry can tell. -/
def Distinguishes (e : Engine I) (content : Text) : Prop :=
  ∀ entry ∈ e.entries, Fingerprint.ofContent (e.template entry.2).content = .ofContent content →
    (e.template entry.2).content = content

/-- Where fingerprints do not collide, the registry finds the one entry of a content. -/
theorem Faithful.find?_content_iff (h : e.Faithful) (hdistinct : e.Distinguishes content) :
    e.find? (.ofContent content) = some id ↔
      (∃ f, (f, id) ∈ e.entries) ∧ (e.template id).content = content := by
  rw [h.find?_iff]
  constructor
  · intro hmem
    exact ⟨⟨_, hmem⟩, hdistinct _ hmem (h.key _ hmem).symm⟩
  · rintro ⟨⟨f, hmem⟩, hcontent⟩
    have hkey := h.key _ hmem
    dsimp only at hkey
    rw [hcontent] at hkey
    exact hkey ▸ hmem

/-! ## What a step of a session does to it -/

/-- The template is of the same content. -/
structure SameContent (t t' : Template I) : Prop where
  content : t'.content = t.content
  fingerprint : t'.fingerprint = t.fingerprint

theorem SameContent.refl (t : Template I) : SameContent t t := ⟨rfl, rfl⟩

theorem SameContent.trans {t t' t'' : Template I} (h : SameContent t t') (h' : SameContent t' t'') :
    SameContent t t'' :=
  ⟨h'.content.trans h.content, h'.fingerprint.trans h.fingerprint⟩

/-- Nothing was put into the registry or taken out. -/
structure Retains (e e' : Engine I) : Prop where
  entries : e'.entries = e.entries
  length : e'.templates.length = e.templates.length
  template : ∀ i, SameContent (e.template i) (e'.template i)

/-- A content was put in that was not there. -/
structure Admits (content : Text) (e e' : Engine I) : Prop where
  absent : e.find? (.ofContent content) = none
  entries : e'.entries = e.entries ++ [(.ofContent content, e.templates.length)]
  length : e'.templates.length = e.templates.length + 1
  template : ∀ i < e.templates.length, SameContent (e.template i) (e'.template i)
  fingerprint : (e'.template e.templates.length).fingerprint = .ofContent content
  content : (e'.template e.templates.length).content = content

theorem Retains.refl (e : Engine I) : Retains e e := ⟨rfl, rfl, fun _ => .refl _⟩

theorem Retains.trans (h : Retains e e') (h' : Retains e' e'') : Retains e e'' :=
  ⟨h'.entries.trans h.entries, h'.length.trans h.length,
    fun i => (h.template i).trans (h'.template i)⟩

theorem Retains.admits (h : Retains e e') (h' : Admits content e' e'') : Admits content e e'' where
  absent := by
    have habsent := h'.absent
    rwa [find?, h.entries] at habsent
  entries := by rw [h'.entries, h.entries, h.length]
  length := by rw [h'.length, h.length]
  template i hi := (h.template i).trans (h'.template i (h.length ▸ hi))
  content := h.length ▸ h'.content
  fingerprint := h.length ▸ h'.fingerprint

theorem Admits.retains (h : Admits content e e') (h' : Retains e' e'') : Admits content e e'' where
  absent := h.absent
  entries := h'.entries.trans h.entries
  length := h'.length.trans h.length
  template i hi := (h.template i hi).trans (h'.template i)
  content := (h'.template _).content.trans h.content
  fingerprint := (h'.template _).fingerprint.trans h.fingerprint

theorem retains_of_eq (hentries : e'.entries = e.entries) (htemplates : e'.templates = e.templates) :
    Retains e e' := by
  refine ⟨hentries, by rw [htemplates], fun i => ?_⟩
  rw [show e'.template i = e.template i by rw [Engine.template, htemplates, Engine.template]]
  exact .refl _

theorem retains_modify {f : Template I → Template I} (h : ∀ t, SameContent t (f t)) :
    Retains e (e.modify id f) := by
  refine ⟨rfl, length_modify f, fun i => ?_⟩
  rcases template_modify_cases e id i f with hi | ⟨-, hi⟩ <;> rw [hi]
  · exact .refl _
  · exact h _

theorem retains_setScope (id : TemplateId) (scope : Option Json) (e : Engine I) :
    Retains e (e.setScope? id scope) := by
  cases scope with
  | none => exact .refl e
  | some scope => exact retains_modify fun _ => ⟨rfl, rfl⟩

theorem retains_renderStatic (id : TemplateId) (e : Engine I) : Retains e (renderStatic id e).2 := by
  unfold renderStatic
  dsimp only
  split
  · exact .refl e
  · have hticked : Retains e e.tick.tick := retains_of_eq rfl rfl
    refine hticked.trans (retains_modify fun t => ?_)
    exact ⟨rfl, rfl⟩

private theorem retains_own (h : Own task e e') : Retains e e' := by
  refine ⟨h.entries, h.length, fun i => ?_⟩
  by_cases hi : i = task.id
  · subst hi
    obtain ⟨program, lastFull, children, warned, hsame⟩ := h.self
    rw [hsame]
    exact ⟨rfl, rfl⟩
  · rw [h.others i hi]
    exact .refl _

private theorem retains_enter (again : Bool) (patch : Patch) (hid : id < e.templates.length) :
    Retains e (enter again id patch e).2 := by
  refine ⟨rfl, by simp [enter, applyPatch], fun i => ?_⟩
  by_cases hi : i = id
  · subst hi
    rw [template_enter_self hid]
    exact ⟨rfl, rfl⟩
  · rw [template_enter_of_ne hi]
    exact .refl _

private theorem retains_finish {answer : Except Error Execution × Collector} :
    Retains e (finish task e answer).2 := by
  have hreleased (log : Collector) : Retains e ((e.modify task.id task.release).report log) := by
    have hmodified : Retains e (e.modify task.id task.release) := retains_modify fun _ => ⟨rfl, rfl⟩
    exact hmodified.trans (retains_of_eq rfl rfl)
  rcases finish_cases task e answer with ⟨error, log, -, h⟩ | ⟨raw, log, -, h⟩ <;> rw [h]
  · exact hreleased log
  · obtain ⟨htemplates, hentries, -⟩ :=
      templates_complete task raw ((e.modify task.id task.release).report log)
    have hrecorded : Retains ((e.modify task.id task.release).report log)
        (((e.modify task.id task.release).report log).modify task.id
          (task.record raw ((e.modify task.id task.release).report log).clock.now)) :=
      retains_modify fun _ => ⟨rfl, rfl⟩
    exact ((hreleased log).trans hrecorded).trans (retains_of_eq hentries htemplates)

/-- A new template is put in beside the entries of other contents. -/
theorem admits_insert (source : Source) (content : Text) (base : Options) (patch : Patch)
    (scope : Option Json) (e : Engine I) :
    Admits content (remove (.ofContent content) e).2 (e.insert source content base patch scope).2 := by
  obtain ⟨options, created, hnew⟩ := exists_template_insert e source content base patch scope
  have htemplate : (e.insert source content base patch scope).2.template
      (remove (.ofContent content) e).2.templates.length = _ := hnew
  refine ⟨?_, rfl, length_insert .., fun i hi => ?_, by rw [htemplate], by rw [htemplate]⟩
  · simp [find?, remove]
  · rw [template_insert_of_lt e source content base patch scope hi]
    exact .refl _

theorem remove_of_absent {f : Fingerprint} (hf : e.find? f = none) : remove f e = (none, e) := by
  have hrest : (e.entries.filter fun entry => entry.1 != f) = e.entries :=
    List.filter_eq_self.mpr fun entry hentry => by simpa using find?_eq_none hf entry hentry
  rw [remove, hf, hrest]

theorem admits_insert_of_absent (source : Source) (base : Options) (patch : Patch)
    (scope : Option Json) (h : e.find? (.ofContent content) = none) :
    Admits content e (e.insert source content base patch scope).2 := by
  have hadmits := admits_insert source content base patch scope e
  rwa [remove_of_absent h] at hadmits

/-- A request changes the registry only where it loads a content that is not there. -/
theorem retains_or_admits_resolve (parent : TemplateId) (request : Request) (e : Engine I) :
    Retains e (resolve parent request e).2 ∨
      ∃ content, requested parent request e = .ok content ∧
        Admits content e (resolve parent request e).2 := by
  have hchild (f : Fingerprint) : Retains e (e.modify parent fun t => t.addChild f) :=
    retains_modify fun _ => ⟨rfl, rfl⟩
  have hreport (e : Engine I) (log : Collector) : Retains e (e.report log) := retains_of_eq rfl rfl
  unfold requested resolve
  dsimp only
  split
  · exact .inl (.refl e)
  · rename_i content hload
    split
    · split
      · have hnote (parent child : TemplateId) (log : Collector) (e : Engine I) :
            Retains e (noteCycle parent child log e).2 := by
          unfold noteCycle
          dsimp only
          split
          · exact .refl e
          · exact retains_modify fun _ => ⟨rfl, rfl⟩
        exact .inl ((((hchild _).trans (hnote ..)).trans (hreport ..)).trans
          (retains_renderStatic ..))
      · exact .inl (((hchild _).trans (hreport ..)).trans (retains_setScope ..))
    · rename_i hnone
      exact .inr ⟨content, hload, (((hchild _).trans (hreport ..)).admits
        (admits_insert_of_absent _ _ _ _ hnone)).retains (retains_setScope ..)⟩

/-- A request that cannot be loaded changes nothing. -/
theorem resolve_of_unloaded {parent : TemplateId} {request : Request} {error : Error}
    (h : requested parent request e = .error error) :
    resolve parent request e = (.reply (.error error), e) := by
  unfold requested at h
  unfold resolve
  dsimp only at h ⊢
  rw [h]

/-- A step puts in the content that a running template asks for, if it is not there, and nothing
else. -/
theorem Step.retains_or_admits (h : Step limit m m') (hs : Sound limit m) :
    Retains m.engine m'.engine ∨
      ∃ content, m.asked? = some content ∧ Admits content m.engine m'.engine := by
  have hasked {ws : List (Waiting I)} {task : Task} {e e' e'' : Engine I} {request : Request}
      {next : Engine I → Except String Text → Work I}
      (hresolve : (resolve (requester (task.id :: ws.map (·.task.id)) request) request e).2 = e')
      (hafter : Retains e' e'') : Retains e e'' ∨ ∃ content,
        Moment.asked? ⟨ws, .work task (.ask e request next)⟩ = some content ∧ Admits content e e'' := by
    subst hresolve
    rcases retains_or_admits_resolve _ request e with hretains | ⟨content, hrequested, hadmits⟩
    · exact .inl (hretains.trans hafter)
    · refine .inr ⟨content, ?_, hadmits.retains hafter⟩
      rw [Moment.asked?, Moment.stack_work]
      simp only [hrequested, Except.toOption]
  cases h with
  | deep => exact .inl (.refl _)
  | busy => exact .inl (.refl _)
  | closed => exact .inl (.refl _)
  | @begins ws again id patch e =>
      have hid : id < e.templates.length := hs.activity.1
      exact .inl ((retains_enter again patch hid).trans
        (retains_own (works_enter again patch hid rfl).stretch))
  | @answers ws task e request next reply e' hresolve =>
      have hb := beside_of_resolve hresolve
      obtain ⟨e₀, -, hworks⟩ := hs.activity
      have hheld : Held task.id e e' :=
        (hb.template _).untouched (hs.consistent.rendering_of_mem List.mem_cons_self)
      exact hasked (congrArg Prod.snd hresolve) (retains_own (hworks e' _ hheld).1)
  | descends hresolve => exact hasked (congrArg Prod.snd hresolve) (.refl _)
  | ends => exact .inl retains_finish
  | @returns w ws result e =>
      obtain ⟨e₀, -, hready⟩ := hs.resumes w ws (List.suffix_refl _)
      exact .inl (retains_own (hready e _ (held_of_eq rfl)).1)

/-! ## The map stays faithful -/

theorem Faithful.retains (h : e.Faithful) (h' : Retains e e') : e'.Faithful where
  nodup := h'.entries ▸ h.nodup
  valid entry hentry := h'.length ▸ h.valid entry (h'.entries ▸ hentry)
  key entry hentry := by rw [(h'.template _).content, h.key entry (h'.entries ▸ hentry)]
  fingerprint entry hentry := by
    rw [(h'.template _).fingerprint, h.fingerprint entry (h'.entries ▸ hentry)]

theorem Faithful.remove (h : e.Faithful) (f : Fingerprint) : (Engine.remove f e).2.Faithful where
  nodup := h.nodup.sublist (List.filter_sublist.map _)
  valid entry hentry := h.valid entry (List.mem_filter.mp hentry).1
  key entry hentry := h.key entry (List.mem_filter.mp hentry).1
  fingerprint entry hentry := h.fingerprint entry (List.mem_filter.mp hentry).1

private theorem Faithful.admits (h : e.Faithful) (h' : Admits content e e') : e'.Faithful := by
  have hcases {entry : Fingerprint × TemplateId} (hentry : entry ∈ e'.entries) :
      entry ∈ e.entries ∧ SameContent (e.template entry.2) (e'.template entry.2) ∨
        entry = (.ofContent content, e.templates.length) := by
    rw [h'.entries, List.mem_append, List.mem_singleton] at hentry
    exact hentry.imp_left fun hold => ⟨hold, h'.template _ (h.valid _ hold)⟩
  refine ⟨?_, fun entry hentry => ?_, fun entry hentry => ?_, fun entry hentry => ?_⟩
  · rw [h'.entries, List.map_append, List.map_singleton, ← List.concat_eq_append]
    refine List.Nodup.concat ?_ h.nodup
    simpa using fun id hmem => find?_eq_none h'.absent _ hmem rfl
  · rw [h'.length]
    rcases hcases hentry with ⟨hmem, -⟩ | rfl
    · exact (h.valid entry hmem).trans (Nat.lt_succ_self _)
    · exact Nat.lt_succ_self _
  · rcases hcases hentry with ⟨hmem, hsame⟩ | rfl
    · rw [hsame.content, h.key entry hmem]
    · rw [h'.content]
  · rcases hcases hentry with ⟨hmem, hsame⟩ | rfl
    · rw [hsame.fingerprint, h.fingerprint entry hmem]
    · rw [h'.fingerprint]

private theorem Faithful.insert (h : e.Faithful) (source : Source) (content : Text) (base : Options)
    (patch : Patch) (scope : Option Json) : (e.insert source content base patch scope).2.Faithful :=
  (h.remove _).admits (admits_insert source content base patch scope e)

private theorem Operation.faithful {activity : Activity I} (h : Operation e activity)
    (hf : e.Faithful) : (Moment.engine ⟨[], activity⟩).Faithful := by
  cases h with
  | create source patch scope =>
      simp only [Moment.engine]
      unfold Engine.create
      split
      · exact hf
      · split
        · exact hf
        · exact hf.insert ..
  | register source patch scope =>
      simp only [Moment.engine]
      unfold Engine.register
      split
      · exact hf
      · exact hf.insert ..
  | remove f => exact hf.remove f
  | setScope id scope => exact hf.retains (retains_setScope id (some scope) e)
  | renderStatic id => exact hf.retains (retains_renderStatic id e)
  | _ => exact hf.retains (retains_of_eq rfl rfl)

theorem Reachable.faithful (h : Reachable limit m) : m.engine.Faithful := by
  induction h with
  | @start e hnew =>
      have hnone : (Moment.engine ⟨[], .back (.ok []) e⟩).entries = [] := hnew.entries
      exact ⟨by simp [hnone], by simp [Valid, hnone], by simp [hnone], by simp [hnone]⟩
  | goes hm hgoes ih =>
      cases hgoes with
      | step hstep =>
          rcases hstep.retains_or_admits hm.sound with hretains | ⟨content, -, hadmits⟩
          · exact ih.retains hretains
          · exact ih.admits hadmits
      | operation hoperation => exact hoperation.faithful ih

/-! ## Renders -/

/-- On the way from one moment to another a running template asked for this content. -/
def Loads (limit : Nat) (m m' : Moment I) (content : Text) : Prop :=
  ∃ asks, ReflTransGen (Step limit) m asks ∧ ReflTransGen (Step limit) asks m' ∧
    asks.asked? = some content

/-- All entries are still there, and the new ones are of these contents. -/
def Extends (contents : Text → Prop) (e e' : Engine I) : Prop :=
  ∃ added, e'.entries = e.entries ++ added ∧
    ∀ entry ∈ added, ∃ content, contents content ∧ entry.1 = .ofContent content

theorem Extends.trans {contents contents' : Text → Prop} (h : Extends contents e e')
    (h' : Extends contents' e' e'') : Extends (fun t => contents t ∨ contents' t) e e'' := by
  obtain ⟨added, hentries, hkeys⟩ := h
  obtain ⟨added', hentries', hkeys'⟩ := h'
  refine ⟨added ++ added', by rw [hentries', hentries, List.append_assoc], fun entry hentry => ?_⟩
  rcases List.mem_append.mp hentry with hentry | hentry
  · exact (hkeys entry hentry).imp fun _ h => ⟨.inl h.1, h.2⟩
  · exact (hkeys' entry hentry).imp fun _ h => ⟨.inr h.1, h.2⟩

theorem Extends.imp {contents contents' : Text → Prop} (h : Extends contents e e')
    (himp : ∀ t, contents t → contents' t) : Extends contents' e e' := by
  obtain ⟨added, hentries, hkeys⟩ := h
  exact ⟨added, hentries, fun entry hentry => (hkeys entry hentry).imp fun t h => ⟨himp t h.1, h.2⟩⟩

private theorem extends_of_eq (contents : Text → Prop) (h : e'.entries = e.entries) :
    Extends contents e e' :=
  ⟨[], by rw [h, List.append_nil], by simp⟩

private theorem Admits.extends (h : Admits content e e') : Extends (· = content) e e' := by
  refine ⟨_, h.entries, fun entry hentry => ⟨content, rfl, ?_⟩⟩
  rw [List.mem_singleton.mp hentry]

/-- While a session goes on by itself, the registry loses nothing, and gains what was asked for. -/
theorem extends_of_steps (hm : Reachable limit m) (hsteps : ReflTransGen (Step limit) m m') :
    Extends (Loads limit m m') m.engine m'.engine := by
  induction hsteps with
  | refl => exact extends_of_eq _ rfl
  | @tail b c hbefore hstep ih =>
      have hlater (t : Text) : Loads limit m b t → Loads limit m c t :=
        fun ⟨asks, hto, hfrom, hasks⟩ => ⟨asks, hto, hfrom.tail hstep, hasks⟩
      rcases hstep.retains_or_admits (hm.of_steps hbefore).sound with hretains | ⟨content, hasked, hadmits⟩
      · exact (ih.trans (extends_of_eq (Loads limit m c) hretains.entries)).imp fun t h =>
          h.elim (hlater t) id
      · refine (ih.trans hadmits.extends).imp fun t h => h.elim (hlater t) ?_
        rintro rfl
        exact ⟨b, hbefore, .single hstep, hasked⟩

/-! ## Operations -/

/-- A content was put in, in place of what was there of it. All templates are as they were. -/
structure Replaces (content : Text) (e e' : Engine I) : Prop where
  entries : e'.entries = (e.entries.filter fun entry => entry.1 != .ofContent content) ++
    [(.ofContent content, e.templates.length)]
  templates : ∃ t, e'.templates = e.templates ++ [t] ∧ t.content = content ∧
    t.fingerprint = .ofContent content
  shared : e'.shared = e.shared

private theorem replaces_insert (source : Source) (content : Text) (base : Options) (patch : Patch)
    (scope : Option Json) (e : Engine I) :
    Replaces content e (e.insert source content base patch scope).2 :=
  ⟨rfl, ⟨_, rfl, rfl, rfl⟩, rfl⟩

theorem create_of_present {source : Source} (patch : Patch) (scope : Option Json)
    (hload : source.load e.disk = .ok content) (h : e.find? (.ofContent content) = some id) :
    create source patch scope e = (.ok id, e) := by
  unfold create
  simp only [hload, h]

theorem create_of_absent {source : Source} (patch : Patch) (scope : Option Json)
    (hload : source.load e.disk = .ok content) (h : e.find? (.ofContent content) = none) :
    create source patch scope e =
      (.ok e.templates.length, (e.insert source content e.defaults patch scope).2) := by
  unfold create
  simp only [hload, h]
  rfl

theorem register_of_loaded {source : Source} (patch : Patch) (scope : Option Json)
    (hload : source.load e.disk = .ok content) :
    register source patch scope e =
      (.ok e.templates.length, (e.insert source content e.defaults patch scope).2) := by
  unfold register
  simp only [hload]
  rfl

/-- A removed entry was the only one of its key. -/
theorem remove_of_present (h : e.Faithful) {f : Fingerprint} (hf : e.find? f = some id) :
    ∃ before after, e.entries = before ++ (f, id) :: after ∧
      remove f e = (some id, { e with entries := before ++ after }) := by
  obtain ⟨before, after, hentries⟩ := List.append_of_mem (h.find?_iff.mp hf)
  have hnodup := h.nodup
  rw [hentries, List.map_append, List.map_cons, List.nodup_append, List.nodup_cons] at hnodup
  obtain ⟨-, ⟨hafter, -⟩, hbefore⟩ := hnodup
  have hothers {l : List (Fingerprint × TemplateId)} (hl : ∀ entry ∈ l, entry.1 ≠ f) :
      (l.filter fun entry => entry.1 != f) = l :=
    List.filter_eq_self.mpr fun entry hentry => by simpa using hl entry hentry
  refine ⟨before, after, hentries, ?_⟩
  have hrest : (e.entries.filter fun entry => entry.1 != f) = before ++ after := by
    rw [hentries, List.filter_append, List.filter_cons_of_neg (by simp), hothers, hothers]
    · exact fun entry hentry hkey => hafter (List.mem_map.mpr ⟨entry, hentry, hkey⟩)
    · exact fun entry hentry => hbefore _ (List.mem_map_of_mem hentry) _ List.mem_cons_self
  rw [remove, hf, hrest]

/-- A render of a source begins as a render of the template of its content. -/
theorem renderSource_begins {result : Except Error Text}
    (h : Reachable maxDepth ⟨[], .back result e⟩) {source : Source} (patch : Patch)
    (scope : Option Json) (hload : source.load e.disk = .ok content) :
    ∃ id patch' e₀, Reachable maxDepth ⟨[], .call false id patch' e₀⟩ ∧
      renderSource source patch scope e = render id patch' e₀ ∧ (Retains e e₀ ∨ Admits content e e₀) := by
  unfold renderSource
  simp only [hload]
  cases hfind : e.find? (.ofContent content) with
  | some id =>
      have hid : id < e.templates.length := h.faithful.valid.find? hfind
      refine ⟨id, patch, e.setScope? id scope, ?_, rfl, .inl (retains_setScope id scope e)⟩
      cases scope with
      | none => exact h.goes (.operation (.render patch hid))
      | some scope =>
          exact (h.goes (.operation (.setScope id scope))).goes
            (.operation (.render patch (by simpa [setScope?, setScope] using hid)))
  | none =>
      have hregistered := h.goes (.operation (.register source patch scope))
      rw [register_of_loaded patch scope hload] at hregistered
      refine ⟨e.templates.length, {}, _, hregistered.goes (.operation (.render {} ?_)), rfl,
        .inr (admits_insert_of_absent source e.defaults patch scope hfind)⟩
      rw [length_insert]
      exact Nat.lt_succ_self _

/-- At every moment of a session the registry is a map from contents to templates: the key of an entry
is the fingerprint of its content, and no key has two entries, so that where fingerprints do not collide
a content has one, which is found. A source that is loaded and there is not created again, and nothing
changes; to register it replaces its entry and no other. Renders take no entry out and put in those of
contents that they load. To remove an entry takes out no other. A source that cannot be loaded changes
nothing, whether it is asked for from outside or by a running template. -/
theorem registry_maps_contents (h : Reachable maxDepth m) :
    let e := m.engine
    (e.Faithful ∧ ∀ content id, e.Distinguishes content → (e.find? (.ofContent content) = some id ↔
      (∃ f, (f, id) ∈ e.entries) ∧ (e.template id).content = content)) ∧
    (∀ source patch scope content, source.load e.disk = .ok content →
      (∀ id, e.find? (.ofContent content) = some id → create source patch scope e = (.ok id, e)) ∧
      (e.find? (.ofContent content) = none → ∃ e', Replaces content e e' ∧
        create source patch scope e = (.ok e.templates.length, e')) ∧
      ∃ e', Replaces content e e' ∧
        register source patch scope e = (.ok e.templates.length, e')) ∧
    (∀ m', ReflTransGen (Step maxDepth) m m' → Extends (Loads maxDepth m m') e m'.engine) ∧
    (∀ result, m = ⟨[], .back result e⟩ →
      ∀ source patch scope content, source.load e.disk = .ok content →
      ∃ begins returns, Reachable maxDepth returns ∧ ReflTransGen (Step maxDepth) begins returns ∧
        returns = ⟨[], .back (renderSource source patch scope e).1
          (renderSource source patch scope e).2⟩ ∧
        Extends (fun t => t = content ∨ Loads maxDepth begins returns t) e returns.engine) ∧
    (∀ f, (e.find? f = none → remove f e = (none, e)) ∧
      ∀ id, e.find? f = some id → ∃ before after, e.entries = before ++ (f, id) :: after ∧
        remove f e = (some id, { e with entries := before ++ after })) ∧
    (∀ source patch scope error, source.load e.disk = .error error →
      create source patch scope e = (.error error, e) ∧
      register source patch scope e = (.error error, e) ∧
      renderSource source patch scope e = (.error error, e) ∧ get? source e = .error error) ∧
    ∀ ws task request next error, m = ⟨ws, .work task (.ask e request next)⟩ →
      requested (requester m.stack request) request e = .error error →
      Step maxDepth m ⟨ws, .work task (next e (.error error.message))⟩ := by
  refine ⟨⟨h.faithful, fun content id hdistinct => h.faithful.find?_content_iff hdistinct⟩,
    fun source patch scope content hload => ⟨fun id => create_of_present patch scope hload,
      fun hnone => ⟨_, replaces_insert .., create_of_absent patch scope hload hnone⟩,
      _, replaces_insert .., register_of_loaded patch scope hload⟩,
    fun m' hsteps => extends_of_steps h hsteps, fun result hm source patch scope content hload => ?_,
    fun f => ⟨remove_of_absent, fun id => remove_of_present h.faithful⟩,
    fun source patch scope error hload => ?_, fun ws task request next error hm hrequested => ?_⟩
  · rw [hm] at h
    obtain ⟨id, patch', e₀, hbegins, hrender, hbefore⟩ := renderSource_begins h patch scope hload
    have hsteps : ReflTransGen (Step maxDepth) ⟨[], .call false id patch' e₀⟩
        ⟨[], .back (render id patch' e₀).1 (render id patch' e₀).2⟩ := steps_renderTo [] (by simp)
    rw [hrender]
    refine ⟨_, _, hbegins.of_steps hsteps, hsteps, rfl, ?_⟩
    have hput : Extends (· = content) m.engine e₀ :=
      hbefore.elim (fun hretains => extends_of_eq _ hretains.entries) Admits.extends
    exact hput.trans (extends_of_steps hbegins hsteps)
  · unfold create register renderSource get?
    simp only [hload, and_self]
  · generalize m.engine = e at hm hrequested ⊢
    subst hm
    rw [Moment.stack_work] at hrequested
    exact .answers (resolve_of_unloaded hrequested)

/-- The empty text is registered: to create it again changes nothing, to register it again replaces its
one entry, and a file that does not exist changes nothing. -/
theorem registry_maps_contents_registered :
    Reachable maxDepth ⟨[], .back (.ok []) selfIncluding⟩ ∧ selfIncluding.Faithful ∧
      create (.inline []) {} none selfIncluding = (.ok 0, selfIncluding) ∧
      (∃ e', Replaces [] selfIncluding e' ∧
        register (.inline []) {} none selfIncluding = (.ok 1, e')) ∧
      (remove (.ofContent []) selfIncluding).1 = some 0 ∧
      ∃ error, renderSource (.file ['x']) {} none selfIncluding = (.error error, selfIncluding) := by
  have hreachable : Reachable maxDepth ⟨[], .back (.ok []) selfIncluding⟩ :=
    (Reachable.start ⟨rfl, rfl, rfl⟩).goes (.operation (.register _ _ _))
  obtain ⟨⟨hfaithful, -⟩, hsources, -, -, hremove, hunloaded, -⟩ := registry_maps_contents hreachable
  have hfound : selfIncluding.find? (.ofContent []) = some 0 := by decide +kernel
  obtain ⟨hpresent, -, hregister⟩ := hsources (.inline []) {} none [] rfl
  obtain ⟨before, after, -, hremoved⟩ := (hremove _).2 0 hfound
  have hmissing : ∃ error, (Source.file ['x']).load selfIncluding.disk = .error error := ⟨_, rfl⟩
  obtain ⟨error, hmissing⟩ := hmissing
  exact ⟨hreachable, hfaithful, hpresent 0 hfound, hregister, congrArg Prod.fst hremoved,
    error, (hunloaded _ {} none error hmissing).2.2.1⟩

end Stencil.Engine
