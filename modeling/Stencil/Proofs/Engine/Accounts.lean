import Stencil.Proofs.Engine.Ledger
/-!
# What becomes of diagnostics

Every diagnostic that a log accepts is reported once and so taken once, whichever way its render ends,
except where a nested render fails for want of its source: what its options were reported for is gone
with it.
-/
namespace Stencil

/-! ## Refused options -/

section Patch

variable {log : Collector} {P : Diagnostic → Prop}

/-- What a log accepts is stamped, but keeps its code. -/
private theorem code_of_add {d : Diagnostic} {code : String} (h : d.code = code)
    (hlog : ∀ x ∈ log.entries, x.code = code) : ∀ x ∈ (log.add d).entries, x.code = code := by
  intro x hx
  unfold Collector.add at hx
  split at hx
  · rcases List.mem_append.mp hx with hx | hx
    · exact hlog x hx
    · rw [List.mem_singleton.mp hx]
      exact h
  · exact hlog x hx

private theorem code_of_setEntry (p : Patch) (key : String) (value : Json)
    (hlog : ∀ x ∈ log.entries, x.code = Diagnostic.invalidOption) :
    ∀ x ∈ (p.setEntry log key value).2.entries, x.code = Diagnostic.invalidOption := by
  have hfield {α : Type} (reading : Patch.Reading α) (set : Option α → Patch) :
      ∀ x ∈ (Patch.setField log key value reading set).2.entries,
        x.code = Diagnostic.invalidOption := by
    cases reading with
    | ok => exact hlog
    | error => exact code_of_add rfl hlog
  unfold Patch.setEntry
  split <;> first | exact hfield _ _ | exact code_of_add rfl hlog

/-- The options of a nested render are refused with one code. -/
theorem code_of_ofJson (value : Json)
    (hlog : ∀ x ∈ log.entries, x.code = Diagnostic.invalidOption) :
    ∀ x ∈ (Patch.ofJson value log).2.entries, x.code = Diagnostic.invalidOption := by
  have hfields (fields : List (String × Json)) (p : Patch) (log : Collector)
      (hlog : ∀ x ∈ log.entries, x.code = Diagnostic.invalidOption) :
      ∀ x ∈ (fields.foldl (fun read field =>
        Patch.setEntry read.1 read.2 (Patch.snakeCase field.1) field.2) (p, log)).2.entries,
        x.code = Diagnostic.invalidOption := by
    induction fields generalizing p log with
    | nil => exact hlog
    | cons field fields ih => exact ih _ _ (code_of_setEntry p _ field.2 hlog)
  unfold Patch.ofJson
  split
  · exact hlog
  · exact hfields _ _ _ hlog
  · exact code_of_add rfl hlog

end Patch

namespace Engine

variable {I : Interpreter} {α β : Type}

namespace Ledger

variable {held : List Diagnostic} {l : Ledger I} {before log : Collector}

/-! ## Balance -/

/-- The books balance. What was accepted is held in logs or by those who took it, is reported, or was
lost, and then it was a refused option. -/
structure Balanced (held : List Diagnostic) (l : Ledger I) : Prop where
  count : ∀ d, l.accepted.count d =
    held.count d + (l.engine.reported.count d + l.lost.count d)
  lost : ∀ d ∈ l.lost, d.code = Diagnostic.invalidOption

/-- Nothing but the ledger and what is reported matters. -/
theorem Balanced.congr (h : Balanced held l) {l' : Ledger I} (haccepted : l'.accepted = l.accepted)
    (hlost : l'.lost = l.lost) (hreported : l'.engine.reported = l.engine.reported) :
    Balanced held l' :=
  ⟨fun d => by rw [haccepted, hlost, hreported]; exact h.count d, by rw [hlost]; exact h.lost⟩

/-- A log that goes on holds what it held and what it accepted. -/
theorem Balanced.enterLog {incidents : List Diagnostic} (h : Balanced (held ++ before.entries) l)
    (hadds : Adds incidents before.entries log.entries) :
    Balanced (held ++ log.entries) (l.enterLog before log) := by
  obtain ⟨added, hlog, -⟩ := hadds
  refine ⟨fun d => ?_, h.lost⟩
  have hbefore := h.count d
  simp only [Ledger.enterLog, hlog, List.drop_left, List.count_append] at hbefore ⊢
  omega

/-- A log that begins holds what it accepted. -/
theorem Balanced.enterNew {incidents : List Diagnostic} (h : Balanced held l)
    (hnew : before.entries = []) (hadds : Adds incidents before.entries log.entries) :
    Balanced (held ++ log.entries) (l.enterLog before log) :=
  Balanced.enterLog (by rw [hnew, List.append_nil]; exact h) hadds

theorem Balanced.report (h : Balanced (held ++ log.entries) l) : Balanced held (l.report log) := by
  refine ⟨fun d => ?_, h.lost⟩
  have hbefore := h.count d
  simp only [Ledger.report, Ledger.change, Engine.report, List.count_append] at hbefore ⊢
  omega

theorem Balanced.giveUp (h : Balanced (held ++ log.entries) l)
    (hlog : ∀ d ∈ log.entries, d.code = Diagnostic.invalidOption) :
    Balanced held (l.giveUp log) := by
  refine ⟨fun d => ?_, fun d hd => ?_⟩
  · have hbefore := h.count d
    simp only [Ledger.giveUp, List.count_append] at hbefore ⊢
    omega
  · exact (List.mem_append.mp hd).elim (h.lost d) (hlog d)

/-! ## Runs -/

/-- The run with the books is the run without them, and whenever it asks or ends the books balance
if they balance at each reply. -/
def Follows (holds : α → List Diagnostic) : Run (Ledger I) α → Run (Engine I) α → Prop
  | .done l answer, .done e answer' => l.engine = e ∧ answer = answer' ∧ Balanced (holds answer) l
  | .ask l request next, .ask e request' next' => l.engine = e ∧ request = request' ∧
    ∃ held, Balanced held l ∧ ∀ l' reply, Balanced held l' →
      Follows holds (next l' reply) (next' l'.engine reply)
  | _, _ => False

section Follows

variable {holds : α → List Diagnostic} {holds' : β → List Diagnostic} {run : Run (Ledger I) α}
  {plain : Run (Engine I) α}

theorem Follows.done {answer : α} (h : Balanced (holds answer) l) :
    Follows holds (.done l answer) (.done l.engine answer) :=
  ⟨rfl, rfl, h⟩

theorem Follows.bind (h : Follows holds run plain) {k : Ledger I → α → Run (Ledger I) β}
    {k' : Engine I → α → Run (Engine I) β}
    (hk : ∀ l answer, Balanced (holds answer) l → Follows holds' (k l answer) (k' l.engine answer)) :
    Follows holds' (run.bind k) (plain.bind k') := by
  induction run generalizing plain with
  | done l answer =>
      cases plain with
      | done e answer' =>
          obtain ⟨rfl, rfl, hbalanced⟩ := h
          exact hk l answer hbalanced
      | ask => exact h.elim
  | ask l request next ih =>
      cases plain with
      | done => exact h.elim
      | ask e request' next' =>
          obtain ⟨hengine, hrequest, held, hbalanced, hnext⟩ := h
          exact ⟨hengine, hrequest, held, hbalanced, fun l' reply hl' => ih l' reply (hnext l' reply hl')⟩

/-- What keeps the books beside the engine does to it what is done without. -/
structure Keeps (held : List Diagnostic) (kept : α × Ledger I) (plain : α × Engine I) : Prop where
  answer : kept.1 = plain.1
  engine : kept.2.engine = plain.2
  balanced : Balanced held kept.2

theorem Keeps.eq {kept : α × Ledger I} {plain : α × Engine I} (h : Keeps held kept plain) :
    plain = (kept.1, kept.2.engine) :=
  Prod.ext h.answer.symm h.engine.symm

theorem Follows.drive (h : Follows holds run plain)
    {nested : Request → Ledger I → Except Error Text × Ledger I}
    {nested' : Request → Engine I → Except Error Text × Engine I}
    (hnested : ∀ request held l, Balanced held l →
      Keeps held (nested request l) (nested' request l.engine)) :
    Keeps (holds (drive nested run).1) (drive nested run) (Engine.drive nested' plain) := by
  induction run generalizing plain with
  | done l answer =>
      cases plain with
      | done e answer' =>
          obtain ⟨rfl, rfl, hbalanced⟩ := h
          exact ⟨rfl, rfl, hbalanced⟩
      | ask => exact h.elim
  | ask l request next ih =>
      cases plain with
      | done => exact h.elim
      | ask e request' next' =>
          obtain ⟨rfl, rfl, held, hbalanced, hnext⟩ := h
          obtain ⟨hreply, hafter, hreplied⟩ := hnested request held l hbalanced
          have hrest := ih _ ((nested request l).1.mapError Error.message)
            (hnext _ ((nested request l).1.mapError Error.message) hreplied)
          rw [hafter, hreply] at hrest
          simp only [Ledger.drive, Engine.drive, hreply]
          exact hrest

end Follows

/-! ## Producing text -/

private theorem follows_lift (run : Run I.State α) (h : Balanced held l) :
    Follows (fun _ => held) (lift run l) (Engine.lift run l.engine) := by
  induction run generalizing l with
  | done shared answer => exact .done (h.congr rfl rfl rfl)
  | ask shared request next ih =>
      exact ⟨rfl, rfl, held, h.congr rfl rfl rfl, fun l' reply hl' => ih l'.engine.shared reply hl'⟩

private theorem follows_attempt (id : TemplateId) (label : String) (body : Text)
    (h : Balanced held l) :
    Follows (fun _ => held) (attempt id label body l) (Engine.attempt id label body l.engine) := by
  unfold attempt Engine.attempt
  cases I.compile l.engine.shared label (lower body) with
  | error message => exact .done h
  | ok program =>
      refine (follows_lift _ h).bind fun l ended hl => .done (hl.congr rfl rfl ?_)
      unfold Ledger.change keepProgram
      dsimp only
      split <;> rfl

private theorem follows_attemptRepairing (task : Task) (body : Text)
    (h : Balanced (held ++ log.entries) l) :
    Follows (fun last => held ++ last.2.entries) (attemptRepairing task body log l)
      (Engine.attemptRepairing task body log l.engine) := by
  refine (follows_attempt task.id task.label body h).bind fun l first hl => ?_
  dsimp only
  split
  · refine (follows_attempt task.id task.label _ hl).bind fun l second hl => ⟨rfl, rfl, ?_⟩
    exact hl.enterLog (calm_warnRepaired _ log).entries
  · exact .done hl

private theorem adds_of_scan {d : Delimiters} {source : Text} {label : String} {log' : Collector}
    {outcome : Except Error (List Piece)} (h : scan d source label log = (outcome, log')) :
    Adds [] log.entries log'.entries := by
  have hcalm := Scan.calm_scan d source label log
  rw [h] at hcalm
  exact hcalm.entries

private theorem follows_renderFull (task : Task) (h : Balanced (held ++ log.entries) l) :
    Follows (fun last => held ++ last.2.entries) (renderFull task log l)
      (Engine.renderFull task log l.engine) := by
  have hcleared (f : Template I → Template I) : Balanced (held ++ log.entries)
      (l.change (·.modify task.id f)) := h.congr rfl rfl rfl
  unfold renderFull Engine.renderFull
  dsimp only
  split
  · rename_i error log' hscan
    have hscanned := (hcleared fun t => { t.forgetProgram with children := [] }).enterLog
      (adds_of_scan hscan)
    rw [hscan]
    simp only [Ledger.change] at hscan
    rw [hscan]
    exact .done hscanned
  · rename_i pieces log' hscan
    have hscanned := (hcleared fun t => { t.forgetProgram with children := [] }).enterLog
      (adds_of_scan hscan)
    rw [hscan]
    simp only [Ledger.change] at hscan
    rw [hscan]
    refine (follows_attemptRepairing task _ hscanned).bind fun l last hl => ?_
    split
    · exact ⟨rfl, rfl, hl.congr rfl rfl rfl⟩
    · exact .done hl

private theorem follows_produce (task : Task) (h : Balanced held l) :
    Follows (fun last => held ++ last.2.entries) (produce task l) (Engine.produce task l.engine) := by
  let log : Collector := { reporting := task.options.reporting, template := some task.label }
  have hnew : Balanced (held ++ log.entries) l := by
    rw [List.append_nil]
    exact h
  unfold produce Engine.produce
  dsimp only
  generalize task.type = type
  generalize (l.engine.template task.id).program = program
  cases type <;> cases program
  · exact follows_renderFull task hnew
  · exact follows_renderFull task hnew
  · exact follows_renderFull task hnew
  · exact (follows_lift _ hnew).bind fun l ended hl => .done hl
  · exact .done hnew
  · exact .done hnew

/-! ## Parts of a render -/

private theorem keeps_insert (source : Source) (content : Text) (base : Options) (patch : Patch)
    (scope : Option Json) (h : Balanced held l) :
    Keeps held (l.insert source content base patch scope)
      (l.engine.insert source content base patch scope) := by
  let blank : Collector := { reporting := base.reporting }
  have hpatched := (h.enterNew rfl (Options.adds_apply base patch blank)).report
  exact ⟨rfl, rfl, hpatched.congr rfl rfl rfl⟩

private theorem keeps_enter (again : Bool) (id : TemplateId) (patch : Patch) (h : Balanced held l) :
    Keeps held (enter again id patch l) (Engine.enter again id patch l.engine) := by
  let options := (l.engine.tick.template id).options
  let blank : Collector := { reporting := options.reporting, template := some (l.engine.label id) }
  let patched := (l.change (·.tick)).change
    (·.modify id fun t => { t with options := (options.apply patch blank).1 })
  have hpatched : Balanced held patched := h.congr rfl rfl rfl
  have hreported := (hpatched.enterNew rfl (options.adds_apply patch blank)).report
  exact ⟨rfl, rfl, hreported.congr rfl rfl rfl⟩

private theorem reported_writeOutput (task : Task) (output : Text) (e : Engine I) :
    (e.writeOutput task output).2.reported = e.reported := by
  unfold writeOutput
  dsimp only
  split <;> rfl

private theorem keeps_complete (task : Task) (raw : Text) (h : Balanced held l) :
    Keeps held (complete task raw l) (Engine.complete task raw l.engine) := by
  let now := l.engine.clock.now
  let blank : Collector := { reporting := task.options.reporting, template := some task.label }
  let log := blank.notify Diagnostic.rendered
    ("Rendered " ++ task.type.name ++ " in " ++ millisText (now - task.started) ++ "ms")
  let recorded := l.change fun e => e.tick.modify task.id (task.record raw now)
  let announced := (recorded.enterLog blank log).report log
  have hrecorded : Balanced held recorded := h.congr rfl rfl rfl
  have hannounced : Balanced held announced :=
    (hrecorded.enterNew rfl (Collector.calm_add rfl).entries).report
  have hwritten := reported_writeOutput task (task.style raw) announced.engine
  rw [Engine.complete_eq]
  unfold complete
  dsimp only
  split
  · exact ⟨rfl, rfl, hannounced.congr rfl rfl hwritten⟩
  · exact ⟨rfl, rfl, hannounced⟩

private theorem adds_settle (task : Task) (log : Collector) (ended : Execution) :
    ∃ incidents, Adds incidents log.entries (task.settle log ended).2.entries := by
  unfold Task.settle
  split
  · exact ⟨_, Adds.refl _⟩
  · split
    · exact ⟨_, Adds.refl _⟩
    · exact ⟨_, Collector.entries_add log _⟩

private theorem keeps_finish (task : Task) (answer : Except Error Execution × Collector)
    (h : Balanced (held ++ answer.2.entries) l) :
    Keeps held (finish task l answer) (Engine.finish task l.engine answer) := by
  let released := l.change (·.modify task.id task.release)
  have hreleased : Balanced (held ++ answer.2.entries) released := h.congr rfl rfl rfl
  obtain ⟨outcome, log⟩ := answer
  cases outcome with
  | error error => exact ⟨rfl, rfl, hreleased.report⟩
  | ok ended =>
      obtain ⟨incidents, hadds⟩ := adds_settle task log ended
      have hsettled := (hreleased.enterLog hadds).report
      unfold finish Engine.finish
      dsimp only
      generalize task.settle log ended = settled at hsettled ⊢
      obtain ⟨_ | raw, log'⟩ := settled
      · exact ⟨rfl, rfl, hsettled⟩
      · exact keeps_complete task raw hsettled

/-! ## Nested renders -/

private theorem reported_renderStatic (id : TemplateId) (e : Engine I) :
    (renderStatic id e).2.reported = e.reported := by
  unfold renderStatic
  dsimp only
  split <;> rfl

private theorem reported_setScope? (id : TemplateId) (scope : Option Json) (e : Engine I) :
    (e.setScope? id scope).reported = e.reported := by
  cases scope <;> rfl

private theorem balanced_noteCycle (parent child : TemplateId)
    (h : Balanced (held ++ log.entries) l) :
    Balanced (held ++ (noteCycle parent child log l).1.entries) (noteCycle parent child log l).2 := by
  have hnoted : (∃ incidents, Adds incidents log.entries
      (Engine.noteCycle parent child log l.engine).1.entries) ∧
      (Engine.noteCycle parent child log l.engine).2.reported = l.engine.reported := by
    unfold Engine.noteCycle
    dsimp only
    split
    · exact ⟨⟨_, Adds.refl _⟩, rfl⟩
    · exact ⟨⟨_, Collector.entries_add log _⟩, rfl⟩
  obtain ⟨⟨incidents, hadds⟩, hreported⟩ := hnoted
  exact (h.enterLog hadds).congr rfl rfl hreported

private theorem keeps_resolve (parent : TemplateId) (request : Request) (h : Balanced held l) :
    Keeps held (resolve parent request l) (Engine.resolve parent request l.engine) := by
  let t := l.engine.template parent
  obtain ⟨blank, hblank⟩ : ∃ blank : Collector,
      ({ reporting := t.options.reporting, template := some (l.engine.label parent) } : Collector) =
        blank := ⟨_, rfl⟩
  have hread : Balanced (held ++ (Patch.ofJson (request.options.getD .null) blank).2.entries)
      (l.enterLog blank (Patch.ofJson (request.options.getD .null) blank).2) :=
    h.enterNew (hblank ▸ rfl) (Patch.calm_ofJson _ blank).entries
  have hempty : ∀ x ∈ blank.entries, x.code = Diagnostic.invalidOption := by simp [← hblank]
  have hcodes := code_of_ofJson (request.options.getD .null) hempty
  unfold resolve Engine.resolve
  dsimp only
  rw [hblank]
  generalize Patch.ofJson (request.options.getD .null) blank = read at *
  obtain ⟨patch, log⟩ := read
  dsimp only [engine_enterLog, engine_change] at *
  cases (t.childSource (patch.code.getD t.options.code) request.source).load l.engine.disk with
  | error error => exact ⟨rfl, rfl, hread.giveUp hcodes⟩
  | ok content =>
      let including := (l.enterLog blank log).change
        (·.modify parent fun t => t.addChild (Fingerprint.ofContent content))
      have hincluding : Balanced (held ++ log.entries) including := hread.congr rfl rfl rfl
      dsimp only
      cases (l.engine.modify parent fun t => t.addChild (Fingerprint.ofContent content)).find?
          (Fingerprint.ofContent content) with
      | none =>
          have hinserted := keeps_insert (t.childSource (patch.code.getD t.options.code)
            request.source) content t.childOptions {} none hincluding.report
          exact ⟨rfl, rfl, hinserted.balanced.congr rfl rfl (reported_setScope? _ _ _)⟩
      | some child =>
          dsimp only
          split
          · rename_i hcycle
            have hnoted := (balanced_noteCycle parent child hincluding).report
            simp only [hcycle, if_true]
            exact ⟨rfl, rfl, hnoted.congr rfl rfl (reported_renderStatic _ _)⟩
          · rename_i hcycle
            simp only [hcycle]
            exact ⟨rfl, rfl, hincluding.report.congr rfl rfl (reported_setScope? _ _ _)⟩

/-- A run that is driven to its end and entered. -/
private theorem keeps_driven {task : Task} {run : Run (Ledger I) (Except Error Execution × Collector)}
    {plain : Run (Engine I) (Except Error Execution × Collector)}
    {nested : Request → Ledger I → Except Error Text × Ledger I}
    {nested' : Request → Engine I → Except Error Text × Engine I}
    (hrun : Follows (fun last => held ++ last.2.entries) run plain)
    (hnested : ∀ request held l, Balanced held l →
      Keeps held (nested request l) (nested' request l.engine)) :
    Keeps held (finish task (drive nested run).2 (drive nested run).1)
      (Engine.finish task (Engine.drive nested' plain).2 (Engine.drive nested' plain).1) := by
  have hdriven := hrun.drive hnested
  rw [hdriven.eq]
  exact keeps_finish task _ hdriven.balanced

/-- Whatever becomes of a render, the books balance after it if they do before. -/
private theorem keeps_renderTo (depth : Nat) (outer : List TemplateId) (again : Bool)
    (id : TemplateId) (patch : Patch) (h : Balanced held l) :
    Keeps held (renderTo depth outer again id patch l)
      (Engine.renderTo depth outer again id patch l.engine) := by
  induction depth generalizing outer again id patch held l with
  | zero => exact ⟨rfl, rfl, h⟩
  | succ depth ih =>
      rw [renderTo, Engine.renderTo]
      split
      · exact ⟨rfl, rfl, h⟩
      · split
        · exact ⟨rfl, rfl, h⟩
        · have hentered := keeps_enter again id patch h
          rw [hentered.eq]
          refine keeps_driven (follows_produce _ hentered.balanced) fun request held l hl => ?_
          have hresolved := keeps_resolve (requester (id :: outer) request) request hl
          rw [hresolved.eq]
          generalize resolve (requester (id :: outer) request) request l = resolved at *
          obtain ⟨reply | ⟨child, patch⟩, l⟩ := resolved
          · exact ⟨rfl, rfl, hresolved.balanced⟩
          · exact ih (id :: outer) false child patch hresolved.balanced

/-! ## Calls -/

private theorem keeps_create (source : Source) (patch : Patch) (scope : Option Json)
    (h : Balanced held l) :
    Keeps held (create source patch scope l) (Engine.create source patch scope l.engine) := by
  unfold create Engine.create
  cases source.load l.engine.disk with
  | error error => exact ⟨rfl, rfl, h⟩
  | ok content =>
      dsimp only
      cases l.engine.find? (Fingerprint.ofContent content) with
      | some id => exact ⟨rfl, rfl, h⟩
      | none =>
          have hinserted := keeps_insert source content l.engine.defaults patch scope h
          exact ⟨rfl, rfl, hinserted.balanced⟩

private theorem keeps_register (source : Source) (patch : Patch) (scope : Option Json)
    (h : Balanced held l) :
    Keeps held (register source patch scope l) (Engine.register source patch scope l.engine) := by
  unfold register Engine.register
  cases source.load l.engine.disk with
  | error error => exact ⟨rfl, rfl, h⟩
  | ok content =>
      have hinserted := keeps_insert source content l.engine.defaults patch scope h
      exact ⟨rfl, rfl, hinserted.balanced⟩

private theorem keeps_renderSource (source : Source) (patch : Patch) (scope : Option Json)
    (h : Balanced held l) :
    Keeps held (renderSource source patch scope l)
      (Engine.renderSource source patch scope l.engine) := by
  unfold renderSource Engine.renderSource
  cases source.load l.engine.disk with
  | error error => exact ⟨rfl, rfl, h⟩
  | ok content =>
      dsimp only
      cases l.engine.find? (Fingerprint.ofContent content) with
      | some id =>
          have hscoped : Balanced held (l.change (·.setScope? id scope)) :=
            h.congr rfl rfl (reported_setScope? id scope l.engine)
          exact keeps_renderTo maxDepth [] false id patch hscoped
      | none =>
          have hinserted := keeps_insert source content l.engine.defaults patch scope h
          exact keeps_renderTo maxDepth [] false _ {} hinserted.balanced

end Ledger

/-- The diagnostics that an answer hands over. -/
def Answer.taken : Answer I → List Diagnostic
  | .reported diagnostics => diagnostics
  | _ => []

namespace Ledger

variable {held : List Diagnostic} {l : Ledger I}

/-- A call that answers with no diagnostics takes none. -/
private theorem Keeps.answers {kept : α × Ledger I} {plain : α × Engine I} (h : Keeps held kept plain)
    (make : α → Answer I) (hmake : (make kept.1).taken = []) :
    Keeps (held ++ (make kept.1).taken) (make kept.1, kept.2) (make plain.1, plain.2) :=
  ⟨congrArg make h.answer, h.engine, by rw [hmake, List.append_nil]; exact h.balanced⟩

/-- What a call takes is held from then on. -/
private theorem keeps_perform (call : Call) (h : Balanced held l) :
    Keeps (held ++ (perform l call).1.taken) (perform l call) (Engine.perform l.engine call) := by
  have quiet {e : Engine I} (answer : Answer I) (htaken : answer.taken = [])
      (hreported : e.reported = l.engine.reported) :
      Keeps (held ++ answer.taken) (answer, l.change fun _ => e) (answer, e) := by
    refine ⟨rfl, rfl, ?_⟩
    rw [htaken, List.append_nil]
    exact h.congr rfl rfl hreported
  cases call with
  | create source patch scope => exact (keeps_create source patch scope h).answers .created rfl
  | register source patch scope => exact (keeps_register source patch scope h).answers .created rfl
  | renderSource source patch scope =>
      exact (keeps_renderSource source patch scope h).answers .text rfl
  | render id patch => exact (keeps_renderTo maxDepth [] false id patch h).answers .text rfl
  | update id => exact (keeps_renderTo maxDepth [] true id {} h).answers .text rfl
  | takeReported =>
      refine ⟨rfl, rfl, fun d => ?_, h.lost⟩
      have hbefore := h.count d
      simp only [perform, Engine.perform, takeReported, Answer.taken, change, List.count_append,
        List.count_nil] at hbefore ⊢
      omega
  | get source => exact quiet _ rfl rfl
  | remove f => exact quiet _ rfl rfl
  | stats => exact quiet _ rfl rfl
  | close => exact quiet _ rfl rfl
  | renderStatic id => exact quiet _ rfl (reported_renderStatic id l.engine)
  | setScope id scope => exact quiet _ rfl rfl
  | inspect id => exact quiet _ rfl rfl
  | world clock disk => exact quiet _ rfl rfl

private theorem keeps_session (calls : List Call) (h : Balanced held l) :
    Keeps (held ++ (session l calls).1.flatMap Answer.taken) (session l calls)
      (Engine.session l.engine calls) := by
  induction calls generalizing held l with
  | nil => exact ⟨rfl, rfl, by simpa [session] using h⟩
  | cons call calls ih =>
      have hcall := keeps_perform call h
      have hrest := ih hcall.balanced
      rw [session, Engine.session, hcall.eq]
      dsimp only
      rw [hrest.eq]
      refine ⟨rfl, rfl, ?_⟩
      rw [List.flatMap_cons, ← List.append_assoc]
      exact hrest.balanced

end Ledger

/-- Every diagnostic that a log accepts is taken once or still there to be taken, whatever was called and
however it ended, except that a nested render whose source cannot be loaded loses what its options were
refused for. Nothing else is lost, nothing is reported twice, and keeping the books changes nothing. -/
theorem diagnostics_accounted (e : Engine I) (calls : List Call) :
    let kept := Ledger.session { engine := e, accepted := e.reported } calls
    (kept.1, kept.2.engine) = session e calls ∧
      kept.2.accepted.Perm
        (kept.1.flatMap Answer.taken ++ (kept.2.engine.reported ++ kept.2.lost)) ∧
      ∀ d ∈ kept.2.lost, d.code = Diagnostic.invalidOption := by
  intro kept
  have hbegins : Ledger.Balanced [] ({ engine := e, accepted := e.reported } : Ledger I) :=
    ⟨fun d => by simp, by simp⟩
  have hkept := Ledger.keeps_session calls hbegins
  refine ⟨hkept.eq.symm, List.perm_iff_count.mpr fun d => ?_, hkept.balanced.lost⟩
  simpa using hkept.balanced.count d

/-- A language whose programs include a file that is not there, ask for a reporting level that there is
not, and go on with nothing. -/
def Misled : Interpreter where
  State := Unit
  Program := Unit
  initial := ()
  compile _ _ _ := .ok ()
  run _ _ _ :=
    .ask () { source := "missing".toList
              options := some (.object [("code", .bool false), ("reporting", .string "all")])
              scope := none }
      fun _ _ => .done () { output := [], error := none }

/-- The reporting level that was refused is never reported, though the log accepted the refusal and the
render came to its end. -/
theorem refused_option_lost :
    let calls : List Call :=
      [.register (.inline []) {} none, .render 0 { reporting := some 3 }, .takeReported]
    let kept := Ledger.session ({ engine := {} } : Ledger Misled) calls
    kept.2.accepted.map (·.code) = [Diagnostic.invalidOption, Diagnostic.rendered] ∧
      ((session ({} : Engine Misled) calls).1.flatMap Answer.taken).map (·.code) =
        [Diagnostic.rendered] ∧
      (session ({} : Engine Misled) calls).2.reported = [] := by
  decide +kernel

end Engine

end Stencil
