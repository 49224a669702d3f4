import Stencil.Engine.Registry
/-!
# What a log shows

A log that shows everything, and one at another level: whatever reports to both gets the same result,
and the second log keeps being what of the first is shown at its level.
-/
namespace Stencil

def Diagnostic.shownAt (level : Nat) (diagnostics : List Diagnostic) : List Diagnostic :=
  diagnostics.filter fun d => d.severity.visibleAt level

def Options.reportingAt (level : Nat) (o : Options) : Options := { o with reporting := level }

/-- The options of a template that shows everything. -/
def Options.Loud (o : Options) : Prop := o.reporting = Options.maxReporting

namespace Collector

variable {level : Nat} {log log' : Collector}

/-- The first log shows everything, and the second what of it is shown at the level. -/
structure Shown (level : Nat) (log log' : Collector) : Prop where
  loud : log.reporting = Options.maxReporting
  same : log' = { log with reporting := level, entries := Diagnostic.shownAt level log.entries }

theorem shown_new (level : Nat) (template : Option String) :
    Shown level { reporting := Options.maxReporting, template } { reporting := level, template } :=
  ⟨rfl, rfl⟩

theorem Severity.visibleAt_max (s : Severity) : s.visibleAt Options.maxReporting = true := by
  cases s <;> rfl

theorem Shown.add (h : Shown level log log') (d : Diagnostic) :
    Shown level (log.add d) (log'.add d) := by
  obtain ⟨hloud, rfl⟩ := h
  have hseen : d.severity.visibleAt log.reporting = true := hloud ▸ Severity.visibleAt_max _
  have hlog : log.add d =
      { log with entries := log.entries ++ [{ d with template := d.template <|> log.template }] } :=
    if_pos hseen
  refine ⟨by rw [hlog, hloud], ?_⟩
  rw [hlog]
  cases hd : d.severity.visibleAt level <;> simp [Collector.add, Diagnostic.shownAt, hd]

end Collector

open Collector

variable {level : Nat} {log log' : Collector}

/-- The repairs of a body are reported to both. -/
theorem shown_warnRepaired (h : Shown level log log') (repairs : List Repair) :
    Shown level (Engine.warnRepaired repairs log) (Engine.warnRepaired repairs log') := by
  induction repairs generalizing log log' with
  | nil => exact h
  | cons repair repairs ih => exact ih (h.add _)

/-! ## Scans -/

namespace Scan

variable {d : Delimiters} {s s' : Scan}

/-- The scans differ in what their logs show. -/
def Shown (level : Nat) (s s' : Scan) : Prop :=
  ∃ log, s' = { s with log } ∧ Collector.Shown level s.log log

private theorem shown_step (h : Shown level s s') (c : Cursor) :
    Shown level (step d s c).1 (step d s' c).1 ∧ (step d s' c).2 = (step d s c).2 := by
  obtain ⟨log, rfl, h⟩ := h
  have hsame {t : Scan} (ht : t.log = s.log) : Shown level t { t with log } := ⟨log, rfl, ht ▸ h⟩
  simp only [step]
  split
  · simp only [stepLiteral, take, takeAll, closeLiteral]
    split
    · exact ⟨hsame rfl, rfl⟩
    · split
      · exact ⟨hsame rfl, rfl⟩
      · split
        · refine ⟨?_, rfl⟩
          split <;> exact hsame rfl
        · exact ⟨⟨_, rfl, h.add _⟩, rfl⟩
  · split <;> exact ⟨hsame rfl, rfl⟩
  · split
    · exact ⟨hsame rfl, rfl⟩
    · simp only [stepCode, take, takeAll, closeCode]
      split
      · split
        · exact ⟨hsame rfl, rfl⟩
        · split
          · exact ⟨hsame rfl, rfl⟩
          · exact ⟨⟨_, rfl, h.add _⟩, rfl⟩
      · exact ⟨hsame rfl, rfl⟩

private theorem shown_steps (h : Shown level s s') (count : Nat) (c : Cursor) :
    Shown level (steps d count (s, c)).1 (steps d count (s', c)).1 ∧
      (steps d count (s', c)).2 = (steps d count (s, c)).2 := by
  induction count generalizing s s' c with
  | zero => exact ⟨h, rfl⟩
  | succ count ih =>
      obtain ⟨hstep, hcursor⟩ := shown_step (d := d) h c
      rw [steps, steps]
      split
      · exact ⟨h, rfl⟩
      · dsimp only
        rw [show step d s' c = ((step d s' c).1, (step d s c).2) by rw [← hcursor]]
        exact ih hstep _

private theorem shown_finish (h : Shown level s s') (c : Cursor) :
    Shown level (s.finish d c) (s'.finish d c) := by
  obtain ⟨log, rfl, h⟩ := h
  simp only [finish, closeLiteral, closeCode]
  split
  · split <;> exact ⟨log, rfl, h⟩
  · exact ⟨_, rfl, h.add _⟩

private theorem shown_ofText (h : Collector.Shown level log log') (d : Delimiters) (source : Text) :
    Shown level (ofText d source log) (ofText d source log') := by
  have hstart : Shown level { log } { log := log' } := ⟨log', rfl, h⟩
  obtain ⟨hsteps, hcursor⟩ := shown_steps (d := d) hstart source.length (Cursor.ofText source)
  simp only [ofText]
  rw [hcursor]
  exact shown_finish hsteps _

end Scan

theorem shown_scan (h : Shown level log log') (d : Delimiters) (source : Text) (label : String) :
    (scan d source label log').1 = (scan d source label log).1 ∧
      Shown level (scan d source label log).2 (scan d source label log').2 := by
  obtain ⟨log₁, hsame, hshown⟩ := Scan.shown_ofText h d source
  simp only [scan, Scan.pieces, hsame]
  split <;> exact ⟨rfl, hshown⟩

/-! ## Patches -/

namespace Patch

/-! What is read of a value does not depend on the log. -/

private theorem setField_log {α : Type} (log log' : Collector) (key : String) (value : Json)
    (reading : Reading α) (set : Option α → Patch) :
    (setField log' key value reading set).1 = (setField log key value reading set).1 := by
  cases reading <;> rfl

private theorem setEntry_log (p : Patch) (log log' : Collector) (key : String) (value : Json) :
    (setEntry p log' key value).1 = (setEntry p log key value).1 := by
  unfold setEntry
  split <;> first | exact setField_log .. | rfl

private abbrev readEntry (read : Patch × Collector) (field : String × Json) : Patch × Collector :=
  setEntry read.1 read.2 (snakeCase field.1) field.2

private theorem entries_log (fields : List (String × Json)) (p : Patch) (log log' : Collector) :
    (fields.foldl readEntry (p, log')).1 = (fields.foldl readEntry (p, log)).1 := by
  induction fields generalizing p log log' with
  | nil => rfl
  | cons field fields ih =>
      simp only [List.foldl_cons]
      rw [show readEntry (p, log') field = ((readEntry (p, log) field).1, (readEntry (p, log') field).2)
        from Prod.ext (setEntry_log ..) rfl]
      exact ih _ _ _

theorem ofJson_log (value : Json) (log log' : Collector) :
    (ofJson value log').1 = (ofJson value log).1 := by
  unfold ofJson
  split
  · rfl
  · exact entries_log ..
  · rfl

private theorem shown_setField {α : Type} (h : Shown level log log') (key : String) (value : Json)
    (reading : Reading α) (set : Option α → Patch) :
    Shown level (setField log key value reading set).2 (setField log' key value reading set).2 := by
  cases reading with
  | ok => exact h
  | error => exact h.add _

private theorem shown_setEntry (h : Shown level log log') (p : Patch) (key : String) (value : Json) :
    Shown level (setEntry p log key value).2 (setEntry p log' key value).2 := by
  unfold setEntry
  split <;> first | exact shown_setField h .. | exact h.add _

private theorem shown_entries (h : Shown level log log') (fields : List (String × Json)) (p : Patch) :
    Shown level (fields.foldl readEntry (p, log)).2 (fields.foldl readEntry (p, log')).2 := by
  induction fields generalizing p log log' with
  | nil => exact h
  | cons field fields ih =>
      simp only [List.foldl_cons]
      rw [show readEntry (p, log') field = ((readEntry (p, log) field).1, (readEntry (p, log') field).2)
        from Prod.ext (setEntry_log ..) rfl]
      exact ih (shown_setEntry h p _ field.2) _

theorem shown_ofJson (h : Shown level log log') (value : Json) :
    Shown level (ofJson value log).2 (ofJson value log').2 := by
  unfold ofJson
  split
  · exact h
  · exact shown_entries h _ _
  · exact h.add _

end Patch

namespace Options

variable {o : Options}

private theorem shown_reviewDelimiters (h : Shown level log log') (d : Delimiters) :
    Shown level (reviewDelimiters d log) (reviewDelimiters d log') := by
  unfold reviewDelimiters
  dsimp only
  split <;> split <;> first | exact h | exact h.add _ | exact (h.add _).add _

private theorem shown_delimiters (h : Shown level log log') (o : Options) (start stop : Option Text) :
    (applyDelimiters (o.reportingAt level) log' start stop).1 =
        (o.applyDelimiters log start stop).1.reportingAt level ∧
      (applyDelimiters (o.reportingAt level) log' start stop).2.2 =
        (o.applyDelimiters log start stop).2.2 ∧
      Shown level (o.applyDelimiters log start stop).2.1
        (applyDelimiters (o.reportingAt level) log' start stop).2.1 ∧
      (o.applyDelimiters log start stop).1.reporting = o.reporting := by
  unfold applyDelimiters reportingAt
  dsimp only
  split
  · exact ⟨rfl, rfl, h, rfl⟩
  · split
    · exact ⟨rfl, rfl, h.add _, rfl⟩
    · split
      · exact ⟨rfl, rfl, h, rfl⟩
      · exact ⟨rfl, rfl, shown_reviewDelimiters h _, rfl⟩

private theorem shown_reviewTtl (h : Shown level log log') (key : String) (ttl : Nat) :
    Shown level (reviewTtl key ttl log) (reviewTtl key ttl log') := by
  unfold reviewTtl
  split
  · exact h.add _
  · exact h

private theorem shown_fullTtl (h : Shown level log log') (o : Options) (asked : Option Nat) :
    (applyFullTtl (o.reportingAt level) log' asked).1 =
        (o.applyFullTtl log asked).1.reportingAt level ∧
      Shown level (o.applyFullTtl log asked).2 (applyFullTtl (o.reportingAt level) log' asked).2 ∧
      (o.applyFullTtl log asked).1.reporting = o.reporting := by
  unfold applyFullTtl reportingAt
  dsimp only
  split
  · exact ⟨rfl, h, rfl⟩
  · split
    · exact ⟨rfl, h.add _, rfl⟩
    · exact ⟨rfl, shown_reviewTtl h _ _, rfl⟩

private theorem shown_partialTtl (h : Shown level log log') (o : Options) (asked : Option Nat) :
    (applyPartialTtl (o.reportingAt level) log' asked).1 =
        (o.applyPartialTtl log asked).1.reportingAt level ∧
      Shown level (o.applyPartialTtl log asked).2
        (applyPartialTtl (o.reportingAt level) log' asked).2 ∧
      (o.applyPartialTtl log asked).1.reporting = o.reporting := by
  cases asked with
  | none => exact ⟨rfl, h, rfl⟩
  | some ttl => exact ⟨rfl, shown_reviewTtl h _ ttl, rfl⟩

/-- A patch that does not set the reporting level does the same at every level. -/
theorem shown_apply (h : Shown level log log') (o : Options) {p : Patch} (hp : p.reporting = none) :
    ((o.reportingAt level).apply p log').1 = (o.apply p log).1.reportingAt level ∧
      ((o.reportingAt level).apply p log').2.2 = (o.apply p log).2.2 ∧
      Shown level (o.apply p log).2.1 ((o.reportingAt level).apply p log').2.1 ∧
      (o.apply p log).1.reporting = o.reporting := by
  obtain ⟨ho, hchanged, hdelimiters, hreporting⟩ :=
    shown_delimiters h o p.delimiterStart p.delimiterStop
  simp only [apply, hp, applyReporting]
  generalize o.applyDelimiters log _ _ = read at ho hchanged hdelimiters hreporting ⊢
  generalize applyDelimiters (o.reportingAt level) log' _ _ = read' at ho hchanged hdelimiters ⊢
  obtain ⟨o₁, log₁, changed⟩ := read
  obtain ⟨o₁', log₁', changed'⟩ := read'
  dsimp only at ho hchanged hdelimiters hreporting ⊢
  subst ho hchanged
  obtain ⟨ho₂, hfull, hreporting₂⟩ := shown_fullTtl hdelimiters o₁ p.fullTtl
  obtain ⟨ho₃, hpartial, hreporting₃⟩ := shown_partialTtl hfull (o₁.applyFullTtl log₁ p.fullTtl).1
    p.partialTtl
  rw [ho₂, ho₃]
  exact ⟨rfl, rfl, hpartial, hreporting₃.trans (hreporting₂.trans hreporting)⟩

end Options

end Stencil
