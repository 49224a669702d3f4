import Stencil.Engine.Render
/-!
# Incidents

Of all that is reported, failed executions and include cycles are told apart as incidents. What scans,
repairs and patches report are none.
-/
namespace Stencil

/-! ## Logs -/

/-- A failed execution or an include cycle. -/
def Diagnostic.isIncident (d : Diagnostic) : Bool :=
  d.code == Diagnostic.executionFailed || d.code == Diagnostic.includeCycle

/-- Diagnostics were added, and these are the incidents among them. -/
def Adds (incidents before after : List Diagnostic) : Prop :=
  ∃ added, after = before ++ added ∧ added.filter (·.isIncident) = incidents

section Adds

variable {a b l l' l'' : List Diagnostic}

theorem Adds.refl (l : List Diagnostic) : Adds [] l l := ⟨[], by simp, rfl⟩

theorem Adds.trans (h : Adds a l l') (h' : Adds b l' l'') : Adds (a ++ b) l l'' := by
  obtain ⟨added, rfl, rfl⟩ := h
  obtain ⟨added', rfl, rfl⟩ := h'
  exact ⟨added ++ added', by simp, List.filter_append ..⟩

theorem Adds.append (h : Adds a [] l') (l : List Diagnostic) : Adds a l (l ++ l') := by
  obtain ⟨added, hafter, hadded⟩ := h
  rw [List.nil_append] at hafter
  exact ⟨l', rfl, hafter ▸ hadded⟩

end Adds

namespace Collector

variable {log log' log'' : Collector}

/-- Nothing was added but entries that are no incidents. -/
structure Calm (log log' : Collector) : Prop where
  reporting : log'.reporting = log.reporting
  template : log'.template = log.template
  entries : Adds [] log.entries log'.entries

theorem Calm.refl (log : Collector) : Calm log log := ⟨rfl, rfl, Adds.refl _⟩

theorem Calm.trans (h : Calm log log') (h' : Calm log' log'') : Calm log log'' :=
  ⟨h'.reporting.trans h.reporting, h'.template.trans h.template, h.entries.trans h'.entries⟩

/-- A diagnostic that is shown is stamped with the template of the log. -/
theorem entries_add (log : Collector) (d : Diagnostic) : Adds
    (if d.isIncident = true ∧ d.severity.level ≤ log.reporting then
      [{ d with template := d.template <|> log.template }] else []) log.entries
    (log.add d).entries := by
  have hincident (template : Option String) : ({ d with template } : Diagnostic).isIncident =
      d.isIncident := rfl
  unfold add Severity.visibleAt
  by_cases hshown : d.severity.level ≤ log.reporting
  · rw [if_pos (decide_eq_true hshown)]
    refine ⟨_, rfl, ?_⟩
    cases h : d.isIncident <;> simp [hincident, h, hshown]
  · rw [if_neg fun h => hshown h.2, if_neg (by simpa using hshown)]
    exact Adds.refl log.entries

theorem calm_add {d : Diagnostic} (h : d.isIncident = false) : Calm log (log.add d) := by
  have hentries := entries_add log d
  rw [h, if_neg fun h => Bool.false_ne_true h.1] at hentries
  refine ⟨?_, ?_, hentries⟩ <;> unfold add <;> split <;> rfl

end Collector

open Collector

/-- The repairs of a body are no incidents. -/
theorem calm_warnRepaired (repairs : List Repair) (log : Collector) :
    Calm log (Engine.warnRepaired repairs log) := by
  induction repairs generalizing log with
  | nil => exact Calm.refl log
  | cons repair repairs ih => exact (calm_add rfl).trans (ih _)

namespace Scan

variable {d : Delimiters}

private theorem calm_step (s : Scan) (c : Cursor) : Calm s.log (step d s c).1.log := by
  simp only [step]
  split
  · simp only [stepLiteral, take, takeAll, closeLiteral]
    split
    · exact Calm.refl _
    · split
      · exact Calm.refl _
      · split
        · split <;> exact Calm.refl _
        · exact calm_add rfl
  · split <;> exact Calm.refl _
  · split
    · exact Calm.refl _
    · simp only [stepCode, take, takeAll, closeCode]
      split
      · split
        · exact Calm.refl _
        · split
          · exact Calm.refl _
          · exact calm_add rfl
      · exact Calm.refl _

private theorem calm_steps (count : Nat) (here : Scan × Cursor) :
    Calm here.1.log (steps d count here).1.log := by
  induction count generalizing here with
  | zero => exact Calm.refl _
  | succ count ih =>
      rw [steps]
      split
      · exact Calm.refl _
      · exact (calm_step here.1 here.2).trans (ih _)

private theorem calm_finish (s : Scan) (c : Cursor) : Calm s.log (s.finish d c).log := by
  simp only [finish, closeLiteral, closeCode]
  split
  · split <;> exact Calm.refl _
  · exact calm_add rfl

/-- Nor is anything that a scan finds. -/
theorem calm_scan (d : Delimiters) (source : Text) (label : String) (log : Collector) :
    Calm log (scan d source label log).2 := by
  have hlog : (scan d source label log).2 = (ofText d source log).log := by
    simp only [scan]
    split <;> rfl
  rw [hlog]
  exact (calm_steps source.length ({ log }, Cursor.ofText source)).trans (calm_finish _ _)

end Scan

namespace Patch

private theorem calm_setField {α : Type} (log : Collector) (key : String) (value : Json)
    (reading : Reading α) (set : Option α → Patch) :
    Calm log (setField log key value reading set).2 := by
  cases reading with
  | ok => exact Calm.refl log
  | error => exact calm_add rfl

private theorem calm_setEntry (p : Patch) (log : Collector) (key : String) (value : Json) :
    Calm log (setEntry p log key value).2 := by
  unfold setEntry
  split <;> first | exact calm_setField .. | exact calm_add rfl

/-- Nor is anything that the options of a nested render are written with. -/
theorem calm_ofJson (value : Json) (log : Collector) : Calm log (ofJson value log).2 := by
  have hfields (fields : List (String × Json)) (p : Patch) (log : Collector) :
      Calm log (fields.foldl (fun read field => setEntry read.1 read.2 (snakeCase field.1) field.2)
        (p, log)).2 := by
    induction fields generalizing p log with
    | nil => exact Calm.refl log
    | cons field fields ih => exact (calm_setEntry p log _ field.2).trans (ih _ _)
  unfold ofJson
  split
  · exact Calm.refl log
  · exact hfields _ _ _
  · exact calm_add rfl

end Patch

namespace Options

private theorem calm_reviewDelimiters (d : Delimiters) (log : Collector) :
    Calm log (reviewDelimiters d log) := by
  have hshort : Calm log (if d.isShort then log.warn Diagnostic.shortDelimiter
      ("Delimiters " ++ quotedPair d ++ " are short and may match ordinary text") else log) := by
    split
    · exact calm_add rfl
    · exact Calm.refl log
  unfold reviewDelimiters
  dsimp only
  split
  · exact hshort.trans (calm_add rfl)
  · exact hshort

private theorem calm_delimiters (o : Options) (log : Collector) (start stop : Option Text) :
    Calm log (o.applyDelimiters log start stop).2.1 := by
  unfold applyDelimiters
  dsimp only
  split
  · exact Calm.refl log
  · split
    · exact calm_add rfl
    · split
      · exact Calm.refl log
      · exact calm_reviewDelimiters _ log

private theorem calm_reviewTtl (key : String) (ttl : Nat) (log : Collector) :
    Calm log (reviewTtl key ttl log) := by
  unfold reviewTtl
  split
  · exact calm_add rfl
  · exact Calm.refl log

private theorem calm_fullTtl (o : Options) (log : Collector) (asked : Option Nat) :
    Calm log (o.applyFullTtl log asked).2 := by
  unfold applyFullTtl
  split
  · exact Calm.refl log
  · split
    · exact calm_add rfl
    · exact calm_reviewTtl _ _ log

private theorem calm_partialTtl (o : Options) (log : Collector) (asked : Option Nat) :
    Calm log (o.applyPartialTtl log asked).2 := by
  cases asked with
  | none => exact Calm.refl log
  | some ttl => exact calm_reviewTtl _ ttl log

private theorem adds_reporting (o : Options) (log : Collector) (asked : Option Nat) :
    Adds [] log.entries (o.applyReporting log asked).2.entries := by
  unfold applyReporting
  split
  · exact Adds.refl _
  · split
    · exact Adds.refl _
    · exact (calm_add rfl).entries

/-- Nor is anything that a patch is refused or warned about. The level may change on the way. -/
theorem adds_apply (o : Options) (p : Patch) (log : Collector) :
    Adds [] log.entries (o.apply p log).2.1.entries := by
  simp only [apply]
  exact (adds_reporting o log p.reporting).trans
    ((calm_delimiters ..).trans ((calm_fullTtl ..).trans (calm_partialTtl ..))).entries

end Options

end Stencil
