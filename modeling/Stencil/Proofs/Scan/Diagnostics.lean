import Stencil.Scan
/-!
# Scanning, whatever is reported

What a scan reports has no part in how it goes on: the pieces are the same under every label and
whatever level of reporting.
-/
namespace Stencil

namespace Scan

variable {d : Delimiters} {s s' : Scan}

/-- The scans differ in their diagnostics at most. -/
def Alike (s s' : Scan) : Prop := ∃ log, s' = { s with log }

private theorem alike_step (h : Alike s s') (c : Cursor) :
    Alike (step d s c).1 (step d s' c).1 ∧ (step d s' c).2 = (step d s c).2 := by
  obtain ⟨log, rfl⟩ := h
  simp only [step]
  split
  · simp only [stepLiteral, take, takeAll, closeLiteral]
    split
    · exact ⟨⟨log, rfl⟩, rfl⟩
    · split
      · exact ⟨⟨log, rfl⟩, rfl⟩
      · split
        · refine ⟨⟨log, ?_⟩, rfl⟩
          split <;> rfl
        · exact ⟨⟨_, rfl⟩, rfl⟩
  · split
    · exact ⟨⟨log, rfl⟩, rfl⟩
    · exact ⟨⟨log, rfl⟩, rfl⟩
  · split
    · exact ⟨⟨log, rfl⟩, rfl⟩
    · simp only [stepCode, take, takeAll, closeCode]
      split
      · split
        · exact ⟨⟨log, rfl⟩, rfl⟩
        · split
          · exact ⟨⟨log, rfl⟩, rfl⟩
          · exact ⟨⟨_, rfl⟩, rfl⟩
      · exact ⟨⟨log, rfl⟩, rfl⟩

private theorem alike_steps (h : Alike s s') (count : Nat) (c : Cursor) :
    Alike (steps d count (s, c)).1 (steps d count (s', c)).1 ∧
      (steps d count (s', c)).2 = (steps d count (s, c)).2 := by
  induction count generalizing s s' c with
  | zero => exact ⟨h, rfl⟩
  | succ count ih =>
      obtain ⟨hstep, hcursor⟩ := alike_step (d := d) h c
      rw [steps, steps]
      split
      · exact ⟨h, rfl⟩
      · simp only
        rw [show step d s' c = ((step d s' c).1, (step d s c).2) by rw [← hcursor]]
        exact ih hstep _

private theorem alike_finish (h : Alike s s') (c : Cursor) :
    Alike (s.finish d c) (s'.finish d c) := by
  obtain ⟨log, rfl⟩ := h
  simp only [finish, closeLiteral, closeCode]
  split
  · refine ⟨log, ?_⟩
    split <;> rfl
  · exact ⟨_, rfl⟩

theorem alike_ofText (d : Delimiters) (source : Text) (log log' : Collector) :
    Alike (ofText d source log) (ofText d source log') := by
  have hstart : Alike { log } { log := log' } := ⟨log', rfl⟩
  obtain ⟨hsteps, hcursor⟩ := alike_steps (d := d) hstart source.length (Cursor.ofText source)
  simp only [ofText]
  rw [hcursor]
  exact alike_finish hsteps _

end Scan

/-- The pieces of a document do not depend on its label or on what is reported. -/
theorem toOption_scan (d : Delimiters) (source : Text) (label label' : String)
    (log log' : Collector) :
    (scan d source label log).1.toOption = (scan d source label' log').1.toOption := by
  obtain ⟨log'', halike⟩ := Scan.alike_ofText d source log log'
  have hdone : (Scan.ofText d source log').done = (Scan.ofText d source log).done := by rw [halike]
  simp only [scan, Scan.pieces]
  rw [hdone]
  split <;> rfl

/-- A scan fails only where a code region is left open. -/
theorem scan_error {d : Delimiters} {source : Text} {label : String} {log : Collector}
    {error : Error} (h : (scan d source label log).1 = .error error) :
    ∃ opened, error = .unterminatedCode label d.stop opened := by
  simp only [scan] at h
  split at h
  · exact ⟨_, (Except.error.inj h).symm⟩
  · simp at h

end Stencil
