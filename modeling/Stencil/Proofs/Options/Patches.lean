import Stencil.Options.Basic
/-!
# Options under patches

Options are valid with a pair of delimiters and a reporting level that there is. A patch keeps them so:
each value that it sets is stored or refused, and what is refused is reported.
-/
namespace Stencil

/-! ## Values -/

/-- What becomes of a value when a new one may be asked for. -/
structure Takes {α : Type} (refuses : α → Prop) (old : α) (asked : Option α) (new : α) : Prop where
  unset : asked = none → new = old
  refused : ∀ a ∈ asked, refuses a → new = old
  stored : ∀ a ∈ asked, ¬ refuses a → new = a

section Values

variable {α : Type} {old : α} {asked : Option α}

theorem takes_filter {accepts : α → Bool} {refuses : α → Prop}
    (h : ∀ a, refuses a ↔ accepts a = false) :
    Takes refuses old asked ((asked.filter accepts).getD old) := by
  refine ⟨?_, ?_, ?_⟩
  · rintro rfl
    rfl
  · intro a ha hrefused
    obtain rfl := Option.mem_def.mp ha
    simp [Option.filter, (h a).mp hrefused]
  · intro a ha hstored
    obtain rfl := Option.mem_def.mp ha
    rw [h, Bool.not_eq_false] at hstored
    simp [Option.filter, hstored]

theorem takes_getD : Takes (fun _ => False) old asked (asked.getD old) := by
  refine ⟨?_, fun _ _ h => h.elim, ?_⟩
  · rintro rfl
    rfl
  · rintro a rfl -
    rfl

/-- To ask for the same again changes nothing. -/
theorem getD_again : asked.getD (asked.getD old) = asked.getD old := by
  cases asked <;> rfl

end Values

namespace Options

variable {o : Options} {p : Patch} {log : Collector}

/-- Options with a pair of delimiters and a reporting level that there is. -/
structure Valid (o : Options) : Prop where
  delimiters : o.delimiters.isValid = true
  reporting : o.reporting ≤ maxReporting

/-- The pair of delimiters that a patch asks for: what it leaves unset is the current one. -/
def askedPair? (o : Options) (p : Patch) : Option Delimiters :=
  if p.delimiterStart.isNone && p.delimiterStop.isNone then none
  else some ⟨p.delimiterStart.getD o.delimiters.start, p.delimiterStop.getD o.delimiters.stop⟩

/-- Every value of the patch has been stored or refused, and the others are as they were. -/
structure Patched (o : Options) (p : Patch) (o' : Options) : Prop where
  delimiters : Takes (fun d => d.isValid = false) o.delimiters (o.askedPair? p) o'.delimiters
  reporting : Takes (maxReporting < ·) o.reporting p.reporting o'.reporting
  fullTtl : Takes (· < o.fullTtl) o.fullTtl p.fullTtl o'.fullTtl
  partialTtl : Takes (fun _ => False) o.partialTtl p.partialTtl o'.partialTtl
  style : Takes (fun _ => False) o.style p.style o'.style
  haltOnError : Takes (fun _ => False) o.haltOnError p.haltOnError o'.haltOnError
  output : Takes (fun _ => False) o.output p.output o'.output
  outputFormat : Takes (fun _ => False) o.outputFormat p.outputFormat o'.outputFormat
  outputExt : Takes (fun _ => False) o.outputExt p.outputExt o'.outputExt
  outputDir : Takes (fun _ => False) o.outputDir p.outputDir o'.outputDir
  forceFull : Takes (fun _ => False) o.forceFull p.forceFull o'.forceFull
  code : Takes (fun _ => False) o.code p.code o'.code
  name : Takes (fun _ => False) o.name (p.name.map some) o'.name
  absolutePaths : Takes (fun _ => False) o.absolutePaths p.absolutePaths o'.absolutePaths
  autoRepair : Takes (fun _ => False) o.autoRepair p.autoRepair o'.autoRepair

/-- The reporting level that a patch sets, unless there is none such. -/
def acceptedLevel? (p : Patch) : Option Nat := p.reporting.filter (· ≤ maxReporting)

def patched (o : Options) (p : Patch) : Options :=
  { o.applyPlain p with
    delimiters := ((o.askedPair? p).filter (·.isValid)).getD o.delimiters
    reporting := (acceptedLevel? p).getD o.reporting
    fullTtl := (p.fullTtl.filter (o.fullTtl ≤ ·)).getD o.fullTtl
    partialTtl := p.partialTtl.getD o.partialTtl }

/-! ## The checks -/

theorem applyReporting_fst (o : Options) (log : Collector) (asked : Option Nat) :
    (o.applyReporting log asked).1 =
      { o with reporting := (asked.filter (· ≤ maxReporting)).getD o.reporting } := by
  cases asked with
  | none => rfl
  | some level =>
      by_cases hlevel : level ≤ maxReporting <;> simp [applyReporting, Option.filter, hlevel]

theorem applyDelimiters_fst (o : Options) (log : Collector) (p : Patch) :
    (o.applyDelimiters log p.delimiterStart p.delimiterStop).1 =
      { o with delimiters := ((o.askedPair? p).filter (·.isValid)).getD o.delimiters } := by
  unfold applyDelimiters askedPair?
  simp only
  split
  · rfl
  · split
    · rename_i hinvalid
      rw [Bool.not_eq_true'] at hinvalid
      simp [Option.filter, hinvalid]
    · rename_i hvalid
      rw [Bool.not_eq_true', Bool.not_eq_false] at hvalid
      split
      · rename_i hsame
        rw [hsame] at hvalid
        simp only [Option.filter, hsame, if_pos hvalid, Option.getD_some]
      · simp [Option.filter, hvalid]

theorem applyFullTtl_fst (o : Options) (log : Collector) (asked : Option Nat) :
    (o.applyFullTtl log asked).1 =
      { o with fullTtl := (asked.filter (o.fullTtl ≤ ·)).getD o.fullTtl } := by
  cases asked with
  | none => rfl
  | some ttl =>
      by_cases hless : ttl < o.fullTtl
      · simp [applyFullTtl, Option.filter, hless, Nat.not_le.mpr hless]
      · simp [applyFullTtl, Option.filter, hless, Nat.le_of_not_lt hless]

theorem applyPartialTtl_fst (o : Options) (log : Collector) (asked : Option Nat) :
    (o.applyPartialTtl log asked).1 = { o with partialTtl := asked.getD o.partialTtl } := by
  cases asked <;> rfl

theorem apply_fst (o : Options) (p : Patch) (log : Collector) : (o.apply p log).1 = o.patched p := by
  simp only [apply]
  rw [applyPartialTtl_fst, applyFullTtl_fst, applyDelimiters_fst, applyReporting_fst]
  rfl

theorem patched_takes (o : Options) (p : Patch) : Patched o p (o.patched p) := by
  refine ⟨takes_filter (by simp), takes_filter (by simp), takes_filter (by simp), takes_getD, takes_getD,
    takes_getD, takes_getD, takes_getD, takes_getD, takes_getD, takes_getD, takes_getD, ?_, takes_getD,
    takes_getD⟩
  have hname : (o.patched p).name = (p.name.map some).getD o.name := by
    rw [patched, applyPlain]
    cases p.name <;> rfl
  rw [hname]
  exact takes_getD

theorem apply_changed (o : Options) (p : Patch) (log : Collector) :
    (o.apply p log).2.2 = ((o.apply p log).1.delimiters != o.delimiters) := by
  have hflag (o : Options) (log : Collector) :
      (o.applyDelimiters log p.delimiterStart p.delimiterStop).2.2 =
        ((o.applyDelimiters log p.delimiterStart p.delimiterStop).1.delimiters != o.delimiters) := by
    unfold applyDelimiters
    simp only
    split
    · simp
    · split
      · simp
      · split
        · simp
        · rename_i hne
          simp [hne]
  have hreporting := applyReporting_fst o log p.reporting
  simp only [apply, applyPartialTtl_fst, applyFullTtl_fst, hflag]
  rw [hreporting]
  rfl

theorem askedPair?_again {o' : Options} {pair : Delimiters} (h : o.askedPair? p = some pair)
    (hdelimiters : o'.delimiters = pair) : o'.askedPair? p = some pair := by
  unfold askedPair? at h ⊢
  split at h
  · simp at h
  · rename_i hset
    rw [if_neg hset, hdelimiters, ← Option.some.inj h, getD_again, getD_again]

theorem delimiters_again (o : Options) (p : Patch) :
    (((o.patched p).askedPair? p).filter (·.isValid)).getD (o.patched p).delimiters =
      (o.patched p).delimiters := by
  have hdelimiters : (o.patched p).delimiters =
      ((o.askedPair? p).filter (·.isValid)).getD o.delimiters := rfl
  cases hasked : (o.askedPair? p).filter (·.isValid) with
  | none =>
      rw [hasked] at hdelimiters
      have hsame : (o.patched p).askedPair? p = o.askedPair? p := by
        rw [askedPair?, hdelimiters]
        rfl
      rw [hsame, hasked]
      rfl
  | some pair =>
      rw [hasked] at hdelimiters
      obtain ⟨hsome, hvalid⟩ := Option.filter_eq_some_iff.mp hasked
      rw [askedPair?_again hsome hdelimiters, hdelimiters]
      simp [Option.filter, hvalid]

theorem fullTtl_again (o : Options) (p : Patch) :
    (p.fullTtl.filter ((o.patched p).fullTtl ≤ ·)).getD (o.patched p).fullTtl =
      (o.patched p).fullTtl := by
  have httl : (o.patched p).fullTtl = (p.fullTtl.filter (o.fullTtl ≤ ·)).getD o.fullTtl := rfl
  rw [httl]
  cases p.fullTtl with
  | none => rfl
  | some ttl => by_cases h : o.fullTtl ≤ ttl <;> simp [Option.filter, h]

/-- A patch applied again changes nothing. -/
theorem patched_again (o : Options) (p : Patch) : (o.patched p).patched p = o.patched p := by
  have hname : (p.name <|> (p.name <|> o.name)) = (p.name <|> o.name) := by
    cases p.name <;> rfl
  rw [patched, delimiters_again, fullTtl_again]
  simp only [patched, applyPlain, acceptedLevel?, getD_again, hname]

/-! ## What is reported -/

/-- A warning that a value of a patch is not taken over. -/
def IsRefusal (d : Diagnostic) : Bool :=
  d.severity == .warning && (d.code == Diagnostic.invalidOption || d.code == Diagnostic.shorterTtl)

/-- The code and the message of the warning about a level, if it is refused. -/
def levelRefusal (asked : Option Nat) : List (String × String) :=
  ((asked.filter (maxReporting < ·)).map fun level => (Diagnostic.invalidOption,
    "Ignoring reporting level " ++ toString level ++ "; expected 0 to 3")).toList

def pairRefusal (asked : Option Delimiters) : List (String × String) :=
  ((asked.filter (!·.isValid)).map fun pair => (Diagnostic.invalidOption,
    "Ignoring delimiters " ++ quotedPair pair ++ "; they must be non-empty and different")).toList

def ttlRefusal (current : Nat) (asked : Option Nat) : List (String × String) :=
  ((asked.filter (· < current)).map fun ttl => (Diagnostic.shorterTtl,
    "Ignoring full_cache_ttl " ++ toString ttl ++ "; it cannot go below the current " ++
      toString current)).toList

/-- A warning for each value of a patch that is refused, in the order of the checks. -/
def refusals (o : Options) (p : Patch) : List (String × String) :=
  levelRefusal p.reporting ++ (pairRefusal (o.askedPair? p) ++ ttlRefusal o.fullTtl p.fullTtl)

/-- The second log is the first with more entries, of which these are refusals, if warnings are
shown. -/
def Reports (log : Collector) (warnings : List (String × String)) (log' : Collector) : Prop :=
  ∃ added, log' = { log with entries := log.entries ++ added } ∧
    added.filter IsRefusal = if 2 ≤ log.reporting then
      warnings.map fun w => ⟨w.1, .warning, w.2, log.template, none⟩ else []

section Reports

variable {log' log'' : Collector} {warnings warnings' : List (String × String)}

theorem reports_nil (log : Collector) : Reports log [] log := ⟨[], by simp, by simp⟩

theorem Reports.trans (h : Reports log warnings log') (h' : Reports log' warnings' log'') :
    Reports log (warnings ++ warnings') log'' := by
  obtain ⟨added, rfl, hadded⟩ := h
  obtain ⟨added', rfl, hadded'⟩ := h'
  refine ⟨added ++ added', by simp, ?_⟩
  rw [List.filter_append, hadded, hadded']
  dsimp only
  split
  · rw [List.map_append]
  · rfl

/-- A refusal is reported. -/
theorem reports_refusal {code : String}
    (hcode : code = Diagnostic.invalidOption ∨ code = Diagnostic.shorterTtl) (message : String) :
    Reports log [(code, message)] (log.warn code message) := by
  have hrefusal : IsRefusal ⟨code, .warning, message, log.template, none⟩ = true := by
    rcases hcode with rfl | rfl <;> rfl
  by_cases hshown : 2 ≤ log.reporting
  · refine ⟨[⟨code, .warning, message, log.template, none⟩], ?_, ?_⟩
    · simp [Collector.warn, Collector.add, Severity.visibleAt, Severity.level, hshown]
    · simp [hrefusal, hshown]
  · refine ⟨[], ?_, by simp [hshown]⟩
    simp [Collector.warn, Collector.add, Severity.visibleAt, Severity.level, hshown]

/-- What is reported otherwise refuses nothing. -/
theorem reports_other (d : Diagnostic)
    (h : ∀ template, IsRefusal { d with template } = false) : Reports log [] (log.add d) := by
  unfold Collector.add
  split
  · exact ⟨[{ d with template := d.template <|> log.template }], rfl, by simp [h]⟩
  · exact reports_nil log

theorem reports_reviewDelimiters (d : Delimiters) (log : Collector) :
    Reports log [] (reviewDelimiters d log) := by
  have hshort : Reports log [] (if d.isShort then log.warn Diagnostic.shortDelimiter
      ("Delimiters " ++ quotedPair d ++ " are short and may match ordinary text") else log) := by
    split
    · exact reports_other _ fun _ => rfl
    · exact reports_nil log
  unfold reviewDelimiters
  dsimp only
  split
  · exact hshort.trans (reports_other _ fun _ => rfl)
  · exact hshort

theorem reports_reviewTtl (key : String) (ttl : Nat) (log : Collector) :
    Reports log [] (reviewTtl key ttl log) := by
  unfold reviewTtl
  split
  · exact reports_other _ fun _ => rfl
  · exact reports_nil log

theorem reports_reporting (o : Options) (log : Collector) (asked : Option Nat) :
    Reports { log with reporting := (asked.filter (· ≤ maxReporting)).getD log.reporting }
      (levelRefusal asked) (o.applyReporting log asked).2 := by
  cases asked with
  | none => exact reports_nil log
  | some level =>
      by_cases hlevel : level ≤ maxReporting
      · simp only [applyReporting, levelRefusal, Option.filter, hlevel,
          Nat.not_lt.mpr hlevel]
        exact reports_nil _
      · simp only [applyReporting, levelRefusal, Option.filter, hlevel,
          Nat.lt_of_not_le hlevel]
        exact reports_refusal (.inl rfl) _

theorem reports_delimiters (o : Options) (log : Collector) (p : Patch) :
    Reports log (pairRefusal (o.askedPair? p))
      (o.applyDelimiters log p.delimiterStart p.delimiterStop).2.1 := by
  unfold applyDelimiters askedPair?
  simp only
  split
  · exact reports_nil log
  · split
    · rename_i hinvalid
      simp only [pairRefusal, Option.filter, if_pos hinvalid]
      exact reports_refusal (.inl rfl) _
    · rename_i hvalid
      simp only [pairRefusal, Option.filter, if_neg hvalid]
      split
      · exact reports_nil log
      · exact reports_reviewDelimiters _ log

theorem reports_fullTtl (o : Options) (log : Collector) (asked : Option Nat) :
    Reports log (ttlRefusal o.fullTtl asked) (o.applyFullTtl log asked).2 := by
  cases asked with
  | none => exact reports_nil log
  | some ttl =>
      by_cases hless : ttl < o.fullTtl
      · simp only [applyFullTtl, ttlRefusal, Option.filter, hless]
        exact reports_refusal (.inr rfl) _
      · simp only [applyFullTtl, ttlRefusal, Option.filter, hless]
        exact reports_reviewTtl _ _ log

theorem reports_partialTtl (o : Options) (log : Collector) (asked : Option Nat) :
    Reports log [] (o.applyPartialTtl log asked).2 := by
  cases asked with
  | none => exact reports_nil log
  | some ttl => exact reports_reviewTtl _ _ log

/-- A patch reports what it is refused, at the level that it sets. -/
theorem reports_apply (o : Options) (p : Patch) (log : Collector) :
    Reports { log with reporting := (acceptedLevel? p).getD log.reporting } (refusals o p)
      (o.apply p log).2.1 := by
  have hlevel := reports_reporting o log p.reporting
  have ho₁ := applyReporting_fst o log p.reporting
  generalize hr : o.applyReporting log p.reporting = first at hlevel ho₁
  obtain ⟨o₁, log₁⟩ := first
  have hpair := reports_delimiters o₁ log₁ p
  have ho₂ := applyDelimiters_fst o₁ log₁ p
  generalize hd : o₁.applyDelimiters log₁ p.delimiterStart p.delimiterStop = second at hpair ho₂
  obtain ⟨o₂, log₂, changed⟩ := second
  have httl := reports_fullTtl o₂ log₂ p.fullTtl
  generalize hf : o₂.applyFullTtl log₂ p.fullTtl = third at httl
  obtain ⟨o₃, log₃⟩ := third
  have hpartial := reports_partialTtl o₃ log₃ p.partialTtl
  have happly : (o.apply p log).2.1 = (o₃.applyPartialTtl log₃ p.partialTtl).2 := by
    simp only [apply, hr, hd, hf]
  -- each check is of options that the ones before it leave as they were
  obtain rfl : o₁ = _ := ho₁
  obtain rfl : o₂ = _ := ho₂
  have hall := hlevel.trans (hpair.trans (httl.trans hpartial))
  rw [List.append_nil] at hall
  rw [happly]
  exact hall

end Reports

/-! ## Sequences of patches -/

section Sequences

theorem Valid.patched (h : o.Valid) (p : Patch) : (o.patched p).Valid := by
  refine ⟨?_, ?_⟩
  · have hdelimiters : (o.patched p).delimiters =
        ((o.askedPair? p).filter (·.isValid)).getD o.delimiters := rfl
    cases hasked : (o.askedPair? p).filter (·.isValid) with
    | none => rw [hdelimiters, hasked]; exact h.delimiters
    | some pair => rw [hdelimiters, hasked]; exact (Option.filter_eq_some_iff.mp hasked).2
  · have hreporting : (o.patched p).reporting = (acceptedLevel? p).getD o.reporting := rfl
    cases hasked : acceptedLevel? p with
    | none => rw [hreporting, hasked]; exact h.reporting
    | some level =>
        rw [hreporting, hasked]
        exact of_decide_eq_true (Option.filter_eq_some_iff.mp hasked).2

theorem fullTtl_le_patched (o : Options) (p : Patch) : o.fullTtl ≤ (o.patched p).fullTtl := by
  have httl : (o.patched p).fullTtl = (p.fullTtl.filter (o.fullTtl ≤ ·)).getD o.fullTtl := rfl
  cases hasked : p.fullTtl.filter (o.fullTtl ≤ ·) with
  | none => rw [httl, hasked]; exact Nat.le_refl _
  | some ttl =>
      rw [httl, hasked]
      exact of_decide_eq_true (Option.filter_eq_some_iff.mp hasked).2

/-- The options after patches, each with a collector of its own. -/
def applyAll (o : Options) (steps : List (Patch × Collector)) : Options :=
  steps.foldl (fun o step => (o.apply step.1 step.2).1) o

theorem Valid.applyAll (h : o.Valid) (steps : List (Patch × Collector)) :
    (o.applyAll steps).Valid ∧ o.fullTtl ≤ (o.applyAll steps).fullTtl := by
  induction steps generalizing o with
  | nil => exact ⟨h, Nat.le_refl _⟩
  | cons step steps ih =>
      obtain ⟨hvalid, hle⟩ := ih (h.patched step.1)
      rw [Options.applyAll, List.foldl_cons, apply_fst]
      exact ⟨hvalid, Nat.le_trans (fullTtl_le_patched o step.1) hle⟩

/-- Valid options stay so under every sequence of patches, and the time to live of the static tier never
goes down. Each patch stores what it sets, but for the values that are refused: those leave the options
as they were, and each is reported once if warnings are shown. It tells truly whether the delimiters
changed, and the same patch once more changes nothing. -/
theorem patches_keep_valid (h : o.Valid) (before : List (Patch × Collector)) (p : Patch)
    (log : Collector) :
    let current := o.applyAll before
    let applied := current.apply p log
    applied.1.Valid ∧ o.fullTtl ≤ current.fullTtl ∧ current.fullTtl ≤ applied.1.fullTtl ∧
      Patched current p applied.1 ∧
      Reports { log with reporting := (acceptedLevel? p).getD log.reporting } (refusals current p)
        applied.2.1 ∧
      (applied.2.2 = true ↔ applied.1.delimiters ≠ current.delimiters) ∧
      ∀ log', (applied.1.apply p log').1 = applied.1 ∧ (applied.1.apply p log').2.2 = false := by
  dsimp only
  obtain ⟨hvalid, hle⟩ := h.applyAll before
  refine ⟨?_, hle, ?_, ?_, reports_apply _ p log, ?_, fun log' => ⟨?_, ?_⟩⟩
  · rw [apply_fst]
    exact hvalid.patched p
  · rw [apply_fst]
    exact fullTtl_le_patched _ p
  · rw [apply_fst]
    exact patched_takes _ p
  · rw [apply_changed, bne_iff_ne]
  · rw [apply_fst, apply_fst, patched_again]
  · rw [apply_changed, apply_fst, apply_fst, patched_again, bne_self_eq_false]

/-- New delimiters and a longer time to live, and then a patch of which all but one value is
refused. -/
theorem patches_keep_valid_refused :
    let current := ({} : Options).applyAll
      [({ delimiterStart := some "%<".toList, delimiterStop := some ">%".toList
          fullTtl := some 5000 }, { reporting := 2 })]
    let refused : Patch :=
      { reporting := some 7, delimiterStart := some ">%".toList, fullTtl := some 100
        code := some true }
    let applied := current.apply refused { reporting := 2 }
    applied.1.Valid ∧ applied.1 = { current with code := true } ∧ applied.2.2 = false ∧
      (refusals current refused).length = 3 ∧
      Reports { reporting := 2 } (refusals current refused) applied.2.1 := by
  have hvalid : ({} : Options).Valid := ⟨by decide, by decide⟩
  have hall := patches_keep_valid hvalid
    [({ delimiterStart := some "%<".toList, delimiterStop := some ">%".toList
        fullTtl := some 5000 }, { reporting := 2 })]
    { reporting := some 7, delimiterStart := some ">%".toList, fullTtl := some 100
      code := some true } { reporting := 2 }
  obtain ⟨happlied, -, -, -, hreports, -, -⟩ := hall
  exact ⟨happlied, by decide, by decide, by decide, hreports⟩

end Sequences

end Options

end Stencil
