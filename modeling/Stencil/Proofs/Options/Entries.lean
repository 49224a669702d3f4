import Stencil.Options.Reader
import Mathlib.Data.List.Induction
/-!
# Entries of a patch

A patch is read from the entries of an object, one after the other. Each entry names an option, which
it sets if its value fits and clears if not, so the patch says of an option what the last entry that
names it says. An entry that is refused is reported; it changes nothing of the patch unless it clears
what an earlier entry set.
-/
namespace Stencil.Patch

inductive Setting where
  | delimiterStart | delimiterStop | reporting | style | haltOnError | fullTtl | partialTtl | output
  | outputFormat | outputExt | outputDir | forceFull | code | name | absolutePaths | autoRepair
deriving Repr, DecidableEq

namespace Setting

def Value : Setting → Type
  | delimiterStart | delimiterStop | outputDir => Text
  | reporting | fullTtl | partialTtl => Nat
  | style => Style
  | outputFormat => List NameToken
  | outputExt | name => String
  | haltOnError | output | forceFull | code | absolutePaths | autoRepair => Bool

def get (p : Patch) : (s : Setting) → Option s.Value
  | delimiterStart => p.delimiterStart
  | delimiterStop => p.delimiterStop
  | reporting => p.reporting
  | style => p.style
  | haltOnError => p.haltOnError
  | fullTtl => p.fullTtl
  | partialTtl => p.partialTtl
  | output => p.output
  | outputFormat => p.outputFormat
  | outputExt => p.outputExt
  | outputDir => p.outputDir
  | forceFull => p.forceFull
  | code => p.code
  | name => p.name
  | absolutePaths => p.absolutePaths
  | autoRepair => p.autoRepair

/-- The patch with the option set to a value, or cleared. -/
def set (p : Patch) : (s : Setting) → Option s.Value → Patch
  | delimiterStart, v => { p with delimiterStart := v }
  | delimiterStop, v => { p with delimiterStop := v }
  | reporting, v => { p with reporting := v }
  | style, v => { p with style := v }
  | haltOnError, v => { p with haltOnError := v }
  | fullTtl, v => { p with fullTtl := v }
  | partialTtl, v => { p with partialTtl := v }
  | output, v => { p with output := v }
  | outputFormat, v => { p with outputFormat := v }
  | outputExt, v => { p with outputExt := v }
  | outputDir, v => { p with outputDir := v }
  | forceFull, v => { p with forceFull := v }
  | code, v => { p with code := v }
  | name, v => { p with name := v }
  | absolutePaths, v => { p with absolutePaths := v }
  | autoRepair, v => { p with autoRepair := v }

def read (value : Json) : (s : Setting) → Reading s.Value
  | delimiterStart | delimiterStop | outputDir => readText value
  | reporting => readLevel value
  | style => (readString value).map Style.ofName
  | fullTtl | partialTtl => readTtl value
  | outputFormat => readTokens value
  | outputExt | name => readString value
  | haltOnError | output | forceFull | code | absolutePaths | autoRepair => readBool value

/-- The values that fit the option. -/
def Fits (value : Json) : Setting → Prop
  | reporting => ∃ level : Nat, level ≤ Options.maxReporting ∧ value = .int level
  | fullTtl | partialTtl => ∃ ttl : Nat, ttl < Nat.pow 2 64 ∧ value = .int ttl
  | outputFormat => ∃ tokens : List NameToken, value = .list (tokens.map fun t => .string t.name)
  | haltOnError | output | forceFull | code | absolutePaths | autoRepair => ∃ b, value = .bool b
  | delimiterStart | delimiterStop | style | outputExt | outputDir | name => ∃ t, value = .string t

def table : List (String × Setting) :=
  [("delimiter_start", delimiterStart), ("delimiter_stop", delimiterStop), ("reporting", reporting),
    ("style", style), ("halt_on_error", haltOnError), ("full_cache_ttl", fullTtl),
    ("partial_cache_ttl", partialTtl), ("output", output), ("output_format", outputFormat),
    ("output_ext", outputExt), ("output_dir", outputDir), ("force_full_render", forceFull),
    ("code", code), ("name", name), ("use_absolute_paths", absolutePaths),
    ("auto_repair", autoRepair)]

def ofKey? (key : String) : Option Setting := (table.find? fun row => row.1 == key).map (·.2)

section

variable {p p' : Patch} {s s' : Setting} {value : Json}

@[simp] theorem get_set (v : Option s.Value) : s.get (s.set p v) = v := by
  cases s <;> rfl

theorem get_set_of_ne (h : s ≠ s') (v : Option s'.Value) : s.get (s'.set p v) = s.get p := by
  cases s' <;> cases s <;> first | rfl | exact absurd rfl h

/-- Patches that set all options alike are the same. -/
theorem eq_of_get (h : ∀ s : Setting, s.get p = s.get p') : p = p' := by
  obtain ⟨⟩ := p
  obtain ⟨⟩ := p'
  congr
  · exact h delimiterStart
  · exact h delimiterStop
  · exact h reporting
  · exact h style
  · exact h haltOnError
  · exact h fullTtl
  · exact h partialTtl
  · exact h output
  · exact h outputFormat
  · exact h outputExt
  · exact h outputDir
  · exact h forceFull
  · exact h code
  · exact h name
  · exact h absolutePaths
  · exact h autoRepair

theorem get_empty (s : Setting) : s.get {} = none := by
  cases s <;> rfl

/-! ## Reading -/

theorem ofName?_eq_some {name : String} {t : NameToken} :
    NameToken.ofName? name = some t ↔ name = t.name := by
  constructor
  · intro h
    have hname := List.find?_some (h : NameToken.all.find? (fun t => t.name == name) = some t)
    exact (beq_iff_eq.mp hname).symm
  · rintro rfl
    cases t <;> decide

private theorem readTokens_eq_ok {tokens : List NameToken} :
    readTokens value = .ok tokens ↔ value = .list (tokens.map fun t => .string t.name) := by
  have hitem (item : Json) (t : NameToken) :
      item.asString?.bind NameToken.ofName? = some t ↔ item = .string t.name := by
    cases item <;> simp [Json.asString?, ofName?_eq_some]
  have hitems (items : List Json) (tokens : List NameToken) :
      (items.mapM fun item => item.asString?.bind NameToken.ofName?) = some tokens ↔
        items = tokens.map fun t => .string t.name := by
    induction items generalizing tokens with
    | nil => cases tokens <;> simp
    | cons item items ih =>
        simp only [List.mapM_cons, Option.bind_eq_bind, Option.bind_eq_some_iff, hitem, ih,
          Option.pure_def, Option.some.injEq]
        cases tokens with
        | nil => simp
        | cons t tokens =>
            rw [List.map_cons, List.cons.injEq]
            refine ⟨?_, fun ⟨hhead, htail⟩ => ⟨t, hhead, tokens, htail, rfl⟩⟩
            rintro ⟨_, hhead, _, htail, ⟨⟩⟩
            exact ⟨hhead, htail⟩
  cases value with
  | list items =>
      rw [readTokens, Json.list.injEq, ← hitems]
      split
      · rename_i found hfound
        simp [hfound]
      · rename_i hnone
        simp [hnone]
  | _ => simp [readTokens]

private theorem asWord?_eq_some {n : Nat} :
    value.asWord? = some n ↔ n < Nat.pow 2 64 ∧ value = .int n := by
  cases value with
  | int m =>
      simp only [Json.asWord?, Json.int.injEq]
      split
      · rename_i hm
        simp only [Bool.and_eq_true, decide_eq_true_eq] at hm
        rw [Option.some.injEq]
        omega
      · rename_i hm
        simp only [Bool.and_eq_true, decide_eq_true_eq] at hm
        refine iff_of_false (by simp) fun ⟨hn, heq⟩ => hm ?_
        omega
  | _ => simp [Json.asWord?]

private theorem readLevel_eq_ok {level : Nat} :
    readLevel value = .ok level ↔ level ≤ Options.maxReporting ∧ value = .int level := by
  have hword {n : Nat} : value.asWord?.filter (· ≤ Options.maxReporting) = some n ↔
      n ≤ Options.maxReporting ∧ value = .int n := by
    rw [Option.filter_eq_some_iff, asWord?_eq_some, decide_eq_true_eq]
    refine ⟨fun ⟨⟨_, hvalue⟩, hle⟩ => ⟨hle, hvalue⟩, fun ⟨hle, hvalue⟩ => ⟨⟨?_, hvalue⟩, hle⟩⟩
    exact Nat.lt_of_le_of_lt hle (by decide)
  rw [readLevel, ← hword]
  split
  · rename_i found hfound
    simp [hfound]
  · rename_i hnone
    simp [hnone]

private theorem readTtl_eq_ok {ttl : Nat} :
    readTtl value = .ok ttl ↔ ttl < Nat.pow 2 64 ∧ value = .int ttl := by
  rw [readTtl, ← asWord?_eq_some]
  split
  · rename_i found hfound
    simp [hfound]
  · rename_i hnone
    simp [hnone]

/-- A value is read where it fits. -/
theorem exists_read_eq_ok : (∃ v, s.read value = .ok v) ↔ s.Fits value := by
  cases s
  case reporting => exact exists_congr fun _ => readLevel_eq_ok
  case fullTtl => exact exists_congr fun _ => readTtl_eq_ok
  case partialTtl => exact exists_congr fun _ => readTtl_eq_ok
  case outputFormat => exact exists_congr fun _ => readTokens_eq_ok
  all_goals
    cases value <;> simp [Setting.read, Fits, readText, readString, readBool, Value, Except.map]

end

end Setting

/-! ## One entry -/

/-- The option that an entry names, its key in snake case or in camel case. -/
def named? (entry : String × Json) : Option Setting := Setting.ofKey? (snakeCase entry.1)

/-- An entry whose key names no option, or whose value does not fit the option. -/
def Refused (entry : String × Json) : Prop := ∀ s ∈ named? entry, ¬ s.Fits entry.2

/-- What an entry sets its option to. -/
def given? (s : Setting) (entry : String × Json) : Option s.Value := (s.read entry.2).toOption

/-- The message about an entry, if it is refused. -/
def refusal? (entry : String × Json) : Option String :=
  match named? entry with
  | none => some ("Ignoring unknown option '" ++ snakeCase entry.1 ++ "'")
  | some s =>
    match s.read entry.2 with
    | .ok _ => none
    | .error expected =>
      some ("Ignoring option '" ++ snakeCase entry.1 ++ "': expected " ++ expected ++ ", found " ++
        entry.2.kind)

section Entry

variable {s : Setting} {p : Patch} {log : Collector} {entry : String × Json}

theorem isSome_given? : (given? s entry).isSome = true ↔ s.Fits entry.2 := by
  rw [given?, ← Setting.exists_read_eq_ok]
  cases s.read entry.2 <;> simp [Except.toOption]

/-- An entry is reported if and only if it is refused. -/
theorem isSome_refusal? : (refusal? entry).isSome = true ↔ Refused entry := by
  unfold refusal? Refused
  cases hnamed : named? entry with
  | none => simp
  | some s =>
      simp only [Option.mem_def, Option.some.injEq, forall_eq', ← Setting.exists_read_eq_ok]
      cases s.read entry.2 <;> simp

instance (entry : String × Json) : Decidable (Refused entry) := decidable_of_iff _ isSome_refusal?

theorem setEntry_eq (p : Patch) (log : Collector) (key : String) (value : Json) :
    setEntry p log key value =
      match Setting.ofKey? key with
      | some s => setField log key value (s.read value) (s.set p)
      | none =>
        (p, log.warn Diagnostic.invalidOption ("Ignoring unknown option '" ++ key ++ "'")) := by
  unfold setEntry
  split
  case h_4 => cases value <;> rfl
  case h_17 =>
    have hnone : Setting.ofKey? key = none := by
      rw [Setting.ofKey?, Option.map_eq_none_iff, List.find?_eq_none]
      simp only [Setting.table, List.forall_mem_cons, beq_iff_eq]
      grind
    rw [hnone]
  all_goals rfl

/-- An entry sets or clears its own option and leaves the others as they are. -/
theorem get_setEntry : s.get (setEntry p log (snakeCase entry.1) entry.2).1 =
    if named? entry = some s then given? s entry else s.get p := by
  rw [setEntry_eq]
  change s.get (match named? entry with
    | some s => setField log (snakeCase entry.1) entry.2 (s.read entry.2) (s.set p)
    | none => (p, log.warn Diagnostic.invalidOption _)).1 = _
  cases hnamed : named? entry with
  | none => rfl
  | some s' =>
      have hset : (setField log (snakeCase entry.1) entry.2 (s'.read entry.2) (s'.set p)).1 =
          s'.set p (given? s' entry) := by
        rw [given?]
        cases s'.read entry.2 <;> rfl
      rw [hset]
      by_cases hs : s' = s
      · subst hs
        rw [if_pos rfl, Setting.get_set]
      · rw [if_neg (by simpa using hs), Setting.get_set_of_ne (Ne.symm hs)]

/-- An entry is reported where it is refused. -/
theorem log_setEntry : (setEntry p log (snakeCase entry.1) entry.2).2 =
    (refusal? entry).toList.foldl (fun log => log.warn Diagnostic.invalidOption) log := by
  rw [setEntry_eq, refusal?]
  change (match named? entry with
    | some s => setField log (snakeCase entry.1) entry.2 (s.read entry.2) (s.set p)
    | none => (p, log.warn Diagnostic.invalidOption _)).2 = _
  cases named? entry with
  | none => rfl
  | some s =>
      dsimp only
      cases s.read entry.2 <;> rfl

end Entry

/-! ## All entries -/

/-- The last entry that names an option. -/
def lastNamed? (s : Setting) (entries : List (String × Json)) : Option (String × Json) :=
  (entries.filter fun entry => named? entry = some s).getLast?

section Entries

variable {s : Setting} {log : Collector} {entry : String × Json}
  {entries before after : List (String × Json)}

private theorem ofJson_concat (entries : List (String × Json)) (entry : String × Json)
    (log : Collector) : ofJson (.object (entries ++ [entry])) log =
      setEntry (ofJson (.object entries) log).1 (ofJson (.object entries) log).2
        (snakeCase entry.1) entry.2 := by
  simp only [ofJson, List.foldl_append]
  rfl

theorem lastNamed?_append : lastNamed? s (before ++ after) =
    (lastNamed? s after).or (lastNamed? s before) := by
  simp [lastNamed?, List.filter_append]

theorem lastNamed?_single :
    lastNamed? s [entry] = if named? entry = some s then some entry else none := by
  by_cases h : named? entry = some s <;> simp [lastNamed?, h]

/-- What a patch sets an option to is what the last entry that names the option gives. -/
theorem get_ofJson : s.get (ofJson (.object entries) log).1 =
    (lastNamed? s entries).bind (given? s) := by
  induction entries using List.reverseRecOn with
  | nil => exact Setting.get_empty s
  | append_singleton entries entry ih =>
      rw [ofJson_concat, get_setEntry, lastNamed?_append, lastNamed?_single]
      split
      · rfl
      · exact ih

/-- The entries that are refused are reported in order. -/
theorem log_ofJson : (ofJson (.object entries) log).2 =
    (entries.filterMap refusal?).foldl (fun log => log.warn Diagnostic.invalidOption) log := by
  induction entries using List.reverseRecOn with
  | nil => rfl
  | append_singleton entries entry ih =>
      rw [ofJson_concat, log_setEntry, ih, List.filterMap_append, List.foldl_append]
      cases h : refusal? entry <;> simp [h]

/-- Warnings are kept in order from level 2 on. -/
theorem foldl_warn (code : String) (messages : List String) (log : Collector) :
    messages.foldl (fun log => log.warn code) log =
      { log with
        entries := log.entries ++ if 2 ≤ log.reporting then
          messages.map fun message => ⟨code, .warning, message, log.template, none⟩ else [] } := by
  induction messages generalizing log with
  | nil => simp
  | cons message messages ih =>
      rw [List.foldl_cons, ih]
      by_cases h : 2 ≤ log.reporting <;>
        simp [Collector.warn, Collector.add, Severity.visibleAt, Severity.level, h]

/-- A refused entry is reported once, in its place, if warnings are shown, and not at all if not. Of the
patch it changes at most its own option, which it clears unless a later entry names it: the patch is
the one without the entry if and only if such a later entry is there, or the last of the earlier
entries that name the option is refused as well, or there is none. In all a patch sets the options of
which the last entry fits, each to what that entry gives. -/
theorem refused_entry (h : Refused entry) (before after : List (String × Json)) (log : Collector) :
    let kept := ofJson (.object (before ++ after)) log
    let whole := ofJson (.object (before ++ entry :: after)) log
    (∀ s : Setting, s.get whole.1 = (lastNamed? s (before ++ entry :: after)).bind (given? s) ∧
      ((s.get whole.1).isSome = true ↔
        ∃ last ∈ lastNamed? s (before ++ entry :: after), s.Fits last.2)) ∧
      (∀ s : Setting, s.get whole.1 =
        if named? entry = some s ∧ lastNamed? s after = none then none else s.get kept.1) ∧
      (whole.1 = kept.1 ↔ ∀ s ∈ named? entry, (lastNamed? s after).isSome = true ∨
        ∀ last ∈ lastNamed? s before, ¬ s.Fits last.2) ∧
      (2 ≤ log.reporting → ∃ message earlier later, refusal? entry = some message ∧
        kept.2.entries = earlier ++ later ∧ whole.2.entries =
          earlier ++ ⟨Diagnostic.invalidOption, .warning, message, log.template, none⟩ :: later) ∧
      (log.reporting < 2 → kept.2 = log ∧ whole.2 = log) := by
  dsimp only
  have hentry (s : Setting) (hs : named? entry = some s) : given? s entry = none := by
    rw [← Option.not_isSome_iff_eq_none, isSome_given?]
    exact h s hs
  have hsplit (s : Setting) : lastNamed? s (before ++ entry :: after) =
      (lastNamed? s after).or (if named? entry = some s then some entry else lastNamed? s before) := by
    rw [List.append_cons, lastNamed?_append, lastNamed?_append, lastNamed?_single]
    split <;> rfl
  have hpatch (s : Setting) : s.get (ofJson (.object (before ++ entry :: after)) log).1 =
      if named? entry = some s ∧ lastNamed? s after = none then none
      else s.get (ofJson (.object (before ++ after)) log).1 := by
    rw [get_ofJson, get_ofJson, hsplit, lastNamed?_append]
    cases hafter : lastNamed? s after with
    | some last => simp
    | none =>
        by_cases hs : named? entry = some s
        · simp [hs, hentry s hs]
        · simp [hs]
  refine ⟨fun s => ⟨get_ofJson, ?_⟩, hpatch, ?_, ?_, ?_⟩
  · rw [get_ofJson, Option.isSome_bind]
    simp [Option.any_eq_true, isSome_given?]
  · -- what an earlier entry says of the option is all that can be lost
    have hkept (s : Setting) (hafter : lastNamed? s after = none) :
        s.get (ofJson (.object (before ++ after)) log).1 = none ↔
          ∀ last ∈ lastNamed? s before, ¬ s.Fits last.2 := by
      rw [get_ofJson, lastNamed?_append, hafter, Option.none_or]
      cases lastNamed? s before with
      | none => simp
      | some last => simp [← isSome_given?]
    constructor
    · intro hsame s hs
      by_cases hafter : lastNamed? s after = none
      · have hcleared := hpatch s
        rw [if_pos ⟨hs, hafter⟩, hsame] at hcleared
        exact .inr ((hkept s hafter).mp hcleared)
      · exact .inl (Option.isSome_iff_ne_none.mpr hafter)
    · intro hall
      refine Setting.eq_of_get fun s => ?_
      rw [hpatch]
      split
      · rename_i hlost
        rcases hall s hlost.1 with hlater | hmisfit
        · rw [hlost.2] at hlater
          cases hlater
        · exact ((hkept s hlost.2).mpr hmisfit).symm
      · rfl
  · intro hlevel
    obtain ⟨message, hmessage⟩ := Option.isSome_iff_exists.mp (isSome_refusal?.mpr h)
    rw [log_ofJson, log_ofJson, foldl_warn, foldl_warn]
    simp only [if_pos hlevel, List.filterMap_append, List.filterMap_cons, hmessage, List.map_append,
      List.map_cons]
    exact ⟨message, _, _, rfl, (List.append_assoc ..).symm, (List.append_assoc ..).symm⟩
  · intro hlevel
    have hsilent : ¬ 2 ≤ log.reporting := Nat.not_le.mpr hlevel
    rw [log_ofJson, log_ofJson, foldl_warn, foldl_warn, if_neg hsilent, if_neg hsilent, List.append_nil]
    exact ⟨rfl, rfl⟩

/-- A time to live below zero, which the other spelling of its key makes good. -/
theorem refused_entry_made_good :
    let refused : String × Json := ("fullCacheTtl", .int (-5))
    let later : List (String × Json) := [("full_cache_ttl", .int 5000), ("haltOnError", .bool false)]
    let kept := ofJson (.object later) { reporting := 2 }
    let whole := ofJson (.object (refused :: later)) { reporting := 2 }
    Refused refused ∧ whole.1 = kept.1 ∧
      kept.1 = { fullTtl := some 5000, haltOnError := some false } ∧
      ∃ message first last, refusal? refused = some message ∧ kept.2.entries = first ++ last ∧
        whole.2.entries =
          first ++ ⟨Diagnostic.invalidOption, .warning, message, none, none⟩ :: last := by
  intro refused later kept whole
  have hrefused : Refused refused := by decide
  obtain ⟨-, -, hsame, hwarned, -⟩ := refused_entry hrefused [] later { reporting := 2 }
  refine ⟨hrefused, hsame.mpr fun s hs => .inl ?_, by decide, hwarned (by decide)⟩
  obtain rfl : s = .fullTtl := Option.some.inj (hs.symm.trans (by decide))
  decide

/-- An entry of the wrong type clears what another spelling of its key has set. -/
theorem refused_entry_clears :
    let valid : String × Json := ("haltOnError", .bool false)
    let refused : String × Json := ("halt_on_error", .int 1)
    Json.ofFields [refused, valid] = .object [valid, refused] ∧ Refused refused ∧
      (ofJson (.object [valid]) { reporting := 2 }).1 = { haltOnError := some false } ∧
      (ofJson (.object [valid, refused]) { reporting := 2 }).1 = {} :=
  ⟨rfl, by decide, by decide, by decide⟩

end Entries

end Stencil.Patch
