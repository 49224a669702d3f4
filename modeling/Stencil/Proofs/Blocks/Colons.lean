import Stencil.Proofs.Blocks.Clauses
import Stencil.Proofs.Blocks.Sources
/-!
# From colons to braces

The rules for blocks work on one kind of clause after another: heads get their braces, then `else`,
and in the end the closing words become braces and take their semicolons with them.
-/
namespace Stencil

open Normalize Text

namespace Placed

def colon (p : Placed) : Text := p.before ++ (p.clause.colon ++ (p.after ++ ";\n".toList))

def brace (p : Placed) : Text := p.before ++ (p.clause.brace [' '] ++ (p.after ++ ";\n".toList))

/-- The fragment around the items of its clause. -/
def around (p : Placed) (core : List Normalize.Item) : List Normalize.Item :=
  .blank p.before :: (core ++ [.blank p.after, .stop ';', .blank ['\n']])

structure Fits (m : Mask) (p : Placed) : Prop where
  before : Blank p.before
  after : Blank p.after
  tame : Tame m p.clause

theorem spread_around (p : Placed) (core : List Item) :
    spread (p.around core) = p.before ++ (spread core ++ (p.after ++ ";\n".toList)) := by
  have hend : ";\n".toList = [';', '\n'] := by decide
  rw [hend]
  simp [around]

end Placed

namespace Normalize

def endWord (kind : BlockKind) : Text := "end".toList ++ kind.word

/-- A clause when heads have their braces. -/
def headsDone : Clause Text → List Item
  | .otherwise => [.code ("else".toList ++ [':'])]
  | .close kind => [.code (endWord kind)]
  | clause => clauseItems [' '] clause

/-- A clause when `else` has its brace too. -/
def elsesDone : Clause Text → List Item
  | .close kind => [.code (endWord kind)]
  | clause => clauseItems [' '] clause

/-- A fragment when all is done. A closing brace has taken the place of its semicolon. -/
def endsDone (p : Placed) : List Item :=
  match p.clause with
  | .close _ => .blank p.before :: (clauseItems [' '] p.clause ++ [.blank ['\n']])
  | _ => p.around (clauseItems [' '] p.clause)

section Stages

variable {m : Mask} {p : Placed}

private theorem turns_placed {rule : Rule} (hrule : Keyed rule) (hp : p.Fits m) {old new : Text}
    (h : Turns rule old new) : Turns rule (p.before ++ (old ++ (p.after ++ ";\n".toList)))
      (p.before ++ (new ++ (p.after ++ ";\n".toList))) := by
  have blank {b : Text} (hb : Blank b) : ∀ c ∈ b, isWordChar c = false :=
    fun c hc => isWordChar_of_blank (hb c hc)
  have hend : ∀ c ∈ ";\n".toList, isWordChar c = false := by decide
  exact (Turns.outside hrule (blank hp.before)).append
    (h.append ((Turns.outside hrule (blank hp.after)).append (Turns.outside hrule hend)))

private theorem turns_code {rule : Rule} (hrule : Keyed rule) (hp : p.Fits m) {t : Text}
    (ht : Passes rule t ';') :
    Turns rule (spread (p.around [.code t])) (spread (p.around [.code t])) := by
  refine Turns.items hrule (.blank hp.before (.code ht (.blank hp.after (.stop rfl ?_ (.blank ?_ .nil)))))
  · exact fun _ => rfl
  · simp [isBlank]

private theorem form_around (hp : p.Fits m) :
    BraceForm p.clause (p.around (clauseItems [' '] p.clause)) := by
  have hline : Blank ['\n'] := by simp [isBlank]
  obtain ⟨before, clause, after⟩ := p
  cases clause with
  | leaf t => exact .statement hp.before hp.after hline
  | _ => exact .ended (by simp) hp.before (by simp [isBlank]) hp.after hline

private theorem turns_form {rule : Rule} (hrule : Keyed rule) (hp : p.Fits m)
    (hpass : ∀ t c, Phrase m t c → Passes rule t c) :
    Turns rule (spread (p.around (clauseItems [' '] p.clause)))
      (spread (p.around (clauseItems [' '] p.clause))) := by
  have hforms := ((form_around hp).punctuated (fun _ _ h => h) hp.tame .nil rfl).1
  rw [List.append_nil] at hforms
  exact Turns.items hrule (hforms.imp hpass)

/-! ## Heads -/

private theorem turns_head {keyword c : Text} (hkey : BlockHead.IsKeyword keyword)
    (hc : Condition m c) :
    Turns colonHead (keyword ++ " (".toList ++ (c ++ [')', ':']))
      (braceKeyword keyword ++ " (".toList ++ (c ++ [')', ' ', '\x7b'])) := by
  intro before rest hbefore
  have hread := colonHead_hit hbefore hkey hc.balanced rest
  have hbrace : ") \x7b".toList = [')', ' ', '\x7b'] := by decide
  have hsplit : keyword ++ " (".toList ++ (c ++ ')' :: ':' :: rest) =
      keyword ++ " (".toList ++ (c ++ [')', ':']) ++ rest := by simp
  rw [hsplit, hbrace, List.append_assoc _ c] at hread
  rw [replaceFrom_match (by simp) hread, lastOr_append, lastOr_append]
  exact ⟨rfl, rfl⟩

private theorem passes_endWord {rule : Rule} (hrule : Keyed rule) (kind : BlockKind)
    (hnone : ∀ before t, rule before (endWord kind ++ t) = none) :
    Passes rule (endWord kind) ';' := by
  intro before g rest _ _
  have hword : ∀ c ∈ endWord kind, isWordChar c = true := by cases kind <;> decide
  exact hrule.word hword (hnone before _)

theorem turns_colonHead (hp : p.Fits m) :
    Turns colonHead p.colon (spread (p.around (headsDone p.clause))) := by
  obtain ⟨before, clause, after⟩ := p
  have htame := hp.tame
  rw [Placed.spread_around]
  cases clause with
  | leaf t =>
      have hform := turns_form keyed_colonHead hp fun _ _ h => h.passes_colonHead
      rw [Placed.spread_around] at hform
      simpa [clauseItems, headsDone, Placed.colon, Clause.colon] using hform
  | head kind c =>
      refine turns_placed keyed_colonHead hp ?_
      have hturns := turns_head (isKeyword_word kind) htame
      have hkeyword : braceKeyword kind.word = kind.word := by cases kind <;> rfl
      rw [hkeyword] at hturns
      simpa [headsDone, clauseItems, Clause.colon, Clause.head_code] using hturns
  | elseIf c =>
      refine turns_placed keyed_colonHead hp ?_
      have hturns := turns_head isKeyword_elseIf htame
      have hold : "else if".toList ++ " (".toList = "else if (".toList := by decide
      have hnew : braceKeyword "else if".toList ++ " (".toList =
          '\x7d' :: ' ' :: "else if (".toList := by decide
      rw [hold, hnew] at hturns
      simpa [headsDone, clauseItems, Clause.colon, Clause.elseIf_code] using hturns
  | otherwise =>
      have hpass : Passes colonHead ("else".toList ++ [':']) ';' := by
        intro before g rest _ _
        have hnone : colonHead before ("else".toList ++ ([':'] ++ (g ++ ';' :: rest))) = none :=
          colonHead_of_else blank_nil (by decide) (by decide)
        have hcolon := keyed_colonHead.outside (lastOr before "else".toList) (s := [':']) (by decide)
          (g ++ ';' :: rest)
        rw [List.append_assoc, keyed_colonHead.word (by decide) hnone, hcolon, lastOr_append,
          List.append_assoc]
      have hturns := turns_code keyed_colonHead hp hpass
      rw [Placed.spread_around] at hturns
      simpa [headsDone, Placed.colon, Clause.colon, Clause.otherwise_code] using hturns
  | close kind =>
      have hturns := turns_code keyed_colonHead hp (passes_endWord keyed_colonHead kind ?_)
      · rw [Placed.spread_around] at hturns
        simpa [headsDone, Placed.colon, Clause.colon, endWord] using hturns
      · intro before t
        unfold colonHead BlockHead.read?
        split
        · cases kind <;> rfl
        · rfl

/-! ## Else -/

private theorem turns_else :
    Turns colonElse ("else".toList ++ [':']) (Clause.brace [' '] .otherwise) := by
  intro before rest hbefore
  have hhit : colonElse before ("else".toList ++ [':'] ++ rest) =
      some ("\x7d else \x7b".toList, rest) := by
    unfold colonElse
    rw [if_pos hbefore, List.append_assoc, after?_append]
    rfl
  have hnew : "\x7d else \x7b".toList = Clause.brace [' '] .otherwise := by decide
  rw [replaceFrom_match (by simp) hhit, hnew, lastOr_append]
  exact ⟨rfl, rfl⟩

theorem turns_colonElse (hp : p.Fits m) :
    Turns colonElse (spread (p.around (headsDone p.clause)))
      (spread (p.around (elsesDone p.clause))) := by
  have hform := turns_form keyed_colonElse hp fun _ _ h => h.passes_colonElse
  obtain ⟨before, clause, after⟩ := p
  cases clause with
  | otherwise =>
      rw [Placed.spread_around, Placed.spread_around]
      refine turns_placed keyed_colonElse hp ?_
      have hturns := turns_else
      simpa [headsDone, elsesDone, clauseItems, Clause.brace] using hturns
  | close kind =>
      refine turns_code keyed_colonElse hp (passes_endWord keyed_colonElse kind fun before t => ?_)
      unfold colonElse
      split
      · cases kind <;> rfl
      · rfl
  | _ => exact hform

/-! ## Closing words -/

private theorem turns_end (kind : BlockKind) {g : Text} (hg : Blank g) :
    Turns blockEnd (endWord kind ++ (g ++ [';'])) ['\x7d'] := by
  intro before rest hbefore
  have hhit : blockEnd before (endWord kind ++ (g ++ [';']) ++ rest) = some (['\x7d'], rest) := by
    have hsemi : trimStart (g ++ ';' :: rest) = ';' :: rest :=
      trimStart_append hg (flush_cons.mpr (by decide))
    have hended : wordHasEnded (g ++ ';' :: rest) = true :=
      ended_blank_append hg (ended_next (g := []) blank_nil rfl)
    have hword : endedKeyword? (kind.word ++ (g ++ ';' :: rest)) = some (g ++ ';' :: rest) := by
      cases kind <;> rfl
    unfold blockEnd
    rw [if_pos hbefore, endWord, List.append_assoc, List.append_assoc, List.append_assoc,
      List.singleton_append, after?_append]
    simp only [hword, Option.filter_some, hended, if_true, hsemi]
  have hlast : lastOr before (endWord kind ++ (g ++ [';'])) = some ';' := by
    rw [lastOr_append, lastOr_append]
    rfl
  rw [replaceFrom_match (by simp) hhit, hlast]
  exact ⟨rfl, rfl⟩

theorem turns_blockEnd (hp : p.Fits m) :
    Turns blockEnd (spread (p.around (elsesDone p.clause))) (spread (endsDone p)) := by
  have hform := turns_form keyed_blockEnd hp fun _ _ h => h.passes_blockEnd
  have before (p : Placed) (hp : Blank p.before) : ∀ c ∈ p.before, isWordChar c = false :=
    fun c hc => isWordChar_of_blank (hp c hc)
  obtain ⟨front, clause, back⟩ := p
  cases clause with
  | close kind =>
      have hturns := (Turns.outside keyed_blockEnd (before _ hp.before)).append
        ((turns_end kind hp.after).append
          (Turns.outside keyed_blockEnd (s := ['\n']) (by decide)))
      simpa [Placed.around, elsesDone, endsDone, clauseItems] using hturns
  | _ => exact hform

private theorem form_endsDone (hp : p.Fits m) : BraceForm p.clause (endsDone p) := by
  have hform := form_around hp
  have hline : Blank ['\n'] := by simp [isBlank]
  obtain ⟨before, clause, after⟩ := p
  cases clause with
  | close kind => exact .marked (by simp) hp.before (by simp [isBlank]) hline
  | _ => exact hform

/-- The code of a clause, or the word that closes one. -/
private def CodeOrEnd (m : Mask) (t : Text) (c : Char) : Prop :=
  Phrase m t c ∨ ∃ kind, t = endWord kind

private theorem calm_codeOrEnd {t : Text} {c : Char} (h : CodeOrEnd m t c) : Calm t c := by
  rcases h with h | ⟨kind, rfl⟩
  · exact h.calm
  · intro g rest _
    cases kind <;> rfl

private theorem solid_codeOrEnd {t : Text} {c : Char} (h : CodeOrEnd m t c) : Solid t := by
  rcases h with h | ⟨kind, rfl⟩
  · exact h.solid
  · have hflush : Flush (endWord kind) ∧ Flush (endWord kind).reverse := by
      cases kind <;> exact ⟨flush_cons.mpr (by decide), flush_cons.mpr (by decide)⟩
    refine ⟨?_, hflush.1, hflush.2, ?_, ?_⟩ <;> cases kind <;> decide

private theorem punctuated_elsesDone (hp : p.Fits m) {r : List Item}
    (hr : Punctuated (CodeOrEnd m) r) (hnext : reaches (· == ';') r = false) :
    Punctuated (CodeOrEnd m) (p.around (elsesDone p.clause) ++ r) ∧
      reaches (· == ';') (p.around (elsesDone p.clause) ++ r) = false := by
  have hform := (form_around hp).punctuated (fun _ _ h => Or.inl h) hp.tame hr hnext
  have hline : Blank ['\n'] := by simp [isBlank]
  obtain ⟨before, clause, after⟩ := p
  cases clause with
  | close kind =>
      have hend : reaches (· == ';') (.blank ['\n'] :: r) = false := hnext
      have hsemi : Punctuated (CodeOrEnd m) (.stop ';' :: .blank ['\n'] :: r) :=
        .stop rfl (fun _ => hend) (.blank hline hr)
      exact ⟨.blank hp.before (.code (Or.inr ⟨kind, rfl⟩) (.blank hp.after hsemi)), rfl⟩
  | _ => exact hform

end Stages

section Bodies

variable {m : Mask} {ps : List Placed}

private theorem spread_flatMap {α : Type} (as : List α) (form : α → List Item) :
    spread (as.flatMap form) = as.flatMap fun a => spread (form a) := by
  simp [spread, List.flatMap_assoc]

private theorem statementElse_elsesDone (h : ∀ p ∈ ps, p.Fits m) :
    (spread (ps.flatMap fun p => p.around (elsesDone p.clause))).replaceAll statementElse =
      spread (ps.flatMap fun p => p.around (elsesDone p.clause)) := by
  have hp : Punctuated (CodeOrEnd m) (ps.flatMap fun p => p.around (elsesDone p.clause)) ∧
      reaches (· == ';') (ps.flatMap fun p => p.around (elsesDone p.clause)) = false := by
    induction ps with
    | nil => exact ⟨.nil, rfl⟩
    | cons p ps ih =>
        obtain ⟨hr, hnext⟩ := ih fun q hq => h q (by simp [hq])
        exact punctuated_elsesDone (h p (by simp)) hr hnext
  exact replaceAll_statementElse (hp.1.imp fun _ _ => calm_codeOrEnd)
    (hp.1.imp fun _ _ => solid_codeOrEnd)

/-- The rules for blocks bring the colon style to the brace style. -/
theorem toBraces_colon (h : ∀ p ∈ ps, p.Fits m) :
    toBraces (ps.flatMap Placed.colon) = spread (ps.flatMap endsDone) := by
  have hheads := (Turns.flatMap fun p hp => turns_colonHead (h p hp)).replaceAll
  have helses := (Turns.flatMap fun p hp => turns_colonElse (h p hp)).replaceAll
  have hends := (Turns.flatMap fun p hp => turns_blockEnd (h p hp)).replaceAll
  have hbare := statementElse_elsesDone h
  rw [spread_flatMap] at hbare
  rw [toBraces, hheads, helses, hbare, hends, spread_flatMap]

/-- The normal form of clauses in the colon style. -/
theorem normal_colon (h : ∀ p ∈ ps, p.Fits m) :
    collapse m (toBraces (ps.flatMap Placed.colon)) =
      ps.flatMap fun p => p.clause.canonical := by
  rw [toBraces_colon h]
  exact collapse_forms fun p hp => ⟨form_endsDone (h p hp), (h p hp).tame⟩

/-- The normal form of clauses in the brace style. -/
theorem normal_brace (h : ∀ p ∈ ps, p.Fits m) :
    collapse m (toBraces (ps.flatMap Placed.brace)) =
      ps.flatMap fun p => p.clause.canonical := by
  have hforms : ∀ p ∈ ps, BraceForm p.clause (p.around (clauseItems [' '] p.clause)) ∧
      Tame m p.clause := fun p hp => ⟨form_around (h p hp), (h p hp).tame⟩
  have htext : ps.flatMap Placed.brace =
      spread (ps.flatMap fun p => p.around (clauseItems [' '] p.clause)) := by
    rw [spread_flatMap]
    refine congrArg (List.flatMap · ps) (funext fun p => ?_)
    rw [Placed.spread_around, spread_clauseItems]
    rfl
  rw [htext, toBraces_forms hforms]
  exact collapse_forms hforms

/-- The canonical form as items. -/
private def canonicalItems : Clause Text → List Item
  | .leaf t => [.blank [], .code t, .blank [], .stop ';', .blank []]
  | clause => .blank [] :: (clauseItems [] clause ++ [.blank []])

/-- The canonical form is its own normal form. -/
theorem normal_canonical {clauses : List (Clause Text)} (h : ∀ x ∈ clauses, Tame m x) :
    collapse m (toBraces (clauses.flatMap Clause.canonical)) = clauses.flatMap Clause.canonical := by
  have hforms : ∀ x ∈ clauses, BraceForm x (canonicalItems x) ∧ Tame m x := by
    intro x hx
    refine ⟨?_, h x hx⟩
    cases x with
    | leaf t => exact .statement blank_nil blank_nil blank_nil
    | _ => exact .marked (by simp) blank_nil blank_nil blank_nil
  have hitems (x : Clause Text) : x.canonical = spread (canonicalItems x) := by
    cases x <;> simp [canonicalItems, clauseItems, Clause.canonical, Clause.map, Clause.brace]
  have htext : clauses.flatMap Clause.canonical = spread (clauses.flatMap canonicalItems) := by
    rw [spread_flatMap]
    exact congrArg (List.flatMap · clauses) (funext hitems)
  rw [htext, toBraces_forms hforms, ← htext]
  exact (congrArg (collapse m) htext).trans (collapse_forms hforms)

end Bodies

end Normalize

end Stencil
