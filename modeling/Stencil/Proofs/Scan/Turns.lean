import Stencil.Proofs.Scan.Opaque
import Mathlib.Data.List.Chain
/-!
# Literal text and code take turns

The delimiters that open code and those that close it take turns in a scan, and so do the pieces
between them. A scan fails exactly where an opening has no closing after it. It then reports the
last opening, after everything else.
-/
namespace Stencil

def Piece.isCode : Piece → Bool
  | .code _ _ => true
  | .literal _ => false

/-- What the pieces of a scan look like: no literal is empty, no two are neighbours, and only the last
piece may be code that was left open. -/
structure Piece.Shaped (pieces : List Piece) : Prop where
  filled : .literal [] ∉ pieces
  apart : pieces.IsChain fun a b => a.isCode = true ∨ b.isCode = true
  closed : ∀ p ∈ pieces.dropLast, p.isOpen = false

namespace Scan

variable {d : Delimiters} {log log' log'' : Collector}

/-- The positions at which the steps of a scan find a delimiter that ends the piece in hand. -/
def structurals (d : Delimiters) (delimiter : Text) (n : Nat) (here : Scan × Cursor) : List Nat :=
  (visits d n here).filterMap fun (s, c) =>
    if finding d s c = .structural delimiter then some c.position else none

/-- Some opening has no closing after it. -/
def LeavesOpen (openings closings : List Nat) : Prop := ∃ p ∈ openings, ∀ q ∈ closings, q < p

instance (openings closings : List Nat) : Decidable (LeavesOpen openings closings) :=
  List.decidableBEx (fun p => ∀ q ∈ closings, q < p) openings

/-! ## One step -/

/-- What a step does to the pieces. -/
inductive Turn (d : Delimiters) (s : Scan) (c : Cursor) : Scan → Prop
  | within {s' : Scan} : (∀ w, finding d s c ≠ .structural w) → s'.mode = s.mode →
      s'.done = s.done → s'.opened = s.opened → Turn d s c s'
  | opens {s' : Scan} : finding d s c = .structural d.start → s.mode = .literal →
      s'.mode = .code → s'.done = pieceOf s.pending.reverse true .literal ++ s.done →
      s'.opened = c.position → Turn d s c s'
  | closes {s' : Scan} : finding d s c = .structural d.stop → s.mode = .code →
      s'.mode = .literal → s'.done = .code s.pending.reverse true :: s.done →
      s'.opened = s.opened → Turn d s c s'

/-- A delimiter that ends the piece in hand is the one awaited, and it is not escaped. -/
theorem finding_structural {s : Scan} {c : Cursor} {w : Text}
    (h : finding d s c = .structural w) :
    w = (match s.mode with | .literal => d.start | .code => d.stop) ∧ isEscaped c = false := by
  have awaited {first second : Text} (h : delimiterAhead c first second = .structural w) :
      w = first ∧ isEscaped c = false := by
    unfold delimiterAhead at h
    split at h
    · simp at h
    · split at h
      · simp at h
      · rename_i hescaped
        split at h
        · rename_i hfirst
          exact ⟨by rw [← hfirst, ← Finding.structural.inj h], by simpa using hescaped⟩
        · simp at h
  unfold finding at h
  split at h
  · rename_i hmode
    rw [hmode]
    exact awaited h
  · rename_i hmode _
    rw [hmode]
    exact awaited h
  · simp at h

private theorem step_opened (s : Scan) {c : Cursor} (h : c.ahead ≠ []) :
    (step d s c).1.opened =
      if s.mode = .literal ∧ finding d s c = .structural d.start then c.position else s.opened := by
  obtain ⟨x, rest, hahead⟩ := List.exists_cons_of_ne_nil h
  have hpeek : c.peek.isNone = false := by simp [Cursor.peek, hahead]
  cases hm : s.mode with
  | literal =>
      simp only [step, finding, hm, stepLiteral, delimiterAhead]
      cases longestAhead? c d.start d.stop with
      | none => simp [take]
      | some found =>
          dsimp only
          by_cases hescaped : isEscaped c = true
          · simp [hescaped, takeAll]
          · by_cases hstart : found = d.start
            · simp [hescaped, hstart]
            · simp [hescaped, hstart, takeAll]
  | code =>
      rw [if_neg (by simp)]
      cases hq : s.quote with
      | some quote => simp [step, hm, hq, hpeek, stepQuoted, take]
      | none =>
          simp only [step, hm, hq, hpeek, Bool.false_eq_true, if_false, stepCode]
          split
          · split
            · rfl
            · split <;> rfl
          · rfl

theorem turn (s : Scan) {c : Cursor} (h : c.ahead ≠ []) : Turn d s c (step d s c).1 := by
  have heffect := effect d s h
  have hopened := step_opened (d := d) s h
  generalize hf : finding d s c = f at heffect
  generalize step d s c = out at heffect hopened
  cases heffect with
  | character _ hmode hdone _ =>
      rw [if_neg (by simp [hf])] at hopened
      exact .within (by simp [hf]) hmode hdone hopened
  | escaped _ hmode hdone _ =>
      rw [if_neg (by simp [hf])] at hopened
      exact .within (by simp [hf]) hmode hdone hopened
  | dangling hmode hdone _ =>
      rw [if_neg (by simp [hf])] at hopened
      exact .within (by simp [hf]) hmode hdone hopened
  | structural hmode hdone _ =>
      obtain ⟨hw, -⟩ := finding_structural hf
      cases hm : s.mode with
      | literal =>
          rw [hm] at hw hmode hdone
          subst hw
          rw [if_pos ⟨hm, hf⟩] at hopened
          exact .opens hf hm hmode hdone hopened
      | code =>
          rw [hm] at hw hmode hdone
          subst hw
          rw [if_neg (by simp [hm])] at hopened
          exact .closes hf hm hmode hdone hopened

/-! ## The pieces -/

section Pieces

variable {s s' : Scan} {c : Cursor} {done : List Piece}

/-- Pieces, latest first, that are all finished. -/
private structure Finished (done : List Piece) : Prop where
  filled : .literal [] ∉ done
  apart : done.IsChain fun a b => a.isCode = true ∨ b.isCode = true
  closed : ∀ p ∈ done, p.isOpen = false

/-- The pieces of a scan under way are finished, and literal text in hand comes after code. -/
private structure Orderly (s : Scan) : Prop where
  done : Finished s.done
  next : s.mode = .literal → ∀ p ∈ s.done.head?, p.isCode = true

private theorem Finished.literal (h : Finished done) (hnext : ∀ p ∈ done.head?, p.isCode = true)
    (text : Text) (closed : Bool) : Finished (pieceOf text closed .literal ++ done) := by
  dsimp only [pieceOf]
  split
  · exact h
  · rename_i hfilled
    rw [List.isEmpty_iff] at hfilled
    refine ⟨?_, h.apart.cons fun p hp => Or.inr (hnext p hp), ?_⟩
    · simpa [Ne.symm hfilled] using h.filled
    · exact List.forall_mem_cons.mpr ⟨rfl, h.closed⟩

private theorem Finished.code (h : Finished done) (text : Text) :
    Finished (.code text true :: done) := by
  refine ⟨by simpa using h.filled, h.apart.cons fun _ _ => Or.inl rfl, ?_⟩
  exact List.forall_mem_cons.mpr ⟨rfl, h.closed⟩

private theorem Orderly.turn (h : Orderly s) (hturn : Turn d s c s') : Orderly s' := by
  cases hturn with
  | within _ hmode hdone _ =>
      refine ⟨hdone ▸ h.done, fun hm => ?_⟩
      rw [hdone]
      exact h.next (hmode ▸ hm)
  | opens _ hm hmode hdone _ =>
      refine ⟨hdone ▸ h.done.literal (h.next hm) _ true, fun hm' => ?_⟩
      rw [hmode] at hm'
      simp at hm'
  | closes _ _ _ hdone _ => exact ⟨hdone ▸ h.done.code _, by simp [hdone, Piece.isCode]⟩

private theorem orderly_steps {here : Scan × Cursor} (h : Orderly here.1) (n : Nat) :
    Orderly (steps d n here).1 := by
  induction n generalizing here with
  | zero => exact h
  | succ n ih =>
      obtain ⟨s, c⟩ := here
      by_cases hend : c.ahead = []
      · rwa [steps_end hend]
      · rw [steps_cons hend]
        exact ih (h.turn (Scan.turn s hend))

private theorem Orderly.shaped (h : Orderly s) (c : Cursor) :
    Piece.Shaped (s.finish d c).pieces := by
  have hflip {l : List Piece} (hl : l.IsChain fun a b => a.isCode = true ∨ b.isCode = true) :
      l.reverse.IsChain fun a b => a.isCode = true ∨ b.isCode = true :=
    List.isChain_reverse.mpr (hl.imp fun _ _ => Or.symm)
  rw [pieces, finish_done]
  cases hm : s.mode with
  | literal =>
      have hall := h.done.literal (h.next hm) s.pending.reverse false
      refine ⟨fun hp => hall.filled (List.mem_reverse.mp hp), hflip hall.apart, fun p hp => ?_⟩
      exact hall.closed p (List.mem_reverse.mp (List.dropLast_subset _ hp))
  | code =>
      refine ⟨by simpa [pieceOf] using h.done.filled, ?_, by simpa [pieceOf] using h.done.closed⟩
      exact hflip (h.done.apart.cons fun _ _ => Or.inl rfl)

end Pieces

/-! ## The openings and closings -/

section Course

variable {s : Scan} {c : Cursor} {n : Nat} {w : Text} {openings closings : List Nat}

private theorem structurals_end (h : c.ahead = []) (w : Text) : structurals d w n (s, c) = [] := by
  rw [structurals, visits_end h, List.filterMap_nil]

private theorem structurals_cons (h : c.ahead ≠ []) (w : Text) :
    structurals d w (n + 1) (s, c) =
      (if finding d s c = .structural w then [c.position] else []) ++
        structurals d w n (step d s c) := by
  rw [structurals, visits_cons h, List.filterMap_cons]
  dsimp only
  split <;> simp_all [structurals]

private theorem le_of_mem_structurals (hd : d.isValid = true) {here : Scan × Cursor} {p : Nat}
    (h : p ∈ structurals d w n here) : here.2.position ≤ p := by
  induction n generalizing here with
  | zero => simp [structurals, visits] at h
  | succ n ih =>
      obtain ⟨s, c⟩ := here
      by_cases hend : c.ahead = []
      · simp [structurals_end hend] at h
      · rw [structurals_cons hend, List.mem_append] at h
        rcases h with h | h
        · split at h
          · exact Nat.le_of_eq (List.mem_singleton.mp h).symm
          · simp at h
        · obtain ⟨w, -, -, hbehind⟩ := step_consumes hd s hend
          have hlater : (step d s c).2.behind.length ≤ p := ih h
          rw [hbehind, List.length_append] at hlater
          show c.behind.length ≤ p
          omega

/-- Later steps find what they find further on. -/
private theorem lt_of_mem_structurals (hd : d.isValid = true) (hend : c.ahead ≠ []) {p : Nat}
    (h : p ∈ structurals d w n (step d s c)) : c.position < p := by
  obtain ⟨w, hw, -, hbehind⟩ := step_consumes hd s hend
  have hlater : (step d s c).2.behind.length ≤ p := le_of_mem_structurals hd h
  have hpos := List.length_pos_iff.mpr hw
  rw [hbehind, List.length_append, List.length_reverse] at hlater
  show c.behind.length < p
  omega

private theorem leavesOpen_cons {p : Nat} (hlate : ∀ q ∈ closings, p < q) :
    LeavesOpen (p :: openings) closings ↔ LeavesOpen openings closings ∨ closings = [] := by
  have hnone : (∀ q ∈ closings, q < p) ↔ closings = [] := by
    refine ⟨fun h => List.eq_nil_iff_forall_not_mem.mpr fun q hq => ?_, by simp +contextual⟩
    exact absurd (h q hq) (Nat.not_lt.mpr (Nat.le_of_lt (hlate q hq)))
  rw [LeavesOpen, List.exists_mem_cons_iff, hnone, or_comm]
  rfl

private theorem leavesOpen_closed {q : Nat} (hlate : ∀ p ∈ openings, q < p) :
    LeavesOpen openings (q :: closings) ↔ LeavesOpen openings closings := by
  refine exists_congr fun p => and_congr_right fun hp => ?_
  rw [List.forall_mem_cons]
  exact ⟨fun h => h.2, fun h => ⟨hlate p hp, h⟩⟩

/-- The number of pieces of code begun. -/
private def begun (s : Scan) : Nat :=
  s.done.countP Piece.isCode + match s.mode with | .literal => 0 | .code => 1

/-- What a scan comes to that goes on from a state and finds these openings and closings. -/
private structure Course (s : Scan) (openings closings : List Nat) (s' : Scan) : Prop where
  begun : s'.begun = s.begun + openings.length
  mode : s'.mode = .code ↔ LeavesOpen openings closings ∨ s.mode = .code ∧ closings = []
  opened : s'.opened = openings.getLast?.getD s.opened

private theorem course (hd : d.isValid = true) (n : Nat) (here : Scan × Cursor) :
    Course here.1 (structurals d d.start n here) (structurals d d.stop n here)
      (steps d n here).1 := by
  have hne := (Delimiters.isValid_iff.mp hd).2.2
  have stays (s : Scan) : Course s [] [] s := ⟨by simp, by simp [LeavesOpen], rfl⟩
  induction n generalizing here with
  | zero => exact stays here.1
  | succ n ih =>
      obtain ⟨s, c⟩ := here
      by_cases hend : c.ahead = []
      · rw [structurals_end hend, structurals_end hend, steps_end hend]
        exact stays s
      have hlate {w : Text} : ∀ p ∈ structurals d w n (step d s c), c.position < p :=
        fun p hp => lt_of_mem_structurals hd hend hp
      have hrest := ih (step d s c)
      rw [structurals_cons hend, structurals_cons hend, steps_cons hend]
      cases turn (d := d) s hend with
      | within hnone hmode hdone hopened =>
          rw [if_neg (hnone _), if_neg (hnone _)]
          refine ⟨?_, ?_, ?_⟩
          · rw [hrest.begun, begun, hmode, hdone]
            rfl
          · rw [hrest.mode, hmode]
            rfl
          · rw [hrest.opened, hopened]
            rfl
      | opens hfinding hm hmode hdone hopened =>
          rw [if_pos hfinding, if_neg (by simp [hfinding, hne])]
          refine ⟨?_, ?_, ?_⟩
          · have hcount : (pieceOf s.pending.reverse true .literal).countP Piece.isCode = 0 := by
              rw [pieceOf]
              split <;> rfl
            rw [hrest.begun, begun, begun, hmode, hdone, hm, List.countP_append, hcount]
            simp
            omega
          · rw [hrest.mode, List.singleton_append, List.nil_append, leavesOpen_cons hlate, hmode, hm]
            simp
          · rw [hrest.opened, hopened, List.singleton_append, List.getLast?_cons]
            rfl
      | closes hfinding hm hmode hdone hopened =>
          rw [if_neg (by simp [hfinding, hne.symm]), if_pos hfinding]
          refine ⟨?_, ?_, ?_⟩
          · rw [hrest.begun, begun, begun, hmode, hdone, hm, List.countP_cons_of_pos rfl]
            rfl
          · rw [hrest.mode, List.singleton_append, List.nil_append, leavesOpen_closed hlate, hmode, hm]
            simp
          · rw [hrest.opened, hopened]
            rfl

/-- A delimiter that ends a piece is spelled at its position, and is not escaped there. -/
private theorem spelled_of_mem (hd : d.isValid = true) {here : Scan × Cursor} {p : Nat}
    (h : p ∈ structurals d w n here) :
    w <+: here.2.text.drop p ∧
      isEscaped ⟨(here.2.text.take p).reverse, here.2.text.drop p⟩ = false := by
  induction n generalizing here with
  | zero => simp [structurals, visits] at h
  | succ n ih =>
      obtain ⟨s, c⟩ := here
      by_cases hend : c.ahead = []
      · simp [structurals_end hend] at h
      · rw [structurals_cons hend, List.mem_append] at h
        rcases h with h | h
        · split at h
          · rename_i hfinding
            obtain rfl := List.mem_singleton.mp h
            have hdrop : c.text.drop c.position = c.ahead := by simp [Cursor.text, Cursor.position]
            have htake : (c.text.take c.position).reverse = c.behind := by
              simp [Cursor.text, Cursor.position]
            rw [hdrop, htake]
            exact ⟨(finding_ahead (Or.inr (Or.inl hfinding))).2, (finding_structural hfinding).2⟩
          · simp at h
        · rw [show (s, c).2.text = c.text from rfl, ← step_text hd s hend]
          exact ih h

end Course

/-! ## What is reported -/

/-- Diagnostics were added, none of them about code that was left open. -/
def AddsOthers (log log' : Collector) : Prop :=
  ∃ others, log' = { log with entries := log.entries ++ others } ∧
    ∀ e ∈ others, e.code ≠ Diagnostic.unterminated

theorem AddsOthers.refl (log : Collector) : AddsOthers log log := ⟨[], by simp, by simp⟩

theorem AddsOthers.trans (h : AddsOthers log log') (h' : AddsOthers log' log'') :
    AddsOthers log log'' := by
  obtain ⟨others, rfl, hothers⟩ := h
  obtain ⟨others', rfl, hothers'⟩ := h'
  exact ⟨others ++ others', by simp, List.forall_mem_append.mpr ⟨hothers, hothers'⟩⟩

private theorem errorAt_eq (log : Collector) (code message : String) (place : Location) :
    log.errorAt code message place = { log with
      entries := log.entries ++
        if 1 ≤ log.reporting then [⟨code, .error, message, log.template, some place⟩] else [] } := by
  unfold Collector.errorAt Collector.add
  have hvisible : Severity.error.visibleAt log.reporting = decide (1 ≤ log.reporting) := rfl
  by_cases hshown : 1 ≤ log.reporting
  · rw [if_pos (hvisible.trans (decide_eq_true hshown)), if_pos hshown]
    rfl
  · rw [if_neg (by rw [hvisible]; simpa using hshown), if_neg hshown, List.append_nil]

private theorem addsOthers_errorAt {code : String} (h : code ≠ Diagnostic.unterminated)
    (log : Collector) (message : String) (place : Location) :
    AddsOthers log (log.errorAt code message place) := by
  refine ⟨_, errorAt_eq .., fun e he => ?_⟩
  split at he
  · rw [List.mem_singleton.mp he]
    exact h
  · simp at he

private theorem addsOthers_step (s : Scan) (c : Cursor) :
    AddsOthers s.log (step d s c).1.log := by
  simp only [step]
  split
  · simp only [stepLiteral, take, takeAll, closeLiteral]
    split
    · exact .refl _
    · split
      · exact .refl _
      · split
        · split <;> exact .refl _
        · exact addsOthers_errorAt (by decide) _ _ _
  · split <;> exact .refl _
  · split
    · exact .refl _
    · simp only [stepCode, take, takeAll, closeCode]
      split
      · split
        · exact .refl _
        · split
          · exact .refl _
          · exact addsOthers_errorAt (by decide) _ _ _
      · exact .refl _

private theorem addsOthers_steps (n : Nat) (here : Scan × Cursor) :
    AddsOthers here.1.log (steps d n here).1.log := by
  induction n generalizing here with
  | zero => exact .refl _
  | succ n ih =>
      rw [steps]
      split
      · exact .refl _
      · exact (addsOthers_step here.1 here.2).trans (ih _)

/-! ## The whole scan -/

/-- What is reported of a scan that leaves open the code begun at a position. -/
def leftOpen (d : Delimiters) (source : Text) (opened : Nat) (template : Option String) : Diagnostic where
  code := Diagnostic.unterminated
  severity := .error
  message := "Code region opened here is never closed with '" ++ String.ofList d.stop ++ "'"
  template := template
  location := some (Location.ofPosition source opened)

private theorem entries_finish {s : Scan} (hm : s.mode = .code) (c : Cursor) :
    (s.finish d c).log.entries = s.log.entries ++
      if 1 ≤ s.log.reporting then [leftOpen d c.text s.opened s.log.template] else [] := by
  simp only [finish, hm, closeCode, errorAt_eq]
  rfl

/-- Code begun is code among the pieces in the end. -/
private theorem countP_finish (s : Scan) (c : Cursor) :
    (s.finish d c).pieces.countP Piece.isCode = s.begun := by
  rw [pieces, List.countP_reverse, finish_done, List.countP_append, begun, Nat.add_comm]
  congr 1
  cases s.mode with
  | literal =>
      dsimp only [pieceOf]
      split <;> rfl
  | code => rfl

private theorem steps_text (hd : d.isValid = true) (n : Nat) (here : Scan × Cursor) :
    (steps d n here).2.text = here.2.text := by
  induction n generalizing here with
  | zero => rfl
  | succ n ih =>
      obtain ⟨s, c⟩ := here
      by_cases hend : c.ahead = []
      · rw [steps_end hend]
      · rw [steps_cons hend, ih, step_text hd s hend]

/-- The last piece was left open if the scan ended in code. -/
private theorem isOpen_finish {s : Scan} (h : Orderly s) (c : Cursor) :
    (s.finish d c).done.head?.any Piece.isOpen = true ↔ s.mode = .code := by
  rw [finish_done]
  cases hm : s.mode with
  | code => simp [pieceOf, Piece.isOpen]
  | literal =>
      have hclosed := (h.done.literal (h.next hm) s.pending.reverse false).closed
      simp only [Option.any_eq_true, reduceCtorEq, iff_false, not_exists, not_and,
        Bool.not_eq_true]
      exact fun p hp => hclosed p (List.mem_of_mem_head? hp)

/-- A scan that leaves code open ends at the last opening and reports it after all else. -/
private theorem finish_of_leavesOpen (hd : d.isValid = true) {n : Nat} {here : Scan × Cursor}
    (hleaves : LeavesOpen (structurals d d.start n here) (structurals d d.stop n here)) :
    ∃ p, (structurals d d.start n here).getLast? = some p ∧
      d.start <+: here.2.text.drop p ∧
      isEscaped ⟨(here.2.text.take p).reverse, here.2.text.drop p⟩ = false ∧
      ((steps d n here).1.finish d (steps d n here).2).opened = p ∧
      ∃ others, (∀ e ∈ others, e.code ≠ Diagnostic.unterminated) ∧
        ((steps d n here).1.finish d (steps d n here).2).log.entries =
          here.1.log.entries ++ others ++
            if 1 ≤ here.1.log.reporting then [leftOpen d here.2.text p here.1.log.template]
            else [] := by
  have hcourse := course hd n here
  have hmode : (steps d n here).1.mode = .code := hcourse.mode.mpr (Or.inl hleaves)
  obtain ⟨q, hq, -⟩ := hleaves
  obtain ⟨p, hp⟩ := Option.isSome_iff_exists.mp (List.getLast?_isSome.mpr (List.ne_nil_of_mem hq))
  have hopened : (steps d n here).1.opened = p := by
    rw [hcourse.opened, hp]
    rfl
  obtain ⟨hspelled, hescaped⟩ := spelled_of_mem hd (List.mem_of_getLast? hp)
  obtain ⟨others, hlog, hothers⟩ := addsOthers_steps (d := d) n here
  refine ⟨p, hp, hspelled, hescaped, ?_, others, hothers, ?_⟩
  · simp [finish, hmode, closeCode, hopened]
  · rw [entries_finish hmode, hlog, hopened, steps_text hd]

/-- Literal text and code take turns. No piece of literal text is empty, none follows another, and only
the last piece may be left open; there is one piece of code for each opening. A scan fails exactly
where some opening has no closing after it, whatever is reported. It fails at the last opening, where
the source spells the start delimiter unescaped, and reports this place once, after all else, where
errors are reported. -/
theorem scan_takes_turns (hd : d.isValid = true) (source : Text) (template : String)
    (log : Collector) :
    let start : Scan × Cursor := ({ log }, Cursor.ofText source)
    let openings := structurals d d.start source.length start
    let closings := structurals d d.stop source.length start
    let pieces := (ofText d source log).pieces
    let result := scan d source template log
    Piece.Shaped pieces ∧ pieces.countP Piece.isCode = openings.length ∧
      (result.1 = .ok pieces ↔ ¬ LeavesOpen openings closings) ∧
      ((∃ error, result.1 = .error error) ↔ LeavesOpen openings closings) ∧
      (LeavesOpen openings closings → ∃ p, openings.getLast? = some p ∧
        d.start <+: source.drop p ∧
        isEscaped ⟨(source.take p).reverse, source.drop p⟩ = false ∧
        result.1 = .error (.unterminatedCode template d.stop (Location.ofPosition source p)) ∧
        ∃ others, (∀ e ∈ others, e.code ≠ Diagnostic.unterminated) ∧
          result.2.entries = log.entries ++ others ++
            if 1 ≤ log.reporting then [leftOpen d source p log.template] else []) := by
  intro start openings closings pieces result
  let last : Scan × Cursor := steps d source.length start
  have hstart : Orderly start.1 :=
    ⟨⟨by simp [start], by simp [start], by simp [start]⟩, by simp [start]⟩
  have horderly : Orderly last.1 := orderly_steps hstart source.length
  have hcourse : Course start.1 openings closings last.1 := course hd source.length start
  have hmode : last.1.mode = .code ↔ LeavesOpen openings closings := by
    rw [hcourse.mode]
    simp [start]
  have hbegun : pieces.countP Piece.isCode = openings.length := by
    rw [show pieces = (last.1.finish d last.2).pieces from rfl, countP_finish, hcourse.begun]
    simp [start, begun]
  have hopen : (ofText d source log).done.head?.any Piece.isOpen = true ↔
      LeavesOpen openings closings := (isOpen_finish horderly last.2).trans hmode
  have hresult : result = _ := scan_eq d source template log
  refine ⟨horderly.shaped last.2, hbegun, ?_, ?_, ?_⟩
  · rw [hresult, ← hopen]
    split <;> simp_all [pieces]
  · rw [hresult, ← hopen]
    split <;> simp_all
  · intro hleaves
    obtain ⟨p, hp, hspelled, hescaped, hopened, others, hothers, hentries⟩ :=
      finish_of_leavesOpen hd hleaves
    have hplace : (ofText d source log).opened = p := hopened
    refine ⟨p, hp, hspelled, hescaped, ?_, others, hothers, ?_⟩
    · rw [hresult, if_pos (hopen.mpr hleaves), hplace]
    · rw [hresult]
      exact hentries

/-- An escaped start delimiter opens nothing, one inside code neither, and a stop delimiter in a string
closes nothing. The code begun in the second line is left open. -/
theorem scan_takes_turns_left_open :
    let source : Text := "a\\<$b<$x<$y$>c\n <$'$>'".toList
    Delimiters.standard.isValid = true ∧
      (scan .standard source "T" ⟨1, none, []⟩).1 =
        .error (.unterminatedCode "T" "$>".toList ⟨2, 2⟩) ∧
      ∃ others, (∀ e ∈ others, e.code ≠ Diagnostic.unterminated) ∧
        (scan .standard source "T" ⟨1, none, []⟩).2.entries =
          others ++ [leftOpen .standard source 16 none] := by
  intro source
  have hvalid : Delimiters.standard.isValid = true := by decide
  let start : Scan × Cursor := ({ log := ⟨1, none, []⟩ }, Cursor.ofText source)
  have hopenings : structurals .standard Delimiters.standard.start source.length start = [5, 16] := by
    decide +kernel
  have hclosings : structurals .standard Delimiters.standard.stop source.length start = [11] := by
    decide +kernel
  have hplace : Location.ofPosition source 16 = ⟨2, 2⟩ := by decide +kernel
  have hleaves : LeavesOpen (structurals .standard Delimiters.standard.start source.length start)
      (structurals .standard Delimiters.standard.stop source.length start) := by
    rw [hopenings, hclosings]
    decide
  obtain ⟨p, hp, -, -, herror, others, hothers, hentries⟩ :=
    (scan_takes_turns hvalid source "T" ⟨1, none, []⟩).2.2.2.2 hleaves
  obtain rfl : 16 = p := Option.some.inj ((congrArg List.getLast? hopenings).symm.trans hp)
  rw [hplace] at herror
  exact ⟨hvalid, herror, others, hothers, hentries⟩

end Scan

end Stencil
