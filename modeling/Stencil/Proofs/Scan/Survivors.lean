import Stencil.Proofs.Scan.Trace
import Mathlib.Data.List.Basic
/-!
# What a scan keeps

A scan removes the delimiters that end a piece, delimiters that mean nothing in code, and the
backslash before an escaped delimiter of literal text. Every other character is in exactly one piece,
in order, and the pieces are what is left between neighbouring delimiters.
-/
namespace Stencil

def Piece.text : Piece → Text
  | .literal text | .code text _ => text

namespace Scan

/-! ## Surviving characters -/

/-- The characters of a stretch of the source, without those at removed positions. -/
def surviving (removed : List Nat) (source : Text) (start stop : Nat) : Text :=
  (List.range' start (stop - start)).filterMap fun p => if p ∈ removed then none else source[p]?

section Surviving

variable {removed : List Nat} {source : Text} {start stop : Nat}

@[simp] theorem surviving_self (removed : List Nat) (source : Text) (start : Nat) :
    surviving removed source start start = [] := by
  simp [surviving]

theorem surviving_append {middle : Nat} (h1 : start ≤ middle) (h2 : middle ≤ stop) :
    surviving removed source start stop =
      surviving removed source start middle ++ surviving removed source middle stop := by
  have hrange : List.range' start (stop - start) =
      List.range' start (middle - start) ++ List.range' middle (stop - middle) := by
    have h := List.range'_append_1 (s := start) (m := middle - start) (n := stop - middle)
    rw [show start + (middle - start) = middle by omega,
      show middle - start + (stop - middle) = stop - start by omega] at h
    exact h.symm
  rw [surviving, hrange, List.filterMap_append]
  rfl

theorem surviving_congr {removed' : List Nat}
    (h : ∀ p, start ≤ p → p < stop → (p ∈ removed ↔ p ∈ removed')) :
    surviving removed source start stop = surviving removed' source start stop := by
  refine List.filterMap_congr fun p hp => ?_
  rw [List.mem_range'_1] at hp
  simp only [h p hp.1 (by omega)]

theorem surviving_removed (h : ∀ p, start ≤ p → p < stop → p ∈ removed) :
    surviving removed source start stop = [] := by
  refine List.filterMap_eq_nil_iff.mpr fun p hp => ?_
  rw [List.mem_range'_1] at hp
  rw [if_pos (h p hp.1 (by omega))]

private theorem filterMap_getElem (w : Text) (k : Nat) :
    (List.range' k w.length).filterMap (fun p => w[p - k]?) = w := by
  induction w generalizing k with
  | nil => rfl
  | cons c cs ih =>
      have hshift : (List.range' (k + 1) cs.length).filterMap (fun p => (c :: cs)[p - k]?) =
          (List.range' (k + 1) cs.length).filterMap (fun p => cs[p - (k + 1)]?) := by
        refine List.filterMap_congr fun p hp => ?_
        rw [List.mem_range'_1] at hp
        rw [show p - k = p - (k + 1) + 1 by omega, List.getElem?_cons_succ]
      rw [List.length_cons, List.range'_succ, List.filterMap_cons, hshift, ih]
      simp

/-- A stretch without removed positions survives whole. -/
theorem surviving_kept {u w v : Text} (h : ∀ p ∈ removed, p < u.length) :
    surviving removed (u ++ (w ++ v)) u.length (u.length + w.length) = w := by
  have hget : ∀ p ∈ List.range' u.length (u.length + w.length - u.length),
      (if p ∈ removed then none else (u ++ (w ++ v))[p]?) = w[p - u.length]? := by
    intro p hp
    rw [List.mem_range'_1] at hp
    rw [if_neg fun hmem => absurd (h p hmem) (by omega), List.getElem?_append_right hp.1,
      List.getElem?_append_left (by omega)]
  rw [surviving, List.filterMap_congr hget, Nat.add_sub_cancel_left, filterMap_getElem]

end Surviving

/-! ## What the steps remove -/

/-- The positions that a finding at a position removes from the text. -/
def removals (mode : Mode) (position : Nat) : Finding → List Nat
  | .character => []
  | .escaped _ => if mode = .literal then [position - 1] else []
  | .structural delimiter => List.range' position delimiter.length
  | .dangling delimiter =>
    if mode = .literal then [] else List.range' position delimiter.length

/-- Where a delimiter that ends a piece begins and ends. -/
def boundary? (position : Nat) : Finding → Option (Nat × Nat)
  | .structural delimiter => some (position, position + delimiter.length)
  | _ => none

/-- The positions that a scan removes from the text ahead, and its last character behind perhaps. -/
def removed (d : Delimiters) (n : Nat) (here : Scan × Cursor) : List Nat :=
  (visits d n here).flatMap fun (s, c) => removals s.mode c.position (finding d s c)

/-- The delimiters ahead that end a piece, in order. -/
def boundaries (d : Delimiters) (n : Nat) (here : Scan × Cursor) : List (Nat × Nat) :=
  (visits d n here).filterMap fun (s, c) => boundary? c.position (finding d s c)

/-- The pieces between boundaries, from a position on, modes taking turns. Only the last one may be
left open. -/
def between (removed : List Nat) (source : Text) : Mode → Nat → List (Nat × Nat) → List Piece
  | mode, start, [] => pieceOf (surviving removed source start source.length) false mode
  | mode, start, (stop, next) :: rest =>
    pieceOf (surviving removed source start stop) true mode ++
      between removed source (otherMode mode) next rest

private theorem mem_removals {mode : Mode} {position p : Nat} {f : Finding}
    (h : p ∈ removals mode position f) : position ≤ p + 1 := by
  cases f with
  | character => simp [removals] at h
  | escaped _ =>
      simp only [removals] at h
      split at h
      · rw [List.mem_singleton] at h
        omega
      · simp at h
  | structural _ =>
      rw [removals, List.mem_range'_1] at h
      omega
  | dangling _ =>
      simp only [removals] at h
      split at h
      · simp at h
      · rw [List.mem_range'_1] at h
        omega

section Run

variable {d : Delimiters}

/-- Later steps remove nothing from the text behind but its last character. -/
private theorem le_of_mem_removed (hd : d.isValid = true) {n : Nat} {here : Scan × Cursor} {p : Nat}
    (h : p ∈ removed d n here) : here.2.position ≤ p + 1 := by
  induction n generalizing here with
  | zero => simp [removed, visits] at h
  | succ n ih =>
      obtain ⟨s, c⟩ := here
      by_cases hend : c.ahead = []
      · simp [removed, visits_end hend] at h
      · rw [removed, visits_cons hend, List.flatMap_cons, List.mem_append] at h
        rcases h with h | h
        · exact mem_removals h
        · obtain ⟨w, -, -, hbehind⟩ := step_consumes hd s hend
          have hlater : (step d s c).2.position ≤ p + 1 := ih h
          rw [Cursor.position, hbehind, List.length_append] at hlater
          have hposition : c.position = c.behind.length := rfl
          show c.position ≤ p + 1
          omega

/-- A scan under way: the piece in hand holds what survives from its start on, as far as the steps
made so far remove anything. -/
structure Holds (removed : List Nat) (source : Text) (start : Nat) (s : Scan) (c : Cursor) : Prop where
  text : c.text = source
  start_le : start ≤ c.position
  behind : ∀ p ∈ removed, p < c.position
  pending : s.pending.reverse = surviving removed source start c.position
  /-- In literal text an escape finds its backslash at the end of the piece in hand. -/
  last : s.mode = .literal → start < c.position → c.position - 1 ∉ removed

private theorem holds_keep {removed : List Nat} {source w rest : Text} {start : Nat} {s s' : Scan}
    {c : Cursor} (h : Holds removed source start s c) (hahead : c.ahead = w ++ rest) (hw : w ≠ [])
    (hpending : s'.pending = w.reverse ++ s.pending) :
    Holds removed source start s' (c.skip w.length) := by
  have hpos : (c.skip w.length).position = c.position + w.length := by
    simp only [skip_read hahead, Cursor.position, List.length_append, List.length_reverse]
    omega
  have hlen := List.length_pos_iff.mpr hw
  have hsource : source = c.behind.reverse ++ (w ++ rest) := by
    rw [← h.text, Cursor.text, hahead]
  have hkept : surviving removed source c.position (c.position + w.length) = w := by
    have hbehind : ∀ p ∈ removed, p < c.behind.reverse.length := by
      simpa [Cursor.position] using h.behind
    have := surviving_kept (w := w) (v := rest) hbehind
    rw [hsource]
    simpa [Cursor.position] using this
  refine ⟨?_, ?_, ?_, ?_, ?_⟩
  · rw [skip_read hahead, hsource]
    simp [Cursor.text]
  · have := h.start_le
    omega
  · intro p hp
    have := h.behind p hp
    omega
  · rw [hpending, List.reverse_append, List.reverse_reverse, h.pending, hpos,
      surviving_append h.start_le (Nat.le_add_right _ _), hkept]
  · intro _ _ hp
    have := h.behind _ hp
    omega

private theorem holds_escaped {removed : List Nat} {source found rest : Text} {start : Nat}
    {s s' : Scan} {c : Cursor} (h : Holds removed source start s c)
    (hahead : c.ahead = found ++ rest) (hfound : found ≠ []) (hm : s.mode = .literal)
    (hescaped : isEscaped c = true) (hpending : s'.pending = found.reverse ++ s.pending.drop 1) :
    Holds (removed ++ [c.position - 1]) source start s' (c.skip found.length) := by
  obtain ⟨b, hb⟩ : ∃ b, c.behind = '\\' :: b := by
    unfold isEscaped at hescaped
    split at hescaped
    · simp at hescaped
    · exact ⟨_, by assumption⟩
    · simp at hescaped
  have hposition : c.position = b.length + 1 := by rw [Cursor.position, hb, List.length_cons]
  -- without its last character the piece in hand survives one removal more
  have hdrop : Holds (removed ++ [c.position - 1]) source start
      { s with mode := .code, pending := s.pending.drop 1 } c := by
    refine ⟨h.text, h.start_le, ?_, ?_, by simp⟩
    · intro p hp
      rcases List.mem_append.mp hp with hp | hp
      · exact h.behind p hp
      · rw [List.mem_singleton] at hp
        omega
    · rcases Nat.lt_or_ge start c.position with hlt | hge
      · have hbefore : ∀ p ∈ removed, p < b.reverse.length := by
          intro p hp
          have hlt' := h.behind p hp
          have hne : p ≠ c.position - 1 := fun he => h.last hm hlt (he ▸ hp)
          rw [List.length_reverse]
          omega
        have hone : surviving removed source (c.position - 1) c.position = ['\\'] := by
          have hkept := surviving_kept (w := ['\\']) (v := c.ahead) hbefore
          rw [← h.text, Cursor.text, hb, hposition]
          simpa using hkept
        have hnone : surviving (removed ++ [c.position - 1]) source (c.position - 1) c.position =
            [] := by
          refine surviving_removed fun p hp hp' => List.mem_append_right _ ?_
          rw [List.mem_singleton]
          omega
        have hsame : surviving (removed ++ [c.position - 1]) source start (c.position - 1) =
            surviving removed source start (c.position - 1) := by
          refine surviving_congr fun p _ hp => ?_
          rw [List.mem_append, List.mem_singleton]
          exact ⟨fun hor => hor.resolve_right (by omega), Or.inl⟩
        have hpending := h.pending
        rw [surviving_append (by omega : start ≤ c.position - 1) (Nat.sub_le _ 1), hone] at hpending
        rw [surviving_append (by omega : start ≤ c.position - 1) (Nat.sub_le _ 1), hnone, hsame,
          List.append_nil]
        have hcons := congrArg List.reverse hpending
        rw [List.reverse_reverse, List.reverse_append] at hcons
        simp [hcons]
      · have hstart : start = c.position := Nat.le_antisymm h.start_le hge
        have hnil : s.pending = [] := by
          have hself := h.pending
          rw [hstart, surviving_self] at hself
          simpa using hself
        simp [hstart, hnil]
  exact holds_keep hdrop hahead hfound hpending

private theorem flatMap_pieceOf (text : Text) (closed : Bool) (mode : Mode) :
    (pieceOf text closed mode).flatMap Piece.text = text := by
  cases mode with
  | literal =>
      rw [pieceOf]
      split
      · rename_i h
        rw [List.isEmpty_iff.mp h]
        rfl
      · simp [Piece.text]
  | code => simp [pieceOf, Piece.text]

private theorem removed_cons {n : Nat} {s : Scan} {c : Cursor} (h : c.ahead ≠ []) :
    removed d (n + 1) (s, c) =
      removals s.mode c.position (finding d s c) ++ removed d n (step d s c) := by
  rw [removed, visits_cons h, List.flatMap_cons]
  rfl

private theorem boundaries_cons {n : Nat} {s : Scan} {c : Cursor} (h : c.ahead ≠ []) :
    boundaries d (n + 1) (s, c) =
      (boundary? c.position (finding d s c)).toList ++ boundaries d n (step d s c) := by
  rw [boundaries, visits_cons h, List.filterMap_cons]
  dsimp only
  cases boundary? c.position (finding d s c) <;> rfl

/-- What a scan that goes on from a place has in the end: the pieces it has done, and what lies between
the boundaries from the start of the piece in hand on. -/
private structure Ends (d : Delimiters) (source : Text) (n : Nat) (here : Scan × Cursor) (start : Nat)
    (before : List Nat) : Prop where
  pieces : ((steps d n here).1.finish d (steps d n here).2).pieces = here.1.done.reverse ++
    between (before ++ removed d n here) source here.1.mode start (boundaries d n here)
  text : (between (before ++ removed d n here) source here.1.mode start
      (boundaries d n here)).flatMap Piece.text =
    surviving (before ++ removed d n here) source start source.length

private theorem ends_last {source : Text} {n : Nat} {s : Scan} {c : Cursor} {start : Nat}
    {before : List Nat} (hend : c.ahead = []) (h : Holds before source start s c) :
    Ends d source n (s, c) start before := by
  have hlen : c.position = source.length := by
    rw [← h.text]
    simp [Cursor.text, Cursor.position, hend]
  have hpending := h.pending
  rw [hlen] at hpending
  constructor
  · rw [steps_end hend, removed, boundaries, visits_end hend]
    simp only [pieces, finish_done, List.flatMap_nil, List.filterMap_nil, List.append_nil, between,
      List.reverse_append, reverse_pieceOf, hpending]
  · rw [removed, boundaries, visits_end hend]
    simp only [List.flatMap_nil, List.filterMap_nil, List.append_nil, between, flatMap_pieceOf]

/-- A step that ends no piece. -/
private theorem ends_within {source : Text} {n : Nat} {s s' : Scan} {c c' : Cursor} {start : Nat}
    {before : List Nat} (hend : c.ahead ≠ []) (hstep : step d s c = (s', c'))
    (hmode : s'.mode = s.mode) (hdone : s'.done = s.done)
    (hboundary : boundary? c.position (finding d s c) = none)
    (h : Ends d source n (s', c') start
      (before ++ removals s.mode c.position (finding d s c))) :
    Ends d source (n + 1) (s, c) start before := by
  have hpieces := h.pieces
  have htext := h.text
  simp only [hmode, hdone, List.append_assoc] at hpieces htext
  constructor
  · rw [steps_cons hend, removed_cons hend, boundaries_cons hend, hboundary, hstep]
    exact hpieces
  · rw [removed_cons hend, boundaries_cons hend, hboundary, hstep]
    exact htext

/-- A step that ends a piece. -/
private theorem ends_boundary (hd : d.isValid = true) {source found : Text} {n : Nat} {s s' : Scan}
    {c c' : Cursor} {start : Nat} {before : List Nat} (hend : c.ahead ≠ [])
    (hstep : step d s c = (s', c')) (hfinding : finding d s c = .structural found)
    (hmode : s'.mode = otherMode s.mode)
    (hdone : s'.done = pieceOf s.pending.reverse true s.mode ++ s.done)
    (hfound : found ≠ []) (hnext : c.position + found.length ≤ c'.position)
    (hle : c.position + found.length ≤ source.length) (hh : Holds before source start s c)
    (h : Ends d source n (s', c') (c.position + found.length)
      (before ++ List.range' c.position found.length)) :
    Ends d source (n + 1) (s, c) start before := by
  have hpieces := h.pieces
  have htext := h.text
  simp only [hmode, hdone, List.append_assoc, List.reverse_append, reverse_pieceOf] at hpieces htext
  -- the steps to come remove nothing from the piece that ends here
  have hpiece : surviving (before ++ (List.range' c.position found.length ++ removed d n (s', c')))
      source start c.position = s.pending.reverse := by
    rw [hh.pending]
    refine surviving_congr fun p _ hp => ?_
    rw [List.mem_append, List.mem_append, List.mem_range'_1]
    constructor
    · rintro (hb | hr | hl)
      · exact hb
      · omega
      · have hlate : c'.position ≤ p + 1 := le_of_mem_removed hd hl
        have hlen := List.length_pos_iff.mpr hfound
        omega
    · exact Or.inl
  have hdelimiter : surviving (before ++ (List.range' c.position found.length ++
      removed d n (s', c'))) source c.position (c.position + found.length) = [] := by
    refine surviving_removed fun p hp hp' => ?_
    rw [List.mem_append, List.mem_append, List.mem_range'_1]
    exact Or.inr (Or.inl ⟨hp, hp'⟩)
  constructor
  · rw [steps_cons hend, removed_cons hend, boundaries_cons hend, hfinding, hstep]
    simp only [removals, boundary?, Option.toList_some, List.cons_append, List.nil_append, between,
      hpiece, hpieces]
  · rw [removed_cons hend, boundaries_cons hend, hfinding, hstep]
    simp only [removals, boundary?, Option.toList_some, List.cons_append, List.nil_append, between,
      List.flatMap_append, flatMap_pieceOf, htext]
    rw [surviving_append (Nat.le_trans hh.start_le (Nat.le_add_right _ found.length)) hle,
      surviving_append hh.start_le (Nat.le_add_right _ found.length), hdelimiter, List.append_nil]

private theorem holds_dangling {before : List Nat} {source found rest : Text} {start : Nat}
    {s s' : Scan} {c : Cursor} (h : Holds before source start s c)
    (hahead : c.ahead = found ++ rest) (hmode : s'.mode = .code) (hpending : s'.pending = s.pending) :
    Holds (before ++ List.range' c.position found.length) source start s' (c.skip found.length) := by
  have hpos : (c.skip found.length).position = c.position + found.length := by
    simp only [skip_read hahead, Cursor.position, List.length_append, List.length_reverse]
    omega
  have hle := h.start_le
  refine ⟨?_, by omega, ?_, ?_, by simp [hmode]⟩
  · rw [skip_read hahead, ← h.text, Cursor.text, Cursor.text, hahead]
    simp
  · intro p hp
    rw [List.mem_append, List.mem_range'_1] at hp
    rcases hp with hp | hp
    · have := h.behind p hp
      omega
    · omega
  · have hnone : surviving (before ++ List.range' c.position found.length) source c.position
        (c.position + found.length) = [] := by
      refine surviving_removed fun p hp hp' => List.mem_append_right _ ?_
      exact List.mem_range'_1.mpr ⟨hp, hp'⟩
    rw [hpending, hpos, surviving_append hle (Nat.le_add_right _ _), hnone, List.append_nil, h.pending]
    refine surviving_congr fun p _ hp => ?_
    rw [List.mem_append, List.mem_range'_1]
    exact ⟨Or.inl, fun hor => hor.resolve_right (by omega)⟩

private theorem holds_structural {before : List Nat} {source found rest : Text} {start : Nat}
    {s s' : Scan} {c : Cursor} (h : Holds before source start s c)
    (hahead : c.ahead = found ++ rest) (hpending : s'.pending = []) :
    Holds (before ++ List.range' c.position found.length) source (c.position + found.length) s'
      (c.skip found.length) := by
  have hpos : (c.skip found.length).position = c.position + found.length := by
    simp only [skip_read hahead, Cursor.position, List.length_append, List.length_reverse]
    omega
  refine ⟨?_, by omega, ?_, ?_, by omega⟩
  · rw [skip_read hahead, ← h.text, Cursor.text, Cursor.text, hahead]
    simp
  · intro p hp
    rw [List.mem_append, List.mem_range'_1] at hp
    rcases hp with hp | hp
    · have := h.behind p hp
      omega
    · omega
  · rw [hpending, hpos, surviving_self]
    rfl

/-- From a scan under way on, the pieces are what survives between the boundaries. -/
private theorem ends_from (hd : d.isValid = true) {source : Text} {n : Nat} {s : Scan} {c : Cursor}
    {start : Nat} {before : List Nat} (hn : c.ahead.length ≤ n) (h : Holds before source start s c) :
    Ends d source n (s, c) start before := by
  induction n generalizing s c start before with
  | zero => exact ends_last (List.length_eq_zero_iff.mp (by omega)) h
  | succ n ih =>
      by_cases hend : c.ahead = []
      · exact ends_last hend h
      have heffect := effect d s hend
      obtain ⟨w, hw, hconsumed, -⟩ := step_consumes hd s hend
      have hrest : (step d s c).2.ahead.length ≤ n := by
        have hlen := congrArg List.length hconsumed
        have hpos := List.length_pos_iff.mpr hw
        rw [List.length_append] at hlen
        omega
      generalize hstep : step d s c = out at heffect hrest
      generalize hf : finding d s c = f at heffect
      cases heffect with
      | @character s' x rest hahead hmode hdone hpending =>
          refine ends_within hend hstep hmode hdone (by rw [hf]; rfl) (ih hrest ?_)
          rw [hf, removals, List.append_nil]
          exact holds_keep (w := [x]) h hahead (by simp) hpending
      | @escaped s' found hescaped hmode hdone hpending =>
          obtain ⟨hor, rest, hahead⟩ := finding_ahead (Or.inl hf)
          have hne := Delimiters.Has.ne_nil hd hor
          refine ends_within hend hstep hmode hdone (by rw [hf]; rfl) (ih hrest ?_)
          rw [hf, removals]
          split
          · rename_i hm
            rw [if_pos hm] at hpending
            exact holds_escaped h hahead.symm hne hm hescaped hpending
          · rename_i hm
            rw [if_neg hm] at hpending
            rw [List.append_nil]
            exact holds_keep h hahead.symm hne hpending
      | @structural s' found hmode hdone hpending =>
          obtain ⟨hor, rest, hahead⟩ := finding_ahead (Or.inr (Or.inl hf))
          have hnext := holds_structural h hahead.symm hpending
          have hle : c.position + found.length ≤ source.length := by
            rw [← h.text, Cursor.text, Cursor.position, ← hahead]
            simp only [List.length_append, List.length_reverse]
            omega
          exact ends_boundary hd hend hstep hf hmode hdone (Delimiters.Has.ne_nil hd hor) hnext.start_le
            hle h (ih hrest hnext)
      | @dangling s' found hmode hdone hpending =>
          obtain ⟨hor, rest, hahead⟩ := finding_ahead (Or.inr (Or.inr hf))
          refine ends_within hend hstep hmode hdone (by rw [hf]; rfl) (ih hrest ?_)
          rw [hf, removals]
          split
          · rename_i hm
            rw [if_pos hm] at hpending
            rw [List.append_nil]
            exact holds_keep h hahead.symm (Delimiters.Has.ne_nil hd hor) hpending
          · rename_i hm
            rw [if_neg hm] at hpending
            have hcode : s'.mode = .code := by
              rw [hmode]
              cases hmode' : s.mode with
              | literal => exact absurd hmode' hm
              | code => rfl
            exact holds_dangling h hahead.symm hcode hpending

/-- Scanning loses, doubles and reorders nothing. The scan of a whole source reaches its end, each of
its steps consumes a stretch of the text, all pieces together are the source without what the steps
remove, and each piece is what survives between two neighbouring boundaries. -/
theorem scan_keeps_survivors (d : Delimiters) (hd : d.isValid = true) (source : Text)
    (log : Collector) :
    let n := source.length
    let start : Scan × Cursor := ({ log }, Cursor.ofText source)
    (steps d n start).2.atEnd = true ∧
      (∀ here ∈ visits d n start, ∃ w, w ≠ [] ∧ here.2.ahead = w ++ (step d here.1 here.2).2.ahead ∧
        (step d here.1 here.2).2.behind = w.reverse ++ here.2.behind) ∧
      (ofText d source log).pieces.flatMap Piece.text =
        surviving (removed d n start) source 0 source.length ∧
      (ofText d source log).pieces =
        between (removed d n start) source .literal 0 (boundaries d n start) := by
  intro n start
  have hholds : Holds [] source 0 ({ log } : Scan) (Cursor.ofText source) := by
    refine ⟨rfl, Nat.zero_le _, by simp, ?_, by simp⟩
    exact (surviving_self [] source 0).symm
  have hends : Ends d source n start 0 [] := ends_from hd (Nat.le_refl _) hholds
  have hpieces := hends.pieces
  have htext := hends.text
  rw [List.nil_append] at hpieces htext
  have hall : (ofText d source log).pieces =
      between (removed d n start) source .literal 0 (boundaries d n start) := hpieces
  refine ⟨steps_atEnd hd (Nat.le_refl _), ?_, ?_, hall⟩
  · intro here hmem
    exact step_consumes hd here.1 (visits_ahead hmem)
  · rw [hall]
    exact htext

/-- An escaped delimiter loses its backslash, one that dangles in code all its characters. -/
theorem scan_keeps_survivors_standard :
    Delimiters.standard.isValid = true ∧
      (ofText .standard "a\\<$b<$x<$y$>c".toList ⟨1, none, []⟩).pieces =
        between [1, 5, 6, 8, 9, 11, 12] "a\\<$b<$x<$y$>c".toList .literal 0
          [(5, 7), (11, 13)] := by
  have hvalid : Delimiters.standard.isValid = true := by decide
  have hkeeps := scan_keeps_survivors .standard hvalid "a\\<$b<$x<$y$>c".toList ⟨1, none, []⟩
  have hremoved : removed .standard 14 (({ log := ⟨1, none, []⟩ } : Scan),
      Cursor.ofText "a\\<$b<$x<$y$>c".toList) = [1, 5, 6, 8, 9, 11, 12] := by decide +kernel
  have hboundaries : boundaries .standard 14 (({ log := ⟨1, none, []⟩ } : Scan),
      Cursor.ofText "a\\<$b<$x<$y$>c".toList) = [(5, 7), (11, 13)] := by decide +kernel
  have hpieces := hkeeps.2.2.2
  rw [show "a\\<$b<$x<$y$>c".toList.length = 14 by decide, hremoved, hboundaries] at hpieces
  exact ⟨hvalid, hpieces⟩

end Run

end Scan

end Stencil
