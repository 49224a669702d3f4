import Stencil.Scan
/-!
# The steps of a scan

What a step finds depends on the mode, the open quote and the text at the cursor. `effect` says once
what a step does with what it finds; all else about a scan follows from it.
-/
namespace Stencil

namespace Delimiters

variable {d : Delimiters}

def Has (d : Delimiters) (delimiter : Text) : Prop := delimiter = d.start ∨ delimiter = d.stop

theorem isValid_iff : d.isValid = true ↔ d.start ≠ [] ∧ d.stop ≠ [] ∧ d.start ≠ d.stop := by
  simp [isValid, and_assoc]

theorem Has.ne_nil {w : Text} (hd : d.isValid = true) (h : d.Has w) : w ≠ [] := by
  rcases h with rfl | rfl
  · exact (isValid_iff.mp hd).1
  · exact (isValid_iff.mp hd).2.1

end Delimiters

namespace Scan

/-- What a step finds at the cursor. -/
inductive Finding where
  | character
  /-- A delimiter directly after exactly one backslash. -/
  | escaped (delimiter : Text)
  /-- The delimiter that ends the piece in hand. -/
  | structural (delimiter : Text)
  /-- The other delimiter, where it means nothing. -/
  | dangling (delimiter : Text)
deriving Repr, DecidableEq

/-- What the delimiter ahead is, given the one that ends the piece in hand. -/
def delimiterAhead (c : Cursor) (awaited other : Text) : Finding :=
  match longestAhead? c awaited other with
  | none => .character
  | some found =>
    if isEscaped c then .escaped found
    else if found = awaited then .structural found
    else .dangling found

/-- What a step finds. Inside a quoted string of code there are characters only. -/
def finding (d : Delimiters) (s : Scan) (c : Cursor) : Finding :=
  match s.mode, s.quote with
  | .literal, _ => delimiterAhead c d.start d.stop
  | .code, none => delimiterAhead c d.stop d.start
  | .code, some _ => .character

/-- The piece that a text makes, if any: an empty literal makes none. -/
def pieceOf (text : Text) (closed : Bool) : Mode → List Piece
  | .literal => if text.isEmpty then [] else [.literal text]
  | .code => [.code text closed]

theorem reverse_pieceOf (text : Text) (closed : Bool) (mode : Mode) :
    (pieceOf text closed mode).reverse = pieceOf text closed mode := by
  cases mode with
  | literal =>
      rw [pieceOf]
      split <;> rfl
  | code => rfl

def otherMode : Mode → Mode
  | .literal => .code
  | .code => .literal

/-- What a step does with what it finds. -/
inductive Effect (s : Scan) (c : Cursor) : Finding → Scan × Cursor → Prop
  | character {s' : Scan} {x : Char} {rest : Text} : c.ahead = x :: rest → s'.mode = s.mode →
      s'.done = s.done → s'.pending = x :: s.pending → Effect s c .character (s', c.skip 1)
  | escaped {s' : Scan} {found : Text} : isEscaped c = true → s'.mode = s.mode →
      s'.done = s.done →
      s'.pending = found.reverse ++ (if s.mode = .literal then s.pending.drop 1 else s.pending) →
      Effect s c (.escaped found) (s', c.skip found.length)
  | structural {s' : Scan} {found : Text} : s'.mode = otherMode s.mode →
      s'.done = pieceOf s.pending.reverse true s.mode ++ s.done → s'.pending = [] →
      Effect s c (.structural found) (s', c.skip found.length)
  | dangling {s' : Scan} {found : Text} : s'.mode = s.mode → s'.done = s.done →
      s'.pending = (if s.mode = .literal then found.reverse ++ s.pending else s.pending) →
      Effect s c (.dangling found) (s', c.skip found.length)

theorem longestAhead?_eq_some {c : Cursor} {first second found : Text}
    (h : longestAhead? c first second = some found) :
    (found = first ∨ found = second) ∧ found <+: c.ahead := by
  unfold longestAhead? at h
  split at h
  · rename_i h1 h2
    split at h
    · rw [← Option.some.inj h]
      exact ⟨Or.inr rfl, List.isPrefixOf_iff_prefix.mp h2⟩
    · rw [← Option.some.inj h]
      exact ⟨Or.inl rfl, List.isPrefixOf_iff_prefix.mp h1⟩
  · rename_i h1 _
    rw [← Option.some.inj h]
    exact ⟨Or.inl rfl, List.isPrefixOf_iff_prefix.mp h1⟩
  · rename_i _ h2
    rw [← Option.some.inj h]
    exact ⟨Or.inr rfl, List.isPrefixOf_iff_prefix.mp h2⟩
  · simp at h

private theorem effect_take {s s' : Scan} {c : Cursor} {x : Char} {rest : Text}
    (hahead : c.ahead = x :: rest) (hmode : s'.mode = s.mode) (hdone : s'.done = s.done)
    (hpending : s'.pending = s.pending) : Effect s c .character (s'.take c) := by
  refine .character hahead hmode hdone ?_
  simp [Cursor.peek, hahead, hpending]

theorem closeLiteral_done {s : Scan} (hm : s.mode = .literal) (closed : Bool) :
    s.closeLiteral.done = pieceOf s.pending.reverse closed s.mode ++ s.done := by
  rw [closeLiteral, hm, pieceOf, List.isEmpty_reverse]
  split <;> rfl

private theorem closeLiteral_pending (s : Scan) : s.closeLiteral.pending = [] := by
  unfold closeLiteral
  split <;> simp_all

private theorem effect_literal (d : Delimiters) {s : Scan} {c : Cursor} (hm : s.mode = .literal)
    {x : Char} {rest : Text} (hahead : c.ahead = x :: rest) :
    Effect s c (delimiterAhead c d.start d.stop) (stepLiteral d s c) := by
  unfold delimiterAhead stepLiteral
  cases hfound : longestAhead? c d.start d.stop with
  | none => exact effect_take hahead rfl rfl rfl
  | some found =>
      dsimp only
      by_cases hesc : isEscaped c = true
      · rw [if_pos hesc, if_pos hesc]
        exact .escaped hesc rfl rfl (by rw [if_pos hm]; rfl)
      · rw [if_neg hesc, if_neg hesc]
        by_cases heq : found = d.start
        · subst heq
          rw [if_pos rfl, if_pos rfl]
          exact .structural (by rw [hm]; rfl) (closeLiteral_done hm true) (closeLiteral_pending s)
        · rw [if_neg heq, if_neg heq]
          rw [(longestAhead?_eq_some hfound).1.resolve_left heq]
          exact .dangling rfl rfl (by rw [if_pos hm]; rfl)

private theorem effect_code (d : Delimiters) {s : Scan} {c : Cursor} (hm : s.mode = .code)
    {x : Char} {rest : Text} (hahead : c.ahead = x :: rest) :
    Effect s c (delimiterAhead c d.stop d.start) (stepCode d s c) := by
  have hne : s.mode ≠ .literal := by rw [hm]; simp
  unfold delimiterAhead stepCode
  cases hfound : longestAhead? c d.stop d.start with
  | none => exact effect_take hahead rfl rfl rfl
  | some found =>
      dsimp only
      by_cases hesc : isEscaped c = true
      · rw [if_pos hesc, if_pos hesc]
        exact .escaped hesc rfl rfl (by rw [if_neg hne]; rfl)
      · rw [if_neg hesc, if_neg hesc]
        by_cases heq : found = d.stop
        · subst heq
          rw [if_pos rfl, if_pos rfl]
          exact .structural (by rw [hm]; rfl) (by rw [hm]; rfl) rfl
        · rw [if_neg heq, if_neg heq]
          rw [(longestAhead?_eq_some hfound).1.resolve_left heq]
          exact .dangling rfl rfl (by rw [if_neg hne])

/-- A step does what its finding says. -/
theorem effect (d : Delimiters) (s : Scan) {c : Cursor} (h : c.ahead ≠ []) :
    Effect s c (finding d s c) (step d s c) := by
  obtain ⟨x, rest, hahead⟩ := List.exists_cons_of_ne_nil h
  have hpeek : c.peek.isNone = false := by simp [Cursor.peek, hahead]
  unfold finding step
  cases hm : s.mode with
  | literal => exact effect_literal d hm hahead
  | code =>
      cases hq : s.quote with
      | none =>
          dsimp only
          rw [if_neg (by simp [hpeek])]
          exact effect_code d hm hahead
      | some quote =>
          dsimp only
          rw [if_neg (by simp [hpeek])]
          exact effect_take hahead rfl rfl rfl

/-- The delimiter that a step finds lies ahead. -/
theorem finding_ahead {d : Delimiters} {s : Scan} {c : Cursor} {found : Text}
    (h : finding d s c = .escaped found ∨ finding d s c = .structural found ∨
      finding d s c = .dangling found) :
    (found = d.start ∨ found = d.stop) ∧ found <+: c.ahead := by
  have ahead {first second : Text} (h : delimiterAhead c first second = .escaped found ∨
      delimiterAhead c first second = .structural found ∨
      delimiterAhead c first second = .dangling found) :
      (found = first ∨ found = second) ∧ found <+: c.ahead := by
    unfold delimiterAhead at h
    cases hfound : longestAhead? c first second with
    | none => simp [hfound] at h
    | some other =>
        rw [hfound] at h
        have hsame : other = found := by
          dsimp only at h
          split at h
          · simpa using h
          · split at h <;> simpa using h
        exact hsame ▸ longestAhead?_eq_some hfound
  unfold finding at h
  split at h
  · exact ahead h
  · obtain ⟨hor, hahead⟩ := ahead h
    exact ⟨hor.symm, hahead⟩
  · simp at h

/-! ## Every step moves on -/

theorem skip_read {c : Cursor} {w rest : Text} (h : c.ahead = w ++ rest) :
    c.skip w.length = ⟨w.reverse ++ c.behind, rest⟩ := by
  simp [Cursor.skip, h]

/-- With a valid pair every step consumes a stretch of the text. -/
theorem step_consumes {d : Delimiters} (hd : d.isValid = true) (s : Scan) {c : Cursor}
    (h : c.ahead ≠ []) :
    ∃ w, w ≠ [] ∧ c.ahead = w ++ (step d s c).2.ahead ∧
      (step d s c).2.behind = w.reverse ++ c.behind := by
  have moves {w : Text} (hw : w ≠ []) (hp : w <+: c.ahead) (hskip : (step d s c).2 = c.skip w.length) :
      ∃ w, w ≠ [] ∧ c.ahead = w ++ (step d s c).2.ahead ∧
        (step d s c).2.behind = w.reverse ++ c.behind := by
    obtain ⟨rest, hrest⟩ := hp
    rw [hskip, skip_read hrest.symm]
    exact ⟨w, hw, hrest.symm, rfl⟩
  have he := effect d s h
  generalize hf : finding d s c = f at he
  generalize hout : step d s c = out at he moves ⊢
  cases he with
  | @character s' x rest hahead => exact moves (w := [x]) (by simp) ⟨rest, hahead.symm⟩ rfl
  | @escaped s' found _ _ _ _ =>
      obtain ⟨hor, hp⟩ := finding_ahead (Or.inl hf)
      exact moves (Delimiters.Has.ne_nil hd hor) hp rfl
  | @structural s' found _ _ _ =>
      obtain ⟨hor, hp⟩ := finding_ahead (Or.inr (Or.inl hf))
      exact moves (Delimiters.Has.ne_nil hd hor) hp rfl
  | @dangling s' found _ _ _ =>
      obtain ⟨hor, hp⟩ := finding_ahead (Or.inr (Or.inr hf))
      exact moves (Delimiters.Has.ne_nil hd hor) hp rfl

/-- The source has not been changed. -/
theorem step_text {d : Delimiters} (hd : d.isValid = true) (s : Scan) {c : Cursor}
    (h : c.ahead ≠ []) : (step d s c).2.text = c.text := by
  obtain ⟨w, -, hahead, hbehind⟩ := step_consumes hd s h
  simp [Cursor.text, hahead, hbehind]

/-- As many steps as there are characters ahead reach the end. -/
theorem steps_atEnd {d : Delimiters} (hd : d.isValid = true) {n : Nat} {s : Scan} {c : Cursor}
    (h : c.ahead.length ≤ n) : (steps d n (s, c)).2.atEnd = true := by
  induction n generalizing s c with
  | zero => simpa [steps, Cursor.atEnd] using h
  | succ n ih =>
      rw [steps]
      split
      · assumption
      · rename_i hend
        have hne : c.ahead ≠ [] := by simpa [Cursor.atEnd] using hend
        obtain ⟨w, hw, hahead, -⟩ := step_consumes hd s hne
        have hlen := congrArg List.length hahead
        have hpos := List.length_pos_iff.mpr hw
        rw [List.length_append] at hlen
        have hrest : (step d s c).2.ahead.length ≤ n := by omega
        exact ih hrest

/-- The states in which a scan makes its steps. -/
def visits (d : Delimiters) : Nat → Scan × Cursor → List (Scan × Cursor)
  | 0, _ => []
  | n + 1, here => if here.2.atEnd then [] else here :: visits d n (step d here.1 here.2)

theorem visits_cons {d : Delimiters} {n : Nat} {s : Scan} {c : Cursor} (h : c.ahead ≠ []) :
    visits d (n + 1) (s, c) = (s, c) :: visits d n (step d s c) := by
  rw [visits, if_neg (by simpa [Cursor.atEnd] using h)]

theorem visits_end {d : Delimiters} {n : Nat} {s : Scan} {c : Cursor} (h : c.ahead = []) :
    visits d n (s, c) = [] := by
  cases n with
  | zero => rfl
  | succ n => rw [visits, if_pos (by simp [Cursor.atEnd, h])]

theorem steps_cons {d : Delimiters} {n : Nat} {s : Scan} {c : Cursor} (h : c.ahead ≠ []) :
    steps d (n + 1) (s, c) = steps d n (step d s c) := by
  rw [steps, if_neg (by simpa [Cursor.atEnd] using h)]

theorem steps_end {d : Delimiters} {n : Nat} {s : Scan} {c : Cursor} (h : c.ahead = []) :
    steps d n (s, c) = (s, c) := by
  cases n with
  | zero => rfl
  | succ n => rw [steps, if_pos (by simp [Cursor.atEnd, h])]

/-- Steps are made before the end only. -/
theorem visits_ahead {d : Delimiters} {n : Nat} {start here : Scan × Cursor}
    (h : here ∈ visits d n start) : here.2.ahead ≠ [] := by
  induction n generalizing start with
  | zero => simp [visits] at h
  | succ n ih =>
      rw [visits] at h
      split at h
      · simp at h
      · rename_i hend
        rcases List.mem_cons.mp h with rfl | h
        · simpa [Cursor.atEnd] using hend
        · exact ih h

/-! ## The last piece -/

theorem finish_done (d : Delimiters) (s : Scan) (c : Cursor) :
    (s.finish d c).done = pieceOf s.pending.reverse false s.mode ++ s.done := by
  unfold finish
  split <;> rename_i hm
  · exact closeLiteral_done hm false
  · rw [hm]
    rfl

end Scan

end Stencil
