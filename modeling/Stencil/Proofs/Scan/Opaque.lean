import Stencil.Proofs.Scan.Escaping
/-!
# Quoted text does not matter to the scan

Two sources that differ inside one quoted string of code are scanned alike. Up to the string the two
scans are the same, since no delimiter reaches over its opening quote. In the string both take
characters until its closing quote. After it they go on side by side: neither looks back further
than that quote.
-/
namespace Stencil

/-- A collector without the places of its diagnostics. -/
def Collector.unplaced (log : Collector) : Collector :=
  { log with entries := log.entries.map fun e => { e with location := none } }

/-- Two lists of pieces are the same but for one stretch inside one piece of code. -/
def Piece.SameBut (v v' : Text) (pieces pieces' : List Piece) : Prop :=
  ∃ before front back closed after,
    pieces = before ++ .code (front ++ (v ++ back)) closed :: after ∧
      pieces' = before ++ .code (front ++ (v' ++ back)) closed :: after

def Piece.isOpen : Piece → Bool
  | .code _ false => true
  | _ => false

namespace Scan

open Delimiters

variable {d : Delimiters} {log : Collector} {u v w : Text} {q : Char}

/-- A stretch `v` of code from just after an opening quote to just before the quote that closes it, as
the scan tracks them: text `u` stands before the opening quote and text `w` after the closing one. -/
def Quoted (d : Delimiters) (log : Collector) (u : Text) (q : Char) (v w : Text) : Prop :=
  let source := u ++ q :: (v ++ q :: w)
  ∃ here ∈ visits d source.length ({ log }, Cursor.ofText source),
    here.2 = ⟨u.reverse, q :: (v ++ q :: w)⟩ ∧ here.1.mode = .code ∧ here.1.quote = none ∧
      (∀ k ≤ v.length, (steps d k (step d here.1 here.2)).1.quote = some q) ∧
      (steps d (v.length + 1) (step d here.1 here.2)).1.quote = none

/-- Exchanging the text `old` after a quote for `new` brings up no delimiter that begins at or before the
quote, which stands after text `u`, and ends after it. -/
def BringsNone (d : Delimiters) (u : Text) (q : Char) (old new : Text) : Prop :=
  ∀ x y, d.Has (x ++ q :: y) → x <:+ u → y <+: new → y <+: old

instance : Decidable (Quoted d log u q v w) := by
  unfold Quoted
  infer_instance

/-- Nothing is brought up by exchanging the text after a character that the delimiters do not have, or
have at their ends only. -/
theorem bringsNone_of_last {u old new : Text} {q : Char} (h : ∀ v, d.Has v → q ∉ v.dropLast) :
    BringsNone d u q old new := by
  intro x y hv _ _
  cases y with
  | nil => exact List.nil_prefix
  | cons c y => exact absurd (by simp) (h _ hv)

/-! ## Up to the string -/

/-- In code the scan looks for the delimiters in the other order and finds the same. -/
theorem longestAhead?_eq_of_code (hd : d.isValid = true) (c : Cursor) :
    longestAhead? c d.stop d.start = d.ahead? c.ahead := by
  let swapped : Delimiters := ⟨d.stop, d.start⟩
  have hswapped : swapped.isValid = true := by
    obtain ⟨hstart, hstop, hne⟩ := isValid_iff.mp hd
    exact isValid_iff.mpr ⟨hstop, hstart, Ne.symm hne⟩
  have hhas : ∀ v, swapped.Has v ↔ d.Has v := fun v => or_comm
  have hsame := longestAhead?_eq (d := swapped) c
  rw [hsame]
  apply Option.ext
  intro w
  rw [ahead?_eq_some hswapped, ahead?_eq_some hd]
  simp only [hhas]

/-- The same delimiter is ahead where the one found in the first text is in the second, and no other
has come up there. -/
theorem ahead?_congr (hd : d.isValid = true) {t t' : Text}
    (hnew : ∀ v, d.Has v → v <+: t' → v <+: t) (hold : ∀ w, d.ahead? t = some w → w <+: t') :
    d.ahead? t' = d.ahead? t := by
  cases h : d.ahead? t with
  | none =>
      rw [ahead?_eq_none] at h ⊢
      intro v hv hp
      exact h v hv (hnew v hv hp)
  | some w =>
      have hp := hold w h
      rw [ahead?_eq_some hd] at h ⊢
      exact ⟨h.1, hp, fun v hv hv' => h.2.2 v hv (hnew v hv hv')⟩

private theorem location_eq (c : Cursor) :
    c.location = c.behind.reverse.foldl Location.step Location.start := by
  simp [Cursor.location, Location.ofPosition, Cursor.text, Cursor.position]

/-- A step looks at the text behind, at the next character, and outside strings at the delimiter
ahead. It does the same where these are the same. -/
theorem step_congr (hd : d.isValid = true) {s : Scan} {c c' : Cursor} (hbehind : c'.behind = c.behind)
    (hhead : c'.ahead.head? = c.ahead.head?)
    (hfound : s.mode = .literal ∨ s.quote = none → d.ahead? c'.ahead = d.ahead? c.ahead) :
    (step d s c').1 = (step d s c).1 ∧
      ∃ n, (step d s c).2 = c.skip n ∧ (step d s c').2 = c'.skip n := by
  have hescaped : isEscaped c' = isEscaped c := by rw [isEscaped_eq, isEscaped_eq, hbehind]
  have hpeek : c'.peek = c.peek := by rw [Cursor.peek, Cursor.peek, hhead, hbehind]
  have hlocation : c'.location = c.location := by rw [location_eq, location_eq, hbehind]
  have hposition : c'.position = c.position := by rw [Cursor.position, Cursor.position, hbehind]
  obtain ⟨mode, quote, pending, done, opened, log⟩ := s
  cases mode with
  | literal =>
      simp only [step, stepLiteral, longestAhead?_eq, hfound (Or.inl rfl)]
      cases d.ahead? c.ahead with
      | none => exact ⟨by simp only [take, hpeek], 1, rfl, rfl⟩
      | some found =>
          dsimp only
          rw [hescaped, hposition, hlocation]
          split
          · exact ⟨rfl, found.length, rfl, rfl⟩
          · split
            · exact ⟨rfl, d.start.length, rfl, rfl⟩
            · exact ⟨rfl, d.stop.length, rfl, rfl⟩
  | code =>
      cases quote with
      | some quote =>
          simp only [step, stepQuoted, hpeek, hescaped]
          split
          · exact ⟨rfl, 0, by simp [Cursor.skip], by simp [Cursor.skip]⟩
          · exact ⟨by simp only [take, hpeek], 1, rfl, rfl⟩
      | none =>
          simp only [step, stepCode, longestAhead?_eq_of_code hd, hfound (Or.inr rfl), hpeek]
          split
          · exact ⟨rfl, 0, by simp [Cursor.skip], by simp [Cursor.skip]⟩
          · cases d.ahead? c.ahead with
            | none => exact ⟨by simp only [take, hpeek, hescaped], 1, rfl, rfl⟩
            | some found =>
                dsimp only
                rw [hescaped, hlocation]
                split
                · exact ⟨rfl, found.length, rfl, rfl⟩
                · split
                  · exact ⟨rfl, d.stop.length, rfl, rfl⟩
                  · exact ⟨rfl, d.start.length, rfl, rfl⟩

/-- Outside strings a step passes over the delimiter that is ahead, and opens no string. -/
theorem step_found (hd : d.isValid = true) {s : Scan} {c : Cursor} {w : Text}
    (hs : s.mode = .literal ∨ s.quote = none) (h : d.ahead? c.ahead = some w) :
    (step d s c).2 = c.skip w.length ∧ (s.quote = none → (step d s c).1.quote = none) := by
  have hspec := (ahead?_eq_some hd).mp h
  have hpeek : c.peek.isNone = false := by
    obtain ⟨hw, ⟨rest, hrest⟩, -⟩ := hspec
    obtain ⟨x, body, hx⟩ := List.exists_cons_of_ne_nil (hw.ne_nil hd)
    simp [Cursor.peek, ← hrest, hx]
  obtain ⟨mode, quote, pending, done, opened, log⟩ := s
  cases mode with
  | literal =>
      simp only [step, stepLiteral, longestAhead?_eq, h]
      split
      · exact ⟨rfl, id⟩
      · split
        · rename_i hstart
          refine ⟨by rw [hstart], ?_⟩
          unfold closeLiteral
          split <;> exact id
        · rename_i hstart
          exact ⟨by rw [hspec.1.resolve_left hstart], id⟩
  | code =>
      obtain rfl : quote = none := hs.resolve_left (by simp)
      simp only [step, stepCode, longestAhead?_eq_of_code hd, h, hpeek, Bool.false_eq_true, if_false]
      split
      · exact ⟨rfl, fun _ => rfl⟩
      · split
        · rename_i hstop
          exact ⟨by rw [hstop], fun _ => rfl⟩
        · rename_i hstop
          exact ⟨by rw [hspec.1.resolve_right hstop], fun _ => rfl⟩

/-- Later steps have more of the text behind. -/
theorem behind_suffix_steps (hd : d.isValid = true) (n : Nat) (here : Scan × Cursor) :
    here.2.behind <:+ (steps d n here).2.behind := by
  induction n generalizing here with
  | zero => exact List.suffix_refl _
  | succ n ih =>
      obtain ⟨s, c⟩ := here
      by_cases hend : c.ahead = []
      · simp only [steps_end hend, List.suffix_refl]
      · rw [steps_cons hend]
        obtain ⟨w, -, -, hbehind⟩ := step_consumes hd s hend
        have hone : c.behind <:+ (step d s c).2.behind := ⟨w.reverse, hbehind.symm⟩
        exact hone.trans (ih (step d s c))

section Before

variable {u r z z' : Text} {q : Char}

/-- What is ahead before the quote stays the same, provided that it lies before the quote. -/
private theorem ahead?_before (hd : d.isValid = true) (hr : r <:+ u)
    (hbrings : BringsNone d u q z z')
    (hfound : ∀ w, d.ahead? (r ++ q :: z) = some w → w.length ≤ r.length) :
    d.ahead? (r ++ q :: z') = d.ahead? (r ++ q :: z) := by
  apply ahead?_congr hd
  · intro v hv hp
    obtain ⟨rest, hrest⟩ := hp
    rcases List.append_eq_append_iff.mp hrest with ⟨a, ha, -⟩ | ⟨a, ha, hsplit⟩
    · exact ⟨a ++ q :: z, by simp [ha]⟩
    · cases a with
      | nil => exact ⟨q :: z, by simp [ha]⟩
      | cons c y =>
          obtain ⟨rfl, hy⟩ := List.cons.inj hsplit
          obtain ⟨more, hmore⟩ := hbrings r y (ha ▸ hv) hr ⟨rest, hy.symm⟩
          exact ⟨more, by simp [ha, ← hmore]⟩
  · intro w hw
    have hprefix := ((ahead?_eq_some hd).mp hw).2.1
    have hwithin : w <+: r :=
      List.prefix_of_prefix_length_le hprefix (List.prefix_append r _) (hfound w hw)
    exact hwithin.trans (List.prefix_append r _)

/-- A step before the quote is the same step, whatever comes after the quote. -/
private theorem step_before (hd : d.isValid = true) (hbrings : BringsNone d u q z z') {s s' : Scan}
    {behind w : Text} (hw : w ≠ []) (hr : w ++ r <:+ u)
    (h : step d s ⟨behind, w ++ (r ++ q :: z)⟩ = (s', ⟨w.reverse ++ behind, r ++ q :: z⟩)) :
    step d s ⟨behind, w ++ (r ++ q :: z')⟩ = (s', ⟨w.reverse ++ behind, r ++ q :: z'⟩) := by
  have hhead : (w ++ (r ++ q :: z')).head? = (w ++ (r ++ q :: z)).head? := by
    obtain ⟨c, body, rfl⟩ := List.exists_cons_of_ne_nil hw
    rfl
  have hfound : s.mode = .literal ∨ s.quote = none →
      d.ahead? (w ++ (r ++ q :: z')) = d.ahead? (w ++ (r ++ q :: z)) := by
    intro hs
    rw [← List.append_assoc, ← List.append_assoc]
    apply ahead?_before hd hr hbrings
    intro found hahead
    -- the step passes over what is found, so that is `w`
    rw [List.append_assoc] at hahead
    obtain ⟨rest, hrest⟩ := ((ahead?_eq_some hd).mp hahead).2.1
    have hskip := (step_found hd (c := ⟨behind, w ++ (r ++ q :: z)⟩) hs hahead).1
    rw [h, skip_read hrest.symm, Cursor.mk.injEq, List.append_left_inj, List.reverse_inj] at hskip
    rw [← hskip.1, List.length_append]
    omega
  obtain ⟨hscan, count, hskip, hskip'⟩ := @step_congr d hd s ⟨behind, w ++ (r ++ q :: z)⟩
    ⟨behind, w ++ (r ++ q :: z')⟩ rfl hhead hfound
  have hcount : count = w.length := by
    rw [h, Cursor.skip, Cursor.mk.injEq] at hskip
    have hdrop := congrArg List.length hskip.2
    simp only [List.length_drop, List.length_append, List.length_cons] at hdrop
    omega
  apply Prod.ext
  · rw [hscan, h]
  · rw [hskip', hcount, skip_read rfl]

/-- Up to the quote the scan goes on as before, whatever comes after the quote. -/
private theorem leads_before (hd : d.isValid = true) (hbrings : BringsNone d u q z z') {s₁ : Scan}
    (n : Nat) {s : Scan} {behind : Text} (hr : r <:+ u)
    (h : steps d n (s, ⟨behind, r ++ q :: z⟩) = (s₁, ⟨r.reverse ++ behind, q :: z⟩)) :
    Leads d (s, ⟨behind, r ++ q :: z'⟩) (s₁, ⟨r.reverse ++ behind, q :: z'⟩) := by
  induction n generalizing s behind r with
  | zero =>
      rw [steps, Prod.mk.injEq, Cursor.mk.injEq] at h
      obtain ⟨rfl, hbehind, -⟩ := h
      have hnil : r = [] := by
        have hlength := congrArg List.length hbehind
        rw [List.length_append, List.length_reverse] at hlength
        exact List.eq_nil_of_length_eq_zero (by omega)
      rw [hnil]
      exact Leads.refl _
  | succ n ih =>
      rw [steps_cons (by simp)] at h
      obtain ⟨w, hw, hconsumed, hbehind⟩ :=
        step_consumes hd s (c := ⟨behind, r ++ q :: z⟩) (by simp)
      -- the step stays before the quote, since the scan comes to the quote later
      have hlater := behind_suffix_steps hd n (step d s ⟨behind, r ++ q :: z⟩)
      rw [h, hbehind] at hlater
      have hlength : w.length ≤ r.length := by
        have hle := hlater.length_le
        simp only [List.length_append, List.length_reverse] at hle
        omega
      obtain ⟨r', rfl⟩ : w <+: r :=
        List.prefix_of_prefix_length_le ⟨_, hconsumed.symm⟩ (List.prefix_append r _) hlength
      rw [List.append_assoc] at h hconsumed hbehind
      generalize hout : step d s ⟨behind, w ++ (r' ++ q :: z)⟩ = out at h hconsumed hbehind
      obtain ⟨s', behind', rest⟩ := out
      obtain rfl : behind' = w.reverse ++ behind := hbehind
      obtain rfl : r' ++ q :: z = rest := List.append_cancel_left hconsumed
      have hstep := step_before hd hbrings hw hr hout
      have hmore : Leads d (s', ⟨w.reverse ++ behind, r' ++ q :: z'⟩)
          (s₁, ⟨r'.reverse ++ (w.reverse ++ behind), q :: z'⟩) :=
        ih ((List.suffix_append w r').trans hr) (by rw [h]; simp)
      have hone := leads_step hd (by simp) hstep
      simpa using hone.trans hmore

end Before

/-! ## In the string -/

/-- Every number of steps leads on. -/
theorem leads_steps (hd : d.isValid = true) (n : Nat) (here : Scan × Cursor) :
    Leads d here (steps d n here) := by
  induction n generalizing here with
  | zero => exact Leads.refl here
  | succ n ih =>
      obtain ⟨s, c⟩ := here
      by_cases hend : c.ahead = []
      · rw [steps_end hend]
        exact Leads.refl _
      · rw [steps_cons hend]
        exact (leads_step hd hend rfl).trans (ih (step d s c))

theorem exists_steps_of_visits {n : Nat} {start here : Scan × Cursor} (h : here ∈ visits d n start) :
    ∃ k, steps d k start = here := by
  induction n generalizing start with
  | zero => simp [visits] at h
  | succ n ih =>
      obtain ⟨s, c⟩ := start
      by_cases hend : c.ahead = []
      · simp [visits_end hend] at h
      · rw [visits_cons hend, List.mem_cons] at h
        rcases h with rfl | h
        · exact ⟨0, rfl⟩
        · obtain ⟨k, hk⟩ := ih h
          exact ⟨k + 1, by rw [steps_cons hend, hk]⟩

section Inside

variable {behind rest pending v w : Text} {done : List Piece} {opened : Nat} {log : Collector}
  {q : Char}

/-- As long as its quote stays open the scan takes the characters of a string. -/
private theorem steps_inside
    (h : ∀ k ≤ v.length,
      (steps d k (⟨.code, some q, pending, done, opened, log⟩, ⟨behind, v ++ rest⟩)).1.quote =
        some q) (n : Nat) :
    steps d (v.length + n) (⟨.code, some q, pending, done, opened, log⟩, ⟨behind, v ++ rest⟩) =
      steps d n (⟨.code, some q, v.reverse ++ pending, done, opened, log⟩,
        ⟨v.reverse ++ behind, rest⟩) := by
  induction v generalizing pending behind with
  | nil => simp
  | cons c cs ih =>
      have hstep (k : Nat) : steps d (k + 1)
          (⟨.code, some q, pending, done, opened, log⟩, ⟨behind, c :: (cs ++ rest)⟩) = steps d k
            (⟨.code, if c = q ∧ isEscaped ⟨behind, []⟩ = false then none else some q, c :: pending,
              done, opened, log⟩, ⟨c :: behind, cs ++ rest⟩) := by
        rw [steps_cons (by simp), step_inside]
      have hopen := h 1 (by simp)
      rw [List.cons_append, hstep, steps] at hopen
      dsimp only at hopen
      rw [List.length_cons, Nat.add_right_comm, List.cons_append, hstep, hopen]
      rw [ih]
      · simp
      · intro k hk
        have hlater := h (k + 1) (by simpa using hk)
        rw [List.cons_append, hstep, hopen] at hlater
        exact hlater

/-- The next character then closes the string where its quote is open no longer. -/
private theorem leads_closed (hd : d.isValid = true)
    (hopen : ∀ k ≤ v.length, (steps d k
      (⟨.code, some q, pending, done, opened, log⟩, ⟨behind, v ++ q :: w⟩)).1.quote = some q)
    (hclosed : (steps d (v.length + 1)
      (⟨.code, some q, pending, done, opened, log⟩, ⟨behind, v ++ q :: w⟩)).1.quote = none) :
    Leads d (⟨.code, some q, pending, done, opened, log⟩, ⟨behind, v ++ q :: w⟩)
      (⟨.code, none, q :: (v.reverse ++ pending), done, opened, log⟩,
        ⟨q :: (v.reverse ++ behind), w⟩) := by
  have hleads := leads_steps hd (v.length + 1)
    ((⟨.code, some q, pending, done, opened, log⟩ : Scan), (⟨behind, v ++ q :: w⟩ : Cursor))
  rw [steps_inside hopen, steps_cons (by simp), step_inside, steps] at hclosed hleads
  dsimp only at hclosed
  rw [hclosed] at hleads
  exact hleads

/-- A text without the quote leaves it open. -/
private theorem quote_stays (hv : q ∉ v) : ∀ k ≤ v.length,
    (steps d k (⟨.code, some q, pending, done, opened, log⟩, ⟨behind, v ++ rest⟩)).1.quote =
      some q := by
  induction v generalizing pending behind with
  | nil =>
      intro k hk
      obtain rfl : k = 0 := Nat.le_zero.mp hk
      rfl
  | cons c cs ih =>
      rw [List.mem_cons, not_or] at hv
      intro k hk
      cases k with
      | zero => rfl
      | succ k =>
          rw [List.cons_append, steps_cons (by simp), step_inside, if_neg (by simp [Ne.symm hv.1])]
          exact ih hv.2 k (by simpa using hk)

/-- A string whose text has neither its quote nor a backslash is closed by the next quote. -/
private theorem leads_string (hd : d.isValid = true) (hq : q ≠ '\\') (hv : q ∉ v) (hplain : '\\' ∉ v) :
    Leads d (⟨.code, some q, pending, done, opened, log⟩, ⟨q :: behind, v ++ q :: w⟩)
      (⟨.code, none, q :: (v.reverse ++ pending), done, opened, log⟩,
        ⟨q :: (v.reverse ++ q :: behind), w⟩) := by
  have hescaped : isEscaped ⟨v.reverse ++ q :: behind, []⟩ = false := by
    apply isEscaped_of_head
    exact head?_reverse_append (getLast?_plain hplain) (by simpa using hq)
  apply leads_closed hd (quote_stays hv)
  rw [steps_inside (quote_stays hv), steps_cons (by simp), step_inside, if_pos ⟨rfl, hescaped⟩]
  rfl

end Inside

/-! ## After the string -/

@[simp] theorem unplaced_errorAt (log : Collector) (code message : String) (place : Location) :
    (log.errorAt code message place).unplaced = log.unplaced.error code message := by
  unfold Collector.errorAt Collector.error Collector.add Collector.unplaced
  dsimp only
  split
  · simp
  · rfl

/-- Two scans beyond a string that differs: the piece with the string is still in hand, or it is done.
The text of that piece up to the end of the string is given, read backwards. -/
inductive Abreast (string string' : Text) (done : List Piece) : Scan → Scan → Prop
  | inside {quote : Option Char} {a : Text} {opened : Nat} {log log' : Collector} :
      log'.unplaced = log.unplaced →
      Abreast string string' done ⟨.code, quote, a ++ string, done, opened, log⟩
        ⟨.code, quote, a ++ string', done, opened, log'⟩
  | beyond {mode : Mode} {quote : Option Char} {pending t : Text} {l : List Piece}
      {opened opened' : Nat} {log log' : Collector} : log'.unplaced = log.unplaced →
      Abreast string string' done
        ⟨mode, quote, pending, l ++ .code (string.reverse ++ t) true :: done, opened, log⟩
        ⟨mode, quote, pending, l ++ .code (string'.reverse ++ t) true :: done, opened', log'⟩

section After

variable {string string' : Text} {done : List Piece} {s s' : Scan}

section Step

variable {c c' : Cursor} {x : Char} (hpeek : c.peek = some x) (hpeek' : c'.peek = some x)
  (hescaped : isEscaped c' = isEscaped c)
  (hfound : ∀ first second, longestAhead? c' first second = longestAhead? c first second)
include hpeek hpeek' hescaped hfound

/-- A step in the piece that has the string. -/
private theorem abreast_inside {quote : Option Char} {near : Text} {opened : Nat} {log log' : Collector}
    (hlog : log'.unplaced = log.unplaced) :
    Abreast string string' done (step d ⟨.code, quote, near ++ string, done, opened, log⟩ c).1
        (step d ⟨.code, quote, near ++ string', done, opened, log'⟩ c').1 ∧
      ∃ n, (step d ⟨.code, quote, near ++ string, done, opened, log⟩ c).2 = c.skip n ∧
        (step d ⟨.code, quote, near ++ string', done, opened, log'⟩ c').2 = c'.skip n := by
  cases quote with
  | some quote =>
      simp only [step, stepQuoted, take, hpeek, hpeek', hescaped, Option.isNone_some,
        Bool.false_eq_true, if_false]
      exact ⟨.inside (a := x :: near) hlog, 1, rfl, rfl⟩
  | none =>
      simp only [step, stepCode, take, hpeek, hpeek', hescaped, hfound, Option.isNone_some,
        Bool.false_eq_true, if_false]
      cases longestAhead? c d.stop d.start with
      | none => exact ⟨.inside (a := x :: near) hlog, 1, rfl, rfl⟩
      | some found =>
          dsimp only
          split
          · refine ⟨?_, found.length, rfl, rfl⟩
            simp only [takeAll, ← List.append_assoc]
            exact .inside hlog
          · split
            · refine ⟨?_, d.stop.length, rfl, rfl⟩
              simp only [closeCode, List.reverse_append]
              exact .beyond (l := []) hlog
            · refine ⟨.inside ?_, d.start.length, rfl, rfl⟩
              simp [hlog]

/-- A step after that piece. -/
private theorem abreast_beyond {mode : Mode} {quote : Option Char} {pending t : Text}
    {later : List Piece} {opened opened' : Nat} {log log' : Collector}
    (hlog : log'.unplaced = log.unplaced) :
    let s : Scan := ⟨mode, quote, pending, later ++ .code (string.reverse ++ t) true :: done, opened, log⟩
    let s' : Scan :=
      ⟨mode, quote, pending, later ++ .code (string'.reverse ++ t) true :: done, opened', log'⟩
    Abreast string string' done (step d s c).1 (step d s' c').1 ∧
      ∃ n, (step d s c).2 = c.skip n ∧ (step d s' c').2 = c'.skip n := by
  intro s s'
  cases mode with
  | literal =>
      simp only [s, s', step, stepLiteral, take, hpeek, hpeek', hescaped, hfound]
      cases longestAhead? c d.start d.stop with
      | none => exact ⟨.beyond hlog, 1, rfl, rfl⟩
      | some found =>
          dsimp only
          split
          · exact ⟨.beyond hlog, found.length, rfl, rfl⟩
          · split
            · refine ⟨?_, d.start.length, rfl, rfl⟩
              simp only [closeLiteral]
              split
              · exact .beyond hlog
              · exact .beyond (l := .literal pending.reverse :: later) hlog
            · exact ⟨.beyond (by simp [hlog]), d.stop.length, rfl, rfl⟩
  | code =>
      cases quote with
      | some quote =>
          simp only [s, s', step, stepQuoted, take, hpeek, hpeek', hescaped, Option.isNone_some,
            Bool.false_eq_true, if_false]
          exact ⟨.beyond hlog, 1, rfl, rfl⟩
      | none =>
          simp only [s, s', step, stepCode, take, hpeek, hpeek', hescaped, hfound, Option.isNone_some,
            Bool.false_eq_true, if_false]
          cases longestAhead? c d.stop d.start with
          | none => exact ⟨.beyond hlog, 1, rfl, rfl⟩
          | some found =>
              dsimp only
              split
              · exact ⟨.beyond hlog, found.length, rfl, rfl⟩
              · split
                · exact ⟨.beyond (l := .code pending.reverse true :: later) hlog,
                    d.stop.length, rfl, rfl⟩
                · exact ⟨.beyond (by simp [hlog]), d.start.length, rfl, rfl⟩

end Step

/-- Scans abreast make the same step where they stand before the same text and after the same
backslashes. -/
private theorem abreast_step (h : Abreast string string' done s s') {c c' : Cursor}
    (hne : c.ahead ≠ []) (hahead : c'.ahead = c.ahead) (hescaped : isEscaped c' = isEscaped c) :
    Abreast string string' done (step d s c).1 (step d s' c').1 ∧
      ∃ n, (step d s c).2 = c.skip n ∧ (step d s' c').2 = c'.skip n := by
  obtain ⟨x, rest, hx⟩ := List.exists_cons_of_ne_nil hne
  have hpeek : c.peek = some x := by simp [Cursor.peek, hx]
  have hpeek' : c'.peek = some x := by simp [Cursor.peek, hahead, hx]
  have hfound (first second : Text) : longestAhead? c' first second = longestAhead? c first second := by
    simp only [longestAhead?, Cursor.startsWith, hahead]
  cases h with
  | inside hlog => exact abreast_inside hpeek hpeek' hescaped hfound hlog
  | beyond hlog => exact abreast_beyond hpeek hpeek' hescaped hfound hlog

/-- Scans abreast stay so up to the end. -/
private theorem abreast_steps {far far' : Text} (hfar : far.head? ≠ some '\\')
    (hfar' : far'.head? ≠ some '\\') (n : Nat) {a rest : Text}
    (h : Abreast string string' done s s') :
    Abreast string string' done (steps d n (s, ⟨a ++ far, rest⟩)).1
      (steps d n (s', ⟨a ++ far', rest⟩)).1 := by
  induction n generalizing s s' a rest with
  | zero => exact h
  | succ n ih =>
      by_cases hend : rest = []
      · rw [steps_end hend, steps_end hend]
        exact h
      · have hescaped : isEscaped ⟨a ++ far', rest⟩ = isEscaped ⟨a ++ far, rest⟩ := by
          rw [isEscaped_append hfar', isEscaped_append hfar]
        have hne : Cursor.ahead ⟨a ++ far, rest⟩ ≠ [] := hend
        have hsame : Cursor.ahead ⟨a ++ far', rest⟩ = Cursor.ahead ⟨a ++ far, rest⟩ := rfl
        obtain ⟨hnext, count, hskip, hskip'⟩ := abreast_step (d := d) h hne hsame hescaped
        have hmore : Abreast string string' done
            (steps d n (_, ⟨(rest.take count).reverse ++ a ++ far, rest.drop count⟩)).1
            (steps d n (_, ⟨(rest.take count).reverse ++ a ++ far', rest.drop count⟩)).1 := ih hnext
        rw [steps_cons hend, steps_cons hend]
        have hcursor : step d s ⟨a ++ far, rest⟩ = ((step d s ⟨a ++ far, rest⟩).1,
            ⟨(rest.take count).reverse ++ a ++ far, rest.drop count⟩) := by
          apply Prod.ext
          · rfl
          · rw [hskip, Cursor.skip, List.append_assoc]
        have hcursor' : step d s' ⟨a ++ far', rest⟩ = ((step d s' ⟨a ++ far', rest⟩).1,
            ⟨(rest.take count).reverse ++ a ++ far', rest.drop count⟩) := by
          apply Prod.ext
          · rfl
          · rw [hskip', Cursor.skip, List.append_assoc]
        rw [hcursor, hcursor']
        exact hmore

/-- Scans abreast come to the same pieces but for the string. They report the same, and both leave a
region of code open or neither does. -/
private theorem abreast_finish {front v v' : Text} {q : Char}
    (h : Abreast (q :: (v.reverse ++ front)) (q :: (v'.reverse ++ front)) done s s')
    (c c' : Cursor) :
    Piece.SameBut v v' (s.finish d c).pieces (s'.finish d c').pieces ∧
      (s'.finish d c').log.unplaced = (s.finish d c).log.unplaced ∧
      (s'.finish d c').done.head?.any Piece.isOpen =
        (s.finish d c).done.head?.any Piece.isOpen := by
  cases h with
  | @inside quote near opened log log' hlog =>
      refine ⟨⟨done.reverse, front.reverse, q :: near.reverse, false, [], ?_, ?_⟩, ?_, rfl⟩
      · simp [finish, pieces, closeCode]
      · simp [finish, pieces, closeCode]
      · simp [finish, closeCode, hlog]
  | @beyond mode quote pending t later opened opened' log log' hlog =>
      simp only [pieces, finish_done]
      refine ⟨⟨done.reverse, front.reverse, q :: t, true,
        later.reverse ++ (pieceOf pending.reverse false mode).reverse, ?_, ?_⟩, ?_, ?_⟩
      · simp
      · simp
      · cases mode with
        | literal =>
            simp only [finish, closeLiteral]
            split <;> exact hlog
        | code => simp [finish, closeCode, hlog]
      · -- the last piece is the same, unless it is the one with the string
        cases pieceOf pending.reverse false mode with
        | cons piece more => rfl
        | nil =>
            cases later with
            | cons piece more => rfl
            | nil => rfl

end After

/-- A scan fails where its last piece was left open. -/
theorem scan_eq (d : Delimiters) (source : Text) (template : String) (log : Collector) :
    scan d source template log =
      (if (ofText d source log).done.head?.any Piece.isOpen then
        .error (.unterminatedCode template d.stop
          (Location.ofPosition source (ofText d source log).opened))
      else .ok (ofText d source log).pieces, (ofText d source log).log) := by
  unfold scan
  dsimp only
  split
  · rename_i t rest hdone
    simp [hdone, Piece.isOpen]
  · rename_i hnot
    have hclosed : (ofText d source log).done.head?.any Piece.isOpen = false := by
      cases hdone : (ofText d source log).done with
      | nil => rfl
      | cons piece rest =>
          cases piece with
          | literal t => rfl
          | code t closed =>
              cases closed with
              | true => rfl
              | false => exact absurd hdone (hnot t rest)
    simp [hclosed]

/-! ## The whole scan -/

variable {log : Collector} {u v v' w : Text} {q : Char}

section Opening

variable {pending behind rest : Text} {done : List Piece} {opened : Nat}

/-- In code, where no delimiter is ahead, the next character is taken, and it opens a string if it is
a quote that is not escaped. -/
private theorem step_quote (hd : d.isValid = true) (h : d.ahead? (q :: rest) = none) :
    step d ⟨.code, none, pending, done, opened, log⟩ ⟨behind, q :: rest⟩ =
      (⟨.code, quoteStep behind none q, q :: pending, done, opened, log⟩, ⟨q :: behind, rest⟩) := by
  have hescaped : isEscaped ⟨behind, q :: rest⟩ = isEscaped ⟨behind, []⟩ := by simp [isEscaped_eq]
  simp only [step, stepCode, longestAhead?_eq_of_code hd, h, hescaped, quoteStep, Cursor.peek,
    List.head?_cons]
  cases isEscaped ⟨behind, []⟩ with
  | true => simp [take, Cursor.peek, Cursor.advance, Cursor.skip]
  | false =>
      by_cases hmark : q = '\'' ∨ q = '"' <;>
        simp [hmark, Option.filter, take, Cursor.peek, Cursor.advance, Cursor.skip]

/-- Where a string is opened no delimiter is ahead. -/
private theorem ahead?_opening (hd : d.isValid = true)
    (h : (step d ⟨.code, none, pending, done, opened, log⟩ ⟨behind, q :: rest⟩).1.quote = some q) :
    d.ahead? (q :: rest) = none := by
  cases hahead : d.ahead? (q :: rest) with
  | none => rfl
  | some w =>
      have hfound := (step_found hd (s := ⟨.code, none, pending, done, opened, log⟩)
        (c := ⟨behind, q :: rest⟩) (Or.inr rfl) hahead).2 rfl
      rw [h] at hfound
      exact absurd hfound (by simp)

/-- A backslash opens no string. -/
private theorem ne_backslash (h : quoteStep behind none q = some q) : q ≠ '\\' := by
  rintro rfl
  unfold quoteStep at h
  split at h
  · exact absurd h (by simp)
  · exact absurd h (by decide)

end Opening

/-- With enough steps for the text ahead, more steps change nothing. -/
theorem steps_enough (hd : d.isValid = true) {n m : Nat} {s : Scan} {c : Cursor}
    (hn : c.ahead.length ≤ n) (hm : c.ahead.length ≤ m) : steps d n (s, c) = steps d m (s, c) := by
  induction n generalizing m s c with
  | zero =>
      have hend : c.ahead = [] := List.eq_nil_of_length_eq_zero (Nat.le_zero.mp hn)
      rw [steps_end hend, steps_end hend]
  | succ n ih =>
      by_cases hend : c.ahead = []
      · rw [steps_end hend, steps_end hend]
      · obtain ⟨w, hw, hconsumed, -⟩ := step_consumes hd s hend
        have hlength := congrArg List.length hconsumed
        have hpos := List.length_pos_iff.mpr hw
        rw [List.length_append] at hlength
        obtain ⟨m, rfl⟩ : ∃ k, m = k + 1 := ⟨m - 1, by omega⟩
        have hless : (step d s c).2.ahead.length ≤ n := by omega
        have hless' : (step d s c).2.ahead.length ≤ m := by omega
        rw [steps_cons hend, steps_cons hend]
        exact ih hless hless'

/-- What a scan comes to is decided in any state that it comes by. -/
theorem ofText_of_leads (hd : d.isValid = true) {source : Text} {s : Scan} {c : Cursor}
    (h : Leads d ({ log }, Cursor.ofText source) (s, c)) :
    ofText d source log =
      finish d (steps d c.ahead.length (s, c)).1 (steps d c.ahead.length (s, c)).2 := by
  obtain ⟨m, hm, hsame⟩ := h source.length (Nat.le_refl _)
  rw [ofText, hsame, steps_enough hd hm (Nat.le_refl _)]

/-- Where a source has a quoted stretch its scan comes to the end of the string with the string in
hand. Another source, the same but for the stretch, is scanned to the same state but for the string. -/
private theorem leads_closing (hd : d.isValid = true) (hquoted : Quoted d log u q v w)
    (hquote : q ∉ v') (hplain : '\\' ∉ v')
    (hbrings : BringsNone d u q (v ++ q :: w) (v' ++ q :: w)) :
    ∃ pending done opened now,
      q ≠ '\\' ∧
      Leads d ({ log }, Cursor.ofText (u ++ q :: (v ++ q :: w)))
        (⟨.code, none, q :: (v.reverse ++ q :: pending), done, opened, now⟩,
          ⟨q :: (v.reverse ++ q :: u.reverse), w⟩) ∧
      Leads d ({ log }, Cursor.ofText (u ++ q :: (v' ++ q :: w)))
        (⟨.code, none, q :: (v'.reverse ++ q :: pending), done, opened, now⟩,
          ⟨q :: (v'.reverse ++ q :: u.reverse), w⟩) := by
  obtain ⟨⟨⟨mode, quote, pending, done, opened, now⟩, c⟩, hhere, hcursor, hmode, hnone, hopen,
    hclosed⟩ := hquoted
  dsimp only at hcursor hmode hnone hopen hclosed
  subst hcursor hmode hnone
  -- the quote is taken, and opens the string, whatever comes after it
  have hopens := hopen 0 (Nat.zero_le _)
  have hahead := ahead?_opening hd hopens
  have hstep : step d ⟨.code, none, pending, done, opened, now⟩ ⟨u.reverse, q :: (v ++ q :: w)⟩ = _ :=
    step_quote hd hahead
  have hquoteStep : quoteStep u.reverse none q = some q := by
    rw [steps, hstep] at hopens
    exact hopens
  have hahead' : d.ahead? (q :: (v' ++ q :: w)) = none := by
    have hsame := ahead?_before hd List.nil_suffix hbrings (z := v ++ q :: w)
      (by simp [hahead])
    rw [List.nil_append, List.nil_append, hahead] at hsame
    exact hsame
  have hstep' : step d ⟨.code, none, pending, done, opened, now⟩
      ⟨u.reverse, q :: (v' ++ q :: w)⟩ = _ := step_quote hd hahead'
  rw [hquoteStep] at hstep hstep'
  rw [hstep] at hopen hclosed
  have hq := ne_backslash hquoteStep
  obtain ⟨k, hk⟩ := exists_steps_of_visits hhere
  refine ⟨pending, done, opened, now, hq, ?_, ?_⟩
  · have hto := leads_steps hd k ({ log }, Cursor.ofText (u ++ q :: (v ++ q :: w)))
    rw [hk] at hto
    have hone := leads_step hd (by simp) hstep
    exact (hto.trans hone).trans (leads_closed hd hopen hclosed)
  · have hto : Leads d ({ log }, ⟨[], u ++ q :: (v' ++ q :: w)⟩) _ :=
      leads_before hd hbrings k (List.suffix_refl u) (by rw [List.append_nil]; exact hk)
    have hone := leads_step hd (by simp) hstep'
    rw [List.append_nil] at hto
    exact (hto.trans hone).trans (leads_string hd hq hquote hplain)

/-- Text in a string of code does not matter to the scan. Exchange the text between the quotes of a
string, as the scan tracks them, for one without that quote and without backslashes, and let this
bring up no delimiter over the opening quote. Then the scan comes to the same pieces but for the
exchanged text, reports the same but for the places, and succeeds or fails as before. -/
theorem scan_exchange_quoted (hd : d.isValid = true) (hquoted : Quoted d log u q v w) (hquote : q ∉ v')
    (hplain : '\\' ∉ v') (hbrings : BringsNone d u q (v ++ q :: w) (v' ++ q :: w)) (template : String) :
    let source := u ++ q :: (v ++ q :: w)
    let source' := u ++ q :: (v' ++ q :: w)
    let pieces := (ofText d source log).pieces
    let pieces' := (ofText d source' log).pieces
    Piece.SameBut v v' pieces pieces' ∧
      (scan d source' template log).2.unplaced = (scan d source template log).2.unplaced ∧
      ((scan d source template log).1 = .ok pieces ∧
          (scan d source' template log).1 = .ok pieces' ∨
        ∃ place place',
          (scan d source template log).1 = .error (.unterminatedCode template d.stop place) ∧
            (scan d source' template log).1 =
              .error (.unterminatedCode template d.stop place')) := by
  intro source source' pieces pieces'
  obtain ⟨pending, done, opened, now, hq, hleads, hleads'⟩ :=
    leads_closing hd hquoted hquote hplain hbrings
  let closing : Scan × Cursor := (⟨.code, none, q :: (v.reverse ++ q :: pending), done, opened, now⟩,
    ⟨q :: (v.reverse ++ q :: u.reverse), w⟩)
  let closing' : Scan × Cursor :=
    (⟨.code, none, q :: (v'.reverse ++ q :: pending), done, opened, now⟩,
      ⟨q :: (v'.reverse ++ q :: u.reverse), w⟩)
  have habreast : Abreast (q :: (v.reverse ++ q :: pending)) (q :: (v'.reverse ++ q :: pending)) done
      closing.1 closing'.1 := .inside (a := []) rfl
  have hsame : Abreast (q :: (v.reverse ++ q :: pending)) (q :: (v'.reverse ++ q :: pending)) done
      (steps d w.length closing).1 (steps d w.length closing').1 :=
    abreast_steps (by simpa using hq) (by simpa using hq) w.length (a := []) habreast
  obtain ⟨hpieces, hlog, hopen⟩ :=
    abreast_finish (d := d) hsame (steps d w.length closing).2 (steps d w.length closing').2
  have htext : ofText d source log = _ := ofText_of_leads hd hleads
  have htext' : ofText d source' log = _ := ofText_of_leads hd hleads'
  rw [← htext, ← htext'] at hpieces hlog hopen
  refine ⟨hpieces, ?_, ?_⟩
  · rw [scan_eq, scan_eq]
    exact hlog
  · rw [scan_eq, scan_eq, hopen]
    cases (ofText d source log).done.head?.any Piece.isOpen with
    | false => exact Or.inl ⟨rfl, rfl⟩
    | true => exact Or.inr ⟨_, _, rfl, rfl⟩

/-- A string that comes to hold the stop delimiter, the other quote and a line break, at the end of a
region that is closed and followed by another one that is not. -/
theorem scan_exchange_quoted_standard :
    let u : Text := "a<$ x = ".toList
    let v : Text := "b\\\"".toList
    let v' : Text := "$> <$ '\n".toList
    let w : Text := " $> $> c <$ d".toList
    (Delimiters.standard.isValid = true ∧ Quoted .standard ⟨3, none, []⟩ u '"' v w ∧ '"' ∉ v' ∧
        '\\' ∉ v' ∧ BringsNone .standard u '"' (v ++ '"' :: w) (v' ++ '"' :: w)) ∧
      Piece.SameBut v v' (ofText .standard (u ++ '"' :: (v ++ '"' :: w)) ⟨3, none, []⟩).pieces
        (ofText .standard (u ++ '"' :: (v' ++ '"' :: w)) ⟨3, none, []⟩).pieces := by
  intro u v v' w
  have hquoted : Quoted .standard ⟨3, none, []⟩ u '"' v w := by decide +kernel
  have hquote : '"' ∉ v' := by decide
  have hplain : '\\' ∉ v' := by decide
  have hbrings : BringsNone .standard u '"' (v ++ '"' :: w) (v' ++ '"' :: w) := by
    apply bringsNone_of_last
    rintro delimiter (rfl | rfl) <;> decide
  exact ⟨⟨by decide, hquoted, hquote, hplain, hbrings⟩,
    (scan_exchange_quoted (by decide) hquoted hquote hplain hbrings "T").1⟩

/-- A delimiter with a quote in it can come up over the opening quote. The string is none then. -/
theorem scan_delimiter_brought_up :
    let d : Delimiters := ⟨"<$".toList, "'>".toList⟩
    let source : Text := "<$ 'a' '>".toList
    let source' : Text := "<$ '>' '>".toList
    (d.isValid = true ∧ Quoted d ⟨3, none, []⟩ "<$ ".toList '\'' "a".toList " '>".toList ∧
        '\'' ∉ ">".toList ∧ '\\' ∉ ">".toList) ∧
      (scan d source "T" ⟨3, none, []⟩).1 = .ok [.code " 'a' ".toList true] ∧
      (scan d source' "T" ⟨3, none, []⟩).1 =
        .ok [.code " ".toList true, .literal "' '>".toList] := by
  decide +kernel

end Scan

end Stencil
