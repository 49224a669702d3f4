import Stencil.Proofs.Scan.Documents
import Stencil.Proofs.Text.Bytes
/-!
# Escaping literal text

Literal text is written with a backslash before each delimiter in it, the text being read from left
to right and the longer delimiter preferred. Scanning takes the backslashes away again. Where the
delimiters overlap in the text, an inserted backslash must not let another delimiter come up: it
cannot, since no delimiter has a backslash in it.
-/
namespace Stencil

namespace Delimiters

/-- The delimiter that a text begins with: of two, the longer one. -/
def ahead? (d : Delimiters) (t : Text) : Option Text :=
  match d.start.isPrefixOf t, d.stop.isPrefixOf t with
  | true, true => some (if d.start.length < d.stop.length then d.stop else d.start)
  | true, false => some d.start
  | false, true => some d.stop
  | false, false => none

/-- Put a backslash before each delimiter of a text, a number of its characters being passed over
first. -/
def escapeFrom (d : Delimiters) : Nat → Text → Text
  | _, [] => []
  | pending + 1, c :: cs => c :: escapeFrom d pending cs
  | 0, c :: cs =>
    match d.ahead? (c :: cs) with
    | none => c :: escapeFrom d 0 cs
    | some found => '\\' :: c :: escapeFrom d (found.length - 1) cs

/-- A text with a backslash before each delimiter in it. -/
def escape (d : Delimiters) (t : Text) : Text := d.escapeFrom 0 t

variable {d : Delimiters} {t w : Text}

theorem ahead?_eq_none : d.ahead? t = none ↔ ∀ v, d.Has v → ¬ v <+: t := by
  unfold ahead?
  constructor
  · intro h v hv hp
    rw [← List.isPrefixOf_iff_prefix] at hp
    rcases hv with rfl | rfl <;> split at h <;> simp_all
  · intro h
    have hstart := h d.start (Or.inl rfl)
    have hstop := h d.stop (Or.inr rfl)
    rw [← List.isPrefixOf_iff_prefix, Bool.not_eq_true] at hstart hstop
    rw [hstart, hstop]

/-- Of two delimiters that the same text begins with, the longer one is ahead. -/
theorem ahead?_eq_some (hd : d.isValid = true) :
    d.ahead? t = some w ↔ d.Has w ∧ w <+: t ∧ ∀ v, d.Has v → v <+: t → v <+: w := by
  have hne := (isValid_iff.mp hd).2.2
  constructor
  · intro h
    have hor : d.Has w ∧ w <+: t := by
      unfold ahead? at h
      split at h <;> simp only [Option.some.injEq, reduceCtorEq] at h
      · rename_i h1 h2
        rw [List.isPrefixOf_iff_prefix] at h1 h2
        split at h
        · exact ⟨Or.inr h.symm, h ▸ h2⟩
        · exact ⟨Or.inl h.symm, h ▸ h1⟩
      · rename_i h1 _
        exact ⟨Or.inl h.symm, h ▸ List.isPrefixOf_iff_prefix.mp h1⟩
      · rename_i _ h2
        exact ⟨Or.inr h.symm, h ▸ List.isPrefixOf_iff_prefix.mp h2⟩
    refine ⟨hor.1, hor.2, ?_⟩
    intro v hv hp
    apply List.prefix_of_prefix_length_le hp hor.2
    by_cases heq : v = w
    · exact Nat.le_of_eq (congrArg List.length heq)
    · -- both delimiters lie ahead, and the other one was not preferred
      have hboth : d.start.isPrefixOf t = true ∧ d.stop.isPrefixOf t = true := by
        rw [List.isPrefixOf_iff_prefix, List.isPrefixOf_iff_prefix]
        rcases hv with rfl | rfl <;> rcases hor.1 with rfl | rfl <;> simp_all
      rw [ahead?, hboth.1, hboth.2] at h
      simp only [Option.some.injEq] at h
      split at h <;> rcases hv with rfl | rfl <;> simp_all
      omega
  · intro h
    obtain ⟨hw, hp, hlongest⟩ := h
    have hprefix := List.isPrefixOf_iff_prefix.mpr hp
    rcases hw with rfl | rfl
    · cases hstop : d.stop.isPrefixOf t with
      | false => rw [ahead?, hprefix, hstop]
      | true =>
          have hshort := hlongest d.stop (Or.inr rfl) (List.isPrefixOf_iff_prefix.mp hstop)
          have hle := hshort.length_le
          rw [ahead?, hprefix, hstop]
          simp only [Option.some.injEq]
          rw [if_neg (by omega)]
    · cases hstart : d.start.isPrefixOf t with
      | false => rw [ahead?, hprefix, hstart]
      | true =>
          have hshort := hlongest d.start (Or.inl rfl) (List.isPrefixOf_iff_prefix.mp hstart)
          have hlt : d.start.length < d.stop.length := by
            have hle := hshort.length_le
            by_cases heq : d.start.length = d.stop.length
            · exact absurd (hshort.eq_of_length heq) hne
            · omega
          rw [ahead?, hprefix, hstart]
          simp only [Option.some.injEq]
          rw [if_pos hlt]

/-! ## The escaped text -/

theorem escapeFrom_pass (n : Nat) (t : Text) :
    d.escapeFrom n t = t.take n ++ d.escape (t.drop n) := by
  induction n generalizing t with
  | zero => rfl
  | succ n ih =>
      cases t with
      | nil => rfl
      | cons c cs => simp [escapeFrom, ih]

theorem escape_cons {c : Char} (h : d.ahead? (c :: t) = none) :
    d.escape (c :: t) = c :: d.escape t := by
  rw [escape, escapeFrom, h]
  rfl

theorem escape_append (hd : d.isValid = true) (h : d.ahead? (w ++ t) = some w) :
    d.escape (w ++ t) = '\\' :: (w ++ d.escape t) := by
  obtain ⟨c, body, rfl⟩ :=
    List.exists_cons_of_ne_nil (((ahead?_eq_some hd).mp h).1.ne_nil hd)
  rw [List.cons_append] at h
  rw [escape, List.cons_append, escapeFrom, h]
  simp [escapeFrom_pass]

/-- The text that an escaped text begins with, up to the first backslash, was there before. -/
theorem prefix_of_prefix_escapeFrom {n : Nat} (hw : '\\' ∉ w) (h : w <+: d.escapeFrom n t) :
    w <+: t := by
  induction t generalizing n w with
  | nil =>
      cases n <;> simpa [escapeFrom] using h
  | cons c cs ih =>
      cases w with
      | nil => exact List.nil_prefix
      | cons x w =>
          rw [List.mem_cons, not_or] at hw
          have take {m : Nat} (h : x :: w <+: c :: d.escapeFrom m cs) : x :: w <+: c :: cs := by
            rw [List.cons_prefix_cons] at h ⊢
            exact ⟨h.1, ih hw.2 h.2⟩
          cases n with
          | succ n => exact take h
          | zero =>
              rw [escapeFrom] at h
              split at h
              · exact take h
              · -- the text would begin with the backslash that was put in
                exact absurd (List.cons_prefix_cons.mp h).1.symm hw.1

end Delimiters

namespace Scan

open Delimiters

variable {d : Delimiters} {t : Text}

/-! ## Delimiters ahead -/

/-- Of two texts that begin the same text, the one with more bytes is the longer one. -/
private theorem byteLength_lt {v w : Text} (hv : v <+: t) (hw : w <+: t) :
    v.byteLength < w.byteLength ↔ v.length < w.length := by
  rcases List.prefix_or_prefix_of_prefix hv hw with ⟨r, rfl⟩ | ⟨r, rfl⟩
  · rw [Text.byteLength_append, List.length_append]
    by_cases hr : r = []
    · simp [hr]
    · have hpos := Text.byteLength_pos hr
      have hlength := List.length_pos_iff.mpr hr
      omega
  · rw [Text.byteLength_append, List.length_append]
    omega

/-- The scan prefers the delimiter with more bytes, and so the longer one. -/
theorem longestAhead?_eq (c : Cursor) : longestAhead? c d.start d.stop = d.ahead? c.ahead := by
  unfold longestAhead? ahead? Cursor.startsWith
  cases h1 : d.start.isPrefixOf c.ahead with
  | true =>
      cases h2 : d.stop.isPrefixOf c.ahead with
      | true =>
          have hless := byteLength_lt (List.isPrefixOf_iff_prefix.mp h1)
            (List.isPrefixOf_iff_prefix.mp h2)
          simp only [hless]
          split <;> rfl
      | false => rfl
  | false => cases d.stop.isPrefixOf c.ahead <;> rfl

/-! ## Scanning an escaped text -/

variable {behind rest pending : Text} {done : List Piece} {opened : Nat} {log : Collector}

private theorem step_character {c : Char} (h : d.ahead? (c :: rest) = none) :
    step d ⟨.literal, none, pending, done, opened, log⟩ ⟨behind, c :: rest⟩ =
      (⟨.literal, none, c :: pending, done, opened, log⟩, ⟨c :: behind, rest⟩) := by
  rw [step, stepLiteral, longestAhead?_eq, h]
  rfl

/-- An escaped delimiter takes the place of its backslash. -/
private theorem step_escaped {w : Text} (h : d.ahead? (w ++ rest) = some w)
    (hbehind : behind.head? ≠ some '\\') :
    step d ⟨.literal, none, '\\' :: pending, done, opened, log⟩ ⟨'\\' :: behind, w ++ rest⟩ =
      (⟨.literal, none, w.reverse ++ pending, done, opened, log⟩,
        ⟨w.reverse ++ ('\\' :: behind), rest⟩) := by
  have hescaped : isEscaped ⟨'\\' :: behind, w ++ rest⟩ = true := by
    simpa [isEscaped_eq] using hbehind
  rw [step, stepLiteral, longestAhead?_eq, h]
  dsimp only
  rw [if_pos hescaped, skip_read rfl]
  rfl

/-- No delimiter stands directly after a backslash. -/
def Unescaped (d : Delimiters) (t : Text) : Prop := ∀ v, d.Has v → ¬ '\\' :: v <:+: t

theorem Unescaped.of_append {s : Text} (h : Unescaped d (s ++ t)) : Unescaped d t :=
  fun v hv hi => h v hv (hi.trans (List.suffix_append s t).isInfix)

section Ahead

variable (hplain : ∀ v, d.Has v → '\\' ∉ v)
include hplain

/-- Escaping a text brings up no delimiter before it. -/
private theorem ahead?_before_escape {c : Char} {t : Text} (h : d.ahead? (c :: t) = none) :
    d.ahead? (c :: d.escape t) = none := by
  rw [ahead?_eq_none]
  intro v hv hp
  rw [← escape_cons h] at hp
  exact ahead?_eq_none.mp h v hv (prefix_of_prefix_escapeFrom (hplain v hv) hp)

private theorem ahead?_backslash (hd : d.isValid = true) (t : Text) : d.ahead? ('\\' :: t) = none := by
  rw [ahead?_eq_none]
  intro v hv hp
  obtain ⟨x, v, rfl⟩ := List.exists_cons_of_ne_nil (hv.ne_nil hd)
  rw [List.cons_prefix_cons] at hp
  exact hplain _ hv (by simp [hp.1])

/-- A delimiter is the longest one still where the text after it is escaped. -/
private theorem ahead?_append_escape (hd : d.isValid = true) {w more : Text}
    (h : d.ahead? (w ++ more) = some w) : d.ahead? (w ++ d.escape more) = some w := by
  obtain ⟨hw, -, hlongest⟩ := (ahead?_eq_some hd).mp h
  rw [ahead?_eq_some hd]
  refine ⟨hw, List.prefix_append _ _, ?_⟩
  intro v hv hp
  apply hlongest v hv
  apply prefix_of_prefix_escapeFrom (hplain v hv) (n := w.length)
  rw [escapeFrom_pass]
  simpa using hp

end Ahead

/-- The scan takes an escaped text into the literal in hand, without the backslashes put in. -/
private theorem leads_escape (hd : d.isValid = true) (hplain : ∀ v, d.Has v → '\\' ∉ v) (t : Text)
    (h : Unescaped d (behind.head?.toList ++ t)) :
    ∃ behind', Leads d (⟨.literal, none, pending, done, opened, log⟩, ⟨behind, d.escape t⟩)
      (⟨.literal, none, t.reverse ++ pending, done, opened, log⟩, ⟨behind', []⟩) := by
  induction hn : t.length using Nat.strongRecOn generalizing t behind pending with
  | ind n ih =>
      cases t with
      | nil => exact ⟨behind, .refl _⟩
      | cons c cs =>
          cases hahead : d.ahead? (c :: cs) with
          | none =>
              have hnext : Unescaped d ((c :: behind).head?.toList ++ cs) := h.of_append
              obtain ⟨behind', hmore⟩ := @ih cs.length (by simp [← hn]) (c :: behind) (c :: pending)
                cs hnext rfl
              have hnone := ahead?_before_escape hplain hahead
              rw [escape_cons hahead]
              refine ⟨behind', (leads_step hd (by simp) (step_character hnone)).trans ?_⟩
              simpa using hmore
          | some w =>
              have hspec := (ahead?_eq_some hd).mp hahead
              obtain ⟨hw, ⟨more, hsplit⟩, -⟩ := hspec
              rw [← hsplit] at h hahead hn ⊢
              have hwne := hw.ne_nil hd
              have hbehind : behind.head? ≠ some '\\' := by
                intro hhead
                rw [hhead] at h
                exact h w hw (List.prefix_append ('\\' :: w) more).isInfix
              have hslash := ahead?_backslash hplain hd (w ++ d.escape more)
              have hfound := ahead?_append_escape hplain hd hahead
              have hnext : Unescaped d ((w.reverse ++ '\\' :: behind).head?.toList ++ more) := by
                obtain ⟨init, x, rfl⟩ := (List.eq_nil_or_concat w).resolve_left hwne
                apply Unescaped.of_append (s := behind.head?.toList ++ init)
                simpa using h
              have hlength : more.length < n := by
                have hpos := List.length_pos_iff.mpr hwne
                rw [List.length_append] at hn
                omega
              obtain ⟨behind', hmore⟩ := @ih more.length hlength (w.reverse ++ '\\' :: behind)
                (w.reverse ++ pending) more hnext rfl
              rw [escape_append hd hahead]
              have hone : Leads d (⟨.literal, none, pending, done, opened, log⟩,
                  ⟨behind, '\\' :: (w ++ d.escape more)⟩) _ :=
                leads_step hd (by simp) (step_character hslash)
              have htwo : Leads d (⟨.literal, none, '\\' :: pending, done, opened, log⟩,
                  ⟨'\\' :: behind, w ++ d.escape more⟩) _ :=
                leads_step hd (by simp [hwne]) (step_escaped hfound hbehind)
              refine ⟨behind', (hone.trans htwo).trans ?_⟩
              simpa using hmore

end Scan

/-- Scanning takes away what escaping put in. A text in which no delimiter stands after a backslash,
escaped for a valid pair of delimiters without backslashes, scans to the text itself, as one literal
if it holds anything, and nothing is reported. -/
theorem scan_escape {d : Delimiters} {t : Text} (hd : d.isValid = true)
    (hstart : '\\' ∉ d.start) (hstop : '\\' ∉ d.stop)
    (hbefore_start : ¬ '\\' :: d.start <:+: t) (hbefore_stop : ¬ '\\' :: d.stop <:+: t)
    (template : String) (log : Collector) :
    scan d (d.escape t) template log = (.ok (if t = [] then [] else [.literal t]), log) := by
  have hplain : ∀ v, d.Has v → '\\' ∉ v := by
    rintro v (rfl | rfl)
    · exact hstart
    · exact hstop
  have hunescaped : Scan.Unescaped d t := by
    rintro v (rfl | rfl)
    · exact hbefore_start
    · exact hbefore_stop
  obtain ⟨behind, hleads⟩ : ∃ behind, Scan.Leads d (⟨.literal, none, [], [], 0, log⟩,
      ⟨[], d.escape t⟩) (⟨.literal, none, t.reverse ++ [], [], 0, log⟩, ⟨behind, []⟩) :=
    Scan.leads_escape hd hplain t hunescaped
  have hend := hleads.end rfl
  have htext : Scan.ofText d (d.escape t) log =
      Scan.closeLiteral ⟨.literal, none, t.reverse ++ [], [], 0, log⟩ := by
    rw [Scan.ofText]
    dsimp only [Cursor.ofText]
    rw [hend]
    rfl
  unfold scan
  rw [htext]
  by_cases ht : t = []
  · simp [ht, Scan.closeLiteral, Scan.pieces]
  · simp [ht, Scan.closeLiteral, Scan.pieces]

/-- Delimiters that overlap in the text, one of them beginning with the other: only those that are
read from left to right get a backslash. -/
theorem scan_escape_overlapping :
    let d : Delimiters := ⟨"ab".toList, "aba".toList⟩
    let t : Text := "abababa 'ab\\".toList
    (d.isValid = true ∧ '\\' ∉ d.start ∧ '\\' ∉ d.stop ∧ ¬ '\\' :: d.start <:+: t ∧
        ¬ '\\' :: d.stop <:+: t) ∧
      d.escape t = "\\abab\\aba '\\ab\\".toList ∧
      scan d (d.escape t) "T" ⟨3, none, []⟩ = (.ok [.literal t], ⟨3, none, []⟩) := by
  intro d t
  have hfits : d.isValid = true ∧ '\\' ∉ d.start ∧ '\\' ∉ d.stop ∧ ¬ '\\' :: d.start <:+: t ∧
      ¬ '\\' :: d.stop <:+: t := by decide +kernel
  obtain ⟨hd, hstart, hstop, hbefore_start, hbefore_stop⟩ := hfits
  exact ⟨⟨hd, hstart, hstop, hbefore_start, hbefore_stop⟩, by decide,
    scan_escape hd hstart hstop hbefore_start hbefore_stop "T" ⟨3, none, []⟩⟩

end Stencil
