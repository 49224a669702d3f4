import Stencil.Proofs.Mask.Lexing
import Stencil.Proofs.Scan.Documents
import Mathlib.Data.List.GetD
/-!
# Strings as the scan and the mask see them

The mask passes over a backslash together with the character after it. The scan looks back instead,
and no further than two characters: a quote is escaped when exactly one backslash stands behind it. So
the two find the same strings as long as no string holds its own quote after three, five or more
backslashes.
-/
namespace Stencil

namespace Tile

def isLong : Tile → Bool
  | literal ('[' :: _) => true
  | _ => false

/-- For each character of the tile, the quote that is open before it: none at the opening quote of a
string, then the string's own up to its closing quote. -/
def openQuotes : Tile → List (Option Char)
  | literal (quote :: body) => none :: List.replicate body.length (some quote)
  | x => List.replicate x.text.length none

/-- Whether every quote of a kind that backslashes escape stands after one backslash only, a number of
backslashes coming before the text. -/
def escapesSingly (quote : Char) : Nat → Text → Bool
  | _, [] => true
  | count, c :: cs =>
    if c = '\\' then escapesSingly quote (count + 1) cs
    else (c != quote || count == 1 || count % 2 == 0) && escapesSingly quote 0 cs

/-- Whether the tile, if it is a string, holds its own quote after one backslash only. -/
def isSinglyEscaped : Tile → Bool
  | literal (quote :: body) => escapesSingly quote 0 body
  | _ => true

end Tile

/-- For each character of a code fragment, the quote that the mask finds open before it. -/
def openQuotes (t : Text) : List (Option Char) := (tiles t).flatMap Tile.openQuotes

/-- A code fragment whose quotes can be told without its delimiters: no comments and long brackets,
every string closed, backslashes in strings only, and no delimiter that begins where no string is
open. -/
structure Quotable (d : Delimiters) (t rest : Text) : Prop where
  code : ∀ x ∈ tiles t, x.isComment = false
  short : ∀ x ∈ tiles t, x.isLong = false
  closed : ∀ x ∈ tiles t, x.isClosed = true
  bare : .plain '\\' ∉ tiles t
  outside : ∀ k < t.length, (openQuotes t).getD k none = none →
    ¬ d.start <+: t.drop k ++ rest ∧ ¬ d.stop <+: t.drop k ++ rest

instance (d : Delimiters) (t rest : Text) : Decidable (Quotable d t rest) :=
  decidable_of_iff ((∀ x ∈ tiles t, x.isComment = false) ∧ (∀ x ∈ tiles t, x.isLong = false) ∧
      (∀ x ∈ tiles t, x.isClosed = true) ∧ .plain '\\' ∉ tiles t ∧
      ∀ k < t.length, (openQuotes t).getD k none = none →
        ¬ d.start <+: t.drop k ++ rest ∧ ¬ d.stop <+: t.drop k ++ rest)
    ⟨fun h => ⟨h.1, h.2.1, h.2.2.1, h.2.2.2.1, h.2.2.2.2⟩,
      fun h => ⟨h.code, h.short, h.closed, h.bare, h.outside⟩⟩

namespace Scan

variable {d : Delimiters} {behind near t rest pending : Text} {done : List Piece} {opened n : Nat}
  {log : Collector} {quote quote' : Option Char} {flags : List (Option Char)} {c q : Char}

/-- The scan takes a fragment of code character by character, with these quotes open. Neither the
pieces done nor the log change. -/
def Reads (d : Delimiters) (flags : List (Option Char)) (s : Scan) (behind t rest : Text) : Prop :=
  ∀ k ≤ t.length, steps d k (s, ⟨behind, t ++ rest⟩) =
    ({ s with quote := flags.getD k none, pending := (t.take k).reverse ++ s.pending },
      ⟨(t.take k).reverse ++ behind, t.drop k ++ rest⟩)

/-! ## One character -/

private theorem reads_nil :
    Reads d [] ⟨.code, none, pending, done, opened, log⟩ behind [] rest := by
  intro k hk
  obtain rfl : k = 0 := Nat.le_zero.mp hk
  rfl

private theorem Reads.quote_eq {s : Scan} (h : Reads d flags s behind t rest) :
    s.quote = flags.getD 0 none :=
  congrArg (fun here => here.1.quote) (h 0 (Nat.zero_le _))

private theorem reads_cons
    (hstep : step d ⟨.code, quote, pending, done, opened, log⟩ ⟨behind, c :: (t ++ rest)⟩ =
      (⟨.code, quote', c :: pending, done, opened, log⟩, ⟨c :: behind, t ++ rest⟩)) :
    Reads d (quote :: flags) ⟨.code, quote, pending, done, opened, log⟩ behind (c :: t) rest ↔
      Reads d flags ⟨.code, quote', c :: pending, done, opened, log⟩ (c :: behind) t rest := by
  have hsteps (k : Nat) : steps d (k + 1)
      (⟨.code, quote, pending, done, opened, log⟩, ⟨behind, c :: (t ++ rest)⟩) =
        steps d k (⟨.code, quote', c :: pending, done, opened, log⟩, ⟨c :: behind, t ++ rest⟩) := by
    rw [steps, if_neg (by simp [Cursor.atEnd]), hstep]
  constructor
  · intro h k hk
    have hmore := h (k + 1) (Nat.succ_le_succ hk)
    rw [List.cons_append, hsteps] at hmore
    simpa using hmore
  · intro h k hk
    cases k with
    | zero => rfl
    | succ k =>
        have hmore := h k (Nat.le_of_succ_le_succ hk)
        rw [List.cons_append, hsteps, hmore]
        simp

/-- Outside strings a character is taken where no delimiter begins. -/
private theorem step_outside (hbehind : behind.head? ≠ some '\\')
    (houtside : ¬ d.start <+: c :: rest ∧ ¬ d.stop <+: c :: rest) :
    step d ⟨.code, none, pending, done, opened, log⟩ ⟨behind, c :: rest⟩ =
      (⟨.code, if c = '\'' ∨ c = '"' then some c else none, c :: pending, done, opened, log⟩,
        ⟨c :: behind, rest⟩) := by
  have hnone : longestAhead? ⟨behind, c :: rest⟩ d.stop d.start = none := by
    rw [longestAhead?, Cursor.startsWith, Cursor.startsWith,
      Bool.eq_false_iff.mpr (fun h => houtside.2 (List.isPrefixOf_iff_prefix.mp h)),
      Bool.eq_false_iff.mpr (fun h => houtside.1 (List.isPrefixOf_iff_prefix.mp h))]
  simp only [step, stepCode, hnone, isEscaped_of_head hbehind, Cursor.peek, List.head?_cons]
  by_cases hquote : c = '\'' ∨ c = '"' <;>
    simp [hquote, Option.filter, take, Cursor.peek, Cursor.advance, Cursor.skip]

/-! ## One string -/

private theorem isEscaped_run (h : near.head? ≠ some '\\') (n : Nat) :
    isEscaped ⟨List.replicate n '\\' ++ near, []⟩ = (n == 1) := by
  rw [isEscaped_append h]
  match n with
  | 0 => rfl
  | 1 => rfl
  | n + 2 => simp [isEscaped_eq, List.replicate_succ]

private theorem reads_kept (hc : c = q → isEscaped ⟨behind, []⟩ = true) :
    Reads d (some q :: flags) ⟨.code, some q, pending, done, opened, log⟩ behind (c :: t) rest ↔
      Reads d flags ⟨.code, some q, c :: pending, done, opened, log⟩ (c :: behind) t rest := by
  refine reads_cons ?_
  rw [step_inside, if_neg]
  rintro ⟨heq, hescaped⟩
  rw [hc heq] at hescaped
  simp at hescaped

private theorem reads_closing (hescaped : isEscaped ⟨behind, []⟩ = false) :
    Reads d (some q :: flags) ⟨.code, some q, pending, done, opened, log⟩ behind (q :: t) rest ↔
      Reads d flags ⟨.code, none, q :: pending, done, opened, log⟩ (q :: behind) t rest := by
  refine reads_cons ?_
  rw [step_inside, if_pos ⟨rfl, hescaped⟩]

/-- A string that the scan ends too early is not read with the mask's quotes. -/
private theorem not_reads_closed {body : Text} (hbody : body ≠ []) :
    ¬ Reads d (List.replicate body.length (some q) ++ flags)
      ⟨.code, none, pending, done, opened, log⟩ behind (body ++ t) rest := by
  intro h
  obtain ⟨c, cs, rfl⟩ := List.exists_cons_of_ne_nil hbody
  have hquote := h.quote_eq
  simp [List.replicate_succ] at hquote

/-- A closed string ends with its quote. -/
private theorem getLast?_closed (hq : q ≠ '\\') {body : Text}
    (hclosed : Tile.closesQuote q body = true) (hlength : body.length ≤ Tile.quotedLength q body) :
    body.getLast? = some q := by
  induction body using Tile.closesQuote.induct q with
  | case1 => simp [Tile.closesQuote] at hclosed
  | case2 => simp [Tile.closesQuote] at hclosed
  | case3 c cs ih =>
      have hlast := ih hclosed (by simpa [Tile.quotedLength] using hlength)
      simp [List.getLast?_cons, hlast]
  | case4 cs => simp [Tile.closesQuote_cons] at hclosed
  | case5 cs hend hescape hline =>
      rw [Tile.quotedLength_cons hq, if_neg hline, if_pos rfl] at hlength
      obtain rfl : cs = [] := List.length_eq_zero_iff.mp (by simpa using hlength)
      rfl
  | case6 c cs hend hescape hline hne ih =>
      have hslash := Tile.not_escape hend hescape
      rw [Tile.closesQuote_cons hslash, if_neg hline, if_neg hne] at hclosed
      rw [Tile.quotedLength_cons hslash, if_neg hline, if_neg hne] at hlength
      simp [List.getLast?_cons, ih hclosed (by simpa using hlength)]

/-- The rest of a string, an even number of backslashes standing behind. The scan comes to its end
with the mask exactly where no quote of it is escaped by three or more backslashes. -/
private theorem reads_body (hq : q ≠ '\\') {body : Text}
    (hclosed : Tile.closesQuote q body = true) (hlength : body.length ≤ Tile.quotedLength q body)
    (hnear : near.head? ≠ some '\\') (hn : n % 2 = 0) :
    Reads d (List.replicate body.length (some q) ++ flags)
        ⟨.code, some q, pending, done, opened, log⟩ (List.replicate n '\\' ++ near) (body ++ t)
        rest ↔
      Tile.escapesSingly q n body = true ∧
        Reads d flags ⟨.code, none, body.reverse ++ pending, done, opened, log⟩
          (body.reverse ++ (List.replicate n '\\' ++ near)) t rest := by
  induction body using Tile.closesQuote.induct q generalizing near n pending with
  | case1 => simp [Tile.closesQuote] at hclosed
  | case2 => simp [Tile.closesQuote] at hclosed
  | case3 c cs ih =>
      rw [Tile.closesQuote] at hclosed
      have hcs : cs ≠ [] := by
        rintro rfl
        simp [Tile.closesQuote] at hclosed
      have hcslength : cs.length ≤ Tile.quotedLength q cs := by
        simpa [Tile.quotedLength] using hlength
      have hrun := isEscaped_run hnear (n + 1)
      rw [List.replicate_succ, List.cons_append] at hrun
      simp only [List.length_cons, List.replicate_succ, List.cons_append]
      rw [reads_kept (fun h => absurd h.symm hq)]
      by_cases hslash : c = '\\'
      · subst hslash
        have hmore := @ih near ('\\' :: '\\' :: pending) (n + 2) hclosed hcslength hnear (by omega)
        rw [reads_kept (fun h => absurd h.symm hq)]
        simpa [List.replicate_succ, Tile.escapesSingly] using hmore
      · have hhead : (c :: ('\\' :: (List.replicate n '\\' ++ near))).head? ≠ some '\\' := by
          simpa using hslash
        have hmore := @ih _ (c :: '\\' :: pending) 0 hclosed hcslength hhead rfl
        by_cases heq : c = q ∧ n ≠ 0
        · obtain ⟨rfl, hzero⟩ := heq
          have hodd : (n + 1) % 2 ≠ 0 := by omega
          rw [reads_closing (by rw [hrun]; simpa using hzero)]
          refine iff_of_false (not_reads_closed hcs) ?_
          simp [Tile.escapesSingly, hslash, hzero, hodd]
        · have hescape : c = q → n = 0 := fun h => of_not_not fun hzero => heq ⟨h, hzero⟩
          have hsingly : Tile.escapesSingly q n ('\\' :: c :: cs) = Tile.escapesSingly q 0 cs := by
            by_cases h : c = q
            · simp [Tile.escapesSingly, hslash, hescape h]
            · simp [Tile.escapesSingly, hslash, h]
          rw [reads_kept (fun h => by rw [hrun]; simp [hescape h]), hsingly]
          simpa using hmore
  | case4 cs => simp [Tile.closesQuote_cons] at hclosed
  | case5 cs hend hescape hline =>
      rw [Tile.quotedLength_cons hq, if_neg hline, if_pos rfl] at hlength
      obtain rfl : cs = [] := List.length_eq_zero_iff.mp (by simpa using hlength)
      have hrun := isEscaped_run hnear n
      have hone : (n == 1) = false := by simpa using fun h : n = 1 => by omega
      simp only [List.length_singleton, List.replicate_one, List.singleton_append]
      rw [reads_closing (by rw [hrun, hone])]
      simp [Tile.escapesSingly, hq, hn]
  | case6 c cs hend hescape hline hne ih =>
      have hslash := Tile.not_escape hend hescape
      rw [Tile.closesQuote_cons hslash, if_neg hline, if_neg hne] at hclosed
      rw [Tile.quotedLength_cons hslash, if_neg hline, if_neg hne] at hlength
      have hhead : (c :: (List.replicate n '\\' ++ near)).head? ≠ some '\\' := by
        simpa using hslash
      have hmore := @ih _ (c :: pending) 0 hclosed (by simpa using hlength) hhead rfl
      simp only [List.length_cons, List.replicate_succ, List.cons_append]
      rw [reads_kept (fun h => absurd h hne)]
      simpa [Tile.escapesSingly, hslash, hne] using hmore

end Scan

/-! ## Whole fragments -/

@[simp] theorem Tile.length_openQuotes (x : Tile) : x.openQuotes.length = x.text.length := by
  unfold openQuotes
  split <;> simp [text]

/-- What is left of a fragment after its first tile. -/
private theorem Quotable.tail {d : Delimiters} {c : Char} {body more rest : Text}
    (ht : (Tile.first c (body ++ more)).text = c :: body)
    (h : Quotable d (c :: (body ++ more)) rest) : Quotable d more rest := by
  have hcons := Tile.tiles_cons ht
  obtain ⟨hcode, hshort, hclosed, hbare, houtside⟩ := h
  rw [openQuotes, hcons] at houtside
  rw [hcons] at hcode hshort hclosed hbare
  refine ⟨fun x hx => hcode x (List.mem_cons_of_mem _ hx),
    fun x hx => hshort x (List.mem_cons_of_mem _ hx),
    fun x hx => hclosed x (List.mem_cons_of_mem _ hx),
    fun hmem => hbare (List.mem_cons_of_mem _ hmem), fun k hk hnone => ?_⟩
  have hlength : (Tile.first c (body ++ more)).openQuotes.length = body.length + 1 := by simp [ht]
  have hdrop : (c :: (body ++ more)).drop (body.length + 1 + k) = more.drop k := by
    rw [← List.cons_append, ← List.drop_drop, List.drop_left' (by simp)]
  have hlater := houtside (body.length + 1 + k) (by simp; omega)
    (by rw [List.flatMap_cons, List.getD_append_right _ _ _ _ (by omega), hlength,
      Nat.add_sub_cancel_left]; exact hnone)
  rwa [hdrop] at hlater

namespace Scan

private theorem length_le_quotedLength {c : Char} (hq : c = '\'' ∨ c = '"') {cs : Text}
    (h : Tile.closesQuote c (cs.take (Tile.quotedLength c cs)) = true) :
    (cs.take (Tile.quotedLength c cs)).length ≤
      Tile.quotedLength c (cs.take (Tile.quotedLength c cs)) := by
  obtain ⟨q, body, ht, hbody⟩ := Tile.standing_quoted hq h
  obtain ⟨rfl, rfl⟩ := List.cons.inj ht
  have hfirst := hbody []
  rw [List.append_nil, Tile.first_quoted hq, Tile.literal.injEq, List.cons.injEq] at hfirst
  have hlength := congrArg List.length hfirst.2
  rw [List.length_take] at hlength
  omega

private theorem reads_tiles {d : Delimiters} {rest : Text} {done : List Piece} {opened : Nat}
    {log : Collector} (t : Text) : ∀ {behind pending : Text}, behind.head? ≠ some '\\' →
      Quotable d t rest →
      (Reads d (openQuotes t) ⟨.code, none, pending, done, opened, log⟩ behind t rest ↔
        ∀ x ∈ tiles t, x.isSinglyEscaped = true) := by
  refine Tile.tiles_induct (motive := fun t ts => ∀ {behind pending : Text},
    behind.head? ≠ some '\\' → Quotable d t rest →
      (Reads d (ts.flatMap Tile.openQuotes) ⟨.code, none, pending, done, opened, log⟩ behind t rest ↔
        ∀ x ∈ ts, x.isSinglyEscaped = true)) ?_ ?_ t
  · intro behind pending _ _
    simpa using reads_nil
  · intro c body more ht ih behind pending hbehind h
    have hmore := h.tail ht
    have hcons := Tile.tiles_cons ht
    obtain ⟨hcode, hshort, hclosed, hbare, houtside⟩ := h
    rw [openQuotes, hcons] at houtside
    rw [hcons] at hcode hshort hclosed hbare
    have hv := Tile.view c (body ++ more)
    generalize Tile.first c (body ++ more) = x at *
    simp only [List.flatMap_cons, List.forall_mem_cons]
    cases hv with
    | plain hlone =>
        obtain rfl : body = [] := (List.cons.inj ht).2.symm
        have hslash : c ≠ '\\' := by
          rintro rfl
          exact hbare List.mem_cons_self
        have hquote : ¬ (c = '\'' ∨ c = '"') := not_or.mpr ⟨hlone.single, hlone.double⟩
        have hrest := @ih (c :: behind) (c :: pending) (by simpa using hslash) hmore
        refine (reads_cons (step_outside hbehind (houtside 0 (by simp) rfl))).trans ?_
        rw [if_neg hquote]
        simpa [Tile.isSinglyEscaped] using hrest
    | quoted hq =>
        have hbody : (body ++ more).take (Tile.quotedLength c (body ++ more)) = body :=
          (List.cons.inj ht).2
        have hquoted := hclosed _ List.mem_cons_self
        rw [Tile.isClosed_quoted hq] at hquoted
        have hlength := length_le_quotedLength hq hquoted
        rw [hbody] at hquoted hlength ⊢
        have hslash : c ≠ '\\' := by
          rcases hq with rfl | rfl <;> decide
        have hnear : (c :: behind).head? ≠ some '\\' := by simpa using hslash
        have hlast : (body.reverse ++ c :: behind).head? ≠ some '\\' := by
          simpa [List.head?_append, getLast?_closed hslash hquoted hlength] using hslash
        refine (reads_cons (step_outside hbehind (houtside 0 (by simp) rfl))).trans ?_
        rw [if_pos hq]
        refine (reads_body (n := 0) hslash hquoted hlength hnear rfl).trans ?_
        exact and_congr Iff.rfl (ih hlast hmore)
    | long _ _ => exact absurd (hshort _ List.mem_cons_self) (by simp [Tile.isLong])
    | longComment _ _ => exact absurd (hcode _ List.mem_cons_self) (by simp [Tile.isComment])
    | lineComment _ _ _ => exact absurd (hcode _ List.mem_cons_self) (by simp [Tile.isComment])
    | slashComment _ _ => exact absurd (hcode _ List.mem_cons_self) (by simp [Tile.isComment])
    | blockComment _ _ => exact absurd (hcode _ List.mem_cons_self) (by simp [Tile.isComment])

/-- The scan and the mask find the same strings exactly where no string holds its own quote after
three, five or more backslashes. Enter a fragment of code with no quote open and no backslash behind:
then after any number of its characters the open quote is the mask's, every character was taken, and
neither the pieces done nor the log have changed. So whatever looks like a delimiter in a string ends
nothing and is not reported. -/
theorem quotes_agree_iff {d : Delimiters} {t rest behind : Text} {s : Scan} (hmode : s.mode = .code)
    (hquote : s.quote = none) (hbehind : behind.head? ≠ some '\\') (h : Quotable d t rest) :
    (∀ k ≤ t.length, steps d k (s, ⟨behind, t ++ rest⟩) =
        ({ s with quote := (openQuotes t).getD k none, pending := (t.take k).reverse ++ s.pending },
          ⟨(t.take k).reverse ++ behind, t.drop k ++ rest⟩)) ↔
      ∀ x ∈ tiles t, x.isSinglyEscaped = true := by
  obtain ⟨mode, quote, pending, done, opened, log⟩ := s
  obtain rfl : mode = .code := hmode
  obtain rfl : quote = none := hquote
  exact reads_tiles t hbehind h

/-- A string with an escaped quote and a stop delimiter in it is read as the mask reads it. -/
theorem quotes_agree_iff_escaped :
    let t : Text := " x = 'it\\'s $>' ".toList
    Quotable .standard t "$>".toList ∧ (∀ x ∈ tiles t, x.isSinglyEscaped = true) ∧
      steps .standard t.length ({ mode := .code, log := ⟨3, none, []⟩ },
          ⟨"$<".toList, t ++ "$>".toList⟩) =
        ({ mode := .code, pending := t.reverse, log := ⟨3, none, []⟩ },
          ⟨t.reverse ++ "$<".toList, "$>".toList⟩) := by
  intro t
  have hfits : Quotable .standard t "$>".toList ∧ ∀ x ∈ tiles t, x.isSinglyEscaped = true := by
    decide +kernel
  have hbehind : "$<".toList.head? ≠ some '\\' := by decide
  have hread := (quotes_agree_iff (s := { mode := .code, log := ⟨3, none, []⟩ }) rfl rfl hbehind
    hfits.1).mpr hfits.2 t.length (Nat.le_refl _)
  have hflag : (openQuotes t).getD t.length none = none := by decide +kernel
  refine ⟨hfits.1, hfits.2, ?_⟩
  rw [hread, hflag]
  simp

/-- After three backslashes the scan takes an escaped quote for the end of its string, and so the stop
delimiter in the string for the end of the code. -/
theorem quotes_disagree :
    let t : Text := " x = '\\\\\\' $>' ".toList
    Quotable .standard t "$>".toList ∧
      (openQuotes t).getD 10 none = some '\'' ∧
      (steps .standard 10 ({ mode := .code, log := ⟨3, none, []⟩ },
        ⟨"$<".toList, t ++ "$>".toList⟩)).1.quote = none ∧
      (scan .standard ("<$".toList ++ t ++ "$>".toList) "T" ⟨3, none, []⟩).1 =
        .ok [.code " x = '\\\\\\' ".toList true, .literal "' $>".toList] := by
  decide +kernel

end Scan

end Stencil
