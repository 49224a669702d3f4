import Stencil.Proofs.Scan.Trace
import Mathlib.Data.List.Basic
/-!
# Scanning what was written

A document is literal text with code in between. Written with a pair of delimiters that its segments
do not touch, it scans to those segments and to nothing else, so the delimiters have no part in what a
document means.
-/
namespace Stencil

/-! ## Quoted strings of code -/

/-- The quote that is open after one more character of code. The characters before it, read backwards,
tell whether it is escaped. -/
def quoteStep (behind : Text) (quote : Option Char) (c : Char) : Option Char :=
  if Scan.isEscaped ⟨behind, []⟩ then quote
  else
    match quote with
    | some q => if c = q then none else some q
    | none => if c = '\'' ∨ c = '"' then some c else none

/-- The quote that is open after a stretch of code. -/
def quoteAfter (behind : Text) (quote : Option Char) : Text → Option Char
  | [] => quote
  | c :: cs => quoteAfter (c :: behind) (quoteStep behind quote c) cs

/-- The characters of a stretch of code outside quoted strings. The quotes themselves are outside. -/
def outsideQuotes (behind : Text) (quote : Option Char) : Text → Text
  | [] => []
  | c :: cs =>
    let next := quoteStep behind quote c
    if quote.isSome && next.isSome then outsideQuotes (c :: behind) next cs
    else c :: outsideQuotes (c :: behind) next cs

/-! ## Documents -/

/-- Literal text, and code segments each with the literal text after it. -/
structure Document where
  first : Text
  rest : List (Text × Text)

namespace Document

def literals (doc : Document) : List Text := doc.first :: doc.rest.map (·.2)

def codes (doc : Document) : List Text := doc.rest.map (·.1)

/-- The text of a document with its code between delimiters. -/
def write (d : Delimiters) (doc : Document) : Text :=
  doc.first ++ doc.rest.flatMap fun segment => d.start ++ (segment.1 ++ (d.stop ++ segment.2))

/-- The literals that hold something and all code segments, in order. -/
def pieces (doc : Document) : List Piece :=
  Scan.pieceOf doc.first true .literal ++
    doc.rest.flatMap fun segment => .code segment.1 true :: Scan.pieceOf segment.2 true .literal

end Document

/-- No character of the text is one of the delimiters'. -/
def Delimiters.Avoids (d : Delimiters) (t : Text) : Prop := ∀ c ∈ t, c ∉ d.start ∧ c ∉ d.stop

/-- A valid pair of delimiters that cannot be mistaken for one another, and without backslashes. -/
structure Delimiters.Distinct (d : Delimiters) : Prop where
  valid : d.isValid = true
  start_stop : ¬ d.start <+: d.stop
  stop_start : ¬ d.stop <+: d.start
  start_plain : '\\' ∉ d.start
  stop_plain : '\\' ∉ d.stop

/-- A literal that delimiters can be put around. -/
structure FitsLiteral (d : Delimiters) (t : Text) : Prop where
  last : t.getLast? ≠ some '\\'
  avoids : d.Avoids t

/-- A code segment that can be put between delimiters. Its quoted strings are closed and may hold
anything. -/
structure FitsCode (d : Delimiters) (t : Text) : Prop where
  last : t.getLast? ≠ some '\\'
  closed : quoteAfter [] none t = none
  avoids : d.Avoids (outsideQuotes [] none t)

/-- All segments of the document fit the delimiters. -/
structure Document.Fits (d : Delimiters) (doc : Document) : Prop where
  literals : ∀ t ∈ doc.literals, FitsLiteral d t
  codes : ∀ t ∈ doc.codes, FitsCode d t

section Decidable

variable (d : Delimiters) (t : Text) (doc : Document)

instance : Decidable (d.Avoids t) := by
  unfold Delimiters.Avoids
  infer_instance

instance : Decidable d.Distinct :=
  decidable_of_iff (d.isValid = true ∧ ¬ d.start <+: d.stop ∧ ¬ d.stop <+: d.start ∧
      '\\' ∉ d.start ∧ '\\' ∉ d.stop)
    ⟨fun h => ⟨h.1, h.2.1, h.2.2.1, h.2.2.2.1, h.2.2.2.2⟩,
      fun h => ⟨h.valid, h.start_stop, h.stop_start, h.start_plain, h.stop_plain⟩⟩

instance : Decidable (FitsLiteral d t) :=
  decidable_of_iff (t.getLast? ≠ some '\\' ∧ d.Avoids t) ⟨fun h => ⟨h.1, h.2⟩, fun h => ⟨h.1, h.2⟩⟩

instance : Decidable (FitsCode d t) :=
  decidable_of_iff (t.getLast? ≠ some '\\' ∧ quoteAfter [] none t = none ∧
      d.Avoids (outsideQuotes [] none t))
    ⟨fun h => ⟨h.1, h.2.1, h.2.2⟩, fun h => ⟨h.1, h.2, h.3⟩⟩

instance : Decidable (doc.Fits d) :=
  decidable_of_iff ((∀ t ∈ doc.literals, FitsLiteral d t) ∧ ∀ t ∈ doc.codes, FitsCode d t)
    ⟨fun h => ⟨h.1, h.2⟩, fun h => ⟨h.1, h.2⟩⟩

end Decidable

namespace Scan

variable {d : Delimiters} {behind rest pending : Text} {done : List Piece} {opened : Nat}
  {log : Collector}

/-! ## From one state of a scan to another -/

/-- With enough steps left, the scan comes by one state to another with enough steps left, and so to
the same end. -/
def Leads (d : Delimiters) (here there : Scan × Cursor) : Prop :=
  ∀ n, here.2.ahead.length ≤ n →
    ∃ m, there.2.ahead.length ≤ m ∧ steps d n here = steps d m there

theorem Leads.refl (here : Scan × Cursor) : Leads d here here := fun n hn => ⟨n, hn, rfl⟩

theorem Leads.trans {a b c : Scan × Cursor} (h : Leads d a b) (h' : Leads d b c) : Leads d a c := by
  intro n hn
  obtain ⟨m, hm, hsame⟩ := h n hn
  obtain ⟨k, hk, hsame'⟩ := h' m hm
  exact ⟨k, hk, hsame.trans hsame'⟩

theorem leads_step (hd : d.isValid = true) {s : Scan} {c : Cursor} {there : Scan × Cursor}
    (h : c.ahead ≠ []) (hstep : step d s c = there) : Leads d (s, c) there := by
  intro n hn
  obtain ⟨w, hw, hconsumed, -⟩ := step_consumes hd s h
  have hlength := congrArg List.length hconsumed
  have hpos := List.length_pos_iff.mpr hw
  rw [List.length_append, hstep] at hlength
  cases n with
  | zero => exact absurd (List.length_eq_zero_iff.mp (Nat.le_zero.mp hn)) h
  | succ n =>
      refine ⟨n, by dsimp only at hn; omega, ?_⟩
      rw [steps, if_neg (by simpa [Cursor.atEnd] using h), hstep]

/-- A scan that leads to the end of its text comes to nothing else. -/
theorem Leads.end {here there : Scan × Cursor} (h : Leads d here there) (hend : there.2.ahead = []) :
    steps d here.2.ahead.length here = there := by
  obtain ⟨m, -, hsame⟩ := h _ (Nat.le_refl _)
  rw [hsame]
  cases m with
  | zero => rfl
  | succ m => rw [steps, if_pos (by simp [Cursor.atEnd, hend])]

/-! ## What stands behind the cursor -/

theorem isEscaped_eq (c : Cursor) : isEscaped c =
    (c.behind.head? == some '\\' && c.behind.tail.head? != some '\\') := by
  obtain ⟨behind, ahead⟩ := c
  unfold isEscaped
  split
  · simp_all
  · rename_i cs hcs h
    cases cs with
    | nil => simp_all
    | cons b bs => simp_all
  · rename_i h h'
    cases behind with
    | nil => simp
    | cons b bs => simp_all

theorem isEscaped_of_head (h : behind.head? ≠ some '\\') (ahead : Text) :
    isEscaped ⟨behind, ahead⟩ = false := by
  simp [isEscaped_eq, h]

/-- How a character is escaped is decided by what stands behind it up to a character that is no
backslash. -/
theorem isEscaped_append (h : behind.head? ≠ some '\\') (near ahead : Text) :
    isEscaped ⟨near ++ behind, ahead⟩ = isEscaped ⟨near, []⟩ := by
  have hbehind : (behind.head? != some '\\') = true := by simpa using h
  match near with
  | [] => simp [isEscaped_eq, h]
  | [c] => simp [isEscaped_eq, hbehind]
  | c :: b :: more => simp [isEscaped_eq]

theorem head?_reverse_append {t : Text} (ht : t.getLast? ≠ some '\\')
    (h : behind.head? ≠ some '\\') : (t.reverse ++ behind).head? ≠ some '\\' := by
  rw [List.head?_append, List.head?_reverse]
  cases hlast : t.getLast? with
  | none => simpa using h
  | some c => simpa [hlast] using ht

theorem getLast?_plain {t : Text} (hplain : '\\' ∉ t) : t.getLast? ≠ some '\\' :=
  fun hlast => hplain (List.mem_of_getLast? hlast)

/-! ## Delimiters ahead -/

private theorem startsWith_cons {t : Text} {c : Char} (hne : t ≠ []) (hc : c ∉ t) :
    Cursor.startsWith ⟨behind, c :: rest⟩ t = false := by
  obtain ⟨x, more, rfl⟩ := List.exists_cons_of_ne_nil hne
  have hx : (x == c) = false := by
    rw [beq_eq_false_iff_ne]
    exact fun heq => hc (heq ▸ List.mem_cons_self)
  rw [Cursor.startsWith, List.isPrefixOf_cons_cons, hx, Bool.false_and]

/-- No delimiter begins with a character that neither of them has. -/
theorem longestAhead?_cons {first second : Text} {c : Char} (hfirst : first ≠ [])
    (hsecond : second ≠ []) (hc : c ∉ first ∧ c ∉ second) :
    longestAhead? ⟨behind, c :: rest⟩ first second = none := by
  simp only [longestAhead?, startsWith_cons hfirst hc.1, startsWith_cons hsecond hc.2]

/-- Of two delimiters, neither the beginning of the other, no more than one lies ahead. -/
theorem longestAhead?_append {first second : Text} (h : ¬ first <+: second) (h' : ¬ second <+: first) :
    longestAhead? ⟨behind, first ++ rest⟩ first second = some first := by
  have hfirst : Cursor.startsWith ⟨behind, first ++ rest⟩ first = true :=
    List.isPrefixOf_iff_prefix.mpr (List.prefix_append ..)
  have hsecond : Cursor.startsWith ⟨behind, first ++ rest⟩ second = false := by
    rw [Cursor.startsWith, ← Bool.not_eq_true, List.isPrefixOf_iff_prefix]
    intro hprefix
    exact (List.prefix_or_prefix_of_prefix (List.prefix_append first rest) hprefix).elim h h'
  simp only [longestAhead?, hfirst, hsecond]

/-! ## Segments -/

/-- A literal is taken as it is. -/
theorem leads_literal (hd : d.isValid = true) {t : Text} (ht : d.Avoids t) (quote : Option Char) :
    Leads d (⟨.literal, quote, pending, done, opened, log⟩, ⟨behind, t ++ rest⟩)
      (⟨.literal, quote, t.reverse ++ pending, done, opened, log⟩, ⟨t.reverse ++ behind, rest⟩) := by
  induction t generalizing pending behind with
  | nil => exact .refl _
  | cons c cs ih =>
      obtain ⟨hc, hcs⟩ := List.forall_mem_cons.mp ht
      have hstep : step d ⟨.literal, quote, pending, done, opened, log⟩ ⟨behind, c :: (cs ++ rest)⟩ =
          (⟨.literal, quote, c :: pending, done, opened, log⟩, ⟨c :: behind, cs ++ rest⟩) := by
        have hne := Delimiters.isValid_iff.mp hd
        rw [step, stepLiteral, longestAhead?_cons hne.1 hne.2.1 hc]
        rfl
      have hone := leads_step hd (by simp) hstep
      have hmore : Leads d (⟨.literal, quote, c :: pending, done, opened, log⟩,
          ⟨c :: behind, cs ++ rest⟩) _ := ih hcs
      simpa using hone.trans hmore

/-- Inside a string every character is taken, and only the string's own quote, not escaped, ends it. -/
theorem step_inside {c q : Char} :
    step d ⟨.code, some q, pending, done, opened, log⟩ ⟨behind, c :: rest⟩ =
      (⟨.code, if c = q ∧ isEscaped ⟨behind, []⟩ = false then none else some q, c :: pending, done,
        opened, log⟩, ⟨c :: behind, rest⟩) := by
  have hescaped : isEscaped ⟨behind, c :: rest⟩ = isEscaped ⟨behind, []⟩ := by simp [isEscaped_eq]
  simp [step, stepQuoted, hescaped, take, Cursor.peek, Cursor.advance, Cursor.skip]

private theorem step_code {c : Char} {near : Text} {quote : Option Char} (hd : d.isValid = true)
    (hbehind : behind.head? ≠ some '\\')
    (hc : quote = none → c ∉ d.start ∧ c ∉ d.stop) :
    step d ⟨.code, quote, pending, done, opened, log⟩ ⟨near ++ behind, c :: rest⟩ =
      (⟨.code, quoteStep near quote c, c :: pending, done, opened, log⟩,
        ⟨c :: (near ++ behind), rest⟩) := by
  have hescaped := isEscaped_append hbehind near (c :: rest)
  cases quote with
  | some q =>
      simp only [step, stepQuoted, hescaped, quoteStep, Cursor.peek, List.head?_cons]
      cases isEscaped ⟨near, []⟩ with
      | true => simp [take, Cursor.peek, Cursor.advance, Cursor.skip]
      | false =>
          by_cases hcq : c = q <;> simp [hcq, take, Cursor.peek, Cursor.advance, Cursor.skip]
  | none =>
      have hne := Delimiters.isValid_iff.mp hd
      simp only [step, stepCode, hescaped, quoteStep, Cursor.peek, List.head?_cons,
        longestAhead?_cons hne.2.1 hne.1 (hc rfl).symm]
      cases isEscaped ⟨near, []⟩ with
      | true => simp [take, Cursor.peek, Cursor.advance, Cursor.skip]
      | false =>
          by_cases hmark : c = '\'' ∨ c = '"' <;>
            simp [hmark, Option.filter, take, Cursor.peek, Cursor.advance, Cursor.skip]

/-- Code is taken as it is while no delimiter can begin outside its quoted strings. -/
theorem leads_code (hd : d.isValid = true) (hbehind : behind.head? ≠ some '\\') {near t : Text}
    {quote : Option Char} (ht : d.Avoids (outsideQuotes near quote t)) :
    Leads d (⟨.code, quote, pending, done, opened, log⟩, ⟨near ++ behind, t ++ rest⟩)
      (⟨.code, quoteAfter near quote t, t.reverse ++ pending, done, opened, log⟩,
        ⟨t.reverse ++ (near ++ behind), rest⟩) := by
  induction t generalizing quote pending near with
  | nil => exact .refl _
  | cons c cs ih =>
      have hc : quote = none → c ∉ d.start ∧ c ∉ d.stop := by
        rintro rfl
        exact ht c List.mem_cons_self
      have hcs : d.Avoids (outsideQuotes (c :: near) (quoteStep near quote c) cs) := by
        intro x hx
        refine ht x ?_
        rw [outsideQuotes]
        split
        · exact hx
        · exact List.mem_cons_of_mem _ hx
      have hstep : step d ⟨.code, quote, pending, done, opened, log⟩
          ⟨near ++ behind, c :: (cs ++ rest)⟩ = _ := step_code hd hbehind hc
      have hone := leads_step hd (by simp) hstep
      have hmore : Leads d (⟨.code, quoteStep near quote c, c :: pending, done, opened, log⟩,
          ⟨c :: near ++ behind, cs ++ rest⟩) _ := ih hcs
      simpa [quoteAfter] using hone.trans hmore

/-- A start delimiter ends the literal before it. -/
theorem leads_start (hd : d.Distinct) (hbehind : behind.head? ≠ some '\\') :
    Leads d (⟨.literal, none, pending, done, opened, log⟩, ⟨behind, d.start ++ rest⟩)
      (⟨.code, none, [], pieceOf pending.reverse true .literal ++ done, behind.length, log⟩,
        ⟨d.start.reverse ++ behind, rest⟩) := by
  refine leads_step hd.valid (by simp [(Delimiters.isValid_iff.mp hd.valid).1]) ?_
  simp only [step, stepLiteral, longestAhead?_append hd.start_stop hd.stop_start,
    isEscaped_of_head hbehind, Bool.false_eq_true, if_false, if_true]
  rw [skip_read rfl, closeLiteral, pieceOf, List.isEmpty_reverse]
  cases pending <;> rfl

/-- A stop delimiter outside quoted strings ends the code before it. -/
theorem leads_stop (hd : d.Distinct) (hbehind : behind.head? ≠ some '\\') :
    Leads d (⟨.code, none, pending, done, opened, log⟩, ⟨behind, d.stop ++ rest⟩)
      (⟨.literal, none, [], .code pending.reverse true :: done, opened, log⟩,
        ⟨d.stop.reverse ++ behind, rest⟩) := by
  have hne : d.stop ++ rest ≠ [] := by simp [(Delimiters.isValid_iff.mp hd.valid).2.1]
  have hpeek : (Cursor.peek ⟨behind, d.stop ++ rest⟩).isNone = false := by
    obtain ⟨c, cs, hcs⟩ := List.exists_cons_of_ne_nil hne
    rw [hcs]
    rfl
  refine leads_step hd.valid hne ?_
  simp only [step, stepCode, hpeek, longestAhead?_append hd.stop_start hd.start_stop,
    isEscaped_of_head hbehind, Bool.false_eq_true, if_false, if_true]
  rw [skip_read rfl]
  rfl

/-- A code segment becomes a piece, and so does the literal before it, if it holds anything. The
literal after it is in hand then. -/
theorem leads_segment (hd : d.Distinct) {code literal : Text} (hcode : FitsCode d code)
    (hliteral : FitsLiteral d literal) (hbehind : behind.head? ≠ some '\\') :
    ∃ behind', behind'.head? ≠ some '\\' ∧
      Leads d (⟨.literal, none, pending, done, opened, log⟩,
          ⟨behind, d.start ++ (code ++ (d.stop ++ literal)) ++ rest⟩)
        (⟨.literal, none, literal.reverse,
          .code code true :: (pieceOf pending.reverse true .literal ++ done), behind.length, log⟩,
          ⟨behind', rest⟩) := by
  have hopened := head?_reverse_append (getLast?_plain hd.start_plain) hbehind
  have hcoded := head?_reverse_append hcode.last hopened
  have hclosed := head?_reverse_append (getLast?_plain hd.stop_plain) hcoded
  refine ⟨_, head?_reverse_append hliteral.last hclosed, ?_⟩
  let closed := pieceOf pending.reverse true .literal ++ done
  let before := d.start.reverse ++ behind
  have hstart : Leads d (⟨.literal, none, pending, done, opened, log⟩,
      ⟨behind, d.start ++ (code ++ (d.stop ++ (literal ++ rest)))⟩)
      (⟨.code, none, [], closed, behind.length, log⟩, ⟨before, _⟩) := leads_start hd hbehind
  have hread : Leads d (⟨.code, none, [], closed, behind.length, log⟩,
      ⟨[] ++ before, code ++ (d.stop ++ (literal ++ rest))⟩) _ :=
    leads_code hd.valid hopened hcode.avoids
  rw [hcode.closed] at hread
  have hstop : Leads d (⟨.code, none, code.reverse ++ [], closed, behind.length, log⟩,
      ⟨code.reverse ++ before, d.stop ++ (literal ++ rest)⟩) _ := leads_stop hd hcoded
  have hlast : Leads d (⟨.literal, none, [], .code code true :: closed, behind.length, log⟩,
      ⟨d.stop.reverse ++ (code.reverse ++ before), literal ++ rest⟩) _ :=
    leads_literal hd.valid hliteral.avoids none
  simp only [List.nil_append, List.append_nil, List.reverse_reverse] at hread hstop hlast
  simp only [List.append_assoc]
  exact ((hstart.trans hread).trans hstop).trans hlast

/-- The scan comes to the end of the document with its last literal in hand. -/
private theorem leads_segments (hd : d.Distinct) {segments : List (Text × Text)}
    (hcodes : ∀ segment ∈ segments, FitsCode d segment.1)
    (hliterals : ∀ segment ∈ segments, FitsLiteral d segment.2) (hbehind : behind.head? ≠ some '\\') :
    ∃ pending' done' opened' behind',
      done'.reverse ++ pieceOf pending'.reverse true .literal =
        done.reverse ++ (pieceOf pending.reverse true .literal ++ segments.flatMap
          fun segment => .code segment.1 true :: pieceOf segment.2 true .literal) ∧
      Leads d (⟨.literal, none, pending, done, opened, log⟩, ⟨behind, segments.flatMap
            fun segment => d.start ++ (segment.1 ++ (d.stop ++ segment.2))⟩)
        (⟨.literal, none, pending', done', opened', log⟩, ⟨behind', []⟩) := by
  induction segments generalizing pending done opened behind with
  | nil => exact ⟨pending, done, opened, behind, by simp, .refl _⟩
  | cons segment segments ih =>
      obtain ⟨hcode, hcodes⟩ := List.forall_mem_cons.mp hcodes
      obtain ⟨hliteral, hliterals⟩ := List.forall_mem_cons.mp hliterals
      let rest : Text := segments.flatMap fun segment =>
        d.start ++ (segment.1 ++ (d.stop ++ segment.2))
      obtain ⟨behind', hbehind', hone⟩ :=
        @leads_segment d behind rest pending done opened log hd _ _ hcode hliteral hbehind
      obtain ⟨pending', done', opened', behind'', hpieces, hmore⟩ := ih hcodes hliterals hbehind'
      refine ⟨pending', done', opened', behind'', ?_, hone.trans hmore⟩
      rw [hpieces]
      simp [reverse_pieceOf]

/-- The scan of a document that was written: it ends in literal text, its pieces are the segments, and
nothing was reported. -/
theorem ofText_write {doc : Document} (hd : d.Distinct) (h : doc.Fits d) (log : Collector) :
    (ofText d (doc.write d) log).pieces = doc.pieces ∧ (ofText d (doc.write d) log).log = log := by
  obtain ⟨hfirst, hliterals⟩ := List.forall_mem_cons.mp h.literals
  have hbegins : Leads d (⟨.literal, none, [], [], 0, log⟩, ⟨[], doc.write d⟩) _ :=
    leads_literal hd.valid hfirst.avoids none
  have hfirstLast : (doc.first.reverse ++ []).head? ≠ some '\\' :=
    head?_reverse_append hfirst.last (by simp)
  obtain ⟨pending, done, opened, behind, hpieces, hrest⟩ :=
    @leads_segments d _ (doc.first.reverse ++ []) [] 0 log hd _ (List.forall_mem_map.mp h.codes)
      (List.forall_mem_map.mp hliterals) hfirstLast
  have hend := (hbegins.trans hrest).end rfl
  have htext : ofText d (doc.write d) log =
      finish d ⟨.literal, none, pending, done, opened, log⟩ ⟨behind, []⟩ := by
    rw [ofText]
    dsimp only [Cursor.ofText]
    rw [hend]
  have hfinish : finish d ⟨.literal, none, pending, done, opened, log⟩ ⟨behind, []⟩ =
      closeLiteral ⟨.literal, none, pending, done, opened, log⟩ := rfl
  rw [htext, hfinish, pieces, closeLiteral_done rfl true]
  constructor
  · rw [List.reverse_append, reverse_pieceOf, hpieces]
    simp [Document.pieces]
  · unfold closeLiteral
    split <;> rfl

end Scan

/-- Every code segment of a document is closed. -/
private theorem Document.not_mem_pieces (doc : Document) (t : Text) :
    .code t false ∉ doc.pieces := by
  have hliteral (u : Text) : .code t false ∉ Scan.pieceOf u true .literal := by
    unfold Scan.pieceOf
    split <;> simp
  simp [Document.pieces, hliteral]

private theorem scan_of_closed {d : Delimiters} {source : Text} {log : Collector} (template : String)
    (h : ∀ t, .code t false ∉ (Scan.ofText d source log).pieces) :
    scan d source template log =
      (.ok (Scan.ofText d source log).pieces, (Scan.ofText d source log).log) := by
  unfold scan
  dsimp only
  split
  · rename_i t rest hdone
    exact absurd (by simp [Scan.pieces, hdone]) (h t)
  · rfl

/-- Scanning undoes writing. Put a document's segments together with delimiters that are distinct and
fit them: the scan succeeds, reports nothing, and gives back the literals that hold something and all
code segments. With any other such delimiters the result is the same. -/
theorem scan_write {d : Delimiters} {doc : Document} (hd : d.Distinct) (h : doc.Fits d)
    (template : String) (log : Collector) :
    scan d (doc.write d) template log = (.ok doc.pieces, log) ∧
      ∀ d' : Delimiters, d'.Distinct → doc.Fits d' → ∀ template' log',
        (scan d' (doc.write d') template' log').1 = (scan d (doc.write d) template log).1 := by
  have hscan {d : Delimiters} (hd : d.Distinct) (h : doc.Fits d) (template : String)
      (log : Collector) : scan d (doc.write d) template log = (.ok doc.pieces, log) := by
    obtain ⟨hpieces, hlog⟩ := Scan.ofText_write hd h log
    rw [scan_of_closed template (fun t => hpieces ▸ doc.not_mem_pieces t), hpieces, hlog]
  refine ⟨hscan hd h template log, fun d' hd' h' template' log' => ?_⟩
  rw [hscan hd h, hscan hd' h']

/-- Quoted delimiters, escaped quotes, code that is empty and code next to code come back as they
were, between `<$` and `$>` as well as between `{%` and `%}`. -/
theorem scan_write_quoted :
    let doc : Document := ⟨[], [("print('$> %\x7d \\' \"')".toList, []), ([], "a\"b".toList)]⟩
    let other : Delimiters := ⟨['\x7b', '%'], ['%', '\x7d']⟩
    (Delimiters.standard.Distinct ∧ other.Distinct ∧ doc.Fits .standard ∧ doc.Fits other) ∧
      scan .standard (doc.write .standard) "T" ⟨3, none, []⟩ =
        (.ok [.code "print('$> %\x7d \\' \"')".toList true, .code [] true,
          .literal "a\"b".toList], ⟨3, none, []⟩) ∧
      (scan other (doc.write other) "T" ⟨3, none, []⟩).1 =
        (scan .standard (doc.write .standard) "T" ⟨3, none, []⟩).1 := by
  intro doc other
  have hvalid : Delimiters.standard.Distinct ∧ other.Distinct ∧ doc.Fits .standard ∧
      doc.Fits other := by decide +kernel
  obtain ⟨hd, hd', hfits, hfits'⟩ := hvalid
  have hwritten := scan_write hd hfits "T" ⟨3, none, []⟩
  exact ⟨⟨hd, hd', hfits, hfits'⟩, hwritten.1, hwritten.2 other hd' hfits' "T" ⟨3, none, []⟩⟩

end Stencil
