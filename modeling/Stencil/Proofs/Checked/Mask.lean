import Stencil.Proofs.Checked.Basic
import Stencil.Proofs.Mask.Renumber
import Stencil.Proofs.Mask.Tiling
/-!
# Masking by places

The mask can be taken with places in the source only: the end of a tile is looked for from its start,
and what lies between is sliced out. Each place that is read is one of the source, each slice ends
after it begins, and each turn of a loop comes closer to the end. What comes out is the mask.
-/
namespace Stencil.Checked

open Tile

/-! ## The ends of tiles -/

def quotedTurn? (source : Text) (quote : Char) (place : Nat) : Option (Turn Nat Nat) :=
  if place < source.length then
    source[place]?.map fun c =>
      if c = '\\' then .next (place + 2)
      else if c = '\n' then .leave place
      else if c = quote then .leave (place + 1)
      else .next (place + 1)
  else some (.leave source.length)

/-- Where the quoted string ends that begins at a place. -/
def quotedEnd? (source : Text) (start : Nat) : Option Nat :=
  source[start]?.bind fun quote =>
    loop? (quotedTurn? source quote) (source.length + 1) (start + 1)

/-- The level of a long bracket: how many characters `=` stand from a place on. -/
def levelAt (source : Text) (place : Nat) : Nat :=
  ((source.drop place).takeWhile (· == '=')).length

def bracketTurn? (source : Text) (level place : Nat) : Option (Turn Nat Nat) :=
  if place < source.length then
    source[place]?.map fun c =>
      let closing := place + 1 + levelAt source (place + 1)
      if c = ']' ∧ levelAt source (place + 1) = level ∧ source[closing]? = some ']' then
        .leave (closing + 1)
      else .next (place + 1)
  else some (.leave source.length)

/-- Where the long bracket ends that begins at a place, if one does. -/
def bracketEnd? (source : Text) (start : Nat) : Option (Option Nat) :=
  if source[start]? = some '[' then
    let level := levelAt source (start + 1)
    if source[start + 1 + level]? = some '[' then
      (loop? (bracketTurn? source level) (source.length + 1) (start + 1 + level + 1)).map some
    else some none
  else some none

/-- Where the line ends that a place lies in. -/
def lineEnd? (source : Text) (start : Nat) : Option Nat :=
  (slice? source start source.length).map fun rest =>
    match rest.findIdx? (· == '\n') with
    | some offset => start + offset
    | none => source.length

def blockTurn? (source : Text) (place : Nat) : Option (Turn Nat Nat) :=
  if place + 1 < source.length then
    source[place]?.bind fun c => source[place + 1]?.map fun d =>
      if c = '*' ∧ d = '/' then .leave (place + 2) else .next (place + 1)
  else some (.leave source.length)

/-- Where the block comment ends whose opening ends at a place. -/
def blockEnd? (source : Text) (start : Nat) : Option Nat :=
  loop? (blockTurn? source) (source.length + 1) start

/-- Where the comment ends that begins with two dashes at a place. -/
def dashEnd? (source : Text) (start : Nat) : Option Nat :=
  (bracketEnd? source (start + 2)).bind fun stop =>
    match stop with
    | some stop => if source[start + 2]? = some '[' then some stop else lineEnd? source start
    | none => lineEnd? source start

/-! ## The mask -/

/-- A mask under way: the place come to, and what the tiles before it leave. -/
structure Masking where
  place : Nat
  text : Text
  literals : List Text

/-- Set the literal aside that ends at a place. -/
def Masking.setAside? (source : Text) (s : Masking) (stop : Nat) : Option (Turn Masking Mask) :=
  (slice? source s.place stop).map fun literal =>
    .next ⟨stop, s.text ++ Mask.placeholder s.literals.length, s.literals ++ [literal]⟩

def Masking.keep (s : Masking) (c : Char) : Turn Masking Mask :=
  .next ⟨s.place + 1, s.text ++ [c], s.literals⟩

/-- A turn of masking: a whole tile. -/
def maskTurn? (source : Text) (s : Masking) : Option (Turn Masking Mask) :=
  if s.place < source.length then
    source[s.place]?.bind fun c =>
      match c, source[s.place + 1]? with
      | '\'', _ | '"', _ => (quotedEnd? source s.place).bind (s.setAside? source)
      | '[', some '[' | '[', some '=' =>
        (bracketEnd? source s.place).bind fun stop =>
          match stop with
          | some stop => s.setAside? source stop
          | none => some (s.keep c)
      | '-', some '-' => (dashEnd? source s.place).map fun stop => .next { s with place := stop }
      | '/', some '/' => (lineEnd? source s.place).map fun stop => .next { s with place := stop }
      | '/', some '*' =>
        (blockEnd? source (s.place + 2)).map fun stop => .next ⟨stop, s.text ++ [' '], s.literals⟩
      | _, _ => some (s.keep c)
  else some (.leave ⟨s.text, s.literals⟩)

/-- The mask of a source, taken by places. -/
def mask? (source : Text) : Option Mask :=
  loop? (maskTurn? source) (source.length + 1) ⟨0, [], []⟩

/-! ## What the searches find -/

variable {source ahead : Text} {start : Nat}

theorem quotedEnd?_eq_some {quote : Char} (h : At source start (quote :: ahead)) :
    quotedEnd? source start = some (start + 1 + quotedLength quote ahead) := by
  rw [quotedEnd?, h.first, Option.bind_some]
  -- a backslash at the end of the source makes the search go past the end by one place
  refine loop?_eq_some (fun place => source.length - place)
    (fun place stop =>
      (∃ ahead, At source place ahead ∧ stop = place + quotedLength quote ahead) ∨
        source.length < place ∧ stop = source.length) ?_ (.inl ⟨ahead, h.next, rfl⟩) (by omega)
  rintro place stop (⟨ahead, hat, rfl⟩ | ⟨hpast, rfl⟩)
  · cases ahead with
    | nil =>
        have hlength : source.length = place := hat.length
        exact .inl (by rw [quotedTurn?, if_neg (by omega), hlength]; rfl)
    | cons c ahead =>
        have hlt := hat.lt
        rw [quotedTurn?, if_pos hlt, hat.first, Option.map_some]
        by_cases hescape : c = '\\'
        · rw [if_pos hescape]
          subst hescape
          refine .inr ⟨place + 2, rfl, by omega, ?_⟩
          cases ahead with
          | nil =>
              have hlength : source.length = place + 1 := hat.length
              exact .inr ⟨by omega, hlength.symm⟩
          | cons d ahead =>
              refine .inl ⟨ahead, hat.next.next, ?_⟩
              rw [quotedLength]
              omega
        · rw [if_neg hescape, quotedLength_cons hescape]
          by_cases hline : c = '\n'
          · exact .inl (by rw [if_pos hline, if_pos hline]; rfl)
          · rw [if_neg hline, if_neg hline]
            by_cases hquote : c = quote
            · exact .inl (by rw [if_pos hquote, if_pos hquote])
            · rw [if_neg hquote, if_neg hquote]
              refine .inr ⟨place + 1, rfl, by omega, .inl ⟨ahead, hat.next, ?_⟩⟩
              omega
  · exact .inl (by rw [quotedTurn?, if_neg (by omega)])

theorem levelAt_eq (h : At source start ahead) :
    levelAt source start = (ahead.takeWhile (· == '=')).length := by
  rw [levelAt, h.drop]

private theorem closesBracket_iff_level {level : Nat} {t : Text} : closesBracket level t = true ↔
    (t.takeWhile (· == '=')).length = level ∧ t[level]? = some ']' := by
  induction level generalizing t with
  | zero => cases t with
    | nil => simp [closesBracket]
    | cons c t =>
        by_cases hc : c = '='
        · simp [closesBracket, hc]
        · simp [closesBracket, hc, @eq_comm _ ']' c]
  | succ level ih => cases t with
    | nil => simp [closesBracket, List.replicate_succ]
    | cons c t =>
        have hclose : closesBracket (level + 1) (c :: t) =
            ('=' == c && closesBracket level t) := by
          simp [closesBracket, List.replicate_succ, List.isPrefixOf]
        rw [hclose, Bool.and_eq_true, ih]
        by_cases hc : c = '='
        · simp [hc]
        · have hmark : ('=' == c) = false := beq_false_of_ne (Ne.symm hc)
          simp [hmark, hc]

private theorem bracketTurns?_eq_some {level : Nat} (h : At source start ahead) :
    loop? (bracketTurn? source level) (source.length + 1) start =
      some (start + bracketLength level ahead) := by
  refine loop?_eq_some (fun place => source.length - place)
    (fun place stop => ∃ ahead, At source place ahead ∧
      stop = place + bracketLength level ahead) ?_ ⟨ahead, h, rfl⟩ (by omega)
  rintro place stop ⟨ahead, hat, rfl⟩
  cases ahead with
  | nil =>
      have hlength : source.length = place := hat.length
      exact .inl (by rw [bracketTurn?, if_neg (by omega), hlength]; rfl)
  | cons c ahead =>
      have hlt := hat.lt
      have hcloses : c = ']' ∧ levelAt source (place + 1) = level ∧
          source[place + 1 + levelAt source (place + 1)]? = some ']' ↔
            (c = ']' && closesBracket level ahead) = true := by
        rw [Bool.and_eq_true, decide_eq_true_eq, closesBracket_iff_level, ← levelAt_eq hat.next,
          hat.next.getElem?]
        exact ⟨fun ⟨h1, h2, h3⟩ => ⟨h1, h2, h2 ▸ h3⟩, fun ⟨h1, h2, h3⟩ => ⟨h1, h2, h2.symm ▸ h3⟩⟩
      rw [bracketTurn?, if_pos hlt, hat.first, Option.map_some, bracketLength]
      simp only [hcloses]
      by_cases hclose : (c = ']' && closesBracket level ahead) = true
      · have hlevel := (hcloses.mpr hclose).2.1
        rw [if_pos hclose, if_pos hclose, hlevel]
        exact .inl (by rw [show place + 1 + level + 1 = place + (level + 2) by omega])
      · rw [if_neg hclose, if_neg hclose]
        exact .inr ⟨place + 1, rfl, by omega, ahead, hat.next, by omega⟩

theorem bracketEnd?_eq_some (h : At source start ahead) :
    bracketEnd? source start = some ((longBracket? ahead).map (start + ·)) := by
  have hfirst : source[start]? = ahead[0]? := h.getElem? 0
  rw [bracketEnd?, hfirst]
  cases ahead with
  | nil => rfl
  | cons c cs =>
      by_cases hc : c = '['
      · subst hc
        have hlevel := levelAt_eq h.next
        rw [if_pos List.getElem?_cons_zero, longBracket?]
        simp only [← hlevel]
        generalize levelAt source (start + 1) = level
        have hopening : source[start + 1 + level]? = (cs.drop level)[0]? := by
          rw [h.next.getElem?, List.getElem?_drop, Nat.add_zero]
        rw [hopening]
        cases hdrop : cs.drop level with
        | nil => rfl
        | cons d inside =>
            have hlt : level < cs.length := by
              have := congrArg List.length hdrop
              rw [List.length_drop, List.length_cons] at this
              omega
            have hinside : At source (start + 1 + level + 1) inside :=
              (hdrop ▸ h.next.skip (Nat.le_of_lt hlt)).next
            by_cases hd : d = '['
            · subst hd
              rw [if_pos List.getElem?_cons_zero, bracketTurns?_eq_some hinside]
              have hstop : start + 1 + level + 1 + bracketLength level inside =
                  start + (level + 2 + bracketLength level inside) := by omega
              rw [hstop]
              rfl
            · rw [if_neg (by simpa using hd)]
              simp [hd]
      · rw [if_neg (by simpa using hc), longBracket?]
        · rfl
        · rintro cs' hcs
          exact hc (List.cons.inj hcs).1

theorem lineEnd?_eq_some (h : At source start ahead) :
    lineEnd? source start = some (start + lineLength ahead) := by
  have hline (t : Text) : (t.findIdx? (· == '\n')).getD t.length = lineLength t := by
    induction t with
    | nil => rfl
    | cons c t ih =>
        by_cases hc : c = '\n'
        · simp [lineLength, hc, List.findIdx?_cons]
        · rw [lineLength] at ih ⊢
          simp [hc, List.findIdx?_cons, ← ih]
  have hrest : slice? source start source.length = some ahead := by
    have hread : At source start (ahead ++ []) := by rwa [List.append_nil]
    rw [h.length]
    exact hread.slice?
  rw [lineEnd?, hrest, Option.map_some, ← hline, h.length]
  cases ahead.findIdx? (· == '\n') <;> rfl

theorem blockEnd?_eq_some (h : At source start ahead) :
    blockEnd? source start = some (start + blockLength ahead) := by
  refine loop?_eq_some (fun place => source.length - place)
    (fun place stop => ∃ ahead, At source place ahead ∧ stop = place + blockLength ahead)
    ?_ ⟨ahead, h, rfl⟩ (by omega)
  rintro place stop ⟨ahead, hat, rfl⟩
  have hlength := hat.length
  rw [blockTurn?]
  match ahead, hat, hlength with
  | [], hat, hlength =>
      exact .inl (by rw [if_neg (by simp at hlength; omega)]; simp [blockLength, hlength])
  | [c], hat, hlength =>
      exact .inl (by rw [if_neg (by simp at hlength; omega)]; simp [blockLength, hlength])
  | c :: d :: ahead, hat, hlength =>
      simp only [List.length_cons] at hlength
      rw [if_pos (by omega), hat.first, hat.next.first]
      simp only [Option.bind_some, Option.map_some]
      by_cases hend : c = '*' ∧ d = '/'
      · obtain ⟨rfl, rfl⟩ := hend
        exact .inl rfl
      · have hblock : blockLength (c :: d :: ahead) = blockLength (d :: ahead) + 1 := by
          rw [blockLength.eq_2 c (d :: ahead)]
          rintro more rfl hmore
          exact hend ⟨rfl, (List.cons.inj hmore).1⟩
        rw [if_neg hend]
        exact .inr ⟨place + 1, rfl, by omega, d :: ahead, hat.next, by rw [hblock]; omega⟩

theorem dashEnd?_eq_some (h : At source start ('-' :: '-' :: ahead)) :
    dashEnd? source start =
      some (start + 2 + (longBracket? ahead).getD (lineLength ahead)) := by
  have hline : lineEnd? source start = some (start + 2 + lineLength ahead) := by
    rw [lineEnd?_eq_some h]
    simp [lineLength]
    omega
  rw [dashEnd?, bracketEnd?_eq_some h.next.next, Option.bind_some]
  cases hb : longBracket? ahead with
  | none => exact hline
  | some n =>
      obtain ⟨level, inside, rfl, -⟩ := longBracket?_eq_some.mp hb
      have hopens : source[start + 2]? = some '[' := h.next.next.first
      simp only [Option.map_some, Option.getD_some, if_pos hopens]

/-! ## What masking comes to -/

private theorem length_quoted {quote : Char} (hquote : quote = '\'' ∨ quote = '"') (t : Text) :
    (t.take (quotedLength quote t)).length = quotedLength quote t := by
  have hne : quote ≠ '\\' ∧ quote ≠ '\n' := by rcases hquote with rfl | rfl <;> decide
  have h := (upToQuote_take hne t).length_eq hne
  rwa [List.take_append_drop, eq_comm] at h

private theorem length_line (t : Text) : (t.take (lineLength t)).length = lineLength t := by
  have h := (upToLine_take t).length_eq
  rwa [List.take_append_drop, eq_comm] at h

private theorem length_block (t : Text) : (t.take (blockLength t)).length = blockLength t := by
  have hmark : "*/".toList ≠ [] := by decide
  have h := (upTo_take hmark t).length_eq
  rwa [List.take_append_drop, eq_comm, ← blockLength_eq] at h

private theorem length_bracket {n : Nat} {t : Text} (h : longBracket? t = some n) :
    (t.take n).length = n := by
  obtain ⟨level, inside, rfl, rfl⟩ := longBracket?_eq_some.mp h
  have hmark : closer level ≠ [] := by simp [closer]
  have h := (upTo_take hmark inside).length_eq
  rw [List.take_append_drop, eq_comm, ← bracketLength_eq] at h
  rw [take_opener, List.length_cons, List.length_append, h]
  simp [opener]
  omega

/-- The mask after one more tile. -/
def Masking.after (s : Masking) (tile : Tile) : Masking :=
  ⟨s.place + tile.text.length, s.text ++ Mask.textFrom s.literals.length [tile],
    s.literals ++ Mask.literalsOf [tile]⟩

private theorem setAside?_eq_some {s : Masking} {n : Nat} (h : At source s.place ahead)
    (hn : (ahead.take n).length = n) :
    s.setAside? source (s.place + n) = some (.next (s.after (.literal (ahead.take n)))) := by
  have hread : At source s.place (ahead.take n ++ ahead.drop n) := by
    rwa [List.take_append_drop]
  have hslice := hread.slice?
  rw [hn] at hslice
  rw [Masking.setAside?, hslice]
  simp [Masking.after, Tile.text, Mask.textFrom, Mask.literalsOf, hn]

private theorem keep_eq (s : Masking) (c : Char) : s.keep c = .next (s.after (.plain c)) := by
  simp [Masking.keep, Masking.after, Tile.text, Mask.textFrom, Mask.literalsOf]

private theorem skip_eq (s : Masking) {t : Text} {stop : Nat} (h : stop = s.place + t.length) :
    (.next { s with place := stop } : Turn Masking Mask) = .next (s.after (.comment t)) := by
  rw [h]
  simp [Masking.after, Tile.text, Mask.textFrom, Mask.literalsOf]

private theorem quoted_eq {s : Masking} {c : Char} {cs : Text} (h : At source s.place (c :: cs))
    (hquote : c = '\'' ∨ c = '"') :
    (quotedEnd? source s.place).bind (s.setAside? source) =
      some (.next (s.after (.literal (c :: cs.take (quotedLength c cs))))) := by
  have hstop := setAside?_eq_some (n := quotedLength c cs + 1) h
    (by rw [List.take_succ_cons, List.length_cons, length_quoted hquote])
  rw [quotedEnd?_eq_some h, Option.bind_some, Nat.add_right_comm, Nat.add_assoc, hstop,
    List.take_succ_cons]

theorem maskTurn?_eq_some {s : Masking} {c : Char} {cs : Text} (h : At source s.place (c :: cs)) :
    maskTurn? source s = some (.next (s.after (first c cs))) := by
  have hnext : source[s.place + 1]? = cs[0]? := h.next.getElem? 0
  have hv := view c cs
  generalize first c cs = x at hv ⊢
  rw [maskTurn?, if_pos h.lt, h.first, Option.bind_some, hnext]
  cases hv with
  | plain hlone =>
      split
      · exact absurd rfl hlone.single
      · exact absurd rfl hlone.double
      · rw [bracketEnd?_eq_some h, hlone.bracket rfl, ← keep_eq]
        rfl
      · rw [bracketEnd?_eq_some h, hlone.bracket rfl, ← keep_eq]
        rfl
      · rename_i hhead
        exact absurd (by rw [List.head?_eq_getElem?, hhead]) (hlone.dash rfl)
      · rename_i hhead
        exact absurd (by rw [List.head?_eq_getElem?, hhead]) (hlone.slash rfl)
      · rename_i hhead
        exact absurd (by rw [List.head?_eq_getElem?, hhead]) (hlone.block rfl)
      · rw [keep_eq]
  | quoted hquote =>
      rcases hquote with rfl | rfl
      · exact quoted_eq h (.inl rfl)
      · exact quoted_eq h (.inr rfl)
  | @long level inside hc hcs =>
      subst hc hcs
      have hlong := longBracket?_eq_some.mpr ⟨level, inside, rfl, rfl⟩
      have hstop := setAside?_eq_some h (length_bracket hlong)
      rw [take_opener] at hstop
      rw [bracketEnd?_eq_some h, hlong]
      cases level with
      | zero => exact hstop
      | succ level => exact hstop
  | @longComment level inside hc hcs =>
      subst hc hcs
      have hlong := longBracket?_eq_some.mpr ⟨level, inside, rfl, rfl⟩
      have hlength := length_bracket hlong
      rw [take_opener] at hlength
      simp only [List.getElem?_cons_zero]
      rw [dashEnd?_eq_some h, hlong, Option.map_some, Option.getD_some, skip_eq]
      rw [List.length_cons, List.length_cons, hlength]
      omega
  | @lineComment line hc hcs hnone =>
      subst hc hcs
      simp only [List.getElem?_cons_zero]
      rw [dashEnd?_eq_some h, hnone, Option.map_some, Option.getD_none, skip_eq]
      rw [List.length_cons, List.length_cons, length_line]
      omega
  | @slashComment line hc hcs =>
      subst hc hcs
      have hline : lineLength ('/' :: '/' :: line) = lineLength line + 2 := by simp [lineLength]
      simp only [List.getElem?_cons_zero]
      rw [lineEnd?_eq_some h, Option.map_some, skip_eq]
      rw [List.length_cons, List.length_cons, length_line, hline]
  | @blockComment inside hc hcs =>
      subst hc hcs
      have hstop : s.place + 1 + 1 + blockLength inside =
          s.place + ('/' :: '*' :: inside.take (blockLength inside)).length := by
        rw [List.length_cons, List.length_cons, length_block]
        omega
      simp only [List.getElem?_cons_zero]
      rw [blockEnd?_eq_some h.next.next, Option.map_some, hstop]
      simp only [Masking.after, Tile.text, Mask.textFrom, Mask.literalsOf, List.append_nil]

/-- Masking by places gives the mask of the source. -/
theorem mask?_eq_some (source : Text) : mask? source = some (Mask.ofText source) := by
  refine loop?_eq_some (fun s => source.length - s.place)
    (fun s m => ∃ ahead, At source s.place ahead ∧
      m = ⟨s.text ++ Mask.textFrom s.literals.length (tiles ahead),
        s.literals ++ Mask.literalsOf (tiles ahead)⟩)
    ?_ ⟨source, ⟨rfl, Nat.zero_le _⟩, rfl⟩ (by omega)
  rintro s m ⟨ahead, hat, rfl⟩
  cases ahead with
  | nil =>
      have hlength : source.length = s.place := hat.length
      refine .inl ?_
      rw [maskTurn?, if_neg (by omega)]
      simp [tiles, tilesFrom, Mask.textFrom, Mask.literalsOf]
  | cons c cs =>
      obtain ⟨body, rest, rfl, htile⟩ := exists_first_text c cs
      have hrest : At source (s.place + (first c (body ++ rest)).text.length) rest := by
        rw [htile]
        exact At.add hat
      have hcloser := hrest.length
      have hlt := hat.lt
      refine .inr ⟨_, maskTurn?_eq_some hat, ?_, rest, hrest, ?_⟩
      · rw [htile, List.length_cons] at hcloser
        simp only [Masking.after, htile, List.length_cons]
        omega
      · rw [tiles_cons htile, ← List.singleton_append, Symbol.textFrom_append,
          Symbol.literalsOf_append]
        simp only [Masking.after, List.append_assoc, List.length_append]

end Stencil.Checked
