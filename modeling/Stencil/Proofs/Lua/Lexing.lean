import Stencil.Proofs.Lua.Extents
import Stencil.Proofs.Lua.Numerals
/-!
# Tokens of a masked source

The mask leaves comments out and puts placeholders where literals stood. What is left spells the tokens
of the source where both find the same literals and comments, and where no name ends before a comment
and another begins after it.
-/
namespace Stencil

open Lua Lua.Token

namespace Tile

/-- Whether the tile is a comment that the fragment language does not have. -/
def isForeign : Tile → Bool
  | comment ('/' :: _) | spaced _ => true
  | _ => false

/-- Whether the line of a comment ends before the tile does. The fragment language ends a line at a
carriage return as well. -/
def endsEarly : Tile → Bool
  | comment t => !(comment t).isLongComment && t.dropLast.contains '\r'
  | _ => false

/-- Whether a name before a comment and the one after it are left without anything between them. -/
def joins : Tile → List Tile → Bool
  | plain c, comment _ :: ts => continuesName c && (Mask.textFrom 0 ts).head?.any continuesName
  | _, _ => false

/-- Whether no comment stands between two names without white space. -/
def apart : List Tile → Bool
  | [] => true
  | x :: ts => !joins x ts && apart ts

end Tile

namespace Lua

open Tile Symbol

/-- Tiles that the fragment language sees as well: its own comments and closed literals, with no name
lost between them. -/
structure Maskable (ts : List Tile) : Prop where
  native : ∀ x ∈ ts, x.isForeign = false
  closed : ∀ x ∈ ts, x.isClosed = true
  lines : ∀ x ∈ ts, x.endsEarly = false
  apart : Tile.apart ts = true

instance (ts : List Tile) : Decidable (Maskable ts) :=
  decidable_of_iff ((∀ x ∈ ts, x.isForeign = false) ∧ (∀ x ∈ ts, x.isClosed = true) ∧
    (∀ x ∈ ts, x.endsEarly = false) ∧ Tile.apart ts = true)
    ⟨fun ⟨h1, h2, h3, h4⟩ => ⟨h1, h2, h3, h4⟩, fun h => ⟨h.1, h.2, h.3, h.4⟩⟩

section Maskable

variable {x : Tile} {ts : List Tile} {t w rest : Text} {c : Char}

theorem Maskable.tail (h : Maskable (x :: ts)) : Maskable ts := by
  have hapart := h.apart
  rw [Tile.apart, Bool.and_eq_true] at hapart
  exact ⟨fun y hy => h.native y (by simp [hy]), fun y hy => h.closed y (by simp [hy]),
    fun y hy => h.lines y (by simp [hy]), hapart.2⟩

theorem Maskable.cons_plain (h : Maskable ts) (hc : continuesName c = false) :
    Maskable (.plain c :: ts) := by
  have hjoins : joins (.plain c) ts = false := by
    unfold joins
    split
    · rename_i hplain
      obtain rfl := Tile.plain.inj hplain
      rw [hc]
      rfl
    · rfl
  refine ⟨List.forall_mem_cons.mpr ⟨rfl, h.native⟩, List.forall_mem_cons.mpr ⟨rfl, h.closed⟩,
    List.forall_mem_cons.mpr ⟨rfl, h.lines⟩, ?_⟩
  rw [Tile.apart, hjoins, h.apart]
  rfl

theorem Maskable.of_append {s : List Tile} (h : Maskable (s ++ ts)) : Maskable ts := by
  induction s with
  | nil => exact h
  | cons x s ih => exact ih (Maskable.tail h)

/-- The first character of a masked text does not tell how the literals are numbered. -/
private theorem head?_textFrom (i j : Nat) (ts : List Tile) :
    (Mask.textFrom i ts).head? = (Mask.textFrom j ts).head? := by
  induction ts generalizing i j with
  | nil => rfl
  | cons x ts ih =>
      cases x with
      | comment _ => exact ih i j
      | _ => rfl

private theorem textFrom_code (i : Nat) (w : Text) (ts : List Tile) :
    Mask.textFrom i (w.map .plain ++ ts) = w ++ Mask.textFrom i ts := by
  rw [textFrom_append, textFrom_plain, literalsOf_plain]
  rfl

/-- A name that the source ends is not gone on with in the mask. -/
private theorem parted_textFrom (i : Nat) (h : Maskable (w.map .plain ++ tiles rest))
    (hparted : Parted w rest) : Parted w (Mask.textFrom i (tiles rest)) := by
  intro c d hc hd hname
  obtain ⟨w', rfl⟩ := List.getLast?_eq_some_iff.mp hc
  cases rest with
  | nil => simp [tiles, tilesFrom, Mask.textFrom] at hd
  | cons e rest =>
      obtain ⟨body, more, rfl, ht⟩ := exists_first_text e rest
      rw [tiles_cons ht] at h hd
      generalize first e (body ++ more) = x at h hd ht
      cases x with
      | plain e' =>
          obtain ⟨rfl, -⟩ := List.cons.inj ht
          exact hparted c d hc hd hname
      | literal l =>
          obtain rfl : Mask.opening = d := Option.some.inj hd
          decide
      | comment l =>
          rw [List.map_append, List.append_assoc] at h
          have hapart := (h.of_append).apart
          have hhead : (Mask.textFrom 0 (tiles more)).head? = some d :=
            (head?_textFrom 0 i (tiles more)).trans hd
          rw [List.map_singleton, List.singleton_append, apart, joins, hname, hhead] at hapart
          simpa using (Bool.and_eq_true_iff.mp hapart).1
      | spaced l =>
          obtain rfl : ' ' = d := Option.some.inj hd
          decide

/-- A tile that covers so many characters. -/
private theorem tiles_take {cs : Text} {n : Nat} (h : (first c cs).text = (c :: cs).take n) :
    tiles (c :: cs) = first c cs :: tiles ((c :: cs).drop n) := by
  obtain ⟨body, rest, rfl, ht⟩ := exists_first_text c cs
  have hrest : (c :: (body ++ rest)).drop n = rest := by
    have hsplit := List.take_append_drop n (c :: (body ++ rest))
    rw [← h, ht, List.cons_append] at hsplit
    exact List.append_cancel_left (List.cons.inj hsplit).2
  rw [tiles_cons ht, hrest]

theorem of_head?_dropWhile {p : Char → Bool} (h : (t.dropWhile p).head? = some c) :
    p c = false := by
  have hnot := List.head?_dropWhile_not p t
  rw [h] at hnot
  exact hnot

private theorem first_mem_tiles (c : Char) (cs : Text) : first c cs ∈ tiles (c :: cs) := by
  rw [tiles, tilesFrom]
  exact List.mem_cons_self

theorem Spells.blanks {tokens : List Token} {s : Text} (hs : ∀ c ∈ s, Num.isSpace c = true)
    (h : Spells tokens t) : Spells tokens (s ++ t) := by
  induction s with
  | nil => exact h
  | cons c s ih =>
      rw [List.forall_mem_cons] at hs
      exact .blank hs.1 (ih hs.2)

/-! ## Marks -/

theorem readMark_eq_some {m : Mark} (h : readMark t = some (m, rest)) :
    ∃ w, t = w ++ rest ∧ readMark w = some (m, []) := by
  unfold readMark at h
  split at h
  all_goals first
    | (simp only [Option.some.injEq, Prod.mk.injEq] at h
       obtain ⟨rfl, rfl⟩ := h
       first
         | exact ⟨[_], rfl, rfl⟩
         | exact ⟨[_, _], rfl, rfl⟩
         | exact ⟨[_, _, _], rfl, rfl⟩)
    | simp at h

/-- The characters of a mark are plain, unless they begin a comment or a long bracket. -/
theorem tiles_mark {m : Mark} (hmark : readMark w = some (m, []))
    (hslash : (w ++ rest).head? = some '/' →
      (w ++ rest).tail.head? ≠ some '/' ∧ (w ++ rest).tail.head? ≠ some '*')
    (hdash : ¬ ((w ++ rest).head? = some '-' ∧ (w ++ rest).tail.head? = some '-'))
    (hbracket : (w ++ rest).head? = some '[' →
      (w ++ rest).tail.head? ≠ some '[' ∧ (w ++ rest).tail.head? ≠ some '=') :
    tiles (w ++ rest) = w.map .plain ++ tiles rest := by
  have hall : ∀ e ∈ Mark.table, (∀ c ∈ e.2, isLone c = true) ∨
      e.2 = ['/', '/'] ∨ e.2 = ['/'] ∨ e.2 = ['-'] ∨ e.2 = ['['] := by decide
  rcases hall _ (mem_table_of_readMark hmark) with hlone | rfl | rfl | rfl | rfl
  · exact tiles_code hlone rest
  · exact absurd rfl (hslash rfl).1
  · exact tiles_lone ⟨by decide, by decide, fun h => absurd h (by decide),
      fun h => absurd h (by decide), fun _ => (hslash rfl).1, fun _ => (hslash rfl).2⟩
  · exact tiles_lone ⟨by decide, by decide, fun h => absurd h (by decide),
      fun _ h => hdash ⟨rfl, h⟩, fun h => absurd h (by decide), fun h => absurd h (by decide)⟩
  · refine tiles_lone ⟨by decide, by decide, fun _ => ?_, fun h => absurd h (by decide),
      fun h => absurd h (by decide), fun h => absurd h (by decide)⟩
    cases rest with
    | nil => rfl
    | cons c cs =>
        obtain ⟨h1, h2⟩ := hbracket rfl
        exact longBracket?_eq_none_of_head (fun h => h1 (congrArg some h))
          (fun h => h2 (congrArg some h)) cs

/-! ## Line comments -/

/-- Where the line of a comment ends for the fragment language, a carriage return may be left of it. -/
private theorem afterLine_eq {line : Text} (h : '\r' ∉ (line.take (lineLength line)).dropLast) :
    afterLine line = line.drop (lineLength line) ∨
      afterLine line = '\r' :: line.drop (lineLength line) := by
  have htake : line.take (lineLength line) = line.takeWhile (· != '\n') :=
    (List.prefix_iff_eq_take.mp (List.takeWhile_prefix _)).symm
  have hdrop : line.drop (lineLength line) = line.dropWhile (· != '\n') := by
    have hsplit := List.take_append_drop (lineLength line) line
    rw [htake] at hsplit
    exact List.append_cancel_left (hsplit.trans List.takeWhile_append_dropWhile.symm)
  have hline : ∀ c ∈ line.take (lineLength line), c ≠ '\n' := by
    intro c hc
    rw [htake] at hc
    simpa using List.mem_takeWhile_imp hc
  have hrest : ∀ c, (line.drop (lineLength line)).head? = some c → c = '\n' := by
    intro c hc
    rw [hdrop] at hc
    simpa using of_head?_dropWhile hc
  have hsplit := List.take_append_drop (lineLength line) line
  generalize line.take (lineLength line) = taken at h hline hsplit
  generalize line.drop (lineLength line) = rest at hrest hsplit
  have hend : rest.dropWhile (fun c => !isBreak c) = rest := by
    cases rest with
    | nil => rfl
    | cons c rest =>
        obtain rfl := hrest c rfl
        rfl
  -- the characters before the last one break no line
  have pass {s u : Text} (hs : '\r' ∉ s) (hline : ∀ c ∈ s, c ≠ '\n') :
      afterLine (s ++ u) = u.dropWhile fun c => !isBreak c := by
    refine List.dropWhile_append_of_pos fun c hc => ?_
    have hreturn : c ≠ '\r' := fun h => hs (h ▸ hc)
    simp [isBreak, hreturn, hline c hc]
  subst hsplit
  rcases List.eq_nil_or_concat taken with rfl | ⟨init, d, rfl⟩
  · exact Or.inl hend
  · rw [List.concat_eq_append, List.dropLast_concat] at h
    rw [List.concat_eq_append] at hline ⊢
    by_cases hd : d = '\r'
    · subst hd
      refine Or.inr ?_
      rw [List.append_assoc, pass h fun c hc => hline c (List.mem_append_left _ hc)]
      rfl
    · refine Or.inl ?_
      rw [pass ?_ hline, hend]
      simp [h, Ne.symm hd]

/-! ## Literals and comments -/

section Tiles

variable {fuel lines : Nat} {cs line : Text} {bytes : Bytes}

private theorem tiles_quoted (hq : c = '\'' ∨ c = '"') (hclosed : (first c cs).isClosed = true)
    (h : readQuoted c fuel cs = some (bytes, lines, rest)) :
    ∃ l, tiles (c :: cs) = .literal l :: tiles rest := by
  have hcloses : closesQuote c cs = true := by
    rw [first_quoted hq, isClosed_quoted hq] at hclosed
    have hmore := closesQuote_append hclosed (cs.drop (quotedLength c cs))
    rwa [List.take_append_drop] at hmore
  have htext : (first c cs).text = (c :: cs).take (quotedLength c cs + 1) := by
    rw [first_quoted hq]
    rfl
  obtain rfl := readQuoted_eq_some hq hcloses h
  exact ⟨_, by rw [tiles_take htext, first_quoted hq]; rfl⟩

theorem first_bracketed {n : Nat} (hhead : cs.head? = some '[' ∨ cs.head? = some '=')
    (h : Tile.longBracket? ('[' :: cs) = some n) : first '[' cs = .literal (('[' :: cs).take n) := by
  rcases hhead with hhead | hhead
  · obtain ⟨cs, rfl⟩ := List.head?_eq_some_iff.mp hhead
    rw [first, h]
  · obtain ⟨cs, rfl⟩ := List.head?_eq_some_iff.mp hhead
    rw [first, h]

private theorem tiles_long (hhead : cs.head? = some '[' ∨ cs.head? = some '=')
    (h : Token.longBracket? cs = some (some (bytes, lines, rest))) :
    ∃ l, tiles ('[' :: cs) = .literal l :: tiles rest := by
  obtain ⟨n, hn, rfl⟩ := Lua.longBracket?_eq_some h
  have hfirst := first_bracketed hhead hn
  exact ⟨_, by rw [tiles_take (congrArg Tile.text hfirst), hfirst]⟩

private theorem tiles_longComment (h : Token.longBracket? cs = some (some (bytes, lines, rest))) :
    ∃ l, tiles ('-' :: '-' :: '[' :: cs) = .comment l :: tiles rest := by
  obtain ⟨n, hn, rfl⟩ := Lua.longBracket?_eq_some h
  have hfirst : first '-' ('-' :: '[' :: cs) =
      .comment (('-' :: '-' :: '[' :: cs).take (n + 2)) := by
    rw [first, hn]
    rfl
  exact ⟨_, by rw [tiles_take (congrArg Tile.text hfirst), hfirst]; rfl⟩

theorem tiles_lineComment (h : Tile.longBracket? line = none) :
    tiles ('-' :: '-' :: line) =
      .comment ('-' :: '-' :: line.take (lineLength line)) :: tiles (line.drop (lineLength line)) := by
  have hfirst : first '-' ('-' :: line) =
      .comment (('-' :: '-' :: line).take (lineLength line + 2)) := by
    rw [first, h]
    rfl
  rw [tiles_take (congrArg Tile.text hfirst), hfirst]
  rfl

theorem isLongComment_line (h : Tile.longBracket? line = none) :
    (Tile.comment ('-' :: '-' :: line.take (lineLength line))).isLongComment = false := by
  rw [isLongComment, Bool.eq_false_iff]
  intro hsome
  obtain ⟨n, hn⟩ := Option.isSome_iff_exists.mp hsome
  obtain ⟨level, inside, hline, -⟩ := Tile.longBracket?_eq_some.mp hn
  have hwhole : line = '[' :: (opener level ++ (inside ++ line.drop (lineLength line))) := by
    rw [← List.append_assoc, ← List.cons_append, ← hline, List.take_append_drop]
  rw [Tile.longBracket?_eq_some.mpr ⟨level, _, hwhole, rfl⟩] at h
  simp at h

/-- The line of a comment has no carriage return in it. -/
private theorem return_not_mem (h : Tile.longBracket? line = none)
    (hlines : (Tile.comment ('-' :: '-' :: line.take (lineLength line))).endsEarly = false) :
    '\r' ∉ (line.take (lineLength line)).dropLast := by
  rw [endsEarly, isLongComment_line h] at hlines
  simp only [Bool.not_false, Bool.true_and, List.contains_eq_mem, decide_eq_false_iff_not] at hlines
  intro hmem
  have hne : line.take (lineLength line) ≠ [] := by
    intro hnil
    rw [hnil] at hmem
    simp at hmem
  refine hlines ?_
  rw [List.dropLast_cons_of_ne_nil (by simp), List.dropLast_cons_of_ne_nil hne]
  simp [hmem]

end Tiles

/-! ## The tokens -/

theorem isSpace_of_isBreak (h : isBreak c = true) : Num.isSpace c = true := by
  rw [isBreak, Bool.or_eq_true, beq_iff_eq, beq_iff_eq] at h
  rcases h with rfl | rfl <;> decide

theorem continuesName_of_startsName (h : startsName c = true) : continuesName c = true := by
  rw [startsName, Bool.or_eq_true] at h
  rw [continuesName, Bool.or_eq_true]
  exact h.imp_left fun h => by simp [Char.isAlphanum, h]

/-- All the tokens could be read. -/
def Readable (ls : List Located) : Prop := ∀ l ∈ ls, l.token ≠ .malformed

theorem not_readable {line : Nat} {ls : List Located} (h : Readable (⟨.malformed, line⟩ :: ls)) :
    False :=
  h _ List.mem_cons_self rfl

/-- The tokens that the lexer finds in so many steps are spelled by the mask. -/
private def Spelled (fuel : Nat) : Prop :=
  ∀ (t : Text) (line i : Nat), Maskable (tiles t) → Readable (lexFrom fuel line t) →
    Spells ((lexFrom fuel line t).map (·.token)) (Mask.textFrom i (tiles t))

section Steps

variable {fuel i : Nat} (ih : Spelled fuel)
include ih

private theorem Spelled.blank {s : Text} (line : Nat) (hs : ∀ c ∈ s, Num.isSpace c = true)
    (hm : Maskable (tiles (s ++ rest))) (hok : Readable (lexFrom fuel line rest)) :
    Spells ((lexFrom fuel line rest).map (·.token)) (Mask.textFrom i (tiles (s ++ rest))) := by
  have htiles : tiles (s ++ rest) = s.map .plain ++ tiles rest :=
    tiles_code (fun c hc => isLone_of_blank (isBlank_of_isSpace (hs c hc))) rest
  rw [htiles] at hm ⊢
  rw [textFrom_code]
  exact (ih rest line i hm.of_append hok).blanks hs

/-- A token made of plain characters. -/
private theorem Spelled.token {tok : Token} {line : Nat} (hw : Written tok w) (hparted : Parted w rest)
    (htiles : tiles (w ++ rest) = w.map .plain ++ tiles rest) (hm : Maskable (tiles (w ++ rest)))
    (hok : Readable (⟨tok, line⟩ :: lexFrom fuel line rest)) :
    Spells (tok :: (lexFrom fuel line rest).map (·.token)) (Mask.textFrom i (tiles (w ++ rest))) := by
  rw [htiles] at hm ⊢
  rw [textFrom_code]
  exact .token hw (parted_textFrom i hm hparted)
    (ih rest line i hm.of_append (List.forall_mem_cons.mp hok).2)

private theorem Spelled.string {l : Text} {bytes : Bytes} {line : Nat}
    (htiles : tiles t = .literal l :: tiles rest) (hm : Maskable (tiles t))
    (hok : Readable (⟨.string bytes, line⟩ :: lexFrom fuel line rest)) :
    Spells (.string bytes :: (lexFrom fuel line rest).map (·.token)) (Mask.textFrom i (tiles t)) := by
  rw [htiles] at hm ⊢
  refine .token .string ?_ (ih rest line (i + 1) hm.tail (List.forall_mem_cons.mp hok).2)
  intro c d hc _ hname
  obtain rfl : Mask.closing = c := Option.some.inj (List.getLast?_concat.symm.trans hc)
  exact absurd hname (by decide)

private theorem Spelled.comment {l : Text} {line : Nat} (htiles : tiles t = .comment l :: tiles rest)
    (hm : Maskable (tiles t)) (hok : Readable (lexFrom fuel line rest)) :
    Spells ((lexFrom fuel line rest).map (·.token)) (Mask.textFrom i (tiles t)) := by
  rw [htiles] at hm ⊢
  exact ih rest line i hm.tail hok

private theorem Spelled.lineComment {text : Text} {line : Nat} (hnone : Tile.longBracket? text = none)
    (hm : Maskable (tiles ('-' :: '-' :: text)))
    (hok : Readable (lexFrom fuel line (afterLine text))) :
    Spells ((lexFrom fuel line (afterLine text)).map (·.token))
      (Mask.textFrom i (tiles ('-' :: '-' :: text))) := by
  have htiles := tiles_lineComment hnone
  have hlines := hm.lines _ (by
    rw [htiles]
    exact List.mem_cons_self)
  rcases afterLine_eq (return_not_mem hnone hlines) with hafter | hafter
  · rw [hafter] at hok ⊢
    exact ih.comment htiles hm hok
  · -- the mask left the carriage return out with the comment
    rw [hafter] at hok ⊢
    have hreturn : tiles ('\r' :: text.drop (lineLength text)) =
        .plain '\r' :: tiles (text.drop (lineLength text)) :=
      tiles_code (s := ['\r']) (by decide) _
    rw [htiles] at hm ⊢
    have hspells := ih _ line i (hreturn ▸ hm.tail.cons_plain (by decide)) hok
    rw [hreturn] at hspells
    exact Spells.trim (u := ['\r']) hspells (by decide)

/-- A name, with all the characters that go on with it. -/
private theorem Spelled.name {line : Nat} (hstart : startsName c = true)
    (hm : Maskable (tiles (c :: cs)))
    (hok : Readable (⟨.ofName (c :: cs.takeWhile continuesName), line⟩ ::
      lexFrom fuel line (cs.dropWhile continuesName))) :
    Spells (.ofName (c :: cs.takeWhile continuesName) ::
        (lexFrom fuel line (cs.dropWhile continuesName)).map (·.token))
      (Mask.textFrom i (tiles (c :: cs))) := by
  have hstops : Stops (cs.dropWhile continuesName) := fun d hd => of_head?_dropWhile hd
  have hmore : ∀ d ∈ cs.takeWhile continuesName, continuesName d = true :=
    fun d hd => List.mem_takeWhile_imp hd
  have hsplit : cs = cs.takeWhile continuesName ++ cs.dropWhile continuesName :=
    List.takeWhile_append_dropWhile.symm
  generalize cs.takeWhile continuesName = more at hok hmore hsplit ⊢
  generalize cs.dropWhile continuesName = rest at hok hstops hsplit ⊢
  subst hsplit
  have hname : IsName (c :: more) := ⟨⟨c, rfl, hstart⟩,
    List.forall_mem_cons.mpr ⟨continuesName_of_startsName hstart, hmore⟩⟩
  refine ih.token (.named hname) (fun d e _ he _ => hstops e he) ?_ hm hok
  exact tiles_code (fun d hd => isLone_of_continuesName (hname.continues d hd)) rest

/-- A mark that begins no comment and no long bracket. -/
private theorem Spelled.mark {m : Mark} {line : Nat} (hread : readMark (c :: cs) = some (m, rest))
    (hdash : ¬ (c = '-' ∧ cs.head? = some '-'))
    (hbracket : c = '[' → cs.head? ≠ some '[' ∧ cs.head? ≠ some '=')
    (hm : Maskable (tiles (c :: cs)))
    (hok : Readable (⟨.mark m, line⟩ :: lexFrom fuel line rest)) :
    Spells (.mark m :: (lexFrom fuel line rest).map (·.token))
      (Mask.textFrom i (tiles (c :: cs))) := by
  obtain ⟨w, htext, hmark⟩ := readMark_eq_some hread
  -- a slash before another or before a star begins a foreign comment
  have hslash {d : Char} (hd : d = '/' ∨ d = '*') : c = '/' → cs.head? ≠ some d := by
    rintro rfl hhead
    obtain ⟨more, rfl⟩ := List.head?_eq_some_iff.mp hhead
    have hforeign := hm.native _ (first_mem_tiles '/' (d :: more))
    rcases hd with rfl | rfl <;> simp [first, isForeign] at hforeign
  have htiles : tiles (w ++ rest) = w.map .plain ++ tiles rest := by
    refine tiles_mark hmark ?_ ?_ ?_
    · rw [← htext]
      rintro ⟨⟩
      exact ⟨hslash (Or.inl rfl) rfl, hslash (Or.inr rfl) rfl⟩
    · rw [← htext]
      simpa using hdash
    · rw [← htext]
      rintro ⟨⟩
      exact hbracket rfl
  rw [htext] at hm ⊢
  refine ih.token (.mark hmark) (fun d e hd _ hname => ?_) htiles hm hok
  have hall : ∀ e ∈ Mark.table, ∀ d ∈ e.2, continuesName d = false := by decide
  simp [hall _ (mem_table_of_readMark hmark) d (List.mem_of_getLast? hd)] at hname

end Steps

/-- The tokens of a source, if they can all be read, are spelled by its mask. -/
private theorem spelled (fuel : Nat) : Spelled fuel := by
  induction fuel with
  | zero => exact fun t line i _ hok => (not_readable hok).elim
  | succ fuel ih =>
      intro t line i hm hok
      cases t with
      | nil => exact .nil
      | cons c cs =>
          generalize hl : lexFrom (fuel + 1) line (c :: cs) = ls at hok ⊢
          rw [lexFrom] at hl
          dsimp only at hl
          -- a line ends
          split at hl
          · rename_i hbreak
            subst hl
            obtain ⟨s, hs, hbreaks⟩ := exists_afterBreak c cs
            generalize afterBreak c cs = rest at hs hok ⊢
            subst hs
            refine ih.blank (s := c :: s) _ (fun d hd => isSpace_of_isBreak ?_) hm hok
            exact (List.forall_mem_cons (p := (isBreak · = true)).mpr ⟨hbreak, hbreaks⟩) d hd
          -- white space
          split at hl
          · rename_i hspace
            subst hl
            exact ih.blank (s := [c]) _ (List.forall_mem_singleton.mpr hspace) hm hok
          -- a name or a word
          split at hl
          · rename_i hstart
            subst hl
            exact ih.name hstart hm hok
          -- a number
          split at hl
          · split at hl
            · rename_i n rest hread
              subst hl
              obtain ⟨w, htext, hne, hchars, htiles, hstops⟩ := readNumeral_eq_some hread
              rw [htext] at hm htiles ⊢
              exact ih.token (.number hne hchars) (fun d e _ he _ => hstops e he) htiles hm hok
            · subst hl
              exact (not_readable hok).elim
          -- a quoted string
          split at hl
          · rename_i hquote
            split at hl
            · rename_i bytes lines rest hread
              subst hl
              have hclosed := hm.closed _ (first_mem_tiles c cs)
              obtain ⟨l, htiles⟩ := tiles_quoted (by simpa [or_comm] using hquote) hclosed hread
              exact ih.string htiles hm hok
            · subst hl
              exact (not_readable hok).elim
          -- a comment, in a long bracket or up to the end of the line
          split at hl
          · rename_i hdash
            rw [Bool.and_eq_true, decide_eq_true_eq, beq_iff_eq] at hdash
            obtain ⟨rfl, hhead⟩ := hdash
            obtain ⟨text, rfl⟩ := List.head?_eq_some_iff.mp hhead
            rw [List.drop_succ_cons, List.drop_zero] at hl
            split at hl
            · split at hl
              · rename_i hread
                subst hl
                obtain ⟨l, htiles⟩ := tiles_longComment hread
                exact ih.comment htiles hm hok
              · subst hl
                exact (not_readable hok).elim
              · rename_i hnone
                subst hl
                exact ih.lineComment (Lua.longBracket?_eq_none hnone) hm hok
            · rename_i hbracket
              subst hl
              refine ih.lineComment ?_ hm hok
              unfold Tile.longBracket?
              split
              · exact absurd rfl (hbracket _)
              · rfl
          -- a string in a long bracket, or else a mark
          split at hl
          · rename_i hopen
            rw [Bool.and_eq_true, decide_eq_true_eq, Bool.or_eq_true, beq_iff_eq, beq_iff_eq] at hopen
            obtain ⟨rfl, hhead⟩ := hopen
            split at hl
            · split at hl
              · rename_i bytes lines rest hread
                subst hl
                obtain ⟨l, htiles⟩ := tiles_long hhead hread
                exact ih.string htiles hm hok
              · subst hl
                exact (not_readable hok).elim
            · subst hl
              exact (not_readable hok).elim
          · split at hl
            · rename_i hdash hbracket _ m rest hread
              subst hl
              refine ih.mark hread (by simpa using hdash) ?_ hm hok
              rintro rfl
              simpa using hbracket
            · subst hl
              exact (not_readable hok).elim

/-- The mask of a source spells the tokens of the source. -/
theorem spells_lex (hm : Maskable (tiles t)) (hok : Readable (lex t)) :
    Spells ((lex t).map (·.token)) (Mask.ofText t).text :=
  spelled _ t 1 0 hm hok

end Maskable

end Lua

end Stencil
