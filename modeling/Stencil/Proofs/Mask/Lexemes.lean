import Stencil.Proofs.Lua.Lexemes
import Stencil.Proofs.Lua.Taking
import Stencil.Proofs.Mask.Tiling
import Mathlib.Data.List.Basic
/-!
# The mask and the lexemes of the language

The mask sees the strings and the comments of a source where the language does, except in three places.
A string ends for the mask at a line feed that no backslash stands before, though the language skips
line feeds after `\z` and takes the two characters of a line break for one. The line of a comment ends
for the language at a carriage return, and for the mask at a line feed only.
-/
namespace Stencil.Lua

open Token Tile

namespace Lexeme

/-- The tiles that cover the lexeme and nothing else. -/
def tiles : Lexeme → List Tile
  | blank t | token _ t => t.map .plain
  | quoted _ t | bracketed _ t => [.literal t]
  | lineComment t | longComment t => [.comment t]

def stringText? : Lexeme → Option Text
  | quoted _ t | bracketed _ t => some t
  | blank _ | token _ _ | lineComment _ | longComment _ => none

/-- Whether a backslash stands before every line feed of a text but its first character. -/
def escapesFeeds : Text → Bool
  | c :: d :: t => (d != '\n' || c == '\\') && escapesFeeds (d :: t)
  | _ => true

/-- Whether the mask ends the lexeme where the language does. With `returns`, a carriage return that a
comment takes along may pass if it is all of the line that is left. -/
def agrees (returns : Bool) : Lexeme → Text → Bool
  | quoted _ t, _ => escapesFeeds t
  | lineComment _, '\r' :: rest => returns && rest.head?.all (· == '\n')
  | _, _ => true

/-- Whether no `//` and no `/*` begins in the lexeme, unless it is a string or a comment. -/
def isNative : Lexeme → Text → Bool
  | token _ ['/', '/'], _ => false
  | token _ ['/'], rest => rest.head? != some '*'
  | _, _ => true

/-- Whether something holds of every lexeme and the text after it. -/
def everywhere (p : Lexeme → Text → Bool) : List Lexeme → Bool
  | [] => true
  | x :: xs => p x (xs.flatMap text) && everywhere p xs

end Lexeme

/-- A comment that takes a carriage return along gives it back. -/
def shed : Tile → List Tile
  | .comment t =>
    if !(Tile.comment t).isLongComment && t.getLast? == some '\r' then
      [.comment t.dropLast, .plain '\r']
    else [.comment t]
  | x => [x]

/-- The tiles of a source, or what they are when every comment has given its carriage return back. -/
def tilesUpTo (returns : Bool) (t : Text) : List Tile :=
  if returns then (tiles t).flatMap shed else tiles t

section Agreement

open Lexeme

variable {returns : Bool} {c quote : Char} {cs t w rest : Text} {ts ys : List Tile} {x : Lexeme}

private theorem tilesUpTo_append (hts : ∀ y ∈ ts, shed y = [y]) (h : tiles t = ts ++ tiles rest) :
    tilesUpTo returns t = ts ++ tilesUpTo returns rest := by
  cases returns with
  | false => exact h
  | true =>
      have hkept : ts.flatMap shed = ts := by
        rw [List.flatMap_congr hts]
        exact List.flatMap_singleton' ts
      rw [tilesUpTo, if_pos rfl, h, List.flatMap_append, hkept]
      rfl

private theorem shed_plain {y : Tile} (h : y ∈ w.map Tile.plain) : shed y = [y] := by
  obtain ⟨d, -, rfl⟩ := List.mem_map.mp h
  rfl

private theorem tiles_of_first {y : Tile} (htext : y.text = c :: w) (h : first c (w ++ rest) = y) :
    tiles (c :: (w ++ rest)) = [y] ++ tiles rest := by
  rw [tiles_cons (h ▸ htext), h]
  rfl

/-- The first tile of a source, if it is a literal, gives nothing back. -/
private theorem head?_tilesUpTo (returns : Bool) {l : Text} (h : first c cs = .literal l) :
    (tilesUpTo returns (c :: cs)).head? = some (.literal l) := by
  have htiles : tiles (c :: cs) = .literal l :: (tiles (c :: cs)).tail := by
    rw [tiles, tilesFrom, h]
    rfl
  cases returns with
  | false => rw [tilesUpTo, if_neg Bool.false_ne_true, htiles, List.head?_cons]
  | true =>
      rw [tilesUpTo, if_pos rfl, htiles]
      rfl

/-! ## Strings -/

/-- The mask finds the end of a string if every line feed in it is escaped. -/
private theorem take_quotedLength_iff {p : Char} {body : Text} (rest : Text)
    (hquote : quote = '\'' ∨ quote = '"') (h : StringBody quote p body) :
    (body ++ quote :: rest).take (quotedLength quote (body ++ quote :: rest)) = body ++ [quote] ↔
      escapesFeeds (p :: (body ++ [quote])) = true := by
  have hback : quote ≠ '\\' := by rcases hquote with rfl | rfl <;> decide
  have hfeed : quote ≠ '\n' := by rcases hquote with rfl | rfl <;> decide
  induction h with
  | nil =>
      rw [List.nil_append, quotedLength_cons hback, if_neg hfeed, if_pos rfl]
      simp [escapesFeeds, hfeed]
  | @char p c t hc hopen hbreak _ ih =>
      rw [List.cons_append, quotedLength_cons hc, List.cons_append, escapesFeeds]
      by_cases hline : c = '\n'
      · -- the mask ends the string before the line feed
        simp [hline, hbreak hline]
      · rw [if_neg hline, if_neg hopen, List.take_succ_cons, List.cons.injEq]
        simp [hline, ih]
  | @escape p c t _ ih =>
      rw [List.cons_append, List.cons_append, quotedLength, List.take_succ_cons, List.take_succ_cons]
      simp [escapesFeeds, ih]

private theorem tilesUpTo_quoted {bytes : Bytes} {body : Text} (hquote : quote = '\'' ∨ quote = '"')
    (h : StringBody quote quote body) :
    tilesUpTo returns (quote :: (body ++ [quote]) ++ rest) =
        [.literal (quote :: (body ++ [quote]))] ++ ys ↔
      (Lexeme.quoted bytes (quote :: (body ++ [quote]))).agrees returns rest = true ∧
        ys = tilesUpTo returns rest := by
  have hfirst := first_quoted hquote (body ++ [quote] ++ rest)
  have htake := take_quotedLength_iff rest hquote h
  rw [List.append_cons] at htake
  rw [agrees, ← htake, List.cons_append]
  constructor
  · intro heq
    have hhead := head?_tilesUpTo returns hfirst
    rw [heq] at hhead
    rw [List.singleton_append, List.head?_cons, Option.some.injEq, Tile.literal.injEq,
      List.cons.injEq] at hhead
    refine ⟨hhead.2.symm, ?_⟩
    rw [← hhead.2] at hfirst
    rw [tilesUpTo_append (by simp [shed]) (tiles_of_first rfl hfirst)] at heq
    exact (List.append_cancel_left heq).symm
  · rintro ⟨hsame, rfl⟩
    rw [hsame] at hfirst
    exact tilesUpTo_append (by simp [shed]) (tiles_of_first rfl hfirst)

/-! ## Comments -/

private theorem lineLength_eq_zero_iff : lineLength t = 0 ↔ t.head?.all (· == '\n') = true := by
  cases t with
  | nil => simp [lineLength]
  | cons c t =>
      rw [lineLength, List.takeWhile_cons, List.head?_cons, Option.all_some]
      by_cases hc : c = '\n' <;> simp [hc]

/-- A comment gives back one character at most. -/
private theorem exists_head?_shed (t : Text) :
    ∃ l, (shed (.comment t)).head? = some (.comment l) ∧ t.length ≤ l.length + 1 := by
  rw [shed]
  split
  · exact ⟨_, rfl, by rw [List.length_dropLast]; omega⟩
  · exact ⟨_, rfl, Nat.le_succ _⟩

/-- The mask takes what is left of the line along. -/
private theorem tiles_lineComment_append (hnone : Tile.longBracket? (w ++ rest) = none)
    (hline : ∀ c ∈ w, isBreak c = false) :
    tiles ('-' :: '-' :: (w ++ rest)) =
        .comment ('-' :: '-' :: (w ++ rest.take (lineLength rest))) ::
          tiles (rest.drop (lineLength rest)) ∧
      (Tile.comment ('-' :: '-' :: (w ++ rest.take (lineLength rest)))).isLongComment = false := by
  have hlength : lineLength (w ++ rest) = w.length + lineLength rest := by
    rw [lineLength, List.takeWhile_append_of_pos fun c hc => ?_, List.length_append]
    · rfl
    · have hbreak := hline c hc
      rw [isBreak, Bool.or_eq_false_iff] at hbreak
      exact congrArg (!·) hbreak.1
  have htiles := tiles_lineComment hnone
  have hshort := isLongComment_line hnone
  rw [hlength, List.take_length_add_append] at htiles hshort
  rw [List.drop_length_add_append] at htiles
  exact ⟨htiles, hshort⟩

/-- A line that ends in a carriage return is longer for the mask, by that character only if nothing
else is left of it. -/
private theorem tilesUpTo_returned (hnone : Tile.longBracket? (w ++ '\r' :: rest) = none)
    (hline : ∀ c ∈ w, isBreak c = false) :
    tilesUpTo returns ('-' :: '-' :: (w ++ '\r' :: rest)) = [.comment ('-' :: '-' :: w)] ++ ys ↔
      (returns && rest.head?.all (· == '\n')) = true ∧ ys = tilesUpTo returns ('\r' :: rest) := by
  obtain ⟨htiles, hshort⟩ := tiles_lineComment_append hnone hline
  have hmore : lineLength ('\r' :: rest) = lineLength rest + 1 := rfl
  rw [hmore, List.take_succ_cons] at hshort htiles
  rw [List.drop_succ_cons] at htiles
  cases returns with
  | false =>
      rw [tilesUpTo, if_neg Bool.false_ne_true, htiles]
      simp
  | true =>
      rw [Bool.true_and, ← lineLength_eq_zero_iff, tilesUpTo, if_pos rfl, htiles, List.flatMap_cons]
      by_cases hzero : lineLength rest = 0
      · have hreturn : tilesUpTo true ('\r' :: rest) = [.plain '\r'] ++ tilesUpTo true rest :=
          tilesUpTo_append (by simp [shed]) (tiles_code (s := ['\r']) (by decide) rest)
        have hshed : shed (.comment ('-' :: '-' :: (w ++ ['\r']))) =
            [.comment ('-' :: '-' :: w), .plain '\r'] := by
          rw [hzero, List.take_zero] at hshort
          rw [shed, hshort, ← List.cons_append, ← List.cons_append, List.getLast?_concat,
            List.dropLast_concat]
          rfl
        rw [hzero, List.take_zero, hshed, hreturn, List.drop_zero, tilesUpTo, if_pos rfl]
        simp [eq_comm]
      · obtain ⟨l, hhead, hlong⟩ :=
          exists_head?_shed ('-' :: '-' :: (w ++ '\r' :: rest.take (lineLength rest)))
        have hle : lineLength rest ≤ rest.length := (List.takeWhile_prefix _).length_le
        constructor
        · intro heq
          have hsame := congrArg List.head? heq
          rw [List.head?_append, hhead] at hsame
          obtain rfl := Tile.comment.inj (Option.some.inj hsame)
          simp only [List.length_cons, List.length_append, List.length_take] at hlong
          omega
        · exact fun h => absurd h.1 hzero

private theorem tilesUpTo_lineComment (hnone : Tile.longBracket? (w ++ rest) = none)
    (hline : ∀ c ∈ w, isBreak c = false) (hend : ∀ c, rest.head? = some c → isBreak c = true) :
    tilesUpTo returns ('-' :: '-' :: (w ++ rest)) = [.comment ('-' :: '-' :: w)] ++ ys ↔
      (Lexeme.lineComment ('-' :: '-' :: w)).agrees returns rest = true ∧
        ys = tilesUpTo returns rest := by
  by_cases hreturn : rest.head? = some '\r'
  · obtain ⟨rest, rfl⟩ := List.head?_eq_some_iff.mp hreturn
    exact tilesUpTo_returned hnone hline
  · obtain ⟨hzero, hagrees⟩ : lineLength rest = 0 ∧
        (Lexeme.lineComment ('-' :: '-' :: w)).agrees returns rest = true := by
      cases rest with
      | nil => exact ⟨rfl, rfl⟩
      | cons c rest =>
          have hc := hend c rfl
          rw [isBreak, Bool.or_eq_true, beq_iff_eq, beq_iff_eq] at hc
          obtain rfl := hc.resolve_right fun hc => hreturn (congrArg some hc)
          exact ⟨rfl, rfl⟩
    have hkept : shed (.comment ('-' :: '-' :: w)) = [.comment ('-' :: '-' :: w)] := by
      have hlast : (('-' :: '-' :: w).getLast? == some '\r') = false := by
        rw [beq_eq_false_iff_ne]
        intro hlast
        have hmem : '\r' ∈ w := by simpa using List.mem_of_getLast? hlast
        cases hline '\r' hmem
      rw [shed, hlast, Bool.and_false]
      rfl
    obtain ⟨htiles, -⟩ := tiles_lineComment_append hnone hline
    rw [hzero, List.take_zero, List.append_nil] at htiles
    rw [tilesUpTo_append (List.forall_mem_singleton.mpr hkept) htiles, List.append_cancel_left_eq,
      hagrees]
    simp [eq_comm]

/-! ## Lexemes -/

private theorem tiles_native_mark {m : Mark} (hread : readMark (w ++ rest) = some (m, rest))
    (hnative : (Lexeme.token (.mark m) w).isNative rest = true)
    (hdash : ¬ ((w ++ rest).head? = some '-' ∧ (w ++ rest).tail.head? = some '-'))
    (hbracket : (w ++ rest).head? = some '[' →
      (w ++ rest).tail.head? ≠ some '[' ∧ (w ++ rest).tail.head? ≠ some '=') :
    tiles (w ++ rest) = w.map .plain ++ tiles rest := by
  obtain ⟨w', hw, hmark⟩ := readMark_eq_some hread
  obtain rfl : w = w' := List.append_cancel_right hw
  refine tiles_mark hmark (fun hslash => ?_) hdash hbracket
  have hall : ∀ e ∈ Mark.table, e.2 ≠ [] ∧
      (e.2.head? = some '/' → e.2 = ['/'] ∨ e.2 = ['/', '/']) := by decide
  obtain ⟨hne, hslashes⟩ := hall _ (mem_table_of_readMark hmark)
  rw [List.head?_append_of_ne_nil _ hne] at hslash
  rcases hslashes hslash with rfl | rfl
  · refine ⟨fun hmore => ?_, by simpa [isNative] using hnative⟩
    -- the longest mark would be the two slashes
    obtain ⟨r, rfl⟩ := List.head?_eq_some_iff.mp hmore
    simp [readMark] at hread
  · cases hnative

/-- The mask begins with the tiles of the first lexeme if it ends the lexeme where the language does,
and goes on with the text after it. -/
theorem Begins.tilesUpTo_iff (h : Begins x rest) (hnative : x.isNative rest = true) :
    tilesUpTo returns (x.text ++ rest) = x.tiles ++ ys ↔
      x.agrees returns rest = true ∧ ys = tilesUpTo returns rest := by
  -- tiles that are those of the lexeme whatever follows it
  have same {t : Text} {ts : List Tile} (hts : ∀ y ∈ ts, shed y = [y])
      (htiles : Stencil.tiles t = ts ++ Stencil.tiles rest) :
      tilesUpTo returns t = ts ++ ys ↔ true = true ∧ ys = tilesUpTo returns rest := by
    rw [tilesUpTo_append hts htiles, List.append_cancel_left_eq]
    simp [eq_comm]
  cases h with
  | blank hblank =>
      exact same (fun _ => shed_plain)
        (tiles_code (fun c hc => isLone_of_blank (isBlank_of_isSpace (hblank c hc))) rest)
  | name hname =>
      exact same (fun _ => shed_plain)
        (tiles_code (fun c hc => isLone_of_continuesName (hname.continues c hc)) rest)
  | numeral htiles => exact same (fun _ => shed_plain) htiles
  | quoted hquote hbody => exact tilesUpTo_quoted hquote hbody
  | @bracketed _ w _ hfirst =>
      have hshed : ∀ y ∈ [Tile.literal ('[' :: w)], shed y = [y] := by simp [shed]
      exact same hshed (tiles_of_first rfl hfirst)
  | lineComment hnone hline hend => exact tilesUpTo_lineComment hnone hline hend
  | @longComment w _ hlong hfirst =>
      have hshed : ∀ y ∈ [Tile.comment ('-' :: '-' :: w)], shed y = [y] := by
        simp [shed, isLongComment, hlong]
      exact same hshed (tiles_of_first rfl hfirst)
  | mark hread hdash hbracket =>
      exact same (fun _ => shed_plain) (tiles_native_mark hread hnative hdash hbracket)

/-- The mask cuts a source into the tiles of its lexemes if it ends each where the language does. -/
theorem Lexes.tilesUpTo_iff {xs : List Lexeme} (h : Lexes xs t) (returns : Bool)
    (hnative : everywhere isNative xs = true) :
    tilesUpTo returns t = xs.flatMap Lexeme.tiles ↔ everywhere (agrees returns) xs = true := by
  induction h with
  | nil => cases returns <;> exact ⟨fun _ => rfl, fun _ => rfl⟩
  | cons hbegins hxs ih =>
      rw [everywhere, Bool.and_eq_true, hxs.flatMap_text] at hnative
      rw [everywhere, Bool.and_eq_true, hxs.flatMap_text, List.flatMap_cons,
        hbegins.tilesUpTo_iff hnative.1, ← ih hnative.2, eq_comm (a := tilesUpTo returns _)]

private theorem literalText?_tilesUpTo (returns : Bool) (t : Text) :
    (tilesUpTo returns t).filterMap literalText? = (Mask.ofText t).literals := by
  rw [Mask.ofText, literalsOf_eq]
  cases returns with
  | false => rfl
  | true =>
      rw [tilesUpTo, if_pos rfl]
      induction tiles t with
      | nil => rfl
      | cons y ts ih =>
          have hshed : (shed y).filterMap literalText? = [y].filterMap literalText? := by
            unfold shed
            split
            · split <;> rfl
            · rfl
          rw [List.flatMap_cons, List.filterMap_append, hshed, ih, ← List.filterMap_append]
          rfl

private theorem literalText?_lexemes (xs : List Lexeme) :
    (xs.flatMap Lexeme.tiles).filterMap literalText? = xs.filterMap stringText? := by
  have hplain (w : Text) : (w.map Tile.plain).filterMap literalText? = [] := by
    rw [← literalsOf_eq, Symbol.literalsOf_plain]
  induction xs with
  | nil => rfl
  | cons x xs ih =>
      rw [List.flatMap_cons, List.filterMap_append, ih]
      cases x with
      | blank w => exact congrArg (· ++ _) (hplain w)
      | token _ w => exact congrArg (· ++ _) (hplain w)
      | _ => rfl

end Agreement

section Chunks

open Lexeme

/-- In a chunk without `//` and `/*` outside strings and comments, the literals and the comments of the
mask are the strings and the comments of the language if and only if every line feed in a quoted string
follows a backslash and no line comment is followed by a carriage return. They are the same up to one
carriage return at the end of a comment if and only if every line feed in a quoted string follows a
backslash and a carriage return after a line comment comes before a line feed or at the end of the
source; and then the literals are the strings. -/
theorem tiles_lexemes_iff {room : Nat} {t : Text} (hvalid : (Parse.chunk room (lex t)).isOk = true)
    (hnative : everywhere isNative (lexemes t) = true) :
    (lexemes t).flatMap Lexeme.text = t ∧
      (lexemes t).filterMap token? = (lex t).map (·.token) ∧
      (tiles t = (lexemes t).flatMap Lexeme.tiles ↔ everywhere (agrees false) (lexemes t) = true) ∧
      (tilesUpTo true t = (lexemes t).flatMap Lexeme.tiles ↔
        everywhere (agrees true) (lexemes t) = true) ∧
      (everywhere (agrees true) (lexemes t) = true →
        (Mask.ofText t).literals = (lexemes t).filterMap stringText?) := by
  have hread : Readable (lex t) := by
    cases hb : Parse.chunk room (lex t) with
    | error refusal =>
        rw [hb] at hvalid
        cases hvalid
    | ok b => exact fun l hl => (Parse.body_of_chunk hb).phrase.readable _ (List.mem_map_of_mem hl)
  have hlexes := lexes_lexemes hread
  have hreturns := hlexes.tilesUpTo_iff true hnative
  refine ⟨hlexes.flatMap_text, tokens_lexemes hread, hlexes.tilesUpTo_iff false hnative,
    hreturns, fun hagrees => ?_⟩
  rw [← literalText?_tilesUpTo true, hreturns.mpr hagrees, literalText?_lexemes]

/-- Strings of every kind, with comments in between and line breaks of two characters. -/
private def kinds : Text :=
  "s = \"a\\\n\\x41\\\"\" .. 'q' -- [[ c\r\nt = [==[ ]] \"q\" ]==] --[[ '\r ]]\r\nx = t[s]".toList

theorem tiles_lexemes_iff_kinds :
    (Parse.chunk 9 (lex kinds)).isOk = true ∧ everywhere isNative (lexemes kinds) = true ∧
      (Mask.ofText kinds).literals = (lexemes kinds).filterMap stringText? ∧
      (lexemes kinds).filterMap stringText? =
        ["\"a\\\n\\x41\\\"\"".toList, "'q'".toList, "[==[ ]] \"q\" ]==]".toList] := by
  have hvalid : (Parse.chunk 9 (lex kinds)).isOk = true := by decide +kernel
  have hnative : everywhere isNative (lexemes kinds) = true := by decide +kernel
  obtain ⟨-, -, -, -, hliterals⟩ := tiles_lexemes_iff hvalid hnative
  exact ⟨hvalid, hnative, hliterals (by decide +kernel), by decide +kernel⟩

/-- A string that skips a line feed. -/
private def skipping : Text := "x = \"a\\z\n  b\"".toList

/-- The mask ends the string at the line feed, and begins another one at the closing quote. -/
theorem literals_part_skipped_feed :
    (Parse.chunk 9 (lex skipping)).isOk = true ∧ everywhere isNative (lexemes skipping) = true ∧
      (lexemes skipping).filterMap stringText? = ["\"a\\z\n  b\"".toList] ∧
      (Mask.ofText skipping).literals = ["\"a\\z".toList, "\"".toList] := by
  decide +kernel

end Chunks

end Stencil.Lua
