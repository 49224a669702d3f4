import Stencil.Proofs.Lua.Lexing
/-!
# Lexemes

The lexer of the fragment language reads a source in steps, each of which takes white space, a token or
a comment. The lexemes are the texts that the steps take: they cover the source without a gap, and their
tokens are the tokens of the source.
-/
namespace Stencil.Lua

open Token Tile

/-- What one step of the lexer takes, with its text. -/
inductive Lexeme where
  | blank (text : Text)
  | token (tok : Token) (text : Text)
  | quoted (bytes : Bytes) (text : Text)
  | bracketed (bytes : Bytes) (text : Text)
  | lineComment (text : Text)
  | longComment (text : Text)

namespace Lexeme

def text : Lexeme → Text
  | blank t | token _ t | quoted _ t | bracketed _ t | lineComment t | longComment t => t

def token? : Lexeme → Option Token
  | token tok _ => some tok
  | quoted bytes _ | bracketed bytes _ => some (.string bytes)
  | blank _ | lineComment _ | longComment _ => none

/-- The front of a text, up to the rest of it. -/
def front (t rest : Text) : Text := t.take (t.length - rest.length)

@[simp] theorem front_append (w rest : Text) : front (w ++ rest) rest = w := by simp [front]

/-- The lexeme at the front of a text, the lines that end in it, and the text after it. -/
def first? (c : Char) (cs : Text) : Option (Lexeme × Nat × Text) :=
  if isBreak c then some (.blank (front (c :: cs) (afterBreak c cs)), 1, afterBreak c cs)
  else if Num.isSpace c then some (.blank [c], 0, cs)
  else if startsName c then
    let name := c :: cs.takeWhile continuesName
    some (.token (.ofName name) name, 0, cs.dropWhile continuesName)
  else if c.isDigit || (c == '.' && cs.head?.any Char.isDigit) then
    (readNumeral (c :: cs)).map fun (n, rest) => (.token (.number n) (front (c :: cs) rest), 0, rest)
  else if c = '"' || c = '\'' then
    (readQuoted c (cs.length + 1) cs).map fun (bytes, lines, rest) =>
      (.quoted bytes (front (c :: cs) rest), lines, rest)
  else if c = '-' && cs.head? == some '-' then
    let line := cs.drop 1
    match if line.head? == some '[' then Token.longBracket? line.tail else none with
    | some found => found.map fun (_, lines, rest) => (.longComment (front (c :: cs) rest), lines, rest)
    | none => some (.lineComment (front (c :: cs) (afterLine line)), 0, afterLine line)
  else if c = '[' && (cs.head? == some '[' || cs.head? == some '=') then
    (Token.longBracket? cs).join.map fun (bytes, lines, rest) =>
      (.bracketed bytes (front (c :: cs) rest), lines, rest)
  else
    (readMark (c :: cs)).map fun (m, rest) => (.token (.mark m) (front (c :: cs) rest), 0, rest)

end Lexeme

/-- The lexemes that so many steps take. -/
def lexemesFrom : Nat → Text → List Lexeme
  | fuel + 1, c :: cs =>
    match Lexeme.first? c cs with
    | some (x, _, rest) => x :: lexemesFrom fuel rest
    | none => []
  | _, _ => []

def lexemes (t : Text) : List Lexeme := lexemesFrom (t.length + 1) t

/-- A step of the lexer takes the first lexeme. -/
theorem lexFrom_cons (fuel line : Nat) (c : Char) (cs : Text) :
    lexFrom (fuel + 1) line (c :: cs) =
      match Lexeme.first? c cs with
      | some (x, lines, rest) =>
        x.token?.toList.map (⟨·, line + lines⟩) ++ lexFrom fuel (line + lines) rest
      | none => [⟨.malformed, line⟩] := by
  rw [lexFrom, Lexeme.first?]
  dsimp only
  split
  · rfl
  split
  · rfl
  split
  · rfl
  split
  · cases readNumeral (c :: cs) <;> rfl
  split
  · cases readQuoted c (cs.length + 1) cs <;> rfl
  split
  · generalize cs.drop 1 = line
    split
    · rename_i inside
      rw [List.head?_cons, List.tail_cons, beq_self_eq_true, if_pos rfl]
      rcases Token.longBracket? inside with _ | _ | _ <;> rfl
    · rename_i hopen
      have hhead : (line.head? == some '[') = false := by
        rw [beq_eq_false_iff_ne]
        exact fun h => hopen _ (List.head?_eq_some_iff.mp h).choose_spec
      rw [hhead]
      rfl
  split
  · rcases Token.longBracket? cs with _ | _ | _ <;> rfl
  · cases readMark (c :: cs) <;> rfl

/-! ## How the lexemes are read -/

/-- What a string holds, after the given character: escaped characters, and others than its quote. A
line feed that is not escaped is blank that an escape skips, or the second half of an escaped line
break. -/
inductive StringBody (quote : Char) : Char → Text → Prop
  | nil {p : Char} : StringBody quote p []
  | char {p c : Char} {t : Text} : c ≠ '\\' → c ≠ quote → (c = '\n' → p ≠ '\\') →
      StringBody quote c t → StringBody quote p (c :: t)
  | escape {p c : Char} {t : Text} : StringBody quote c t → StringBody quote p ('\\' :: c :: t)

/-- The lexeme comes first in a text that goes on with the rest. Numerals and long brackets are said by
what the mask finds there. -/
inductive Begins : Lexeme → Text → Prop
  | blank {w rest : Text} : (∀ c ∈ w, Num.isSpace c = true) → Begins (.blank w) rest
  | name {w rest : Text} : IsName w → Begins (.token (.ofName w) w) rest
  | numeral {n : Num} {w rest : Text} : tiles (w ++ rest) = w.map .plain ++ tiles rest →
      Begins (.token (.number n) w) rest
  | quoted {quote : Char} {bytes : Bytes} {body rest : Text} : quote = '\'' ∨ quote = '"' →
      StringBody quote quote body → Begins (.quoted bytes (quote :: (body ++ [quote]))) rest
  | bracketed {bytes : Bytes} {w rest : Text} : first '[' (w ++ rest) = .literal ('[' :: w) →
      Begins (.bracketed bytes ('[' :: w)) rest
  | lineComment {w rest : Text} : Tile.longBracket? (w ++ rest) = none →
      (∀ c ∈ w, isBreak c = false) → (∀ c, rest.head? = some c → isBreak c = true) →
      Begins (.lineComment ('-' :: '-' :: w)) rest
  | longComment {w rest : Text} : (Tile.longBracket? w).isSome = true →
      first '-' ('-' :: (w ++ rest)) = .comment ('-' :: '-' :: w) →
      Begins (.longComment ('-' :: '-' :: w)) rest
  | mark {m : Mark} {w rest : Text} : readMark (w ++ rest) = some (m, rest) →
      ¬ ((w ++ rest).head? = some '-' ∧ (w ++ rest).tail.head? = some '-') →
      ((w ++ rest).head? = some '[' →
        (w ++ rest).tail.head? ≠ some '[' ∧ (w ++ rest).tail.head? ≠ some '=') →
      Begins (.token (.mark m) w) rest

/-- The lexemes cover the text from its beginning to its end. -/
inductive Lexes : List Lexeme → Text → Prop
  | nil : Lexes [] []
  | cons {x : Lexeme} {xs : List Lexeme} {rest : Text} : Begins x rest → Lexes xs rest →
      Lexes (x :: xs) (x.text ++ rest)

theorem Lexes.flatMap_text {xs : List Lexeme} {t : Text} (h : Lexes xs t) :
    xs.flatMap Lexeme.text = t := by
  induction h with
  | nil => rfl
  | cons _ _ ih => rw [List.flatMap_cons, ih]

section Reading

variable {c q : Char} {cs t rest : Text} {fuel lines : Nat} {bytes : Bytes}

private theorem StringBody.append {p : Char} {s : Text} (hs : ∀ d ∈ s, Ordinary d)
    (hq : q = '\'' ∨ q = '"') (hp : p = '\\' → s = []) (h : ∀ p, StringBody q p t) :
    StringBody q p (s ++ t) := by
  induction s generalizing p with
  | nil => exact h p
  | cons d s ih =>
      obtain ⟨⟨hd, hsingle, hdouble⟩, hs⟩ := List.forall_mem_cons.mp hs
      have hne : d ≠ q := by rcases hq with rfl | rfl <;> assumption
      exact .char hd hne (fun _ hback => by cases hp hback) (ih hs fun hback => absurd hback hd)

/-- What is read of a string is its body and the quote that closes it. -/
theorem readQuoted_body (hq : q = '\'' ∨ q = '"')
    (h : readQuoted q fuel t = some (bytes, lines, rest)) :
    ∃ body, t = body ++ q :: rest ∧ ∀ p, StringBody q p body := by
  induction fuel generalizing t bytes lines with
  | zero => simp [readQuoted] at h
  | succ fuel ih =>
      cases t with
      | nil => simp [readQuoted] at h
      | cons c cs =>
          rw [readQuoted] at h
          split at h
          · rename_i hquote
            subst hquote
            obtain rfl : cs = rest := congrArg (·.2.2) (Option.some.inj h)
            exact ⟨[], rfl, fun _ => .nil⟩
          · rename_i hopen
            split at h
            · simp at h
            · rename_i hbreak
              split at h
              · rename_i hescape
                subst hescape
                split at h
                · simp at h
                · rename_i b l more hread
                  obtain ⟨⟨b', l', r⟩, hrest, hpair⟩ := Option.map_eq_some_iff.mp h
                  obtain rfl : r = rest := congrArg (·.2.2) hpair
                  obtain ⟨d, s, rfl, hs, hback⟩ := readEscape_eq_some hread
                  obtain ⟨body, rfl, hbody⟩ := ih hrest
                  exact ⟨'\\' :: d :: (s ++ body), by simp,
                    fun _ => .escape (StringBody.append hs hq hback hbody)⟩
              · rename_i hplain
                obtain ⟨⟨b, l, r⟩, hread, hpair⟩ := Option.map_eq_some_iff.mp h
                obtain rfl : r = rest := congrArg (·.2.2) hpair
                obtain ⟨body, rfl, hbody⟩ := ih hread
                refine ⟨c :: body, rfl, fun _ => .char hplain hopen (fun hfeed => ?_) (hbody c)⟩
                exact absurd (by rw [hfeed]; rfl) hbreak

/-- A long bracket is the stretch that the mask measures, and begins a long bracket of its own. -/
private theorem exists_bracket (h : Token.longBracket? t = some (some (bytes, lines, rest))) :
    ∃ n w, Tile.longBracket? ('[' :: t) = some n ∧ ('[' :: t).take n = '[' :: w ∧ t = w ++ rest ∧
      (Tile.longBracket? ('[' :: w)).isSome = true := by
  obtain ⟨n, hn, rfl⟩ := Lua.longBracket?_eq_some h
  obtain ⟨level, inside, ht, rfl⟩ := Tile.longBracket?_eq_some.mp hn
  have htake := take_opener level (bracketLength level inside) inside
  rw [← ht] at htake
  refine ⟨_, _, hn, htake, ?_, ?_⟩
  · have hsplit := List.take_append_drop (level + 2 + bracketLength level inside) ('[' :: t)
    rw [htake] at hsplit
    exact (List.cons.inj hsplit).2.symm
  · rw [Tile.longBracket?_eq_some.mpr ⟨level, _, rfl, rfl⟩]
    rfl

private theorem begins_bracketed (hhead : cs.head? = some '[' ∨ cs.head? = some '=')
    (h : Token.longBracket? cs = some (some (bytes, lines, rest))) :
    ∃ w, cs = w ++ rest ∧ Begins (.bracketed bytes ('[' :: w)) rest := by
  obtain ⟨n, w, hn, hw, rfl, -⟩ := exists_bracket h
  exact ⟨w, rfl, .bracketed (by rw [first_bracketed hhead hn, hw])⟩

private theorem begins_longComment (h : Token.longBracket? cs = some (some (bytes, lines, rest))) :
    ∃ w, cs = w ++ rest ∧ Begins (.longComment ('-' :: '-' :: '[' :: w)) rest := by
  obtain ⟨n, w, hn, hw, rfl, hsome⟩ := exists_bracket h
  exact ⟨w, rfl, .longComment hsome (by rw [List.cons_append, first, hn, ← hw])⟩

/-- Where the lexer finds no long bracket, the mask finds none. -/
private theorem longBracket?_of_read {line : Text}
    (h : (if line.head? == some '[' then Token.longBracket? line.tail else none) = none) :
    Tile.longBracket? line = none := by
  cases line with
  | nil => rfl
  | cons d inside =>
      by_cases hd : d = '['
      · subst hd
        exact Lua.longBracket?_eq_none h
      · unfold Tile.longBracket?
        split
        · rename_i hopen
          exact absurd (List.cons.inj hopen).1 hd
        · rfl

private theorem begins_lineComment {line : Text} (h : Tile.longBracket? line = none) :
    ∃ w, line = w ++ afterLine line ∧ Begins (.lineComment ('-' :: '-' :: w)) (afterLine line) := by
  have hsplit : line.takeWhile (fun d => !isBreak d) ++ afterLine line = line :=
    List.takeWhile_append_dropWhile
  refine ⟨_, hsplit.symm, .lineComment (hsplit.symm ▸ h) (fun d hd => ?_) fun d hd => ?_⟩
  · simpa using List.mem_takeWhile_imp hd
  · simpa using of_head?_dropWhile hd

/-- A lexeme that is read comes first. -/
theorem Lexeme.begins_of_first? {x : Lexeme} (h : Lexeme.first? c cs = some (x, lines, rest)) :
    c :: cs = x.text ++ rest ∧ Begins x rest := by
  -- all of the lexemes but one-character blanks and names are the front of the text
  have found {w : Text} {y : Text → Lexeme} (ht : c :: cs = w ++ rest) (htext : (y w).text = w)
      (hbegins : Begins (y w) rest) (hx : y (Lexeme.front (c :: cs) rest) = x) :
      c :: cs = x.text ++ rest ∧ Begins x rest := by
    rw [ht, front_append] at hx
    rw [← hx]
    exact ⟨ht.trans (by rw [htext]), hbegins⟩
  rw [Lexeme.first?] at h
  -- a line ends
  split at h
  · rename_i hbreak
    simp only [Option.some.injEq, Prod.mk.injEq] at h
    obtain ⟨hx, -, rfl⟩ := h
    obtain ⟨s, hs, hbreaks⟩ := exists_afterBreak c cs
    refine found (w := c :: s) (congrArg (c :: ·) hs) rfl (.blank fun d hd => ?_) hx
    exact isSpace_of_isBreak ((List.forall_mem_cons (p := (isBreak · = true)).mpr
      ⟨hbreak, hbreaks⟩) d hd)
  -- white space
  split at h
  · rename_i hspace
    simp only [Option.some.injEq, Prod.mk.injEq] at h
    obtain ⟨rfl, -, rfl⟩ := h
    exact ⟨rfl, .blank (List.forall_mem_singleton.mpr hspace)⟩
  -- a name or a word
  split at h
  · rename_i hstart
    simp only [Option.some.injEq, Prod.mk.injEq] at h
    obtain ⟨rfl, -, rfl⟩ := h
    refine ⟨congrArg (c :: ·) List.takeWhile_append_dropWhile.symm, .name ⟨⟨c, rfl, hstart⟩, ?_⟩⟩
    exact List.forall_mem_cons.mpr
      ⟨continuesName_of_startsName hstart, fun d hd => List.mem_takeWhile_imp hd⟩
  -- a number
  split at h
  · obtain ⟨⟨n, r⟩, hread, hpair⟩ := Option.map_eq_some_iff.mp h
    simp only [Prod.mk.injEq] at hpair
    obtain ⟨hx, -, rfl⟩ := hpair
    obtain ⟨w, ht, -, -, htiles, -⟩ := readNumeral_eq_some hread
    exact found ht rfl (.numeral (ht ▸ htiles)) hx
  -- a quoted string
  split at h
  · rename_i hquote
    have hq : c = '\'' ∨ c = '"' := by simpa [or_comm] using hquote
    obtain ⟨⟨b, l, r⟩, hread, hpair⟩ := Option.map_eq_some_iff.mp h
    simp only [Prod.mk.injEq] at hpair
    obtain ⟨hx, -, rfl⟩ := hpair
    obtain ⟨body, rfl, hbody⟩ := readQuoted_body hq hread
    exact found (w := c :: (body ++ [c])) (by simp) rfl (.quoted hq (hbody c)) hx
  -- a comment, in a long bracket or up to the end of the line
  split at h
  · rename_i hdash
    rw [Bool.and_eq_true, decide_eq_true_eq, beq_iff_eq] at hdash
    obtain ⟨rfl, hhead⟩ := hdash
    obtain ⟨line, rfl⟩ := List.head?_eq_some_iff.mp hhead
    rw [List.drop_succ_cons, List.drop_zero] at h
    dsimp only at h
    split at h
    · rename_i found' hread
      obtain ⟨⟨b, l, r⟩, rfl, hpair⟩ := Option.map_eq_some_iff.mp h
      simp only [Prod.mk.injEq] at hpair
      obtain ⟨hx, -, rfl⟩ := hpair
      split at hread
      · rename_i hopen
        obtain ⟨inside, rfl⟩ := List.head?_eq_some_iff.mp (beq_iff_eq.mp hopen)
        rw [List.tail_cons] at hread
        obtain ⟨w, hw, hbegins⟩ := begins_longComment hread
        exact found (congrArg ('-' :: '-' :: '[' :: ·) hw) rfl hbegins hx
      · cases hread
    · rename_i hnone
      simp only [Option.some.injEq, Prod.mk.injEq] at h
      obtain ⟨hx, -, rfl⟩ := h
      obtain ⟨w, hw, hbegins⟩ := begins_lineComment (longBracket?_of_read hnone)
      exact found (congrArg ('-' :: '-' :: ·) hw) rfl hbegins hx
  -- a string in a long bracket
  split at h
  · rename_i hopen
    rw [Bool.and_eq_true, decide_eq_true_eq, Bool.or_eq_true, beq_iff_eq, beq_iff_eq] at hopen
    obtain ⟨rfl, hhead⟩ := hopen
    obtain ⟨⟨b, l, r⟩, hread, hpair⟩ := Option.map_eq_some_iff.mp h
    simp only [Prod.mk.injEq] at hpair
    obtain ⟨hx, -, rfl⟩ := hpair
    obtain ⟨w, hw, hbegins⟩ := begins_bracketed hhead (Option.join_eq_some_iff.mp hread)
    exact found (congrArg ('[' :: ·) hw) rfl hbegins hx
  -- a mark
  · rename_i hdash hbracket
    obtain ⟨⟨m, r⟩, hread, hpair⟩ := Option.map_eq_some_iff.mp h
    simp only [Prod.mk.injEq] at hpair
    obtain ⟨hx, -, rfl⟩ := hpair
    obtain ⟨w, ht, -⟩ := readMark_eq_some hread
    refine found ht rfl (.mark (ht ▸ hread) ?_ ?_) hx
    · rw [← ht]
      simpa using hdash
    · rw [← ht]
      rintro ⟨⟩
      simpa using hbracket

/-- The lexemes of a text that can be read cover it, and their tokens are the tokens of the text. -/
private theorem lexes_lexemesFrom {line : Nat} (hok : Readable (lexFrom fuel line t)) :
    Lexes (lexemesFrom fuel t) t ∧
      (lexemesFrom fuel t).filterMap Lexeme.token? = (lexFrom fuel line t).map (·.token) := by
  induction fuel generalizing line t with
  | zero => exact (not_readable hok).elim
  | succ fuel ih =>
      cases t with
      | nil => exact ⟨.nil, rfl⟩
      | cons c cs =>
          rw [lexFrom_cons] at hok ⊢
          rw [lexemesFrom]
          cases hread : Lexeme.first? c cs with
          | none =>
              rw [hread] at hok
              exact (not_readable hok).elim
          | some found =>
              obtain ⟨x, lines, rest⟩ := found
              rw [hread] at hok
              obtain ⟨hcover, htokens⟩ := ih fun l hl => hok l (List.mem_append_right _ hl)
              obtain ⟨ht, hbegins⟩ := Lexeme.begins_of_first? hread
              dsimp only
              refine ⟨ht ▸ .cons hbegins hcover, ?_⟩
              rw [List.map_append, ← htokens, List.filterMap_cons]
              cases x.token? <;> rfl

end Reading

/-- The lexemes of a text cover it. -/
theorem lexes_lexemes {t : Text} (hok : Readable (lex t)) : Lexes (lexemes t) t :=
  (lexes_lexemesFrom hok).1

/-- The tokens of a text are those of its lexemes. -/
theorem tokens_lexemes {t : Text} (hok : Readable (lex t)) :
    (lexemes t).filterMap Lexeme.token? = (lex t).map (·.token) :=
  (lexes_lexemesFrom hok).2

end Stencil.Lua
