import Stencil.Proofs.Lua.Spelling
import Stencil.Proofs.Mask.Lexing
import Mathlib.Data.List.TakeWhile
/-!
# Where literals and comments end

The fragment language reads strings, long brackets and comments character by character; the mask
measures them. A string that the mask finds closed, and every long bracket, ends at the same place for
both. The line of a comment may end one character earlier, at a carriage return.
-/
namespace Stencil.Lua

open Token Tile

/-- What a line break takes after its first character breaks the line as well. -/
theorem exists_afterBreak (c : Char) (t : Text) :
    ∃ s, t = s ++ afterBreak c t ∧ ∀ d ∈ s, isBreak d = true := by
  unfold afterBreak
  split
  · rename_i d t
    split
    · rename_i hd
      rw [Bool.and_eq_true] at hd
      exact ⟨[d], rfl, List.forall_mem_singleton.mpr hd.1⟩
    · exact ⟨[], rfl, by simp⟩
  · exact ⟨[], rfl, by simp⟩

/-! ## Long brackets -/

section Brackets

variable {level fuel lines : Nat} {t rest : Text} {c : Char} {bytes : Bytes}

private theorem bracketLength_cons (hc : c ≠ ']') (t : Text) :
    bracketLength level (c :: t) = bracketLength level t + 1 := by
  simp [bracketLength, hc]

private theorem drop_bracketLength (hc : c ≠ ']') (t : Text) :
    (c :: t).drop (bracketLength level (c :: t)) = t.drop (bracketLength level t) := by
  rw [bracketLength_cons hc, List.drop_succ_cons]

private theorem ne_of_isBreak {d : Char} (h : isBreak c = true) (hd : isBreak d = false) : c ≠ d := by
  rintro rfl
  simp [hd] at h

/-- The characters of a line break are characters of the bracket. -/
private theorem drop_afterBreak (hc : isBreak c = true) (t : Text) :
    (c :: t).drop (bracketLength level (c :: t)) =
      (afterBreak c t).drop (bracketLength level (afterBreak c t)) := by
  obtain ⟨s, hs, hbreaks⟩ := exists_afterBreak c t
  have hdrop (s u : Text) (hs : ∀ d ∈ s, isBreak d = true) :
      (s ++ u).drop (bracketLength level (s ++ u)) = u.drop (bracketLength level u) := by
    induction s with
    | nil => rfl
    | cons d s ih =>
        rw [List.forall_mem_cons] at hs
        rw [List.cons_append, drop_bracketLength (ne_of_isBreak hs.1 (by decide)), ih hs.2]
  have h := hdrop (c :: s) (afterBreak c t) (List.forall_mem_cons.mpr ⟨hc, hbreaks⟩)
  rwa [List.cons_append, ← hs] at h

private theorem readBracket_eq_some (h : readBracket level fuel t = some (bytes, lines, rest)) :
    rest = t.drop (bracketLength level t) := by
  induction fuel generalizing t bytes lines with
  | zero => simp [readBracket] at h
  | succ fuel ih =>
      cases t with
      | nil => simp [readBracket] at h
      | cons c cs =>
          rw [readBracket] at h
          split at h
          · rename_i hclose
            simp only [Option.some.injEq, Prod.mk.injEq] at h
            rw [bracketLength, if_pos (by exact hclose), ← h.2.2]
            rfl
          · rename_i hopen
            split at h
            · rename_i hbreak
              obtain ⟨⟨b, l, r⟩, hread, hpair⟩ := Option.map_eq_some_iff.mp h
              obtain rfl : r = rest := congrArg (·.2.2) hpair
              rw [drop_afterBreak hbreak]
              exact ih hread
            · obtain ⟨⟨b, l, r⟩, hread, hpair⟩ := Option.map_eq_some_iff.mp h
              obtain rfl : r = rest := congrArg (·.2.2) hpair
              rw [bracketLength, if_neg (by exact hopen), List.drop_succ_cons]
              exact ih hread

/-- A long bracket ends where the mask says. -/
theorem longBracket?_eq_some (h : Token.longBracket? t = some (some (bytes, lines, rest))) :
    ∃ n, Tile.longBracket? ('[' :: t) = some n ∧ rest = ('[' :: t).drop n := by
  unfold Token.longBracket? at h
  dsimp only at h
  split at h
  · rename_i inside hinside
    refine ⟨(t.takeWhile (· == '=')).length + 2 +
      bracketLength (t.takeWhile (· == '=')).length inside, by
        simp only [Tile.longBracket?, hinside], ?_⟩
    have hdrop (k : Nat) : ('[' :: t).drop ((t.takeWhile (· == '=')).length + 2 + k) =
        inside.drop k := by
      rw [show (t.takeWhile (· == '=')).length + 2 + k =
        (t.takeWhile (· == '=')).length + (1 + k) + 1 by omega, List.drop_succ_cons, ← List.drop_drop,
        hinside, Nat.add_comm, List.drop_succ_cons]
    rw [hdrop]
    split at h
    · split at h
      · rename_i c cs hbreak
        rw [Option.some.injEq] at h
        obtain ⟨⟨b, l, r⟩, hread, hpair⟩ := Option.map_eq_some_iff.mp h
        obtain rfl : r = rest := congrArg (·.2.2) hpair
        rw [drop_afterBreak hbreak]
        exact readBracket_eq_some hread
      · exact readBracket_eq_some (Option.some.inj h)
    · simp at h
  · simp at h

theorem longBracket?_eq_none (h : Token.longBracket? t = none) :
    Tile.longBracket? ('[' :: t) = none := by
  unfold Token.longBracket? at h
  dsimp only at h
  split at h
  · split at h
    · split at h <;> simp at h
    · simp at h
  · rename_i hnone
    rw [Tile.longBracket?]
    split
    · rename_i inside hinside
      exact absurd hinside (hnone inside)
    · rfl

end Brackets

/-! ## Quoted strings -/

section Quotes

variable {q : Char} {fuel lines : Nat} {t rest : Text} {bytes : Bytes}

/-- A character that stands for itself in a string. -/
def Ordinary (c : Char) : Prop := c ≠ '\\' ∧ c ≠ '\'' ∧ c ≠ '"'

private theorem ordinary_of {p : Char → Bool} (hp : ∀ d ∈ ['\\', '\'', '"'], p d = false) {c : Char}
    (h : p c = true) : Ordinary c := by
  have hne {d : Char} (hd : d ∈ ['\\', '\'', '"']) : c ≠ d := by
    rintro rfl
    simp [hp _ hd] at h
  exact ⟨hne (by simp), hne (by simp), hne (by simp)⟩

private theorem ordinary_of_continuesName {c : Char} (h : continuesName c = true) : Ordinary c :=
  ordinary_of (by decide) h

private theorem ordinary_of_hex {c : Char} {digit : Nat} (h : hexValue? c = some digit) : Ordinary c :=
  ordinary_of_continuesName (continuesName_of_hex (by rw [h]; rfl))

private theorem readCode_eq_some {code code' : Nat} (h : readCode code t = some (code', rest)) :
    ∃ s, t = s ++ rest ∧ ∀ c ∈ s, Ordinary c := by
  induction t generalizing code with
  | nil => simp [readCode] at h
  | cons c t ih =>
      unfold readCode at h
      split at h
      · rename_i hbrace
        obtain ⟨rfl, rfl⟩ := List.cons.inj hbrace
        obtain ⟨-, rfl⟩ := Prod.mk.inj (Option.some.inj h)
        exact ⟨['}'], rfl, List.forall_mem_singleton.mpr ⟨by decide, by decide, by decide⟩⟩
      · rename_i hcons
        obtain ⟨rfl, rfl⟩ := List.cons.inj hcons
        split at h
        · split at h
          · obtain ⟨s, rfl, hs⟩ := ih h
            exact ⟨c :: s, rfl, List.forall_mem_cons.mpr ⟨ordinary_of_hex ‹_›, hs⟩⟩
          · simp at h
        · simp at h
      · simp at h

/-- What an escape takes after its first character are ordinary characters, and none if that one is a
backslash. -/
theorem readEscape_eq_some (h : readEscape t = some (bytes, lines, rest)) :
    ∃ c s, t = c :: (s ++ rest) ∧ (∀ d ∈ s, Ordinary d) ∧ (c = '\\' → s = []) := by
  -- an escape that is one character
  have single {c : Char} {t : Text} {b : Bytes} (h : some (b, 0, t) = some (bytes, lines, rest)) :
      ∃ c' s, c :: t = c' :: (s ++ rest) ∧ (∀ d ∈ s, Ordinary d) ∧ (c' = '\\' → s = []) := by
    obtain rfl : t = rest := congrArg (·.2.2) (Option.some.inj h)
    exact ⟨c, [], rfl, by simp, fun _ => rfl⟩
  unfold readEscape at h
  split at h
  · exact single h
  · exact single h
  · exact single h
  · exact single h
  · exact single h
  · exact single h
  · exact single h
  · exact single h
  · exact single h
  · exact single h
  · rename_i a b t
    obtain ⟨high, hhigh, h⟩ := Option.bind_eq_some_iff.mp h
    obtain ⟨low, hlow, h⟩ := Option.bind_eq_some_iff.mp h
    obtain rfl : t = rest := congrArg (·.2.2) (Option.some.inj h)
    refine ⟨'x', [a, b], rfl, List.forall_mem_cons.mpr ⟨ordinary_of_hex hhigh, ?_⟩,
      fun hx => absurd hx (by decide)⟩
    exact List.forall_mem_singleton.mpr (ordinary_of_hex hlow)
  · split at h
    · simp at h
    · obtain ⟨⟨code, more⟩, hcode, hpair⟩ := Option.map_eq_some_iff.mp h
      obtain rfl : more = rest := congrArg (·.2.2) hpair
      obtain ⟨s, rfl, hs⟩ := readCode_eq_some hcode
      exact ⟨'u', '\x7b' :: s, rfl, List.forall_mem_cons.mpr
        ⟨⟨by decide, by decide, by decide⟩, hs⟩, fun hu => absurd hu (by decide)⟩
  · rename_i t
    obtain rfl : t.dropWhile Num.isSpace = rest := congrArg (·.2.2) (Option.some.inj h)
    refine ⟨'z', t.takeWhile Num.isSpace, by rw [List.takeWhile_append_dropWhile], fun c hc => ?_,
      fun hz => absurd hz (by decide)⟩
    exact ordinary_of (by decide) (List.mem_takeWhile_imp hc)
  · rename_i c t _ _ _ _ _ _ _ _ _ _ _ _ _
    split at h
    · rename_i hbreak
      obtain rfl : afterBreak c t = rest := congrArg (·.2.2) (Option.some.inj h)
      obtain ⟨s, hs, hbreaks⟩ := exists_afterBreak c t
      exact ⟨c, s, congrArg (c :: ·) hs, fun d hd => ordinary_of (by decide) (hbreaks d hd),
        fun hc => absurd hc (ordinary_of (by decide) hbreak).1⟩
    · split at h
      · rename_i hdigit
        dsimp only at h
        split at h
        · have hprefix : (t.takeWhile Char.isDigit).take 2 <+: t :=
            (List.take_prefix 2 _).trans (List.takeWhile_prefix Char.isDigit)
          have hc : c ≠ '\\' := (ordinary_of (p := Char.isDigit) (by decide) hdigit).1
          refine ⟨c, (t.takeWhile Char.isDigit).take 2, ?_, fun d hd => ?_, fun h => absurd h hc⟩
          · obtain rfl := congrArg (·.2.2) (Option.some.inj h)
            exact congrArg (c :: ·) (List.prefix_iff_eq_append.mp hprefix).symm
          · have hdigit := List.mem_takeWhile_imp (List.mem_of_mem_take hd)
            exact ordinary_of_continuesName (by simp [continuesName, Char.isAlphanum, hdigit])
        · simp at h
      · simp at h
  · simp at h

/-- A string goes on past ordinary characters. -/
private theorem closesQuote_ordinary {s : Text} (hs : ∀ c ∈ s, Ordinary c) (hq : q = '\'' ∨ q = '"')
    (h : closesQuote q (s ++ t) = true) : closesQuote q t = true ∧
      (s ++ t).drop (quotedLength q (s ++ t)) = t.drop (quotedLength q t) := by
  induction s with
  | nil => exact ⟨h, rfl⟩
  | cons c s ih =>
      obtain ⟨⟨hc, hsingle, hdouble⟩, hs⟩ := List.forall_mem_cons.mp hs
      have hne : c ≠ q := by rcases hq with rfl | rfl <;> assumption
      rw [List.cons_append, closesQuote_cons hc, if_neg hne] at h
      rw [List.cons_append, quotedLength_cons hc, if_neg hne]
      split at h
      · simp at h
      · rename_i hline
        rw [if_neg hline, List.drop_succ_cons]
        exact ih hs h

/-- A string that is closed is closed whatever follows it. -/
theorem closesQuote_append (h : closesQuote q t = true) (rest : Text) :
    closesQuote q (t ++ rest) = true := by
  induction t using closesQuote.induct q with
  | case1 => simp [closesQuote] at h
  | case2 => simp [closesQuote] at h
  | case3 d cs ih => exact ih h
  | case4 cs => simp [closesQuote_cons] at h
  | case5 cs hend hescape hline =>
      rw [List.cons_append, closesQuote_cons (not_escape hend hescape), if_neg hline, if_pos rfl]
  | case6 c cs hend hescape hline hne ih =>
      have hc := not_escape hend hescape
      rw [closesQuote_cons hc, if_neg hline, if_neg hne] at h
      rw [List.cons_append, closesQuote_cons hc, if_neg hline, if_neg hne]
      exact ih h

/-- A closed string ends where the mask says. -/
theorem readQuoted_eq_some (hq : q = '\'' ∨ q = '"') (hclosed : closesQuote q t = true)
    (h : readQuoted q fuel t = some (bytes, lines, rest)) : rest = t.drop (quotedLength q t) := by
  induction fuel generalizing t bytes lines with
  | zero => simp [readQuoted] at h
  | succ fuel ih =>
      cases t with
      | nil => simp [readQuoted] at h
      | cons c cs =>
          rw [readQuoted] at h
          split at h
          · rename_i hquote
            subst hquote
            obtain rfl : cs = rest := congrArg (·.2.2) (Option.some.inj h)
            rcases hq with rfl | rfl <;> rfl
          · rename_i hopen
            split at h
            · simp at h
            · split at h
              · rename_i hescape
                subst hescape
                split at h
                · simp at h
                · rename_i b l more hread
                  obtain ⟨⟨b', l', r⟩, hrest, hpair⟩ := Option.map_eq_some_iff.mp h
                  obtain rfl : r = rest := congrArg (·.2.2) hpair
                  obtain ⟨d, s, rfl, hs, -⟩ := readEscape_eq_some hread
                  obtain ⟨hclosed', hdrop⟩ := closesQuote_ordinary hs hq hclosed
                  rw [quotedLength, List.drop_succ_cons, List.drop_succ_cons, hdrop]
                  exact ih hclosed' hrest
              · rename_i hplain
                obtain ⟨⟨b, l, r⟩, hread, hpair⟩ := Option.map_eq_some_iff.mp h
                obtain rfl : r = rest := congrArg (·.2.2) hpair
                rw [closesQuote_cons hplain, if_neg hopen] at hclosed
                rw [quotedLength_cons hplain, if_neg hopen]
                split at hclosed
                · simp at hclosed
                · rename_i hline
                  rw [if_neg hline, List.drop_succ_cons]
                  exact ih hclosed hread

end Quotes

end Stencil.Lua
