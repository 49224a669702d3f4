import Stencil.Proofs.Blocks.Tree
import Stencil.Proofs.Lower.Braces
import Stencil.Proofs.Mask.Spans
/-!
# Code that lowering copies

In native code parentheses and braces are balanced and no brace stands after a head. Lowering takes
its braces for those of tables and copies it as it is, whatever the blocks around it.
-/
namespace Stencil

namespace Lower

open Text

/-- No opening brace of the text stands directly after a head. -/
def HeadFree (t : Text) : Prop := ∀ u v, t = u ++ '{' :: v → ¬ EndsInHead u

instance (t : Text) : Decidable (HeadFree t) :=
  decidable_of_iff (∀ i < t.length, t[i]? = some '{' → ¬ EndsInHead (t.take i)) (by
    constructor
    · rintro h u v rfl
      simpa using h u.length (by simp)
    · intro h i hi hopen
      obtain ⟨hi, hget⟩ := List.getElem?_eq_some_iff.mp hopen
      refine h (t.take i) (t.drop (i + 1)) ?_
      rw [← hget, ← List.drop_eq_getElem_cons hi, List.take_append_drop])

/-- The masked text of native code. -/
structure Native (t : Text) : Prop where
  parens : Text.Balanced '(' ')' t
  braces : Text.Balanced '{' '}' t
  free : HeadFree t

/-- The head of a block, with white space around its parentheses. -/
def headText (kind : BlockKind) (gap inside b : Text) : Text :=
  kind.word ++ (gap ++ '(' :: (inside ++ ')' :: b))

/-- What is written for the head of a block and its brace. A `for` loses its parentheses. -/
def openingText : BlockKind → Text → Text → Text → Text
  | .conditional, gap, inside, b => headText .conditional gap inside b ++ " then ".toList
  | .loop, gap, inside, b => headText .loop gap inside b ++ " do ".toList
  | .iteration, _, inside, _ => "for ".toList ++ (trim inside ++ " do ".toList)

section Steps

variable {braces : List Brace} {written rest : Text}

theorem append_eq_reverse (written s : Text) :
    append written s = (written.reverse ++ s).reverse := by
  rw [List.reverse_append, List.reverse_reverse]
  rfl

/-- The brace after a head opens its block. -/
theorem openBrace_head {kind : BlockKind} {front gap inside b : Text}
    (hfront : (lastOr none front).any isNameChar = false) (hgap : Blank gap)
    (hinside : Balanced '(' ')' inside) (hb : Blank b) :
    openBrace (front ++ headText kind gap inside b).reverse braces =
      ((front ++ openingText kind gap inside b).reverse, .block :: braces) := by
  have hhead {head : Head} (hword : Head.ofWord? kind.word = some head) :=
    head?_group hword hfront hgap hinside hb
  rw [headText]
  cases kind with
  | conditional =>
      rw [openBrace, hhead rfl]
      simp [openingText, headText, append]
  | loop =>
      rw [openBrace, hhead rfl]
      simp [openingText, headText, append]
  | iteration =>
      -- the parentheses are taken back, with the white space before them
      have hword : (front ++ ("for".toList ++ gap)).reverse.dropWhile isBlank =
          (front ++ "for".toList).reverse := by
        rw [← List.append_assoc, List.reverse_append]
        refine trimStart_append (blank_reverse.mpr hgap) ?_
        rw [List.reverse_append]
        exact flush_cons.mpr (by decide)
      rw [openBrace, hhead rfl]
      dsimp only [BlockKind.word]
      rw [hword]
      simp [openingText, append]

/-- The brace after the head of a branch opens no block. -/
theorem openBrace_branch {front inside b : Text} (hinside : Balanced '(' ')' inside)
    (hb : Blank b) :
    openBrace (front ++ (" elseif ".toList ++ '(' :: (inside ++ ')' :: b))).reverse braces =
      ((front ++ (" elseif ".toList ++ '(' :: (inside ++ ')' :: (b ++ " then ".toList)))).reverse,
        braces) := by
  have hfront : (lastOr none (front ++ [' '])).any isNameChar = false := by
    rw [lastOr_append]
    exact (by decide : isNameChar ' ' = false)
  have hgroup := @head?_group _ "elseif".toList [' '] inside b .branch rfl hfront (by decide)
    hinside hb
  rw [List.append_assoc] at hgroup
  have hhead : head? (front ++ (" elseif ".toList ++ '(' :: (inside ++ ')' :: b))).reverse = _ :=
    hgroup
  rw [openBrace, hhead]
  simp [append]

theorem append_append (s t : Text) : append (append written s) t = append written (s ++ t) := by
  simp [append]

theorem lowerFrom_char {c : Char} (ho : c ≠ '{') (hc : c ≠ '}') :
    lowerFrom 0 braces written (c :: rest) = lowerFrom 0 braces (append written [c]) rest := by
  simp only [lowerFrom, if_neg ho, if_neg hc]
  rfl

theorem lowerFrom_text {s : Text} (ho : '{' ∉ s) (hc : '}' ∉ s) :
    lowerFrom 0 braces written (s ++ rest) = lowerFrom 0 braces (append written s) rest := by
  induction s generalizing written with
  | nil => rfl
  | cons c s ih =>
      rw [List.mem_cons, not_or] at ho hc
      rw [List.cons_append, lowerFrom_char (Ne.symm ho.1) (Ne.symm hc.1), ih ho.2 hc.2,
        append_append, List.singleton_append]

theorem lowerFrom_opening : lowerFrom 0 braces written ('{' :: rest) =
    lowerFrom 0 (openBrace written braces).2 (openBrace written braces).1 rest := by
  simp only [lowerFrom, if_pos]

theorem lowerFrom_table : lowerFrom 0 (.table :: braces) written ('}' :: rest) =
    lowerFrom 0 braces (append written ['}']) rest := by
  simp only [lowerFrom, if_neg (show '}' ≠ '{' by decide), if_pos]
  rfl

theorem lowerFrom_end (h : elseAfter? rest = none) :
    lowerFrom 0 (.block :: braces) written ('}' :: rest) =
      lowerFrom 0 braces (append written " end ".toList) rest := by
  simp only [lowerFrom, if_neg (show '}' ≠ '{' by decide), if_pos, h]

theorem lowerFrom_drop (n : Nat) (t : Text) :
    lowerFrom n braces written t = lowerFrom 0 braces written (t.drop n) := by
  induction t generalizing n with
  | nil => cases n <;> rfl
  | cons c cs ih =>
      cases n with
      | zero => rfl
      | succ n => exact ih n

/-- Where no table is open, a closing brace and what begins the next branch become its word. -/
theorem lowerFrom_branch {old branch : Text} (hbraces : braces.head? ≠ some .table)
    (h : elseAfter? (old ++ rest) = some (branch, rest)) :
    lowerFrom 0 braces written ('}' :: (old ++ rest)) =
      lowerFrom 0 braces (append written branch) rest := by
  have hdrop := @lowerFrom_drop braces (append written branch)
    ((old ++ rest).length - rest.length) (old ++ rest)
  rw [drop_read] at hdrop
  simp only [lowerFrom, if_neg (show '}' ≠ '{' by decide), if_pos]
  cases braces with
  | nil => simp only [h, hdrop]
  | cons b braces =>
      cases b with
      | table => exact absurd rfl hbraces
      | block => simp only [h, hdrop]

/-! ## Native code -/

variable {t : Text}

/-- The rest of a piece of native code, when some tables are open in it. -/
private theorem lowerFrom_rest (ht : Native t) (hW : Neutral written) (u v : Text) (depth : Nat)
    (hsplit : t = u ++ v) (hdepth : nest? '{' '}' 0 u = some depth) :
    lowerFrom 0 (List.replicate depth .table ++ braces) (append written u) (v ++ rest) =
      lowerFrom 0 braces (append written t) rest := by
  induction v generalizing u depth with
  | nil =>
      rw [List.append_nil] at hsplit
      subst hsplit
      have hzero := ht.braces
      rw [Text.Balanced, hdepth, Option.some.injEq] at hzero
      rw [hzero]
      rfl
  | cons c v ih =>
      have hstep (d : Nat) (hd : nest? '{' '}' depth [c] = some d) := ih (u ++ [c]) d
        (by rw [hsplit]; simp) (by rw [nest?_append, hdepth, Option.bind_some, hd])
      rw [← append_append] at hstep
      rw [List.cons_append]
      by_cases ho : c = '{'
      · subst ho
        obtain ⟨d, hd⟩ : ∃ d, nest? '(' ')' 0 u = some d := by
          have hparens := ht.parens
          rw [Text.Balanced, hsplit, nest?_append] at hparens
          cases hu : nest? '(' ')' 0 u with
          | none => simp [hu] at hparens
          | some d => exact ⟨d, rfl⟩
        have hhead : head? (append written u) = none :=
          head?_of_neutral hW hd (ht.free u v hsplit)
        have hopen : openBrace (append written u) (List.replicate depth .table ++ braces) =
            ('{' :: append written u, .table :: (List.replicate depth .table ++ braces)) := by
          simp only [openBrace, hhead]
        have htail := hstep (depth + 1) (by rw [nest?_opening]; rfl)
        rw [lowerFrom_opening, hopen, ← htail]
        rfl
      · by_cases hc : c = '}'
        · subst hc
          have hzero := ht.braces
          rw [Text.Balanced, hsplit, nest?_append, hdepth, Option.bind_some] at hzero
          cases depth with
          | zero =>
              rw [nest?_zero_closing (by decide)] at hzero
              simp at hzero
          | succ depth =>
              have htail := hstep depth (by rw [nest?_closing (by decide)]; rfl)
              rw [List.replicate_succ, List.cons_append, lowerFrom_table, htail]
        · have htail := hstep depth (by rw [nest?_cons_of_ne ho hc]; rfl)
          rw [lowerFrom_char ho hc, htail]

/-- Native code is copied. -/
theorem lowerFrom_native (ht : Native t) (hW : Neutral written) :
    lowerFrom 0 braces written (t ++ rest) = lowerFrom 0 braces (append written t) rest :=
  lowerFrom_rest ht hW [] t 0 rfl rfl

end Steps

/-! ## In every numbering -/

section Numbering

variable {k : Nat} {s : List Symbol}

/-- How the literals are numbered takes no part in heads. -/
private theorem endsInHead_of_shift (h : EndsInHead (Symbol.spell (s.map (Symbol.shift k)))) :
    EndsInHead (Symbol.spell s) := by
  generalize hs : Symbol.spell (s.map (Symbol.shift k)) = t at h
  obtain @⟨front, word, gap, inside, b, hword, hfront, hgap, hinside, hb⟩ := h
  have hbare : ∀ w ∈ headWords, Symbol.Bare w := by decide
  have hopen : Symbol.Bare (word ++ (gap ++ ['('])) :=
    Symbol.bare_append.mpr ⟨hbare word hword,
      Symbol.bare_append.mpr ⟨Symbol.bare_of_blank hgap, by decide⟩⟩
  have hclose : Symbol.Bare (')' :: b) :=
    Symbol.bare_cons.mpr ⟨by decide, Symbol.bare_of_blank hb⟩
  -- the symbols of the group and of what is around it
  obtain ⟨a, r, hsplit, rfl, hr⟩ := Symbol.exists_chars (u := front) (v := inside ++ ')' :: b)
    (by simp) hopen (by rw [hs]; simp)
  obtain ⟨a, rest, rfl, rfl, hrest⟩ := List.map_eq_append_iff.mp hsplit
  obtain ⟨w, r, rfl, hw, rfl⟩ := List.map_eq_append_iff.mp hrest
  obtain ⟨i, e, hsplit, rfl, he⟩ := Symbol.exists_cut (by decide) hr
  obtain ⟨i, e', rfl, rfl, he'⟩ := List.map_eq_append_iff.mp hsplit
  have hend : e'.map (Symbol.shift k) = Symbol.chars (')' :: b) := by
    rw [he', Symbol.eq_chars (Symbol.bare_of_blank hb) he]
    rfl
  rw [Symbol.map_shift_eq_chars hw, Symbol.map_shift_eq_chars hend]
  rw [Symbol.lastOr_spell_shift] at hfront
  rw [Text.Balanced, Symbol.nest?_spell_shift (by decide) (by decide)] at hinside
  have hmk := EndsInHead.mk hword hfront hgap hinside hb
  simpa using hmk

/-- Nor in branches. -/
private theorem beginsBranch_of_shift
    (h : BeginsBranch (Symbol.spell (s.map (Symbol.shift k)))) : BeginsBranch (Symbol.spell s) := by
  generalize hs : Symbol.spell (s.map (Symbol.shift k)) = t at h
  -- the words and the white space in front are there in every numbering
  have front {w r : Text} (hw : Symbol.Bare w) (ht : t = w ++ r) :
      ∃ r', Symbol.spell s = w ++ r' ∧ r'.head? = r.head? := by
    obtain ⟨e, hsplit, rfl⟩ := Symbol.exists_chars_append hw (hs.trans ht)
    obtain ⟨w', e, rfl, hw', rfl⟩ := List.map_eq_append_iff.mp hsplit
    refine ⟨Symbol.spell e, ?_, (Symbol.head?_spell_shift k e).symm⟩
    rw [Symbol.map_shift_eq_chars hw', Symbol.spell_append, Symbol.spell_chars]
  have bare {b gap w : Text} (hb : Blank b) (hgap : Blank gap) (hw : Symbol.Bare w) :
      Symbol.Bare (b ++ ("else".toList ++ (gap ++ w))) := by
    simp only [Symbol.bare_append]
    exact ⟨Symbol.bare_of_blank hb, by decide, Symbol.bare_of_blank hgap, hw⟩
  cases h with
  | @otherwise b gap r hb hgap =>
      obtain ⟨r', hr', -⟩ := @front (b ++ ("else".toList ++ (gap ++ ['{']))) r
        (bare hb hgap (by decide)) (by simp)
      have hmk := @BeginsBranch.otherwise b gap r' hb hgap
      rw [hr']
      simpa using hmk
  | @elseIf b gap r hb hgap hne hended =>
      obtain ⟨r', hr', hhead⟩ := @front (b ++ ("else".toList ++ (gap ++ "if".toList))) r
        (bare hb hgap (by decide)) (by simp)
      have hmk := @BeginsBranch.elseIf b gap r' hb hgap hne (by rw [hhead]; exact hended)
      rw [hr']
      simpa using hmk

/-- Native code is native whatever the numbers of its literals. -/
theorem Native.textFrom {ts : List Tile} (h : Native (Mask.textFrom 0 ts)) (k : Nat) :
    Native (Mask.textFrom k ts) := by
  obtain ⟨hparens, hbraces, hfree⟩ := h
  rw [← Symbol.spell_number] at hparens hbraces hfree
  rw [Symbol.textFrom_eq_spell]
  refine ⟨?_, ?_, fun u v hsplit hends => ?_⟩
  · rw [Text.Balanced, Symbol.nest?_spell_shift (by decide) (by decide)]
    exact hparens
  · rw [Text.Balanced, Symbol.nest?_spell_shift (by decide) (by decide)]
    exact hbraces
  · obtain ⟨a, b, hs, rfl, rfl⟩ := Symbol.exists_cut (by decide) hsplit
    obtain ⟨a, b', hs, rfl, hb⟩ := List.map_eq_append_iff.mp hs
    obtain ⟨x, b, rfl, hx, rfl⟩ := List.map_eq_cons_iff.mp hb
    obtain rfl : x = .char '{' := by
      cases x with
      | char c => exact hx
      | mark i => simp [Symbol.shift] at hx
    refine hfree (Symbol.spell a) (Symbol.spell b) ?_ (endsInHead_of_shift hends)
    rw [hs, Symbol.spell_append, Symbol.spell_char]

theorem beginsBranch_textFrom {ts : List Tile} {k : Nat}
    (h : BeginsBranch (Mask.textFrom k ts)) : BeginsBranch (Mask.textFrom 0 ts) := by
  rw [Symbol.textFrom_eq_spell] at h
  rw [← Symbol.spell_number]
  exact beginsBranch_of_shift h

end Numbering

end Lower

/-! ## Native code in a source -/

/-- Closed code with balanced parentheses and tables, and no brace after a head. -/
structure NativeCode (c : Text) : Prop extends ClosedCode c where
  native : Lower.Native (Mask.ofText c).text

/-- Native code as a statement has it: no statement begins with `else`, so none goes on with a branch of
the block before it. -/
structure NativeStatement (t : Text) : Prop extends NativeCode t where
  noBranch : ¬ Lower.BeginsBranch (Mask.ofText t).text

instance (c : Text) : Decidable (NativeCode c) :=
  decidable_of_iff (ClosedCode c ∧ Text.Balanced '(' ')' (Mask.ofText c).text ∧
      Text.Balanced '{' '}' (Mask.ofText c).text ∧ Lower.HeadFree (Mask.ofText c).text)
    ⟨fun ⟨h1, h2, h3, h4⟩ => ⟨h1, h2, h3, h4⟩,
      fun h => ⟨h.toClosedCode, h.native.parens, h.native.braces, h.native.free⟩⟩

instance (t : Text) : Decidable (NativeStatement t) :=
  decidable_of_iff (NativeCode t ∧ ¬ Lower.BeginsBranch (Mask.ofText t).text)
    ⟨fun h => ⟨h.1, h.2⟩, fun h => ⟨h.toNativeCode, h.noBranch⟩⟩

/-- Native code is lowered to itself. -/
theorem lower_native {c : Text} (h : NativeCode c) : lower c = Text.trimEnd c := by
  have hcopy := @Lower.lowerFrom_native [] [] [] _ h.native Lower.neutral_nil
  rw [List.append_nil] at hcopy
  have hwritten : Lower.lowerFrom 0 [] [] (Mask.ofText c).text = (Mask.ofText c).text.reverse := by
    rw [hcopy]
    simp [Lower.append, Lower.lowerFrom]
  rw [lower, hwritten, List.reverse_reverse]
  exact h.toClosedCode.restore_trimEnd rfl

end Stencil
