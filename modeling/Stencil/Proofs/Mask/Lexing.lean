import Stencil.Proofs.Text.Reading
import Stencil.Mask
/-!
# Lexing in context

A tile that comes to its own end is read the same whatever follows it. So a text whose tiles are all
closed and whose last line is complete can be lexed apart from the text after it.
-/
namespace Stencil.Tile

/-! ## Closed tiles -/

/-- Whether a quoted string, its opening quote already read, is closed by its quote. -/
def closesQuote (quote : Char) : Text → Bool
  | [] => false
  | '\\' :: [] => false
  | '\\' :: _ :: cs => closesQuote quote cs
  | c :: cs => if c = '\n' then false else if c = quote then true else closesQuote quote cs

/-- Whether a long bracket of the level is closed by a bracket of its level. -/
def closesLong (level : Nat) : Text → Bool
  | [] => false
  | c :: cs => (c = ']' && closesBracket level cs) || closesLong level cs

/-- Whether a block comment, its opening already read, is closed. -/
def closesBlock : Text → Bool
  | '*' :: '/' :: _ => true
  | _ :: cs => closesBlock cs
  | [] => false

/-- Whether the long bracket that a text begins is closed, its first character already read. -/
def closesOpened (t : Text) : Bool :=
  let level := (t.takeWhile (· == '=')).length
  closesLong level (t.drop (level + 1))

/-- Whether the comment is written with a long bracket. -/
def isLongComment : Tile → Bool
  | comment ('-' :: '-' :: t) => (longBracket? t).isSome
  | _ => false

/-- Whether the tile comes to its own end. A string is closed by its quote, a long bracket by a
bracket of its level and a block comment by its closing mark; a line ends with the line. -/
def isClosed : Tile → Bool
  | plain _ => true
  | literal ('[' :: t) => closesOpened t
  | literal (quote :: t) => closesQuote quote t
  | literal [] => true
  | comment ('-' :: '-' :: t) => (longBracket? t).isNone || closesOpened (t.drop 1)
  | comment _ => true
  | spaced t => closesBlock (t.drop 2)

theorem quotedLength_cons {quote c : Char} (h : c ≠ '\\') (cs : Text) :
    quotedLength quote (c :: cs) =
      if c = '\n' then 0 else if c = quote then 1 else quotedLength quote cs + 1 :=
  quotedLength.eq_4 quote c cs (fun hc _ => h hc) fun _ _ hc _ => h hc

theorem closesQuote_cons {quote c : Char} (h : c ≠ '\\') (cs : Text) :
    closesQuote quote (c :: cs) =
      if c = '\n' then false else if c = quote then true else closesQuote quote cs :=
  closesQuote.eq_4 quote c cs (fun hc _ => h hc) fun _ _ hc _ => h hc

private theorem closesQuote_append {quote : Char} {t : Text} (h : closesQuote quote t = true)
    (rest : Text) :
    quotedLength quote (t ++ rest) = quotedLength quote t ∧ quotedLength quote t ≤ t.length := by
  induction hn : t.length using Nat.strongRecOn generalizing t with
  | ind n ih =>
      cases t with
      | nil => simp [closesQuote] at h
      | cons c cs =>
          by_cases hc : c = '\\'
          · subst hc
            cases cs with
            | nil => simp [closesQuote] at h
            | cons d cs =>
                have hlen : cs.length < n := by
                  simp only [← hn, List.length_cons]
                  omega
                obtain ⟨h1, h2⟩ := ih cs.length hlen (t := cs) (by simpa [closesQuote] using h) rfl
                simp only [List.cons_append, quotedLength, h1, true_and, ← hn, List.length_cons]
                omega
          · rw [closesQuote_cons hc] at h
            rw [List.cons_append, quotedLength_cons hc, quotedLength_cons hc]
            split at h
            · simp at h
            · rename_i hline
              rw [if_neg hline, if_neg hline]
              split at h
              · rename_i hq
                rw [if_pos hq, if_pos hq]
                simp [← hn]
              · rename_i hq
                obtain ⟨h1, h2⟩ := ih cs.length (by simp [← hn]) h rfl
                rw [if_neg hq, if_neg hq, h1]
                simp only [← hn, List.length_cons, true_and]
                omega

private theorem closesBracket_iff {level : Nat} {t : Text} :
    closesBracket level t = true ↔ List.replicate level '=' ++ [']'] <+: t :=
  List.isPrefixOf_iff_prefix

private theorem closesBracket_append {level : Nat} {t : Text} (h : level < t.length)
    (rest : Text) : closesBracket level (t ++ rest) = closesBracket level t := by
  rw [Bool.eq_iff_iff, closesBracket_iff, closesBracket_iff]
  constructor
  · intro hp
    exact List.prefix_of_prefix_length_le hp (List.prefix_append t rest) (by simp; omega)
  · exact fun hp => hp.trans (List.prefix_append t rest)

private theorem length_of_closesBracket {level : Nat} {t : Text}
    (h : closesBracket level t = true) : level < t.length := by
  have := (closesBracket_iff.mp h).length_le
  simp only [List.length_append, List.length_replicate, List.length_singleton] at this
  omega

private theorem length_of_closesLong {level : Nat} {t : Text} (h : closesLong level t = true) :
    level + 1 < t.length := by
  induction t with
  | nil => simp [closesLong] at h
  | cons c cs ih =>
      simp only [closesLong, Bool.or_eq_true, Bool.and_eq_true, decide_eq_true_eq] at h
      simp only [List.length_cons]
      rcases h with ⟨-, h⟩ | h
      · have := length_of_closesBracket h
        omega
      · have := ih h
        omega

private theorem closesLong_append {level : Nat} {t : Text} (h : closesLong level t = true)
    (rest : Text) :
    bracketLength level (t ++ rest) = bracketLength level t ∧ bracketLength level t ≤ t.length := by
  induction t with
  | nil => simp [closesLong] at h
  | cons c cs ih =>
      have hlen : level < cs.length := by simpa using length_of_closesLong h
      simp only [closesLong, Bool.or_eq_true, Bool.and_eq_true, decide_eq_true_eq] at h
      simp only [List.cons_append, bracketLength, closesBracket_append hlen, Bool.and_eq_true,
        decide_eq_true_eq]
      split
      · simp only [List.length_cons, true_and]
        omega
      · rename_i hc
        obtain ⟨h1, h2⟩ := ih (h.resolve_left hc)
        simp only [h1, List.length_cons, true_and]
        omega

private theorem mem_of_closesLong {level : Nat} {t : Text} (h : closesLong level t = true) :
    ']' ∈ t := by
  induction t with
  | nil => simp [closesLong] at h
  | cons c cs ih =>
      simp only [closesLong, Bool.or_eq_true, Bool.and_eq_true, decide_eq_true_eq] at h
      rcases h with ⟨rfl, -⟩ | h
      · exact List.mem_cons_self
      · exact List.mem_cons_of_mem _ (ih h)

private theorem closesBracket_of_append {level : Nat} {t b : Text} (hb : ']' ∉ b)
    (h : closesBracket level (t ++ b) = true) : closesBracket level t = true := by
  obtain ⟨v, hv⟩ := closesBracket_iff.mp h
  refine closesBracket_iff.mpr ?_
  rcases List.append_eq_append_iff.mp hv with ⟨a, ha, -⟩ | ⟨a, ha, hrest⟩
  · exact ⟨a, ha.symm⟩
  · rcases List.eq_nil_or_concat a with rfl | ⟨a, d, rfl⟩
    · rw [List.append_nil] at ha
      exact ⟨[], by rw [List.append_nil, ha]⟩
    · -- the bracket itself would be in what was appended
      rw [List.concat_eq_append, ← List.append_assoc] at ha
      obtain ⟨-, hd⟩ := List.append_inj' ha rfl
      rw [List.cons.injEq] at hd
      exact absurd (by rw [hrest, ← hd.1]; simp) hb

/-- What does not hold a bracket closes no long bracket. -/
private theorem closesLong_of_append {level : Nat} {t b : Text} (hb : ']' ∉ b)
    (h : closesLong level (t ++ b) = true) : closesLong level t = true := by
  induction t with
  | nil => exact absurd (mem_of_closesLong h) hb
  | cons c cs ih =>
      simp only [List.cons_append, closesLong, Bool.or_eq_true, Bool.and_eq_true,
        decide_eq_true_eq] at h ⊢
      exact h.imp (And.imp_right (closesBracket_of_append hb)) ih

private theorem closesBlock_append {t : Text} (h : closesBlock t = true) (rest : Text) :
    blockLength (t ++ rest) = blockLength t ∧ blockLength t ≤ t.length := by
  induction t using closesBlock.induct with
  | case1 cs => simp [blockLength]
  | case2 c cs hc ih =>
      rw [closesBlock.eq_2 c cs hc] at h
      obtain ⟨h1, h2⟩ := ih h
      have happ : ∀ d, c = '*' → cs ++ rest = '/' :: d → False := by
        intro d hstar hd
        cases cs with
        | nil => simp [closesBlock] at h
        | cons e es =>
            simp only [List.cons_append, List.cons.injEq] at hd
            exact hc es hstar (by rw [hd.1])
      rw [List.cons_append, blockLength.eq_2 c _ happ, blockLength.eq_2 c cs hc, h1]
      simp only [List.length_cons, true_and]
      omega
  | case3 => simp [closesBlock] at h

/-- What the rules for backslashes pass by is no backslash. -/
theorem not_escape {c : Char} {cs : Text} (hend : c = '\\' → cs = [] → False)
    (hescape : ∀ d ds, c = '\\' → cs = d :: ds → False) : c ≠ '\\' := by
  rintro rfl
  cases cs with
  | nil => exact hend rfl rfl
  | cons d ds => exact hescape d ds rfl rfl

private theorem mem_of_closesQuote {quote : Char} {t : Text} (h : closesQuote quote t = true) :
    quote ∈ t := by
  induction t using closesQuote.induct quote with
  | case1 => simp [closesQuote] at h
  | case2 => simp [closesQuote] at h
  | case3 d cs ih => exact List.mem_cons_of_mem _ (List.mem_cons_of_mem _ (ih h))
  | case4 cs => simp [closesQuote_cons] at h
  | case5 cs => exact List.mem_cons_self
  | case6 c cs hend hescape hline hne ih =>
      have hc := not_escape hend hescape
      rw [closesQuote_cons hc, if_neg hline, if_neg hne] at h
      exact List.mem_cons_of_mem _ (ih h)

/-- What does not hold the quote closes no string. -/
private theorem closesQuote_of_append {quote : Char} {t b : Text} (hb : quote ∉ b)
    (h : closesQuote quote (t ++ b) = true) : closesQuote quote t = true := by
  induction t using closesQuote.induct quote with
  | case1 => exact absurd (mem_of_closesQuote h) hb
  | case2 =>
      cases b with
      | nil => exact h
      | cons d b => exact absurd (List.mem_cons_of_mem _ (mem_of_closesQuote (t := b) h)) hb
  | case3 d cs ih => exact ih h
  | case4 cs => simp [closesQuote_cons] at h
  | case5 cs hend hescape hline =>
      have hc := not_escape hend hescape
      rw [closesQuote_cons hc, if_neg hline, if_pos rfl]
  | case6 c cs hend hescape hline hne ih =>
      have hc := not_escape hend hescape
      rw [List.cons_append, closesQuote_cons hc, if_neg hline, if_neg hne] at h
      rw [closesQuote_cons hc, if_neg hline, if_neg hne]
      exact ih h

/-- The closing found inside the stretch that a length measures is found there again. -/
private theorem length_take_append {length : Text → Nat} {t : Text}
    (h : ∀ rest, length (t.take (length t) ++ rest) = length (t.take (length t)))
    (hle : length (t.take (length t)) ≤ (t.take (length t)).length) (rest : Text) :
    length (t.take (length t) ++ rest) = (t.take (length t)).length := by
  have hself := h (t.drop (length t))
  rw [List.take_append_drop] at hself
  rw [h rest]
  simp only [List.length_take] at hle ⊢
  omega

/-! ## The kinds of tiles -/

/-- A character that begins no longer tile. -/
structure Lone (c : Char) (cs : Text) : Prop where
  single : c ≠ '\''
  double : c ≠ '"'
  bracket : c = '[' → longBracket? (c :: cs) = none
  dash : c = '-' → cs.head? ≠ some '-'
  slash : c = '/' → cs.head? ≠ some '/'
  block : c = '/' → cs.head? ≠ some '*'

/-- The opening of a long bracket without its first character. -/
def opener (level : Nat) : Text := List.replicate level '=' ++ ['[']

/-- What the tile at a character may be. -/
inductive View (c : Char) (cs : Text) : Tile → Prop
  | plain : Lone c cs → View c cs (.plain c)
  | quoted : c = '\'' ∨ c = '"' → View c cs (.literal (c :: cs.take (quotedLength c cs)))
  | long {level : Nat} {inside : Text} : c = '[' → cs = opener level ++ inside →
      View c cs (.literal ('[' :: (opener level ++ inside.take (bracketLength level inside))))
  | longComment {level : Nat} {inside : Text} : c = '-' →
      cs = '-' :: '[' :: (opener level ++ inside) →
      View c cs (.comment ('-' :: '-' :: '[' ::
        (opener level ++ inside.take (bracketLength level inside))))
  | lineComment {line : Text} : c = '-' → cs = '-' :: line → longBracket? line = none →
      View c cs (.comment ('-' :: '-' :: line.take (lineLength line)))
  | slashComment {line : Text} : c = '/' → cs = '/' :: line →
      View c cs (.comment ('/' :: '/' :: line.take (lineLength line)))
  | blockComment {inside : Text} : c = '/' → cs = '*' :: inside →
      View c cs (.spaced ('/' :: '*' :: inside.take (blockLength inside)))

private theorem exists_run (t : Text) :
    ∃ level rest, t = List.replicate level '=' ++ rest ∧ rest.head? ≠ some '=' := by
  induction t with
  | nil => exact ⟨0, [], rfl, by simp⟩
  | cons c cs ih =>
      by_cases hc : c = '='
      · obtain ⟨level, rest, rfl, hr⟩ := ih
        exact ⟨level + 1, rest, by rw [hc, List.replicate_succ, List.cons_append], hr⟩
      · exact ⟨0, c :: cs, rfl, by simpa using hc⟩

private theorem length_run {level : Nat} {rest : Text} (h : rest.head? ≠ some '=') :
    ((List.replicate level '=' ++ rest).takeWhile (· == '=')).length = level := by
  rw [List.takeWhile_append_of_pos (by simp [List.mem_replicate])]
  cases rest with
  | nil => simp
  | cons c cs =>
      rw [List.takeWhile_cons_of_neg (by simpa using h)]
      simp

private theorem length_opener (level : Nat) (t : Text) :
    ((opener level ++ t).takeWhile (· == '=')).length = level := by
  rw [opener, List.append_assoc, length_run (by simp)]

theorem longBracket?_eq_some {t : Text} {n : Nat} :
    longBracket? t = some n ↔
      ∃ level inside, t = '[' :: (opener level ++ inside) ∧
        n = level + 2 + bracketLength level inside := by
  constructor
  · intro h
    unfold longBracket? at h
    split at h
    · rename_i cs
      obtain ⟨level, rest, rfl, hr⟩ := exists_run cs
      simp only [length_run hr, List.drop_left' List.length_replicate] at h
      split at h
      · rename_i inside
        exact ⟨level, inside, by simp [opener], (Option.some.inj h).symm⟩
      · simp at h
    · simp at h
  · rintro ⟨level, inside, rfl, rfl⟩
    have hdrop : (opener level ++ inside).drop level = '[' :: inside := by
      rw [opener, List.append_assoc, List.drop_left' List.length_replicate]
      rfl
    simp only [longBracket?, length_opener, hdrop]

theorem take_opener (level n : Nat) (t : Text) :
    ('[' :: (opener level ++ t)).take (level + 2 + n) = '[' :: (opener level ++ t.take n) := by
  have h : (opener level).length = level + 1 := by simp [opener]
  rw [show level + 2 + n = (level + 1 + n) + 1 by omega, List.take_succ_cons, List.take_append,
    h, List.take_of_length_le (by omega), show level + 1 + n - (level + 1) = n by omega]

theorem longBracket?_eq_none_of_head {c : Char} (h1 : c ≠ '[') (h2 : c ≠ '=') (cs : Text) :
    longBracket? ('[' :: c :: cs) = none := by
  cases h : longBracket? ('[' :: c :: cs) with
  | none => rfl
  | some n =>
      obtain ⟨level, inside, ht, -⟩ := longBracket?_eq_some.mp h
      cases level with
      | zero => simp [opener, h1] at ht
      | succ level => simp [opener, List.replicate_succ, h2] at ht

theorem view (c : Char) (cs : Text) : View c cs (first c cs) := by
  have long (hc : c = '[') {n : Nat} (h : longBracket? (c :: cs) = some n) :
      View c cs (.literal ((c :: cs).take n)) := by
    subst hc
    obtain ⟨level, inside, ht, rfl⟩ := longBracket?_eq_some.mp h
    rw [ht, take_opener]
    exact .long rfl (List.cons.inj ht).2
  have lone (hc : c = '[') (h : longBracket? (c :: cs) = none) : View c cs (.plain c) := by
    subst hc
    exact .plain ⟨by decide, by decide, fun _ => h, fun hd => absurd hd (by decide),
      fun hd => absurd hd (by decide), fun hd => absurd hd (by decide)⟩
  unfold first
  split
  · exact .quoted (Or.inl rfl)
  · exact .quoted (Or.inr rfl)
  · split
    · rename_i n hn
      exact long rfl hn
    · rename_i hn
      exact lone rfl hn
  · split
    · rename_i n hn
      exact long rfl hn
    · rename_i hn
      exact lone rfl hn
  · rename_i rest
    split
    · rename_i n hn
      obtain ⟨level, inside, rfl, rfl⟩ := longBracket?_eq_some.mp hn
      rw [take_opener]
      exact .longComment rfl rfl
    · rename_i hn
      exact .lineComment rfl rfl hn
  · exact .slashComment rfl rfl
  · exact .blockComment rfl rfl
  · rename_i h1 h2 h3 h4 h5 h6 h7
    refine .plain ⟨h1, h2, fun hc => ?_, fun hc h => ?_, fun hc h => ?_, fun hc h => ?_⟩
    · subst hc
      cases cs with
      | nil => rfl
      | cons d ds =>
          exact longBracket?_eq_none_of_head (fun hd => h3 ds rfl (by rw [hd]))
            (fun hd => h4 ds rfl (by rw [hd])) ds
    · obtain ⟨rest, rfl⟩ := List.head?_eq_some_iff.mp h
      exact h5 rest hc rfl
    · obtain ⟨rest, rfl⟩ := List.head?_eq_some_iff.mp h
      exact h6 rest hc rfl
    · obtain ⟨rest, rfl⟩ := List.head?_eq_some_iff.mp h
      exact h7 rest hc rfl

theorem first_quoted {c : Char} (h : c = '\'' ∨ c = '"') (cs : Text) :
    first c cs = .literal (c :: cs.take (quotedLength c cs)) := by
  rcases h with rfl | rfl <;> rfl

theorem first_long (level : Nat) (t : Text) :
    first '[' (opener level ++ t) =
      .literal ('[' :: (opener level ++ t.take (bracketLength level t))) := by
  have h : longBracket? ('[' :: (opener level ++ t)) = some (level + 2 + bracketLength level t) :=
    longBracket?_eq_some.mpr ⟨level, t, rfl, rfl⟩
  cases level with
  | zero =>
      have hs : opener 0 ++ t = '[' :: t := rfl
      rw [hs] at h
      rw [hs, first, h, ← hs]
      exact congrArg Tile.literal (take_opener 0 _ t)
  | succ level =>
      have hs : opener (level + 1) ++ t = '=' :: (opener level ++ t) := by
        simp [opener, List.replicate_succ]
      rw [hs] at h
      rw [hs, first, h, ← hs]
      exact congrArg Tile.literal (take_opener (level + 1) _ t)

theorem first_longComment (level : Nat) (t : Text) :
    first '-' ('-' :: '[' :: (opener level ++ t)) =
      .comment ('-' :: '-' :: '[' :: (opener level ++ t.take (bracketLength level t))) := by
  have h : longBracket? ('[' :: (opener level ++ t)) = some (level + 2 + bracketLength level t) :=
    longBracket?_eq_some.mpr ⟨level, t, rfl, rfl⟩
  rw [first, h, ← take_opener]

theorem first_block (t : Text) :
    first '/' ('*' :: t) = .spaced ('/' :: '*' :: t.take (blockLength t)) := rfl

theorem first_of_lone {c : Char} {cs : Text} (h : Lone c cs) : first c cs = .plain c := by
  have hv := view c cs
  generalize first c cs = x at hv ⊢
  cases hv with
  | plain _ => rfl
  | quoted hq => exact absurd hq (not_or.mpr ⟨h.single, h.double⟩)
  | long hc hcs =>
      subst hc
      have := longBracket?_eq_some.mpr ⟨_, _, congrArg ('[' :: ·) hcs, rfl⟩
      rw [h.bracket rfl] at this
      simp at this
  | longComment hc hcs => exact absurd (by rw [hcs]; rfl) (h.dash hc)
  | lineComment hc hcs _ => exact absurd (by rw [hcs]; rfl) (h.dash hc)
  | slashComment hc hcs => exact absurd (by rw [hcs]; rfl) (h.slash hc)
  | blockComment hc hcs => exact absurd (by rw [hcs]; rfl) (h.block hc)

/-! ## Tilings -/

/-- A tile covers at least its first character, and what it covers is a stretch of the text. -/
theorem exists_first_text (c : Char) (cs : Text) :
    ∃ body rest, cs = body ++ rest ∧ (first c cs).text = c :: body := by
  have split (n : Nat) (t : Text) : t = t.take n ++ t.drop n := (List.take_append_drop n t).symm
  have hv := view c cs
  generalize first c cs = x at hv ⊢
  cases hv with
  | plain _ => exact ⟨[], cs, rfl, rfl⟩
  | quoted _ => exact ⟨_, _, split _ cs, rfl⟩
  | @long level inside hc hcs =>
      subst hc hcs
      exact ⟨_, inside.drop (bracketLength level inside), by simp, rfl⟩
  | @longComment level inside hc hcs =>
      subst hc hcs
      exact ⟨_, inside.drop (bracketLength level inside), by simp, rfl⟩
  | @lineComment line hc hcs _ =>
      subst hc hcs
      exact ⟨_, line.drop (lineLength line), by simp, rfl⟩
  | @slashComment line hc hcs =>
      subst hc hcs
      exact ⟨_, line.drop (lineLength line), by simp, rfl⟩
  | @blockComment inside hc hcs =>
      subst hc hcs
      exact ⟨_, inside.drop (blockLength inside), by simp, rfl⟩

private theorem tilesFrom_eq (n : Nat) (t : Text) : tilesFrom n t = tilesFrom 0 (t.drop n) := by
  induction t generalizing n with
  | nil => cases n <;> rfl
  | cons c cs ih =>
      cases n with
      | zero => rfl
      | succ n => exact ih n

theorem tiles_cons {c : Char} {body rest : Text}
    (h : (first c (body ++ rest)).text = c :: body) :
    tiles (c :: (body ++ rest)) = first c (body ++ rest) :: tiles rest := by
  rw [tiles, tilesFrom, h, tilesFrom_eq]
  simp [tiles]

theorem tiles_lone {c : Char} {cs : Text} (h : Lone c cs) :
    tiles (c :: cs) = .plain c :: tiles cs := by
  have ht : (first c ([] ++ cs)).text = [c] := by rw [List.nil_append, first_of_lone h]; rfl
  have := tiles_cons ht
  rwa [List.nil_append, first_of_lone h] at this

/-- A property of a text and of its tiling. -/
theorem tiles_induct {motive : Text → List Tile → Prop} (nil : motive [] [])
    (step : ∀ c body rest, (first c (body ++ rest)).text = c :: body → motive rest (tiles rest) →
      motive (c :: (body ++ rest)) (first c (body ++ rest) :: tiles rest)) (t : Text) :
    motive t (tiles t) := by
  induction hn : t.length using Nat.strongRecOn generalizing t with
  | ind n ih =>
      cases t with
      | nil => exact nil
      | cons c cs =>
          obtain ⟨body, rest, rfl, ht⟩ := exists_first_text c cs
          rw [tiles_cons ht]
          refine step c body rest ht (ih rest.length ?_ rest rfl)
          simp only [← hn, List.length_cons, List.length_append]
          omega

/-! ## Tiles that end by themselves -/

/-- A tile that is read the same whatever follows it. -/
def Standing (x : Tile) : Prop := ∃ c body, x.text = c :: body ∧ ∀ rest, first c (body ++ rest) = x

theorem Standing.tiles_append {x : Tile} (h : Standing x) (rest : Text) :
    tiles (x.text ++ rest) = x :: tiles rest := by
  obtain ⟨c, body, ht, hx⟩ := h
  have hr := hx rest
  rw [ht, List.cons_append, tiles_cons (by rw [hr, ht]), hr]

theorem standing_quoted {c : Char} (hq : c = '\'' ∨ c = '"') {cs : Text}
    (h : closesQuote c (cs.take (quotedLength c cs)) = true) :
    Standing (.literal (c :: cs.take (quotedLength c cs))) := by
  refine ⟨c, cs.take (quotedLength c cs), rfl, fun rest => ?_⟩
  rw [first_quoted hq, length_take_append (fun r => (closesQuote_append h r).1)
    (closesQuote_append h []).2, List.take_left']
  rfl

theorem standing_long {level : Nat} {inside : Text}
    (h : closesLong level (inside.take (bracketLength level inside)) = true) :
    Standing (.literal ('[' :: (opener level ++ inside.take (bracketLength level inside)))) := by
  refine ⟨'[', _, rfl, fun rest => ?_⟩
  rw [List.append_assoc, first_long, length_take_append (fun r => (closesLong_append h r).1)
    (closesLong_append h []).2, List.take_left']
  rfl

theorem standing_longComment {level : Nat} {inside : Text}
    (h : closesLong level (inside.take (bracketLength level inside)) = true) :
    Standing (.comment ('-' :: '-' :: '[' ::
      (opener level ++ inside.take (bracketLength level inside)))) := by
  refine ⟨'-', _, rfl, fun rest => ?_⟩
  rw [List.cons_append, List.cons_append, List.append_assoc, first_longComment,
    length_take_append (fun r => (closesLong_append h r).1) (closesLong_append h []).2,
    List.take_left']
  rfl

theorem standing_block {inside : Text}
    (h : closesBlock (inside.take (blockLength inside)) = true) :
    Standing (.spaced ('/' :: '*' :: inside.take (blockLength inside))) := by
  refine ⟨'/', _, rfl, fun rest => ?_⟩
  rw [List.cons_append, first_block, length_take_append (fun r => (closesBlock_append h r).1)
    (closesBlock_append h []).2, List.take_left']
  rfl

theorem closesOpened_opener (level : Nat) (t : Text) :
    closesOpened (opener level ++ t) = closesLong level t := by
  have h : (opener level ++ t).drop (level + 1) = t := List.drop_left' (by simp [opener])
  rw [closesOpened, length_opener, h]

theorem isClosed_long (level : Nat) (t : Text) :
    isClosed (.literal ('[' :: (opener level ++ t))) = closesLong level t :=
  closesOpened_opener level t

theorem isClosed_longComment (level : Nat) (t : Text) :
    isClosed (.comment ('-' :: '-' :: '[' :: (opener level ++ t))) = closesLong level t := by
  have hsome : longBracket? ('[' :: (opener level ++ t)) = some _ :=
    longBracket?_eq_some.mpr ⟨level, t, rfl, rfl⟩
  rw [isClosed, hsome]
  simpa using closesOpened_opener level t

theorem isClosed_quoted {c : Char} (h : c = '\'' ∨ c = '"') (t : Text) :
    isClosed (.literal (c :: t)) = closesQuote c t := by
  rcases h with rfl | rfl <;> rfl

/-- What a closed literal needs to be read again. -/
theorem standing_literal {c : Char} {cs l : Text} (hx : first c cs = .literal l)
    (h : (Tile.literal l).isClosed = true) :
    Standing (.literal l) ∧ ∃ d body, l = d :: body ∧ (d = '\'' ∨ d = '"' ∨ d = '[') := by
  have hv := view c cs
  rw [hx] at hv
  cases hv with
  | quoted hq =>
      rw [isClosed_quoted hq] at h
      exact ⟨standing_quoted hq h, c, _, rfl, hq.imp_right Or.inl⟩
  | long _ _ =>
      rw [isClosed_long] at h
      exact ⟨standing_long h, '[', _, rfl, Or.inr (Or.inr rfl)⟩

/-! ## Texts of complete lines -/

/-- Every line of the text is complete. -/
def Ended (t : Text) : Prop := ∀ c, t.getLast? = some c → c = '\n'

theorem Ended.of_append {s t : Text} (h : Ended (s ++ t)) : Ended t := by
  intro c hc
  exact h c (by rw [List.getLast?_append, hc]; rfl)

theorem Ended.exists_line {t : Text} (h : Ended t) (hne : t ≠ []) :
    ∃ line rest, t = line ++ '\n' :: rest ∧ '\n' ∉ line := by
  induction t with
  | nil => exact absurd rfl hne
  | cons c cs ih =>
      by_cases hc : c = '\n'
      · exact ⟨[], cs, by rw [hc]; rfl, by simp⟩
      · cases cs with
        | nil => exact absurd (h c rfl) hc
        | cons d ds =>
            obtain ⟨line, rest, hsplit, hline⟩ := ih (h.of_append (s := [c])) (by simp)
            exact ⟨c :: line, rest, by rw [hsplit]; rfl, by simp [Ne.symm hc, hline]⟩

private theorem lineLength_line {line : Text} (h : '\n' ∉ line) (rest : Text) :
    lineLength (line ++ '\n' :: rest) = line.length := by
  have hall : ∀ c ∈ line, (c != '\n') = true := by
    intro c hc
    simpa using fun he : c = '\n' => h (he ▸ hc)
  rw [lineLength, List.takeWhile_append_of_pos hall]
  simp

/-- A line that is complete holds all of an opening that begins in it. -/
private theorem longBracket?_line {line : Text} (h : '\n' ∉ line) {rest : Text}
    (hnone : longBracket? (line ++ '\n' :: rest) = none) (more : Text) :
    longBracket? (line ++ '\n' :: more) = none := by
  cases hs : longBracket? (line ++ '\n' :: more) with
  | none => rfl
  | some n =>
      obtain ⟨level, inside, ht, -⟩ := longBracket?_eq_some.mp hs
      have hopen : '\n' ∉ '[' :: opener level := by simp [opener, List.mem_replicate]
      rw [← List.cons_append] at ht
      rcases List.append_eq_append_iff.mp ht with ⟨v, hv, hw⟩ | ⟨v, rfl, -⟩
      · cases v with
        | nil =>
            rw [List.append_nil] at hv
            rw [← hv, List.cons_append, longBracket?_eq_some.mpr ⟨level, _, rfl, rfl⟩] at hnone
            simp at hnone
        | cons d v =>
            simp only [List.cons_append, List.cons.injEq] at hw
            exact absurd (by rw [hv, ← hw.1]; simp) hopen
      · have hsome : longBracket? ('[' :: (opener level ++ (v ++ '\n' :: rest))) = some _ :=
          longBracket?_eq_some.mpr ⟨level, _, rfl, rfl⟩
        simp only [List.cons_append, List.append_assoc] at hnone hsome
        rw [hsome] at hnone
        simp at hnone

theorem first_append_of_ended {c : Char} {cs : Text} (hend : Ended (c :: cs))
    (h : (first c cs).isClosed = true) (rest : Text) : first c (cs ++ rest) = first c cs := by
  have whole {x : Tile} (hx : first c cs = x) (hs : Standing x) :
      first c (cs ++ rest) = first c cs := by
    obtain ⟨body, more, rfl, ht⟩ := exists_first_text c cs
    obtain ⟨d, b, hd, hb⟩ := hs
    rw [hx, hd, List.cons.injEq] at ht
    obtain ⟨rfl, rfl⟩ := ht
    rw [List.append_assoc, hb, hx]
  have hv := view c cs
  generalize hx : first c cs = x at hv h
  cases hv with
  | plain hl =>
      rw [← hx, first_of_lone hl, first_of_lone]
      cases cs with
      | nil =>
          have hc : c = '\n' := hend c rfl
          subst hc
          exact ⟨by decide, by decide, fun hd => absurd hd (by decide),
            fun hd => absurd hd (by decide), fun hd => absurd hd (by decide),
            fun hd => absurd hd (by decide)⟩
      | cons d ds =>
          refine ⟨hl.single, hl.double, fun hc => ?_, hl.dash, hl.slash, hl.block⟩
          obtain ⟨line, more, hsplit, hline⟩ := hend.exists_line (by simp)
          have hnone := hl.bracket hc
          rw [hsplit] at hnone
          rw [← List.cons_append, hsplit, List.append_assoc]
          exact longBracket?_line hline hnone _
  | quoted hq =>
      rw [isClosed_quoted hq] at h
      rw [← hx]
      exact whole hx (standing_quoted hq h)
  | long _ _ =>
      rw [isClosed_long] at h
      rw [← hx]
      exact whole hx (standing_long h)
  | longComment _ _ =>
      rw [isClosed_longComment] at h
      rw [← hx]
      exact whole hx (standing_longComment h)
  | @lineComment line hc hcs hnone =>
      subst hc hcs
      have hne : line ≠ [] := by
        rintro rfl
        exact absurd (hend '-' rfl) (by decide)
      obtain ⟨l, more, rfl, hl⟩ :=
        Ended.exists_line (hend.of_append (s := ['-', '-']) (t := line)) hne
      have h1 := longBracket?_line hl hnone (more ++ rest)
      rw [List.cons_append, List.append_assoc, List.cons_append, first, h1]
      simp only [lineLength_line hl, List.take_left']
  | @slashComment line hc hcs =>
      subst hc hcs
      have hne : line ≠ [] := by
        rintro rfl
        exact absurd (hend '/' rfl) (by decide)
      obtain ⟨l, more, rfl, hl⟩ :=
        Ended.exists_line (hend.of_append (s := ['/', '/']) (t := line)) hne
      rw [List.cons_append, List.append_assoc, List.cons_append, first]
      simp only [lineLength_line hl, List.take_left']
  | blockComment _ _ =>
      rw [← hx]
      exact whole hx (standing_block h)

/-- Complete lines whose tiles are all closed are lexed apart from what follows. -/
theorem tiles_append {t : Text} (hend : Ended t) (h : ∀ x ∈ tiles t, x.isClosed = true)
    (rest : Text) : tiles (t ++ rest) = tiles t ++ tiles rest := by
  refine tiles_induct (motive := fun t ts => Ended t → (∀ x ∈ ts, x.isClosed = true) →
    tiles (t ++ rest) = ts ++ tiles rest) (fun _ _ => rfl) ?_ t hend h
  intro c body more ht ih hend h
  have hfirst := first_append_of_ended hend (h _ (by simp)) rest
  rw [List.append_assoc] at hfirst
  rw [List.cons_append, List.append_assoc, tiles_cons (by rw [hfirst, ht]), hfirst,
    ih (hend.of_append (s := c :: body)) fun x hx => h x (by simp [hx])]
  rfl

/-! ## Code without comments -/

def isComment : Tile → Bool
  | comment _ | spaced _ => true
  | _ => false

/-- The text goes on with a character that lengthens no tile before it. -/
def Breaks (t : Text) : Prop := ∀ c, t.head? = some c → c ∉ ['[', '=', '-', '/', '*']

@[simp] theorem breaks_nil : Breaks [] := by simp [Breaks]

theorem breaks_cons {c : Char} {t : Text} : Breaks (c :: t) ↔ c ∉ ['[', '=', '-', '/', '*'] := by
  simp [Breaks]

theorem breaks_blank_append {b t : Text} (hb : Text.Blank b) (ht : Breaks t) : Breaks (b ++ t) := by
  cases b with
  | nil => exact ht
  | cons c cs =>
      have hall : ∀ d ∈ ['[', '=', '-', '/', '*'], isBlank d = false := by decide
      refine breaks_cons.mpr fun hc => ?_
      rw [Text.blank_cons, hall c hc] at hb
      simp at hb

theorem breaks_of_blank {b : Text} (hb : Text.Blank b) : Breaks b := by
  have h := breaks_blank_append hb breaks_nil
  rwa [List.append_nil] at h

private theorem longBracket?_append {cs rest : Text} (hrest : Breaks rest)
    (h : longBracket? ('[' :: cs) = none) : longBracket? ('[' :: (cs ++ rest)) = none := by
  cases hs : longBracket? ('[' :: (cs ++ rest)) with
  | none => rfl
  | some n =>
      obtain ⟨level, inside, ht, -⟩ := longBracket?_eq_some.mp hs
      rw [List.cons.injEq] at ht
      have whole {v : Text} (hcs : cs = opener level ++ v) : False := by
        rw [hcs, longBracket?_eq_some.mpr ⟨level, v, rfl, rfl⟩] at h
        simp at h
      rcases List.append_eq_append_iff.mp ht.2 with ⟨v, hv, hw⟩ | ⟨v, hv, -⟩
      · cases v with
        | nil => exact (whole (v := []) (by rw [hv, List.append_nil, List.append_nil])).elim
        | cons d v =>
            have hd : d ∈ opener level := by rw [hv]; simp
            have hout := hrest d (by rw [hw]; rfl)
            simp only [opener, List.mem_append, List.mem_replicate, List.mem_singleton] at hd
            rcases hd with ⟨-, rfl⟩ | rfl
            · simp at hout
            · simp at hout
      · exact (whole hv).elim

private theorem head?_append_ne {cs rest : Text} {d : Char} (hrest : rest.head? ≠ some d)
    (h : cs.head? ≠ some d) : (cs ++ rest).head? ≠ some d := by
  cases cs with
  | nil => exact hrest
  | cons c cs => exact h

private theorem first_append_code {c : Char} {cs rest : Text} (hrest : Breaks rest)
    (hclosed : (first c cs).isClosed = true) (hcode : (first c cs).isComment = false) :
    first c (cs ++ rest) = first c cs := by
  have whole {x : Tile} (hx : first c cs = x) (hs : Standing x) :
      first c (cs ++ rest) = first c cs := by
    obtain ⟨body, more, rfl, ht⟩ := exists_first_text c cs
    obtain ⟨d, b, hd, hb⟩ := hs
    rw [hx, hd, List.cons.injEq] at ht
    obtain ⟨rfl, rfl⟩ := ht
    rw [List.append_assoc, hb, hx]
  have hne {d : Char} (hd : d ∈ ['[', '=', '-', '/', '*']) : rest.head? ≠ some d :=
    fun h => hrest d h hd
  have hv := view c cs
  generalize hx : first c cs = x at hv hclosed hcode
  cases hv with
  | plain hl =>
      rw [← hx, first_of_lone hl, first_of_lone]
      refine ⟨hl.single, hl.double, fun hc => ?_,
        fun hc => head?_append_ne (hne (by decide)) (hl.dash hc),
        fun hc => head?_append_ne (hne (by decide)) (hl.slash hc),
        fun hc => head?_append_ne (hne (by decide)) (hl.block hc)⟩
      have hnone := hl.bracket hc
      subst hc
      exact longBracket?_append hrest hnone
  | quoted hq =>
      rw [isClosed_quoted hq] at hclosed
      rw [← hx]
      exact whole hx (standing_quoted hq hclosed)
  | long _ _ =>
      rw [isClosed_long] at hclosed
      rw [← hx]
      exact whole hx (standing_long hclosed)
  | _ => simp [isComment] at hcode

/-- Code without comments, its literals closed, is lexed apart from what breaks it off. -/
theorem tiles_append_code {t rest : Text} (hrest : Breaks rest)
    (hclosed : ∀ x ∈ tiles t, x.isClosed = true) (hcode : ∀ x ∈ tiles t, x.isComment = false) :
    tiles (t ++ rest) = tiles t ++ tiles rest := by
  refine tiles_induct (motive := fun t ts => (∀ x ∈ ts, x.isClosed = true) →
    (∀ x ∈ ts, x.isComment = false) → tiles (t ++ rest) = ts ++ tiles rest) (fun _ _ => rfl) ?_ t
    hclosed hcode
  intro c body more ht ih hclosed hcode
  have hfirst := first_append_code hrest (hclosed _ List.mem_cons_self)
    (hcode _ List.mem_cons_self)
  rw [List.append_assoc] at hfirst
  rw [List.cons_append, List.append_assoc, tiles_cons (by rw [hfirst, ht]), hfirst,
    ih (fun x hx => hclosed x (by simp [hx])) fun x hx => hcode x (by simp [hx])]
  rfl

/-- A closing that is found in a text is found at the same place when more is appended. -/
private theorem length_of_append {length : Text → Nat} {t b : Text}
    (h : ∀ rest, length (t.take (length (t ++ b)) ++ rest) = length (t.take (length (t ++ b)))) :
    length t = length (t ++ b) := by
  have hshort := h (t.drop (length (t ++ b)))
  have hlong := h (t.drop (length (t ++ b)) ++ b)
  rw [List.take_append_drop] at hshort
  rw [← List.append_assoc, List.take_append_drop] at hlong
  rw [hshort, ← hlong]

private theorem isClosed_quoted_of_append {q : Char} (hq : q = '\'' ∨ q = '"') {cs b : Text}
    (hb : q ∉ b) (h : (first q (cs ++ b)).isClosed = true) : (first q cs).isClosed = true := by
  rw [first_quoted hq, isClosed_quoted hq, List.take_append] at h
  have hclosed := closesQuote_of_append (fun hmem => hb (List.mem_of_mem_take hmem)) h
  rw [first_quoted hq, isClosed_quoted hq,
    length_of_append fun rest => (closesQuote_append hclosed rest).1]
  exact hclosed

private theorem isClosed_long_of_append {level : Nat} {inside b : Text} (hb : ']' ∉ b)
    (h : (first '[' (opener level ++ (inside ++ b))).isClosed = true) :
    (first '[' (opener level ++ inside)).isClosed = true := by
  rw [first_long, isClosed_long, List.take_append] at h
  have hclosed := closesLong_of_append (fun hmem => hb (List.mem_of_mem_take hmem)) h
  rw [first_long, isClosed_long, length_of_append fun rest => (closesLong_append hclosed rest).1]
  exact hclosed

private theorem isComment_first_dash (t : Text) : (first '-' ('-' :: t)).isComment = true := by
  rw [first]
  cases longBracket? t <;> rfl

/-- White space after a text ends no tile of it. -/
private theorem first_of_append_blank {c : Char} {cs b : Text} (hb : Text.Blank b)
    (hclosed : (first c (cs ++ b)).isClosed = true)
    (hcode : (first c (cs ++ b)).isComment = false) :
    (first c cs).isClosed = true ∧ (first c cs).isComment = false := by
  have hout {d : Char} (hd : isBlank d = false) : d ∉ b := by
    intro hmem
    rw [hb d hmem] at hd
    simp at hd
  have hv := view c cs
  generalize hx : first c cs = x at hv
  cases hv with
  | plain _ => exact ⟨rfl, rfl⟩
  | quoted hq =>
      rw [← hx]
      have hquote : isBlank c = false := by rcases hq with rfl | rfl <;> decide
      refine ⟨isClosed_quoted_of_append hq (hout hquote) hclosed, ?_⟩
      rw [first_quoted hq]
      rfl
  | long hc hcs =>
      subst hc hcs
      rw [List.append_assoc] at hclosed
      rw [← hx]
      refine ⟨isClosed_long_of_append (hout (by decide)) hclosed, ?_⟩
      rw [first_long]
      rfl
  | longComment hc hcs =>
      subst hc hcs
      rw [List.cons_append, isComment_first_dash] at hcode
      simp at hcode
  | lineComment hc hcs _ =>
      subst hc hcs
      rw [List.cons_append, isComment_first_dash] at hcode
      simp at hcode
  | slashComment hc hcs =>
      subst hc hcs
      simp [first, isComment] at hcode
  | blockComment hc hcs =>
      subst hc hcs
      simp [first, isComment] at hcode

/-- Code without comments is closed without the white space after it. -/
theorem closed_of_append_blank {t b : Text} (hb : Text.Blank b)
    (hclosed : ∀ x ∈ tiles (t ++ b), x.isClosed = true)
    (hcode : ∀ x ∈ tiles (t ++ b), x.isComment = false) :
    (∀ x ∈ tiles t, x.isClosed = true) ∧ ∀ x ∈ tiles t, x.isComment = false := by
  refine tiles_induct (motive := fun t ts => (∀ x ∈ tiles (t ++ b), x.isClosed = true) →
    (∀ x ∈ tiles (t ++ b), x.isComment = false) →
      (∀ x ∈ ts, x.isClosed = true) ∧ ∀ x ∈ ts, x.isComment = false) ?_ ?_ t hclosed hcode
  · intro _ _
    exact ⟨by simp, by simp⟩
  · intro c body more ht ih hclosed hcode
    have hmem : first c (body ++ more ++ b) ∈ tiles (c :: (body ++ more) ++ b) := by
      rw [List.cons_append, tiles, tilesFrom]
      exact List.mem_cons_self
    obtain ⟨h1, h2⟩ := first_of_append_blank hb (hclosed _ hmem) (hcode _ hmem)
    have hfirst : first c (body ++ (more ++ b)) = first c (body ++ more) := by
      rw [← List.append_assoc]
      exact first_append_code (breaks_of_blank hb) h1 h2
    have hsplit : tiles (c :: (body ++ more) ++ b) =
        first c (body ++ more) :: tiles (more ++ b) := by
      rw [List.cons_append, List.append_assoc, tiles_cons (by rw [hfirst, ht]), hfirst]
    rw [hsplit] at hclosed hcode
    obtain ⟨h3, h4⟩ := ih (fun x hx => hclosed x (List.mem_cons_of_mem _ hx))
      fun x hx => hcode x (List.mem_cons_of_mem _ hx)
    exact ⟨List.forall_mem_cons.mpr ⟨h1, h3⟩, List.forall_mem_cons.mpr ⟨h2, h4⟩⟩

/-- What the tiles cover is the whole text. -/
theorem flatMap_text (t : Text) : (tiles t).flatMap text = t := by
  refine tiles_induct (motive := fun t ts => ts.flatMap text = t) rfl (fun c body rest ht ih => ?_) t
  rw [List.flatMap_cons, ht, ih]
  rfl

/-- Whether a character is code by itself, whatever follows it. -/
def isLone (c : Char) : Bool := !(['\'', '"', '[', '-', '/'].contains c)

theorem isLone_of_blank {c : Char} (h : isBlank c = true) : isLone c = true := by
  rw [isLone, Bool.not_eq_true', Bool.eq_false_iff]
  intro hc
  have hall : ∀ d ∈ ['\'', '"', '[', '-', '/'], isBlank d = false := by decide
  rw [hall c (List.contains_iff_mem.mp hc)] at h
  simp at h

theorem tiles_code {s : Text} (h : ∀ c ∈ s, isLone c = true) (t : Text) :
    tiles (s ++ t) = s.map .plain ++ tiles t := by
  induction s with
  | nil => rfl
  | cons c cs ih =>
      have hc := h c (by simp)
      simp only [isLone, List.contains_eq_mem, List.mem_cons, List.not_mem_nil, or_false,
        Bool.not_eq_true', decide_eq_false_iff_not, not_or] at hc
      obtain ⟨h1, h2, h3, h4, h5⟩ := hc
      rw [List.cons_append, tiles_lone ⟨h1, h2, fun e => absurd e h3, fun e => absurd e h4,
        fun e => absurd e h5, fun e => absurd e h5⟩, ih fun d hd => h d (by simp [hd])]
      rfl

end Stencil.Tile
