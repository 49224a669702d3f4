import Stencil.Proofs.Normalize.Edits
/-!
# The rules as edits

One lemma for each rule of the normal form: what it reads is a stretch of code, and what it writes
are insertions with kept code between them.
-/
namespace Stencil.Normalize

/-- Wherever the rule applies, it edits a stretch of the text. -/
def Edits (rule : Rule) : Prop :=
  ∀ {before t new rest}, rule before t = some (new, rest) →
    ∃ old, old ≠ [] ∧ t = old ++ rest ∧ ∀ {rest'}, Edit rest rest' → Edit (old ++ rest) (new ++ rest')

theorem Edits.advances {rule : Rule} (h : Edits rule) : rule.Advances := by
  intro before t new rest hr
  obtain ⟨old, hold, ht, -⟩ := h hr
  exact ⟨old, hold, ht⟩

theorem Edits.replaceAll {rule : Rule} (h : Edits rule) (t : Text) : Edit t (t.replaceAll rule) := by
  refine Text.replaceFrom_induct h.advances (motive := fun _ t new => Edit t new) (fun _ => .nil)
    (fun _ c _ _ _ ih => .keep c ih) ?_ none t
  intro before old rest new more _ hr ih
  obtain ⟨old', -, ht, hedit⟩ := h hr
  rw [List.append_cancel_right ht]
  exact hedit ih

/-! ## Stretches of code -/

/-- A stretch that ends outside every word can be cut out. -/
theorem edge_of_last {c : Char} (h : isWordChar c = false) (old rest : Text) :
    Edge (old ++ [c]) rest := by
  intro hlast
  simp [h] at hlast

/-- A stretch that a text outside every word follows can be cut out. -/
theorem edge_of_ended {rest : Text} (h : wordHasEnded rest = true) (old : Text) :
    Edge old rest := by
  intro _
  simpa [wordHasEnded] using h

/-- A word that ends can be cut out with the white space after it. -/
theorem edge_of_blank {b rest : Text} (hb : Text.Blank b)
    (h : wordHasEnded (b ++ rest) = true) (word : Text) : Edge (word ++ b) rest := by
  rcases List.eq_nil_or_concat b with rfl | ⟨b, c, rfl⟩
  · exact edge_of_ended h _
  · rw [List.concat_eq_append, ← List.append_assoc]
    exact edge_of_last (isWordChar_of_blank (hb c (by simp))) _ _

/-! ## Blocks -/

/-- The keyword of the brace form of a head. -/
def braceKeyword (keyword : Text) : Text :=
  if "else".toList.isPrefixOf keyword then "\x7d else if".toList else keyword

/-- What the parenthesis that is open here holds, if a colon follows its partner. -/
def colonGroup? (inside : Text) : Option Text :=
  (Text.splitGroup? '(' ')' 0 inside).bind fun found =>
    if (Text.trimStart found.2).head? = some ':' then some found.1 else none

theorem colonGroup?_eq_some {inside condition : Text} : colonGroup? inside = some condition ↔
    ∃ after rest, Text.splitGroup? '(' ')' 0 inside = some (condition, after) ∧
      Text.trimStart after = ':' :: rest := by
  rw [colonGroup?, Option.bind_eq_some_iff]
  constructor
  · rintro ⟨⟨condition', after⟩, hs, h⟩
    split at h
    · rename_i hcolon
      obtain ⟨rest, hrest⟩ := List.head?_eq_some_iff.mp hcolon
      exact ⟨after, rest, by rw [hs, ← Option.some.inj h], hrest⟩
    · simp at h
  · rintro ⟨after, rest, hs, hcolon⟩
    exact ⟨_, hs, if_pos (by rw [hcolon]; rfl)⟩

/-- A head is either passed over or, with a colon, gets a brace. -/
theorem colonHead_eq_some {before : Option Char} {t new rest : Text}
    (h : colonHead before t = some (new, rest)) : wordMayBegin before = true ∧
      ∃ keyword b, BlockHead.IsKeyword keyword ∧ Text.Blank b ∧
        (new = keyword ++ b ++ ['('] ∧ t = new ++ rest ∧ colonGroup? rest = none ∨
          ∃ condition b', Text.Balanced '(' ')' condition ∧ Text.Blank b' ∧
            t = keyword ++ b ++ ['('] ++ (condition ++ ')' :: (b' ++ ':' :: rest)) ∧
            new = braceKeyword keyword ++ " (".toList ++ (condition ++ ')' :: " \x7b".toList)) := by
  obtain ⟨⟨keyword, afterOpen⟩, hhead, hnew⟩ := Option.map_eq_some_iff.mp h
  obtain ⟨hbegin, hkey, b, hb, ht⟩ := BlockHead.read?_eq_some.mp hhead
  have hread : t = keyword ++ b ++ ['('] ++ afterOpen := by rw [ht]; simp
  refine ⟨hbegin, keyword, b, hkey, hb, ?_⟩
  have kept (hk : (t.take (t.length - afterOpen.length), afterOpen) = (new, rest))
      (hgroup : colonGroup? afterOpen = none) :
      new = keyword ++ b ++ ['('] ∧ t = new ++ rest ∧ colonGroup? rest = none := by
    rw [hread, Text.take_read, Prod.mk.injEq] at hk
    obtain ⟨rfl, rfl⟩ := hk
    exact ⟨rfl, hread, hgroup⟩
  dsimp only at hnew
  split at hnew
  · rename_i hs
    exact Or.inl (kept hnew (by rw [colonGroup?, hs]; rfl))
  · rename_i condition after hs
    obtain ⟨hafter, hbal⟩ := (Text.splitGroup?_eq_some (by decide)).mp hs
    split at hnew
    · rename_i rest₀ hcolon
      obtain ⟨b', hb', hsplit⟩ := Text.exists_blank_trimStart after
      rw [Prod.mk.injEq] at hnew
      obtain ⟨rfl, rfl⟩ := hnew
      refine Or.inr ⟨condition, b', hbal, hb', ?_, ?_⟩
      · rw [hread, hafter, hsplit, hcolon]
      · rw [List.append_assoc]
        rfl
    · rename_i hother
      refine Or.inl (kept hnew ?_)
      rw [Option.eq_none_iff_forall_ne_some]
      intro condition' hgroup
      obtain ⟨after', rest', hs', hcolon⟩ := colonGroup?_eq_some.mp hgroup
      rw [hs, Option.some.injEq, Prod.mk.injEq] at hs'
      exact hother rest' (by rw [hs'.2]; exact hcolon)

private theorem braceKeyword_mem_insertions {keyword : Text} (h : BlockHead.IsKeyword keyword) :
    braceKeyword keyword ++ " (".toList ∈ insertions := by
  cases h with
  | plain hw =>
      simp only [List.mem_cons, List.not_mem_nil, or_false] at hw
      rcases hw with rfl | rfl | rfl <;> decide
  | branch hb =>
      rw [braceKeyword, if_pos (List.isPrefixOf_iff_prefix.mpr (List.prefix_append _ _))]
      decide

private theorem clear_keyword {keyword : Text} (h : BlockHead.IsKeyword keyword) : Clear keyword := by
  cases h with
  | plain hw =>
      simp only [List.mem_cons, List.not_mem_nil, or_false] at hw
      rcases hw with rfl | rfl | rfl <;> decide
  | branch hb =>
      refine Clear.append (by decide) (List.forall_mem_append.mpr ⟨clear_of_blank hb, by decide⟩)

theorem edits_colonHead : Edits colonHead := by
  intro before t new rest h
  obtain ⟨-, keyword, b, hkey, hb, ⟨rfl, rfl, -⟩ | ⟨condition, b', -, hb', rfl, rfl⟩⟩ :=
    colonHead_eq_some h
  · exact ⟨_, by simp, rfl, fun he => he.prepend _⟩
  · have hopen : Symbol.Bare (keyword ++ b ++ ['(']) := by
      rw [Symbol.bare_append, Symbol.bare_append]
      exact ⟨⟨hkey.bare, Symbol.bare_of_blank hb⟩, by decide⟩
    have hclose : Symbol.Bare (b' ++ [':']) :=
      Symbol.bare_append.mpr ⟨Symbol.bare_of_blank hb', by decide⟩
    refine ⟨keyword ++ b ++ ['('] ++ (condition ++ ')' :: (b' ++ [':'])), by simp, by simp,
      fun {rest'} he => ?_⟩
    have h1 : Edit (b' ++ [':'] ++ rest) (" \x7b".toList ++ rest') :=
      .swap (Clear.prepend (by decide) (clear_of_blank hb')) hclose (by decide)
        (edge_of_last (by decide) _ _) he
    have h2 := Edit.swap (((clear_keyword hkey).append (clear_of_blank hb)).append (by decide)) hopen
      (braceKeyword_mem_insertions hkey)
      (edge_of_last (by decide) _ _) ((Edit.keep ')' h1).prepend condition)
    simpa using h2

/-- A word, white space and one more character are a stretch of code that can be cut out. -/
private theorem edit_wordThen {word b rest rest' new : Text} {c : Char}
    (hclear : Clear word) (hword : Symbol.Bare word) (hb : Text.Blank b)
    (hmark : Symbol.isMarkChar c = false) (hc : isWordChar c = false)
    (hend : ['p', 'c', ')'].contains c = false) (hnew : new ∈ insertions) (he : Edit rest rest') :
    Edit (word ++ (b ++ [c]) ++ rest) (new ++ rest') := by
  rw [← List.append_assoc word]
  exact .swap ((hclear.append (clear_of_blank hb)).append (by simpa using hend)) (by simp [hword, Symbol.bare_of_blank hb, hmark]) hnew
    (edge_of_last hc _ _) he

/-- An `else` with a colon closes a block and opens one. -/
theorem colonElse_eq_some {before : Option Char} {t new rest : Text} :
    colonElse before t = some (new, rest) ↔ wordMayBegin before = true ∧
      (∃ b, Text.Blank b ∧ t = "else".toList ++ (b ++ ':' :: rest)) ∧
      new = "\x7d else \x7b".toList := by
  constructor
  · intro h
    unfold colonElse at h
    split at h
    · rename_i hbegin
      split at h
      · rename_i rest₀ hs
        obtain ⟨after, ha, hs⟩ := Option.map_eq_some_iff.mp hs
        obtain ⟨b, hb, hsplit⟩ := Text.exists_blank_trimStart after
        rw [Option.some.injEq, Prod.mk.injEq] at h
        obtain ⟨rfl, rfl⟩ := h
        exact ⟨hbegin, ⟨b, hb, by rw [Text.after?_eq_some.mp ha, hsplit, hs]⟩, rfl⟩
      · simp at h
    · simp at h
  · rintro ⟨hbegin, ⟨b, hb, rfl⟩, rfl⟩
    rw [colonElse, if_pos hbegin, Text.after?_append, Option.map_some,
      Text.trimStart_append hb (Text.flush_cons.mpr (by decide))]
    rfl

theorem edits_colonElse : Edits colonElse := by
  intro before t new rest h
  obtain ⟨-, ⟨b, hb, rfl⟩, rfl⟩ := colonElse_eq_some.mp h
  exact ⟨"else".toList ++ (b ++ [':']), by simp, by simp, fun he =>
    edit_wordThen (by decide) (by decide) hb (by decide) (by decide) (by decide) (by decide) he⟩

/-- An `else` that is a statement of its own, with the white space around it. -/
theorem bareElse?_eq_some {t lead stop rest : Text} (h : bareElse? t = some (lead, stop, rest)) :
    ∃ b, Text.Blank lead ∧ Text.Blank b ∧ t = lead ++ ("else".toList ++ b ++ (stop ++ rest)) ∧
      (stop = [] ∧ rest = [] ∨ stop = [';']) := by
  unfold bareElse? at h
  have ht : t = t.takeWhile isBlank ++ Text.trimStart t := List.takeWhile_append_dropWhile.symm
  split at h
  · simp at h
  · rename_i after ha
    obtain ⟨b, hb, hsplit⟩ := Text.exists_blank_trimStart after
    rw [Text.after?_eq_some.mp ha, hsplit] at ht
    split at h
    · split at h
      · rename_i hend
        simp only [Option.some.injEq, Prod.mk.injEq] at h
        obtain ⟨rfl, rfl, rfl⟩ := h
        exact ⟨b, Text.blank_takeWhile t, hb, by rw [hend] at ht; simpa using ht, Or.inl ⟨rfl, rfl⟩⟩
      · rename_i hend
        simp only [Option.some.injEq, Prod.mk.injEq] at h
        obtain ⟨rfl, rfl, rfl⟩ := h
        exact ⟨b, Text.blank_takeWhile t, hb, by rw [hend] at ht; simpa using ht, Or.inr rfl⟩
      · simp at h
    · simp at h

/-- An `else` of its own closes a block and opens one, at the start or after a semicolon. -/
theorem statementElse_eq_some {before : Option Char} {t new rest : Text}
    (h : statementElse before t = some (new, rest)) :
    ∃ p lead b stop, (p = [] ∧ before = none ∨ p = [';']) ∧ Text.Blank lead ∧ Text.Blank b ∧
      (stop = [] ∧ rest = [] ∨ stop = [';']) ∧
      t = p ++ (lead ++ ("else".toList ++ b ++ (stop ++ rest))) ∧
      new = p ++ lead ++ "\x7d else \x7b".toList ++ stop := by
  unfold statementElse at h
  simp only [Option.orElse_eq_orElse, Option.orElse_eq_or, Option.or_eq_some_iff] at h
  rcases h with h | ⟨-, h⟩
  · split at h
    · rename_i hnone
      obtain ⟨⟨lead, stop, rest₀⟩, hbare, hnew⟩ := Option.map_eq_some_iff.mp h
      obtain ⟨b, hlead, hb, ht, hstop⟩ := bareElse?_eq_some hbare
      rw [Prod.mk.injEq] at hnew
      obtain ⟨hnew, rfl⟩ := hnew
      exact ⟨[], lead, b, stop, Or.inl ⟨rfl, Option.isNone_iff_eq_none.mp hnone⟩, hlead, hb, hstop,
        ht, hnew.symm⟩
    · simp at h
  · split at h
    · obtain ⟨⟨lead, stop, rest₀⟩, hbare, hnew⟩ := Option.map_eq_some_iff.mp h
      obtain ⟨b, hlead, hb, rfl, hstop⟩ := bareElse?_eq_some hbare
      rw [Prod.mk.injEq] at hnew
      obtain ⟨hnew, rfl⟩ := hnew
      exact ⟨[';'], lead, b, stop, Or.inr rfl, hlead, hb, hstop, rfl, hnew.symm⟩
    · simp at h

theorem edits_statementElse : Edits statementElse := by
  intro before t new rest h
  obtain ⟨p, lead, b, stop, -, -, hb, hstop, rfl, rfl⟩ := statementElse_eq_some h
  refine ⟨p ++ lead ++ ("else".toList ++ b) ++ stop, by simp, by simp, fun {rest'} he => ?_⟩
  have hended : wordHasEnded (stop ++ rest) = true := by
    rcases hstop with ⟨rfl, rfl⟩ | rfl
    · rfl
    · exact show (!isWordChar ';') = true by decide
  have h1 := Edit.swap (Clear.append (by decide) (clear_of_blank hb))
    (Symbol.bare_append.mpr ⟨by decide, Symbol.bare_of_blank hb⟩)
    (show "\x7d else \x7b".toList ∈ insertions by decide)
    (edge_of_ended hended ("else".toList ++ b)) (he.prepend stop)
  have h2 := h1.prepend (p ++ lead)
  simpa only [List.append_assoc] using h2

theorem endedKeyword?_eq_some {t rest : Text} (h : endedKeyword? t = some rest) :
    ∃ word ∈ ["if", "for", "while"], t = word.toList ++ rest := by
  obtain ⟨word, hw, ha⟩ := List.exists_of_findSome?_eq_some h
  exact ⟨word, hw, Text.after?_eq_some.mp ha⟩

theorem endedKeyword?_append {word : String} (hw : word ∈ ["if", "for", "while"]) (t : Text) :
    endedKeyword? (word.toList ++ t) = some t := by
  simp only [List.mem_cons, List.not_mem_nil, or_false] at hw
  rcases hw with rfl | rfl | rfl <;> rfl

/-- After white space a word may begin where one may before it. -/
theorem mayBegin_blank {before : Option Char} {b : Text} (hb : Text.Blank b)
    (h : wordMayBegin before = true) : wordMayBegin (Text.lastOr before b) = true := by
  rcases List.eq_nil_or_concat b with rfl | ⟨b, c, rfl⟩
  · exact h
  · have := isWordChar_of_blank (hb c (by simp))
    simp [wordMayBegin, this]

theorem ended_blank_append {b t : Text} (hb : Text.Blank b)
    (h : wordHasEnded (Text.trimStart t) = true) : wordHasEnded (b ++ t) = true := by
  cases b with
  | nil =>
      cases t with
      | nil => rfl
      | cons c cs =>
          by_cases hc : isBlank c = true
          · simp [wordHasEnded, isWordChar_of_blank hc]
          · rwa [Text.trimStart_of_flush (Text.flush_cons.mpr (by simpa using hc))] at h
  | cons c b =>
      have := isWordChar_of_blank (hb c (by simp))
      simp [wordHasEnded, this]

/-- The words that end a block, with what stands between them: nothing, or a space where a semicolon
follows. -/
theorem blockEnd_eq_some {before : Option Char} {t new rest : Text}
    (h : blockEnd before t = some (new, rest)) : wordMayBegin before = true ∧ new = ['}'] ∧
      ∃ word ∈ ["if", "for", "while"], ∃ space b stop, Text.Blank b ∧ (stop = [] ∨ stop = [';']) ∧
        (space = [] ∨ space = [' '] ∧ stop = [';']) ∧
        t = "end".toList ++ (space ++ word.toList) ++ (b ++ stop) ++ rest ∧
        wordHasEnded (b ++ stop ++ rest) = true := by
  unfold blockEnd at h
  split at h
  · rename_i hbegin
    refine ⟨hbegin, ?_⟩
    split at h
    · simp at h
    · rename_i after ha
      rw [Text.after?_eq_some] at ha
      subst ha
      split at h
      · rename_i rest₁ hk
        rw [Option.filter_eq_some_iff] at hk
        obtain ⟨hkey, hended⟩ := hk
        obtain ⟨word, hw, rfl⟩ := endedKeyword?_eq_some hkey
        obtain ⟨b, hb, hsplit⟩ := Text.exists_blank_trimStart rest₁
        rw [hsplit] at hended ⊢
        split at h
        · rename_i rest₂ hs
          rw [Option.some.injEq, Prod.mk.injEq] at h
          obtain ⟨rfl, rfl⟩ := h
          rw [hs] at hended ⊢
          exact ⟨rfl, word, hw, [], b, [';'], hb, Or.inr rfl, Or.inl rfl, by simp,
            by simpa using hended⟩
        · rw [Option.some.injEq, Prod.mk.injEq] at h
          obtain ⟨rfl, rfl⟩ := h
          exact ⟨rfl, word, hw, [], b, [], hb, Or.inl rfl, Or.inl rfl, by simp,
            by simpa using hended⟩
      · split at h
        · rename_i rest₂ hs
          rw [Option.some.injEq, Prod.mk.injEq] at h
          obtain ⟨rfl, rfl⟩ := h
          obtain ⟨rest₁, hbind, hsemi⟩ := Option.map_eq_some_iff.mp hs
          obtain ⟨after', hspace, hkey⟩ := Option.bind_eq_some_iff.mp hbind
          obtain ⟨word, hw, rfl⟩ := endedKeyword?_eq_some hkey
          rw [Text.after?_eq_some] at hspace
          subst hspace
          obtain ⟨b, hb, hsplit⟩ := Text.exists_blank_trimStart rest₁
          rw [hsplit, hsemi]
          refine ⟨rfl, word, hw, [' '], b, [';'], hb, Or.inr rfl, Or.inr ⟨rfl, rfl⟩, by simp, ?_⟩
          rw [List.append_assoc]
          refine ended_blank_append hb ?_
          rw [List.singleton_append, Text.trimStart_of_flush (Text.flush_cons.mpr (by decide))]
          exact show (!isWordChar ';') = true by decide
        · simp at h
  · simp at h

/-- Such words are read wherever a word may begin. -/
theorem blockEnd_ne_none {before : Option Char} {word : String} {space v : Text}
    (hbegin : wordMayBegin before = true) (hw : word ∈ ["if", "for", "while"])
    (h : space = [] ∧ wordHasEnded v = true ∨
      space = [' '] ∧ ∃ b rest, Text.Blank b ∧ v = b ++ ';' :: rest) :
    blockEnd before ("end".toList ++ (space ++ (word.toList ++ v))) ≠ none := by
  rw [blockEnd, if_pos hbegin, Text.after?_append]
  dsimp only
  rcases h with ⟨rfl, hended⟩ | ⟨rfl, b, rest, hb, rfl⟩
  · rw [List.nil_append, endedKeyword?_append hw, Option.filter_some, if_pos hended]
    dsimp only
    split <;> simp
  · have hnone : endedKeyword? ([' '] ++ (word.toList ++ (b ++ ';' :: rest))) = none := rfl
    rw [hnone, Text.after?_append, Option.bind_some, endedKeyword?_append hw, Option.map_some,
      Text.trimStart_append hb (Text.flush_cons.mpr (by decide))]
    simp

private theorem bare_blockEnd : ∀ word ∈ ["if", "for", "while"], ∀ space ∈ [[], [' ']],
    Symbol.Bare ("end".toList ++ (space ++ word.toList)) ∧
      Clear ("end".toList ++ (space ++ word.toList)) := by decide

/-- A word and the white space after it are a stretch of code that can be cut out. -/
private theorem edit_word {word b rest rest' new : Text} (hclear : Clear word)
    (hword : Symbol.Bare word) (hb : Text.Blank b) (hended : wordHasEnded (b ++ rest) = true)
    (hnew : new ∈ insertions) (he : Edit rest rest') : Edit (word ++ b ++ rest) (new ++ rest') :=
  .swap (hclear.append (clear_of_blank hb)) (by simp [hword, Symbol.bare_of_blank hb]) hnew
    (edge_of_blank hb hended word) he

theorem edits_blockEnd : Edits blockEnd := by
  intro before t new rest h
  obtain ⟨-, rfl, word, hw, space, b, stop, hb, hstop, hspace, rfl, hended⟩ := blockEnd_eq_some h
  obtain ⟨hbare, hclear⟩ := bare_blockEnd word hw space (by
    rcases hspace with rfl | ⟨rfl, -⟩ <;> simp)
  refine ⟨_, by simp, rfl, fun he => ?_⟩
  rcases hstop with rfl | rfl
  · rw [List.append_nil] at hended ⊢
    exact edit_word hclear hbare hb hended (by decide) he
  · exact edit_wordThen hclear hbare hb (by decide) (by decide) (by decide) (by decide) he

theorem edited_toBraces (t : Text) : Edited t (toBraces t) :=
  ((((Edited.refl t).tail (edits_colonHead.replaceAll _)).tail (edits_colonElse.replaceAll _)).tail
    (edits_statementElse.replaceAll _)).tail (edits_blockEnd.replaceAll _)

/-! ## White space and semicolons -/

/-- Characters outside every word and every placeholder can be cut out. -/
private theorem edit_outside {old rest rest' new : Text} (hclear : Clear old)
    (hold : ∀ c ∈ old, Symbol.isMarkChar c = false ∧ isWordChar c = false)
    (hnew : new ∈ insertions) (he : Edit rest rest') : Edit (old ++ rest) (new ++ rest') := by
  obtain ⟨u, c, rfl⟩ := (List.eq_nil_or_concat old).resolve_left hclear.ne_nil
  rw [List.concat_eq_append] at hold hclear ⊢
  exact .swap hclear (fun d hd => (hold d hd).1) hnew (edge_of_last (hold c (by simp)).2 _ _) he

private theorem outside_of_blank {b : Text} (hb : Text.Blank b) :
    ∀ c ∈ b, Symbol.isMarkChar c = false ∧ isWordChar c = false :=
  fun c hc => ⟨Symbol.isMarkChar_of_blank (hb c hc), isWordChar_of_blank (hb c hc)⟩

/-- A character with the white space around it that becomes an insertion. -/
private theorem edits_between {t after new : Text} {c : Char} (hs : Text.trimStart t = c :: after)
    (hc : Symbol.isMarkChar c = false ∧ isWordChar c = false) (hclear : Clear [c])
    (hnew : new ∈ insertions) : ∃ old, old ≠ [] ∧ t = old ++ Text.trimStart after ∧
      ∀ {rest'}, Edit (Text.trimStart after) rest' →
        Edit (old ++ Text.trimStart after) (new ++ rest') := by
  obtain ⟨b, hb, hsplit⟩ := Text.exists_blank_trimStart t
  obtain ⟨b', hb', hsplit'⟩ := Text.exists_blank_trimStart after
  have hout : ∀ d ∈ b ++ c :: b', Symbol.isMarkChar d = false ∧ isWordChar d = false := by
    intro d hd
    simp only [List.mem_append, List.mem_cons] at hd
    rcases hd with hd | rfl | hd
    · exact outside_of_blank hb d hd
    · exact hc
    · exact outside_of_blank hb' d hd
  have hstretch : Clear (b ++ c :: b') :=
    (hclear.append (clear_of_blank hb')).prepend (clear_of_blank hb)
  refine ⟨b ++ c :: b', by simp, ?_, fun he => edit_outside hstretch hout hnew he⟩
  rw [hs, hsplit'] at hsplit
  rw [hsplit]
  simp

theorem edits_semicolonSpace : Edits semicolonSpace := by
  intro before t new rest h
  unfold semicolonSpace at h
  split at h
  · rename_i after hs
    rw [Option.some.injEq, Prod.mk.injEq] at h
    obtain ⟨rfl, rfl⟩ := h
    exact edits_between hs (by decide) (by decide) (by decide)
  · simp at h

theorem edits_braceSpace : Edits braceSpace := by
  intro before t new rest h
  unfold braceSpace at h
  split at h
  · rename_i after hs
    rw [Option.some.injEq, Prod.mk.injEq] at h
    obtain ⟨rfl, rfl⟩ := h
    exact edits_between hs (by decide) (by decide) (by decide)
  · rename_i after hs
    rw [Option.some.injEq, Prod.mk.injEq] at h
    obtain ⟨rfl, rfl⟩ := h
    exact edits_between hs (by decide) (by decide) (by decide)
  · simp at h

/-- Semicolons are read up to the last of them. -/
theorem repeatedSemicolon_eq_some {before : Option Char} {t new rest : Text}
    (h : repeatedSemicolon before t = some (new, rest)) : ∃ g, (∀ c ∈ g, c = ';') ∧
      new = [';'] ∧ t = ';' :: ';' :: (g ++ rest) ∧ rest.head? ≠ some ';' := by
  unfold repeatedSemicolon at h
  split at h
  · rename_i after
    rw [Option.some.injEq, Prod.mk.injEq] at h
    obtain ⟨rfl, rfl⟩ := h
    refine ⟨after.takeWhile (· == ';'), fun c hc => ?_, rfl, ?_, fun hhead => ?_⟩
    · exact eq_of_beq (List.all_eq_true.mp List.all_takeWhile c hc)
    · rw [List.takeWhile_append_dropWhile]
    · have := List.head?_dropWhile_not (· == ';') after
      rw [hhead] at this
      simp at this
  · simp at h

theorem edits_repeatedSemicolon : Edits repeatedSemicolon := by
  intro before t new rest h
  obtain ⟨g, hg, rfl, rfl, -⟩ := repeatedSemicolon_eq_some h
  have hsemi : ∀ c ∈ ';' :: ';' :: g, c = ';' := by simpa using hg
  have hout : ∀ c ∈ ';' :: ';' :: g, Symbol.isMarkChar c = false ∧ isWordChar c = false := by
    intro c hc
    rw [hsemi c hc]
    decide
  have hclear : Clear (';' :: ';' :: g) := by
    refine ⟨fun c hc => ?_, ';', by simp, by decide⟩
    rw [hsemi c hc]
    decide
  exact ⟨';' :: ';' :: g, by simp, by simp, fun he => edit_outside hclear hout (by decide) he⟩

/-- Both braces are read alike: a parenthesis keeps the semicolon before it. -/
private theorem afterBrace_eq_some {c : Char} {after new rest : Text}
    (h : (match after with
      | '(' :: more => some ((c :: ';' :: after).take 3, more)
      | _ => some ((c :: ';' :: after).take 1, after)) = some (new, rest)) :
    new = [c, ';', '('] ∧ c :: ';' :: after = c :: ';' :: '(' :: rest ∨
      new = [c] ∧ c :: ';' :: after = c :: ';' :: rest ∧ rest.head? ≠ some '(' := by
  split at h
  · rw [Option.some.injEq, Prod.mk.injEq] at h
    obtain ⟨rfl, rfl⟩ := h
    exact Or.inl ⟨rfl, rfl⟩
  · rename_i hother
    rw [Option.some.injEq, Prod.mk.injEq] at h
    obtain ⟨rfl, rfl⟩ := h
    refine Or.inr ⟨rfl, rfl, fun hhead => ?_⟩
    obtain ⟨more, hmore⟩ := List.head?_eq_some_iff.mp hhead
    exact hother more hmore

theorem braceSemicolon_eq_some {before : Option Char} {t new rest : Text}
    (h : braceSemicolon before t = some (new, rest)) : ∃ c, (c = '{' ∨ c = '}') ∧
      (new = [c, ';', '('] ∧ t = c :: ';' :: '(' :: rest ∨
        new = [c] ∧ t = c :: ';' :: rest ∧ rest.head? ≠ some '(') := by
  unfold braceSemicolon at h
  split at h
  · exact ⟨'{', Or.inl rfl, afterBrace_eq_some h⟩
  · exact ⟨'}', Or.inr rfl, afterBrace_eq_some h⟩
  · simp at h

theorem edits_braceSemicolon : Edits braceSemicolon := by
  intro before t new rest h
  obtain ⟨c, hc, ⟨rfl, rfl⟩ | ⟨rfl, rfl, -⟩⟩ := braceSemicolon_eq_some h
  · exact ⟨[c, ';', '('], by simp, rfl, fun he => he.prepend _⟩
  · have hout : ∀ d ∈ [c, ';'], Symbol.isMarkChar d = false ∧ isWordChar d = false := by
      rcases hc with rfl | rfl <;> decide
    have hclear : Clear [c, ';'] := by rcases hc with rfl | rfl <;> decide
    have hnew : [c] ∈ insertions := by rcases hc with rfl | rfl <;> decide
    exact ⟨[c, ';'], by simp, rfl, fun he => edit_outside hclear hout hnew he⟩

end Stencil.Normalize
