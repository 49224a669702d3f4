import Stencil.Proofs.Blocks.Tree
import Stencil.Proofs.Normalize.Calls
import Stencil.Proofs.Normalize.Passing
/-!
# The code of clauses

What the code of a clause is to the passes: with the mark that follows it in the brace style, each
rule for blocks passes over it.
-/
namespace Stencil.Normalize

open Text

/-- Code without punctuation, words of blocks and calls that emit nothing. -/
structure Loose (m : Mask) (t : Text) : Prop where
  noStop : ∀ c ∈ t, isStop c = false
  wordless : Wordless t
  callFree : CallFree m t

structure Condition (m : Mask) (t : Text) : Prop extends Loose m t where
  balanced : Balanced '(' ')' t

structure Statement (m : Mask) (t : Text) : Prop extends Loose m t where
  ne_nil : t ≠ []
  front : Flush t
  back : Flush t.reverse
  noParen : t.head? ≠ some '('

/-- What the texts of a clause must be like. -/
def Tame (m : Mask) : Clause Text → Prop
  | .leaf text => Statement m text
  | .head _ condition | .elseIf condition => Condition m condition
  | _ => True

/-- The code of a clause and the mark that follows it in the brace style. -/
inductive Phrase (m : Mask) : Text → Char → Prop
  | statement {t : Text} : Statement m t → Phrase m t ';'
  | head {kind : BlockKind} {c : Text} : Condition m c → Phrase m (Clause.head kind c).code '{'
  | elseIf {c : Text} : Condition m c → Phrase m (Clause.elseIf c).code '{'
  | otherwise : Phrase m (Clause.code .otherwise) '{'

/-! ## Code that marks can be told from -/

private theorem solid_wrapped {front c : Text} (hfront : front ≠ []) (hflush : Flush front)
    (hparen : front.head? ≠ some '(') (hstop : ∀ d ∈ front, isStop d = false)
    (hc : ∀ d ∈ c, isStop d = false) : Solid (front ++ (c ++ [')'])) := by
  obtain ⟨d, ds, rfl⟩ := List.exists_cons_of_ne_nil hfront
  refine ⟨by simp, hflush, ?_, fun e he => ?_, hparen⟩
  · rw [← List.append_assoc, List.reverse_append]
    exact flush_cons.mpr (by decide)
  · rw [List.mem_append, List.mem_append, List.mem_singleton] at he
    rcases he with he | he | rfl
    · exact hstop e he
    · exact hc e he
    · decide

theorem Phrase.solid {m : Mask} {t : Text} {c : Char} (h : Phrase m t c) : Solid t := by
  cases h with
  | statement hs => exact ⟨hs.ne_nil, hs.front, hs.back, hs.noStop, hs.noParen⟩
  | @head kind condition hc =>
      rw [Clause.head_code, ← List.append_assoc]
      have hword : Flush (kind.word ++ " (".toList) := by
        cases kind <;> exact flush_cons.mpr (by decide)
      refine solid_wrapped ?_ hword ?_ ?_ hc.noStop <;> cases kind <;> decide
  | elseIf hc =>
      rw [Clause.elseIf_code]
      exact solid_wrapped (by decide) (flush_cons.mpr (by decide)) (by decide) (by decide) hc.noStop
  | otherwise =>
      rw [Clause.otherwise_code]
      exact ⟨by decide, flush_cons.mpr (by decide), flush_cons.mpr (by decide), by decide, by decide⟩

theorem Phrase.callFree {m : Mask} {t : Text} {c : Char} (h : Phrase m t c) : CallFree m t := by
  have wrapped {front condition : Text} (hc : Condition m condition)
      (hfront : 'p' ∉ front ∧ 'c' ∉ front) (hlast : front.getLast? ≠ some 'e') :
      CallFree m (front ++ (condition ++ [')'])) :=
    callFree_condition hc.callFree hc.balanced hfront hlast (by simp)
  cases h with
  | statement hs => exact hs.callFree
  | @head kind condition hc =>
      rw [Clause.head_code, ← List.append_assoc]
      refine wrapped hc ?_ ?_ <;> cases kind <;> decide
  | elseIf hc => exact wrapped hc (by decide) (by decide)
  | otherwise => exact callFree_of_noParen (by decide)

/-! ## Rules for blocks pass over it -/

theorem ended_next {g rest : Text} {c : Char} (hg : Blank g) (hc : isStop c = true) :
    wordHasEnded (trimStart (g ++ c :: rest)) = true := by
  rw [trimStart_append hg (flush_stop hc _)]
  simp [wordHasEnded, isWordChar_of_stop hc]

theorem passes_wordless {rule : Rule} (hrule : Keyed rule) {t : Text} {c : Char} (ht : Wordless t)
    (hc : isStop c = true) : Passes rule t c :=
  fun _ _ _ _ hg => hrule.wordless ht (ended_next hg hc)

/-- A condition and the parenthesis after it are copied. -/
theorem Keyed.condition {rule : Rule} (hrule : Keyed rule) {c : Text} (hc : Wordless c)
    (before : Option Char) (rest : Text) :
    replaceFrom rule 0 before (c ++ [')'] ++ rest) =
      c ++ [')'] ++ replaceFrom rule 0 (lastOr before (c ++ [')'])) rest := by
  have hended : wordHasEnded (trimStart (')' :: rest)) = true := by
    rw [trimStart_of_flush (flush_cons.mpr (by decide))]
    rfl
  have hclose := hrule.outside (lastOr before c) (s := [')']) (by decide) rest
  rw [List.append_assoc, List.append_assoc, List.singleton_append, hrule.wordless hc hended,
    ← List.singleton_append, hclose, lastOr_append]

/-- Code before a condition is copied together with it. -/
theorem Keyed.wrapped {rule : Rule} (hrule : Keyed rule) {front c : Text} (hc : Wordless c)
    {before : Option Char} {rest : Text}
    (hfront : ∀ t, replaceFrom rule 0 before (front ++ t) =
      front ++ replaceFrom rule 0 (lastOr before front) t) :
    replaceFrom rule 0 before (front ++ (c ++ [')']) ++ rest) =
      front ++ (c ++ [')']) ++ replaceFrom rule 0 (lastOr before (front ++ (c ++ [')']))) rest := by
  rw [List.append_assoc, hfront, hrule.condition hc, lastOr_append before front,
    List.append_assoc front]

/-- A rule that does not apply at the words of heads passes over all phrases. -/
private theorem passes_phrase {rule : Rule} (hrule : Keyed rule)
    (hword : ∀ before (kind : BlockKind) t, rule before (kind.word ++ t) = none)
    (helse : ∀ before t, rule before ("else".toList ++ ' ' :: 'i' :: t) = none)
    (hother : ∀ before g t, Blank g → rule before ("else".toList ++ (g ++ '{' :: t)) = none)
    {m : Mask} {t : Text} {c : Char} (h : Phrase m t c) : Passes rule t c := by
  have hcopy (before : Option Char) (kind : BlockKind) (t : Text) :
      replaceFrom rule 0 before (kind.word ++ " (".toList ++ t) = kind.word ++ " (".toList ++
        replaceFrom rule 0 (lastOr before (kind.word ++ " (".toList)) t := by
    have hw : ∀ c ∈ kind.word, isWordChar c = true := by cases kind <;> decide
    rw [List.append_assoc, hrule.word hw (hword before kind _), hrule.outside _ (by decide),
      lastOr_append, List.append_assoc]
  cases h with
  | statement hs => exact passes_wordless hrule hs.wordless rfl
  | @head kind condition hc =>
      intro before g rest _ _
      rw [Clause.head_code, ← List.append_assoc kind.word]
      exact hrule.wrapped hc.wordless (hcopy before kind)
  | @elseIf condition hc =>
      intro before g rest _ _
      rw [Clause.elseIf_code]
      refine hrule.wrapped hc.wordless fun t => ?_
      have hsplit : "else if (".toList =
          "else".toList ++ ([' '] ++ (BlockKind.conditional.word ++ " (".toList)) := by decide
      have hblank := hrule.outside (lastOr before "else".toList) (s := [' ']) (by decide)
        (BlockKind.conditional.word ++ " (".toList ++ t)
      rw [hsplit, List.append_assoc, hrule.word (by decide), List.append_assoc, hblank,
        hcopy _ .conditional]
      · simp only [lastOr_append, List.append_assoc]
      · exact helse before _
  | otherwise =>
      intro before g rest _ hg
      rw [Clause.otherwise_code]
      exact hrule.word (by decide) (hother before g rest hg)

theorem colonElse_of_else {before : Option Char} {g t : Text} {c : Char} (hg : Blank g)
    (hblank : isBlank c = false) (hc : c ≠ ':') :
    colonElse before ("else".toList ++ (g ++ c :: t)) = none := by
  unfold colonElse
  split
  · rw [after?_append, Option.map_some, trimStart_append hg (flush_cons.mpr hblank)]
    split
    · rename_i rest heq
      rw [Option.some.injEq, List.cons.injEq] at heq
      exact absurd heq.1 hc
    · rfl
  · rfl

theorem Phrase.passes_colonElse {m : Mask} {t : Text} {c : Char} (h : Phrase m t c) :
    Passes colonElse t c := by
  refine passes_phrase keyed_colonElse (fun before kind t => ?_) (fun before t => ?_)
    (fun before g t hg => colonElse_of_else hg (by decide) (by decide)) h
  · unfold colonElse
    split
    · cases kind <;> rfl
    · rfl
  · exact colonElse_of_else (g := [' ']) (by simp [isBlank]) (by decide) (by decide)

theorem Phrase.passes_blockEnd {m : Mask} {t : Text} {c : Char} (h : Phrase m t c) :
    Passes blockEnd t c := by
  refine passes_phrase keyed_blockEnd (fun before kind t => ?_) (fun before t => ?_)
    (fun before g t _ => ?_) h
  all_goals
    unfold blockEnd
    split
  · cases kind <;> rfl
  · rfl
  · rfl
  · rfl
  · rfl
  · rfl

/-! ## Heads with a colon and without -/

private theorem read?_head {before : Option Char} {keyword afterOpen : Text}
    (hbefore : wordMayBegin before = true) (hkey : BlockHead.IsKeyword keyword) :
    BlockHead.read? before (keyword ++ " (".toList ++ afterOpen) = some ⟨keyword, afterOpen⟩ := by
  refine BlockHead.read?_eq_some.mpr ⟨hbefore, hkey, [' '], by simp [isBlank], ?_⟩
  rw [List.append_assoc]
  rfl

/-- A head without a colon is passed over up to its parenthesis. -/
theorem colonHead_kept {before : Option Char} {keyword c after : Text}
    (hbefore : wordMayBegin before = true) (hkey : BlockHead.IsKeyword keyword)
    (hc : Balanced '(' ')' c) (hafter : ∀ rest, trimStart after ≠ ':' :: rest) :
    colonHead before (keyword ++ " (".toList ++ (c ++ ')' :: after)) =
      some (keyword ++ " (".toList, c ++ ')' :: after) := by
  rw [colonHead, read?_head hbefore hkey, Option.map_some]
  simp only [splitGroup?_balanced (by decide) hc, take_read]

/-- A head with a colon gets its brace. -/
theorem colonHead_hit {before : Option Char} {keyword c : Text}
    (hbefore : wordMayBegin before = true) (hkey : BlockHead.IsKeyword keyword)
    (hc : Balanced '(' ')' c) (rest : Text) :
    colonHead before (keyword ++ " (".toList ++ (c ++ ')' :: ':' :: rest)) =
      some (braceKeyword keyword ++ " (".toList ++ c ++ ") \x7b".toList, rest) := by
  have hcolon : trimStart (':' :: rest) = ':' :: rest :=
    trimStart_of_flush (flush_cons.mpr (by decide))
  rw [colonHead, read?_head hbefore hkey, Option.map_some]
  simp only [splitGroup?_balanced (by decide) hc, hcolon]
  rfl

theorem isKeyword_word (kind : BlockKind) : BlockHead.IsKeyword kind.word := by
  cases kind with
  | conditional => exact show BlockHead.IsKeyword "if".toList from .plain (by decide)
  | loop => exact show BlockHead.IsKeyword "while".toList from .plain (by decide)
  | iteration => exact show BlockHead.IsKeyword "for".toList from .plain (by decide)

theorem isKeyword_elseIf : BlockHead.IsKeyword "else if".toList :=
  .branch (b := [' ']) (by simp [isBlank])

theorem colonHead_of_else {before : Option Char} {g t : Text} {c : Char} (hg : Blank g)
    (hblank : isBlank c = false) (hc : c ≠ 'i') :
    colonHead before ("else".toList ++ (g ++ c :: t)) = none := by
  have hkeyword : BlockHead.keyword? ("else".toList ++ (g ++ c :: t)) = none := by
    have hnone : after? "if".toList (c :: t) = none := after?_cons_ne (Ne.symm hc) _ t
    rw [BlockHead.keyword?, after?_append]
    simp only [trimStart_append hg (flush_cons.mpr hblank), hnone, Option.map_none]
  rw [colonHead, BlockHead.read?, hkeyword]
  split <;> rfl

private theorem trimStart_brace_ne {g : Text} (hg : Blank g) (rest more : Text) :
    trimStart (g ++ '\x7b' :: rest) ≠ ':' :: more := by
  rw [trimStart_append hg (flush_cons.mpr (by decide))]
  simp

theorem Phrase.passes_colonHead {m : Mask} {t : Text} {c : Char} (h : Phrase m t c) :
    Passes colonHead t c := by
  -- the head up to its parenthesis is put back, the condition is copied
  have kept {keyword condition : Text} (hkey : BlockHead.IsKeyword keyword)
      (hc : Condition m condition) : Passes colonHead (keyword ++ " (".toList ++ (condition ++ [')'])) '\x7b' := by
    intro before g rest hbefore hg
    have hread := colonHead_kept hbefore hkey hc.balanced (trimStart_brace_ne hg rest)
    have hne : keyword ++ " (".toList ≠ [] := by simp
    have hmatch := replaceFrom_match hne hread
    have hcopy := keyed_colonHead.condition hc.wordless (lastOr before (keyword ++ " (".toList))
      (g ++ '\x7b' :: rest)
    rw [lastOr_append before (keyword ++ " (".toList)]
    simp only [List.append_assoc, List.singleton_append] at hmatch hcopy ⊢
    rw [hmatch, hcopy]
  cases h with
  | statement hs => exact passes_wordless keyed_colonHead hs.wordless rfl
  | @head kind condition hc =>
      rw [Clause.head_code, ← List.append_assoc]
      exact kept (isKeyword_word kind) hc
  | @elseIf condition hc =>
      have hsplit : "else if (".toList = "else if".toList ++ " (".toList := by decide
      rw [Clause.elseIf_code, hsplit]
      exact kept isKeyword_elseIf hc
  | otherwise =>
      intro before g rest hbefore hg
      rw [Clause.otherwise_code]
      exact keyed_colonHead.word (by decide) (colonHead_of_else hg (by decide) (by decide))

/-! ## No phrase is an else of its own -/

private theorem bareElse?_keeps {after : Text} (h : ∀ c rest, trimStart after = c :: rest → c ≠ ';')
    (hne : trimStart after ≠ []) : bareElse? ("else".toList ++ after) = none := by
  have hflush : trimStart ("else".toList ++ after) = "else".toList ++ after :=
    trimStart_of_flush (flush_cons.mpr (by decide))
  rw [bareElse?, hflush, after?_append]
  simp only
  split
  · split
    · rename_i hs
      exact absurd hs hne
    · rename_i rest hs
      exact absurd rfl (h ';' rest hs)
    · rfl
  · rfl

private theorem no_else {t g after rest : Text} (ht : Wordless t) (hg : Blank g)
    (h : t ++ (g ++ ';' :: rest) = "else".toList ++ after) (hended : wordHasEnded after = true) :
    False := by
  have hmem : "else" ∈ blockWords := by decide
  have inside {v : Text} (hv : t = "else".toList ++ v) (hv' : wordHasEnded v = true) : False :=
    ht.not_word (u := []) hmem (by rw [hv]; rfl) rfl hv'
  rcases List.append_eq_append_iff.mp h with ⟨z, hz, hnext⟩ | ⟨v, hv, rfl⟩
  · cases z with
    | nil =>
        rw [List.append_nil] at hz
        exact inside (v := []) (by rw [hz, List.append_nil]) rfl
    | cons d z =>
        -- the rest of the word would begin in white space or at the mark
        have hd : isWordChar d = true := by
          have hall : ∀ d ∈ "else".toList, isWordChar d = true := by decide
          exact hall d (by rw [hz]; simp)
        have hnone : wordHasEnded (trimStart (';' :: rest)) = true := ended_next blank_nil rfl
        have hafter := ended_blank_append hg hnone
        rw [hnext] at hafter
        simp [wordHasEnded, hd] at hafter
  · refine inside hv ?_
    cases v with
    | nil => rfl
    | cons d v => exact hended

theorem Phrase.calm {m : Mask} {t : Text} {c : Char} (h : Phrase m t c) : Calm t c := by
  intro g rest hg
  cases h with
  | statement hs =>
      -- the word would stand at the front of the statement
      have hflush : Flush (t ++ (g ++ ';' :: rest)) :=
        Text.flush_append hs.front fun hnil => absurd hnil hs.ne_nil
      unfold bareElse?
      rw [trimStart_of_flush hflush]
      split
      · rfl
      · rename_i after ha
        split
        · rename_i hended
          exact (no_else hs.wordless hg (after?_eq_some.mp ha) hended).elim
        · rfl
  | @head kind condition hc =>
      rw [Clause.head_code]
      cases kind <;> exact bareElse?_of_head (by decide) (by decide) _
  | elseIf hc =>
      have hsplit : "else if (".toList = "else".toList ++ " if (".toList := by decide
      have hnext (more : Text) : trimStart (" if (".toList ++ more) = "if (".toList ++ more :=
        trimStart_append (b := [' ']) (by simp [isBlank]) (flush_cons.mpr (by decide))
      rw [Clause.elseIf_code, hsplit, List.append_assoc, List.append_assoc]
      refine bareElse?_keeps (fun c rest h => ?_) ?_
      · rw [hnext] at h
        rintro rfl
        exact absurd (List.cons.inj h).1 (by decide)
      · rw [hnext]
        simp
  | otherwise =>
      rw [Clause.otherwise_code]
      refine bareElse?_keeps (fun c rest h => ?_) ?_
      · rw [trimStart_append hg (flush_cons.mpr (by decide)), List.cons.injEq] at h
        rw [← h.1]
        decide
      · rw [trimStart_append hg (flush_cons.mpr (by decide))]
        simp

end Stencil.Normalize
