import Stencil.Proofs.Lower.Code
/-!
# Native blocks and brace blocks in one another

A program may be written in native blocks, in brace blocks, or in both, one within the other at any
depth. Lowering leaves its native blocks as they are and gives each brace block the words of a native
one, so every loop gets its own `end` and every branch stays with its conditional.

A closing brace ends its block unless a branch follows, and that is read off the text alone. So it is
asked here that no block is followed by a native `else` that begins with an `if`: the brace before it
is taken for the end of a branch, not of its block.
-/
namespace Stencil

open Text

/-- The blocks of the language itself. -/
inductive NativeKind where
  | conditional
  | loop
  | iteration
  | scope
  | function
  | repetition
deriving Repr, DecidableEq

namespace NativeKind

def opener : NativeKind → Text
  | .conditional => "if".toList
  | .loop => "while".toList
  | .iteration => "for".toList
  | .scope => "do".toList
  | .function => "function".toList
  | .repetition => "repeat".toList

/-- The word between the head of a block and its body, if it has one. -/
def divider : NativeKind → Text
  | .conditional => "then".toList
  | .loop | .iteration => "do".toList
  | _ => []

def closer : NativeKind → Text
  | .repetition => "until".toList
  | _ => "end".toList

end NativeKind

/-- A part of a program in which blocks of both styles are nested. A branch is written where it
begins, in the body of its conditional. -/
inductive Mixture where
  | code (text : Text)
  | seq (first second : Mixture)
  | group (inside : Mixture)
  | table (inside : Mixture)
  | native (kind : NativeKind) (head body : Mixture)
  | otherwise
  | elseIf (condition : Mixture)
  | braced (kind : BlockKind) (gap : Text) (inside : Mixture) (after : Text) (body : Mixture)
  | bracedElse (gap after : Text)
  | bracedElseIf (gap between behind : Text) (condition : Mixture) (after : Text)
deriving Repr

namespace Mixture

open Lower

/-! ## Branches

A branch is a word, or in braces begins with the brace that ends the branch before it. What is written
for it and for the brace at the end of a block has white space around it.
-/

def elseWord : Text := "else".toList

def elseIfText (condition : Text) : Text := "elseif".toList ++ (condition ++ "then".toList)

def bracedElseText (gap after : Text) : Text :=
  '\x7d' :: (gap ++ ("else".toList ++ (after ++ ['\x7b'])))

def bracedElseIfText (gap between behind condition after : Text) : Text :=
  '\x7d' :: (gap ++ ("else".toList ++ (between ++ ("if".toList ++
    (behind ++ '(' :: (condition ++ ')' :: (after ++ ['\x7b'])))))))

def openingElse : Text := " else ".toList

def openingElseIf (condition after : Text) : Text :=
  " elseif ".toList ++ '(' :: (condition ++ ')' :: (after ++ " then ".toList))

def ending : Text := " end ".toList

/-! ## Both forms of a program -/

def source : Mixture → Text
  | code t => t
  | seq x y => x.source ++ y.source
  | group x => '(' :: (x.source ++ [')'])
  | table x => '\x7b' :: (x.source ++ ['\x7d'])
  | native k h x => k.opener ++ (h.source ++ (k.divider ++ (x.source ++ k.closer)))
  | otherwise => elseWord
  | elseIf c => elseIfText c.source
  | braced k g i a x => headText k g i.source a ++ '\x7b' :: (x.source ++ ['\x7d'])
  | bracedElse g a => bracedElseText g a
  | bracedElseIf g b b' c a => bracedElseIfText g b b' c.source a

def lowered : Mixture → Text
  | code t => t
  | seq x y => x.lowered ++ y.lowered
  | group x => '(' :: (x.lowered ++ [')'])
  | table x => '\x7b' :: (x.lowered ++ ['\x7d'])
  | native k h x => k.opener ++ (h.lowered ++ (k.divider ++ (x.lowered ++ k.closer)))
  | otherwise => elseWord
  | elseIf c => elseIfText c.lowered
  | braced k g i a x => openingText k g i.lowered a ++ (x.lowered ++ ending)
  | bracedElse _ _ => openingElse
  | bracedElseIf _ _ _ c a => openingElseIf c.lowered a

/-! ## Proper nesting -/

def blockWords : List Text :=
  ["if", "then", "elseif", "else", "end", "while", "for", "do", "function", "repeat", "until"].map
    String.toList

/-- No brackets and no words of blocks. -/
def Wordless (t : Text) : Prop :=
  (∀ c ∈ "()\x7b\x7d".toList, c ∉ t) ∧ ∀ w ∈ t.splitOnP fun c => !isNameChar c, w ∉ blockWords

/-- No name goes on from one text into the next. -/
def Unjoined (s t : Text) : Prop :=
  (lastOr none s).any isNameChar = false ∨ t.head?.any isNameChar = false

/-- Between the two texts the word is one of its own. -/
def StandsIn (s word t : Text) : Prop := Unjoined s word ∧ Unjoined word t

/-- Where a part of a program stands. -/
structure Place where
  /-- What the program before it is lowered to. -/
  before : Text
  /-- The program after it. -/
  after : Text
  /-- The innermost block or bracket around it is a conditional. -/
  inConditional : Bool
  /-- The innermost brace around it is that of a table. -/
  inTable : Bool
deriving Repr

def Place.whole : Place := ⟨[], [], false, false⟩

/-- The part is properly nested where it stands: its words are words of their own, its branches are
those of the innermost block, a conditional, and what follows each of its brace blocks may end it. A
brace directly after the parenthesised head of a block opens that block, any other a table. -/
def Fits (ends : Text → Prop) : Mixture → Place → Prop
  | code t, p => Wordless t ∧ Unjoined p.before t ∧ Unjoined t p.after
  | seq x y, p => x.Fits ends { p with after := y.source ++ p.after } ∧
    y.Fits ends { p with before := p.before ++ x.lowered }
  | group x, p => x.Fits ends ⟨p.before ++ ['('], ')' :: p.after, false, p.inTable⟩
  | table x, p => ¬ EndsInHead p.before ∧
    x.Fits ends ⟨p.before ++ ['\x7b'], '\x7d' :: p.after, false, true⟩
  | native k h x, p =>
    let middle := p.before ++ k.opener ++ h.lowered
    let body := x.source ++ k.closer ++ p.after
    StandsIn p.before k.opener (h.source ++ (k.divider ++ body)) ∧
    h.Fits ends ⟨p.before ++ k.opener, k.divider ++ (x.source ++ k.closer) ++ p.after, false,
      p.inTable⟩ ∧
    StandsIn middle k.divider body ∧
    x.Fits ends ⟨middle ++ k.divider, k.closer ++ p.after, k == .conditional, p.inTable⟩ ∧
    StandsIn (middle ++ k.divider ++ x.lowered) k.closer p.after
  | otherwise, p => p.inConditional = true ∧ StandsIn p.before elseWord p.after
  | elseIf c, p => p.inConditional = true ∧
    StandsIn p.before "elseif".toList (c.source ++ ("then".toList ++ p.after)) ∧
    c.Fits ends ⟨p.before ++ "elseif".toList, "then".toList ++ p.after, false, p.inTable⟩ ∧
    StandsIn (p.before ++ "elseif".toList ++ c.lowered) "then".toList p.after
  | braced k g i a x, p =>
    let body := x.source ++ '\x7d' :: p.after
    Unjoined p.before k.word ∧ Blank g ∧ Blank a ∧
    i.Fits ends
      ⟨p.before ++ k.word ++ g ++ ['('], ')' :: (a ++ '\x7b' :: body), false, p.inTable⟩ ∧
    -- a table around the block is no longer the innermost brace
    x.Fits ends
      ⟨p.before ++ openingText k g i.lowered a, '\x7d' :: p.after, k == .conditional, false⟩ ∧
    ends p.after
  -- directly in a table the brace would be taken for the end of the table
  | bracedElse g a, p => p.inConditional = true ∧ p.inTable = false ∧ Blank g ∧ Blank a
  | bracedElseIf g b b' c a, p => p.inConditional = true ∧ p.inTable = false ∧
    (Blank g ∧ Blank b ∧ b ≠ [] ∧ Blank b' ∧ Blank a) ∧
    c.Fits ends ⟨p.before ++ " elseif ".toList ++ ['('], ')' :: (a ++ '\x7b' :: p.after), false, false⟩

instance (s t : Text) : Decidable (Unjoined s t) :=
  inferInstanceAs (Decidable (_ ∨ _))

instance (s word t : Text) : Decidable (StandsIn s word t) :=
  inferInstanceAs (Decidable (_ ∧ _))

instance (t : Text) : Decidable (Wordless t) :=
  inferInstanceAs (Decidable (_ ∧ _))

instance decidableFits (ends : Text → Prop) [DecidablePred ends] :
    (x : Mixture) → (p : Place) → Decidable (x.Fits ends p)
  | code _, _ => inferInstanceAs (Decidable (_ ∧ _))
  | seq x y, _ =>
    @instDecidableAnd _ _ (decidableFits ends x _) (decidableFits ends y _)
  | group x, _ => decidableFits ends x _
  | table x, _ => @instDecidableAnd _ _ inferInstance (decidableFits ends x _)
  | native _ h x, _ =>
    @instDecidableAnd _ _ inferInstance <| @instDecidableAnd _ _ (decidableFits ends h _) <|
      @instDecidableAnd _ _ inferInstance <|
        @instDecidableAnd _ _ (decidableFits ends x _) inferInstance
  | otherwise, _ => inferInstanceAs (Decidable (_ ∧ _))
  | elseIf c, _ =>
    @instDecidableAnd _ _ inferInstance <| @instDecidableAnd _ _ inferInstance <|
      @instDecidableAnd _ _ (decidableFits ends c _) inferInstance
  | braced _ _ i _ x, _ =>
    @instDecidableAnd _ _ inferInstance <| @instDecidableAnd _ _ inferInstance <|
      @instDecidableAnd _ _ inferInstance <| @instDecidableAnd _ _ (decidableFits ends i _) <|
        @instDecidableAnd _ _ (decidableFits ends x _) inferInstance
  | bracedElse _ _, _ => inferInstanceAs (Decidable (_ ∧ _ ∧ _ ∧ _))
  | bracedElseIf _ _ _ c _, _ =>
    @instDecidableAnd _ _ inferInstance <| @instDecidableAnd _ _ inferInstance <|
      @instDecidableAnd _ _ inferInstance (decidableFits ends c _)

/-! ## The groups of a program -/

section Groups

variable {ends : Text → Prop} {t b : Text}

theorem Wordless.not_mem (h : Wordless t) : '(' ∉ t ∧ ')' ∉ t ∧ '\x7b' ∉ t ∧ '\x7d' ∉ t :=
  ⟨h.1 _ (by decide), h.1 _ (by decide), h.1 _ (by decide), h.1 _ (by decide)⟩

theorem not_mem_blank (hb : Blank b) : '(' ∉ b ∧ ')' ∉ b ∧ '\x7b' ∉ b ∧ '\x7d' ∉ b := by
  have hout {c : Char} (hc : isBlank c = false) : c ∉ b := fun hmem => by simp [hb c hmem] at hc
  exact ⟨hout (by decide), hout (by decide), hout (by decide), hout (by decide)⟩

private theorem balanced_blank (hb : Blank b) : Balanced '(' ')' b :=
  balanced_of_not_mem (not_mem_blank hb).1 (not_mem_blank hb).2.1

private theorem balanced_group {inside after : Text} (h : Balanced '(' ')' inside)
    (ha : Blank after) : Balanced '(' ')' ('(' :: (inside ++ ')' :: after)) :=
  h.group (by decide) (balanced_blank ha)

private theorem balanced_openingText {kind : BlockKind} {gap inside after : Text}
    (hg : Blank gap) (hi : Balanced '(' ')' inside) (ha : Blank after) :
    Balanced '(' ')' (openingText kind gap inside after) := by
  have hhead (word : Text) (hw : Balanced '(' ')' word) :
      Balanced '(' ')' (word ++ (gap ++ '(' :: (inside ++ ')' :: after))) :=
    hw.append ((balanced_blank hg).append (balanced_group hi ha))
  cases kind with
  | conditional => exact (hhead _ (by decide)).append (by decide)
  | loop => exact (hhead _ (by decide)).append (by decide)
  | iteration =>
      exact .append (by decide) (.append (hi.trim (by decide) (by decide)) (by decide))

theorem balanced_lowered {x : Mixture} {p : Place} (h : x.Fits ends p) :
    Balanced '(' ')' x.lowered := by
  induction x generalizing p with
  | code t =>
      have ht := h.1.not_mem
      exact balanced_of_not_mem ht.1 ht.2.1
  | seq x y ihx ihy => exact (ihx h.1).append (ihy h.2)
  | group x ih => exact (ih h).group (by decide) rfl
  | table x ih =>
      have hopen : Balanced '(' ')' ['\x7b'] := by decide
      exact hopen.append ((ih h.2).append (by decide))
  | native k g x ihg ihx =>
      obtain ⟨-, hg, -, hx, -⟩ := h
      have hwords : Balanced '(' ')' k.opener ∧ Balanced '(' ')' k.divider ∧
          Balanced '(' ')' k.closer := by cases k <;> decide
      exact hwords.1.append ((ihg hg).append (hwords.2.1.append ((ihx hx).append hwords.2.2)))
  | otherwise => exact rfl
  | elseIf c ih => exact .append (by decide) ((ih h.2.2.1).append (by decide))
  | braced k g i a x ihi ihx =>
      obtain ⟨-, hg, ha, hi, hx, -⟩ := h
      exact (balanced_openingText hg (ihi hi) ha).append ((ihx hx).append (by decide))
  | bracedElse g a => exact rfl
  | bracedElseIf g b b' c a ih =>
      obtain ⟨-, -, ⟨-, -, -, -, ha⟩, hc⟩ := h
      have hend : Balanced '(' ')' (a ++ " then ".toList) := (balanced_blank ha).append (by decide)
      exact .append (by decide) ((ih hc).group (by decide) hend)

end Groups

/-! ## Lowering -/

/-- Lowered after `front`, and with `rest` behind it, the text becomes `result`. -/
def Becomes (braces : List Brace) (front text result rest : Text) : Prop :=
  lowerFrom 0 braces front.reverse (text ++ rest) = lowerFrom 0 braces (front ++ result).reverse rest

section Lowering

variable {braces : List Brace} {front s s' t t' rest : Text}

theorem Becomes.append (h : Becomes braces front s t (s' ++ rest))
    (h' : Becomes braces (front ++ t) s' t' rest) :
    Becomes braces front (s ++ s') (t ++ t') rest := by
  rw [Becomes, List.append_assoc, ← List.append_assoc front]
  exact h.trans h'

private theorem append_reverse : append front.reverse s = (front ++ s).reverse := by
  rw [append_eq_reverse, List.reverse_reverse]

theorem becomes_self (hs : '\x7b' ∉ s ∧ '\x7d' ∉ s) : Becomes braces front s s rest := by
  rw [Becomes, lowerFrom_text hs.1 hs.2, append_reverse]

theorem becomes_blank {b : Text} (hb : Blank b) : Becomes braces front b b rest :=
  becomes_self (not_mem_blank hb).2.2

theorem becomes_group {after : Text} (ha : Blank after)
    (h : Becomes braces (front ++ ['(']) s t (')' :: (after ++ rest))) :
    Becomes braces front ('(' :: (s ++ ')' :: after)) ('(' :: (t ++ ')' :: after)) rest := by
  have hopen : Becomes braces front ['('] ['('] (s ++ ')' :: after ++ rest) := becomes_self (by decide)
  have hclose : Becomes braces (front ++ ['('] ++ t) [')'] [')'] (after ++ rest) :=
    becomes_self (by decide)
  exact hopen.append (h.append (hclose.append (becomes_blank ha)))

/-- A brace that makes no head of a block is copied with its partner. -/
theorem becomes_table (hfront : ¬ EndsInHead front)
    (h : Becomes (.table :: braces) (front ++ ['\x7b']) s t ('\x7d' :: rest)) :
    Becomes braces front ('\x7b' :: (s ++ ['\x7d'])) ('\x7b' :: (t ++ ['\x7d'])) rest := by
  have hnone : head? front.reverse = none := by
    rwa [endsInHead_iff, Bool.not_eq_true, Option.isSome_eq_false_iff, Option.isNone_iff_eq_none]
      at hfront
  have hopen : openBrace front.reverse braces =
      ((front ++ ['\x7b']).reverse, .table :: braces) := by
    rw [openBrace, hnone, List.reverse_append]
    rfl
  rw [Becomes] at h ⊢
  rw [List.cons_append, lowerFrom_opening, hopen, List.append_assoc, List.singleton_append, h,
    lowerFrom_table, append_reverse, List.append_assoc, List.append_assoc]
  rfl

/-- What a head becomes when the brace after it is read. -/
theorem lowerFrom_head {braces' : List Brace} {head head' opening : Text}
    (hhead : Becomes braces front head head' ('\x7b' :: rest))
    (hopen : openBrace (front ++ head').reverse braces = ((front ++ opening).reverse, braces')) :
    lowerFrom 0 braces front.reverse (head ++ '\x7b' :: rest) =
      lowerFrom 0 braces' (front ++ opening).reverse rest := by
  rw [hhead, lowerFrom_opening, hopen]

theorem becomes_block {head head' opening : Text}
    (hhead : Becomes braces front head head' ('\x7b' :: (s ++ '\x7d' :: rest)))
    (hopen : openBrace (front ++ head').reverse braces =
      ((front ++ opening).reverse, .block :: braces))
    (h : Becomes (.block :: braces) (front ++ opening) s t ('\x7d' :: rest))
    (hrest : ¬ BeginsBranch rest) :
    Becomes braces front (head ++ '\x7b' :: (s ++ ['\x7d'])) (opening ++ (t ++ ending)) rest := by
  have hblock := (lowerFrom_head hhead hopen).trans h
  rw [lowerFrom_end (elseAfter?_of_not_branch hrest), append_reverse] at hblock
  simpa [Becomes, ending] using hblock

/-- Where no table is open, the brace before a branch and the words of the branch are read as one. -/
theorem becomes_branch {old branch : Text} (hbraces : braces.head? ≠ some .table)
    (h : elseAfter? (old ++ rest) = some (branch, rest)) :
    Becomes braces front ('\x7d' :: old) branch rest := by
  rw [Becomes, List.cons_append, lowerFrom_branch hbraces h, append_reverse]

theorem becomes_bracedElse {gap after : Text} (hbraces : braces.head? ≠ some .table)
    (hg : Blank gap) (ha : Blank after) :
    Becomes braces front (bracedElseText gap after) openingElse rest := by
  refine becomes_branch hbraces ?_
  simp only [List.append_assoc]
  exact elseAfter?_else hg ha

theorem becomes_bracedElseIf {gap between behind after : Text} (hbraces : braces.head? ≠ some .table)
    (hg : Blank gap) (hb : Blank between) (hne : between ≠ []) (hb' : Blank behind)
    (ha : Blank after) (ht : Balanced '(' ')' t)
    (h : Becomes braces (front ++ " elseif ".toList ++ ['(']) s t
      (')' :: (after ++ '\x7b' :: rest))) :
    Becomes braces front (bracedElseIfText gap between behind s after) (openingElseIf t after)
      rest := by
  have hended : (behind ++ '(' :: (s ++ ')' :: (after ++ '\x7b' :: rest))).head?.any isNameChar =
      false := ended_blank_append hb' fun _ => (by decide : isNameChar '(' = false)
  have hbranch : elseAfter? (gap ++ ("else".toList ++ (between ++ ("if".toList ++ behind))) ++
      ('(' :: (s ++ ')' :: after) ++ '\x7b' :: rest)) =
      some (" elseif ".toList, '(' :: (s ++ ')' :: after) ++ '\x7b' :: rest) := by
    simp only [List.append_assoc, List.cons_append]
    exact elseAfter?_if hg hb hne hb' (flush_cons.mpr (by decide)) hended
  have hhead := (becomes_branch hbraces hbranch).append (becomes_group ha h)
  have hopened := lowerFrom_head hhead (openBrace_branch ht ha)
  have hsource : bracedElseIfText gap between behind s after ++ rest =
      '\x7d' :: (gap ++ ("else".toList ++ (between ++ ("if".toList ++ behind)))) ++
        '(' :: (s ++ ')' :: after) ++ '\x7b' :: rest := by
    simp only [bracedElseIfText, List.append_assoc, List.cons_append, List.nil_append]
  rw [Becomes, hsource]
  exact hopened

/-- Every part of a program becomes its native form, whatever was lowered before it. -/
theorem becomes_lowered {x : Mixture} {p : Place} (h : x.Fits (fun t => ¬ BeginsBranch t) p)
    (hb : p.inTable = true ↔ braces.head? = some .table) :
    Becomes braces p.before x.source x.lowered p.after := by
  induction x generalizing p braces with
  | code t =>
      obtain ⟨ht, -⟩ := h
      exact becomes_self ht.not_mem.2.2
  | seq x y ihx ihy => exact (ihx h.1 hb).append (ihy h.2 hb)
  | group x ih => exact becomes_group blank_nil (ih h hb)
  | table x ih => exact becomes_table h.1 (ih h.2 (by simp))
  | native k g x ihg ihx =>
      obtain ⟨-, hg, -, hx, -⟩ := h
      have hword : ∀ word ∈ [k.opener, k.divider, k.closer], '\x7b' ∉ word ∧ '\x7d' ∉ word := by
        cases k <;> decide
      exact (becomes_self (hword _ (by simp))).append <| (ihg hg hb).append <|
        (becomes_self (hword _ (by simp))).append <| (ihx hx hb).append <|
        becomes_self (hword _ (by simp))
  | otherwise => exact becomes_self (by decide)
  | elseIf c ih =>
      obtain ⟨-, -, hc, -⟩ := h
      exact (becomes_self (by decide)).append ((ih hc hb).append (becomes_self (by decide)))
  | braced k g i a x ihi ihx =>
      obtain ⟨hword, hg, ha, hi, hx, hends⟩ := h
      have hfront : (lastOr none p.before).any isNameChar = false :=
        hword.resolve_right (by cases k <;> decide)
      have hkind : '\x7b' ∉ k.word ∧ '\x7d' ∉ k.word := by cases k <;> decide
      have hhead : Becomes braces p.before (headText k g i.source a) (headText k g i.lowered a)
          ('\x7b' :: (x.source ++ '\x7d' :: p.after)) :=
        (becomes_self hkind).append ((becomes_blank hg).append (becomes_group ha (ihi hi hb)))
      exact becomes_block hhead (openBrace_head hfront hg (balanced_lowered hi) ha)
        (ihx hx (by simp)) hends
  | bracedElse g a =>
      obtain ⟨-, htable, hg, ha⟩ := h
      exact becomes_bracedElse (by simp [← hb, htable]) hg ha
  | bracedElseIf g b b' c a ih =>
      obtain ⟨-, htable, ⟨hg, hgap, hne, hgap', ha⟩, hc⟩ := h
      have hbraces : braces.head? ≠ some .table := by simp [← hb, htable]
      exact becomes_bracedElseIf hbraces hg hgap hne hgap' ha (balanced_lowered hc)
        (ih hc (by simpa using hbraces))

end Lowering

end Mixture

/-- A program in which blocks of both styles are nested is lowered to the same program in native blocks:
each loop in braces gets its own `end`, and each branch stays with the conditional it is written in. It
is asked that nothing that reads like a branch follows a whole block in braces. -/
theorem lower_mixture {body : Text} {x : Mixture} (hbody : (Mask.ofText body).text = x.source)
    (hx : x.Fits (fun t => ¬ Lower.BeginsBranch t) .whole) :
    lower body = (Mask.ofText body).restore (trimEnd x.lowered) := by
  have hplace : Mixture.Place.whole.inTable = true ↔ ([] : List Lower.Brace).head? = some .table := by
    decide
  have hwhole := Mixture.becomes_lowered hx hplace
  have hlower : Lower.lowerFrom 0 [] [] (Mask.ofText body).text = x.lowered.reverse := by
    rw [hbody, ← List.append_nil x.source]
    exact hwhole
  rw [lower, hlower, List.reverse_reverse]

private def callingLoop : Mixture :=
  .braced .loop [' '] (.code ['c']) [] (.seq (.code ['y']) (.group (.code [])))

private def branching (second : Mixture) : Mixture :=
  .native .conditional (.code " x ".toList) <| .seq (.code [' ']) <| .seq callingLoop <|
    .seq (.code [' ']) <| .seq .otherwise second

private def tableBranch : Mixture :=
  .seq (.code " t = ".toList) <| .seq (.table <| .native .function (.group (.code [])) <|
    .seq (.code [' ']) <| .seq
      (.braced .iteration [' '] (.code "i = 1, 3".toList) [] <|
        .seq (.code ['z']) (.group (.code ['i'])))
      (.code [' '])) (.code [' '])

private def loopsText : Text :=
  "if x then while (c)\x7by()\x7d else t = \x7bfunction() for (i = 1, 3)\x7bz(i)\x7d end\x7d end".toList

theorem lower_mixture_loops :
    ((Mask.ofText loopsText).text = (branching tableBranch).source ∧
      (branching tableBranch).Fits (fun t => ¬ Lower.BeginsBranch t) .whole) ∧
    lower loopsText =
      "if x then while (c) do y() end  else t = \x7bfunction() for i = 1, 3 do z(i) end  end\x7d end".toList := by
  have hbody : (Mask.ofText loopsText).text = (branching tableBranch).source := by decide +kernel
  have hfits : (branching tableBranch).Fits (fun t => ¬ Lower.BeginsBranch t) .whole := by
    decide +kernel
  exact ⟨⟨hbody, hfits⟩, (lower_mixture hbody hfits).trans (by decide +kernel)⟩

private def conditionalBranch : Mixture :=
  .seq (.code [' ']) <| .seq
    (.native .conditional (.code " z ".toList) <|
      .seq (.code " w".toList) <| .seq (.group (.code [])) (.code [' ']))
    (.code [' '])

private def unendedText : Text :=
  "if x then while (c)\x7by()\x7d else if z then w() end end".toList

/-- Where a native `else` begins with a conditional, the loop before it gets no `end`. -/
theorem lower_mixture_unended :
    ((Mask.ofText unendedText).text = (branching conditionalBranch).source ∧
      (branching conditionalBranch).Fits (fun _ => True) .whole) ∧
    lower unendedText = "if x then while (c) do y() elseif z then w() end end".toList ∧
    (Mask.ofText unendedText).restore (trimEnd (branching conditionalBranch).lowered) =
      "if x then while (c) do y() end  else if z then w() end end".toList := by
  decide +kernel

end Stencil
