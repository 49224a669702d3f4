import Stencil.Proofs.Lua.Phrases
import Stencil.Proofs.Mask.Renumber
/-!
# Texts that spell tokens

Where a masked text spells tokens, a word that begins in it begins a token, a semicolon is a token
and the parentheses are those of the tokens. So what is read off the text at such a place can be said
of the tokens.
-/
namespace Stencil.Lua

open Token

/-- The token of a name: a reserved word or a name of its own. -/
def Token.ofName (t : Text) : Token :=
  match Word.ofName? (String.ofList t) with
  | some w => .word w
  | none => .name (String.ofList t)

def isNumeralChar (c : Char) : Bool :=
  (hexValue? c).isSome || ['.', '+', '-', 'x', 'X', 'p', 'P'].contains c

/-- A letter or underscore, with letters, digits and underscores after it. -/
structure IsName (t : Text) : Prop where
  begins : ∃ c, t.head? = some c ∧ startsName c = true
  continues : ∀ c ∈ t, continuesName c = true

/-- How a token is written. A placeholder stands for a string. -/
inductive Written : Token → Text → Prop
  | named {t : Text} : IsName t → Written (.ofName t) t
  | number {n : Num} {t : Text} : t ≠ [] → (∀ c ∈ t, isNumeralChar c = true) → Written (.number n) t
  | string {s : Bytes} {index : Nat} : Written (.string s) (Mask.placeholder index)
  | mark {m : Mark} {t : Text} : readMark t = some (m, []) → Written (.mark m) t

/-- No name goes on from one text into the next. -/
def Parted (w t : Text) : Prop :=
  ∀ c d, w.getLast? = some c → t.head? = some d → continuesName c = true → continuesName d = false

/-- The text spells the tokens, with white space around them. -/
inductive Spells : List Token → Text → Prop
  | nil : Spells [] []
  | blank {c : Char} {ts : List Token} {t : Text} :
      Num.isSpace c = true → Spells ts t → Spells ts (c :: t)
  | token {tok : Token} {w : Text} {ts : List Token} {t : Text} :
      Written tok w → Parted w t → Spells ts t → Spells (tok :: ts) (w ++ t)

/-! ## The characters of tokens -/

/-- A character that no white space has and that is part of a word only where it is part of a name. -/
structure Inked (c : Char) : Prop where
  visible : isBlank c = false
  word : isWordChar c = continuesName c
  name : isNameChar c = continuesName c

theorem isBlank_of_isSpace {c : Char} (h : Num.isSpace c = true) : isBlank c = true := by
  unfold Num.isSpace at h
  unfold isBlank
  rw [h]
  rfl

private theorem isAlpha_iff {c : Char} : c.isAlpha = true ↔
    65 ≤ c.toNat ∧ c.toNat ≤ 90 ∨ 97 ≤ c.toNat ∧ c.toNat ≤ 122 := by
  have hranges : c.isAlpha = (decide ('A'.val ≤ c.val ∧ c.val ≤ 'Z'.val) ||
      decide ('a'.val ≤ c.val) && decide (c.val ≤ 'z'.val)) := rfl
  simp only [hranges, Bool.or_eq_true, Bool.and_eq_true, decide_eq_true_eq, UInt32.le_iff_toNat_le]
  rfl

private theorem isDigit_iff {c : Char} : c.isDigit = true ↔ 48 ≤ c.toNat ∧ c.toNat ≤ 57 := by
  have hrange : c.isDigit = (decide ('0'.val ≤ c.val) && decide (c.val ≤ '9'.val)) := rfl
  simp only [hrange, Bool.and_eq_true, decide_eq_true_eq, UInt32.le_iff_toNat_le]
  rfl

private theorem inked_of_range {c : Char} (hlow : 0x20 < c.toNat) (hhigh : c.toNat < 0x80) :
    Inked c := by
  have hall : ∀ n < 0x80, 0x20 < n → isBlank (Char.ofNat n) = false ∧
      isWordChar (Char.ofNat n) = continuesName (Char.ofNat n) ∧
        isNameChar (Char.ofNat n) = continuesName (Char.ofNat n) := by decide
  have h := hall c.toNat hhigh hlow
  rw [Char.ofNat_toNat] at h
  exact ⟨h.1, h.2.1, h.2.2⟩

theorem inked_of_continuesName {c : Char} (h : continuesName c = true) : Inked c := by
  have hrange : 0x20 < c.toNat ∧ c.toNat < 0x80 := by
    rw [continuesName, Bool.or_eq_true, Char.isAlphanum, Bool.or_eq_true, isAlpha_iff, isDigit_iff,
      beq_iff_eq] at h
    rcases h with h | rfl
    · omega
    · decide
  exact inked_of_range hrange.1 hrange.2

theorem continuesName_of_hex {c : Char} (h : (hexValue? c).isSome = true) :
    continuesName c = true := by
  have of_alpha (hc : c.isAlpha = true) : continuesName c = true := by
    simp [continuesName, Char.isAlphanum, hc]
  unfold hexValue? at h
  split at h
  · simp [continuesName, Char.isAlphanum, *]
  · split at h
    · rename_i hc
      simp [Char.le_def, UInt32.le_iff_toNat_le] at hc
      exact of_alpha (isAlpha_iff.mpr (by omega))
    · split at h
      · rename_i hc
        simp [Char.le_def, UInt32.le_iff_toNat_le] at hc
        exact of_alpha (isAlpha_iff.mpr (by omega))
      · simp at h

theorem startsName_of_isDigit {c : Char} (h : c.isDigit = true) : startsName c = false := by
  rw [Bool.eq_false_iff]
  intro hstart
  rw [startsName, Bool.or_eq_true, isAlpha_iff, beq_iff_eq] at hstart
  rw [isDigit_iff] at h
  rcases hstart with hstart | rfl
  · omega
  · simp at h

private theorem inked_of_isNumeralChar {c : Char} (h : isNumeralChar c = true) : Inked c := by
  rw [isNumeralChar, Bool.or_eq_true, List.contains_iff_mem] at h
  rcases h with h | h
  · exact inked_of_continuesName (continuesName_of_hex h)
  · have hall : ∀ d ∈ ['.', '+', '-', 'x', 'X', 'p', 'P'], 0x20 < d.toNat ∧ d.toNat < 0x80 := by
      decide
    exact inked_of_range (hall c h).1 (hall c h).2

private theorem inked_of_isMarkChar {c : Char} (h : Symbol.isMarkChar c = true) : Inked c := by
  simp only [Symbol.isMarkChar, Bool.or_eq_true, beq_iff_eq] at h
  rcases h with (rfl | rfl) | h
  · exact ⟨by decide, by decide +kernel, by decide +kernel⟩
  · exact ⟨by decide, by decide +kernel, by decide +kernel⟩
  · exact inked_of_continuesName (by simp [continuesName, Char.isAlphanum, h])

def Mark.table : List (Mark × Text) :=
  [(.dots, "...".toList), (.concat, "..".toList), (.equal, "==".toList), (.notEqual, "~=".toList),
    (.lessEqual, "<=".toList), (.greaterEqual, ">=".toList), (.shiftLeft, "<<".toList),
    (.shiftRight, ">>".toList), (.doubleSlash, "//".toList), (.label, "::".toList), (.plus, ['+']),
    (.minus, ['-']), (.star, ['*']), (.slash, ['/']), (.percent, ['%']), (.caret, ['^']), (.hash, ['#']),
    (.ampersand, ['&']), (.tilde, ['~']), (.bar, ['|']), (.less, ['<']), (.greater, ['>']),
    (.assign, ['=']), (.openParen, ['(']), (.closeParen, [')']), (.openBrace, ['\x7b']),
    (.closeBrace, ['\x7d']), (.openBracket, ['[']), (.closeBracket, [']']), (.semicolon, [';']),
    (.colon, [':']), (.comma, [',']), (.dot, ['.'])]

theorem mem_table_of_readMark {w : Text} {m : Mark} (h : readMark w = some (m, [])) :
    (m, w) ∈ Mark.table := by
  unfold readMark at h
  split at h
  all_goals first
    | (simp only [Option.some.injEq, Prod.mk.injEq] at h
       obtain ⟨rfl, rfl⟩ := h
       decide)
    | simp at h

section Written

variable {tok : Token} {ts : List Token} {w t u v : Text} {c : Char}

theorem Written.inked (h : Written tok w) : ∀ c ∈ w, Inked c := by
  intro c hc
  cases h with
  | named hname => exact inked_of_continuesName (hname.continues c hc)
  | number _ hall => exact inked_of_isNumeralChar (hall c hc)
  | string => exact inked_of_isMarkChar (Symbol.isMarkChar_placeholder hc)
  | mark hm =>
      have hall : ∀ e ∈ Mark.table, ∀ d ∈ e.2, 0x20 < d.toNat ∧ d.toNat < 0x80 := by decide
      have h := hall _ (mem_table_of_readMark hm) c hc
      exact inked_of_range h.1 h.2

theorem Written.ne_nil (h : Written tok w) : w ≠ [] := by
  rintro rfl
  generalize hw : ([] : Text) = w at h
  cases h with
  | named hname =>
      obtain ⟨c, hc, -⟩ := hname.begins
      simp [← hw] at hc
  | number hne _ => exact hne hw.symm
  | string => simp [Mask.placeholder] at hw
  | mark hm => simp [← hw, readMark] at hm

theorem Spells.isNameChar (h : Spells ts t) : ∀ c ∈ t, isNameChar c = continuesName c := by
  induction h with
  | nil => simp
  | blank hc _ ih =>
      refine List.forall_mem_cons.mpr ⟨?_, ih⟩
      rw [isNameChar_of_blank (isBlank_of_isSpace hc), eq_comm, Bool.eq_false_iff]
      intro hname
      have hvisible := (inked_of_continuesName hname).visible
      rw [isBlank_of_isSpace hc] at hvisible
      simp at hvisible
  | token hw _ _ ih => exact List.forall_mem_append.mpr ⟨fun c hc => (hw.inked c hc).name, ih⟩

/-! ## White space -/

private theorem Spells.tail (h : Spells ts (c :: t)) (hc : isBlank c = true) : Spells ts t := by
  generalize htext : c :: t = text at h
  cases h with
  | nil => simp at htext
  | blank _ hrest =>
      obtain ⟨-, rfl⟩ := List.cons.inj htext
      exact hrest
  | token hw _ _ =>
      obtain ⟨d, w, rfl⟩ := List.exists_cons_of_ne_nil hw.ne_nil
      obtain ⟨rfl, -⟩ := List.cons.inj htext
      have hvisible := (hw.inked c (by simp)).visible
      rw [hc] at hvisible
      simp at hvisible

/-- White space before tokens spells nothing. -/
theorem Spells.trim (h : Spells ts (u ++ t)) (hu : Text.Blank u) : Spells ts t := by
  induction u with
  | nil => exact h
  | cons c u ih =>
      rw [Text.blank_cons] at hu
      exact ih (h.tail hu.1) hu.2

theorem Spells.eq_nil (h : Spells ts t) (ht : Text.Blank t) : ts = [] := by
  have hnone : Spells ts [] := Spells.trim (t := []) (by rwa [List.append_nil]) ht
  generalize htext : ([] : Text) = text at hnone
  cases hnone with
  | nil => rfl
  | blank _ _ => simp at htext
  | token hw _ _ => exact absurd (List.append_eq_nil_iff.mp htext.symm).1 hw.ne_nil

/-- A visible character begins a token. -/
theorem Spells.head (h : Spells ts (c :: t)) (hc : isBlank c = false) : ∃ tok ts' w rest,
    ts = tok :: ts' ∧ t = w ++ rest ∧ Written tok (c :: w) ∧ Parted (c :: w) rest ∧
      Spells ts' rest := by
  generalize htext : c :: t = text at h
  cases h with
  | nil => simp at htext
  | blank hspace _ =>
      obtain ⟨rfl, -⟩ := List.cons.inj htext
      rw [isBlank_of_isSpace hspace] at hc
      simp at hc
  | token hw hparted hrest =>
      obtain ⟨d, w, rfl⟩ := List.exists_cons_of_ne_nil hw.ne_nil
      obtain ⟨rfl, rfl⟩ := List.cons.inj htext
      exact ⟨_, _, w, _, rfl, rfl, hw, hparted, hrest⟩

/-! ## Cutting a text -/

theorem Parted.of_append (h : Parted w (t ++ u)) : Parted w t := by
  intro c d hc hd
  exact h c d hc (by rw [List.head?_append, hd]; rfl)

/-- Some of the tokens are spelled by some of the text. -/
theorem Spells.split {ts' : List Token} (h : Spells (ts ++ ts') t) :
    ∃ u v, t = u ++ v ∧ Spells ts u ∧ Spells ts' v := by
  generalize hall : ts ++ ts' = all at h
  induction h generalizing ts with
  | nil =>
      obtain ⟨rfl, rfl⟩ := List.append_eq_nil_iff.mp hall
      exact ⟨[], [], rfl, .nil, .nil⟩
  | blank hc _ ih =>
      obtain ⟨u, v, rfl, hu, hv⟩ := ih hall
      exact ⟨_ :: u, v, rfl, .blank hc hu, hv⟩
  | @token tok w all t hw hparted hrest ih =>
      cases ts with
      | nil =>
          subst hall
          exact ⟨[], w ++ t, rfl, .nil, .token hw hparted hrest⟩
      | cons tok' ts =>
          obtain ⟨rfl, htail⟩ := List.cons.inj hall
          obtain ⟨u, v, rfl, hu, hv⟩ := ih htail
          exact ⟨w ++ u, v, by simp, .token hw hparted.of_append hu, hv⟩

/-- The first token, the white space before it left out. -/
theorem Spells.first (h : Spells (tok :: ts) t) : ∃ b w v,
    t = b ++ (w ++ v) ∧ Text.Blank b ∧ Written tok w ∧ Parted w v ∧ Spells ts v := by
  generalize hall : tok :: ts = all at h
  induction h with
  | nil => simp at hall
  | blank hc _ ih =>
      obtain ⟨b, w, v, rfl, hb, hrest⟩ := ih hall
      exact ⟨_ :: b, w, v, rfl, Text.blank_cons.mpr ⟨isBlank_of_isSpace hc, hb⟩, hrest⟩
  | token hw hparted hrest _ =>
      obtain ⟨rfl, rfl⟩ := List.cons.inj hall
      exact ⟨[], _, _, rfl, Text.blank_nil, hw, hparted, hrest⟩

/-- A place in a text lies between tokens or in one. -/
theorem Spells.cut (h : Spells ts (u ++ v)) :
    (∃ ts₁ ts₂, ts = ts₁ ++ ts₂ ∧ Spells ts₁ u ∧ Spells ts₂ v) ∨
      ∃ ts₁ tok ts₂ w w' rest, ts = ts₁ ++ tok :: ts₂ ∧ w ≠ [] ∧ w' ≠ [] ∧ w <:+ u ∧
        v = w' ++ rest ∧ Written tok (w ++ w') ∧ Parted (w ++ w') rest := by
  generalize htext : u ++ v = t at h
  induction h generalizing u with
  | nil =>
      obtain ⟨rfl, rfl⟩ := List.append_eq_nil_iff.mp htext
      exact Or.inl ⟨[], [], rfl, .nil, .nil⟩
  | @blank c ts t hc hrest ih =>
      cases u with
      | nil =>
          obtain rfl : v = c :: t := htext
          exact Or.inl ⟨[], ts, rfl, .nil, .blank hc hrest⟩
      | cons d u =>
          obtain ⟨rfl, htail⟩ := List.cons.inj htext
          rcases ih htail with ⟨ts₁, ts₂, rfl, h₁, h₂⟩ | ⟨ts₁, tok, ts₂, w, w', rest, hts, hw, hw',
            hsuffix, hin⟩
          · exact Or.inl ⟨ts₁, ts₂, rfl, .blank hc h₁, h₂⟩
          · exact Or.inr ⟨ts₁, tok, ts₂, w, w', rest, hts, hw, hw',
              hsuffix.trans (List.suffix_cons d u), hin⟩
  | @token tok w ts t hw hparted hrest ih =>
      -- the place is after the token
      have later (u' : Text) (hu : u = w ++ u') (ht : u' ++ v = t) :
          (∃ ts₁ ts₂, tok :: ts = ts₁ ++ ts₂ ∧ Spells ts₁ u ∧ Spells ts₂ v) ∨
            ∃ ts₁ tok' ts₂ w w' rest, tok :: ts = ts₁ ++ tok' :: ts₂ ∧ w ≠ [] ∧ w' ≠ [] ∧ w <:+ u ∧
              v = w' ++ rest ∧ Written tok' (w ++ w') ∧ Parted (w ++ w') rest := by
        rcases ih ht with ⟨ts₁, ts₂, rfl, h₁, h₂⟩ | ⟨ts₁, tok', ts₂, w₁, w', rest, rfl, hw₁, hw',
          hsuffix, hin⟩
        · refine Or.inl ⟨tok :: ts₁, ts₂, rfl, ?_, h₂⟩
          subst hu ht
          exact .token hw hparted.of_append h₁
        · refine Or.inr ⟨tok :: ts₁, tok', ts₂, w₁, w', rest, rfl, hw₁, hw', ?_, hin⟩
          subst hu
          exact hsuffix.trans (List.suffix_append w u')
      rcases List.append_eq_append_iff.mp htext with ⟨w', hsplit, hv⟩ | ⟨u', hu, ht⟩
      · by_cases hu : u = []
        · subst hu
          obtain rfl : w = w' := hsplit
          exact Or.inl ⟨[], tok :: ts, rfl, .nil, hv ▸ .token hw hparted hrest⟩
        · by_cases hw' : w' = []
          · subst hw'
            exact later [] (by simpa using hsplit.symm) (by simpa using hv)
          · exact Or.inr ⟨[], tok, ts, u, w', t, rfl, hu, hw', List.suffix_refl u, hv,
            hsplit ▸ hw, hsplit ▸ hparted⟩
      · exact later u' hu ht.symm

/-! ## Marks -/

/-- A token written with a parenthesis, a brace, a colon or a semicolon is a mark. -/
private theorem Written.mem_table (h : Written tok w) (hc : c ∈ w) (hmark : c ∈ "()\x7b\x7d:;".toList) :
    ∃ m, tok = .mark m ∧ (m, w) ∈ Mark.table := by
  have hall : ∀ d ∈ "()\x7b\x7d:;".toList, continuesName d = false ∧ isNumeralChar d = false ∧
      Symbol.isMarkChar d = false := by decide
  obtain ⟨hname, hnumeral, hplace⟩ := hall c hmark
  cases h with
  | named h => simp [h.continues c hc] at hname
  | number _ h => simp [h c hc] at hnumeral
  | string => simp [Symbol.isMarkChar_placeholder hc] at hplace
  | mark hm => exact ⟨_, rfl, mem_table_of_readMark hm⟩

/-- The marks that are written with a character of their own. -/
def loneMarks : List (Char × Mark) :=
  [('(', .openParen), (')', .closeParen), ('{', .openBrace), ('}', .closeBrace), (';', .semicolon)]

theorem Written.of_loneMark {m : Mark} (hm : (c, m) ∈ loneMarks) (h : Written tok w) (hc : c ∈ w) :
    tok = .mark m ∧ w = [c] := by
  have hlone : ∀ l ∈ loneMarks, l.1 ∈ "()\x7b\x7d:;".toList ∧
      ∀ e ∈ Mark.table, l.1 ∈ e.2 → e = (l.2, [l.1]) := by decide
  obtain ⟨hmark, hall⟩ := hlone _ hm
  obtain ⟨m', rfl, htable⟩ := h.mem_table hc hmark
  simpa using hall _ htable hc

theorem Written.of_colon (h : Written tok (':' :: w)) :
    tok = .mark .colon ∨ tok = .mark .label := by
  obtain ⟨m, rfl, hm⟩ := h.mem_table List.mem_cons_self (by decide)
  have hall : ∀ e ∈ Mark.table, ':' ∈ e.2 → e.1 = .colon ∨ e.1 = .label := by decide
  exact (hall _ hm List.mem_cons_self).imp (congrArg _) (congrArg _)

theorem Written.of_semicolon (h : Written tok w) (hc : ';' ∈ w) :
    tok = .mark .semicolon ∧ w = [';'] := h.of_loneMark (by decide) hc

theorem written_mark {m : Mark} (h : Written (.mark m) w) : (m, w) ∈ Mark.table := by
  generalize htok : Token.mark m = tok at h
  cases h with
  | named _ =>
      unfold Token.ofName at htok
      split at htok <;> simp at htok
  | number _ _ => simp at htok
  | string => simp at htok
  | mark hm =>
      obtain rfl := Token.mark.inj htok
      exact mem_table_of_readMark hm

theorem written_closeParen (h : Written (.mark .closeParen) w) : w = [')'] := by
  have hall : ∀ e ∈ Mark.table, e.1 = .closeParen → e.2 = [')'] := by decide
  exact hall _ (written_mark h) rfl

theorem written_openBrace (h : Written (.mark .openBrace) w) : w = ['\x7b'] := by
  have hall : ∀ e ∈ Mark.table, e.1 = .openBrace → e.2 = ['\x7b'] := by decide
  exact hall _ (written_mark h) rfl

theorem Spells.loneMark {m : Mark} (hm : (c, m) ∈ loneMarks) (h : Spells ts (c :: t)) :
    ∃ ts', ts = .mark m :: ts' ∧ Spells ts' t := by
  have hvisible := (show ∀ l ∈ loneMarks, isBlank l.1 = false by decide) _ hm
  obtain ⟨tok, ts', w, rest, rfl, rfl, hw, -, hrest⟩ := h.head hvisible
  obtain ⟨rfl, hsingle⟩ := hw.of_loneMark hm List.mem_cons_self
  obtain ⟨-, rfl⟩ := List.cons.inj hsingle
  exact ⟨ts', rfl, hrest⟩

theorem Spells.openParen (h : Spells ts ('(' :: t)) :
    ∃ ts', ts = .mark .openParen :: ts' ∧ Spells ts' t := h.loneMark (by decide)

theorem Spells.semicolon (h : Spells ts (';' :: t)) :
    ∃ ts', ts = .mark .semicolon :: ts' ∧ Spells ts' t := h.loneMark (by decide)

/-- A text that begins with a colon spells one, or the mark of a label. -/
theorem Spells.colon (h : Spells ts (':' :: t)) :
    ∃ tok ts', ts = tok :: ts' ∧ (tok = .mark .colon ∨ tok = .mark .label) := by
  obtain ⟨tok, ts', w, rest, rfl, rfl, hw, -, -⟩ := h.head (by decide)
  exact ⟨tok, ts', rfl, hw.of_colon⟩

/-- A mark with a character of its own is a token wherever the character stands. -/
theorem Spells.cut_loneMark {m : Mark} (hm : (c, m) ∈ loneMarks) (h : Spells ts (u ++ c :: v)) :
    ∃ ts₁ ts₂, ts = ts₁ ++ .mark m :: ts₂ ∧ Spells ts₁ u ∧ Spells ts₂ v := by
  rcases h.cut with ⟨ts₁, ts₂, rfl, h₁, h₂⟩ | ⟨ts₁, tok, ts₂, w, w', rest, -, hw, hw', -, hv,
    hwritten, -⟩
  · obtain ⟨ts₃, rfl, h₃⟩ := h₂.loneMark hm
    exact ⟨ts₁, ts₃, rfl, h₁, h₃⟩
  · obtain ⟨d, w', rfl⟩ := List.exists_cons_of_ne_nil hw'
    obtain ⟨rfl, -⟩ := List.cons.inj hv
    obtain ⟨-, hsingle⟩ := hwritten.of_loneMark hm (by simp)
    have hlength := congrArg List.length hsingle
    have := List.length_pos_iff.mpr hw
    simp only [List.length_append, List.length_cons, List.length_nil] at hlength
    omega

theorem Spells.cut_semicolon (h : Spells ts (u ++ ';' :: v)) : ∃ ts₁ ts₂,
    ts = ts₁ ++ .mark .semicolon :: ts₂ ∧ Spells ts₁ u ∧ Spells ts₂ v := h.cut_loneMark (by decide)

private theorem Written.nest? (h : Written tok w) (depth : Nat) :
    Text.nest? '(' ')' depth w = Text.nest? '(' ')' depth (parens [tok]) := by
  have bare (hopen : '(' ∉ w) (hclose : ')' ∉ w) (hnone : parens [tok] = []) :
      Text.nest? '(' ')' depth w = Text.nest? '(' ')' depth (parens [tok]) := by
    rw [hnone, Text.nest?_of_not_mem hopen hclose]
    rfl
  cases h with
  | named h =>
      refine bare (fun hc => absurd (h.continues _ hc) (by decide))
        (fun hc => absurd (h.continues _ hc) (by decide)) ?_
      unfold Token.ofName
      split <;> rfl
  | number _ h =>
      exact bare (fun hc => absurd (h _ hc) (by decide)) (fun hc => absurd (h _ hc) (by decide)) rfl
  | string =>
      exact bare (fun hc => absurd (Symbol.isMarkChar_placeholder hc) (by decide))
        (fun hc => absurd (Symbol.isMarkChar_placeholder hc) (by decide)) rfl
  | @mark m _ hm =>
      have hall : ∀ e ∈ Mark.table, parens [.mark e.1] = e.2 ∨
          '(' ∉ e.2 ∧ ')' ∉ e.2 ∧ parens [.mark e.1] = [] := by decide
      rcases hall _ (mem_table_of_readMark hm) with hsame | ⟨hopen, hclose, hnone⟩
      · rw [hsame]
      · exact bare hopen hclose hnone

/-- The parentheses of a text are those of the tokens. -/
theorem Spells.nest? (h : Spells ts t) (depth : Nat) :
    Text.nest? '(' ')' depth t = Text.nest? '(' ')' depth (parens ts) := by
  induction h generalizing depth with
  | nil => rfl
  | @blank c ts t hc _ ih =>
      have hout : ∀ d ∈ ['(', ')'], Num.isSpace d = false := by decide
      have hne {d : Char} (hd : d ∈ ['(', ')']) : c ≠ d := by
        rintro rfl
        simp [hout _ hd] at hc
      rw [Text.nest?_cons_of_ne (hne (by simp)) (hne (by simp)), ih]
  | @token tok w ts t hw _ _ ih =>
      have hparens : parens (tok :: ts) = parens [tok] ++ parens ts := parens_append [tok] ts
      rw [hparens, Text.nest?_append, Text.nest?_append, hw.nest?]
      simp only [ih]

/-! ## Words -/

/-- A reserved word is written in one way. -/
theorem written_word {w : Word} (h : Written (.word w) t) : (String.ofList t, w) ∈ Word.table := by
  generalize htok : Token.word w = tok at h
  cases h with
  | named _ =>
      unfold Token.ofName at htok
      split at htok
      · rename_i w' hw'
        obtain rfl := Token.word.inj htok
        obtain ⟨e, he, rfl⟩ := Option.map_eq_some_iff.mp hw'
        have hname : e.1 = String.ofList t := by simpa using List.find?_some he
        rw [← hname]
        exact List.mem_of_find?_eq_some he
      · simp at htok
  | number _ _ => simp at htok
  | string => simp at htok
  | mark _ => simp at htok

/-- A name that is not written with the characters of numerals only. -/
structure Keyword (k : Text) : Prop where
  name : IsName k
  wordy : ∃ c ∈ k, isNumeralChar c = false

instance (t : Text) : Decidable (IsName t) :=
  decidable_of_iff (t.head?.any startsName = true ∧ ∀ c ∈ t, continuesName c = true)
    ⟨fun h => ⟨by simpa [Option.any_eq_true] using h.1, h.2⟩,
      fun h => ⟨by simpa [Option.any_eq_true] using h.1, h.2⟩⟩

instance (t : Text) : Decidable (Keyword t) :=
  decidable_of_iff (IsName t ∧ ∃ c ∈ t, isNumeralChar c = false) ⟨fun h => ⟨h.1, h.2⟩,
    fun h => ⟨h.1, h.2⟩⟩

/-- A name that a text begins with is read as a whole. -/
private theorem exists_more {k w : Text} (hk : ∀ c ∈ k, continuesName c = true) (hne : w ≠ [])
    (hparted : Parted w t) (h : w ++ t = k ++ v) : ∃ more, w = k ++ more ∧ v = more ++ t := by
  rcases List.append_eq_append_iff.mp h with ⟨k', rfl, rfl⟩ | ⟨more, rfl, rfl⟩
  · cases k' with
    | nil => exact ⟨[], by simp, rfl⟩
    | cons d k' =>
        obtain ⟨c, hc⟩ := Option.isSome_iff_exists.mp (List.getLast?_isSome.mpr hne)
        have hname := hparted c d hc rfl (hk c (List.mem_append_left _ (List.mem_of_getLast? hc)))
        simp [hk d (by simp)] at hname
  · exact ⟨more, rfl, rfl⟩

/-- Only names are written with the characters of a keyword. -/
private theorem Written.of_keyword {k : Text} (hk : Keyword k) (h : Written tok w)
    (hin : ∀ c ∈ k, c ∈ w) : tok = .ofName w ∧ IsName w := by
  obtain ⟨c, hhead, hstart⟩ := hk.name.begins
  have hc := hin c (List.mem_of_mem_head? hhead)
  cases h with
  | named hname => exact ⟨rfl, hname⟩
  | number _ hall =>
      obtain ⟨d, hd, hwordy⟩ := hk.wordy
      simp [hall d (hin d hd)] at hwordy
  | string =>
      have hplace := Symbol.isMarkChar_placeholder hc
      simp only [Symbol.isMarkChar, Bool.or_eq_true, beq_iff_eq] at hplace
      rcases hplace with (rfl | rfl) | hdigit
      · exact absurd hstart (by decide)
      · exact absurd hstart (by decide)
      · simp [startsName_of_isDigit hdigit] at hstart
  | mark hm =>
      have hall : ∀ e ∈ Mark.table, ∀ c ∈ e.2, startsName c = false := by decide
      simp [hall _ (mem_table_of_readMark hm) c hc] at hstart

/-- A keyword that begins where a word may begin is the beginning of a name. -/
theorem Spells.cut_keyword {k : Text} (hk : Keyword k) (hbegin : wordMayBegin u.getLast? = true)
    (h : Spells ts (u ++ (k ++ v))) : ∃ ts₁ ts₂ more rest, ts = ts₁ ++ .ofName (k ++ more) :: ts₂ ∧
      v = more ++ rest ∧ IsName (k ++ more) ∧ Parted (k ++ more) rest ∧ Spells ts₁ u ∧
        Spells ts₂ rest := by
  rcases h.cut with ⟨ts₁, ts₂, rfl, h₁, h₂⟩ | ⟨ts₁, tok, ts₂, w, w', rest, rfl, hw, hw', hsuffix, hv,
    hwritten, hparted⟩
  · obtain ⟨c, k', rfl⟩ : ∃ c k', k = c :: k' := by
      obtain ⟨c, hc, -⟩ := hk.name.begins
      exact ⟨c, k.tail, (List.head?_eq_some_iff.mp hc).choose_spec ▸ rfl⟩
    obtain ⟨tok, ts₃, w, rest, rfl, hv, hwritten, hparted, h₃⟩ :=
      h₂.head (inked_of_continuesName (hk.name.continues c (by simp))).visible
    have hsame : (c :: w) ++ rest = (c :: k') ++ v := congrArg (c :: ·) hv.symm
    obtain ⟨more, hw, rfl⟩ := exists_more hk.name.continues hwritten.ne_nil hparted hsame
    rw [hw] at hwritten hparted
    obtain ⟨rfl, hname⟩ := hwritten.of_keyword hk fun c hc => List.mem_append_left more hc
    exact ⟨ts₁, ts₃, more, rest, rfl, rfl, hname, hparted, h₁, h₃⟩
  · -- the name would have begun before
    exfalso
    have hparted' : Parted w' rest := by
      intro c d hc hd
      exact hparted c d (by rw [List.getLast?_append, hc]; rfl) hd
    obtain ⟨more, rfl, rfl⟩ := exists_more hk.name.continues hw' hparted' hv.symm
    obtain ⟨rfl, hname⟩ := hwritten.of_keyword hk fun c hc => by simp [hc]
    obtain ⟨c, hc⟩ := Option.isSome_iff_exists.mp (List.getLast?_isSome.mpr hw)
    obtain ⟨u', rfl⟩ := hsuffix
    have hmem : c ∈ w ++ (k ++ more) := List.mem_append_left _ (List.mem_of_getLast? hc)
    rw [List.getLast?_append, hc, wordMayBegin] at hbegin
    simp [(hwritten.inked c hmem).word, hname.continues c hmem] at hbegin

/-- No name goes on into the text. -/
def Stops (t : Text) : Prop := ∀ c, t.head? = some c → continuesName c = false

theorem stops_of_blank (hc : isBlank c = true) (t : Text) : Stops (c :: t) := by
  rintro d ⟨⟩
  rw [Bool.eq_false_iff]
  intro hname
  simp [(inked_of_continuesName hname).visible] at hc

theorem stops_of_ended (h : wordHasEnded t = true) : Stops t := by
  intro c hc
  rw [Bool.eq_false_iff]
  intro hname
  rw [wordHasEnded, hc, Option.any_some, (inked_of_continuesName hname).word, hname] at h
  simp at h

theorem stops_blank_append (hu : Text.Blank u) (ht : Stops t) : Stops (u ++ t) := by
  cases u with
  | nil => exact ht
  | cons d u => exact stops_of_blank (Text.blank_cons.mp hu).1 (u ++ t)

/-- A keyword that stands alone is a name. -/
theorem Spells.cut_word {k : Text} (hk : Keyword k) (hbegin : wordMayBegin u.getLast? = true)
    (hstops : Stops v) (h : Spells ts (u ++ (k ++ v))) :
    ∃ ts₁ ts₂, ts = ts₁ ++ .ofName k :: ts₂ ∧ Spells ts₁ u ∧ Spells ts₂ v := by
  obtain ⟨ts₁, ts₂, more, rest, rfl, rfl, hname, -, h₁, h₂⟩ := h.cut_keyword hk hbegin
  cases more with
  | nil => exact ⟨ts₁, ts₂, by rw [List.append_nil], h₁, h₂⟩
  | cons c more =>
      have hc := hname.continues c (by simp)
      simp [hstops c rfl] at hc

end Written

end Stencil.Lua
