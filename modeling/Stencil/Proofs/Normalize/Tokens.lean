import Stencil.Proofs.Lower.Semicolons
import Stencil.Proofs.Lua.Heads
import Stencil.Proofs.Normalize.Literals
/-!
# Tokens and normalization

The collapsing passes take out whole tokens: semicolons, and calls of an emitting function on an empty
string. The normal form of a body spells the tokens that are left, whatever stood before a call.
-/
namespace Stencil

open Lua Lua.Token Text

/-! ## Texts put together -/

namespace Lua

def Token.isString : Token → Bool
  | .string _ => true
  | _ => false

section Spells

variable {ts ts' : List Token} {tok : Token} {c : Char} {b t u v w digits : Text}

theorem Parted.append_right (hw : Parted w t) (hv : t = [] → Parted w v) : Parted w (t ++ v) := by
  cases t with
  | nil => exact hv rfl
  | cons d t => exact hw

theorem Spells.append (h : Spells ts u) (h' : Spells ts' v) (hparted : Parted u v) :
    Spells (ts ++ ts') (u ++ v) := by
  induction h with
  | nil => exact h'
  | @blank c ts t hc _ ih =>
      refine .blank hc (ih fun d e hd he => hparted d e ?_ he)
      rw [List.getLast?_cons, hd]
      rfl
  | @token tok w ts t hw hmore _ ih =>
      rw [List.append_assoc]
      refine .token hw (hmore.append_right ?_) (ih fun d e hd he => hparted d e ?_ he)
      · rintro rfl
        rwa [List.append_nil] at hparted
      · rw [List.getLast?_append, hd]
        rfl

/-- No name goes on where a word may begin. -/
theorem parted_of_mayBegin (h : wordMayBegin u.getLast? = true) (v : Text) : Parted u v := by
  intro c d hc _ hname
  rw [hc, wordMayBegin, Option.any_some, (inked_of_continuesName hname).word, hname] at h
  simp at h

/-- No name goes on at a mark with a character of its own. -/
private theorem Spells.cons_loneMark {k : Mark} (hk : (c, k) ∈ loneMarks) (h : Spells ts t) :
    Spells (.mark k :: ts) (c :: t) := by
  have hall : ∀ l ∈ loneMarks, readMark [l.1] = some (l.2, []) ∧ continuesName l.1 = false := by decide
  obtain ⟨hread, hname⟩ := hall _ hk
  refine Spells.token (w := [c]) (.mark hread) (fun d e hd _ hd' => ?_) h
  obtain rfl : c = d := Option.some.inj hd
  rw [hname] at hd'
  simp at hd'

private theorem parted_loneMark {k : Mark} (hk : (c, k) ∈ loneMarks) (u t : Text) :
    Parted u (c :: t) := by
  intro d e _ he _
  obtain rfl : c = e := Option.some.inj he
  exact (show ∀ l ∈ loneMarks, continuesName l.1 = false by decide) _ hk

/-- White space after tokens spells nothing. -/
theorem Spells.trimEnd (h : Spells ts (u ++ b)) (hb : Blank b) : Spells ts u := by
  rcases h.cut with ⟨ts₁, ts₂, rfl, h₁, h₂⟩ | ⟨_, tok, _, w, w', rest, -, -, hw', -, hv, hwritten, -⟩
  · obtain rfl := h₂.eq_nil hb
    rwa [List.append_nil]
  · obtain ⟨c, w', rfl⟩ := List.exists_cons_of_ne_nil hw'
    have hvisible := (hwritten.inked c (by simp)).visible
    rw [hb c (by rw [hv]; simp)] at hvisible
    simp at hvisible

theorem Spells.trimmed (h : Spells ts t) : Spells ts (Text.trim t) := by
  obtain ⟨b, hb, hstart⟩ := exists_blank_trimStart t
  obtain ⟨b', hb', hend⟩ := exists_trimEnd_blank (trimStart t)
  rw [hstart] at h
  have hrest := h.trim hb
  rw [hend] at hrest
  exact hrest.trimEnd hb'

/-! ## Strings -/

def strings (ts : List Token) : Nat := ts.countP isString

theorem strings_append (ts ts' : List Token) : strings (ts ++ ts') = strings ts + strings ts' :=
  List.countP_append

/-- Only a string is written with a placeholder. -/
private theorem Written.of_opening (h : Written tok w) (hc : Mask.opening ∈ w) :
    ∃ s i, tok = .string s ∧ w = Mask.placeholder i := by
  cases h with
  | named h => exact absurd (h.continues _ hc) (by decide)
  | number _ h => exact absurd (h _ hc) (by decide)
  | @string s i => exact ⟨s, i, rfl, rfl⟩
  | mark hm =>
      have hall : ∀ e ∈ Mark.table, Mask.opening ∉ e.2 := by decide
      exact absurd hc (hall _ (mem_table_of_readMark hm))

theorem count_placeholder (i : Nat) : (Mask.placeholder i).count Mask.opening = 1 := by
  have hdigits : Mask.opening ∉ Nat.toDigits 10 i := fun hmem =>
    absurd (Nat.isDigit_of_mem_toDigits (by decide) (by decide) hmem) (by decide)
  have hne : Mask.closing ≠ Mask.opening := by decide
  simp [Mask.placeholder, List.count_eq_zero.mpr hdigits, hne]

theorem Spells.count_opening (h : Spells ts t) : t.count Mask.opening = strings ts := by
  induction h with
  | nil => rfl
  | @blank c _ _ hc _ ih =>
      rw [List.count_cons_of_ne, ih]
      rintro rfl
      exact absurd hc (by decide)
  | @token tok w ts t hw _ _ ih =>
      have hcons : strings (tok :: ts) = strings [tok] + strings ts := strings_append [tok] ts
      rw [List.count_append, ih, hcons]
      congr 1
      by_cases hmem : Mask.opening ∈ w
      · obtain ⟨s, i, rfl, rfl⟩ := hw.of_opening hmem
        rw [count_placeholder]
        rfl
      · rw [List.count_eq_zero.mpr hmem, eq_comm, strings, List.countP_eq_zero]
        intro tok' htok'
        obtain rfl := List.mem_singleton.mp htok'
        cases hw with
        | string => simp [Mask.placeholder] at hmem
        | named _ =>
            unfold Token.ofName
            split <;> simp [isString]
        | _ => simp [isString]

/-- A placeholder is a string. -/
private theorem Spells.placeholder (h : Spells ts (Mask.opening :: (digits ++ Mask.closing :: t)))
    (hne : digits ≠ []) (hdigits : ∀ d ∈ digits, isDecimalDigit d = true) :
    ∃ s ts', ts = .string s :: ts' ∧ Spells ts' t := by
  obtain ⟨tok, ts', w, rest, rfl, hsplit, hw, -, hrest⟩ := h.head (by decide)
  obtain ⟨s, i, rfl, hplace⟩ := hw.of_opening List.mem_cons_self
  obtain ⟨-, rfl⟩ := List.cons.inj hplace
  have hread : Mask.placeholder? (Mask.opening :: (digits ++ Mask.closing :: t)) = some (digits, t) :=
    Symbol.placeholder?_eq_some.mpr ⟨rfl, hne, hdigits⟩
  have hread' : Mask.placeholder? (Mask.opening :: (digits ++ Mask.closing :: t)) =
      some (Nat.toDigits 10 i, rest) := by
    refine Symbol.placeholder?_eq_some.mpr ⟨by rw [hsplit]; simp, Nat.toDigits_ne_nil, fun d hd => ?_⟩
    exact Normalize.isDecimalDigit_of_mem_toDigits hd
  rw [hread, Option.some.injEq, Prod.mk.injEq] at hread'
  obtain ⟨-, rfl⟩ := hread'
  exact ⟨s, ts', rfl, hrest⟩

end Spells

end Lua

namespace Normalize

/-! ## Calls in a text of tokens -/

section Calls

variable {m : Mask} {ts ts' ts'' : List Token} {u v w t : Text} {n : Nat}

/-- The call of an emitting function where a word may begin is four tokens. -/
theorem EmptyCall.tokens (hw : EmptyCall m w) (h : Spells ts (u ++ (w ++ v)))
    (hbegin : wordMayBegin u.getLast? = true) : ∃ ts₁ id s ts₂,
      ts = ts₁ ++ .name id :: .mark .openParen :: .string s :: .mark .closeParen :: ts₂ ∧
        id ∈ ["print", "echo"] ∧ Spells ts₁ u ∧ Spells ts₂ v := by
  obtain ⟨hword, ha, hb, hc, hne, hliteral, -⟩ := hw
  rename_i word a b digits c literal
  have hkeyword : Keyword word.toList :=
    (show ∀ word ∈ ["print", "echo"], Keyword word.toList by decide) word hword
  have hname : Token.ofName word.toList = .name word := by
    simp only [List.mem_cons, List.not_mem_nil, or_false] at hword
    rcases hword with rfl | rfl <;> rfl
  have hsplit : u ++ (word.toList ++ (a ++ '(' :: (b ++ Mask.opening ::
      (digits ++ Mask.closing :: (c ++ [')'])))) ++ v) = u ++ (word.toList ++ (a ++ '(' ::
        (b ++ Mask.opening :: (digits ++ Mask.closing :: (c ++ ')' :: v))))) := by simp
  rw [hsplit] at h
  obtain ⟨ts₁, ts₂, rfl, h₁, h₂⟩ := h.cut_word hkeyword hbegin
    (stops_blank_append ha (by rintro d ⟨⟩; decide))
  obtain ⟨ts₃, rfl, h₃⟩ := (h₂.trim ha).openParen
  obtain ⟨s, ts₄, rfl, h₄⟩ := (h₃.trim hb).placeholder hne (isDecimalDigit_of_literal hliteral)
  obtain ⟨ts₅, rfl, h₅⟩ := Spells.loneMark (m := .closeParen) (by decide) (h₄.trim hc)
  exact ⟨ts₁, word, s, ts₅, by rw [hname], hword, h₁, h₅⟩

/-- The tokens that are left when some semicolons and some calls of an emitting function on an empty
string are taken out. The number tells how many strings come before. -/
inductive Pared (m : Mask) : Nat → List Token → List Token → Prop
  | nil {n : Nat} : Pared m n [] []
  | keep {n : Nat} {t : Token} {ts ts' : List Token} :
      Pared m (n + strings [t]) ts ts' → Pared m n (t :: ts) (t :: ts')
  | semicolon {n : Nat} {ts ts' : List Token} :
      Pared m n ts ts' → Pared m n (.mark .semicolon :: ts) ts'
  | call {n : Nat} {id : String} {s : Bytes} {ts ts' : List Token} : id ∈ ["print", "echo"] →
      m.IsEmpty n → Pared m (n + 1) ts ts' →
      Pared m n (.name id :: .mark .openParen :: .string s :: .mark .closeParen :: ts) ts'

/-- The tokens that are left when some semicolons are taken out. -/
inductive Unended : List Token → List Token → Prop
  | nil : Unended [] []
  | keep {t : Token} {ts ts' : List Token} : Unended ts ts' → Unended (t :: ts) (t :: ts')
  | drop {ts ts' : List Token} : Unended ts ts' → Unended (.mark .semicolon :: ts) ts'

theorem Pared.prepend (pre : List Token) (h : Pared m (n + strings pre) ts ts') :
    Pared m n (pre ++ ts) (pre ++ ts') := by
  induction pre generalizing n with
  | nil => exact h
  | cons t pre ih =>
      have hcons : strings (t :: pre) = strings [t] + strings pre := strings_append [t] pre
      rw [hcons, ← Nat.add_assoc] at h
      exact .keep (ih h)

theorem Pared.refl (ts : List Token) : Pared m n ts ts := by
  have h := Pared.prepend (m := m) (n := n) ts .nil
  rwa [List.append_nil] at h

theorem Unended.prepend (pre : List Token) (h : Unended ts ts') :
    Unended (pre ++ ts) (pre ++ ts') := by
  induction pre with
  | nil => exact h
  | cons t pre ih => exact .keep ih

theorem Unended.refl (ts : List Token) : Unended ts ts := by
  have h := Unended.prepend ts .nil
  rwa [List.append_nil] at h

theorem Unended.trans (h : Unended ts ts') (h' : Unended ts' ts'') : Unended ts ts'' := by
  induction h generalizing ts'' with
  | nil => exact h'
  | keep _ ih =>
      cases h' with
      | keep hmore => exact .keep (ih hmore)
      | drop hmore => exact .drop (ih hmore)
  | drop _ ih => exact .drop (ih h')

theorem Pared.unended (h : Pared m n ts ts') (h' : Unended ts' ts'') : Pared m n ts ts'' := by
  induction h generalizing ts'' with
  | nil =>
      cases h'
      exact .nil
  | keep _ ih =>
      cases h' with
      | keep hmore => exact .keep (ih hmore)
      | drop hmore => exact .semicolon (ih hmore)
  | semicolon _ ih => exact .semicolon (ih h')
  | call hid hempty _ ih => exact .call hid hempty (ih h')

/-- The semicolon after a call goes with it. -/
private theorem CallTail.tokens {tail : Text} (htail : CallTail tail v) (h : Spells ts (tail ++ v)) :
    ∃ ts', Spells ts' v ∧ tail.count Mask.opening = 0 ∧
      ∀ n ts'', Pared m n ts' ts'' → Pared m n ts ts'' := by
  have hnone {b : Text} (hb : Blank b) : b.count Mask.opening = 0 :=
    List.count_eq_zero.mpr fun hmem => absurd (hb _ hmem) (by decide)
  cases htail with
  | plain hb _ => exact ⟨ts, h.trim hb, hnone hb, fun _ _ => id⟩
  | ended hb =>
      rw [List.append_assoc] at h
      obtain ⟨ts', rfl, h'⟩ := (h.trim hb).semicolon
      refine ⟨ts', h', ?_, fun _ _ => .semicolon⟩
      rw [List.count_append, hnone hb]
      decide

/-! ## The rule for empty calls -/

/-- The placeholders after some code are numbered one after the other, from the number on. -/
def Numbered (n : Nat) (t : Text) : Prop :=
  ∀ u c digits v, Symbol.Bare [c] → t = u ++ c :: Mask.opening :: (digits ++ Mask.closing :: v) →
    digits ≠ [] → (∀ d ∈ digits, isDecimalDigit d = true) →
    digits = Nat.toDigits 10 (n + u.count Mask.opening)

theorem Numbered.of_append (h : Numbered n (u ++ t)) : Numbered (n + u.count Mask.opening) t := by
  rintro x c digits v hc rfl hne hdigits
  rw [Nat.add_assoc, ← List.count_append]
  exact h (u ++ x) c digits v hc (by simp) hne hdigits

theorem EmptyCall.count_opening (hw : EmptyCall m w) : w.count Mask.opening = 1 := by
  obtain ⟨hword, ha, hb, hc, -, hliteral, -⟩ := hw
  rename_i word a b digits c literal
  have hnone {s : Text} (hs : Mask.opening ∉ s) : s.count Mask.opening = 0 := List.count_eq_zero.mpr hs
  have hblank {s : Text} (hs : Blank s) : Mask.opening ∉ s := fun hmem =>
    absurd (hs _ hmem) (by decide)
  have hdigits : Mask.opening ∉ digits := fun hmem =>
    absurd (isDecimalDigit_of_literal hliteral _ hmem) (by decide)
  have hword := (show ∀ word ∈ ["print", "echo"], Mask.opening ∉ word.toList by decide) word hword
  have hopen : '(' ≠ Mask.opening := by decide
  have hclose : ')' ≠ Mask.opening := by decide
  have hclosing : Mask.closing ≠ Mask.opening := by decide
  simp [hnone hword, hnone (hblank ha), hnone (hblank hb), hnone (hblank hc), hnone hdigits,
    hopen, hclose, hclosing]

/-- The placeholder of a call that is read has the number that it comes at. -/
theorem EmptyCall.isEmpty (hw : EmptyCall m w) (h : Numbered n (w ++ v)) : m.IsEmpty n := by
  obtain ⟨hword, ha, hb, hc, hne, hliteral, hquoted⟩ := hw
  rename_i word a b digits c literal
  have hbare : Symbol.Bare (word.toList ++ (a ++ '(' :: b)) := by
    have hword := (show ∀ word ∈ ["print", "echo"], Symbol.Bare word.toList by decide) word hword
    simp only [Symbol.bare_append, Symbol.bare_cons]
    exact ⟨hword, Symbol.bare_of_blank ha, by decide, Symbol.bare_of_blank hb⟩
  obtain ⟨front, d, hfront⟩ : ∃ front d, word.toList ++ (a ++ '(' :: b) = front ++ [d] := by
    rcases List.eq_nil_or_concat (word.toList ++ (a ++ '(' :: b)) with hnil | ⟨front, d, hlast⟩
    · simp at hnil
    · exact ⟨front, d, by rw [hlast, List.concat_eq_append]⟩
  rw [hfront, Symbol.bare_append] at hbare
  have hsplit : word.toList ++ (a ++ '(' :: (b ++ Mask.opening ::
      (digits ++ Mask.closing :: (c ++ [')'])))) ++ v =
        front ++ d :: Mask.opening :: (digits ++ Mask.closing :: (c ++ [')'] ++ v)) := by
    have hassoc : front ++ d :: Mask.opening :: (digits ++ Mask.closing :: (c ++ [')'] ++ v)) =
        front ++ [d] ++ Mask.opening :: (digits ++ Mask.closing :: (c ++ [')'] ++ v)) := by simp
    rw [hassoc, ← hfront]
    simp
  have hnumber := h front d digits _ hbare.2 hsplit hne (isDecimalDigit_of_literal hliteral)
  have hnone : front.count Mask.opening = 0 := List.count_eq_zero.mpr fun hmem =>
    absurd (hbare.1 _ hmem) (by decide)
  rw [hnone, Nat.add_zero] at hnumber
  rw [isEmpty_iff, ← hnumber, hliteral]
  exact hquoted

private theorem lastOr_eq_getLast? {s : Text} (h : s ≠ []) (before : Option Char) :
    lastOr before s = s.getLast? := by
  obtain ⟨s, c, rfl⟩ := (List.eq_nil_or_concat s).resolve_left h
  rw [List.concat_eq_append, lastOr_append, List.getLast?_concat]
  rfl

/-- The rule for empty calls takes out whole calls, and the semicolons after them. -/
theorem pared_emptyEmit (m : Mask) (before : Option Char) (t : Text) : ∀ n p ts,
    Spells ts (p ++ t) → (p ≠ [] → before = p.getLast?) → Numbered (n + p.count Mask.opening) t →
    ∃ ts', Pared m n ts ts' ∧ Spells ts' (p ++ replaceFrom (emptyEmit m) 0 before t) := by
  -- what has been read since the last call that was taken out is carried along
  refine replaceFrom_induct (advances_emptyEmit m) (motive := fun before t out => ∀ n p ts,
    Spells ts (p ++ t) → (p ≠ [] → before = p.getLast?) → Numbered (n + p.count Mask.opening) t →
      ∃ ts', Pared m n ts ts' ∧ Spells ts' (p ++ out)) ?_ ?_ ?_ before t
  · intro before n p ts h _ _
    exact ⟨ts, .refl ts, h⟩
  · intro before c t out _ ih n p ts h _ hnumbered
    have hmore := ih n (p ++ [c]) ts (by simpa using h) (by simp) (by
      rw [List.count_append, ← Nat.add_assoc]
      exact hnumbered.of_append (u := [c]))
    simpa using hmore
  · intro before old rest new more hold hhit ih n p ts h hbefore hnumbered
    obtain ⟨hbegin, ⟨w, tail, rfl, ht, hw, htail⟩ | ⟨-, ht⟩⟩ := emptyEmit_eq_some hhit
    · obtain rfl : old = w ++ tail := List.append_cancel_right ht
      rw [List.append_assoc] at h hnumbered
      have hbegin' : wordMayBegin p.getLast? = true := by
        by_cases hp : p = []
        · rw [hp]
          rfl
        · rwa [← hbefore hp]
      obtain ⟨ts₁, id, s, ts₂, rfl, hid, h₁, h₂⟩ := hw.tokens h hbegin'
      obtain ⟨ts₃, h₃, hnone, hended⟩ := CallTail.tokens (m := m) htail h₂
      have hone : w.count Mask.opening = 1 := hw.count_opening
      rw [h₁.count_opening] at hnumbered
      have hempty := hw.isEmpty hnumbered
      rw [← List.append_assoc] at hnumbered
      have hrest := hnumbered.of_append
      rw [List.count_append, hone, hnone] at hrest
      obtain ⟨ts', hpared, h'⟩ := ih (n + strings ts₁ + 1) [] ts₃ h₃ (by simp) hrest
      refine ⟨ts₁ ++ ts', ?_, h₁.append h' (parted_of_mayBegin hbegin' _)⟩
      exact .prepend ts₁ (.call hid hempty (hended _ _ hpared))
    · obtain rfl : old = new := List.append_cancel_right ht
      have hmore := ih n (p ++ old) ts (by simpa using h) (fun _ => ?_) (by
        rw [List.count_append, ← Nat.add_assoc]
        exact hnumbered.of_append)
      · simpa using hmore
      · rw [List.getLast?_append_of_ne_nil _ hold, lastOr_eq_getLast? hold]

end Calls

/-! ## The rules for white space and semicolons -/

section Marks

variable {rule : Rule} {ends : Bool} {ts : List Token} {g u t v : Text}

/-- White space, and semicolons if these may go. -/
def Gap (ends : Bool) (g : Text) : Prop := ∀ c ∈ g, isBlank c = true ∨ c = ';' ∧ ends = true

/-- The rule puts back what it reads, or it leaves of a mark and what stands around it the mark. -/
def Sparing (ends : Bool) (rule : Rule) : Prop :=
  ∀ {before old rest new}, rule before (old ++ rest) = some (new, rest) → new = old ∨
    ∃ b c g k, Blank b ∧ (c, k) ∈ loneMarks ∧ Gap ends g ∧ old = b ++ c :: g ∧ new = [c]

/-- A gap spells nothing but semicolons. -/
private theorem Gap.unended (hg : Gap ends g) (h : Spells ts (g ++ v)) :
    ∃ ts', Unended ts ts' ∧ (ends = false → ts' = ts) ∧ Spells ts' v := by
  induction g generalizing ts with
  | nil => exact ⟨ts, .refl ts, fun _ => rfl, h⟩
  | cons c g ih =>
      obtain ⟨hc, hmore⟩ := List.forall_mem_cons.mp hg
      rcases hc with hblank | ⟨rfl, rfl⟩
      · exact ih hmore (h.trim (u := [c]) (by simpa [Blank] using hblank))
      · obtain ⟨ts', rfl, h'⟩ := h.semicolon
        obtain ⟨ts'', hunended, -, h''⟩ := ih hmore h'
        exact ⟨ts'', .drop hunended, by simp, h''⟩

/-- Such a rule takes out semicolons at most. -/
theorem Sparing.unended (hrule : rule.Advances) (hsparing : Sparing ends rule) (before : Option Char)
    (t : Text) : ∀ p ts, Spells ts (p ++ t) → ∃ ts', Unended ts ts' ∧ (ends = false → ts' = ts) ∧
      Spells ts' (p ++ replaceFrom rule 0 before t) := by
  -- what has been read since the last mark is carried along
  refine replaceFrom_induct hrule (motive := fun _ t out => ∀ p ts, Spells ts (p ++ t) →
    ∃ ts', Unended ts ts' ∧ (ends = false → ts' = ts) ∧ Spells ts' (p ++ out)) ?_ ?_ ?_ before t
  · intro before p ts h
    exact ⟨ts, .refl ts, fun _ => rfl, h⟩
  · intro before c t out _ ih p ts h
    have hmore := ih (p ++ [c]) ts (by simpa using h)
    simpa using hmore
  · intro before old rest new more _ hhit ih p ts h
    rcases hsparing hhit with rfl | ⟨b, c, g, k, hb, hk, hg, rfl, rfl⟩
    · have hmore := ih (p ++ new) ts (by simpa using h)
      simpa using hmore
    · have hsplit : p ++ (b ++ c :: g ++ rest) = p ++ b ++ c :: (g ++ rest) := by simp
      rw [hsplit] at h
      obtain ⟨ts₁, ts₂, rfl, h₁, h₂⟩ := h.cut_loneMark hk
      obtain ⟨ts₃, hunended, hsame, h₃⟩ := hg.unended h₂
      obtain ⟨ts₄, hunended', hsame', h₄⟩ := ih [] ts₃ h₃
      refine ⟨ts₁ ++ .mark k :: ts₄, .prepend ts₁ (.keep (hunended.trans hunended')),
        fun hends => ?_, ?_⟩
      · rw [hsame' hends, hsame hends]
      · exact (h₁.trimEnd hb).append (h₄.cons_loneMark hk) (parted_loneMark hk p more)

/-- White space around marks goes, and nothing else. -/
theorem sparing_spaceRule {kind : Char → Bool} (hkind : ∀ c, kind c = true → isStop c = true) :
    Sparing false (spaceRule kind) := by
  intro before old rest new h
  obtain ⟨b, c, g, hb, hg, hc, rfl, ht, -⟩ := spaceRule_eq_some h
  have hold : old = b ++ c :: g := List.append_cancel_right (ht.trans (by simp))
  obtain ⟨k, hk⟩ : ∃ k, (c, k) ∈ loneMarks := by
    have hstop := hkind c hc
    simp only [isStop, Bool.or_eq_true, beq_iff_eq] at hstop
    rcases hstop with (rfl | rfl) | rfl
    · exact ⟨.semicolon, by decide⟩
    · exact ⟨.openBrace, by decide⟩
    · exact ⟨.closeBrace, by decide⟩
  exact .inr ⟨b, c, g, k, hb, hk, fun d hd => .inl (hg d hd), hold, rfl⟩

theorem sparing_repeatedSemicolon : Sparing true repeatedSemicolon := by
  intro before old rest new h
  obtain ⟨g, hg, rfl, ht, -⟩ := repeatedSemicolon_eq_some h
  have hold : old = ';' :: ';' :: g := List.append_cancel_right (ht.trans (by simp))
  refine .inr ⟨[], ';', ';' :: g, .semicolon, blank_nil, by decide, ?_, hold, rfl⟩
  exact List.forall_mem_cons.mpr ⟨.inr ⟨rfl, rfl⟩, fun d hd => .inr ⟨hg d hd, rfl⟩⟩

theorem sparing_braceSemicolon : Sparing true braceSemicolon := by
  intro before old rest new h
  obtain ⟨c, hc, ⟨rfl, ht⟩ | ⟨rfl, ht, -⟩⟩ := braceSemicolon_eq_some h
  · exact .inl (List.append_cancel_right (ht.trans (by simp))).symm
  · have hold : old = [c, ';'] := List.append_cancel_right (ht.trans (by simp))
    have hgap : Gap true [';'] := by simp [Gap]
    rcases hc with rfl | rfl
    · exact .inr ⟨[], '{', [';'], .openBrace, blank_nil, by decide, hgap, hold, rfl⟩
    · exact .inr ⟨[], '}', [';'], .closeBrace, blank_nil, by decide, hgap, hold, rfl⟩

end Marks

/-! ## The normal form -/

theorem count_spell {s : List Symbol} (hs : Symbol.Legible s) :
    (Symbol.spell s).count Mask.opening = (Symbol.marks s).length := by
  induction s with
  | nil => rfl
  | cons x s ih =>
      cases x with
      | char c =>
          obtain ⟨hc, hs⟩ := Symbol.legible_char.mp hs
          rw [Symbol.spell_char, List.count_cons_of_ne hc, ih hs]
          rfl
      | mark i =>
          rw [Symbol.spell_mark, List.count_append, count_placeholder, ih (Symbol.legible_mark.mp hs),
            Nat.add_comm]
          rfl

/-- The placeholders of symbols in order are numbered one after the other. -/
theorem numbered_spell {s : List Symbol} (hs : Symbol.Legible s) {n : Nat}
    (hmarks : Symbol.marks s = List.range n) : Numbered 0 (Symbol.spell s) := by
  intro u c digits v hc ht hne hdigits
  obtain ⟨a, i, b, rfl, rfl, rfl, -⟩ := symbols_of_call hs (u := u) (v := v)
    (List.cons_ne_nil c []) hc Symbol.bare_nil hne hdigits (by rw [ht]; simp)
  have hi : (List.range n)[(Symbol.marks a).length]? = some i := by
    rw [← hmarks]
    simp [Symbol.marks]
  rw [Nat.zero_add, count_spell (Symbol.legible_append.mp hs).1]
  obtain ⟨hless, hvalue⟩ := List.getElem?_eq_some_iff.mp hi
  rw [List.getElem_range] at hvalue
  rw [hvalue]

/-- Two empty calls, one of them with needless semicolons, between statements. -/
private def emptyCalls : Text :=
  "f(); print(\"\");; t = \x7b\x7d; echo ('') g(print(\"b\"))".toList

/-- A call of a field. -/
private def fieldCall : Text := "t.print(\"\")".toList

end Normalize

end Stencil
