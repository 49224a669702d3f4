import Stencil.Proofs.Normalize.Punctuation
/-!
# Heads with a colon

A head with a colon is rewritten up to its colon, and its condition is not looked into. Where no such
condition holds another head with a colon, none is left.
-/
namespace Stencil.Normalize

open Text

/-! ## Reading a head -/

/-- The condition of the head with a colon that is read here. -/
def colonCondition? (t : Text) : Option Text :=
  (BlockHead.read? none t).bind fun head => colonGroup? head.afterOpen

def isColonHead (t : Text) : Bool := (colonCondition? t).isSome

/-- No condition of a head with a colon holds another. -/
def Flat (t : Text) : Prop :=
  nowhere (fun v => (colonCondition? v).any fun condition =>
    !nowhere isColonHead (some '(') condition) none t = true

instance (t : Text) : Decidable (Flat t) := inferInstanceAs (Decidable (_ = true))

theorem colonCondition?_eq_some {t condition : Text} : colonCondition? t = some condition ↔
    ∃ keyword b inside, BlockHead.IsKeyword keyword ∧ Blank b ∧ t = keyword ++ (b ++ '(' :: inside) ∧
      colonGroup? inside = some condition := by
  rw [colonCondition?, Option.bind_eq_some_iff]
  constructor
  · rintro ⟨⟨keyword, inside⟩, hread, hgroup⟩
    obtain ⟨-, hkey, b, hb, ht⟩ := BlockHead.read?_eq_some.mp hread
    exact ⟨keyword, b, inside, hkey, hb, ht, hgroup⟩
  · rintro ⟨keyword, b, inside, hkey, hb, ht, hgroup⟩
    exact ⟨⟨keyword, inside⟩, BlockHead.read?_eq_some.mpr ⟨rfl, hkey, b, hb, ht⟩, hgroup⟩

/-- A head, its condition and a colon are read. -/
theorem colonCondition?_append {keyword b condition b' : Text} (hkey : BlockHead.IsKeyword keyword)
    (hb : Blank b) (hbal : Balanced '(' ')' condition) (hb' : Blank b') (rest : Text) :
    colonCondition? (keyword ++ b ++ ['('] ++ (condition ++ ')' :: (b' ++ ':' :: rest))) =
      some condition := by
  refine colonCondition?_eq_some.mpr ⟨keyword, b, condition ++ ')' :: (b' ++ ':' :: rest), hkey, hb,
    by simp, colonGroup?_eq_some.mpr ⟨b' ++ ':' :: rest, rest,
      splitGroup?_balanced (by decide) hbal _, ?_⟩⟩
  exact trimStart_append hb' (flush_cons.mpr (by decide))

theorem isColonHead_iff {t : Text} : isColonHead t = true ↔
    ∃ keyword b inside condition, BlockHead.IsKeyword keyword ∧ Blank b ∧
      t = keyword ++ (b ++ '(' :: inside) ∧ colonGroup? inside = some condition := by
  rw [isColonHead, Option.isSome_iff_exists]
  constructor
  · rintro ⟨condition, h⟩
    obtain ⟨keyword, b, inside, h⟩ := colonCondition?_eq_some.mp h
    exact ⟨keyword, b, inside, condition, h⟩
  · rintro ⟨keyword, b, inside, condition, h⟩
    exact ⟨condition, colonCondition?_eq_some.mpr ⟨keyword, b, inside, h⟩⟩

/-- A keyword is made of words and white space. -/
theorem keyword_chars {keyword : Text} (h : BlockHead.IsKeyword keyword) :
    ∀ c ∈ keyword, isBlank c = true ∨ isWordChar c = true := by
  cases h with
  | plain hw =>
      exact fun c hc => Or.inr ((show ∀ word ∈ ["if", "for", "while"],
        ∀ c ∈ word.toList, isWordChar c = true by decide) _ hw c hc)
  | branch hb =>
      intro c hc
      simp only [List.mem_append] at hc
      rcases hc with hc | hc | hc
      · exact Or.inr ((show ∀ c ∈ "else".toList, isWordChar c = true by decide) c hc)
      · exact Or.inl (hb c hc)
      · exact Or.inr ((show ∀ c ∈ "if".toList, isWordChar c = true by decide) c hc)

/-- So is what stands before the parenthesis of a head. -/
private theorem mem_head {keyword b : Text} (hkey : BlockHead.IsKeyword keyword) (hb : Blank b)
    {c : Char} (hc : c ∈ keyword ++ b) : isBlank c = true ∨ isWordChar c = true :=
  (List.mem_append.mp hc).elim (keyword_chars hkey c) fun h => Or.inl (hb c h)

private theorem not_mem_head {keyword b : Text} (hkey : BlockHead.IsKeyword keyword) (hb : Blank b)
    {c : Char} (hblank : isBlank c = false) (hword : isWordChar c = false) : c ∉ keyword ++ b := by
  intro hc
  rcases mem_head hkey hb hc with h | h
  · rw [hblank] at h
    simp at h
  · rw [hword] at h
    simp at h

theorem exists_cons_of_keyword {keyword : Text} (h : BlockHead.IsKeyword keyword) :
    ∃ c cs, keyword = c :: cs ∧ isWordChar c = true := by
  cases h with
  | plain hw =>
      simp only [List.mem_cons, List.not_mem_nil, or_false] at hw
      rcases hw with rfl | rfl | rfl <;> exact ⟨_, _, rfl, by decide⟩
  | branch _ => exact ⟨'e', _, rfl, by decide⟩

theorem worded_isColonHead : Worded isColonHead := by
  refine ⟨fun {c t} h => ?_, fun t => rfl⟩
  obtain ⟨keyword, b, inside, condition, hkey, -, ht, -⟩ := isColonHead_iff.mp h
  obtain ⟨d, ds, rfl, hd⟩ := exists_cons_of_keyword hkey
  rw [List.cons_append, List.cons.injEq] at ht
  rw [ht.1]
  exact hd

/-- Where a group is split off alike and the same comes next after it, the same colon follows it. -/
theorem Groups.colon {related : Text → Text → Prop} {t t' : Text} (h : Groups related t t')
    (hrelated : ∀ {a a' rest}, related a a' → trimStart a' = ':' :: rest →
      ∃ rest₀, trimStart a = ':' :: rest₀) {condition : Text}
    (hs : colonGroup? t' = some condition) : ∃ condition₀, colonGroup? t = some condition₀ := by
  obtain ⟨after, rest, hs, hcolon⟩ := colonGroup?_eq_some.mp hs
  obtain ⟨condition₀, after₀, hs₀, hafter⟩ := h hs
  obtain ⟨rest₀, hcolon₀⟩ := hrelated hafter hcolon
  exact ⟨condition₀, colonGroup?_eq_some.mpr ⟨after₀, rest₀, hs₀, hcolon₀⟩⟩

theorem reflects_isColonHead : Reflects isColonHead := by
  intro before t t' h hread
  obtain ⟨keyword, b, inside, condition, hkey, hb, rfl, hgroup⟩ := isColonHead_iff.mp hread
  have hstop : ∀ c ∈ keyword ++ b ++ ['('], isStop c = false := by
    intro c hc
    rw [Bool.eq_false_iff]
    intro hstop
    rcases List.mem_append.mp hc with hc | hc
    · exact not_mem_head hkey hb (isBlank_of_stop hstop) (isWordChar_of_stop hstop) hc
    · rw [List.mem_singleton] at hc
      rw [hc] at hstop
      exact absurd hstop (by decide)
  obtain ⟨inside₀, rfl, hinside⟩ := Reform.front (y := inside) hstop (by simpa using h)
  obtain ⟨condition₀, hgroup₀⟩ := hinside.groups.colon
    (fun ⟨_, ha⟩ hcolon => ha.next (by decide) (by decide) hcolon) hgroup
  exact isColonHead_iff.mpr ⟨keyword, b, inside₀, condition₀, hkey, hb, by simp, hgroup₀⟩

/-! ## What the rule for heads copies -/

private theorem advances_colonHead : colonHead.Advances := edits_colonHead.advances

/-- What is written for a head begins with a word or closes a block. -/
private theorem colonHead_writes {before : Option Char} {t new rest : Text}
    (h : colonHead before t = some (new, rest)) :
    ∃ c cs, new = c :: cs ∧ (isWordChar c = true ∨ c = '}') := by
  obtain ⟨-, keyword, b, hkey, -, ⟨rfl, -, -⟩ | ⟨condition, b', -, -, -, rfl⟩⟩ := colonHead_eq_some h
  · obtain ⟨c, cs, rfl, hc⟩ := exists_cons_of_keyword hkey
    exact ⟨c, _, rfl, Or.inl hc⟩
  · rw [braceKeyword]
    split
    · exact ⟨'}', _, rfl, Or.inr rfl⟩
    · obtain ⟨c, cs, rfl, hc⟩ := exists_cons_of_keyword hkey
      exact ⟨c, _, rfl, Or.inl hc⟩

/-- Where nothing is written at the front of the new text, its first character is the old one's. -/
private theorem copied_cons {before : Option Char} {t y : Text} {c : Char}
    (h : replaceFrom colonHead 0 before t = c :: y)
    (hwrites : ∀ new rest, colonHead before t = some (new, rest) → new.head? ≠ some c) :
    ∃ t', t = c :: t' ∧ replaceFrom colonHead 0 (some c) t' = y := by
  cases t with
  | nil => simp at h
  | cons d t =>
      cases hr : colonHead before (d :: t) with
      | none =>
          rw [replaceFrom_miss hr, List.cons.injEq] at h
          obtain ⟨rfl, rfl⟩ := h
          exact ⟨t, rfl, rfl⟩
      | some found =>
          obtain ⟨new, rest⟩ := found
          obtain ⟨old, hold, ht⟩ := advances_colonHead hr
          obtain ⟨e, es, rfl, -⟩ := colonHead_writes hr
          rw [ht] at h hr
          rw [replaceFrom_match hold hr, List.cons_append, List.cons.injEq] at h
          rw [← ht] at hr
          exact absurd (by rw [List.head?_cons, h.1]) (hwrites _ _ hr)

/-- White space and punctuation other than a closing brace are copied. -/
private theorem copied_outside {before : Option Char} {s t y : Text}
    (hs : ∀ c ∈ s, isWordChar c = false ∧ c ≠ '}') (h : replaceFrom colonHead 0 before t = s ++ y) :
    ∃ t', t = s ++ t' ∧ replaceFrom colonHead 0 (lastOr before s) t' = y := by
  induction s generalizing before t with
  | nil => exact ⟨t, rfl, h⟩
  | cons c s ih =>
      obtain ⟨hword, hbrace⟩ := hs c (by simp)
      obtain ⟨t', rfl, h'⟩ := copied_cons h fun new rest hr hhead => by
        obtain ⟨d, ds, rfl, hd⟩ := colonHead_writes hr
        rw [List.head?_cons, Option.some.injEq] at hhead
        rw [hhead, hword] at hd
        exact hd.elim (by simp) hbrace
      obtain ⟨t'', rfl, h''⟩ := ih (fun d hd => hs d (by simp [hd])) h'
      exact ⟨t'', rfl, h''⟩

/-- The rest of a word is copied. -/
private theorem copied_word {before : Option Char} {s t y : Text}
    (hbefore : wordMayBegin before = false) (hs : ∀ c ∈ s, isWordChar c = true)
    (h : replaceFrom colonHead 0 before t = s ++ y) :
    ∃ t', t = s ++ t' ∧ replaceFrom colonHead 0 (lastOr before s) t' = y := by
  induction s generalizing before t with
  | nil => exact ⟨t, rfl, h⟩
  | cons c s ih =>
      obtain ⟨t', rfl, h'⟩ := copied_cons h fun new rest hr => by
        have hbegin := (colonHead_eq_some hr).1
        rw [hbefore] at hbegin
        simp at hbegin
      have hc : wordMayBegin (some c) = false := by simp [wordMayBegin, hs c (by simp)]
      obtain ⟨t'', rfl, h''⟩ := ih hc (fun d hd => hs d (by simp [hd])) h'
      exact ⟨t'', rfl, h''⟩

private theorem copyable_of_blank {b : Text} (hb : Blank b) :
    ∀ c ∈ b, isWordChar c = false ∧ c ≠ '}' := by
  refine fun c hc => ⟨isWordChar_of_blank (hb c hc), ?_⟩
  rintro rfl
  exact absurd (hb _ hc) (by decide)

private theorem copyable_of_open {b : Text} (hb : Blank b) :
    ∀ c ∈ b ++ ['('], isWordChar c = false ∧ c ≠ '}' := by
  intro c hc
  rcases List.mem_append.mp hc with hc | hc
  · exact copyable_of_blank hb c hc
  · rw [List.mem_singleton.mp hc]
    decide

/-- A word that begins a head in the new text stood in the old one. -/
private theorem word_of_copied {word : String} {b t y : Text}
    (hw : word ∈ ["if", "for", "while"]) (hb : Blank b) {c : Char} {w : Text}
    (hword : word.toList = c :: w)
    (h : replaceFrom colonHead 0 (some c) t = w ++ (b ++ '(' :: y)) :
    ∃ t', t = w ++ (b ++ '(' :: t') := by
  have hchars := (show ∀ word ∈ ["if", "for", "while"], ∀ c ∈ word.toList, isWordChar c = true by
    decide) word hw
  rw [hword] at hchars
  have hc : wordMayBegin (some c) = false := by simp [wordMayBegin, hchars c (by simp)]
  obtain ⟨t₁, rfl, h₁⟩ := copied_word hc (fun d hd => hchars d (by simp [hd])) h
  obtain ⟨t₂, rfl, -⟩ := copied_outside (copyable_of_open hb) (y := y) (by simpa using h₁)
  exact ⟨t₂, by simp⟩

/-- An `if` of the new text is one of the old text, whether it was written or copied. -/
private theorem if_of_written {before : Option Char} {t new rest cs : Text}
    (h : colonHead before t = some (new, rest)) (hnew : new = 'i' :: cs) :
    ∃ b inside, Blank b ∧ t = "if".toList ++ (b ++ '(' :: inside) := by
  obtain ⟨-, keyword, b, hkey, hb, hcases⟩ := colonHead_eq_some h
  have hkeyword : keyword = "if".toList := by
    cases hkey with
    | plain hw =>
        simp only [List.mem_cons, List.not_mem_nil, or_false] at hw
        rcases hw with rfl | rfl | rfl
        · rfl
        · rcases hcases with ⟨rfl, -⟩ | ⟨condition, b', -, -, -, rfl⟩ <;> simp [braceKeyword] at hnew
        · rcases hcases with ⟨rfl, -⟩ | ⟨condition, b', -, -, -, rfl⟩ <;> simp [braceKeyword] at hnew
    | branch _ =>
        rcases hcases with ⟨rfl, -⟩ | ⟨condition, b', -, -, -, rfl⟩ <;> simp [braceKeyword] at hnew
  subst hkeyword
  rcases hcases with ⟨rfl, rfl, -⟩ | ⟨condition, b', -, -, rfl, -⟩
  · exact ⟨b, rest, hb, by simp⟩
  · exact ⟨b, _, hb, by simp; rfl⟩

private theorem if_of_front {before : Option Char} {t b y : Text} (hb : Blank b)
    (h : replaceFrom colonHead 0 before t = "if".toList ++ (b ++ '(' :: y)) :
    ∃ b' inside, Blank b' ∧ t = "if".toList ++ (b' ++ '(' :: inside) := by
  cases t with
  | nil => simp at h
  | cons d t =>
      cases hr : colonHead before (d :: t) with
      | none =>
          rw [replaceFrom_miss hr, show "if".toList = 'i' :: ['f'] from rfl, List.cons_append,
            List.cons.injEq] at h
          obtain ⟨rfl, h⟩ := h
          obtain ⟨t', rfl⟩ := @word_of_copied "if" _ _ _ (by simp) hb _ _ rfl h
          exact ⟨b, t', hb, rfl⟩
      | some found =>
          obtain ⟨new, rest⟩ := found
          obtain ⟨old, hold, ht⟩ := advances_colonHead hr
          obtain ⟨e, es, rfl, -⟩ := colonHead_writes hr
          rw [ht] at h hr ⊢
          rw [replaceFrom_match hold hr, show "if".toList = 'i' :: ['f'] from rfl,
            List.cons_append, List.cons_append, List.cons.injEq] at h
          exact if_of_written hr (by rw [h.1])

/-- A head that is read where the rule wrote nothing stood there before. -/
private theorem head_of_copied {c : Char} {t keyword b inside : Text}
    (hkey : BlockHead.IsKeyword keyword) (hb : Blank b)
    (h : c :: replaceFrom colonHead 0 (some c) t = keyword ++ (b ++ '(' :: inside)) :
    ∃ keyword' b' inside', BlockHead.IsKeyword keyword' ∧ Blank b' ∧
      c :: t = keyword' ++ (b' ++ '(' :: inside') := by
  cases hkey with
  | @plain word hw =>
      obtain ⟨d, w, hd, -⟩ := exists_cons_of_keyword (.plain hw)
      rw [hd, List.cons_append, List.cons.injEq] at h
      obtain ⟨rfl, h⟩ := h
      obtain ⟨t', rfl⟩ := word_of_copied hw hb hd h
      exact ⟨word.toList, b, t', .plain hw, hb, by rw [hd]; rfl⟩
  | @branch b₀ hb₀ =>
      rw [show "else".toList = 'e' :: "lse".toList from rfl] at h
      simp only [List.cons_append, List.append_assoc, List.cons.injEq] at h
      obtain ⟨rfl, h⟩ := h
      obtain ⟨t₁, rfl, h₁⟩ := copied_word (by decide) (by decide) h
      obtain ⟨t₂, rfl, h₂⟩ := copied_outside (copyable_of_blank hb₀) h₁
      obtain ⟨b', inside', hb', rfl⟩ := if_of_front hb h₂
      exact ⟨_, b', inside', .branch hb₀, hb', by simp⟩

/-! ## Heads that are left -/

/-- Before a group that no colon follows, no head with a colon is read. -/
private theorem nowhere_open {before : Option Char} {s r : Text} (hs : '(' ∉ s)
    (hgroup : colonGroup? r = none) (hr : nowhere isColonHead (some '(') r = true) :
    nowhere isColonHead before (s ++ '(' :: r) = true := by
  induction s generalizing before with
  | nil => exact nowhere_cons.mpr ⟨fun _ => worded_isColonHead.outside (by decide) r, hr⟩
  | cons c s ih =>
      refine nowhere_cons.mpr ⟨fun _ => ?_, ih fun h => hs (List.mem_cons_of_mem c h)⟩
      rw [Bool.eq_false_iff]
      intro hread
      obtain ⟨keyword, b, inside, condition, hkey, hb, ht, hcolon⟩ := isColonHead_iff.mp hread
      have hhead : c :: s ++ '(' :: r = (keyword ++ b) ++ '(' :: inside := by
        rw [List.append_assoc, ← ht]
        rfl
      obtain ⟨-, rfl⟩ := cut_unique hs (not_mem_head hkey hb (by decide) (by decide)) hhead
      rw [hgroup] at hcolon
      simp at hcolon

/-- A group that begins inside parentheses ends inside them. -/
private theorem group_inside {depth : Nat} {y z condition after : Text}
    (hy : nest? '(' ')' (depth + 1) y = some 0) (hbal : Balanced '(' ')' condition)
    (h : y ++ ')' :: z = condition ++ ')' :: after) :
    ∃ x, y = condition ++ ')' :: x ∧ after = x ++ ')' :: z := by
  have hopen := nest?_add hbal (depth + 1)
  rw [Nat.zero_add] at hopen
  have hne : condition ≠ y := by
    rintro rfl
    rw [hopen] at hy
    simp at hy
  rcases List.append_eq_append_iff.mp h with ⟨x, rfl, hx⟩ | ⟨x, rfl, hx⟩
  · cases x with
    | nil => exact absurd (List.append_nil y) hne
    | cons c x =>
        rw [List.cons_append, List.cons.injEq] at hx
        obtain ⟨rfl, -⟩ := hx
        -- the condition would close a parenthesis that it did not open
        have hprefix : nest? '(' ')' 0 (y ++ ')' :: x) = some 0 := hbal
        rw [nest?_append] at hprefix
        obtain ⟨j, hj, -⟩ := Option.bind_eq_some_iff.mp hprefix
        have := nest?_add hj (depth + 1)
        rw [Nat.zero_add, hy, Option.some.injEq] at this
        omega
  · cases x with
    | nil => exact absurd (List.append_nil condition).symm hne
    | cons c x =>
        rw [List.cons_append, List.cons.injEq] at hx
        obtain ⟨rfl, rfl⟩ := hx
        exact ⟨x, rfl, rfl⟩

/-- A colon that comes next comes before any parenthesis. -/
private theorem colon_inside {x z rest : Text} (h : trimStart (x ++ ')' :: z) = ':' :: rest) :
    ∃ rest', trimStart x = ':' :: rest' := by
  obtain ⟨g, hg, hx⟩ := exists_blank_trimStart x
  rw [hx, List.append_assoc, trimStart_blank_append hg] at h
  cases hnext : trimStart x with
  | nil =>
      rw [hnext, List.nil_append, trimStart_of_flush (flush_cons.mpr (by decide)),
        List.cons.injEq] at h
      exact absurd h.1 (by decide)
  | cons c more =>
      have hflush : Flush (c :: more) := hnext ▸ flush_trimStart x
      rw [hnext, trimStart_of_flush (Text.flush_append hflush (by simp)), List.cons_append,
        List.cons.injEq] at h
      exact ⟨more, by rw [h.1]⟩

/-- A head with a colon that begins inside parentheses ends inside them. -/
private theorem isColonHead_inside {depth : Nat} {y z : Text}
    (hy : nest? '(' ')' depth y = some 0) (h : isColonHead (y ++ ')' :: z) = true) :
    isColonHead y = true := by
  obtain ⟨keyword, b, inside, condition, hkey, hb, ht, hgroup⟩ := isColonHead_iff.mp h
  obtain ⟨after, rest, hs, hcolon⟩ := colonGroup?_eq_some.mp hgroup
  obtain ⟨rfl, hbal⟩ := (splitGroup?_eq_some (by decide)).mp hs
  have hopen : '(' ∉ keyword ++ b := not_mem_head hkey hb (by decide) (by decide)
  have hclose : ')' ∉ keyword ++ b := not_mem_head hkey hb (by decide) (by decide)
  have hnest : nest? '(' ')' depth (keyword ++ b ++ ['(']) = some (depth + 1) := by
    rw [nest?_append, nest?_of_not_mem hopen hclose, Option.bind_some, nest?_opening]
    rfl
  have ht' : y ++ ')' :: z = keyword ++ b ++ ['('] ++ (condition ++ ')' :: after) := by
    rw [ht]
    simp
  rcases List.append_eq_append_iff.mp ht' with ⟨x, hx, hz⟩ | ⟨y₁, rfl, hy₁⟩
  · -- the text would end in the front of the head
    cases x with
    | nil =>
        rw [List.append_nil] at hx
        rw [← hx, hnest] at hy
        simp at hy
    | cons c x =>
        rw [List.cons_append, List.cons.injEq] at hz
        have hmem : ')' ∈ keyword ++ b ++ ['('] := by rw [hx, hz.1]; simp
        rcases List.mem_append.mp hmem with h | h
        · exact absurd h hclose
        · simp at h
  · rw [nest?_append, hnest, Option.bind_some] at hy
    obtain ⟨x, rfl, rfl⟩ := group_inside hy hbal hy₁.symm
    obtain ⟨rest', hcolon'⟩ := colon_inside hcolon
    exact isColonHead_iff.mpr ⟨keyword, b, condition ++ ')' :: x, condition, hkey, hb, by simp,
      colonGroup?_eq_some.mpr ⟨x, rest', splitGroup?_balanced (by decide) hbal x, hcolon'⟩⟩

/-- After a condition without a head with a colon comes none but in what follows. -/
private theorem nowhere_condition {before : Option Char} {depth : Nat} {condition z : Text}
    (hbal : nest? '(' ')' depth condition = some 0)
    (hc : nowhere isColonHead before condition = true)
    (hz : nowhere isColonHead (some ')') z = true) :
    nowhere isColonHead before (condition ++ ')' :: z) = true := by
  induction condition generalizing before depth with
  | nil => exact nowhere_cons.mpr ⟨fun _ => worded_isColonHead.outside (by decide) z, hz⟩
  | cons c condition ih =>
      obtain ⟨hhere, hlater⟩ := nowhere_cons.mp hc
      have hrest : ∃ d, nest? '(' ')' d condition = some 0 := by
        rw [← List.singleton_append, nest?_append] at hbal
        obtain ⟨d, -, hd⟩ := Option.bind_eq_some_iff.mp hbal
        exact ⟨d, hd⟩
      obtain ⟨d, hd⟩ := hrest
      refine nowhere_cons.mpr ⟨fun hbegin => ?_, ih hd hlater⟩
      rw [Bool.eq_false_iff]
      intro hread
      have := isColonHead_inside hbal hread
      rw [hhere hbegin] at this
      simp at this

/-- A head with its condition nests back to where it began. -/
private theorem nest?_head {s condition e : Text} (hs : '(' ∉ s ∧ ')' ∉ s) (he : '(' ∉ e ∧ ')' ∉ e)
    (hbal : Balanced '(' ')' condition) (depth : Nat) :
    nest? '(' ')' depth (s ++ ['('] ++ (condition ++ ')' :: e)) = some depth := by
  have hin := nest?_add hbal (depth + 1)
  rw [Nat.zero_add] at hin
  rw [nest?_append, nest?_append, nest?_of_not_mem hs.1 hs.2, Option.bind_some, nest?_opening, nest?,
    Option.bind_some, nest?_append, hin, Option.bind_some, nest?_closing (by decide),
    nest?_of_not_mem he.1 he.2]

private theorem noParen_head {keyword b : Text} (hkey : BlockHead.IsKeyword keyword) (hb : Blank b) :
    ('(' ∉ keyword ++ b ∧ ')' ∉ keyword ++ b) ∧
      '(' ∉ braceKeyword keyword ++ [' '] ∧ ')' ∉ braceKeyword keyword ++ [' '] := by
  refine ⟨⟨not_mem_head hkey hb (by decide) (by decide),
    not_mem_head hkey hb (by decide) (by decide)⟩, ?_⟩
  rw [braceKeyword]
  split
  · decide
  · exact ⟨not_mem_head hkey (by decide) (by decide) (by decide),
      not_mem_head hkey (by decide) (by decide) (by decide)⟩

/-- What is written for a head nests as what was read. -/
private theorem nest?_colonHead {before : Option Char} {old new rest : Text}
    (h : colonHead before (old ++ rest) = some (new, rest)) (depth : Nat) :
    ∃ d, nest? '(' ')' depth old = some d ∧ nest? '(' ')' depth new = some d := by
  obtain ⟨-, keyword, b, hkey, hb, ⟨rfl, ht, -⟩ | ⟨condition, b', hbal, hb', ht, rfl⟩⟩ :=
    colonHead_eq_some h
  · rw [List.append_cancel_right ht]
    have hparen := (noParen_head hkey hb).1
    refine ⟨depth + 1, ?_, ?_⟩ <;>
      rw [nest?_append, nest?_of_not_mem hparen.1 hparen.2, Option.bind_some, nest?_opening] <;> rfl
  · obtain ⟨hold, hnew⟩ := noParen_head hkey hb
    have hread : old = keyword ++ b ++ ['('] ++ (condition ++ ')' :: (b' ++ [':'])) := by
      refine List.append_cancel_right (ht.trans ?_)
      simp
    have hwritten : braceKeyword keyword ++ " (".toList = braceKeyword keyword ++ [' '] ++ ['('] := by
      simp
    have hcolon : '(' ∉ b' ++ [':'] ∧ ')' ∉ b' ++ [':'] := by
      have := noParen_append (noParen_of_blank hb') (show ∀ c ∈ [':'], c ≠ '(' ∧ c ≠ ')' by decide)
      exact ⟨fun h => (this _ h).1 rfl, fun h => (this _ h).2 rfl⟩
    exact ⟨depth, by rw [hread]; exact nest?_head hold hcolon hbal depth,
      by rw [hwritten]; exact nest?_head hnew (by decide) hbal depth⟩

/-- A group of the new text is one of the old text, and what follows it is rewritten. -/
private theorem groups_colonHead (before : Option Char) (t : Text) :
    Groups (fun after after' => ∃ before, after' = replaceFrom colonHead 0 before after) t
      (replaceFrom colonHead 0 before t) := by
  suffices key : replaceFrom colonHead 0 before t = replaceFrom colonHead 0 before t ∧
      Groups (fun after after' => ∃ before, after' = replaceFrom colonHead 0 before after) t
        (replaceFrom colonHead 0 before t) from key.2
  refine replaceFrom_induct advances_colonHead
    (motive := fun before t out => out = replaceFrom colonHead 0 before t ∧
      Groups (fun after after' => ∃ before, after' = replaceFrom colonHead 0 before after) t out)
    (fun _ => ⟨rfl, fun _ _ _ hs => by simp [splitGroup?] at hs⟩) ?_ ?_ before t
  · rintro before c t out hmiss ⟨rfl, ih⟩
    exact ⟨(replaceFrom_miss hmiss).symm, ih.cons ⟨_, rfl⟩ c⟩
  · rintro before old rest new more hold hhit ⟨rfl, ih⟩
    exact ⟨(replaceFrom_match hold hhit).symm, ih.append (nest?_colonHead hhit)⟩

/-- A colon follows a group of the new text only where one follows the group of the old text. -/
private theorem colonGroup?_colonHead {before : Option Char} {t : Text}
    (h : colonGroup? t = none) : colonGroup? (replaceFrom colonHead 0 before t) = none := by
  rw [Option.eq_none_iff_forall_ne_some]
  intro condition hs
  obtain ⟨condition₀, hs₀⟩ := (groups_colonHead before t).colon
    (fun {a a' rest} ha hcolon => by
      obtain ⟨before, rfl⟩ := ha
      obtain ⟨g, hg, hsplit⟩ := exists_blank_trimStart (replaceFrom colonHead 0 before a)
      have hout : ∀ c ∈ g ++ [':'], isWordChar c = false ∧ c ≠ '}' := by
        intro c hc
        rcases List.mem_append.mp hc with hc | hc
        · exact copyable_of_blank hg c hc
        · rw [List.mem_singleton.mp hc]
          decide
      rw [hcolon] at hsplit
      obtain ⟨a', rfl, -⟩ := copied_outside hout (y := rest) (by rw [hsplit]; simp)
      refine ⟨a', ?_⟩
      rw [List.append_assoc, List.singleton_append, trimStart_append hg
        (flush_cons.mpr (by decide))]) hs
  rw [h] at hs₀
  simp at hs₀

/-- What is written for a head reads no head with a colon, if its condition holds none. -/
private theorem nowhere_written {before : Option Char} {keyword condition t : Text}
    (hkey : BlockHead.IsKeyword keyword) (hbal : Balanced '(' ')' condition)
    (hinside : nowhere isColonHead (some '(') condition = true)
    (ht : nowhere isColonHead (some '\x7b') t = true) :
    nowhere isColonHead before
      (braceKeyword keyword ++ " (".toList ++ (condition ++ ')' :: " \x7b".toList) ++ t) = true := by
  have hafter : nowhere isColonHead (some ')') (" \x7b".toList ++ t) = true :=
    nowhere_cons.mpr ⟨fun _ => worded_isColonHead.outside (by decide) _,
      nowhere_cons.mpr ⟨fun _ => worded_isColonHead.outside (by decide) _, ht⟩⟩
  -- a brace follows the condition, so this group is no condition of a head with a colon
  have hgroup : colonGroup? (condition ++ ')' :: (" \x7b".toList ++ t)) = none := by
    rw [colonGroup?, splitGroup?_balanced (by decide) hbal, Option.bind_some, if_neg]
    simp [trimStart, isBlank]
  have hheads : nowhere isColonHead before (braceKeyword keyword ++ [' '] ++
      '(' :: (condition ++ ')' :: (" \x7b".toList ++ t))) = true :=
    nowhere_open (noParen_head hkey blank_nil).2.1 hgroup (nowhere_condition hbal hinside hafter)
  simpa using hheads

/-- No head with a colon is left where no condition of one holds another. -/
theorem nowhere_isColonHead {t : Text} (h : Flat t) :
    nowhere isColonHead none (t.replaceAll colonHead) = true := by
  suffices key : t.replaceAll colonHead = replaceFrom colonHead 0 none t ∧
      (Flat t → ∀ before', wordMayBegin before' = wordMayBegin none →
        nowhere isColonHead before' (t.replaceAll colonHead) = true) from key.2 h none rfl
  refine replaceFrom_induct advances_colonHead
    (motive := fun before t out => out = replaceFrom colonHead 0 before t ∧
      (nowhere (fun v => (colonCondition? v).any fun condition =>
        !nowhere isColonHead (some '(') condition) before t = true → ∀ before',
          wordMayBegin before' = wordMayBegin before → nowhere isColonHead before' out = true))
    (fun _ => ⟨rfl, fun _ _ _ => rfl⟩) ?_ ?_ none t
  · rintro before c t out hmiss ⟨rfl, ih⟩
    refine ⟨(replaceFrom_miss hmiss).symm, fun hflat before' hbefore => ?_⟩
    refine nowhere_cons.mpr ⟨fun hbegin => ?_, ih (nowhere_cons.mp hflat).2 _ rfl⟩
    rw [Bool.eq_false_iff]
    intro hread
    obtain ⟨keyword, b, inside, condition, hkey, hb, ht, -⟩ := isColonHead_iff.mp hread
    obtain ⟨keyword', b', inside', hkey', hb', ht'⟩ := head_of_copied hkey hb ht
    rw [hbefore] at hbegin
    have hhead := BlockHead.read?_eq_some.mpr ⟨hbegin, hkey', b', hb', ht'⟩
    rw [Option.map_eq_none_iff.mp hmiss] at hhead
    simp at hhead
  · rintro before old rest new more hold hhit ⟨rfl, ih⟩
    refine ⟨(replaceFrom_match hold hhit).symm, fun hflat before' hbefore => ?_⟩
    have hrest := ih (nowhere_append_right hflat)
    obtain ⟨hbegin, keyword, b, hkey, hb, ⟨rfl, ht, hgroup⟩ | ⟨condition, b', hbal, hb', ht, rfl⟩⟩ :=
      colonHead_eq_some hhit
    · have hread := List.append_cancel_right ht
      subst hread
      have hlast : lastOr before (keyword ++ b ++ ['(']) = some '(' := by
        rw [lastOr_append]
        rfl
      rw [hlast] at hrest ⊢
      rw [List.append_assoc (keyword ++ b)]
      exact nowhere_open (noParen_head hkey hb).1.1 (colonGroup?_colonHead hgroup) (hrest _ rfl)
    · have hcondition := colonCondition?_append hkey hb hbal hb' rest
      rw [← ht] at hcondition
      have hinside : nowhere isColonHead (some '(') condition = true := by
        obtain ⟨c, cs, rfl⟩ := List.exists_cons_of_ne_nil hold
        have := nowhere_iff.mp hflat [] c (cs ++ rest) rfl hbegin
        rw [← List.cons_append, hcondition] at this
        simpa using this
      -- what was read ends with a colon, what is written with a brace: a word may begin after both
      have hread : old = keyword ++ b ++ ['('] ++ (condition ++ ')' :: b') ++ [':'] := by
        refine List.append_cancel_right (ht.trans ?_)
        simp
      have hlast : wordMayBegin (lastOr before old) = true := by
        rw [hread, lastOr_append]
        exact show (!isWordChar ':') = true by decide
      refine nowhere_written hkey hbal hinside (hrest _ ?_)
      rw [hlast]
      decide

end Stencil.Normalize
