import Stencil.Proofs.Normalize.EmptyCalls
/-!
# Code between marks of punctuation

A masked text is code with semicolons and braces between, and white space around these. The
collapsing passes leave the code, drop the white space, and drop a semicolon after a brace.
-/
namespace Stencil.Normalize

open Text

def isStop (c : Char) : Bool := c == ';' || c == '{' || c == '}'

/-- A part of a masked text. -/
inductive Item where
  | blank (b : Text)
  | code (t : Text)
  | stop (c : Char)
deriving Repr, DecidableEq

def Item.text : Item → Text
  | blank b => b
  | code t => t
  | stop c => [c]

def spread (items : List Item) : Text := items.flatMap Item.text

@[simp] theorem spread_nil : spread [] = [] := rfl

@[simp] theorem spread_blank (b : Text) (r : List Item) : spread (.blank b :: r) = b ++ spread r := rfl

@[simp] theorem spread_code (t : Text) (r : List Item) : spread (.code t :: r) = t ++ spread r := rfl

@[simp] theorem spread_stop (c : Char) (r : List Item) : spread (.stop c :: r) = c :: spread r := rfl

@[simp] theorem spread_append (r s : List Item) : spread (r ++ s) = spread r ++ spread s := by
  simp [spread]

/-- Whether a mark of the kind comes next, white space apart. -/
def reaches (kind : Char → Bool) : List Item → Bool
  | .blank _ :: r => reaches kind r
  | .stop c :: _ => kind c
  | _ => false

/-- Every piece of code is followed by a mark that may follow it, and no semicolon by another. -/
inductive Punctuated (ok : Text → Char → Prop) : List Item → Prop
  | nil : Punctuated ok []
  | blank {b : Text} {r : List Item} : Blank b → Punctuated ok r → Punctuated ok (.blank b :: r)
  | stop {c : Char} {r : List Item} : isStop c = true →
      (c = ';' → reaches (· == ';') r = false) → Punctuated ok r → Punctuated ok (.stop c :: r)
  | code {t g : Text} {c : Char} {r : List Item} : ok t c →
      Punctuated ok (.blank g :: .stop c :: r) → Punctuated ok (.code t :: .blank g :: .stop c :: r)

theorem Punctuated.imp {ok ok' : Text → Char → Prop} (hok : ∀ t c, ok t c → ok' t c)
    {items : List Item} (h : Punctuated ok items) : Punctuated ok' items := by
  induction h with
  | nil => exact .nil
  | blank hb _ ih => exact .blank hb ih
  | stop hc hnext _ ih => exact .stop hc hnext ih
  | code ht _ ih => exact .code (hok _ _ ht) ih

/-- Code that white space and marks can be told from. -/
structure Solid (t : Text) : Prop where
  ne_nil : t ≠ []
  front : Flush t
  back : Flush t.reverse
  noStop : ∀ c ∈ t, isStop c = false
  noParen : t.head? ≠ some '('

section Passes

variable {ok : Text → Char → Prop} {items : List Item}

theorem isBlank_of_stop {c : Char} (h : isStop c = true) : isBlank c = false := by
  simp only [isStop, Bool.or_eq_true, beq_iff_eq] at h
  rcases h with (rfl | rfl) | rfl <;> decide

theorem flush_stop {c : Char} (h : isStop c = true) (t : Text) : Flush (c :: t) :=
  flush_cons.mpr (isBlank_of_stop h)

theorem Solid.flush_append {t : Text} (h : Solid t) (rest : Text) : Flush (t ++ rest) :=
  Text.flush_append h.front fun hnil => absurd hnil h.ne_nil

/-- What comes next, white space apart. -/
theorem reaches_eq_true {kind : Char → Bool} (h : reaches kind items = true)
    (hi : Punctuated ok items) : ∃ c rest, trimStart (spread items) = c :: rest ∧ kind c = true := by
  induction hi with
  | nil => simp [reaches] at h
  | blank hb _ ih =>
      obtain ⟨c, rest, ht, hk⟩ := ih h
      exact ⟨c, rest, by rw [spread_blank, trimStart_blank_append hb, ht], hk⟩
  | @stop c r hc _ _ _ => exact ⟨c, spread r, trimStart_of_flush (flush_stop hc _), h⟩
  | code _ _ _ => simp [reaches] at h

theorem reaches_eq_false {kind : Char → Bool} (hkind : ∀ c, kind c = true → isStop c = true)
    (hok : ∀ t c, ok t c → Solid t) (h : reaches kind items = false) (hi : Punctuated ok items)
    {c : Char} {rest : Text} (ht : trimStart (spread items) = c :: rest) : kind c = false := by
  induction hi with
  | nil => simp [trimStart] at ht
  | blank hb _ ih =>
      rw [spread_blank, trimStart_blank_append hb] at ht
      exact ih h ht
  | stop hc _ _ _ =>
      rw [spread_stop, trimStart_of_flush (flush_stop hc _), List.cons.injEq] at ht
      rw [← ht.1]
      exact h
  | @code t g d r hcode _ _ =>
      have hsolid := hok _ _ hcode
      rw [spread_code, trimStart_of_flush (hsolid.flush_append _)] at ht
      obtain ⟨e, es, rfl⟩ := List.exists_cons_of_ne_nil hsolid.ne_nil
      rw [List.cons_append, List.cons.injEq] at ht
      have hout := hsolid.noStop e (by simp)
      rw [Bool.eq_false_iff]
      intro hk
      rw [← ht.1] at hk
      rw [hkind e hk] at hout
      simp at hout

/-! ## White space around marks -/

/-- White space around the marks of a kind goes. -/
def spaceRule (kind : Char → Bool) : Rule := fun _ t =>
  match trimStart t with
  | c :: rest => if kind c then some ([c], trimStart rest) else none
  | [] => none

theorem spaceRule_eq_some {kind : Char → Bool} {before : Option Char} {t new rest : Text}
    (h : spaceRule kind before t = some (new, rest)) : ∃ b c g, Blank b ∧ Blank g ∧ kind c = true ∧
      new = [c] ∧ t = b ++ c :: (g ++ rest) ∧ Flush rest := by
  unfold spaceRule at h
  split at h
  · rename_i c after hs
    split at h
    · rename_i hc
      rw [Option.some.injEq, Prod.mk.injEq] at h
      obtain ⟨rfl, rfl⟩ := h
      obtain ⟨b, hb, hsplit⟩ := exists_blank_trimStart t
      obtain ⟨g, hg, hsplit'⟩ := exists_blank_trimStart after
      exact ⟨b, c, g, hb, hg, hc, rfl, by rw [← hsplit', ← hs]; exact hsplit, flush_trimStart after⟩
    · simp at h
  · simp at h

theorem isStop_of_semicolon : ∀ c, (c == ';') = true → isStop c = true := by
  intro c hc
  rw [eq_of_beq hc]
  rfl

theorem isStop_of_brace : ∀ c, (c == '{' || c == '}') = true → isStop c = true := by
  intro c hc
  rw [isStop, Bool.or_assoc, hc, Bool.or_true]

theorem semicolonSpace_eq : semicolonSpace = spaceRule (· == ';') := by
  funext before t
  unfold semicolonSpace spaceRule
  split
  · rename_i h
    rw [h]
    rfl
  · rename_i h
    split
    · rename_i c rest hs
      rw [if_neg fun hc => h rest (by rw [hs, eq_of_beq hc])]
    · rfl

theorem braceSpace_eq : braceSpace = spaceRule fun c => c == '{' || c == '}' := by
  funext before t
  unfold braceSpace spaceRule
  split
  · rename_i h
    rw [h]
    rfl
  · rename_i h
    rw [h]
    rfl
  · rename_i h1 h2
    split
    · rename_i c rest hs
      rw [if_neg]
      rw [Bool.or_eq_true, beq_iff_eq, beq_iff_eq]
      rintro (rfl | rfl)
      · exact h1 rest hs
      · exact h2 rest hs
    · rfl

/-- The items without white space around the marks of a kind; whether the white space that comes next
goes with what came before. -/
def tighten (kind : Char → Bool) : Bool → List Item → List Item
  | _, [] => []
  | ate, .blank b :: r => .blank (if ate || reaches kind r then [] else b) :: tighten kind ate r
  | _, .code t :: r => .code t :: tighten kind false r
  | _, .stop c :: r => .stop c :: tighten kind (kind c) r

private theorem space_before {kind : Char → Bool} (before before' : Option Char) (t : Text) :
    replaceFrom (spaceRule kind) 0 before t = replaceFrom (spaceRule kind) 0 before' t := by
  cases t with
  | nil => rfl
  | cons c cs =>
      rw [replaceFrom, replaceFrom]
      rfl

private theorem space_hit {kind : Char → Bool} {t rest : Text} {c : Char} (before : Option Char)
    (ht : trimStart t = c :: rest) (hc : kind c = true) :
    replaceFrom (spaceRule kind) 0 before t =
      c :: replaceFrom (spaceRule kind) 0 none (trimStart rest) := by
  obtain ⟨b, -, hb⟩ := exists_blank_trimStart t
  obtain ⟨b', -, hb'⟩ := exists_blank_trimStart rest
  have hsplit : t = (b ++ c :: b') ++ trimStart rest := by
    rw [hb, ht, List.append_assoc, List.cons_append, ← hb']
  have hrule : spaceRule kind before ((b ++ c :: b') ++ trimStart rest) =
      some ([c], trimStart rest) := by
    rw [← hsplit]
    simp only [spaceRule, ht, hc, if_true]
  rw [hsplit, replaceFrom_match (by simp) hrule, space_before _ none]
  rfl

private theorem space_miss {kind : Char → Bool} {t : Text} (before : Option Char)
    (h : ∀ c rest, trimStart t = c :: rest → kind c = false) : spaceRule kind before t = none := by
  unfold spaceRule
  split
  · rename_i c rest hs
    rw [h c rest hs]
    rfl
  · rfl

/-- White space before a mark of the kind makes no difference, other white space is copied. -/
private theorem space_blank {kind : Char → Bool} (hkind : ∀ c, kind c = true → isStop c = true)
    (hok : ∀ t c, ok t c → Solid t) {b : Text} (hb : Blank b) (hi : Punctuated ok items)
    (before : Option Char) :
    replaceFrom (spaceRule kind) 0 before (b ++ spread items) =
      (if reaches kind items then [] else b) ++ replaceFrom (spaceRule kind) 0 none (spread items) := by
  cases hr : reaches kind items with
  | true =>
      obtain ⟨c, rest, ht, hc⟩ := reaches_eq_true hr hi
      rw [if_pos rfl, List.nil_append, space_hit none ht hc]
      exact space_hit before (by rw [trimStart_blank_append hb, ht]) hc
  | false =>
      rw [if_neg (by simp), replaceFrom_pass, space_before _ none]
      intro u c v hsplit
      have hblank : Blank (c :: v) := fun d hd => hb d (by rw [hsplit]; simp [List.mem_cons.mp hd])
      refine space_miss _ fun d rest ht => ?_
      rw [trimStart_blank_append hblank] at ht
      exact reaches_eq_false hkind hok hr hi ht

private theorem space_code {kind : Char → Bool} (hkind : ∀ c, kind c = true → isStop c = true)
    {t : Text} (h : Solid t) (before : Option Char) (rest : Text) :
    replaceFrom (spaceRule kind) 0 before (t ++ rest) =
      t ++ replaceFrom (spaceRule kind) 0 none rest := by
  rw [replaceFrom_pass, space_before _ none]
  intro u c v hsplit
  refine space_miss _ fun d more ht => ?_
  -- what comes next is a character of the code, which does not end in white space
  obtain ⟨b, hb, hv⟩ := exists_blank_trimStart (c :: v)
  cases hs : trimStart (c :: v) with
  | nil =>
      have hblank : Blank (c :: v) := trimStart_eq_nil.mp hs
      have hback := h.back
      rw [hsplit, List.reverse_append] at hback
      obtain ⟨x, e, hx⟩ := (List.eq_nil_or_concat (c :: v)).resolve_left (by simp)
      rw [List.concat_eq_append] at hx
      rw [hx, List.reverse_append, List.reverse_singleton, List.append_assoc, List.singleton_append,
        flush_cons] at hback
      rw [hblank e (by rw [hx]; simp)] at hback
      simp at hback
  | cons e es =>
      have hflush := flush_trimStart (c :: v)
      rw [hs] at hv hflush
      rw [hv, List.append_assoc, trimStart_append hb (Text.flush_append hflush (by simp)),
        List.cons_append, List.cons.injEq] at ht
      have hmem : e ∈ t := by rw [hsplit, hv]; simp
      have hout := h.noStop e hmem
      rw [← ht.1, Bool.eq_false_iff]
      intro hk
      rw [hkind e hk] at hout
      simp at hout

/-- Spacing acts on the items. -/
theorem replaceFrom_space {kind : Char → Bool} (hkind : ∀ c, kind c = true → isStop c = true)
    (hok : ∀ t c, ok t c → Solid t) (hi : Punctuated ok items) (ate : Bool) (before : Option Char) :
    replaceFrom (spaceRule kind) 0 before
        (if ate then trimStart (spread items) else spread items) =
      spread (tighten kind ate items) := by
  induction hi generalizing ate before with
  | nil => cases ate <;> rfl
  | @blank b r hb hr ih =>
      cases ate with
      | true =>
          have hskip := ih true before
          rw [if_pos rfl] at hskip ⊢
          rw [spread_blank, trimStart_blank_append hb, hskip]
          rfl
      | false =>
          have hrest := ih false none
          rw [if_neg (by simp)] at hrest ⊢
          rw [spread_blank, space_blank hkind hok hb hr, hrest]
          rfl
  | @stop c r hc _ hr ih =>
      have hflush : trimStart (c :: spread r) = c :: spread r :=
        trimStart_of_flush (flush_stop hc _)
      have hsame : (if ate then trimStart (spread (.stop c :: r)) else spread (.stop c :: r)) =
          c :: spread r := by
        rw [spread_stop, hflush]
        exact ite_self _
      rw [hsame, tighten, spread_stop]
      cases hk : kind c with
      | true =>
          have hrest := ih true none
          rw [if_pos rfl] at hrest
          rw [space_hit before hflush hk, hrest]
      | false =>
          have hrest := ih false (some c)
          rw [if_neg (by simp)] at hrest
          rw [replaceFrom_miss, hrest]
          refine space_miss _ fun d rest ht => ?_
          rw [hflush, List.cons.injEq] at ht
          rw [← ht.1]
          exact hk
  | @code t g c r hcode hr ih =>
      have hsolid := hok _ _ hcode
      have hsame : (if ate then trimStart (spread (.code t :: .blank g :: .stop c :: r))
          else spread (.code t :: .blank g :: .stop c :: r)) =
          t ++ spread (.blank g :: .stop c :: r) := by
        rw [spread_code, trimStart_of_flush (hsolid.flush_append _)]
        exact ite_self _
      have hrest := ih false none
      rw [if_neg (by simp)] at hrest
      rw [hsame, space_code hkind hsolid, hrest]
      rfl

theorem replaceAll_space {kind : Char → Bool} (hkind : ∀ c, kind c = true → isStop c = true)
    (hok : ∀ t c, ok t c → Solid t) (hi : Punctuated ok items) :
    (spread items).replaceAll (spaceRule kind) = spread (tighten kind false items) :=
  replaceFrom_space hkind hok hi false none

theorem reaches_tighten (kind kind' : Char → Bool) (ate : Bool) (items : List Item) :
    reaches kind (tighten kind' ate items) = reaches kind items := by
  induction items generalizing ate with
  | nil => rfl
  | cons i r ih =>
      cases i with
      | blank b => exact ih ate
      | code t => rfl
      | stop c => rfl

theorem Punctuated.tighten (kind : Char → Bool) (hi : Punctuated ok items) (ate : Bool) :
    Punctuated ok (tighten kind ate items) := by
  induction hi generalizing ate with
  | nil => exact .nil
  | blank hb _ ih =>
      refine .blank ?_ (ih ate)
      split
      · exact blank_nil
      · exact hb
  | stop hc hnext _ ih => exact .stop hc (fun h => by rw [reaches_tighten]; exact hnext h) (ih _)
  | code ht _ ih => exact .code ht (ih false)

/-! ## Rules that read at marks only -/

/-- The rule applies at no character other than a mark. -/
def AtStops (rule : Rule) : Prop :=
  ∀ before c t, isStop c = false → rule before (c :: t) = none

theorem AtStops.pass {rule : Rule} (h : AtStops rule) {s : Text} (hs : ∀ c ∈ s, isStop c = false)
    (before : Option Char) (t : Text) :
    replaceFrom rule 0 before (s ++ t) = s ++ replaceFrom rule 0 (lastOr before s) t :=
  replaceFrom_pass fun u c v hsplit => h _ c _ (hs c (by rw [hsplit]; simp))

theorem not_stop_of_blank {b : Text} (hb : Blank b) : ∀ c ∈ b, isStop c = false := by
  intro c hc
  rw [Bool.eq_false_iff]
  intro hstop
  have := isBlank_of_stop hstop
  rw [hb c hc] at this
  simp at this

private theorem repeatedSemicolon_of_ne {before : Option Char} {c : Char} {t : Text}
    (h : c = ';' → t.head? ≠ some ';') : repeatedSemicolon before (c :: t) = none := by
  unfold repeatedSemicolon
  split
  · rename_i rest heq
    rw [List.cons.injEq] at heq
    exact absurd (by rw [heq.2]; rfl) (h heq.1)
  · rfl

private theorem atStops_repeatedSemicolon : AtStops repeatedSemicolon := by
  intro before c t hc
  refine repeatedSemicolon_of_ne fun h => ?_
  subst h
  simp [isStop] at hc

theorem replaceFrom_repeatedSemicolon (hok : ∀ t c, ok t c → Solid t) (hi : Punctuated ok items)
    (before : Option Char) :
    replaceFrom repeatedSemicolon 0 before (spread items) = spread items := by
  induction hi generalizing before with
  | nil => rfl
  | blank hb _ ih =>
      rw [spread_blank, atStops_repeatedSemicolon.pass (not_stop_of_blank hb), ih]
  | @stop c r hc hnext hr ih =>
      rw [spread_stop, replaceFrom_miss, ih]
      refine repeatedSemicolon_of_ne fun hsemi hhead => ?_
      obtain ⟨rest, hrest⟩ := List.head?_eq_some_iff.mp hhead
      have ht : trimStart (spread r) = ';' :: rest := by
        rw [hrest]
        exact trimStart_of_flush (flush_stop rfl rest)
      have hkind : ∀ c, (c == ';') = true → isStop c = true := fun c h => by
        rw [eq_of_beq h]
        rfl
      have hfalse := reaches_eq_false hkind hok (hnext hsemi) hr ht
      simp at hfalse
  | code ht _ ih =>
      rw [spread_code, atStops_repeatedSemicolon.pass (hok _ _ ht).noStop, ih]

/-! ## White space gone -/

/-- The items without white space. -/
def bare : List Item → List Item
  | [] => []
  | .blank _ :: r => bare r
  | .code t :: r => .code t :: bare r
  | .stop c :: r => .stop c :: bare r

/-- After both spacing passes white space is left at the front only, and only before code. -/
theorem exists_lead (hi : Punctuated ok items) (semi brace : Bool) :
    ∃ lead, Blank lead ∧
      spread (tighten (fun c => c == '{' || c == '}') brace (tighten (· == ';') semi items)) =
        lead ++ spread (bare items) ∧
      (semi = true ∨ brace = true ∨ reaches isStop items = true → lead = []) := by
  have hstop (r : List Item) : reaches isStop r = true →
      reaches (· == ';') r = true ∨ reaches (fun c => c == '{' || c == '}') r = true := by
    intro h
    induction r with
    | nil => simp [reaches] at h
    | cons i r ih =>
        cases i with
        | blank b => exact ih h
        | code t => simp [reaches] at h
        | stop c => simpa [reaches, isStop, or_assoc] using h
  induction hi generalizing semi brace with
  | nil => exact ⟨[], blank_nil, rfl, fun _ => rfl⟩
  | @blank b r hb _ ih =>
      obtain ⟨lead, hlead, ht, hnil⟩ := ih semi brace
      rw [tighten, tighten, spread_blank, ht, reaches_tighten]
      refine ⟨_ ++ lead, ?_, (List.append_assoc ..).symm, fun h => ?_⟩
      · rw [blank_append]
        refine ⟨?_, hlead⟩
        split
        · exact blank_nil
        · split
          · exact blank_nil
          · exact hb
      · rw [hnil h, List.append_nil]
        rcases h with rfl | rfl | h
        · simp
        · simp
        · rcases hstop r h with h | h <;> simp [h]
  | @stop c r hc _ _ ih =>
      obtain ⟨lead, -, ht, hnil⟩ := ih (c == ';') (c == '{' || c == '}')
      have hall : (c == ';') = true ∨ (c == '{' || c == '}') = true := by
        simpa [isStop, or_assoc] using hc
      rw [hnil (hall.imp_right Or.inl), List.nil_append] at ht
      exact ⟨[], blank_nil, by rw [tighten, tighten, spread_stop, ht]; rfl, fun _ => rfl⟩
  | @code t g c r _ hr ih =>
      obtain ⟨lead, -, ht, hnil⟩ := ih false false
      have hc : reaches isStop (.blank g :: .stop c :: r) = true := by
        cases hr with
        | blank _ hr =>
            cases hr with
            | stop hc _ _ => exact hc
      rw [hnil (Or.inr (Or.inr hc)), List.nil_append] at ht
      exact ⟨[], blank_nil, congrArg (t ++ ·) ht, fun _ => rfl⟩

/-! ## Semicolons after braces -/

/-- The text without white space and without semicolons after braces; whether a brace came last. -/
def squeeze : Bool → List Item → Text
  | _, [] => []
  | brace, .blank _ :: r => squeeze brace r
  | _, .code t :: r => t ++ squeeze false r
  | brace, .stop c :: r =>
    if brace && c == ';' then squeeze false r else c :: squeeze (c == '{' || c == '}') r

private theorem braceSemicolon_of_ne {before : Option Char} {c : Char} {t : Text}
    (h : c = '{' ∨ c = '}' → t.head? ≠ some ';') : braceSemicolon before (c :: t) = none := by
  unfold braceSemicolon
  split
  · rename_i rest heq
    rw [List.cons.injEq] at heq
    exact absurd (by rw [heq.2]; rfl) (h (Or.inl heq.1))
  · rename_i rest heq
    rw [List.cons.injEq] at heq
    exact absurd (by rw [heq.2]; rfl) (h (Or.inr heq.1))
  · rfl

private theorem atStops_braceSemicolon : AtStops braceSemicolon := by
  intro before c t hc
  refine braceSemicolon_of_ne fun h => ?_
  rcases h with rfl | rfl <;> simp [isStop] at hc

private theorem braceSemicolon_hit (before : Option Char) {c : Char} {t : Text}
    (hc : c = '{' ∨ c = '}') (ht : t.head? ≠ some '(') :
    braceSemicolon before ([c, ';'] ++ t) = some ([c], t) := by
  cases t with
  | nil => rcases hc with rfl | rfl <;> rfl
  | cons d t =>
      have hd : d ≠ '(' := fun h => ht (by rw [h]; rfl)
      rcases hc with rfl | rfl <;> simp [braceSemicolon, hd]

private theorem noParen_bare (hok : ∀ t c, ok t c → Solid t) (hi : Punctuated ok items) :
    (spread (bare items)).head? ≠ some '(' := by
  induction hi with
  | nil => simp [bare]
  | blank _ _ ih => exact ih
  | @stop c r hc _ _ _ =>
      intro h
      rw [bare, spread_stop, List.head?_cons, Option.some.injEq] at h
      subst h
      simp [isStop] at hc
  | code ht _ _ =>
      have hsolid := hok _ _ ht
      obtain ⟨d, ds, rfl⟩ := List.exists_cons_of_ne_nil hsolid.ne_nil
      exact hsolid.noParen

/-- A semicolon that comes next is a mark of its own, and code or a brace follows it. -/
private theorem semicolon_next (hok : ∀ t c, ok t c → Solid t) (hi : Punctuated ok items)
    {rest : Text} (h : spread (bare items) = ';' :: rest) : rest.head? ≠ some '(' := by
  induction hi with
  | nil => simp [bare] at h
  | blank _ _ ih => exact ih h
  | stop _ _ hr _ =>
      rw [bare, spread_stop, List.cons.injEq] at h
      rw [← h.2]
      exact noParen_bare hok hr
  | code ht _ _ =>
      have hsolid := hok _ _ ht
      obtain ⟨d, ds, rfl⟩ := List.exists_cons_of_ne_nil hsolid.ne_nil
      rw [bare, spread_code, List.cons_append, List.cons.injEq] at h
      have hout := hsolid.noStop d (by simp)
      rw [h.1] at hout
      simp [isStop] at hout

/-- Where no semicolon comes next, it does not matter what came last. -/
private theorem squeeze_eq (hi : Punctuated ok items)
    (h : (spread (bare items)).head? ≠ some ';') : squeeze true items = squeeze false items := by
  induction hi with
  | nil => rfl
  | blank _ _ ih => exact ih h
  | @stop c r _ _ _ _ =>
      have hc : c ≠ ';' := fun he => h (by rw [bare, spread_stop, he]; rfl)
      simp [squeeze, hc]
  | code _ _ _ => rfl

private theorem replaceFrom_braceSemicolon (hok : ∀ t c, ok t c → Solid t)
    (hi : Punctuated ok items) :
    (∀ before, replaceFrom braceSemicolon 0 before (spread (bare items)) = squeeze false items) ∧
      ∀ before rest, spread (bare items) = ';' :: rest →
        replaceFrom braceSemicolon 0 before rest = squeeze true items := by
  induction hi with
  | nil => exact ⟨fun _ => rfl, fun _ _ h => by simp [bare] at h⟩
  | blank _ _ ih => exact ih
  | @stop c r hc hnext hr ih =>
      obtain ⟨hall, hafter⟩ := ih
      have hkeep : squeeze false (.stop c :: r) = c :: squeeze (c == '{' || c == '}') r := by
        simp [squeeze]
      constructor
      · intro before
        rw [bare, spread_stop, hkeep]
        by_cases hbrace : c = '{' ∨ c = '}'
        · have htrue : (c == '{' || c == '}') = true := by simpa using hbrace
          rw [htrue]
          by_cases hsemi : (spread (bare r)).head? = some ';'
          · obtain ⟨rest, hrest⟩ := List.head?_eq_some_iff.mp hsemi
            have hhit := braceSemicolon_hit before hbrace (semicolon_next hok hr hrest)
            have hmatch := replaceFrom_match (by simp) hhit
            rw [hrest, show c :: ';' :: rest = [c, ';'] ++ rest from rfl, hmatch,
              hafter _ rest hrest]
            rfl
          · rw [replaceFrom_miss (braceSemicolon_of_ne fun _ => hsemi), hall, squeeze_eq hr hsemi]
        · have hfalse : (c == '{' || c == '}') = false := by simpa using hbrace
          rw [hfalse, replaceFrom_miss (braceSemicolon_of_ne fun h => absurd h hbrace), hall]
      · intro before rest h
        rw [bare, spread_stop, List.cons.injEq] at h
        obtain ⟨rfl, rfl⟩ := h
        rw [hall]
        rfl
  | @code t g c r ht hr ih =>
      have hsolid := hok _ _ ht
      constructor
      · intro before
        rw [bare, spread_code, atStops_braceSemicolon.pass hsolid.noStop, ih.1]
        rfl
      · intro before rest h
        obtain ⟨d, ds, rfl⟩ := List.exists_cons_of_ne_nil hsolid.ne_nil
        rw [bare, spread_code, List.cons_append, List.cons.injEq] at h
        have hout := hsolid.noStop d (by simp)
        rw [h.1] at hout
        simp [isStop] at hout

/-- What is left begins and ends with code or a mark. -/
private theorem flush_squeeze (hok : ∀ t c, ok t c → Solid t) (hi : Punctuated ok items)
    (brace : Bool) : Flush (squeeze brace items) ∧ Flush (squeeze brace items).reverse := by
  induction hi generalizing brace with
  | nil => exact ⟨flush_nil, flush_nil⟩
  | blank _ _ ih => exact ih brace
  | @stop c r hc _ _ ih =>
      rw [squeeze]
      split
      · exact ih false
      · rw [List.reverse_cons]
        exact ⟨flush_stop hc _, Text.flush_append (ih _).2 fun _ => flush_stop hc []⟩
  | code ht _ ih =>
      rw [squeeze, List.reverse_append]
      exact ⟨(hok _ _ ht).flush_append _, Text.flush_append (ih false).2 fun _ => (hok _ _ ht).back⟩

/-- The collapsing passes leave the code and its marks. -/
theorem collapse_spread {m : Mask} (hok : ∀ t c, ok t c → Solid t) (hi : Punctuated ok items)
    (hfree : CallFree m (spread items)) : collapse m (spread items) = squeeze false items := by
  have hsemi : ∀ c, (c == ';') = true → isStop c = true := fun c h => by
    rw [eq_of_beq h]
    rfl
  have hbrace : ∀ c, (c == '{' || c == '}') = true → isStop c = true := fun c h => by
    rw [isStop, Bool.or_assoc, h, Bool.or_true]
  have htight := hi.tighten (· == ';') false
  obtain ⟨lead, hlead, ht, -⟩ := exists_lead hi false false
  have hsqueeze := flush_squeeze hok hi false
  have hrepeated : (spread (tighten (· == ';') false items)).replaceAll repeatedSemicolon =
      spread (tighten (· == ';') false items) := replaceFrom_repeatedSemicolon hok htight none
  have hsqueezed : (lead ++ spread (bare items)).replaceAll braceSemicolon =
      lead ++ squeeze false items := by
    rw [Text.replaceAll, atStops_braceSemicolon.pass (not_stop_of_blank hlead),
      (replaceFrom_braceSemicolon hok hi).1]
  rw [collapse_of_callFree hfree, semicolonSpace_eq, braceSpace_eq, replaceAll_space hsemi hok hi,
    hrepeated, replaceAll_space hbrace hok htight, ht, hsqueezed, trim,
    trimStart_append hlead hsqueeze.1, trimEnd_of_flush hsqueeze.2]

end Passes

end Stencil.Normalize
