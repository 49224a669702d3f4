import Stencil.Proofs.Mask.Kept
/-!
# Masked texts that can be masked again

A masked text is settled when nothing in it begins a string or a comment: no quote, no two characters
that open a comment, no long bracket. Then the text that it stands for has the symbols as its tiles,
and masking that text gives the same masked text and the same literals.
-/
namespace Stencil.Symbol

/-- What begins a string or a comment, a bracket before a literal that begins with one included. -/
inductive Opener (literals : List Text) : Text → Prop
  | single : Opener literals ['\'']
  | double : Opener literals ['"']
  | dashes : Opener literals ['-', '-']
  | slashes : Opener literals ['/', '/']
  | slashStar : Opener literals ['/', '*']
  | bracket (level : Nat) : Opener literals ('[' :: Tile.opener level)
  | beforeLong {level i : Nat} {l : Text} : literals[i]? = some ('[' :: l) →
      Opener literals ('[' :: (List.replicate level '=' ++ Mask.placeholder i))

/-- No string and no comment begins in the masked text. -/
def Settled (literals : List Text) (t : Text) : Prop :=
  ∀ w, Opener literals w → ¬ w <:+: t

theorem Opener.exists_cons {literals : List Text} {w : Text} (h : Opener literals w) :
    ∃ c cs, w = c :: cs ∧ isMarkChar c = false ∧ isBlank c = false := by
  cases h <;> exact ⟨_, _, rfl, by decide, by decide⟩

/-- Whether a string or a comment may be opened with the character. -/
def opens (c : Char) : Bool := ['\'', '"', '-', '/', '*', '[', '='].contains c || isMarkChar c

theorem Opener.opens {literals : List Text} {w : Text} (h : Opener literals w) :
    ∀ c ∈ w, opens c = true := by
  cases h with
  | bracket level =>
      intro c hc
      simp only [Tile.opener, List.mem_cons, List.mem_append, List.mem_replicate, List.not_mem_nil,
        or_false] at hc
      rcases hc with rfl | ⟨-, rfl⟩ | rfl <;> decide
  | @beforeLong level i l _ =>
      intro c hc
      simp only [List.mem_cons, List.mem_append, List.mem_replicate] at hc
      rcases hc with rfl | ⟨-, rfl⟩ | hc
      · decide
      · decide
      · simp [Symbol.opens, isMarkChar_placeholder hc]
  | _ => decide

theorem Settled.of_append {literals : List Text} {s t : Text} (h : Settled literals (s ++ t)) :
    Settled literals t :=
  fun w hw hi => h w hw (hi.trans (List.suffix_append s t).isInfix)

private theorem infix_of_append_marks {p t w : Text} {c : Char} (hc : isMarkChar c = false)
    (hp : ∀ d ∈ p, isMarkChar d = true) (h : c :: w <:+: p ++ t) : c :: w <:+: t := by
  induction p with
  | nil => exact h
  | cons d p ih =>
      rcases List.infix_cons_iff.mp h with h | h
      · have hd : c = d := (List.cons_prefix_cons.mp h).1
        have := hp d (by simp)
        rw [← hd, hc] at this
        simp at this
      · exact ih (fun e he => hp e (by simp [he])) h

/-! ## The masked text of a source -/

/-- A source whose code can be told from its literals: no comment of it is written with a long
bracket, and no character of its code looks like the beginning of a placeholder. -/
structure Plain (ts : List Tile) : Prop where
  short : ∀ x ∈ ts, x.isLongComment = false
  legible : .plain Mask.opening ∉ ts

instance (ts : List Tile) : Decidable (Plain ts) :=
  decidable_of_iff ((∀ x ∈ ts, x.isLongComment = false) ∧ .plain Mask.opening ∉ ts)
    ⟨fun h => ⟨h.1, h.2⟩, fun h => ⟨h.short, h.legible⟩⟩

theorem Plain.tail {x : Tile} {ts : List Tile} (h : Plain (x :: ts)) : Plain ts :=
  ⟨fun y hy => h.short y (List.mem_cons_of_mem _ hy), fun hc => h.legible (List.mem_cons_of_mem _ hc)⟩

theorem Plain.ne_opening {ts : List Tile} (h : Plain ts) {c : Char} (hc : .plain c ∈ ts) :
    c ≠ Mask.opening := by
  rintro rfl
  exact h.legible hc

theorem legible_number {ts : List Tile} (h : .plain Mask.opening ∉ ts) (k : Nat) :
    Legible (number k ts) := by
  induction ts generalizing k with
  | nil => simp [number]
  | cons x ts ih =>
      rw [List.mem_cons, not_or] at h
      cases x with
      | plain c => exact legible_char.mpr ⟨fun hc => h.1 (by rw [hc]), ih h.2 k⟩
      | literal t => exact legible_mark.mpr (ih h.2 (k + 1))
      | comment t => exact ih h.2 k
      | spaced t => exact legible_char.mpr ⟨by decide, ih h.2 k⟩

theorem Plain.front {t : Text} (h : Plain (tiles t)) : Tile.Front t := by
  refine Tile.front t fun x ts ht hx => ?_
  rw [h.short x (by rw [ht]; simp)] at hx
  simp at hx

/-- A character at the front of a masked source, other than a blank, is the first of the source. -/
private theorem front_char {k : Nat} {t w : Text} {c : Char} (hp : Plain (tiles t))
    (hc : isMarkChar c = false) (hs : isBlank c = false)
    (h : spell (number k (tiles t)) = c :: w) :
    ∃ cs, t = c :: cs ∧ tiles t = .plain c :: tiles cs ∧ w = spell (number k (tiles cs)) := by
  cases hp.front with
  | faint hf =>
      rw [spell_number] at h
      rw [hf.head_blank h] at hs
      simp at hs
  | @char d cs ht hf =>
      rw [hf, number, spell_char, List.cons.injEq] at h
      obtain ⟨rfl, rfl⟩ := h
      exact ⟨cs, ht, hf, rfl⟩
  | mark _ hf =>
      rw [hf, number, spell_mark, Mask.placeholder] at h
      simp only [List.cons_append, List.cons.injEq] at h
      exact absurd h.1 (Ne.symm (ne_opening_of_not_markChar hc))

/-- A run of equals signs at the front of a masked source is there in the source. -/
private theorem front_run {k level : Nat} {t w : Text} (hp : Plain (tiles t))
    (h : spell (number k (tiles t)) = List.replicate level '=' ++ w) :
    ∃ cs, t = List.replicate level '=' ++ cs ∧ Plain (tiles cs) ∧
      Mask.literalsOf (tiles t) = Mask.literalsOf (tiles cs) ∧
      w = spell (number k (tiles cs)) := by
  induction level generalizing t with
  | zero => exact ⟨t, rfl, hp, rfl, h.symm⟩
  | succ level ih =>
      rw [List.replicate_succ, List.cons_append] at h
      obtain ⟨cs, rfl, ht, hw⟩ := front_char hp (by decide) (by decide) h
      rw [ht] at hp
      obtain ⟨rest, rfl, hp', hl, rfl⟩ := ih hp.tail hw.symm
      exact ⟨rest, rfl, hp', by rw [ht]; exact hl, rfl⟩

/-- A placeholder at the front of a masked source stands for the literal that the source begins
with. -/
private theorem front_mark {k i : Nat} {t w : Text} (hp : Plain (tiles t))
    (h : spell (number k (tiles t)) = Mask.placeholder i ++ w) :
    i = k ∧ ∃ l rest, t = l ++ rest ∧ tiles t = .literal l :: tiles rest := by
  have hopen : Mask.placeholder i ++ w =
      Mask.opening :: (Nat.toDigits 10 i ++ Mask.closing :: w) := by simp [Mask.placeholder]
  cases hp.front with
  | faint hf =>
      rw [spell_number, hopen] at h
      exact absurd (hf.head_blank h) (by decide)
  | @char d cs ht hf =>
      rw [hf, number, spell_char, hopen, List.cons.injEq] at h
      exact absurd h.1 (hp.ne_opening (by rw [hf]; simp))
  | @mark l rest ht hf =>
      rw [hf, number, spell_mark] at h
      have hd := placeholder?_append k (spell (number (k + 1) (tiles rest)))
      rw [h, placeholder?_append, Option.some.injEq, Prod.mk.injEq] at hd
      have hi := congrArg Mask.index? hd.1
      rw [index?_toDigits, index?_toDigits, Option.some.injEq] at hi
      exact ⟨hi, l, rest, ht, hf⟩

/-- A lone character opens nothing together with the masked text after it. -/
private theorem not_opener_of_lone {before after literals : List Text} {c : Char} {cs w : Text}
    (hL : literals = before ++ Mask.literalsOf (tiles cs) ++ after) (hp : Plain (tiles cs))
    (hl : Tile.Lone c cs) (hw : Opener literals w) :
    ¬ w <+: c :: spell (number before.length (tiles cs)) := by
  intro hpre
  have second {d : Char} (hd : [d] <+: spell (number before.length (tiles cs)))
      (h1 : isMarkChar d = false) (h2 : isBlank d = false) : cs.head? = some d := by
    obtain ⟨r, hr⟩ := hd
    obtain ⟨cs', rfl, -⟩ := front_char hp h1 h2 hr.symm
    rfl
  cases hw with
  | single => exact hl.single (List.cons_prefix_cons.mp hpre).1.symm
  | double => exact hl.double (List.cons_prefix_cons.mp hpre).1.symm
  | dashes =>
      obtain ⟨hc, hd⟩ := List.cons_prefix_cons.mp hpre
      exact hl.dash hc.symm (second hd (by decide) (by decide))
  | slashes =>
      obtain ⟨hc, hd⟩ := List.cons_prefix_cons.mp hpre
      exact hl.slash hc.symm (second hd (by decide) (by decide))
  | slashStar =>
      obtain ⟨hc, hd⟩ := List.cons_prefix_cons.mp hpre
      exact hl.block hc.symm (second hd (by decide) (by decide))
  | bracket level =>
      obtain ⟨hc, r, hr⟩ := List.cons_prefix_cons.mp hpre
      subst hc
      rw [Tile.opener, List.append_assoc] at hr
      obtain ⟨cs', rfl, hp', -, hr'⟩ := front_run hp hr.symm
      obtain ⟨rest, rfl, -⟩ := front_char hp' (by decide) (by decide) hr'.symm
      have hlong : Tile.longBracket? ('[' :: (List.replicate level '=' ++ '[' :: rest)) = some _ :=
        Tile.longBracket?_eq_some.mpr ⟨level, rest, by simp [Tile.opener], rfl⟩
      rw [hl.bracket rfl] at hlong
      simp at hlong
  | @beforeLong level i l hi =>
      obtain ⟨hc, r, hr⟩ := List.cons_prefix_cons.mp hpre
      subst hc
      rw [List.append_assoc] at hr
      obtain ⟨cs', rfl, hp', hlit, hr'⟩ := front_run hp hr.symm
      obtain ⟨rfl, l', rest, rfl, ht⟩ := front_mark hp' hr'.symm
      -- the literal of that mark is the one that the source goes on with
      have hhead : literals[before.length]? = some l' := by
        rw [hL, hlit, ht, Mask.literalsOf]
        simp
      rw [hi, Option.some.injEq] at hhead
      have hlong : Tile.longBracket? ('[' :: (List.replicate level '=' ++ (l' ++ rest))) = some _ :=
        Tile.longBracket?_eq_some.mpr ⟨level, l ++ rest, by simp [Tile.opener, ← hhead], rfl⟩
      rw [hl.bracket rfl] at hlong
      simp at hlong

private theorem settled_from {literals : List Text} (t : Text) :
    ∀ before after, literals = before ++ Mask.literalsOf (tiles t) ++ after → Plain (tiles t) →
      Settled literals (spell (number before.length (tiles t))) := by
  refine Tile.tiles_induct (motive := fun t ts => ∀ before after,
    literals = before ++ Mask.literalsOf ts ++ after → Plain ts →
      Settled literals (spell (number before.length ts))) ?_ ?_ t
  · intro _ _ _ _ w hw hi
    obtain ⟨c, cs, rfl, -⟩ := hw.exists_cons
    simp [number] at hi
  · intro c body rest htext ih before after hL hp w hw hi
    have hv := Tile.view c (body ++ rest)
    generalize Tile.first c (body ++ rest) = x at htext hL hp hi hv
    obtain ⟨d, v, rfl, hmark, hblank⟩ := hw.exists_cons
    cases x with
    | plain e =>
        simp only [Tile.text, List.cons.injEq] at htext
        obtain ⟨rfl, rfl⟩ := htext
        cases hv with
        | plain hl =>
            rcases List.infix_cons_iff.mp hi with hpre | hin
            · exact not_opener_of_lone hL hp.tail hl hw hpre
            · exact ih before after hL hp.tail _ hw hin
    | literal l =>
        have hin := infix_of_append_marks hmark (fun e he => isMarkChar_placeholder he) hi
        have := ih (before ++ [l]) after (by simp [hL, Mask.literalsOf]) hp.tail _ hw
        rw [List.length_append, List.length_singleton] at this
        exact this hin
    | comment u => exact ih before after hL hp.tail _ hw hi
    | spaced u =>
        rcases List.infix_cons_iff.mp hi with hpre | hin
        · rw [(List.cons_prefix_cons.mp hpre).1] at hblank
          exact absurd hblank (by decide)
        · exact ih before after hL hp.tail _ hw hin

/-- The masked text of a source begins no string and no comment. -/
theorem settled_number {t : Text} (h : Plain (tiles t)) :
    Settled (Mask.literalsOf (tiles t)) (spell (number 0 (tiles t))) :=
  settled_from t [] [] (by simp) h

/-! ## The text that settled symbols stand for -/

/-- What a literal needs to be read again wherever it stands. -/
structure Fit (l : Text) : Prop where
  standing : Tile.Standing (.literal l)
  begins : ∃ d body, l = d :: body ∧ (d = '\'' ∨ d = '"' ∨ d = '[')

/-- Every mark stands for a literal that can be read again. -/
def Filled (literals : List Text) (s : List Symbol) : Prop :=
  ∀ i ∈ marks s, ∃ l, literals[i]? = some l ∧ Fit l

/-- The tile that a symbol stands for. -/
def tile (literals : List Text) : Symbol → Tile
  | char c => .plain c
  | mark i => .literal (literals[i]?.getD (Mask.placeholder i))

theorem Filled.tail {literals : List Text} {x : Symbol} {s : List Symbol}
    (h : Filled literals (x :: s)) : Filled literals s := by
  cases x with
  | char c => exact h
  | mark i => exact fun j hj => h j (List.mem_cons_of_mem _ hj)

/-- What a filled text begins with, other than a quote or a bracket, is a character of the code. -/
private theorem exists_char_of_fill {literals : List Text} {s : List Symbol} {c : Char} {t : Text}
    (hs : Filled literals s) (h1 : c ≠ '\'') (h2 : c ≠ '"') (h3 : c ≠ '[')
    (h : fill literals s = c :: t) : ∃ s', s = char c :: s' ∧ fill literals s' = t := by
  cases s with
  | nil => simp at h
  | cons x s =>
      cases x with
      | char d =>
          rw [fill_char, List.cons.injEq] at h
          exact ⟨s, by rw [h.1], h.2⟩
      | mark i =>
          obtain ⟨l, hi, -, d, body, rfl, hd⟩ := hs i (by simp [marks])
          rw [fill_mark, hi, Option.getD_some, List.cons_append, List.cons.injEq] at h
          rw [h.1] at hd
          exact absurd hd (by simp [h1, h2, h3])

private theorem exists_run_of_fill {literals : List Text} {s : List Symbol} {level : Nat} {t : Text}
    (hs : Filled literals s) (h : fill literals s = List.replicate level '=' ++ t) :
    ∃ s', spell s = List.replicate level '=' ++ spell s' ∧ fill literals s' = t ∧
      Filled literals s' := by
  induction level generalizing s with
  | zero => exact ⟨s, rfl, h, hs⟩
  | succ level ih =>
      rw [List.replicate_succ, List.cons_append] at h
      obtain ⟨s', rfl, h'⟩ := exists_char_of_fill hs (by decide) (by decide) (by decide) h
      obtain ⟨s'', hspell, hfill, hs''⟩ := ih hs.tail h'
      exact ⟨s'', by rw [spell_char, hspell]; rfl, hfill, hs''⟩

private theorem lone_of_settled {literals : List Text} {c : Char} {s : List Symbol}
    (h : Settled literals (spell (char c :: s))) (hs : Filled literals s) :
    Tile.Lone c (fill literals s) := by
  have front {w r : Text} (hw : Opener literals w) (hr : spell (char c :: s) = w ++ r) : False :=
    h w hw (hr ▸ (List.prefix_append w r).isInfix)
  have second {d : Char} (h1 : d ≠ '\'') (h2 : d ≠ '"') (h3 : d ≠ '[')
      (hd : (fill literals s).head? = some d) : ∃ s', s = char d :: s' := by
    obtain ⟨t, ht⟩ := List.head?_eq_some_iff.mp hd
    obtain ⟨s', rfl, -⟩ := exists_char_of_fill hs h1 h2 h3 ht
    exact ⟨s', rfl⟩
  refine ⟨?_, ?_, ?_, ?_, ?_, ?_⟩
  · rintro rfl
    exact front .single rfl
  · rintro rfl
    exact front .double rfl
  · rintro rfl
    cases hb : Tile.longBracket? ('[' :: fill literals s) with
    | none => rfl
    | some n =>
        obtain ⟨level, inside, ht, -⟩ := Tile.longBracket?_eq_some.mp hb
        rw [List.cons.injEq, Tile.opener, List.append_assoc] at ht
        obtain ⟨s', hspell, hfill, hs'⟩ := exists_run_of_fill hs ht.2
        cases s' with
        | nil => simp at hfill
        | cons x s' =>
            cases x with
            | char d =>
                rw [fill_char, List.singleton_append, List.cons.injEq] at hfill
                obtain ⟨rfl, -⟩ := hfill
                exact (front (.bracket level) (r := spell s')
                  (by rw [spell_char, hspell]; simp [Tile.opener])).elim
            | mark i =>
                obtain ⟨l, hi, -, d, body, rfl, -⟩ := hs' i (by simp [marks])
                rw [fill_mark, hi, Option.getD_some, List.singleton_append, List.cons_append,
                  List.cons.injEq] at hfill
                obtain ⟨rfl, -⟩ := hfill
                have hw : Opener literals ('[' :: (List.replicate level '=' ++ Mask.placeholder i)) :=
                  .beforeLong hi
                exact (front hw (r := spell s') (by rw [spell_char, hspell]; simp)).elim
  · rintro rfl hd
    obtain ⟨s', rfl⟩ := second (by decide) (by decide) (by decide) hd
    exact front .dashes rfl
  · rintro rfl hd
    obtain ⟨s', rfl⟩ := second (by decide) (by decide) (by decide) hd
    exact front .slashes rfl
  · rintro rfl hd
    obtain ⟨s', rfl⟩ := second (by decide) (by decide) (by decide) hd
    exact front .slashStar rfl

/-- The text that settled symbols stand for has them as its tiles. -/
theorem tiles_fill {literals : List Text} {s : List Symbol} (h : Settled literals (spell s))
    (hs : Filled literals s) : tiles (fill literals s) = s.map (tile literals) := by
  induction s with
  | nil => rfl
  | cons x s ih =>
      cases x with
      | char c =>
          rw [fill_char, Tile.tiles_lone (lone_of_settled h hs.tail),
            ih (Settled.of_append (s := [c]) h) hs.tail]
          rfl
      | mark i =>
          obtain ⟨l, hi, hl⟩ := hs i (by simp [marks])
          rw [spell_mark] at h
          have ht := hl.standing.tiles_append (fill literals s)
          rw [fill_mark, hi, Option.getD_some]
          rw [Tile.text] at ht
          rw [ht, ih h.of_append hs.tail, List.map_cons, tile, hi, Option.getD_some]

private theorem number_map_tile (literals : List Text) {s : List Symbol} {k : Nat}
    (h : marks s = List.range' k (marks s).length) : number k (s.map (tile literals)) = s := by
  induction s generalizing k with
  | nil => rfl
  | cons x s ih =>
      cases x with
      | char c => exact congrArg (char c :: ·) (ih h)
      | mark i =>
          rw [marks, List.length_cons, List.range'_succ, List.cons.injEq] at h
          rw [List.map_cons, tile, number, ih h.2, h.1]

private theorem literalsOf_map_tile (literals : List Text) (s : List Symbol) :
    Mask.literalsOf (s.map (tile literals)) =
      (marks s).map fun i => literals[i]?.getD (Mask.placeholder i) := by
  induction s with
  | nil => rfl
  | cons x s ih =>
      cases x with
      | char c => exact ih
      | mark i => exact congrArg (literals[i]?.getD (Mask.placeholder i) :: ·) ih

/-- Settled symbols with all their literals, each of them once and in order. -/
structure Proper (literals : List Text) (s : List Symbol) : Prop where
  legible : Legible s
  settled : Settled literals (spell s)
  marks_eq : marks s = List.range literals.length
  fit : ∀ l ∈ literals, Fit l

theorem Proper.tiles_fill {literals : List Text} {s : List Symbol} (h : Proper literals s) :
    tiles (fill literals s) = s.map (tile literals) := by
  refine Symbol.tiles_fill h.settled fun i hi => ?_
  rw [h.marks_eq, List.mem_range] at hi
  exact ⟨literals[i], List.getElem?_eq_getElem hi, h.fit _ (List.getElem_mem hi)⟩

/-- Masking the text that proper symbols stand for gives the symbols and the literals back. -/
theorem Proper.ofText_fill {literals : List Text} {s : List Symbol} (h : Proper literals s) :
    Mask.ofText (fill literals s) = ⟨spell s, literals⟩ := by
  have hrange : marks s = List.range' 0 (marks s).length := by
    rw [h.marks_eq, List.length_range, List.range_eq_range']
  rw [Mask.ofText, h.tiles_fill, ← spell_number, number_map_tile literals hrange,
    literalsOf_map_tile, h.marks_eq]
  congr 1
  refine List.ext_getElem (by simp) fun i h1 h2 => ?_
  simp [List.getElem?_eq_getElem h2]

theorem mem_literalsOf {ts : List Tile} {l : Text} :
    l ∈ Mask.literalsOf ts ↔ .literal l ∈ ts := by
  induction ts with
  | nil => simp [Mask.literalsOf]
  | cons x ts ih => cases x <;> simp [Mask.literalsOf, ih]

/-- The symbols of a source whose literals can be read again. -/
theorem proper_number {t : Text} (h : Plain (tiles t)) (hfit : ∀ l, .literal l ∈ tiles t → Fit l) :
    Proper (Mask.literalsOf (tiles t)) (number 0 (tiles t)) where
  legible := legible_number h.legible 0
  settled := settled_number h
  marks_eq := by rw [marks_number, List.range_eq_range']
  fit := fun l hl => hfit l (mem_literalsOf.mp hl)

/-- A closed literal of a source can be read again. -/
theorem fit_of_closed {t l : Text} (hl : .literal l ∈ tiles t)
    (h : (Tile.literal l).isClosed = true) : Fit l := by
  have hfirst : ∀ x ∈ tiles t, ∃ c cs, Tile.first c cs = x := by
    refine Tile.tiles_induct (motive := fun _ ts => ∀ x ∈ ts, ∃ c cs, Tile.first c cs = x)
      (by simp) (fun c body rest _ ih => ?_) t
    exact List.forall_mem_cons.mpr ⟨⟨c, body ++ rest, rfl⟩, ih⟩
  obtain ⟨c, cs, hx⟩ := hfirst _ hl
  obtain ⟨hstanding, hbegins⟩ := Tile.standing_literal hx h
  exact ⟨hstanding, hbegins⟩

end Stencil.Symbol
