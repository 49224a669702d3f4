import Stencil.Proofs.Mask.Spans
/-!
# Where comments stood

A dropped comment must not join the code around it. A line comment leaves the end of its line and a
block comment a blank. A comment written with a long bracket leaves nothing, so that what stands on
its two sides can grow together; where white space stands beside it, masking what was kept gives
the same code and the same literals again.
-/
namespace Stencil.Tile

/-! ## Literals and comments that are left open -/

/-- A string that its quote does not close ends before the end of the line. -/
private theorem drop_quotedLength (quote : Char) (t : Text) :
    closesQuote quote (t.take (quotedLength quote t)) = true ∨
      t.drop (quotedLength quote t) = [] ∨
        ∃ more, t.drop (quotedLength quote t) = '\n' :: more := by
  induction t using closesQuote.induct quote with
  | case1 => exact Or.inr (Or.inl rfl)
  | case2 => exact Or.inr (Or.inl rfl)
  | case3 d cs ih => exact ih
  | case4 cs => exact Or.inr (Or.inr ⟨cs, by simp [quotedLength_cons]⟩)
  | case5 cs hend hescape hline =>
      have hc := not_escape hend hescape
      simp [quotedLength_cons hc, closesQuote_cons hc, hline]
  | case6 c cs hend hescape hline hne ih =>
      have hc := not_escape hend hescape
      simpa [quotedLength_cons hc, closesQuote_cons hc, hline, hne] using ih

/-- A string that ends before the end of its line does so whatever the next lines hold. -/
private theorem quotedLength_line {quote : Char} {body more : Text}
    (h : quotedLength quote (body ++ '\n' :: more) = body.length) (other : Text) :
    quotedLength quote (body ++ '\n' :: other) = body.length := by
  induction body using closesQuote.induct quote with
  | case1 => simp [quotedLength_cons]
  | case2 => simp [quotedLength] at h
  | case3 d cs ih =>
      simp only [List.cons_append, quotedLength, List.length_cons] at h ⊢
      rw [ih (by omega)]
  | case4 cs => simp [quotedLength_cons] at h
  | case5 cs hend hescape hline =>
      have hc := not_escape hend hescape
      simpa [quotedLength_cons hc, hline] using h
  | case6 c cs hend hescape hline hne ih =>
      have hc := not_escape hend hescape
      simp only [List.cons_append, quotedLength_cons hc, if_neg hline, if_neg hne,
        List.length_cons, Nat.add_right_cancel_iff] at h ⊢
      exact ih h

/-- A long bracket that nothing closes runs to the end. -/
private theorem drop_bracketLength (level : Nat) (t : Text) :
    closesLong level (t.take (bracketLength level t)) = true ∨
      t.drop (bracketLength level t) = [] := by
  induction t with
  | nil => exact Or.inr rfl
  | cons c cs ih =>
      rw [bracketLength]
      split
      · rename_i hc
        rw [Bool.and_eq_true, closesBracket, List.isPrefixOf_iff_prefix] at hc
        have hlen : (List.replicate level '=' ++ [']']).length = level + 1 := by simp
        have htake := List.prefix_iff_eq_take.mp hc.2
        rw [hlen] at htake
        refine Or.inl ?_
        rw [List.take_succ_cons, closesLong, hc.1, closesBracket, List.isPrefixOf_iff_prefix.mpr]
        · rfl
        · exact htake ▸ List.prefix_rfl
      · rename_i hc
        rw [List.take_succ_cons, List.drop_succ_cons, closesLong]
        exact ih.imp_left fun h => by rw [h, Bool.or_true]

/-! ## Reading what is kept again -/

/-- What is kept of a source, its literals as they were. -/
def uncommented (t : Text) : Text := (kept (tiles t)).flatMap text

theorem uncommented_plain {c : Char} {t cs : Text} (h : tiles t = plain c :: tiles cs) :
    uncommented t = c :: uncommented cs := by
  rw [uncommented, h]
  rfl

theorem uncommented_literal {l t rest : Text} (h : tiles t = literal l :: tiles rest) :
    uncommented t = l ++ uncommented rest := by
  rw [uncommented, h]
  rfl

theorem Faint.uncommented_blank {t : Text} (h : Faint (kept (tiles t))) {c : Char} {w : Text}
    (ht : uncommented t = c :: w) : isBlank c = true := by
  rw [uncommented] at ht
  generalize kept (tiles t) = us at h ht
  cases h with
  | nil => simp at ht
  | blank hb =>
      rw [List.flatMap_cons, text, List.singleton_append, List.cons.injEq] at ht
      exact ht.1 ▸ hb

/-- Every comment written with a long bracket has white space beside it, or nothing is kept on one
of its sides. -/
def Parted (ts : List Tile) : Prop :=
  ∀ before x after, ts = before ++ x :: after → x.isLongComment = true →
    kept before = [] ∨ Faint (kept after) ∨
      ∃ c, isBlank c = true ∧ (kept before).getLast? = some (plain c)

theorem Parted.tail {x : Tile} {ts : List Tile} (h : Parted (x :: ts)) : Parted ts := by
  intro before y after hts hy
  have hsplit : kept (x :: before) = kept [x] ++ kept before := kept_append [x] before
  rcases h (x :: before) y after (by rw [hts]; rfl) hy with hnil | hfaint | ⟨c, hc, hlast⟩
  · exact Or.inl (List.append_eq_nil_iff.mp (hsplit ▸ hnil)).2
  · exact Or.inr (Or.inl hfaint)
  · rw [hsplit, List.getLast?_append, Option.or_eq_some_iff, List.getLast?_eq_none_iff] at hlast
    exact hlast.elim (fun h => Or.inr (Or.inr ⟨c, hc, h⟩)) fun h => Or.inl h.1

section Reading

variable {c d : Char} {t w : Text}

/-- After a character that is no white space the kept text goes on as the source does. -/
private theorem Parted.front (h : Parted (plain c :: tiles t)) (hc : isBlank c = false) :
    Front t := by
  refine Tile.front t fun x ts ht hx => ?_
  rcases h [plain c] x ts (by rw [ht]; rfl) hx with hnil | hfaint | ⟨d, hd, hlast⟩
  · simp [kept] at hnil
  · exact hfaint
  · obtain rfl : c = d := by simpa [kept] using hlast
    rw [hc] at hd
    simp at hd

theorem begins_of_literal {l : Text} {ts : List Tile} (h : tiles t = literal l :: ts) :
    ∃ d body, l = d :: body ∧ (d = '\'' ∨ d = '"' ∨ d = '[') := by
  cases t with
  | nil => simp [tiles, tilesFrom] at h
  | cons c cs =>
      have hfirst : first c cs = literal l := (List.cons.inj h).1
      have hv := view c cs
      rw [hfirst] at hv
      cases hv with
      | quoted hq => exact ⟨c, _, rfl, hq.imp_right Or.inl⟩
      | long _ _ => exact ⟨'[', _, rfl, Or.inr (Or.inr rfl)⟩

/-- A character of the kept text that begins no literal is the first of the source. -/
private theorem exists_char_of_uncommented (h : Parted (plain c :: tiles t))
    (hc : isBlank c = false) (hd : d ∉ ['\'', '"', '[']) (hblank : isBlank d = false)
    (ht : uncommented t = d :: w) :
    ∃ cs, t = d :: cs ∧ w = uncommented cs ∧ Parted (plain d :: tiles cs) := by
  cases h.front hc with
  | faint hf =>
      rw [hf.uncommented_blank ht] at hblank
      simp at hblank
  | @char e cs hcs hts =>
      rw [uncommented_plain hts, List.cons.injEq] at ht
      obtain ⟨rfl, rfl⟩ := ht
      exact ⟨cs, hcs, rfl, hts ▸ h.tail⟩
  | mark hl hts =>
      obtain ⟨e, body, rfl, he⟩ := begins_of_literal hts
      rw [uncommented_literal hts, List.cons_append, List.cons.injEq] at ht
      obtain ⟨rfl, -⟩ := ht
      exact absurd (by simpa using he) hd

/-- And so is a run of equals signs. -/
private theorem exists_run_of_uncommented {level : Nat} (h : Parted (plain c :: tiles t))
    (hc : isBlank c = false) (ht : uncommented t = List.replicate level '=' ++ w) :
    ∃ cs e, t = List.replicate level '=' ++ cs ∧ w = uncommented cs ∧ isBlank e = false ∧
      Parted (plain e :: tiles cs) := by
  induction level generalizing c t with
  | zero => exact ⟨t, c, rfl, ht.symm, hc, h⟩
  | succ level ih =>
      rw [List.replicate_succ, List.cons_append] at ht
      obtain ⟨cs, rfl, hw, h'⟩ := exists_char_of_uncommented h hc (by decide) (by decide) ht
      obtain ⟨rest, e, rfl, hrest⟩ := ih h' (by decide) hw.symm
      exact ⟨rest, e, rfl, hrest⟩

/-- A character that begins no token begins none when the comments are gone. -/
private theorem lone_uncommented (hl : Lone c t) (h : Parted (plain c :: tiles t)) :
    Lone c (uncommented t) := by
  by_cases hc : isBlank c = true
  · have hne {d : Char} (hd : isBlank d = false) : c ≠ d := fun he => by simp [← he, hc] at hd
    exact ⟨hl.single, hl.double, fun e => absurd e (hne (by decide)),
      fun e => absurd e (hne (by decide)), fun e => absurd e (hne (by decide)),
      fun e => absurd e (hne (by decide))⟩
  · rw [Bool.not_eq_true] at hc
    have second {d : Char} (hd : d ∉ ['\'', '"', '[']) (hblank : isBlank d = false)
        (hhead : t.head? ≠ some d) : (uncommented t).head? ≠ some d := by
      intro he
      obtain ⟨w, hw⟩ := List.head?_eq_some_iff.mp he
      obtain ⟨cs, rfl, -⟩ := exists_char_of_uncommented h hc hd hblank hw
      exact hhead rfl
    refine ⟨hl.single, hl.double, fun he => ?_,
      fun he => second (by decide) (by decide) (hl.dash he),
      fun he => second (by decide) (by decide) (hl.slash he),
      fun he => second (by decide) (by decide) (hl.block he)⟩
    cases hb : longBracket? (c :: uncommented t) with
    | none => rfl
    | some n =>
        obtain ⟨level, inside, hopen, -⟩ := longBracket?_eq_some.mp hb
        rw [List.cons.injEq, opener, List.append_assoc] at hopen
        obtain ⟨cs, e, rfl, hw, he', h'⟩ := exists_run_of_uncommented h hc hopen.2
        -- the second bracket of the opening is there in the source as well
        have hbracket : ∃ more, cs = '[' :: more := by
          cases h'.front he' with
          | faint hf => exact absurd (hf.uncommented_blank hw.symm) (by decide)
          | @char d more hcs hts =>
              rw [uncommented_plain hts, List.singleton_append, List.cons.injEq] at hw
              exact ⟨more, by rw [hcs, hw.1]⟩
          | @mark l rest hcs hts =>
              obtain ⟨d, body, rfl, -⟩ := begins_of_literal hts
              rw [uncommented_literal hts, List.singleton_append, List.cons_append,
                List.cons.injEq] at hw
              exact ⟨body ++ rest, by rw [hcs, hw.1]; rfl⟩
        obtain ⟨more, rfl⟩ := hbracket
        have hsome : longBracket? (c :: (List.replicate level '=' ++ '[' :: more)) = some _ :=
          longBracket?_eq_some.mpr ⟨level, more, by rw [he]; simp [opener], rfl⟩
        rw [hl.bracket he] at hsome
        simp at hsome

/-- A literal is read again from what is kept. -/
private theorem tiles_literal {l rest : Text} (h : tiles (l ++ rest) = literal l :: tiles rest) :
    tiles (l ++ uncommented rest) = literal l :: tiles (uncommented rest) := by
  obtain ⟨q, body, rfl, -⟩ := begins_of_literal h
  have hfirst : first q (body ++ rest) = literal (q :: body) := (List.cons.inj h).1
  -- it is enough that the tile that begins there is the same
  have same (hx : first q (body ++ uncommented rest) = literal (q :: body)) :
      tiles (q :: body ++ uncommented rest) = literal (q :: body) :: tiles (uncommented rest) := by
    rw [List.cons_append, tiles_cons (by rw [hx]; rfl), hx]
  by_cases hclosed : (literal (q :: body)).isClosed = true
  · exact (standing_literal hfirst hclosed).1.tiles_append _
  · have hv := view q (body ++ rest)
    rw [hfirst] at hv
    generalize hcs : body ++ rest = cs at hv
    cases hv with
    | quoted hq =>
        rw [isClosed_quoted hq] at hclosed
        have hdrop := (drop_quotedLength q cs).resolve_left hclosed
        rw [← eq_drop_of_take_append hcs] at hdrop
        generalize cs.take (quotedLength q cs) = body at hcs hfirst same
        rcases hdrop with rfl | ⟨more, rfl⟩
        · exact same hfirst
        · rw [first_quoted hq, literal.injEq, List.cons.injEq] at hfirst
          rw [uncommented_plain (tiles_line more)] at same ⊢
          have hlen : quotedLength q (body ++ '\n' :: more) = body.length := by
            have := congrArg List.length hfirst.2
            simp only [List.length_take, List.length_append, List.length_cons] at this
            omega
          refine same ?_
          rw [first_quoted hq, quotedLength_line hlen, List.take_left]
    | @long level inside _ hopen =>
        rw [isClosed_long] at hclosed
        have hdrop := (drop_bracketLength level inside).resolve_left hclosed
        obtain rfl : rest = [] := by
          rw [hopen, List.append_assoc] at hcs
          rw [eq_drop_of_take_append (List.append_cancel_left hcs), hdrop]
        exact same hfirst

end Reading

/-- The tiles of what is kept are the tiles that were kept. -/
theorem tiles_uncommented (t : Text) (h : Parted (tiles t)) :
    tiles (uncommented t) = kept (tiles t) := by
  refine tiles_induct (motive := fun t ts => Parted ts →
    tiles ((kept ts).flatMap text) = kept ts) (fun _ => rfl) ?_ t h
  intro c body rest htext ih h
  have hts := tiles_cons htext
  have hv := view c (body ++ rest)
  generalize first c (body ++ rest) = x at htext h hts hv
  cases x with
  | plain d =>
      simp only [text, List.cons.injEq] at htext
      obtain ⟨rfl, rfl⟩ := htext
      cases hv with
      | plain hl =>
          rw [kept, List.flatMap_cons]
          exact (tiles_lone (lone_uncommented hl h)).trans (congrArg _ (ih h.tail))
  | literal l =>
      simp only [text] at htext
      subst htext
      rw [kept, List.flatMap_cons]
      exact (tiles_literal hts).trans (congrArg _ (ih h.tail))
  | comment u => exact ih h.tail
  | spaced u =>
      rw [kept, List.flatMap_cons]
      exact (tiles_code (s := [' ']) (by decide) _).trans (congrArg _ (ih h.tail))

/-- A dropped comment leaves white space, or nothing after it, unless a long bracket closes it. -/
theorem faint_comment {t : Text} {us : List Tile} {x : Tile} {vs : List Tile}
    (ht : tiles t = us ++ x :: vs) (hx : x.isComment = true)
    (hlong : (x.isLongComment && x.isClosed) = false) : Faint (kept (x :: vs)) := by
  refine tiles_induct (motive := fun _ ts => ∀ us, ts = us ++ x :: vs → Faint (kept (x :: vs)))
    (fun us hus => by simp at hus) (fun c body rest htext ih us hus => ?_) t us ht
  cases us with
  | cons y us => exact ih us (List.cons.inj hus).2
  | nil =>
      rw [List.nil_append, List.cons.injEq] at hus
      obtain ⟨hfirst, rfl⟩ := hus
      have hv := view c (body ++ rest)
      rw [hfirst] at hv htext
      generalize hcs : body ++ rest = cs at hv
      cases hv with
      | plain _ => simp [isComment] at hx
      | quoted _ => simp [isComment] at hx
      | long _ _ => simp [isComment] at hx
      | @longComment level inside _ hopen =>
          have hcomment : isLongComment (.comment ('-' :: '-' :: '[' ::
              (opener level ++ inside.take (bracketLength level inside)))) = true := by
            rw [isLongComment, longBracket?_eq_some.mpr ⟨_, _, rfl, rfl⟩]
            rfl
          rw [hcomment, Bool.true_and, isClosed_longComment] at hlong
          have hdrop := (drop_bracketLength level inside).resolve_left (by simp [hlong])
          simp only [text, List.cons.injEq] at htext
          rw [hopen, ← htext.2] at hcs
          simp only [List.cons_append, List.append_assoc, List.cons.injEq, true_and,
            List.append_cancel_left_eq] at hcs
          rw [eq_drop_of_take_append hcs, hdrop]
          exact .nil
      | lineComment _ hline _ =>
          simp only [text, List.cons.injEq] at htext
          rw [← htext.2, hline, List.cons_append, List.cons.injEq] at hcs
          rw [eq_drop_of_take_append hcs.2]
          exact faint_drop_line _
      | slashComment _ hline =>
          simp only [text, List.cons.injEq] at htext
          rw [← htext.2, hline, List.cons_append, List.cons.injEq] at hcs
          rw [eq_drop_of_take_append hcs.2]
          exact faint_drop_line _
      | blockComment _ _ => exact .blank (by decide)

end Stencil.Tile

namespace Stencil.Mask

open Tile

/-- The masked text of the first so many tiles of a source. -/
def before (source : Text) (i : Nat) : Text := textFrom 0 ((tiles source).take i)

/-- The masked text of the other tiles of a source. -/
def since (source : Text) (i : Nat) : Text :=
  textFrom (literalsOf ((tiles source).take i)).length ((tiles source).drop i)

theorem before_append_since (source : Text) (i : Nat) :
    before source i ++ since source i = (ofText source).text := by
  have h := Symbol.textFrom_append 0 ((tiles source).take i) ((tiles source).drop i)
  rw [List.take_append_drop, Nat.zero_add] at h
  exact h.symm

/-- White space stands where two texts meet, or one of them is empty. -/
def Apart (u v : Text) : Prop :=
  u = [] ∨ v = [] ∨ (∃ c ∈ u.getLast?, isBlank c = true) ∨ ∃ c ∈ v.head?, isBlank c = true

instance (u v : Text) : Decidable (Apart u v) :=
  -- the one character there may be, not all characters, decides the last two cases
  let _ : Decidable (∃ c ∈ u.getLast?, isBlank c = true) := Option.decidableExistsMem _
  let _ : Decidable (∃ c ∈ v.head?, isBlank c = true) := Option.decidableExistsMem _
  inferInstanceAs (Decidable (_ ∨ _ ∨ _ ∨ _))

theorem apart_of_faint (u : Text) {ts : List Tile} (h : Faint (kept ts)) (k : Nat) :
    Apart u (textFrom k ts) := by
  cases ht : textFrom k ts with
  | nil => exact Or.inr (Or.inl rfl)
  | cons c w => exact Or.inr (Or.inr (Or.inr ⟨c, rfl, h.head_blank ht⟩))

private theorem eq_nil_of_textFrom {ts : List Tile} (hcode : ∀ x ∈ ts, x.isComment = false)
    {k : Nat} (h : textFrom k ts = []) : ts = [] := by
  cases ts with
  | nil => rfl
  | cons x ts =>
      have hx := hcode x List.mem_cons_self
      cases x with
      | plain c => simp [textFrom] at h
      | literal l => simp [textFrom, placeholder] at h
      | comment t => simp [isComment] at hx
      | spaced t => simp [isComment] at hx

private theorem faint_of_head? {ts : List Tile} (hcode : ∀ x ∈ ts, x.isComment = false) {k : Nat}
    {c : Char} (hc : (textFrom k ts).head? = some c) (hblank : isBlank c = true) : Faint ts := by
  cases ts with
  | nil => exact .nil
  | cons x ts =>
      have hx := hcode x List.mem_cons_self
      cases x with
      | plain d => exact .blank (Option.some.inj hc ▸ hblank)
      | literal l =>
          obtain rfl : opening = c := Option.some.inj hc
          exact absurd hblank (by decide)
      | comment t => simp [isComment] at hx
      | spaced t => simp [isComment] at hx

private theorem getLast?_of_textFrom {ts : List Tile} (hcode : ∀ x ∈ ts, x.isComment = false)
    {k : Nat} {c : Char} (hc : (textFrom k ts).getLast? = some c) (hblank : isBlank c = true) :
    ts.getLast? = some (.plain c) := by
  rcases List.eq_nil_or_concat ts with rfl | ⟨init, x, rfl⟩
  · simp [textFrom] at hc
  · rw [List.concat_eq_append] at hcode hc ⊢
    have hx := hcode x (by simp)
    rw [Symbol.textFrom_append] at hc
    cases x with
    | plain d =>
        obtain rfl : d = c := by simpa [textFrom] using hc
        simp
    | literal l =>
        have hlast (n : Nat) : (placeholder n).getLast? = some closing := List.getLast?_concat
        rw [textFrom, textFrom, List.append_nil, List.getLast?_append, hlast] at hc
        obtain rfl : closing = c := Option.some.inj hc
        exact absurd hblank (by decide)
    | comment t => simp [isComment] at hx
    | spaced t => simp [isComment] at hx

/-- What is apart in the masked text is apart among the tiles. -/
theorem kept_of_apart {us vs : List Tile} {j k : Nat} (h : Apart (textFrom j us) (textFrom k vs)) :
    kept us = [] ∨ Faint (kept vs) ∨
      ∃ c, isBlank c = true ∧ (kept us).getLast? = some (.plain c) := by
  rw [← textFrom_kept j, ← textFrom_kept k] at h
  have hcode (ts : List Tile) : ∀ x ∈ kept ts, x.isComment = false := fun _ => isComment_of_mem_kept
  rcases h with hu | hv | ⟨c, hc, hblank⟩ | ⟨c, hc, hblank⟩
  · exact Or.inl (eq_nil_of_textFrom (hcode us) hu)
  · exact Or.inr (Or.inl (by rw [eq_nil_of_textFrom (hcode vs) hv]; exact .nil))
  · exact Or.inr (Or.inr ⟨c, hblank, getLast?_of_textFrom (hcode us) hc hblank⟩)
  · exact Or.inr (Or.inl (faint_of_head? (hcode vs) hc hblank))

/-- Restoring the masked text leaves the source without its comments. -/
theorem restore_text {source : Text} (h : Tile.plain opening ∉ tiles source) :
    (ofText source).restore (ofText source).text = uncommented source := by
  have hfill := @fill_number [] [] (kept (tiles source)) fun _ => isComment_of_mem_kept
  rw [List.nil_append, List.append_nil, literalsOf_kept, number_kept] at hfill
  rw [ofText, ← Symbol.spell_number, Symbol.restore_spell _ (Symbol.legible_number h 0)]
  exact hfill

theorem ofText_restore {source : Text} (h : opening ∉ source) (hp : Parted (tiles source)) :
    ofText ((ofText source).restore (ofText source).text) = ofText source := by
  have hlegible : Tile.plain opening ∉ tiles source := by
    intro hmem
    have := List.mem_flatMap_of_mem hmem (show opening ∈ Tile.text (.plain opening) by simp [Tile.text])
    rw [flatMap_text] at this
    exact h this
  rw [restore_text hlegible, ofText, tiles_uncommented source hp, textFrom_kept, literalsOf_kept,
    ofText]

/-- A comment parts the code before it from the code after it, unless a long bracket closes it. Where
those are parted as well, masking what is kept gives the same code and literals again. -/
theorem comments_part_code {source : Text} (h : opening ∉ source) :
    (∀ (i : Nat) (hi : i < (tiles source).length), (tiles source)[i].isComment = true →
      ((tiles source)[i].isLongComment && (tiles source)[i].isClosed) = false →
        Apart (before source i) (since source i)) ∧
    ((∀ (i : Nat) (hi : i < (tiles source).length),
      ((tiles source)[i].isLongComment && (tiles source)[i].isClosed) = true →
        Apart (before source i) (since source i)) →
      ofText ((ofText source).restore (ofText source).text) = ofText source) := by
  have split (i : Nat) (hi : i < (tiles source).length) :
      tiles source = (tiles source).take i ++ (tiles source)[i] :: (tiles source).drop (i + 1) := by
    rw [List.getElem_cons_drop, List.take_append_drop]
  refine ⟨fun i hi hcomment hlong => ?_, fun hlong => ofText_restore h ?_⟩
  · have hfaint := faint_comment (split i hi) hcomment hlong
    rw [List.getElem_cons_drop] at hfaint
    exact apart_of_faint _ hfaint _
  · intro us x vs hts hx
    obtain ⟨t, rfl⟩ : ∃ t, x = .comment t := by
      cases x with
      | comment t => exact ⟨t, rfl⟩
      | _ => simp [isLongComment] at hx
    by_cases hclosed : (Tile.comment t).isClosed = true
    · obtain ⟨hi, hget⟩ : ∃ hi : us.length < (tiles source).length,
          (tiles source)[us.length] = .comment t :=
        List.getElem?_eq_some_iff.mp (by rw [hts]; simp)
      have happart := hlong us.length hi (by rw [hget, hx, hclosed]; rfl)
      rw [before, since, hts, List.take_left, List.drop_left, textFrom] at happart
      exact kept_of_apart happart
    · exact Or.inr (Or.inl (faint_comment hts rfl (by simp [hclosed])))

theorem comments_part_code_mixed :
    let source := "x = \"a--b\" --[[ c ]]+ y/* d */'e // f\nz = 1 -- g\n--[==[ h".toList
    opening ∉ source ∧
      (∀ (i : Nat) (hi : i < (tiles source).length),
        ((tiles source)[i].isLongComment && (tiles source)[i].isClosed) = true →
          Apart (before source i) (since source i)) ∧
      ofText ((ofText source).restore (ofText source).text) = ofText source :=
  ⟨by decide, by decide, (comments_part_code (by decide)).2 (by decide)⟩

/-- A comment in a long bracket joins two names to one, and two slashes to a comment. -/
theorem long_comment_joins_code :
    let names := "a--[[x]]b".toList
    let slashes := "a /--[[x]]/ b".toList
    opening ∉ names ++ slashes ∧
      (∃ hi : 1 < (tiles names).length, (tiles names)[1].isComment = true ∧
        ¬ Apart (before names 1) (since names 1)) ∧
      ofText ((ofText slashes).restore (ofText slashes).text) ≠ ofText slashes :=
  ⟨by decide, by decide, by decide⟩

end Stencil.Mask
