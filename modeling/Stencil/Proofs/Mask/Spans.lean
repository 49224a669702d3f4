import Stencil.Proofs.Mask.Renumber
/-!
# Sources put together from spans

A span is code without comments between two stretches of plain characters. The masked text of a list of
spans is that of each, with the literals numbered through, and restoring it gives the source back.
-/
namespace Stencil

open Tile Symbol

/-! ## Code without comments -/

section Code

variable {ts : List Tile}

theorem Symbol.plain_of_code (h : ∀ x ∈ ts, x.isComment = false)
    (hlegible : .plain Mask.opening ∉ ts) : Plain ts := by
  refine ⟨fun x hx => ?_, hlegible⟩
  have hcode := h x hx
  cases x with
  | comment t => simp [isComment] at hcode
  | _ => rfl

/-- A masked text begins as its code does, or with a placeholder. -/
theorem head?_textFrom (h : ∀ x ∈ ts, x.isComment = false) (k : Nat) :
    (Mask.textFrom k ts).head? = (ts.flatMap text).head? ∨
      (Mask.textFrom k ts).head? = some Mask.opening := by
  cases ts with
  | nil => exact Or.inl rfl
  | cons x ts =>
      have hcode := h x List.mem_cons_self
      cases x with
      | plain c => exact Or.inl rfl
      | literal l => exact Or.inr rfl
      | comment t => simp [isComment] at hcode
      | spaced t => simp [isComment] at hcode

/-- And it ends as its code does, or with a placeholder. -/
theorem head?_reverse_textFrom (h : ∀ x ∈ ts, x.isComment = false) (k : Nat) :
    (Mask.textFrom k ts).reverse.head? = (ts.flatMap text).reverse.head? ∨
      (Mask.textFrom k ts).reverse.head? = some Mask.closing := by
  rcases List.eq_nil_or_concat ts with rfl | ⟨init, x, rfl⟩
  · exact Or.inl rfl
  · have hcode := h x (by simp)
    rw [List.concat_eq_append, textFrom_append, List.flatMap_append, List.reverse_append,
      List.reverse_append]
    cases x with
    | plain c => exact Or.inl rfl
    | literal l =>
        refine Or.inr ?_
        simp [Mask.textFrom, Mask.placeholder]
    | comment t => simp [isComment] at hcode
    | spaced t => simp [isComment] at hcode

theorem flush_textFrom (h : ∀ x ∈ ts, x.isComment = false) (hflush : Text.Flush (ts.flatMap text))
    (k : Nat) : Text.Flush (Mask.textFrom k ts) := by
  intro c hc
  rcases head?_textFrom h k with he | he <;> rw [he] at hc
  · exact hflush c hc
  · cases hc
    decide

theorem flush_reverse_textFrom (h : ∀ x ∈ ts, x.isComment = false)
    (hflush : Text.Flush (ts.flatMap text).reverse) (k : Nat) :
    Text.Flush (Mask.textFrom k ts).reverse := by
  intro c hc
  rcases head?_reverse_textFrom h k with he | he <;> rw [he] at hc
  · exact hflush c hc
  · cases hc
    decide

end Code

/-- Code without comments, its literals closed and told apart from the rest. -/
structure ClosedCode (t : Text) : Prop where
  closed : ∀ x ∈ tiles t, x.isClosed = true
  code : ∀ x ∈ tiles t, x.isComment = false
  legible : .plain Mask.opening ∉ tiles t

instance (t : Text) : Decidable (ClosedCode t) :=
  decidable_of_iff ((∀ x ∈ tiles t, x.isClosed = true) ∧ (∀ x ∈ tiles t, x.isComment = false) ∧
    .plain Mask.opening ∉ tiles t) ⟨fun ⟨h1, h2, h3⟩ => ⟨h1, h2, h3⟩, fun h => ⟨h.1, h.2, h.3⟩⟩

/-! ## Restoring -/

theorem fill_number {before after : List Text} {ts : List Tile}
    (h : ∀ x ∈ ts, x.isComment = false) :
    fill (before ++ (Mask.literalsOf ts ++ after)) (number before.length ts) =
      ts.flatMap Tile.text := by
  induction ts generalizing before with
  | nil => rfl
  | cons x ts ih =>
      have hrest : ∀ y ∈ ts, y.isComment = false := fun y hy => h y (by simp [hy])
      cases x with
      | plain c => exact congrArg (c :: ·) (ih hrest)
      | literal l =>
          have hlater := @ih (before ++ [l]) hrest
          rw [List.length_append, List.length_singleton, List.append_assoc] at hlater
          rw [number, fill_mark, Mask.literalsOf, List.cons_append, ← List.singleton_append, hlater,
            List.getElem?_append_right (Nat.le_refl _), Nat.sub_self]
          rfl
      | comment t => exact absurd (h _ List.mem_cons_self) (by simp [isComment])
      | spaced t => exact absurd (h _ List.mem_cons_self) (by simp [isComment])

/-- Restoring the masked text of tiles without comments gives what they cover. -/
theorem restore_textFrom {m : Mask} {ts : List Tile} (hcode : ∀ x ∈ ts, x.isComment = false)
    (hlegible : .plain Mask.opening ∉ ts) (hm : m.literals = Mask.literalsOf ts) :
    m.restore (Mask.textFrom 0 ts) = ts.flatMap Tile.text := by
  have hfill := @fill_number [] [] ts hcode
  rw [List.nil_append, List.append_nil] at hfill
  rw [← spell_number, restore_spell m (legible_number hlegible 0), hm]
  exact hfill

/-- The masked text of closed code restores to the code. -/
theorem ClosedCode.restore {t : Text} (h : ClosedCode t) {m : Mask}
    (hm : m.literals = (Mask.ofText t).literals) : m.restore (Mask.ofText t).text = t := by
  rw [Mask.ofText, restore_textFrom h.code h.legible hm, flatMap_text]

/-! ## White space around closed code -/

section Blanks

variable {t b : Text}

private theorem tiles_blank (hb : Text.Blank b) (t : Text) :
    tiles (b ++ t) = b.map .plain ++ tiles t :=
  tiles_code (fun c hc => isLone_of_blank (hb c hc)) t

private theorem closed_of_mem {s : Text} (h : ClosedCode s) (hsub : ∀ x ∈ tiles t, x ∈ tiles s) :
    ClosedCode t :=
  ⟨fun x hx => h.closed x (hsub x hx), fun x hx => h.code x (hsub x hx),
    fun hmem => h.legible (hsub _ hmem)⟩

private theorem tiles_append_blank (hb : Text.Blank b) (h : ClosedCode (t ++ b)) :
    tiles (t ++ b) = tiles t ++ b.map .plain := by
  obtain ⟨hclosed, hcode⟩ := closed_of_append_blank hb h.closed h.code
  have hback := tiles_blank hb []
  rw [List.append_nil, show tiles [] = [] from rfl, List.append_nil] at hback
  rw [tiles_append_code (breaks_of_blank hb) hclosed hcode, hback]

/-- Trimming the end of closed code trims the end of its tiles. -/
theorem ClosedCode.exists_trimEnd (h : ClosedCode t) : ∃ b, Text.Blank b ∧
    t = Text.trimEnd t ++ b ∧ ClosedCode (Text.trimEnd t) ∧
      tiles t = tiles (Text.trimEnd t) ++ b.map .plain := by
  obtain ⟨b, hb, ht⟩ := Text.exists_trimEnd_blank t
  rw [ht] at h
  have htiles := tiles_append_blank hb h
  refine ⟨b, hb, ht, closed_of_mem h fun x hx => ?_, by rwa [← ht] at htiles⟩
  rw [htiles]
  exact List.mem_append_left _ hx

/-- Trimming closed code trims its tiles. -/
theorem ClosedCode.exists_trim (h : ClosedCode t) : ∃ b b', Text.Blank b ∧ Text.Blank b' ∧
    t = b ++ (Text.trim t ++ b') ∧ ClosedCode (Text.trim t) ∧
      tiles t = b.map .plain ++ (tiles (Text.trim t) ++ b'.map .plain) := by
  obtain ⟨b, hb, ht⟩ := Text.exists_blank_trimStart t
  have hfront := tiles_blank hb (Text.trimStart t)
  rw [← ht] at hfront
  have hstart : ClosedCode (Text.trimStart t) := closed_of_mem h fun x hx => by
    rw [hfront]
    exact List.mem_append_right _ hx
  obtain ⟨b', hb', ht', hclosed, hback⟩ := hstart.exists_trimEnd
  refine ⟨b, b', hb, hb', ?_, hclosed, ?_⟩
  · rw [Text.trim, ← ht', ← ht]
  · rw [hfront, hback, Text.trim]

theorem ClosedCode.trim (h : ClosedCode t) : ClosedCode (Text.trim t) := by
  obtain ⟨-, -, -, -, -, hclosed, -⟩ := h.exists_trim
  exact hclosed

/-- The masked text of the code without the white space around it. -/
theorem ClosedCode.trim_textFrom (h : ClosedCode t) (k : Nat) :
    Text.trim (Mask.textFrom k (tiles t)) = Mask.textFrom k (tiles (Text.trim t)) := by
  obtain ⟨b, b', hb, hb', -, hclosed, htiles⟩ := h.exists_trim
  have hfront := flush_textFrom hclosed.code (by rw [flatMap_text]; exact Text.flush_trim t) k
  have hback := flush_reverse_textFrom hclosed.code
    (by rw [flatMap_text]; exact Text.flush_reverse_trimEnd _) k
  rw [htiles, textFrom_append, textFrom_append, textFrom_plain, textFrom_plain, literalsOf_plain]
  exact Text.trim_between hb hb' hfront hback

/-- Trimming takes no literal. -/
theorem ClosedCode.literals_trim (h : ClosedCode t) :
    (Mask.ofText (Text.trim t)).literals = (Mask.ofText t).literals := by
  obtain ⟨b, b', -, -, -, -, htiles⟩ := h.exists_trim
  simp only [Mask.ofText]
  rw [htiles, literalsOf_append, literalsOf_append, literalsOf_plain, literalsOf_plain,
    List.nil_append, List.append_nil]

/-- Trimming the masked text and restoring it trims the code. -/
theorem ClosedCode.restore_trimEnd (h : ClosedCode t) {m : Mask}
    (hm : m.literals = (Mask.ofText t).literals) :
    m.restore (Text.trimEnd (Mask.ofText t).text) = Text.trimEnd t := by
  obtain ⟨b, hb, ht, hclosed, htiles⟩ := h.exists_trimEnd
  have htext : (Mask.ofText t).text = (Mask.ofText (Text.trimEnd t)).text ++ b := by
    rw [Mask.ofText, htiles, textFrom_append, textFrom_plain]
    rfl
  have hliterals : (Mask.ofText t).literals = (Mask.ofText (Text.trimEnd t)).literals := by
    rw [Mask.ofText, htiles]
    dsimp only
    rw [literalsOf_append, literalsOf_plain, List.append_nil]
    rfl
  have hback : Text.Flush (Mask.ofText (Text.trimEnd t)).text.reverse :=
    flush_reverse_textFrom hclosed.code (by rw [flatMap_text]; exact Text.flush_reverse_trimEnd t) 0
  rw [htext, Text.trimEnd_append_blank _ hb, Text.trimEnd_of_flush hback]
  exact hclosed.restore (hm.trans hliterals)

end Blanks

theorem closedCode_nil : ClosedCode [] := by decide

/-! ## Spans -/

/-- Code with plain characters around it. -/
structure Span where
  front : Text
  inner : Text
  back : Text

namespace Span

def text (s : Span) : Text := s.front ++ (s.inner ++ s.back)

def masked (k : Nat) (s : Span) : Text :=
  s.front ++ (Mask.textFrom k (tiles s.inner) ++ s.back)

def literals (s : Span) : List Text := Mask.literalsOf (tiles s.inner)

/-- Whether the character stands for itself in a masked text, whatever follows it. -/
def isPlain (c : Char) : Bool := isLone c && c != Mask.opening

theorem isPlain_of_blank {c : Char} (h : isBlank c = true) : isPlain c = true := by
  rw [isPlain, Bool.and_eq_true, bne_iff_ne]
  refine ⟨isLone_of_blank h, ?_⟩
  rintro rfl
  exact absurd h (by decide)

/-- The code is closed and without comments, and what follows lengthens no tile of it. -/
structure Good (s : Span) : Prop where
  front : ∀ c ∈ s.front, isPlain c = true
  back : ∀ c ∈ s.back, isPlain c = true
  inner : ClosedCode s.inner
  breaks : s.inner = [] ∨ s.back ≠ [] ∧ Breaks s.back

/-- The tiles of the span. -/
def tiling (s : Span) : List Tile :=
  s.front.map .plain ++ (Stencil.tiles s.inner ++ s.back.map .plain)

/-- The masked text of spans, their literals numbered through from an index on. -/
def maskedAll : Nat → List Span → Text
  | _, [] => []
  | k, s :: rest => s.masked k ++ maskedAll (k + s.literals.length) rest

private theorem lone_of_plain {t : Text} (h : ∀ c ∈ t, isPlain c = true) :
    ∀ c ∈ t, isLone c = true := by
  intro c hc
  have := h c hc
  rw [isPlain, Bool.and_eq_true] at this
  exact this.1

private theorem tiles_span {s : Span} (h : s.Good) (rest : Text) :
    Stencil.tiles (s.text ++ rest) = s.tiling ++ Stencil.tiles rest := by
  have hback := tiles_code (lone_of_plain h.back) rest
  have hinner : Stencil.tiles (s.inner ++ (s.back ++ rest)) =
      Stencil.tiles s.inner ++ Stencil.tiles (s.back ++ rest) := by
    rcases h.breaks with hnil | ⟨hne, hbreaks⟩
    · rw [hnil]
      rfl
    · obtain ⟨d, ds, hd⟩ := List.exists_cons_of_ne_nil hne
      rw [hd] at hbreaks ⊢
      exact tiles_append_code hbreaks h.inner.closed h.inner.code
  rw [text, List.append_assoc, List.append_assoc, tiles_code (lone_of_plain h.front), hinner, hback,
    tiling, List.append_assoc, List.append_assoc]

theorem tiles_spans {spans : List Span} (h : ∀ s ∈ spans, s.Good) :
    Stencil.tiles (spans.flatMap text) = spans.flatMap tiling := by
  induction spans with
  | nil => rfl
  | cons s rest ih =>
      rw [List.flatMap_cons, List.flatMap_cons, tiles_span (h s (by simp)),
        ih fun r hr => h r (by simp [hr])]

private theorem textFrom_tiling (k : Nat) (s : Span) :
    Mask.textFrom k s.tiling = s.masked k ∧ Mask.literalsOf s.tiling = s.literals := by
  rw [tiling, textFrom_append, textFrom_append, textFrom_plain, textFrom_plain, literalsOf_append,
    literalsOf_append, literalsOf_plain, literalsOf_plain]
  simp [masked, literals]

private theorem textFrom_spans (k : Nat) (spans : List Span) :
    Mask.textFrom k (spans.flatMap tiling) = maskedAll k spans ∧
      Mask.literalsOf (spans.flatMap tiling) = spans.flatMap literals := by
  induction spans generalizing k with
  | nil => exact ⟨rfl, rfl⟩
  | cons s rest ih =>
      obtain ⟨htext, hliterals⟩ := textFrom_tiling k s
      rw [List.flatMap_cons, textFrom_append, literalsOf_append, htext, hliterals, (ih _).1, (ih k).2]
      exact ⟨rfl, rfl⟩

/-- Masking a source of spans. -/
theorem ofText_spans {spans : List Span} (h : ∀ s ∈ spans, s.Good) :
    Mask.ofText (spans.flatMap text) = ⟨maskedAll 0 spans, spans.flatMap literals⟩ := by
  rw [Mask.ofText, tiles_spans h, (textFrom_spans 0 spans).1, (textFrom_spans 0 spans).2]

private theorem mem_tiling {s : Span} {x : Tile} (hx : x ∈ s.tiling) :
    (∃ c, x = .plain c ∧ (c ∈ s.front ∨ c ∈ s.back)) ∨ x ∈ Stencil.tiles s.inner := by
  rw [tiling, List.mem_append, List.mem_append, List.mem_map, List.mem_map] at hx
  rcases hx with ⟨c, hc, rfl⟩ | hx | ⟨c, hc, rfl⟩
  · exact Or.inl ⟨c, rfl, Or.inl hc⟩
  · exact Or.inr hx
  · exact Or.inl ⟨c, rfl, Or.inr hc⟩

/-- A source of spans is closed. -/
theorem closed_spans {spans : List Span} (h : ∀ s ∈ spans, s.Good) :
    ClosedCode (spans.flatMap text) := by
  have hall {P : Tile → Prop} (hplain : ∀ c, isPlain c = true → P (.plain c))
      (hinner : ∀ s ∈ spans, ∀ x ∈ Stencil.tiles s.inner, P x) :
      ∀ x ∈ Stencil.tiles (spans.flatMap text), P x := by
    intro x hx
    rw [tiles_spans h] at hx
    obtain ⟨s, hs, hx⟩ := List.mem_flatMap.mp hx
    rcases mem_tiling hx with ⟨c, rfl, hc | hc⟩ | hx
    · exact hplain c ((h s hs).front c hc)
    · exact hplain c ((h s hs).back c hc)
    · exact hinner s hs x hx
  refine ⟨hall (fun _ _ => rfl) fun s hs => (h s hs).inner.closed,
    hall (fun _ _ => rfl) fun s hs => (h s hs).inner.code, fun hmem => ?_⟩
  refine hall (P := fun x => x ≠ .plain Mask.opening) (fun c hc he => ?_) (fun s hs x hx he => ?_) _
    hmem rfl
  · rw [Tile.plain.inj he] at hc
    exact absurd hc (by decide)
  · exact (h s hs).inner.legible (he ▸ hx)

end Span

end Stencil
