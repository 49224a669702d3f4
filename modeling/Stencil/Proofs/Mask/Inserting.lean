import Stencil.Proofs.Mask.Spans
import Stencil.Proofs.Mask.Tiling
/-!
# Putting code into a source

Characters that have no part in literals or comments can be put in between the tiles of a source, and
the tiles around them stay as they are. A literal that was left open is the exception: it ends before
a line break or with the source, and takes up what is written on there.
-/
namespace Stencil.Tile

/-- Whether the character has no part in how a literal or a comment begins or ends. -/
def isInert (c : Char) : Bool :=
  !(['\'', '"', '[', ']', '=', '-', '/', '*', '\\', '\n'].contains c)

def Inert (w : Text) : Prop := ∀ c ∈ w, isInert c = true

instance (w : Text) : Decidable (Inert w) := inferInstanceAs (Decidable (∀ c ∈ w, _))

variable {c : Char} {l p r w t rest : Text} {x : Tile} {us vs ts : List Tile}

theorem ne_of_inert {d : Char} (hc : isInert c = true)
    (hd : d ∈ ['\'', '"', '[', ']', '=', '-', '/', '*', '\\', '\n']) : c ≠ d := by
  rintro rfl
  rw [isInert, Bool.not_eq_true', List.contains_eq_mem, decide_eq_false_iff_not] at hc
  exact hc hd

/-! ## What a tile sees of what follows it -/

private theorem not_inert_of_mem_opening {mark : Text} (hmark : IsOpening mark) :
    ∀ c ∈ mark, isInert c = false := by
  cases hmark with
  | bracket level =>
      intro c hc
      simp only [opener, List.mem_cons, List.mem_append, List.mem_replicate, List.not_mem_nil,
        or_false] at hc
      rcases hc with rfl | ⟨-, rfl⟩ | rfl <;> decide
  | _ => decide

/-- A text without inert characters does not reach over one. -/
private theorem prefix_of_prefix_inert {mark : Text} (hmark : ∀ c ∈ mark, isInert c = false)
    (hw : Inert w) (hne : w ≠ []) (h : mark <+: p ++ (w ++ r)) : mark <+: p := by
  obtain ⟨c, w, rfl⟩ := List.exists_cons_of_ne_nil hne
  obtain ⟨rest, hrest⟩ := h
  rcases List.append_eq_append_iff.mp hrest with ⟨a, ha, -⟩ | ⟨a, ha, hsplit⟩
  · exact ⟨a, ha.symm⟩
  · cases a with
    | nil => exact ⟨[], by simpa using ha⟩
    | cons d a =>
        obtain ⟨rfl, -⟩ := List.cons.inj hsplit
        have hc := hmark c (by simp [ha])
        rw [hw c List.mem_cons_self] at hc
        exact absurd hc (by simp)

/-- A character of the code stays one where inert characters are put in after it. -/
private theorem Leads.plain_insert (h : Leads (.plain c) (p ++ r)) (hw : Inert w) :
    Leads (.plain c) (p ++ (w ++ r)) := by
  by_cases hne : w = []
  · rw [hne]
    exact h
  · cases h with
    | plain hlone =>
        apply Leads.plain
        intro mark hmark hp
        have hp' := prefix_of_prefix_inert (p := c :: p) (not_inert_of_mem_opening hmark) hw hne hp
        exact hlone mark hmark (hp'.trans (List.prefix_append (c :: p) r))

/-- An inert character is one of the code, whatever follows. -/
private theorem leads_inert (hc : isInert c = true) : Leads (.plain c) rest := by
  apply Leads.plain
  rintro mark hmark ⟨more, hmore⟩
  have hnot := not_inert_of_mem_opening hmark
  cases mark with
  | nil => cases hmark
  | cons d mark =>
      obtain ⟨rfl, -⟩ := List.cons.inj hmore
      have hd := hnot d List.mem_cons_self
      rw [hc] at hd
      exact absurd hd (by simp)

/-- A literal is closed, and then it does not matter what follows, or it ends before a line break or
with the text. -/
private theorem Leads.literal_cases (h : Leads (.literal l) rest) :
    (∀ rest', Leads (.literal l) rest') ∨
      (∃ more, rest = '\n' :: more ∧ ∀ more', Leads (.literal l) ('\n' :: more')) ∨ rest = [] := by
  cases h with
  | quoted hq hstretch =>
      cases hstretch with
      | closed h => exact Or.inl fun _ => .quoted hq (.closed h)
      | line h => exact Or.inr (Or.inl ⟨_, rfl, fun _ => .quoted hq (.line h)⟩)
      | ended h => exact Or.inr (Or.inr rfl)
      | escaping h => exact Or.inr (Or.inr rfl)
  | long hstretch =>
      rcases hstretch with hclosed | ⟨hrest, -⟩
      · exact Or.inl fun _ => .long (Or.inl hclosed)
      · exact Or.inr (Or.inr hrest)

/-- A tile stays the same where inert characters are put in, though not directly after it. -/
private theorem Leads.insert (hx : x.isComment = false) (h : Leads x (p ++ r)) (hp : p ≠ [])
    (hw : Inert w) : Leads x (p ++ (w ++ r)) := by
  cases x with
  | plain c => exact h.plain_insert hw
  | comment t => simp [isComment] at hx
  | spaced t => simp [isComment] at hx
  | literal l =>
      obtain ⟨c, p, rfl⟩ := List.exists_cons_of_ne_nil hp
      rcases h.literal_cases with hany | ⟨more, hmore, hline⟩ | hnil
      · exact hany _
      · obtain ⟨rfl, -⟩ := List.cons.inj hmore
        exact hline _
      · simp at hnil

/-! ## Between two tiles -/

theorem Leads.text_ne_nil (h : Leads x rest) : x.text ≠ [] := by
  obtain ⟨c, body, htext, -⟩ := h.eq_first
  simp [htext]

theorem Tiling.flatMap_eq (h : Tiling ts t) : ts.flatMap text = t := by
  rw [tiling_iff.mp h, flatMap_text]

theorem Tiling.plain_append (hw : Inert w) (h : Tiling ts t) :
    Tiling (w.map .plain ++ ts) (w ++ t) := by
  induction w with
  | nil => exact h
  | cons c w ih =>
      have hmore : Inert w := fun d hd => hw d (List.mem_cons_of_mem c hd)
      exact .cons (leads_inert (hw c List.mem_cons_self)) (ih hmore)

/-- Inert characters can be put in where no literal ends, and where a literal ends before a character
of its line. -/
theorem Tiling.insert (h : Tiling (us ++ vs) t) (hcode : ∀ x ∈ us, x.isComment = false)
    (hlast : ∀ l, us.getLast? = some (.literal l) → ∃ c more, vs = .plain c :: more ∧ c ≠ '\n')
    (hw : Inert w) :
    Tiling (us ++ (w.map .plain ++ vs)) (us.flatMap text ++ (w ++ vs.flatMap text)) := by
  induction us generalizing t with
  | nil =>
      rw [List.nil_append] at h
      rw [h.flatMap_eq]
      exact h.plain_append hw
  | cons x us ih =>
      obtain ⟨hx, hus⟩ := List.forall_mem_cons.mp hcode
      cases h with
      | @cons _ _ rest hlead hmore =>
          have hrest : us.flatMap text ++ vs.flatMap text = rest := by
            rw [← List.flatMap_append]
            exact hmore.flatMap_eq
          rw [← hrest] at hlead
          have htail : Tiling (us ++ (w.map .plain ++ vs)) _ := ih hmore hus fun l hl =>
            hlast l (by rw [List.getLast?_cons, hl]; rfl)
          rw [List.flatMap_cons, List.append_assoc, List.cons_append]
          refine .cons ?_ htail
          cases us with
          | cons y us =>
              -- another tile stands between, and it has some text
              have hy : y.text ≠ [] := by
                cases hmore with
                | cons hlead' _ => exact hlead'.text_ne_nil
              exact hlead.insert hx (by simp [hy]) hw
          | nil =>
              cases x with
              | plain c => exact Leads.plain_insert (p := []) hlead hw
              | comment t => simp [isComment] at hx
              | spaced t => simp [isComment] at hx
              | literal l =>
                  obtain ⟨c, more, rfl, hc⟩ := hlast l rfl
                  rcases hlead.literal_cases with hany | ⟨_, hline, _⟩ | hnil
                  · exact hany _
                  · exact absurd (List.cons.inj hline).1 hc
                  · simp [text] at hnil

/-! ## At the end -/

private theorem Inside.append {quote : Char} {inside more : Text} (h : Inside quote inside)
    (hmore : Inside quote more) : Inside quote (inside ++ more) := by
  induction h with
  | nil => exact hmore
  | escape _ ih => exact .escape ih
  | char hescape hline hne _ ih => exact .char hescape hline hne ih

private theorem inside_of_inert {quote : Char} (hquote : quote = '\'' ∨ quote = '"')
    (hw : Inert w) : Inside quote w := by
  induction w with
  | nil => exact .nil
  | cons c w ih =>
      obtain ⟨hc, hmore⟩ := List.forall_mem_cons.mp hw
      have hne : c ≠ quote := by
        rcases hquote with rfl | rfl <;> exact ne_of_inert hc (by decide)
      exact .char (ne_of_inert hc (by decide)) (ne_of_inert hc (by decide)) hne (ih hmore)

private theorem not_infix_append_inert {level : Nat} (hw : Inert w) (h : ¬ closer level <:+: t) :
    ¬ closer level <:+: t ++ w := by
  have hcloser : ∀ c ∈ closer level, isInert c = false := by
    intro c hc
    simp only [closer, List.mem_cons, List.mem_append, List.mem_replicate, List.not_mem_nil,
      or_false] at hc
    rcases hc with rfl | ⟨-, rfl⟩ | rfl <;> decide
  induction t with
  | nil =>
      intro hinside
      have hc := hw ']' (hinside.subset List.mem_cons_self)
      exact absurd hc (by decide)
  | cons c t ih =>
      intro hinside
      rcases List.infix_cons_iff.mp hinside with hprefix | hinside
      · by_cases hne : w = []
        · have hprefix' : closer level <+: c :: t := by simpa [hne] using hprefix
          exact h hprefix'.isInfix
        · have hwithin : closer level <+: c :: t :=
            prefix_of_prefix_inert (r := []) hcloser hw hne (by simpa using hprefix)
          exact h hwithin.isInfix
      · exact ih (fun hin => h (hin.trans (List.suffix_cons c t).isInfix)) hinside

/-- A literal at the end of a source stays as it is where inert characters are written on, or it takes
them up. -/
private theorem Leads.literal_end (h : Leads (.literal l) []) (hw : Inert w) :
    Leads (.literal l) w ∨ Leads (.literal (l ++ w)) [] := by
  cases h with
  | quoted hq hstretch =>
      cases hstretch with
      | closed h => exact Or.inl (.quoted hq (.closed h))
      | ended h => exact Or.inr (.quoted hq (.ended (h.append (inside_of_inert hq hw))))
      | @escaping inside h =>
          cases w with
          | nil => exact Or.inl (.quoted hq (.escaping h))
          | cons c w =>
              -- the backslash takes the first of the characters with it
              have hmore : Inert w := fun d hd => hw d (List.mem_cons_of_mem c hd)
              have htaken := h.append (.escape (c := c) (inside_of_inert hq hmore))
              rw [List.cons_append, List.append_assoc]
              exact Or.inr (.quoted hq (.ended htaken))
  | long hstretch =>
      rcases hstretch with hclosed | ⟨-, hnone⟩
      · exact Or.inl (.long (Or.inl hclosed))
      · rw [List.cons_append, List.append_assoc]
        exact Or.inr (.long (Or.inr ⟨rfl, not_infix_append_inert hw hnone⟩))

/-- It does not matter what follows a closed literal. -/
private theorem Leads.of_closed (h : Leads (.literal l) rest)
    (hclosed : (Tile.literal l).isClosed = true) (rest' : Text) : Leads (.literal l) rest' := by
  obtain ⟨_, _, -, hfirst⟩ := h.eq_first
  obtain ⟨⟨c, body, htext, hany⟩, -⟩ := standing_literal hfirst hclosed
  obtain ⟨left, hsplit, hlead⟩ := exists_leads c (body ++ rest')
  rw [hany rest', htext, List.cons_append, List.cons.injEq, List.append_cancel_left_eq] at hsplit
  rw [hany rest', ← hsplit.2] at hlead
  exact hlead

/-- Inert characters can be written on at the end, or a literal that was left open takes them up. -/
theorem Tiling.extend (h : Tiling ts t) (hcode : ∀ x ∈ ts, x.isComment = false) (hw : Inert w) :
    Tiling (ts ++ w.map .plain) (t ++ w) ∨
      ∃ us l, ts = us ++ [.literal l] ∧ (Tile.literal l).isClosed = false ∧
        Tiling (us ++ [.literal (l ++ w)]) (t ++ w) := by
  have hend : Tiling (w.map .plain) w := by
    have hplain := Tiling.nil.plain_append hw
    rwa [List.append_nil, List.append_nil] at hplain
  induction h with
  | nil => exact Or.inl hend
  | @cons x ts rest hlead hmore ih =>
      obtain ⟨hx, hts⟩ := List.forall_mem_cons.mp hcode
      by_cases hnil : ts = []
      · subst hnil
        cases hmore
        rw [List.append_nil]
        cases x with
        | plain c =>
            have hput := Leads.plain_insert (p := []) hlead hw
            rw [List.nil_append, List.append_nil] at hput
            exact Or.inl (.cons hput hend)
        | comment t => simp [isComment] at hx
        | spaced t => simp [isComment] at hx
        | literal l =>
            cases hclosed : (Tile.literal l).isClosed with
            | true => exact Or.inl (.cons (hlead.of_closed hclosed w) hend)
            | false =>
                rcases hlead.literal_end hw with hstays | htakes
                · exact Or.inl (.cons hstays hend)
                · have hone := Tiling.cons htakes .nil
                  rw [List.append_nil] at hone
                  exact Or.inr ⟨[], l, rfl, hclosed, hone⟩
      · have hrest : rest ≠ [] := by
          cases hmore with
          | nil => exact absurd rfl hnil
          | cons hlead' _ => simp [hlead'.text_ne_nil]
        have hlead' : Leads x (rest ++ w) := by
          have hput := Leads.insert (r := []) hx (by simpa using hlead) hrest hw
          simpa using hput
        rw [List.append_assoc]
        rcases ih hts with hplain | ⟨us, l, rfl, hopen, htaken⟩
        · exact Or.inl (.cons hlead' hplain)
        · exact Or.inr ⟨x :: us, l, rfl, hopen, .cons hlead' htaken⟩

/-! ## Where a masked text is cut -/

private theorem number_split {i : Nat} {a b : List Symbol} (hcode : ∀ x ∈ ts, x.isComment = false)
    (h : Symbol.number i ts = a ++ b) :
    ∃ us vs, ts = us ++ vs ∧ Symbol.number i us = a ∧
      Symbol.number (i + (Mask.literalsOf us).length) vs = b := by
  induction a generalizing i ts with
  | nil => exact ⟨[], ts, rfl, rfl, h⟩
  | cons x a ih =>
      cases ts with
      | nil => simp [Symbol.number] at h
      | cons y ts =>
          obtain ⟨hy, hts⟩ := List.forall_mem_cons.mp hcode
          cases y with
          | comment t => simp [isComment] at hy
          | spaced t => simp [isComment] at hy
          | plain c =>
              obtain ⟨rfl, hmore⟩ := List.cons.inj h
              obtain ⟨us, vs, rfl, rfl, hvs⟩ := ih hts hmore
              exact ⟨.plain c :: us, vs, rfl, rfl, hvs⟩
          | literal l =>
              obtain ⟨rfl, hmore⟩ := List.cons.inj h
              obtain ⟨us, vs, rfl, rfl, hvs⟩ := ih hts hmore
              refine ⟨.literal l :: us, vs, rfl, rfl, ?_⟩
              rw [← hvs, Mask.literalsOf, List.length_cons]
              congr 1
              omega

/-- A character that no placeholder has is one of the code, between two parts of the tiles. -/
theorem textFrom_split {i : Nat} {u v : Text} (hcode : ∀ x ∈ ts, x.isComment = false)
    (hc : Symbol.isMarkChar c = false) (h : Mask.textFrom i ts = u ++ c :: v) :
    ∃ us vs, ts = us ++ .plain c :: vs ∧ Mask.textFrom i us = u ∧
      Mask.textFrom (i + (Mask.literalsOf us).length) vs = v := by
  rw [← Symbol.spell_number] at h
  obtain ⟨a, b, hab, rfl, rfl⟩ := Symbol.exists_cut hc h
  obtain ⟨us, vs, rfl, rfl, hvs⟩ := number_split hcode hab
  have hvsCode := (List.forall_mem_append.mp hcode).2
  cases vs with
  | nil => simp [Symbol.number] at hvs
  | cons y vs =>
      have hy := hvsCode y List.mem_cons_self
      cases y with
      | comment t => simp [isComment] at hy
      | spaced t => simp [isComment] at hy
      | literal l => simp [Symbol.number] at hvs
      | plain d =>
          rw [Symbol.number, List.cons.injEq, Symbol.char.injEq] at hvs
          obtain ⟨rfl, rfl⟩ := hvs
          exact ⟨us, vs, rfl, (Symbol.spell_number _ _).symm, (Symbol.spell_number _ _).symm⟩

end Stencil.Tile
