import Stencil.Proofs.Normalize.Calls
import Stencil.Proofs.Normalize.Tidy
/-!
# Which semicolons go

The collapsing passes take white space, empty calls and semicolons. What they leave of a text can be
read off in one go: a semicolon goes with an empty call before it, after another semicolon, or after a
brace, where no parenthesis follows it. A semicolon with none of these before it stays.
-/
namespace Stencil.Normalize

open Text

def visible (t : Text) : Text := t.filter fun c => !isBlank c

/-- A semicolon that could go: after another one, or after a brace where no parenthesis follows. -/
def Needless (last : Option Char) (rest : Text) : Prop :=
  last = some ';' ∨ (last = some '{' ∨ last = some '}') ∧ rest.head? ≠ some '('

/-- What is left of a text without its white space, its empty calls and semicolons that could go. The
flags say which semicolons stay in any case; `before` is the character before the text and `last` the
last one that was left. -/
inductive Tidied (m : Mask) : List Bool → Option Char → Option Char → Text → Text → Prop
  | nil {before last : Option Char} : Tidied m [] before last [] []
  | blank {flags : List Bool} {before last : Option Char} {c : Char} {t t' : Text} :
      isBlank c = true → Tidied m flags (some c) last t t' → Tidied m flags before last (c :: t) t'
  | keep {flags : List Bool} {before last : Option Char} {c : Char} {t t' : Text} :
      isBlank c = false → c ≠ ';' → Tidied m flags (some c) (some c) t t' →
        Tidied m flags before last (c :: t) (c :: t')
  | semicolon {flag : Bool} {flags : List Bool} {before last : Option Char} {t t' : Text} :
      Tidied m flags (some ';') (some ';') t t' →
        Tidied m (flag :: flags) before last (';' :: t) (';' :: t')
  | needless {flags : List Bool} {before last : Option Char} {t t' : Text} :
      Needless last t' → Tidied m flags (some ';') last t t' →
        Tidied m (false :: flags) before last (';' :: t) t'
  | call {flags : List Bool} {before last : Option Char} {w t t' : Text} :
      EmptyCall m w → wordMayBegin before = true → Tidied m flags (lastOr before w) last t t' →
        Tidied m flags before last (w ++ t) t'
  | callEnd {flags : List Bool} {before last : Option Char} {w b t t' : Text} :
      EmptyCall m w → wordMayBegin before = true → Blank b → Tidied m flags (some ';') last t t' →
        Tidied m (false :: flags) before last (w ++ (b ++ ';' :: t)) t'

/-- The text ends with an empty call. -/
def EndsCall (m : Mask) (t : Text) : Prop :=
  ∃ u w b, t = u ++ (w ++ b) ∧ EmptyCall m w ∧ Blank b ∧ wordMayBegin (lastOr none u) = true

/-- The texts before and after each semicolon whose flag is set, some of the text being read. -/
def flagged : List Bool → Text → Text → List (Text × Text)
  | _, _, [] => []
  | [], _, _ => []
  | flag :: flags, read, c :: t =>
    if c = ';' then
      (if flag then [(read, t)] else []) ++ flagged flags (read ++ [c]) t
    else flagged (flag :: flags) (read ++ [c]) t

section Visible

variable {s t b : Text} {c : Char}

@[simp] theorem visible_nil : visible [] = [] := rfl

@[simp] theorem visible_append : visible (s ++ t) = visible s ++ visible t := List.filter_append ..

theorem visible_of_blank (hb : Blank b) : visible b = [] := by
  rw [visible, List.filter_eq_nil_iff]
  intro c hc
  simp [hb c hc]

theorem visible_blank_cons (hc : isBlank c = true) : visible (c :: t) = visible t := by
  simp [visible, hc]

theorem visible_cons (hc : isBlank c = false) : visible (c :: t) = c :: visible t := by
  simp [visible, hc]

theorem visible_trim (t : Text) : visible (trim t) = visible t := by
  obtain ⟨b, b', hb, hb', ht⟩ := exists_trim t
  conv => rhs; rw [ht]
  simp [visible_of_blank hb, visible_of_blank hb']

/-- The last visible character, and the white space after it. -/
theorem exists_last_visible (h : (visible t).getLast? = some c) :
    ∃ u b, t = u ++ c :: b ∧ isBlank c = false ∧ Blank b := by
  obtain ⟨b, hb, ht⟩ := exists_trimEnd_blank t
  rw [ht, visible_append, visible_of_blank hb, List.append_nil] at h
  rcases List.eq_nil_or_concat (trimEnd t) with hnil | ⟨u, d, hu⟩
  · rw [hnil] at h
    simp at h
  · rw [List.concat_eq_append] at hu
    have hd : isBlank d = false := flush_reverse_trimEnd t d (by rw [hu]; simp)
    rw [hu, visible_append, visible_cons hd, visible_nil, List.getLast?_concat,
      Option.some.injEq] at h
    subst h
    exact ⟨u, b, by rw [ht, hu]; simp, hd, hb⟩

end Visible

/-! ## Semicolons that could go -/

/-- Some semicolons are left out that could go. -/
inductive Spares : Option Char → Text → Text → Prop
  | nil {last : Option Char} : Spares last [] []
  | keep {last : Option Char} {c : Char} {t t' : Text} :
      Spares (some c) t t' → Spares last (c :: t) (c :: t')
  | needless {last : Option Char} {t t' : Text} :
      Needless last t' → Spares last t t' → Spares last (';' :: t) t'

section Spares

variable {last last' : Option Char} {t t' t'' : Text}

theorem Spares.prepend (s : Text) (h : ∀ last, Spares last t t') (last : Option Char) :
    Spares last (s ++ t) (s ++ t') := by
  induction s generalizing last with
  | nil => exact h last
  | cons c s ih => exact .keep (ih (some c))

/-- Semicolons after one are as good as that one. -/
private theorem Spares.then (h : Spares last t t') (h' : Spares last' t' t'')
    (hlast : last = last' ∨ last = some ';' ∧ Needless last' t'') : Spares last' t t'' := by
  induction h generalizing last' t'' with
  | nil => exact h'
  | @keep last c t t' hmore ih =>
      generalize hin : c :: t' = x at h'
      cases h' with
      | nil => simp at hin
      | keep hmore' =>
          obtain ⟨rfl, rfl⟩ := List.cons.inj hin
          exact .keep (ih hmore' (Or.inl rfl))
      | needless hneed hmore' =>
          obtain ⟨rfl, rfl⟩ := List.cons.inj hin
          exact .needless hneed (ih hmore' (Or.inr ⟨rfl, hneed⟩))
  | @needless last t t' hneed hmore ih =>
      refine .needless ?_ (ih h' hlast)
      rcases hlast with rfl | ⟨-, hneed'⟩
      · -- a parenthesis in front of what is left now was there before
        refine hneed.imp_right fun ⟨hbrace, hparen⟩ => ⟨hbrace, fun hparen' => ?_⟩
        cases h' with
        | nil => simp at hparen'
        | keep _ => exact hparen hparen'
        | needless hneed' _ =>
            rcases hneed' with hsemi | ⟨-, hne⟩
            · rcases hbrace with hbrace | hbrace <;> simp [hsemi] at hbrace
            · exact hne hparen'
      · exact hneed'

theorem Spares.trans (h : Spares last t t') (h' : Spares last t' t'') : Spares last t t'' :=
  h.then h' (Or.inl rfl)

private theorem spares_semicolons {g : Text} (hg : ∀ c ∈ g, c = ';') (h : Spares (some ';') t t') :
    Spares (some ';') (g ++ t) t' := by
  induction g with
  | nil => exact h
  | cons c g ih =>
      obtain ⟨rfl, hrest⟩ := List.forall_mem_cons.mp hg
      exact .needless (Or.inl rfl) (ih hrest)

theorem spares_repeatedSemicolon (t : Text) (last : Option Char) :
    Spares last (visible t) (visible (t.replaceAll repeatedSemicolon)) := by
  refine replaceFrom_induct edits_repeatedSemicolon.advances
    (motive := fun _ t out => ∀ last, Spares last (visible t) (visible out)) ?_ ?_ ?_ none t last
  · exact fun _ _ => .nil
  · intro before c t out _ ih last
    by_cases hc : isBlank c = true
    · rw [visible_blank_cons hc, visible_blank_cons hc]
      exact ih last
    · rw [visible_cons (by simpa using hc), visible_cons (by simpa using hc)]
      exact .keep (ih _)
  · intro before old rest new more _ hhit ih last
    obtain ⟨g, hg, rfl, ht, -⟩ := repeatedSemicolon_eq_some hhit
    have hsemi {g : Text} (hg : ∀ c ∈ g, c = ';') : visible g = g := by
      refine List.filter_eq_self.mpr fun c hc => ?_
      rw [hg c hc]
      rfl
    rw [ht, visible_append, hsemi (g := [';']) (by simp), visible_cons (by decide),
      visible_cons (by decide), visible_append, hsemi hg]
    exact .keep (.needless (Or.inl rfl) (spares_semicolons hg (ih _)))

/-- No white space after a semicolon. -/
def Gapless (t : Text) : Prop := t.IsChain fun a b => ¬ (a = ';' ∧ isBlank b = true)

theorem Gapless.next {u v : Text} {c : Char} (h : Gapless (u ++ ';' :: c :: v)) :
    isBlank c = false := by
  have hpair := (List.isChain_append_cons_cons.mp h).2.1
  simpa using hpair

theorem Gapless.of_append (h : Gapless (t ++ t')) : Gapless t' := h.suffix (List.suffix_append _ _)

theorem spares_braceSemicolon (h : Gapless t) (last : Option Char) :
    Spares last (visible t) (visible (t.replaceAll braceSemicolon)) := by
  suffices key : (t.replaceAll braceSemicolon).head? = t.head? ∧ (Gapless t → ∀ last,
      Spares last (visible t) (visible (t.replaceAll braceSemicolon))) from key.2 h last
  refine replaceFrom_induct edits_braceSemicolon.advances (motive := fun _ t out =>
    out.head? = t.head? ∧ (Gapless t → ∀ last, Spares last (visible t) (visible out)))
    ?_ ?_ ?_ none t
  · exact fun _ => ⟨rfl, fun _ _ => .nil⟩
  · rintro before c t out _ ⟨-, ih⟩
    refine ⟨rfl, fun hgap last => ?_⟩
    have hmore := ih (Gapless.of_append (t := [c]) hgap)
    by_cases hc : isBlank c = true
    · rw [visible_blank_cons hc, visible_blank_cons hc]
      exact hmore last
    · rw [visible_cons (by simpa using hc), visible_cons (by simpa using hc)]
      exact .keep (hmore _)
  · rintro before old rest new more hold hhit ⟨hhead, ih⟩
    obtain ⟨c, hc, ⟨rfl, ht⟩ | ⟨rfl, ht, hne⟩⟩ := braceSemicolon_eq_some hhit
    · obtain rfl : old = [c, ';', '('] := List.append_cancel_right (ht.trans (by simp))
      refine ⟨rfl, fun hgap last => ?_⟩
      rw [visible_append, visible_append]
      exact Spares.prepend _ (ih hgap.of_append) last
    · obtain rfl : old = [c, ';'] := List.append_cancel_right (ht.trans (by simp))
      refine ⟨rfl, fun hgap last => ?_⟩
      have hbrace : isBlank c = false := by rcases hc with rfl | rfl <;> decide
      have hparen : (visible more).head? ≠ some '(' := by
        cases rest with
        | nil =>
            obtain rfl := List.head?_eq_none_iff.mp hhead
            simp
        | cons d rest =>
            obtain ⟨more, rfl⟩ := List.head?_eq_some_iff.mp hhead
            rw [visible_cons (Gapless.next (u := [c]) hgap)]
            exact hne
      change Spares last (visible (c :: ';' :: rest)) (visible (c :: more))
      rw [visible_cons hbrace, visible_cons (by decide), visible_cons hbrace]
      refine .keep (.needless (Or.inr ⟨?_, hparen⟩) (ih hgap.of_append _))
      exact hc.imp (congrArg some) (congrArg some)

end Spares

/-! ## White space and empty calls -/

/-- White space and empty calls are left out. -/
inductive Sheds (m : Mask) : Option Char → Text → Text → Prop
  | nil {before : Option Char} : Sheds m before [] []
  | blank {before : Option Char} {c : Char} {t x : Text} :
      isBlank c = true → Sheds m (some c) t x → Sheds m before (c :: t) x
  | keep {before : Option Char} {c : Char} {t x : Text} :
      isBlank c = false → Sheds m (some c) t x → Sheds m before (c :: t) (c :: x)
  | call {before : Option Char} {w t x : Text} : EmptyCall m w → wordMayBegin before = true →
      Sheds m (lastOr before w) t x → Sheds m before (w ++ t) x
  | callEnd {before : Option Char} {w b t x : Text} : EmptyCall m w → wordMayBegin before = true →
      Blank b → Sheds m (some ';') t x → Sheds m before (w ++ (b ++ ';' :: t)) x

/-- White space beside semicolons is left out. -/
inductive Loosens : Text → Text → Prop
  | nil : Loosens [] []
  | keep {t t' : Text} (c : Char) : Loosens t t' → Loosens (c :: t) (c :: t')
  | semicolon {b g t t' : Text} : Blank b → Blank g → Loosens t t' →
      Loosens (b ++ ';' :: (g ++ t)) (';' :: t')

section Sheds

variable {m : Mask} {before last : Option Char} {b s t t' w x y : Text}

theorem Sheds.blanks (hb : Blank b) (h : Sheds m (lastOr before b) t x) : Sheds m before (b ++ t) x := by
  induction b generalizing before with
  | nil => exact h
  | cons c b ih =>
      obtain ⟨hc, hb⟩ := blank_cons.mp hb
      exact .blank hc (ih hb h)

theorem Sheds.prepend (h : Sheds m (lastOr before s) t x) : Sheds m before (s ++ t) (visible s ++ x) := by
  induction s generalizing before with
  | nil => exact h
  | cons c s ih =>
      by_cases hc : isBlank c = true
      · rw [visible_blank_cons hc]
        exact .blank hc (ih h)
      · have hc : isBlank c = false := by simpa using hc
        rw [visible_cons hc]
        exact .keep hc (ih h)

theorem loosens_semicolonSpace (t : Text) : Loosens t (t.replaceAll semicolonSpace) := by
  rw [semicolonSpace_eq]
  refine replaceFrom_induct advances_spaceRule (motive := fun _ t out => Loosens t out) ?_ ?_ ?_ none t
  · exact fun _ => .nil
  · exact fun _ c _ _ _ ih => .keep c ih
  · intro before old rest new more _ hhit ih
    obtain ⟨b, c, g, hb, hg, hc, rfl, ht, -⟩ := spaceRule_eq_some hhit
    obtain rfl := eq_of_beq hc
    rw [ht]
    exact .semicolon hb hg ih

/-- What holds no semicolon was there before. -/
private theorem Loosens.cut (h : Loosens t (s ++ t')) (hs : ';' ∉ s) :
    ∃ t₀, t = s ++ t₀ ∧ Loosens t₀ t' := by
  induction s generalizing t with
  | nil => exact ⟨t, rfl, h⟩
  | cons c s ih =>
      rw [List.mem_cons, not_or] at hs
      generalize hin : c :: s ++ t' = x at h
      cases h with
      | nil => simp at hin
      | keep d hmore =>
          obtain ⟨rfl, rfl⟩ := List.cons.inj hin
          obtain ⟨t₀, rfl, ht₀⟩ := ih hmore hs.2
          exact ⟨t₀, rfl, ht₀⟩
      | semicolon _ _ _ => exact absurd (List.cons.inj hin).1.symm hs.1

private theorem not_mem_call (h : EmptyCall m w) : ';' ∉ w :=
  fun hmem => absurd (emptyCall_noStop h _ hmem) (by decide)

private theorem not_mem_blank (hb : Blank b) : ';' ∉ b := fun hmem => absurd (hb _ hmem) (by decide)

private theorem mayBegin_after {g : Text} (hg : Blank g) : wordMayBegin (lastOr (some ';') g) = true :=
  mayBegin_blank hg (by decide)

private theorem Loosens.at_semicolon (h : Loosens t (';' :: t')) :
    ∃ b g t₀, Blank b ∧ Blank g ∧ t = b ++ ';' :: (g ++ t₀) ∧ Loosens t₀ t' := by
  generalize hin : ';' :: t' = x at h
  cases h with
  | nil => simp at hin
  | keep d hmore =>
      obtain ⟨rfl, rfl⟩ := List.cons.inj hin
      exact ⟨[], [], _, blank_nil, blank_nil, rfl, hmore⟩
  | semicolon hb hg hmore =>
      obtain ⟨-, rfl⟩ := List.cons.inj hin
      exact ⟨_, _, _, hb, hg, rfl, hmore⟩

theorem Loosens.sheds (h : Loosens t t') (hx : Sheds m before t' x) {before' : Option Char}
    (hbegin : wordMayBegin before = true → wordMayBegin before' = true) : Sheds m before' t x := by
  induction hx generalizing t before' with
  | nil =>
      cases h
      exact .nil
  | @blank _ c t' x hc _ ih =>
      obtain ⟨t₀, rfl, ht₀⟩ := Loosens.cut (s := [c]) h (not_mem_blank (by simpa using hc))
      exact .blank hc (ih ht₀ id)
  | @keep _ c t' x hc _ ih =>
      by_cases hsemi : c = ';'
      · subst hsemi
        obtain ⟨b, g, t₀, hb, hg, rfl, ht₀⟩ := h.at_semicolon
        exact .blanks hb (.keep hc (.blanks hg (ih ht₀ fun _ => mayBegin_after hg)))
      · obtain ⟨t₀, rfl, ht₀⟩ := Loosens.cut (s := [c]) h (by simpa using Ne.symm hsemi)
        exact .keep hc (ih ht₀ id)
  | @call before w t' x hw hmay _ ih =>
      obtain ⟨t₀, rfl, ht₀⟩ := h.cut (not_mem_call hw)
      refine .call hw (hbegin hmay) (ih ht₀ fun hlast => ?_)
      rwa [lastOr_of_ne_nil hw.ne_nil before' before]
  | @callEnd before w b t' x hw hmay hb _ ih =>
      rw [← List.append_assoc] at h
      obtain ⟨t₀, rfl, ht₀⟩ := h.cut (by simp [not_mem_call hw, not_mem_blank hb])
      obtain ⟨b', g, t₁, hb', hg, rfl, ht₁⟩ := ht₀.at_semicolon
      have hmore := Sheds.callEnd (t := g ++ t₁) hw (hbegin hmay) (blank_append.mpr ⟨hb, hb'⟩)
        (.blanks hg (ih ht₁ fun _ => mayBegin_after hg))
      simpa using hmore

theorem sheds_emptyEmit (m : Mask) (t : Text) : Sheds m none t (visible (t.replaceAll (emptyEmit m))) := by
  refine replaceFrom_induct (advances_emptyEmit m)
    (motive := fun before t out => Sheds m before t (visible out)) ?_ ?_ ?_ none t
  · exact fun _ => .nil
  · intro before c t out _ ih
    have h : Sheds m before ([c] ++ t) (visible [c] ++ visible out) := Sheds.prepend ih
    rwa [← visible_append] at h
  · intro before old rest new more _ hhit ih
    obtain ⟨hmay, ⟨w, tail, rfl, ht, hw, htail⟩ | ⟨-, ht⟩⟩ := emptyEmit_eq_some hhit
    · obtain rfl : old = w ++ tail := List.append_cancel_right ht
      rw [List.nil_append, List.append_assoc]
      rw [lastOr_append] at ih
      cases htail with
      | plain hb _ => exact .call hw hmay (.blanks hb ih)
      | ended hb =>
          rw [lastOr_append] at ih
          rw [List.append_assoc]
          exact .callEnd hw hmay hb ih
    · obtain rfl : old = new := List.append_cancel_right ht
      rw [visible_append]
      exact Sheds.prepend ih

theorem Gapless.emptyEmit (m : Mask) (h : Gapless t) : Gapless (t.replaceAll (emptyEmit m)) := by
  -- white space in front of the new text was in front of the old one
  suffices key : (∀ c, (t.replaceAll (Normalize.emptyEmit m)).head? = some c → isBlank c = true →
      t.head? = some c) ∧ Gapless (t.replaceAll (Normalize.emptyEmit m)) from key.2
  refine replaceFrom_induct (advances_emptyEmit m) (motive := fun _ t out => Gapless t →
    (∀ c, out.head? = some c → isBlank c = true → t.head? = some c) ∧ Gapless out) ?_ ?_ ?_ none t h
  · exact fun _ _ => ⟨by simp, .nil⟩
  · intro before c t out _ ih hgap
    obtain ⟨hnext, htail⟩ := List.isChain_cons.mp hgap
    obtain ⟨hhead, hout⟩ := ih htail
    refine ⟨fun d hd _ => hd, List.isChain_cons.mpr ⟨fun d hd => ?_, hout⟩⟩
    rintro ⟨rfl, hblank⟩
    exact hnext d (hhead d hd hblank) ⟨rfl, hblank⟩
  · intro before old rest new more hold hhit ih hgap
    obtain ⟨hhead, hout⟩ := ih hgap.of_append
    obtain ⟨hmay, ⟨w, tail, rfl, ht, hw, htail⟩ | ⟨hne, ht⟩⟩ := emptyEmit_eq_some hhit
    · obtain rfl : old = w ++ tail := List.append_cancel_right ht
      refine ⟨fun c hc hblank => ?_, hout⟩
      have hrest := hhead c hc hblank
      cases htail with
      | plain _ hflush =>
          rw [hflush c hrest] at hblank
          simp at hblank
      | @ended b _ _ =>
          obtain ⟨rest, rfl⟩ := List.head?_eq_some_iff.mp hrest
          have hshape : w ++ (b ++ [';']) ++ c :: rest = (w ++ b) ++ ';' :: c :: rest := by simp
          rw [hshape] at hgap
          rw [hgap.next] at hblank
          simp at hblank
    · obtain rfl : old = new := List.append_cancel_right ht
      refine ⟨fun c hc _ => ?_, ?_⟩
      · rwa [List.head?_append_of_ne_nil _ hne] at hc ⊢
      · obtain ⟨hfront, hrest, hjoin⟩ := List.isChain_append.mp hgap
        refine List.isChain_append.mpr ⟨hfront, hout, fun c hc d hd => ?_⟩
        rintro ⟨rfl, hblank⟩
        exact hjoin _ hc d (hhead d hd hblank) ⟨rfl, hblank⟩

end Sheds

/-! ## All passes -/

section Tidied

variable {m : Mask} {fs flags : List Bool} {before last : Option Char} {read s t t' x y : Text}

/-- First white space and empty calls go, then semicolons. -/
theorem Sheds.tidied (h : Sheds m before t x) (h' : Spares last x y) :
    ∃ fs, Tidied m fs before last t y := by
  induction h generalizing last y with
  | nil =>
      cases h'
      exact ⟨[], .nil⟩
  | blank hc _ ih =>
      obtain ⟨fs, hfs⟩ := ih h'
      exact ⟨fs, .blank hc hfs⟩
  | @keep before c t x hc _ ih =>
      generalize hin : c :: x = x' at h'
      cases h' with
      | nil => simp at hin
      | keep hmore =>
          obtain ⟨rfl, rfl⟩ := List.cons.inj hin
          obtain ⟨fs, hfs⟩ := ih hmore
          by_cases hsemi : c = ';'
          · subst hsemi
            exact ⟨false :: fs, .semicolon hfs⟩
          · exact ⟨fs, .keep hc hsemi hfs⟩
      | needless hneed hmore =>
          obtain ⟨rfl, rfl⟩ := List.cons.inj hin
          obtain ⟨fs, hfs⟩ := ih hmore
          exact ⟨false :: fs, .needless hneed hfs⟩
  | call hw hmay _ ih =>
      obtain ⟨fs, hfs⟩ := ih h'
      exact ⟨fs, .call hw hmay hfs⟩
  | callEnd hw hmay hb _ ih =>
      obtain ⟨fs, hfs⟩ := ih h'
      exact ⟨false :: fs, .callEnd hw hmay hb hfs⟩

private theorem gapless_semicolonSpace (t : Text) : Gapless (t.replaceAll semicolonSpace) := by
  have hfree : t.IsChain fun _ _ => True :=
    List.Pairwise.isChain (List.pairwise_of_forall fun _ _ => trivial)
  rw [semicolonSpace_eq]
  refine (isChain_spaceRule isStop_of_semicolon (fun _ _ _ => trivial) hfree).imp ?_
  rintro a b ⟨-, hslack⟩ ⟨rfl, hb⟩
  exact hslack (Or.inr ⟨rfl, hb⟩)

private theorem Gapless.braceSpace (h : Gapless t) : Gapless (t.replaceAll braceSpace) := by
  rw [braceSpace_eq]
  refine (isChain_spaceRule isStop_of_brace (fun a b hbrace => ?_) h).imp fun _ _ h => h.1
  rintro ⟨rfl, hb⟩
  rcases hbrace with hbrace | hbrace
  · simp at hbrace
  · rw [isBlank_of_stop (isStop_of_brace b hbrace)] at hb
    simp at hb

private theorem visible_braceSpace (t : Text) : visible (t.replaceAll braceSpace) = visible t := by
  rw [braceSpace_eq]
  refine replaceFrom_induct advances_spaceRule (motive := fun _ t out => visible out = visible t)
    ?_ ?_ ?_ none t
  · exact fun _ => rfl
  · intro before c t out _ ih
    change visible ([c] ++ out) = visible ([c] ++ t)
    rw [visible_append, visible_append, ih]
  · intro before old rest new more _ hhit ih
    obtain ⟨b, c, g, hb, hg, -, rfl, ht, -⟩ := spaceRule_eq_some hhit
    have hsplit : b ++ c :: (g ++ rest) = b ++ ([c] ++ (g ++ rest)) := rfl
    rw [ht, hsplit, visible_append, visible_append, visible_append, visible_append,
      visible_of_blank hb, visible_of_blank hg, ih]
    rfl

/-- What the collapsing passes leave. -/
theorem exists_tidied_collapse (m : Mask) (t : Text) :
    ∃ fs, Tidied m fs none none t (visible (collapse m t)) := by
  have hsheds : Sheds m none t _ := (loosens_semicolonSpace t).sheds (sheds_emptyEmit m _) id
  have hgap := (gapless_semicolonSpace t).emptyEmit m
  rw [collapse, visible_trim]
  generalize (t.replaceAll semicolonSpace).replaceAll (emptyEmit m) = t₂ at hsheds hgap ⊢
  have hgap₃ : Gapless (t₂.replaceAll repeatedSemicolon) :=
    (isChain_repeatedSemicolon hgap).imp fun _ _ h => h.1
  have hspares := spares_repeatedSemicolon t₂ none
  rw [← visible_braceSpace (t₂.replaceAll repeatedSemicolon)] at hspares
  exact hsheds.tidied (hspares.trans (spares_braceSemicolon hgap₃.braceSpace none))

/-! ## Semicolons that stay -/

/-- The semicolon between the texts stands neither right after a closing brace, unless before a
parenthesis, nor right after an empty call. -/
structure Lasting (m : Mask) (u v : Text) : Prop where
  brace : (visible u).getLast? = some '}' → (visible v).head? = some '('
  call : ¬ EndsCall m u

theorem EndsCall.getLast?_visible (h : EndsCall m t) : (visible t).getLast? = some ')' := by
  obtain ⟨u, w, b, rfl, hw, hb, -⟩ := h
  obtain ⟨w', rfl, -⟩ := emptyCall_ends hw
  rw [← List.append_assoc, visible_append, visible_of_blank hb, List.append_nil, ← List.append_assoc,
    visible_append]
  exact List.getLast?_concat

/-- Such a semicolon, which stands neither first nor after an opening brace or another semicolon. -/
structure Firm (m : Mask) (u v : Text) : Prop extends Lasting m u v where
  after : ∃ c, (visible u).getLast? = some c ∧ c ≠ ';' ∧ c ≠ '{'

theorem Tidied.length_eq (h : Tidied m fs before last t t') : fs.length = t.count ';' := by
  induction h with
  | nil => rfl
  | blank hc _ ih =>
      rw [ih, List.count_cons_of_ne]
      rintro rfl
      exact absurd hc (by decide)
  | keep _ hc _ ih => rw [ih, List.count_cons_of_ne hc]
  | semicolon _ ih => rw [List.length_cons, ih, List.count_cons_self]
  | needless _ _ ih => rw [List.length_cons, ih, List.count_cons_self]
  | call hw _ _ ih => rw [ih, List.count_append, List.count_eq_zero.mpr (not_mem_call hw), Nat.zero_add]
  | callEnd hw _ hb _ ih =>
      rw [List.length_cons, ih, List.count_append, List.count_append,
        List.count_eq_zero.mpr (not_mem_call hw), List.count_eq_zero.mpr (not_mem_blank hb),
        List.count_cons_self, Nat.zero_add, Nat.zero_add]

/-- A parenthesis in front stays there. -/
theorem Tidied.head_paren (h : Tidied m fs before last t t')
    (hparen : (visible t).head? = some '(') : t'.head? = some '(' := by
  have call {w t : Text} (hw : EmptyCall m w) : (visible (w ++ t)).head? ≠ some '(' := by
    obtain ⟨d, ds, rfl, hd⟩ := emptyCall_head hw
    have hvisible : isBlank d = false := by rcases hd with rfl | rfl <;> decide
    rw [List.cons_append, visible_cons hvisible]
    rcases hd with rfl | rfl <;> simp
  induction h with
  | nil => simp at hparen
  | blank hc _ ih => exact ih (by rwa [visible_blank_cons hc] at hparen)
  | keep hc _ _ _ => rwa [visible_cons hc] at hparen
  | semicolon _ _ => simp [visible_cons (c := ';') (by decide)] at hparen
  | needless _ _ _ => simp [visible_cons (c := ';') (by decide)] at hparen
  | call hw _ _ _ => exact absurd hparen (call hw)
  | callEnd hw _ _ _ _ => exact absurd hparen (call hw)

private theorem flagged_cons (flags : List Bool) (read : Text) {c : Char} (hc : c ≠ ';') (t : Text) :
    flagged flags read (c :: t) = flagged flags (read ++ [c]) t := by
  cases flags with
  | nil => cases t <;> rfl
  | cons flag flags => rw [flagged, if_neg hc]

private theorem flagged_append (flags : List Bool) (read : Text) (hs : ';' ∉ s) (t : Text) :
    flagged flags read (s ++ t) = flagged flags (read ++ s) t := by
  induction s generalizing read with
  | nil => rw [List.append_nil, List.nil_append]
  | cons c s ih =>
      rw [List.mem_cons, not_or] at hs
      rw [List.cons_append, flagged_cons _ _ (Ne.symm hs.1), ih _ hs.2, List.append_assoc,
        List.singleton_append]

private theorem EndsCall.blank {b : Text} (h : EndsCall m t) (hb : Blank b) : EndsCall m (t ++ b) := by
  obtain ⟨u, w, b', rfl, hw, hb', hmay⟩ := h
  exact ⟨u, w, b' ++ b, by simp, hw, blank_append.mpr ⟨hb', hb⟩, hmay⟩

/-- Semicolons stay whose flags are set, if they are firm. -/
private theorem Tidied.keeping (h : Tidied m fs before last t t') (hlength : flags.length = fs.length)
    (hread : before = lastOr none read)
    (hlast : (visible read).getLast? = last ∨ (visible read).getLast? = some ';' ∨ EndsCall m read)
    (hfirm : ∀ p ∈ flagged flags read t, Firm m p.1 p.2) : Tidied m flags before last t t' := by
  induction h generalizing flags read with
  | nil =>
      obtain rfl := List.length_eq_zero_iff.mp hlength
      exact .nil
  | @blank fs before last c t t' hc _ ih =>
      have hb : Blank [c] := by simpa using hc
      rw [flagged_cons _ _ (by rintro rfl; exact absurd hc (by decide))] at hfirm
      refine .blank hc (ih hlength (by simp) ?_ hfirm)
      rw [visible_append, visible_of_blank hb, List.append_nil]
      exact hlast.imp_right (Or.imp_right fun h => h.blank hb)
  | @keep fs before last c t t' hc hsemi _ ih =>
      rw [flagged_cons _ _ hsemi] at hfirm
      refine .keep hc hsemi (ih hlength (by simp) (Or.inl ?_) hfirm)
      rw [visible_append, visible_cons hc]
      exact List.getLast?_concat
  | semicolon _ ih =>
      obtain ⟨flag, flags, rfl⟩ := List.exists_cons_of_length_eq_add_one hlength
      have hlast' : (visible (read ++ [';'])).getLast? = some ';' := by
        rw [visible_append]
        exact List.getLast?_concat
      exact .semicolon (ih (Nat.succ.inj hlength) (by simp) (Or.inl hlast') fun p hp =>
        hfirm p (by simp [flagged, hp]))
  | @needless fs before last t t' hneed hmore ih =>
      obtain ⟨flag, flags, rfl⟩ := List.exists_cons_of_length_eq_add_one hlength
      cases flag with
      | false =>
          refine .needless hneed (ih (Nat.succ.inj hlength) (by simp) (Or.inr (Or.inl ?_)) hfirm)
          rw [visible_append]
          exact List.getLast?_concat
      | true =>
          exfalso
          obtain ⟨⟨hbrace, hcall⟩, c, hc, hsemi, hopen⟩ := hfirm (read, t) (by simp [flagged])
          rcases hlast with hlast | hlast | hlast
          · rw [hc] at hlast
            subst hlast
            rcases hneed with hneed | ⟨hneed | hneed, hparen⟩
            · exact hsemi (Option.some.inj hneed)
            · exact hopen (Option.some.inj hneed)
            · exact hparen (hmore.head_paren (hbrace (hc.trans hneed)))
          · rw [hc] at hlast
            exact hsemi (Option.some.inj hlast)
          · exact hcall hlast
  | @call fs before last w t t' hw hmay _ ih =>
      rw [flagged_append _ _ (not_mem_call hw)] at hfirm
      refine .call hw hmay (ih hlength (by rw [hread, lastOr_append]) (Or.inr (Or.inr ?_)) hfirm)
      exact ⟨read, w, [], by simp, hw, blank_nil, hread ▸ hmay⟩
  | @callEnd fs before last w b t t' hw hmay hb _ ih =>
      obtain ⟨flag, flags, rfl⟩ := List.exists_cons_of_length_eq_add_one hlength
      rw [← List.append_assoc,
        flagged_append _ _ (by simp [not_mem_call hw, not_mem_blank hb])] at hfirm
      cases flag with
      | false =>
          refine .callEnd hw hmay hb (ih (Nat.succ.inj hlength) (by simp) (Or.inr (Or.inl ?_)) hfirm)
          rw [visible_append]
          exact List.getLast?_concat
      | true =>
          have hcall := (hfirm (read ++ (w ++ b), t) (by simp [flagged])).call
          exact absurd ⟨read, w, b, rfl, hw, hb, hread ▸ hmay⟩ hcall

/-- Collapsing keeps semicolons that are firm. -/
theorem tidied_collapse (hlength : flags.length = t.count ';')
    (hfirm : ∀ p ∈ flagged flags [] t, Firm m p.1 p.2) :
    Tidied m flags none none t (visible (collapse m t)) := by
  obtain ⟨fs, hfs⟩ := exists_tidied_collapse m t
  exact hfs.keeping (hlength.trans hfs.length_eq.symm) rfl (Or.inl rfl) hfirm

end Tidied

end Stencil.Normalize
