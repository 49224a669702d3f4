import Stencil.Proofs.Normalize.Items
import Mathlib.Data.List.Chain
/-!
# Tidy code

What the collapsing passes leave of code without empty calls has nothing that they would take: no
white space beside a semicolon or a brace, no semicolon that could go. They leave such code as it is.
-/
namespace Stencil.Normalize

open Text

/-- White space and a mark of the kind, one beside the other. -/
def Slack (kind : Char → Bool) (a b : Char) : Prop :=
  isBlank a = true ∧ kind b = true ∨ kind a = true ∧ isBlank b = true

/-- Neither white space and a mark nor two semicolons. -/
structure Apart (a b : Char) : Prop where
  space : ¬ Slack isStop a b
  semicolon : ¬ (a = ';' ∧ b = ';')

/-- After a brace a semicolon is left only before a parenthesis. -/
def Sparse (t : Text) : Prop :=
  ∀ u c v, t = u ++ c :: ';' :: v → c = '{' ∨ c = '}' → v.head? = some '('

/-- Code that the collapsing passes have nothing to take from. -/
structure Tidy (t : Text) : Prop where
  apart : t.IsChain Apart
  sparse : Sparse t
  front : Flush t
  back : Flush t.reverse

/-! ## White space -/

section Space

variable {kind : Char → Bool} {related : Char → Char → Prop}

private theorem spaceRule_ne_none {before : Option Char} {t rest : Text} {c : Char}
    (ht : trimStart t = c :: rest) (hc : kind c = true) : spaceRule kind before t ≠ none := by
  simp [spaceRule, ht, hc]

theorem advances_spaceRule : (spaceRule kind).Advances := by
  intro before t new rest h
  obtain ⟨b, c, g, -, -, -, -, ht, -⟩ := spaceRule_eq_some h
  exact ⟨b ++ c :: g, by simp, by rw [ht]; simp⟩

/-- Spacing leaves no white space beside a mark of the kind, and keeps apart what was. -/
theorem isChain_spaceRule (hkind : ∀ c, kind c = true → isStop c = true)
    (hrelated : ∀ a b, kind a = true ∨ kind b = true → related a b) {t : Text}
    (h : t.IsChain related) :
    (t.replaceAll (spaceRule kind)).IsChain fun a b => related a b ∧ ¬ Slack kind a b := by
  have hblank {c : Char} (hc : kind c = true) : isBlank c = false := isBlank_of_stop (hkind c hc)
  -- what the new text begins with is a mark that comes next, or began the old text
  suffices key : (∀ c, (t.replaceAll (spaceRule kind)).head? = some c →
        (kind c = true ∧ ∃ r, trimStart t = c :: r) ∨ (kind c = false ∧ t.head? = some c)) ∧
      (t.IsChain related → (t.replaceAll (spaceRule kind)).IsChain fun a b =>
        related a b ∧ ¬ Slack kind a b) from key.2 h
  refine replaceFrom_induct advances_spaceRule (motive := fun _ t out => (∀ c, out.head? = some c →
      (kind c = true ∧ ∃ r, trimStart t = c :: r) ∨ (kind c = false ∧ t.head? = some c)) ∧
    (t.IsChain related → out.IsChain fun a b => related a b ∧ ¬ Slack kind a b)) ?_ ?_ ?_ none t
  · exact fun _ => ⟨by simp, fun _ => .nil⟩
  · rintro before c t out hmiss ⟨hhead, ih⟩
    have hc : kind c = false := by
      rw [Bool.eq_false_iff]
      intro hc
      exact spaceRule_ne_none (trimStart_of_flush (flush_cons.mpr (hblank hc))) hc hmiss
    refine ⟨fun d hd => Or.inr ?_, fun hchain => ?_⟩
    · rw [List.head?_cons, Option.some.injEq] at hd
      subst hd
      exact ⟨hc, rfl⟩
    · obtain ⟨hnext, htail⟩ := List.isChain_cons.mp hchain
      refine List.isChain_cons.mpr ⟨fun d hd => ?_, ih htail⟩
      rcases hhead d hd with ⟨hd, r, hr⟩ | ⟨hd, ht⟩
      · refine ⟨hrelated c d (Or.inr hd), ?_⟩
        rintro (⟨hspace, -⟩ | ⟨hkind, -⟩)
        · have : trimStart (c :: t) = d :: r := by
            rw [← hr]
            exact trimStart_blank_append (b := [c]) (by simpa using hspace) t
          exact spaceRule_ne_none this hd hmiss
        · rw [hc] at hkind
          simp at hkind
      · refine ⟨hnext d ht, ?_⟩
        rintro (⟨-, hkind⟩ | ⟨hkind, -⟩)
        · rw [hd] at hkind
          simp at hkind
        · rw [hc] at hkind
          simp at hkind
  · rintro before old rest new more hold hhit ⟨hhead, ih⟩
    obtain ⟨b, c, g, hb, -, hc, rfl, ht, hflush⟩ := spaceRule_eq_some hhit
    refine ⟨fun d hd => Or.inl ?_, fun hchain => ?_⟩
    · rw [List.singleton_append, List.head?_cons, Option.some.injEq] at hd
      subst hd
      exact ⟨hc, g ++ rest, by rw [ht, trimStart_append hb (flush_cons.mpr (hblank hc))]⟩
    · refine List.isChain_cons.mpr ⟨fun d hd => ⟨hrelated c d (Or.inl hc), ?_⟩,
        ih (hchain.suffix (List.suffix_append _ _))⟩
      rintro (⟨hspace, -⟩ | ⟨-, hspace⟩)
      · rw [hblank hc] at hspace
        simp at hspace
      · rcases hhead d hd with ⟨hd, -⟩ | ⟨-, hd⟩
        · rw [hblank hd] at hspace
          simp at hspace
        · rw [hflush d hd] at hspace
          simp at hspace

/-- Where no white space stands beside a mark of the kind, spacing changes nothing. -/
theorem replaceAll_spaceRule (hkind : ∀ c, kind c = true → isStop c = true) {t : Text}
    (h : t.IsChain Apart) : t.replaceAll (spaceRule kind) = t := by
  refine replaceFrom_self advances_spaceRule fun u v new rest ht hr => ?_
  obtain ⟨b, c, g, hb, hg, hc, rfl, rfl, -⟩ := spaceRule_eq_some hr
  have hnil : b = [] := by
    rcases List.eq_nil_or_concat b with rfl | ⟨b, d, rfl⟩
    · rfl
    · have hloose : Slack isStop d c := Or.inl ⟨hb d (by simp), hkind c hc⟩
      rw [ht, List.concat_eq_append, List.append_assoc, List.singleton_append, ← List.append_assoc,
        List.isChain_append_cons_cons] at h
      exact absurd hloose h.2.1.space
  have hnil' : g = [] := by
    cases g with
    | nil => rfl
    | cons d g =>
        have hloose : Slack isStop c d := Or.inr ⟨hkind c hc, hg d (by simp)⟩
        rw [ht, ← List.append_assoc, List.cons_append, List.isChain_append_cons_cons] at h
        exact absurd hloose h.2.1.space
  subst hnil hnil'
  rfl

end Space

/-! ## Semicolons -/

/-- The last of some semicolons stands before what follows them. -/
private theorem isChain_semicolons {related : Char → Char → Prop} {g t : Text}
    (hg : ∀ c ∈ g, c = ';') (h : (';' :: (g ++ t)).IsChain related) :
    (';' :: t).IsChain related := by
  induction g with
  | nil => exact h
  | cons c g ih =>
      obtain ⟨rfl, hrest⟩ := List.forall_mem_cons.mp hg
      exact ih hrest (List.isChain_cons_cons.mp h).2

/-- No two semicolons are left. -/
theorem isChain_repeatedSemicolon {related : Char → Char → Prop} {t : Text}
    (h : t.IsChain related) : (t.replaceAll repeatedSemicolon).IsChain fun a b =>
      related a b ∧ ¬ (a = ';' ∧ b = ';') := by
  suffices key : (t.replaceAll repeatedSemicolon).head? = t.head? ∧
      (t.IsChain related → (t.replaceAll repeatedSemicolon).IsChain fun a b =>
        related a b ∧ ¬ (a = ';' ∧ b = ';')) from key.2 h
  refine replaceFrom_induct edits_repeatedSemicolon.advances
    (motive := fun _ t out => out.head? = t.head? ∧ (t.IsChain related → out.IsChain fun a b =>
      related a b ∧ ¬ (a = ';' ∧ b = ';'))) ?_ ?_ ?_ none t
  · exact fun _ => ⟨rfl, fun _ => .nil⟩
  · rintro before c t out hmiss ⟨hhead, ih⟩
    refine ⟨rfl, fun hchain => ?_⟩
    obtain ⟨hnext, htail⟩ := List.isChain_cons.mp hchain
    refine List.isChain_cons.mpr ⟨fun d hd => ?_, ih htail⟩
    rw [Option.mem_def, hhead] at hd
    refine ⟨hnext d hd, ?_⟩
    rintro ⟨rfl, rfl⟩
    obtain ⟨t, rfl⟩ := List.head?_eq_some_iff.mp hd
    simp [repeatedSemicolon] at hmiss
  · rintro before old rest new more hold hhit ⟨hhead, ih⟩
    obtain ⟨g, hg, rfl, ht, hne⟩ := repeatedSemicolon_eq_some hhit
    refine ⟨by rw [ht]; rfl, fun hchain => ?_⟩
    rw [ht] at hchain
    have hrest := isChain_semicolons hg (List.isChain_cons_cons.mp hchain).2
    obtain ⟨hnext, htail⟩ := List.isChain_cons.mp hrest
    refine List.isChain_cons.mpr ⟨fun d hd => ?_, ih htail⟩
    have hd' := hhead.symm.trans hd
    refine ⟨hnext d hd', ?_⟩
    rintro ⟨-, rfl⟩
    exact hne hd'

theorem replaceAll_repeatedSemicolon {t : Text} (h : t.IsChain Apart) :
    t.replaceAll repeatedSemicolon = t := by
  refine replaceFrom_self edits_repeatedSemicolon.advances fun u v new rest ht hr => ?_
  obtain ⟨g, -, -, rfl, -⟩ := repeatedSemicolon_eq_some hr
  rw [ht, List.isChain_append_cons_cons] at h
  exact absurd ⟨rfl, rfl⟩ h.2.1.semicolon

theorem sparse_cons {c : Char} {t : Text} (hc : (c = '{' ∨ c = '}') → ∀ v, t = ';' :: v →
    v.head? = some '(') (ht : Sparse t) : Sparse (c :: t) := by
  intro u d v hsplit hd
  cases u with
  | nil =>
      rw [List.nil_append, List.cons.injEq] at hsplit
      obtain ⟨rfl, rfl⟩ := hsplit
      exact hc hd v rfl
  | cons e u =>
      rw [List.cons_append, List.cons.injEq] at hsplit
      exact ht u d v hsplit.2 hd

private theorem braceSemicolon_ne_none {before : Option Char} {c : Char} {t : Text}
    (hc : c = '{' ∨ c = '}') : braceSemicolon before (c :: ';' :: t) ≠ none := by
  rcases hc with rfl | rfl
  · simp only [braceSemicolon]
    split <;> simp
  · simp only [braceSemicolon]
    split <;> simp

/-- The last rule leaves apart what was, and no semicolon after a brace that could go. -/
theorem sparse_braceSemicolon {t : Text} (h : t.IsChain Apart) :
    (t.replaceAll braceSemicolon).IsChain Apart ∧ Sparse (t.replaceAll braceSemicolon) := by
  suffices key : (t.replaceAll braceSemicolon).head? = t.head? ∧ (t.IsChain Apart →
      (t.replaceAll braceSemicolon).IsChain Apart ∧ Sparse (t.replaceAll braceSemicolon))
    from key.2 h
  refine replaceFrom_induct edits_braceSemicolon.advances
    (motive := fun _ t out => out.head? = t.head? ∧ (t.IsChain Apart →
      out.IsChain Apart ∧ Sparse out)) ?_ ?_ ?_ none t
  · exact fun _ => ⟨rfl, fun _ => ⟨.nil, fun u c v h => by simp at h⟩⟩
  · rintro before c t out hmiss ⟨hhead, ih⟩
    refine ⟨rfl, fun hchain => ?_⟩
    obtain ⟨hnext, htail⟩ := List.isChain_cons.mp hchain
    obtain ⟨hapart, hsparse⟩ := ih htail
    refine ⟨List.isChain_cons.mpr ⟨fun d hd => hnext d (by rwa [← hhead]), hapart⟩,
      sparse_cons (fun hc v hv => ?_) hsparse⟩
    rw [hv, List.head?_cons, eq_comm] at hhead
    obtain ⟨t, rfl⟩ := List.head?_eq_some_iff.mp hhead
    exact absurd hmiss (braceSemicolon_ne_none hc)
  · rintro before old rest new more hold hhit ⟨hhead, ih⟩
    obtain ⟨c, hc, ⟨rfl, ht⟩ | ⟨rfl, ht, -⟩⟩ := braceSemicolon_eq_some hhit
    · refine ⟨by rw [ht]; rfl, fun hchain => ?_⟩
      rw [show old ++ rest = [c, ';', '('] ++ rest from ht] at hchain
      obtain ⟨hfront, hrest, hjoin⟩ := List.isChain_append.mp hchain
      obtain ⟨hapart, hsparse⟩ := ih hrest
      refine ⟨List.isChain_append.mpr ⟨hfront, hapart, fun d hd e he => hjoin d hd e ?_⟩, ?_⟩
      · rwa [← hhead]
      · refine sparse_cons (fun _ v hv => ?_) (sparse_cons (fun h => absurd h (by decide))
          (sparse_cons (fun h => absurd h (by decide)) hsparse))
        rw [← (List.cons.inj hv).2]
        rfl
    · refine ⟨by rw [ht]; rfl, fun hchain => ?_⟩
      rw [ht] at hchain
      obtain ⟨-, hsemi⟩ := List.isChain_cons_cons.mp hchain
      obtain ⟨hnext, hrest⟩ := List.isChain_cons.mp hsemi
      obtain ⟨hapart, hsparse⟩ := ih hrest
      have hstop : isStop c = true ∧ c ≠ ';' := by rcases hc with rfl | rfl <;> decide
      refine ⟨List.isChain_cons.mpr ⟨fun d hd => ⟨?_, fun h => hstop.2 h.1⟩, hapart⟩,
        sparse_cons (fun _ v hv => ?_) hsparse⟩
      · have hd' := hnext d (hhead.symm.trans hd)
        rintro (⟨hspace, -⟩ | ⟨-, hspace⟩)
        · rw [isBlank_of_stop hstop.1] at hspace
          simp at hspace
        · exact hd'.space (Or.inr ⟨rfl, hspace⟩)
      · have hd' := hnext ';' (hhead.symm.trans (by
          rw [show more = ';' :: v from hv]
          rfl))
        exact absurd ⟨rfl, rfl⟩ hd'.semicolon

theorem replaceAll_braceSemicolon {t : Text} (h : Sparse t) : t.replaceAll braceSemicolon = t := by
  refine replaceFrom_self edits_braceSemicolon.advances fun u v new rest ht hr => ?_
  obtain ⟨c, hc, ⟨rfl, rfl⟩ | ⟨rfl, rfl, hne⟩⟩ := braceSemicolon_eq_some hr
  · rfl
  · exact absurd (h u c rest ht hc) hne

/-! ## All passes -/

/-- The passes before the last one leave white space beside no mark, and no two semicolons. -/
private theorem isChain_passes (t : Text) :
    (((t.replaceAll semicolonSpace).replaceAll repeatedSemicolon).replaceAll braceSpace).IsChain
      Apart := by
  have hfree : t.IsChain fun _ _ => True :=
    List.Pairwise.isChain (List.pairwise_of_forall fun _ _ => trivial)
  have hsemi := isChain_spaceRule isStop_of_semicolon (fun _ _ _ => trivial) hfree
  have hbrace := isChain_spaceRule isStop_of_brace (fun a b h => ?_)
    (isChain_repeatedSemicolon hsemi)
  · rw [semicolonSpace_eq, braceSpace_eq]
    refine hbrace.imp fun a b h => ⟨?_, h.1.2⟩
    have either {c : Char} (hc : isStop c = true) :
        (c == ';') = true ∨ (c == '{' || c == '}') = true := by
      simpa [isStop, or_assoc] using hc
    rintro (⟨ha, hb⟩ | ⟨ha, hb⟩)
    · exact (either hb).elim (fun hb => h.1.1.2 (Or.inl ⟨ha, hb⟩)) fun hb => h.2 (Or.inl ⟨ha, hb⟩)
    · exact (either ha).elim (fun ha => h.1.1.2 (Or.inr ⟨ha, hb⟩)) fun ha => h.2 (Or.inr ⟨ha, hb⟩)
  · -- a brace is neither white space nor a semicolon
    have hout {c : Char} (hc : (c == '{' || c == '}') = true) : isBlank c = false ∧ c ≠ ';' := by
      rw [Bool.or_eq_true, beq_iff_eq, beq_iff_eq] at hc
      rcases hc with rfl | rfl <;> decide
    rcases h with h | h
    · refine ⟨⟨trivial, ?_⟩, fun hab => (hout h).2 hab.1⟩
      rintro (⟨ha, -⟩ | ⟨ha, -⟩)
      · rw [(hout h).1] at ha
        simp at ha
      · exact (hout h).2 (eq_of_beq ha)
    · refine ⟨⟨trivial, ?_⟩, fun hab => (hout h).2 hab.2⟩
      rintro (⟨-, hb⟩ | ⟨-, hb⟩)
      · exact (hout h).2 (eq_of_beq hb)
      · rw [(hout h).1] at hb
        simp at hb

private theorem Sparse.of_append {b t b' : Text} (hb' : Blank b') (h : Sparse (b ++ (t ++ b'))) :
    Sparse t := by
  rintro u c v rfl hc
  have hhead := h (b ++ u) c (v ++ b') (by simp) hc
  cases v with
  | nil =>
      obtain ⟨r, rfl⟩ := List.head?_eq_some_iff.mp hhead
      have hblank : isBlank '(' = true := hb' _ (by simp)
      exact absurd hblank (by decide)
  | cons d v => exact hhead

/-- What collapsing leaves is tidy. -/
theorem tidy_collapse {m : Mask} {t : Text} (h : CallFree m t) : Tidy (collapse m t) := by
  obtain ⟨hapart, hsparse⟩ := sparse_braceSemicolon (isChain_passes t)
  rw [collapse_of_callFree h]
  generalize (((t.replaceAll semicolonSpace).replaceAll repeatedSemicolon).replaceAll
    braceSpace).replaceAll braceSemicolon = s at hapart hsparse
  obtain ⟨b, b', -, hb', hs⟩ := exists_trim s
  refine ⟨?_, ?_, flush_trim s, flush_reverse_trim s⟩
  · exact hapart.infix (infix_of_trim s)
  · rw [hs] at hsparse
    exact hsparse.of_append hb'

/-- Tidy code stays as it is. -/
theorem collapse_of_tidy {m : Mask} {t : Text} (h : CallFree m t) (ht : Tidy t) :
    collapse m t = t := by
  rw [collapse_of_callFree h, semicolonSpace_eq, braceSpace_eq,
    replaceAll_spaceRule isStop_of_semicolon ht.apart, replaceAll_repeatedSemicolon ht.apart,
    replaceAll_spaceRule isStop_of_brace ht.apart, replaceAll_braceSemicolon ht.sparse, trim,
    trimStart_of_flush ht.front, trimEnd_of_flush ht.back]

end Stencil.Normalize
