import Stencil.Proofs.Style.Thinning
/-!
# The passes that thin out white space

Each pass of the compressed style after the first thins its text, brings one property of the white
space about, and changes nothing where the text has that property already.
-/
namespace Stencil

namespace Style

open Text

/-- White space stands directly inside neither quote of a pair, where the quotes are paired from left
to right. -/
def Snug (t : Text) : Prop :=
  ∀ u v w, t = u ++ '"' :: (v ++ '"' :: w) → u.count '"' % 2 = 0 → '"' ∉ v →
    Flush v ∧ Flush v.reverse

variable {before : Option Char} {t new rest : Text}

/-! ## The gaps between tags -/

theorem tagGap_eq_some : tagGap before t = some (new, rest) ↔
    ∃ gap, gap ≠ [] ∧ Blank gap ∧ t = '>' :: (gap ++ ['<']) ++ rest ∧ new = ['>', '<'] := by
  constructor
  · intro h
    unfold tagGap at h
    split at h
    · rename_i gap
      split at h
      · rename_i rest' hhead htrim
        rw [Option.some.injEq, Prod.mk.injEq] at h
        obtain ⟨b, hb, hgap⟩ := exists_blank_trimStart gap
        rw [htrim, h.2] at hgap
        refine ⟨b, ?_, hb, by simp [hgap], h.1.symm⟩
        intro hnil
        rw [hgap, hnil] at hhead
        simp [isBlank] at hhead
      · simp at h
    · simp at h
  · rintro ⟨gap, hne, hgap, rfl, rfl⟩
    have htrim : trimStart (gap ++ '<' :: rest) = '<' :: rest :=
      trimStart_append hgap (by rw [flush_cons]; decide)
    cases gap with
    | nil => exact absurd rfl hne
    | cons c gap =>
        rw [blank_cons] at hgap
        rw [List.cons_append] at htrim
        simp [tagGap, htrim, hgap.1]

theorem tagGap_advances : Rule.Advances tagGap := by
  intro before t new rest h
  obtain ⟨gap, -, -, ht, -⟩ := tagGap_eq_some.mp h
  exact ⟨'>' :: (gap ++ ['<']), by simp, ht⟩

theorem gapless_cons {c : Char} (hc : c = '>' → ∀ gap v, t = gap ++ '<' :: v → Blank gap → gap = [])
    (ht : Gapless t) : Gapless (c :: t) := by
  intro u gap v h hgap
  cases u with
  | nil =>
      rw [List.nil_append, List.cons.injEq] at h
      exact hc h.1 gap v h.2 hgap
  | cons d u =>
      rw [List.cons_append, List.cons.injEq] at h
      exact ht u gap v h.2 hgap

/-- The second pass thins the text and leaves no gap between tags. -/
theorem tagGap_thins (t : Text) :
    Thins none t (t.replaceAll tagGap) ∧ Gapless (t.replaceAll tagGap) := by
  apply replaceFrom_induct tagGap_advances
    (motive := fun before t out => Thins before t out ∧ Gapless out)
  case nil =>
    intro before
    exact ⟨.nil before, by simp [Gapless]⟩
  case miss =>
    intro before c t new hmiss ih
    refine ⟨.keep c ih.1, gapless_cons ?_ ih.2⟩
    -- a gap left behind a tag was there before, and the rule would have read it
    rintro rfl gap v rfl hgap
    obtain ⟨old, rest, rfl, hold, hne⟩ := ih.1.to_gap (c := '<') (by decide) hgap
    by_contra hgap
    have hhit : tagGap before ('>' :: (old ++ '<' :: rest)) = some (['>', '<'], rest) :=
      tagGap_eq_some.mpr ⟨old, hne hgap, hold, by simp, rfl⟩
    rw [hhit] at hmiss
    contradiction
  case hit =>
    intro before old rest new more _ hhit ih
    obtain ⟨gap, hne, hgap, hold, rfl⟩ := tagGap_eq_some.mp hhit
    rw [List.append_cancel_right hold] at ih ⊢
    constructor
    · have hlt : Thins (some '>') ('<' :: rest) ('<' :: more) := .keep '<' (by simpa using ih.1)
      have hgt : Thins before ('>' :: (gap ++ '<' :: rest)) ('>' :: '<' :: more) :=
        .keep '>' (.drop hne hgap (Or.inl ⟨rfl, rfl⟩) hlt)
      simpa using hgt
    · apply gapless_cons
      · intro _ gap v hv hgap
        cases gap with
        | nil => rfl
        | cons d gap =>
            have hd : '<' = d := (List.cons.inj hv).1
            rw [blank_cons, ← hd] at hgap
            exact absurd hgap.1 (by decide)
      · exact gapless_cons (by simp) ih.2

theorem replaceAll_tagGap (ht : Gapless t) : t.replaceAll tagGap = t := by
  apply replaceFrom_self tagGap_advances
  intro u v new rest huv h
  obtain ⟨gap, hne, hgap, rfl, -⟩ := tagGap_eq_some.mp h
  exact absurd (ht u gap rest (by simp [huv]) hgap) hne

/-! ## Runs of white space -/

theorem blankRun_eq_some : blankRun before t = some (new, rest) ↔
    ∃ gap, gap ≠ [] ∧ Blank gap ∧ Flush rest ∧ t = gap ++ rest ∧ new = [' '] := by
  unfold blankRun
  constructor
  · intro h
    split at h
    · rename_i hhead
      rw [Option.some.injEq, Prod.mk.injEq] at h
      obtain ⟨b, hb, ht⟩ := exists_blank_trimStart t
      have hflush := flush_trimStart t
      rw [h.2] at ht hflush
      refine ⟨b, ?_, hb, hflush, ht, h.1.symm⟩
      intro hnil
      rw [hnil, List.nil_append] at ht
      rw [ht] at hhead
      cases rest with
      | nil => simp at hhead
      | cons c rest =>
          rw [flush_cons] at hflush
          simp [hflush] at hhead
    · simp at h
  · rintro ⟨gap, hne, hgap, hrest, rfl, rfl⟩
    rw [trimStart_append hgap hrest]
    cases gap with
    | nil => exact absurd rfl hne
    | cons c gap =>
        rw [blank_cons] at hgap
        simp [hgap.1]

theorem blankRun_advances : Rule.Advances blankRun := by
  intro before t new rest h
  obtain ⟨gap, hne, -, -, ht, -⟩ := blankRun_eq_some.mp h
  exact ⟨gap, hne, ht⟩

/-- The third pass thins the text and leaves single blanks. -/
theorem blankRun_thins (t : Text) :
    Thins none t (t.replaceAll blankRun) ∧ Spaced (t.replaceAll blankRun) := by
  have key : ∀ before, Thins before t (replaceFrom blankRun 0 before t) ∧
      Spaced (replaceFrom blankRun 0 before t) ∧
      (Flush t → Flush (replaceFrom blankRun 0 before t)) := by
    intro before
    apply replaceFrom_induct blankRun_advances
      (motive := fun before t out => Thins before t out ∧ Spaced out ∧ (Flush t → Flush out))
    case nil =>
      intro before
      exact ⟨.nil before, by simp [Spaced], id⟩
    case miss =>
      intro before c t new hmiss ih
      have hc : isBlank c = false := by
        by_contra hc
        rw [Bool.not_eq_false] at hc
        simp [blankRun, hc] at hmiss
      exact ⟨.keep c ih.1, spaced_cons (by simp [hc]) ih.2.1, by simp⟩
    case hit =>
      intro before old rest new more hne hhit ih
      obtain ⟨gap, -, hgap, hrest, hold, rfl⟩ := blankRun_eq_some.mp hhit
      rw [← List.append_cancel_right hold] at hgap
      refine ⟨.blank hne hgap ih.1, spaced_cons (fun _ => ⟨rfl, ih.2.2 hrest⟩) ih.2.1, ?_⟩
      intro hflush
      cases old with
      | nil => exact absurd rfl hne
      | cons c old =>
          rw [blank_cons] at hgap
          rw [List.cons_append, flush_cons, hgap.1] at hflush
          contradiction
  exact ⟨(key none).1, (key none).2.1⟩

theorem replaceAll_blankRun (ht : Spaced t) : t.replaceAll blankRun = t := by
  apply replaceFrom_self blankRun_advances
  intro u v new rest huv h
  obtain ⟨gap, hne, hgap, -, rfl, rfl⟩ := blankRun_eq_some.mp h
  rw [huv] at ht
  rw [(ht.of_append.run hne hgap).1]

/-! ## White space inside quotes -/

theorem quotedPadding_eq_some : quotedPadding before t = some (new, rest) ↔
    ∃ inside, '"' ∉ inside ∧ t = '"' :: (inside ++ ['"']) ++ rest ∧
      new = '"' :: (trim inside ++ ['"']) := by
  have spans {inside : Text} (hin : '"' ∉ inside) (rest : Text) :
      (inside ++ '"' :: rest).takeWhile (· != '"') = inside ∧
      (inside ++ '"' :: rest).dropWhile (· != '"') = '"' :: rest := by
    have hall : ∀ c ∈ inside, (c != '"') = true := by
      intro c hc
      rw [bne_iff_ne]
      rintro rfl
      exact hin hc
    constructor
    · rw [List.takeWhile_append_of_pos hall]
      simp
    · rw [List.dropWhile_append_of_pos hall]
      simp
  constructor
  · intro h
    unfold quotedPadding at h
    split at h
    · rename_i inside
      split at h
      · rename_i rest' hdrop
        rw [Option.some.injEq, Prod.mk.injEq] at h
        refine ⟨inside.takeWhile (· != '"'), ?_, ?_, ?_⟩
        · intro hmem
          have hall := List.all_eq_true.mp List.all_takeWhile _ hmem
          simp at hall
        · have hsplit := List.takeWhile_append_dropWhile (p := (· != '"')) (l := inside)
          rw [hdrop, h.2] at hsplit
          simp only [List.cons_append, List.append_assoc, List.nil_append]
          rw [hsplit]
        · rw [← h.1]
          rfl
      · simp at h
    · simp at h
  · rintro ⟨inside, hin, rfl, rfl⟩
    obtain ⟨htake, hdrop⟩ := spans hin rest
    simp [quotedPadding, htake, hdrop]

/-- A quote that is not paired is the last one. -/
theorem not_mem_of_lone (h : quotedPadding before ('"' :: t) = none) : '"' ∉ t := by
  intro hmem
  obtain ⟨inside, rest, rfl, hin⟩ := List.eq_append_cons_of_mem hmem
  have hhit : quotedPadding before ('"' :: (inside ++ '"' :: rest)) =
      some ('"' :: (trim inside ++ ['"']), rest) :=
    quotedPadding_eq_some.mpr ⟨inside, hin, by simp, rfl⟩
  rw [hhit] at h
  contradiction

theorem quotedPadding_advances : Rule.Advances quotedPadding := by
  intro before t new rest h
  obtain ⟨inside, -, ht, -⟩ := quotedPadding_eq_some.mp h
  exact ⟨'"' :: (inside ++ ['"']), by simp, ht⟩

theorem snug_cons {c : Char} (hc : c ≠ '"') : Snug (c :: t) ↔ Snug t := by
  constructor
  · intro h u v w ht heven
    apply h (c :: u) v w (by rw [ht, List.cons_append])
    rw [List.count_cons_of_ne hc]
    exact heven
  · intro h u v w ht heven
    cases u with
    | nil => exact absurd (List.cons.inj ht).1 hc
    | cons d u =>
        rw [List.cons_append, List.cons.injEq] at ht
        rw [← ht.1, List.count_cons_of_ne hc] at heven
        exact h u v w ht.2 heven

theorem snug_of_not_mem (ht : '"' ∉ t) : Snug t := by
  intro u v w h
  rw [h] at ht
  simp at ht

theorem snug_lone (ht : '"' ∉ t) : Snug ('"' :: t) := by
  intro u v w h
  -- the text would hold two quotes
  have hcount := congrArg (List.count '"') h
  rw [List.count_cons_self, List.count_eq_zero_of_not_mem ht, List.count_append,
    List.count_cons_self, List.count_append, List.count_cons_self] at hcount
  omega

theorem snug_pair {inside : Text} (hin : '"' ∉ inside) :
    Snug ('"' :: (inside ++ ['"']) ++ t) ↔ (Flush inside ∧ Flush inside.reverse) ∧ Snug t := by
  have hcount (u : Text) : ('"' :: (inside ++ ['"']) ++ u).count '"' = u.count '"' + 2 := by
    simp [List.count_append, List.count_eq_zero_of_not_mem hin]
  constructor
  · intro h
    constructor
    · exact h [] inside t (by simp) (by simp) hin
    · intro u v w ht heven
      apply h ('"' :: (inside ++ ['"']) ++ u) v w (by rw [ht, List.append_assoc])
      rw [hcount]
      omega
  · rintro ⟨hflush, h⟩ u v w ht heven hv
    cases u with
    | nil =>
        have hcut : inside ++ '"' :: t = v ++ '"' :: w := by simpa using ht
        rw [← (cut_unique hin hv hcut).1]
        exact hflush
    | cons d u =>
        have hhead : '"' = d ∧ inside ++ '"' :: t = u ++ '"' :: (v ++ '"' :: w) := by simpa using ht
        obtain ⟨rfl, hrest⟩ := hhead
        -- the quote that closes the first pair is one of those before
        have hmem : '"' ∈ u := by
          by_contra hu
          rw [List.count_cons_self, List.count_eq_zero_of_not_mem hu] at heven
          contradiction
        obtain ⟨u₁, u₂, rfl, hu₁⟩ := List.eq_append_cons_of_mem hmem
        rw [List.append_assoc, List.cons_append] at hrest
        obtain ⟨rfl, rfl⟩ := cut_unique hin hu₁ hrest
        apply h u₂ v w rfl _ hv
        rw [List.count_cons_self, List.count_append, List.count_eq_zero_of_not_mem hin,
          List.count_cons_self] at heven
        omega

/-- Where a pair of quotes has lost its padding, the text is thinned. -/
theorem Thins.pair {inside : Text} (h : Thins (some '"') t new) :
    Thins before ('"' :: (inside ++ ['"']) ++ t) ('"' :: (trim inside ++ ['"']) ++ new) := by
  obtain ⟨b, b', hb, hb', hinside⟩ := exists_trim inside
  have hclose : Thins (lastOr (some '"') (trim inside)) (b' ++ '"' :: t) ('"' :: new) :=
    .dropAny hb' (Or.inr (Or.inr (Or.inl rfl))) (.keep '"' h)
  have hopen : Thins (some '"') (b ++ (trim inside ++ (b' ++ '"' :: t)))
      (trim inside ++ '"' :: new) :=
    .dropAny hb (Or.inr (Or.inl rfl)) (.prepend (trim inside) hclose)
  have hsame : b ++ (trim inside ++ (b' ++ '"' :: t)) = inside ++ '"' :: t := by
    rw [← List.append_assoc (trim inside), ← List.append_assoc b, ← hinside]
  rw [hsame] at hopen
  have hpair : Thins before ('"' :: (inside ++ '"' :: t)) ('"' :: (trim inside ++ '"' :: new)) :=
    .keep '"' hopen
  simpa using hpair

/-- The fourth pass thins the text and leaves no white space directly inside a pair of quotes. -/
theorem quotedPadding_thins (t : Text) :
    Thins none t (t.replaceAll quotedPadding) ∧ Snug (t.replaceAll quotedPadding) := by
  have key : Thins none t (t.replaceAll quotedPadding) ∧ Snug (t.replaceAll quotedPadding) ∧
      ('"' ∉ t → '"' ∉ t.replaceAll quotedPadding) := by
    apply replaceFrom_induct quotedPadding_advances
      (motive := fun before t out => Thins before t out ∧ Snug out ∧ ('"' ∉ t → '"' ∉ out))
    case nil =>
      intro before
      exact ⟨.nil before, by simp [Snug], id⟩
    case miss =>
      intro before c t new hmiss ih
      refine ⟨.keep c ih.1, ?_, ?_⟩
      · by_cases hc : c = '"'
        · rw [hc] at hmiss ⊢
          exact snug_lone (ih.2.2 (not_mem_of_lone hmiss))
        · exact (snug_cons hc).mpr ih.2.1
      · simp only [List.mem_cons, not_or]
        exact fun hne => ⟨hne.1, ih.2.2 hne.2⟩
    case hit =>
      intro before old rest new more _ hhit ih
      obtain ⟨inside, hin, hold, rfl⟩ := quotedPadding_eq_some.mp hhit
      rw [List.append_cancel_right hold] at ih ⊢
      refine ⟨.pair (by simpa using ih.1), ?_, by simp⟩
      have htrim : '"' ∉ trim inside := fun hmem => hin ((infix_of_trim inside).mem hmem)
      exact (snug_pair htrim).mpr
        ⟨⟨flush_trim inside, flush_reverse_trim inside⟩, ih.2.1⟩
  exact ⟨key.1, key.2.1⟩

theorem replaceAll_quotedPadding (t : Text) : Snug t → t.replaceAll quotedPadding = t := by
  apply replaceFrom_induct quotedPadding_advances (motive := fun _ t out => Snug t → out = t)
  case nil =>
    intro _ _
    rfl
  case miss =>
    intro before c t new hmiss ih h
    by_cases hc : c = '"'
    · rw [hc] at hmiss
      rw [ih (snug_of_not_mem (not_mem_of_lone hmiss))]
    · rw [ih ((snug_cons hc).mp h)]
  case hit =>
    intro before old rest new more _ hhit ih h
    obtain ⟨inside, hin, hold, rfl⟩ := quotedPadding_eq_some.mp hhit
    rw [List.append_cancel_right hold] at h ⊢
    obtain ⟨⟨hfront, hback⟩, hrest⟩ := (snug_pair hin).mp h
    rw [ih hrest, trim_of_flush hfront hback]

/-! ## The ends of the text -/

/-- The last pass thins the text. -/
theorem trim_thins (t : Text) : Thins none t (trim t) := by
  obtain ⟨b, b', hb, hb', ht⟩ := exists_trim t
  have hback : Thins (lastOr none (trim t)) b' [] := by
    simpa using Thins.dropAny hb' (Or.inr (Or.inr (Or.inr (Or.inr rfl)))) (.nil _)
  have hfront : Thins none (b ++ (trim t ++ b')) (trim t ++ []) :=
    .dropAny hb (Or.inr (Or.inr (Or.inr (Or.inl rfl)))) (.prepend (trim t) hback)
  rw [List.append_nil, ← ht] at hfront
  exact hfront

/-- Trimming leaves what stands inside the quotes. -/
theorem snug_trim (ht : Snug t) : Snug (trim t) := by
  obtain ⟨b, b', hb, -, htrim⟩ := exists_trim t
  have hquote : '"' ∉ b := by
    intro hmem
    exact absurd (hb _ hmem) (by decide)
  intro u v w h heven
  apply ht (b ++ u) v (w ++ b')
  · rw [htrim, h]
    simp
  · rw [List.count_append, List.count_eq_zero_of_not_mem hquote]
    omega

end Style

end Stencil
