import Stencil.Text.Replace
/-!
# Reading the front of a text

White space, a word and a bracketed group are read off the front of a text. Each reader is described
by how it cuts the text, so that later proofs work with concatenations only.
-/
namespace Stencil.Text

/-- Nothing but white space. -/
def Blank (t : Text) : Prop := ∀ c ∈ t, isBlank c = true

instance (t : Text) : Decidable (Blank t) := inferInstanceAs (Decidable (∀ _ ∈ t, _))

@[simp] theorem blank_nil : Blank [] := by simp [Blank]

@[simp] theorem blank_cons {c : Char} {t : Text} : Blank (c :: t) ↔ isBlank c = true ∧ Blank t := by
  simp [Blank]

@[simp] theorem blank_append {s t : Text} : Blank (s ++ t) ↔ Blank s ∧ Blank t := by
  simp only [Blank, List.mem_append]
  exact ⟨fun h => ⟨fun c hc => h c (Or.inl hc), fun c hc => h c (Or.inr hc)⟩,
    fun h c hc => hc.elim (h.1 c) (h.2 c)⟩

@[simp] theorem blank_reverse {t : Text} : Blank t.reverse ↔ Blank t := by simp [Blank]

/-- No white space at the front. -/
def Flush (t : Text) : Prop := ∀ c, t.head? = some c → isBlank c = false

instance (t : Text) : Decidable (Flush t) :=
  decidable_of_iff (t.head?.all fun c => !isBlank c) (by simp [Flush, Option.all_eq_true])

@[simp] theorem flush_nil : Flush [] := by simp [Flush]

@[simp] theorem flush_cons {c : Char} {t : Text} : Flush (c :: t) ↔ isBlank c = false := by
  simp [Flush]

theorem flush_append {s t : Text} (hs : Flush s) (ht : s = [] → Flush t) : Flush (s ++ t) := by
  cases s with
  | nil => exact ht rfl
  | cons c s => simpa using hs

theorem flush_trimStart (t : Text) : Flush (trimStart t) := by
  induction t with
  | nil => simp [trimStart]
  | cons c cs ih =>
      by_cases hc : isBlank c = true
      · simpa [trimStart, List.dropWhile_cons, hc] using ih
      · simp [trimStart, hc]

theorem trimStart_of_flush {t : Text} (h : Flush t) : trimStart t = t := by
  cases t with
  | nil => rfl
  | cons c cs =>
      rw [flush_cons] at h
      simp [trimStart, h]

theorem trimStart_blank_append {b : Text} (hb : Blank b) (t : Text) :
    trimStart (b ++ t) = trimStart t := by
  induction b with
  | nil => rfl
  | cons c cs ih =>
      rw [blank_cons] at hb
      simpa [trimStart, List.dropWhile_cons, hb.1] using ih hb.2

/-- White space before a flush text is all that trimming takes. -/
theorem trimStart_append {b t : Text} (hb : Blank b) (ht : Flush t) : trimStart (b ++ t) = t := by
  rw [trimStart_blank_append hb, trimStart_of_flush ht]

theorem blank_takeWhile (t : Text) : Blank (t.takeWhile isBlank) := by
  intro c hc
  induction t with
  | nil => simp at hc
  | cons d ds ih =>
      by_cases hd : isBlank d = true
      · rw [List.takeWhile_cons_of_pos hd, List.mem_cons] at hc
        rcases hc with rfl | hc
        · exact hd
        · exact ih hc
      · rw [List.takeWhile_cons_of_neg hd] at hc
        simp at hc

/-- Every text is white space followed by what trimming leaves. -/
theorem exists_blank_trimStart (t : Text) : ∃ b, Blank b ∧ t = b ++ trimStart t :=
  ⟨t.takeWhile isBlank, blank_takeWhile t, List.takeWhile_append_dropWhile.symm⟩

theorem trimStart_eq_nil {t : Text} : trimStart t = [] ↔ Blank t := by
  constructor
  · intro h
    obtain ⟨b, hb, ht⟩ := exists_blank_trimStart t
    rw [ht, h, List.append_nil]
    exact hb
  · intro h
    simpa using trimStart_append h flush_nil

theorem trimEnd_eq (t : Text) : trimEnd t = (trimStart t.reverse).reverse := rfl

theorem trimEnd_append_blank (t : Text) {b : Text} (hb : Blank b) :
    trimEnd (t ++ b) = trimEnd t := by
  rw [trimEnd_eq, trimEnd_eq, List.reverse_append, trimStart_blank_append (blank_reverse.mpr hb)]

theorem trimEnd_of_flush {t : Text} (h : Flush t.reverse) : trimEnd t = t := by
  rw [trimEnd_eq, trimStart_of_flush h, List.reverse_reverse]

/-- Every text is what trimming its end leaves, followed by white space. -/
theorem exists_trimEnd_blank (t : Text) : ∃ b, Blank b ∧ t = trimEnd t ++ b := by
  obtain ⟨b, hb, ht⟩ := exists_blank_trimStart t.reverse
  refine ⟨b.reverse, blank_reverse.mpr hb, ?_⟩
  have := congrArg List.reverse ht
  rwa [List.reverse_reverse, List.reverse_append] at this

theorem flush_reverse_trimEnd (t : Text) : Flush (trimEnd t).reverse := by
  rw [trimEnd_eq, List.reverse_reverse]
  exact flush_trimStart _

theorem flush_trim (t : Text) : Flush (trim t) := by
  intro c hc
  obtain ⟨b, -, ht⟩ := exists_trimEnd_blank (trimStart t)
  refine flush_trimStart t c ?_
  rw [ht, List.head?_append, show trimEnd (trimStart t) = trim t from rfl, hc]
  rfl

theorem flush_reverse_trim (t : Text) : Flush (trim t).reverse := flush_reverse_trimEnd _

theorem trim_of_flush {t : Text} (ht : Flush t) (ht' : Flush t.reverse) : trim t = t := by
  rw [trim, trimStart_of_flush ht, trimEnd_of_flush ht']

/-- Trimming takes white space from both ends. -/
theorem exists_trim (t : Text) : ∃ b b', Blank b ∧ Blank b' ∧ t = b ++ (trim t ++ b') := by
  obtain ⟨b, hb, hstart⟩ := exists_blank_trimStart t
  obtain ⟨b', hb', hend⟩ := exists_trimEnd_blank (trimStart t)
  exact ⟨b, b', hb, hb', hstart.trans (congrArg (b ++ ·) hend)⟩

theorem infix_of_trim (t : Text) : trim t <:+: t := by
  obtain ⟨b, b', -, -, ht⟩ := exists_trim t
  exact ⟨b, b', by rw [List.append_assoc, ← ht]⟩

/-- White space on both sides of a text is what trimming takes. -/
theorem trim_between {b b' t : Text} (hb : Blank b) (hb' : Blank b') (ht : Flush t)
    (ht' : Flush t.reverse) : trim (b ++ (t ++ b')) = t := by
  rw [trim, trimStart_blank_append hb]
  by_cases hne : t = []
  · rw [hne, List.nil_append, trimStart_eq_nil.mpr hb']
    rfl
  · rw [trimStart_of_flush (flush_append ht fun h => absurd h hne), trimEnd_append_blank t hb',
      trimEnd_of_flush ht']

theorem after?_eq_some {word t rest : Text} : after? word t = some rest ↔ t = word ++ rest := by
  unfold after?
  constructor
  · intro h
    split at h
    · rename_i hp
      obtain ⟨r, rfl⟩ := List.isPrefixOf_iff_prefix.mp hp
      rw [List.drop_left, Option.some.injEq] at h
      rw [h]
    · simp at h
  · rintro rfl
    simp

@[simp] theorem after?_append (word rest : Text) : after? word (word ++ rest) = some rest :=
  after?_eq_some.mpr rfl

theorem after?_cons_ne {c d : Char} (h : c ≠ d) (word t : Text) :
    after? (c :: word) (d :: t) = none := by
  simp [after?, h]

/-- What was read of a text, given what is left of it. -/
theorem take_read (s t : Text) : (s ++ t).take ((s ++ t).length - t.length) = s := by
  rw [List.length_append, Nat.add_sub_cancel, List.take_left]

/-- What is left of a text, given what was read of it. -/
theorem drop_read (s t : Text) : (s ++ t).drop ((s ++ t).length - t.length) = t := by
  rw [List.length_append, Nat.add_sub_cancel, List.drop_left]

/-- Up to its first occurrence of a character a text is cut in one way. -/
theorem cut_unique {c : Char} {s s' r r' : Text} (hs : c ∉ s) (hs' : c ∉ s')
    (h : s ++ c :: r = s' ++ c :: r') : s = s' ∧ r = r' := by
  induction s generalizing s' with
  | nil =>
      cases s' with
      | nil => exact ⟨rfl, (List.cons.inj h).2⟩
      | cons d s' =>
          rw [List.nil_append, List.cons_append, List.cons.injEq] at h
          exact absurd (by rw [h.1]; simp) hs'
  | cons d s ih =>
      cases s' with
      | nil =>
          rw [List.nil_append, List.cons_append, List.cons.injEq] at h
          exact absurd (by rw [h.1]; simp) hs
      | cons e s' =>
          rw [List.cons_append, List.cons_append, List.cons.injEq] at h
          simp only [List.mem_cons, not_or] at hs hs'
          obtain ⟨rfl, hrest⟩ := h
          obtain ⟨rfl, rfl⟩ := ih hs.2 hs'.2 hrest
          exact ⟨rfl, rfl⟩

/-! ## Groups -/

/-- The depth of brackets after a text that begins at the given depth; there is none where the text
closes a bracket that it did not find open. -/
def nest? (opening closing : Char) : Nat → Text → Option Nat
  | depth, [] => some depth
  | depth, c :: cs =>
    if c = opening then nest? opening closing (depth + 1) cs
    else if c = closing then
      match depth with
      | 0 => none
      | outer + 1 => nest? opening closing outer cs
    else nest? opening closing depth cs

/-- Every bracket has its partner. -/
def Balanced (opening closing : Char) (t : Text) : Prop := nest? opening closing 0 t = some 0

instance (opening closing : Char) (t : Text) : Decidable (Balanced opening closing t) :=
  inferInstanceAs (Decidable (nest? opening closing 0 t = some 0))

section Groups

variable {opening closing : Char}

theorem nest?_opening (depth : Nat) (t : Text) :
    nest? opening closing depth (opening :: t) = nest? opening closing (depth + 1) t := by
  cases depth <;> simp [nest?]

theorem nest?_closing (hne : opening ≠ closing) (outer : Nat) (t : Text) :
    nest? opening closing (outer + 1) (closing :: t) = nest? opening closing outer t := by
  simp [nest?, Ne.symm hne]

theorem nest?_zero_closing (hne : opening ≠ closing) (t : Text) :
    nest? opening closing 0 (closing :: t) = none := by
  simp [nest?, Ne.symm hne]

theorem nest?_cons_of_ne {c : Char} (ho : c ≠ opening) (hc : c ≠ closing) (depth : Nat) (t : Text) :
    nest? opening closing depth (c :: t) = nest? opening closing depth t := by
  cases depth <;> simp [nest?, ho, hc]

theorem nest?_append (depth : Nat) (s t : Text) :
    nest? opening closing depth (s ++ t) =
      (nest? opening closing depth s).bind fun d => nest? opening closing d t := by
  induction s generalizing depth with
  | nil => rfl
  | cons c cs ih =>
      simp only [List.cons_append, nest?]
      split
      · exact ih _
      · split
        · cases depth with
          | zero => rfl
          | succ outer => exact ih _
        · exact ih _

/-- Text that nests properly nests the same at any greater depth. -/
theorem nest?_add {depth d : Nat} {t : Text} (h : nest? opening closing depth t = some d)
    (more : Nat) : nest? opening closing (depth + more) t = some (d + more) := by
  induction t generalizing depth with
  | nil =>
      simp only [nest?, Option.some.injEq] at h ⊢
      omega
  | cons c cs ih =>
      by_cases ho : c = opening
      · subst ho
        rw [nest?_opening] at h ⊢
        rw [show depth + more + 1 = depth + 1 + more by omega]
        exact ih h
      · by_cases hc : c = closing
        · subst hc
          cases depth with
          | zero => rw [nest?_zero_closing (Ne.symm ho)] at h; simp at h
          | succ outer =>
              rw [nest?_closing (Ne.symm ho)] at h
              rw [show outer + 1 + more = (outer + more) + 1 by omega, nest?_closing (Ne.symm ho)]
              exact ih h
        · rw [nest?_cons_of_ne ho hc] at h ⊢
          exact ih h

theorem nest?_of_not_mem {t : Text} (ho : opening ∉ t) (hc : closing ∉ t) (depth : Nat) :
    nest? opening closing depth t = some depth := by
  induction t with
  | nil => rfl
  | cons c cs ih =>
      simp only [List.mem_cons, not_or] at ho hc
      rw [nest?_cons_of_ne (Ne.symm ho.1) (Ne.symm hc.1)]
      exact ih ho.2 hc.2

theorem balanced_of_not_mem {t : Text} (ho : opening ∉ t) (hc : closing ∉ t) :
    Balanced opening closing t :=
  nest?_of_not_mem ho hc 0

theorem Balanced.append {s t : Text} (hs : Balanced opening closing s)
    (ht : Balanced opening closing t) : Balanced opening closing (s ++ t) := by
  rw [Balanced, nest?_append, hs, Option.bind_some]
  exact ht

theorem Balanced.group (hne : opening ≠ closing) {s t : Text} (hs : Balanced opening closing s)
    (ht : Balanced opening closing t) : Balanced opening closing (opening :: (s ++ closing :: t)) := by
  rw [Balanced, nest?_opening, nest?_append, nest?_add hs, Option.bind_some, nest?_closing hne]
  exact ht

/-- White space at either end takes no part in nesting. -/
theorem Balanced.trim (ho : isBlank opening = false) (hc : isBlank closing = false) {t : Text}
    (h : Balanced opening closing t) : Balanced opening closing (trim t) := by
  have blank {b : Text} (hb : Blank b) (depth : Nat) : nest? opening closing depth b = some depth :=
    nest?_of_not_mem (fun hmem => by simp [hb _ hmem] at ho) (fun hmem => by simp [hb _ hmem] at hc)
      depth
  obtain ⟨b, hb, ht⟩ := exists_blank_trimStart t
  obtain ⟨b', hb', ht'⟩ := exists_trimEnd_blank (trimStart t)
  rw [Balanced, ht, nest?_append, blank hb, Option.bind_some, ht', nest?_append] at h
  cases hn : nest? opening closing 0 (trimEnd (trimStart t)) with
  | none => simp [hn] at h
  | some depth =>
      rw [hn, Option.bind_some, blank hb'] at h
      exact hn.trans h

/-- Read backwards, brackets nest back to where they began. -/
theorem nest?_reverse (hne : opening ≠ closing) {depth d : Nat} {t : Text}
    (h : nest? opening closing depth t = some d) :
    nest? closing opening d t.reverse = some depth := by
  induction t generalizing depth with
  | nil => exact congrArg some (Option.some.inj h).symm
  | cons c cs ih =>
      rw [List.reverse_cons, nest?_append]
      by_cases ho : c = opening
      · subst ho
        rw [nest?_opening] at h
        rw [ih h, Option.bind_some, nest?_closing (Ne.symm hne)]
        rfl
      · by_cases hc : c = closing
        · subst hc
          cases depth with
          | zero =>
              rw [nest?_zero_closing hne] at h
              simp at h
          | succ outer =>
              rw [nest?_closing hne] at h
              rw [ih h, Option.bind_some, nest?_opening]
              rfl
        · rw [nest?_cons_of_ne ho hc] at h
          rw [ih h, Option.bind_some, nest?_cons_of_ne hc ho]
          rfl

theorem balanced_reverse (hne : opening ≠ closing) {t : Text} (h : Balanced opening closing t) :
    Balanced closing opening t.reverse :=
  nest?_reverse hne h

/-- Splitting off a group finds the first closing bracket that the text before it leaves without a
partner. -/
theorem splitGroup?_eq_some (hne : opening ≠ closing) {depth : Nat} {t inside rest : Text} :
    splitGroup? opening closing depth t = some (inside, rest) ↔
      t = inside ++ closing :: rest ∧ nest? opening closing depth inside = some 0 := by
  induction t generalizing depth inside with
  | nil => simp [splitGroup?]
  | cons c cs ih =>
      -- a character that the group goes on after
      have deeper {d : Nat} (hstep : ∀ i, nest? opening closing depth (c :: i) =
            nest? opening closing d i) (hend : inside = [] → ¬ (c = closing ∧ depth = 0)) :
          (splitGroup? opening closing d cs).map (consFirst c) = some (inside, rest) ↔
            c :: cs = inside ++ closing :: rest ∧ nest? opening closing depth inside = some 0 := by
        constructor
        · intro h
          obtain ⟨⟨i, r⟩, hs, hp⟩ := Option.map_eq_some_iff.mp h
          simp only [consFirst, Prod.mk.injEq] at hp
          obtain ⟨rfl, rfl⟩ := hp
          obtain ⟨hcs, hn⟩ := ih.mp hs
          exact ⟨by rw [hcs, List.cons_append], by rw [hstep]; exact hn⟩
        · rintro ⟨ht, hn⟩
          cases inside with
          | nil =>
              simp only [List.nil_append, List.cons.injEq] at ht
              simp only [nest?, Option.some.injEq] at hn
              exact absurd ⟨ht.1, hn⟩ (hend rfl)
          | cons i is =>
              simp only [List.cons_append, List.cons.injEq] at ht
              obtain ⟨rfl, hcs⟩ := ht
              rw [hstep] at hn
              rw [ih.mpr ⟨hcs, hn⟩]
              rfl
      by_cases ho : c = opening
      · subst ho
        rw [show splitGroup? c closing depth (c :: cs) =
          (splitGroup? c closing (depth + 1) cs).map (consFirst c) by
            cases depth <;> simp [splitGroup?]]
        exact deeper (fun i => nest?_opening depth i) fun _ h => hne h.1
      · by_cases hc : c = closing
        · subst hc
          cases depth with
          | zero =>
              rw [splitGroup?, if_neg ho, if_pos rfl]
              simp only [Option.some.injEq, Prod.mk.injEq]
              constructor
              · rintro ⟨rfl, rfl⟩
                exact ⟨rfl, rfl⟩
              · rintro ⟨ht, hn⟩
                cases inside with
                | nil =>
                    simp only [List.nil_append, List.cons.injEq] at ht
                    exact ⟨rfl, ht.2⟩
                | cons i is =>
                    simp only [List.cons_append, List.cons.injEq] at ht
                    obtain ⟨rfl, -⟩ := ht
                    rw [nest?_zero_closing hne] at hn
                    simp at hn
          | succ outer =>
              rw [splitGroup?, if_neg ho, if_pos rfl]
              exact deeper (fun i => nest?_closing hne outer i) fun _ h => by simp at h
        · rw [show splitGroup? opening closing depth (c :: cs) =
            (splitGroup? opening closing depth cs).map (consFirst c) by
              cases depth <;> simp [splitGroup?, ho, hc]]
          exact deeper (fun i => nest?_cons_of_ne ho hc depth i) fun _ h => hc h.1

/-- A balanced text is what the bracket around it holds. -/
theorem splitGroup?_balanced (hne : opening ≠ closing) {t : Text}
    (h : Balanced opening closing t) (rest : Text) :
    splitGroup? opening closing 0 (t ++ closing :: rest) = some (t, rest) :=
  (splitGroup?_eq_some hne).mpr ⟨rfl, h⟩

/-- A group goes on past text that nests properly. -/
theorem splitGroup?_append (hne : opening ≠ closing) {depth d : Nat} {s : Text}
    (h : nest? opening closing depth s = some d) (t : Text) :
    splitGroup? opening closing depth (s ++ t) =
      (splitGroup? opening closing d t).map fun found => (s ++ found.1, found.2) := by
  induction s generalizing depth with
  | nil =>
      rw [nest?, Option.some.injEq] at h
      rw [h, List.nil_append]
      exact Option.map_id'.symm
  | cons c s ih =>
      -- a character that the group goes on after
      have deeper {e : Nat} (hs : splitGroup? opening closing depth (c :: (s ++ t)) =
            (splitGroup? opening closing e (s ++ t)).map (consFirst c))
          (he : nest? opening closing e s = some d) :
          splitGroup? opening closing depth (c :: s ++ t) =
            (splitGroup? opening closing d t).map fun found => (c :: s ++ found.1, found.2) := by
        rw [List.cons_append, hs, ih he, Option.map_map]
        rfl
      by_cases ho : c = opening
      · subst ho
        rw [nest?_opening] at h
        exact deeper (by cases depth <;> simp [splitGroup?]) h
      · by_cases hc : c = closing
        · subst hc
          cases depth with
          | zero =>
              rw [nest?_zero_closing (Ne.symm ho)] at h
              simp at h
          | succ outer =>
              rw [nest?_closing (Ne.symm ho)] at h
              exact deeper (by simp [splitGroup?, ho]) h
        · rw [nest?_cons_of_ne ho hc] at h
          exact deeper (by cases depth <;> simp [splitGroup?, ho, hc]) h

end Groups

end Stencil.Text
