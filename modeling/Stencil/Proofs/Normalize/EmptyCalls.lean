import Stencil.Proofs.Normalize.Rules
/-!
# Calls that emit nothing

The one rule that takes a whole call out of the code looks for calls on an empty string. An edit
completes no such call, so in code without one that rule changes nothing.
-/
namespace Stencil.Normalize

/-- The call of an emitting function on an empty literal. -/
inductive EmptyCall (m : Mask) : Text → Prop
  | mk {word : String} {a b digits c literal : Text} : word ∈ ["print", "echo"] → Text.Blank a →
      Text.Blank b → Text.Blank c → digits ≠ [] → m.literal? digits = some literal →
      isEmptyQuoted literal = true →
      EmptyCall m (word.toList ++ (a ++ '(' :: (b ++ Mask.opening ::
        (digits ++ Mask.closing :: (c ++ [')'])))))

/-- Nowhere in the text does a call begin that emits an empty literal. -/
def CallFree (m : Mask) (t : Text) : Prop := ∀ w, EmptyCall m w → ¬ Occurs wordMayBegin none w t

/-! ## Edits complete no call -/

theorem inCall_of_emptyCall {m : Mask} {w : Text} (h : EmptyCall m w) :
    ∀ c ∈ w, inCall c = true := by
  obtain ⟨hword, ha, hb, hc, -, hl, -⟩ := h
  rename_i word a b digits c literal
  have blank {t : Text} (ht : Text.Blank t) : ∀ d ∈ t, inCall d = true := by
    intro d hd
    simp [inCall, ht d hd]
  have hdigits : ∀ d ∈ digits, inCall d = true := by
    intro d hd
    obtain ⟨i, hi, -⟩ := Option.bind_eq_some_iff.mp hl
    unfold Mask.index? at hi
    split at hi
    · rename_i hall
      have := List.all_eq_true.mp hall d hd
      simp [inCall, Symbol.isMarkChar, this]
    · simp at hi
  have hwords : ∀ word ∈ ["print", "echo"], ∀ d ∈ word.toList, inCall d = true := by decide
  intro d hd
  simp only [List.mem_append, List.mem_cons, List.not_mem_nil, or_false] at hd
  rcases hd with hd | hd | rfl | hd | rfl | hd | rfl | hd | rfl
  · exact hwords word hword d hd
  · exact blank ha d hd
  · decide
  · exact blank hb d hd
  · decide
  · exact hdigits d hd
  · decide
  · exact blank hc d hd
  · decide

theorem emitting_word {word : String} (h : word ∈ ["print", "echo"]) :
    word.toList = ['p', 'r', 'i', 'n', 't'] ∨ word.toList = ['e', 'c', 'h', 'o'] := by
  simp only [List.mem_cons, List.not_mem_nil, or_false] at h
  rcases h with rfl | rfl
  · exact Or.inl (by decide)
  · exact Or.inr (by decide)

/-- Every insertion has a character that no call has. -/
private theorem exists_not_inCall : ∀ new ∈ insertions, ∃ c ∈ new, inCall c = false := by decide

private theorem not_mem_insertions : ∀ new ∈ insertions, 'p' ∉ new ∧ 'c' ∉ new ∧ ')' ∉ new := by
  decide

private theorem getLast_insertions : ∀ new ∈ insertions, new.getLast? ≠ some 'e' := by decide

theorem EmptyCall.ne_nil {m : Mask} {w : Text} (h : EmptyCall m w) : w ≠ [] := by
  cases h
  simp

/-- What a call ends with closes it. -/
theorem EmptyCall.close_mem {m : Mask} {w s : Text} (h : EmptyCall m w) (hs : s <:+ w)
    (hne : s ≠ []) : ')' ∈ s := by
  obtain ⟨body, hbody⟩ : ∃ body, w = body ++ [')'] := by
    cases h with
    | @mk word a b digits c =>
        exact ⟨word.toList ++ (a ++ '(' :: (b ++ Mask.opening :: (digits ++ Mask.closing :: c))),
          by simp⟩
  obtain ⟨r, hr⟩ := hs
  obtain ⟨x, d, rfl⟩ := (List.eq_nil_or_concat s).resolve_left hne
  rw [List.concat_eq_append, ← List.append_assoc, hbody] at hr
  have hlast := List.append_inj_right' hr rfl
  rw [List.cons.injEq] at hlast
  simp [hlast.1]

theorem emptyCall_begins {m : Mask} {w : Text} (h : EmptyCall m w) :
    (∃ ds, w = 'p' :: ds) ∨ ∃ ds, w = 'e' :: 'c' :: ds := by
  obtain ⟨hword, -, -, -, -, -, -⟩ := h
  rcases emitting_word hword with hw | hw
  · exact Or.inl (by rw [hw]; exact ⟨_, rfl⟩)
  · exact Or.inr (by rw [hw]; exact ⟨_, rfl⟩)

theorem emptyCall_head {m : Mask} {w : Text} (h : EmptyCall m w) :
    ∃ d ds, w = d :: ds ∧ (d = 'p' ∨ d = 'e') := by
  rcases emptyCall_begins h with ⟨ds, rfl⟩ | ⟨ds, rfl⟩
  · exact ⟨_, _, rfl, Or.inl rfl⟩
  · exact ⟨_, _, rfl, Or.inr rfl⟩

private theorem foreign_emptyCall {m : Mask} {w : Text} (h : EmptyCall m w) : Foreign w := by
  have hin := inCall_of_emptyCall h
  refine ⟨h.ne_nil, ?_, ?_⟩
  · intro new hn x y hxy hy
    constructor
    · intro hp
      exact (not_mem_insertions new hn).2.2 (hp.subset (h.close_mem ⟨x, hxy.symm⟩ hy))
    · intro hp
      obtain ⟨d, hd, hout⟩ := exists_not_inCall new hn
      have := hin d (by rw [hxy]; exact List.mem_append_right _ (hp.subset hd))
      rw [hout] at this
      simp at this
  · rintro new hn u v rfl hv
    obtain ⟨hp, hc, hclosing⟩ := not_mem_insertions _ hn
    constructor
    · intro hpre
      -- an insertion that ends in the beginning of a call would hold its first two letters
      obtain ⟨d, v, rfl⟩ := List.exists_cons_of_ne_nil hv
      rcases emptyCall_begins h with ⟨ds, rfl⟩ | ⟨ds, rfl⟩
      · obtain ⟨rfl, -⟩ := List.cons_prefix_cons.mp hpre
        exact hp (by simp)
      · obtain ⟨rfl, htail⟩ := List.cons_prefix_cons.mp hpre
        cases v with
        | nil => exact getLast_insertions _ hn (by simp)
        | cons e v =>
            obtain ⟨rfl, -⟩ := List.cons_prefix_cons.mp htail
            exact hc (by simp)
    · intro hpre
      exact hclosing (List.mem_append_right _
        (hpre.subset (h.close_mem (List.suffix_refl w) h.ne_nil)))

/-- A call stands in the new text only where it stood in the old one. -/
theorem Edit.occurs {m : Mask} {t t' w : Text} (h : Edit t t') (hw : EmptyCall m w)
    (ho : Occurs wordMayBegin none w t') : Occurs wordMayBegin none w t := by
  refine h.reflect (foreign_emptyCall hw) wordMayBegin ?_ none none (fun _ ha => ha) ho
  intro b old rest hold hedge hpre
  have hlast : Text.lastOr b old = Text.lastOr none old := by
    cases old with
    | nil => exact absurd rfl hold
    | cons c cs => rfl
  have hhead : rest.head?.any isWordChar = true := by
    obtain ⟨hword, -, -, -, -, -, -⟩ := hw
    obtain ⟨v, rfl⟩ := hpre
    rcases emitting_word hword with hw | hw
    · rw [hw]
      exact show isWordChar 'p' = true by decide
    · rw [hw]
      exact show isWordChar 'e' = true by decide
  rw [wordMayBegin, hlast]
  cases hw' : (Text.lastOr none old).any isWordChar with
  | false => rfl
  | true =>
      rw [hedge hw'] at hhead
      simp at hhead

theorem Edited.occurs {m : Mask} {t t' w : Text} (h : Edited t t') (hw : EmptyCall m w)
    (ho : Occurs wordMayBegin none w t') : Occurs wordMayBegin none w t := by
  induction h with
  | refl => exact ho
  | tail _ he ih => exact ih (he.occurs hw ho)

/-! ## Edits leave calls as they are -/

/-- A stretch in which the word cannot begin is left out. -/
theorem occurs_skip {before : Option Char} {w s t : Text}
    (hs : ∀ x y, s = x ++ y → y ≠ [] → ¬ w <+: y ++ t) (h : Occurs wordMayBegin before w (s ++ t)) :
    Occurs wordMayBegin (Text.lastOr before s) w t := by
  obtain ⟨u, v, ht, hbegin⟩ := h
  rcases List.append_eq_append_iff.mp ht with ⟨x, rfl, hx⟩ | ⟨x, hx, hw⟩
  · rw [Text.lastOr_append] at hbegin
    exact ⟨x, v, hx, hbegin⟩
  · by_cases hne : x = []
    · subst hne
      rw [List.append_nil] at hx
      subst hx
      exact ⟨[], v, hw.symm, hbegin⟩
    · exact absurd ⟨v, hw⟩ (hs u x hx hne)

theorem occurs_skip_of_head {m : Mask} {before : Option Char} {w s t : Text}
    (hw : EmptyCall m w) (hs : ∀ c ∈ s, c ≠ 'p' ∧ c ≠ 'e')
    (h : Occurs wordMayBegin before w (s ++ t)) : Occurs wordMayBegin (Text.lastOr before s) w t := by
  obtain ⟨d, ds, rfl, hd⟩ := emptyCall_head hw
  refine occurs_skip (fun x y hsplit hy hpre => ?_) h
  obtain ⟨e, es, rfl⟩ := List.exists_cons_of_ne_nil hy
  have he : d = e := (List.cons_prefix_cons.mp hpre).1
  have hne := hs e (by rw [hsplit]; simp)
  rcases hd with hd | hd
  · exact hne.1 (he ▸ hd)
  · exact hne.2 (he ▸ hd)

/-- In a stretch that is exchanged no call begins, also not one that the text after it goes on
with. -/
private theorem not_prefix_clear {m : Mask} {w x y rest : Text} (hw : EmptyCall m w)
    (hclear : Clear (x ++ y)) (hedge : Edge (x ++ y) rest) (hy : y ≠ []) : ¬ w <+: y ++ rest := by
  intro hpre
  have hout {c : Char} (hc : c ∈ y) := hclear.1 c (List.mem_append_right x hc)
  obtain ⟨d, y, rfl⟩ := List.exists_cons_of_ne_nil hy
  rcases emptyCall_begins hw with ⟨ds, rfl⟩ | ⟨ds, rfl⟩
  · obtain ⟨rfl, -⟩ := List.cons_prefix_cons.mp hpre
    exact absurd (hout List.mem_cons_self) (by decide)
  · obtain ⟨rfl, htail⟩ := List.cons_prefix_cons.mp hpre
    cases y with
    | nil =>
        -- the stretch would end in the first letter of a word that goes on
        obtain ⟨v, rfl⟩ := htail
        have hended := hedge (by simpa using show isWordChar 'e' = true by decide)
        exact absurd hended (show (isWordChar 'c') ≠ false by decide)
    | cons e y =>
        obtain ⟨rfl, -⟩ := List.cons_prefix_cons.mp htail
        exact absurd (hout (List.mem_cons_of_mem _ List.mem_cons_self)) (by decide)

/-- The rest of a call that stands at the front stands there after an edit. -/
private theorem Edit.prefix_call {m : Mask} {t t' w x y : Text} (h : Edit t t') (hw : EmptyCall m w)
    (hxy : w = x ++ y) (hp : y <+: t) : y <+: t' := by
  induction h generalizing x y with
  | nil => exact hp
  | keep c _ ih =>
      cases y with
      | nil => exact List.nil_prefix
      | cons d y =>
          obtain ⟨rfl, htail⟩ := List.cons_prefix_cons.mp hp
          exact List.cons_prefix_cons.mpr ⟨rfl, ih (x := x ++ [d]) (by rw [hxy]; simp) htail⟩
  | @swap old new t t' hclear _ _ _ _ _ =>
      by_cases hy : y = []
      · rw [hy]
        exact List.nil_prefix
      · rcases List.prefix_or_prefix_of_prefix hp (List.prefix_append old t) with hy' | hy'
        · have hclose := hw.close_mem ⟨x, hxy.symm⟩ hy
          exact absurd (hclear.1 _ (hy'.subset hclose)) (by decide)
        · obtain ⟨c, hc, hout⟩ := hclear.2
          rw [inCall_of_emptyCall hw c (by rw [hxy]; exact List.mem_append_right x (hy'.subset hc))]
            at hout
          simp at hout

private theorem mayBegin_insertion : ∀ new ∈ insertions, ∀ before,
    wordMayBegin (Text.lastOr before new) = true := by
  intro new hn before
  have hall : ∀ new ∈ insertions, new ≠ [] ∧ wordMayBegin (Text.lastOr none new) = true := by decide
  obtain ⟨hne, hlast⟩ := hall new hn
  rw [Text.lastOr_of_ne_nil hne before none]
  exact hlast

/-- A call that stood in the old text stands in the new one. -/
theorem Edit.occurs_of {m : Mask} {t t' w : Text} {before before' : Option Char} (h : Edit t t')
    (hw : EmptyCall m w) (hbefore : wordMayBegin before = true → wordMayBegin before' = true)
    (ho : Occurs wordMayBegin before w t) : Occurs wordMayBegin before' w t' := by
  induction h generalizing before before' with
  | nil =>
      obtain ⟨u, v, ht, -⟩ := ho
      rw [List.nil_eq_append_iff, List.append_eq_nil_iff] at ht
      exact absurd ht.2.1 hw.ne_nil
  | @keep t t' c h ih =>
      obtain ⟨u, v, ht, hbegin⟩ := ho
      cases u with
      | nil =>
          obtain ⟨v', hv'⟩ := (Edit.keep c h).prefix_call hw (x := []) rfl ⟨v, ht.symm⟩
          exact ⟨[], v', hv'.symm, hbefore hbegin⟩
      | cons d u =>
          rw [List.cons_append, List.cons.injEq] at ht
          obtain ⟨rfl, ht⟩ := ht
          obtain ⟨u', v', rfl, hbegin'⟩ := @ih (some c) (some c) id
            ⟨u, v, ht, hbegin⟩
          exact ⟨c :: u', v', rfl, hbegin'⟩
  | @swap old new t t' hclear _ hnew hedge _ ih =>
      have hlater := occurs_skip (fun x y hxy hy => by
        subst hxy
        exact not_prefix_clear hw hclear hedge hy) ho
      obtain ⟨u, v, rfl, hbegin⟩ := @ih _ (Text.lastOr before' new)
        (fun _ => mayBegin_insertion new hnew before') hlater
      exact ⟨new ++ u, v, by rw [List.append_assoc], by rwa [Text.lastOr_append]⟩

theorem Edited.occurs_of {m : Mask} {t t' w : Text} (h : Edited t t') (hw : EmptyCall m w)
    (ho : Occurs wordMayBegin none w t) : Occurs wordMayBegin none w t' := by
  induction h with
  | refl => exact ho
  | tail _ he ih => exact he.occurs_of hw id ih

theorem Edit.callFree {m : Mask} {t t' : Text} (h : Edit t t') (ht : CallFree m t) :
    CallFree m t' :=
  fun w hw ho => ht w hw (h.occurs hw ho)

theorem Edited.callFree {m : Mask} {t t' : Text} (h : Edited t t') (ht : CallFree m t) :
    CallFree m t' :=
  fun w hw ho => ht w hw (h.occurs hw ho)

/-! ## The rule for empty calls -/

/-- What is read after a call: white space, and the semicolon after it if there is one. -/
inductive CallTail : Text → Text → Prop
  | plain {b rest : Text} : Text.Blank b → Text.Flush rest → CallTail b rest
  | ended {b rest : Text} : Text.Blank b → CallTail (b ++ [';']) rest

/-- What the call of an emitting function on one literal looks like. -/
theorem literalEmit?_eq_some {t digits rest : Text} (h : literalEmit? t = some (digits, rest)) :
    ∃ word ∈ ["print", "echo"], ∃ a b c tail : Text, Text.Blank a ∧ Text.Blank b ∧ Text.Blank c ∧
      digits ≠ [] ∧ (∀ d ∈ digits, isDecimalDigit d = true) ∧
      t = word.toList ++ (a ++ '(' :: (b ++ Mask.opening ::
        (digits ++ Mask.closing :: (c ++ [')'])))) ++ tail ++ rest ∧ CallTail tail rest := by
  unfold literalEmit? at h
  split at h
  · simp at h
  · rename_i after hword
    obtain ⟨word, hw, ha⟩ := List.exists_of_findSome?_eq_some hword
    rw [Text.after?_eq_some] at ha
    obtain ⟨a, hblankA, hsplitA⟩ := Text.exists_blank_trimStart after
    split at h
    · rename_i inside hopen
      obtain ⟨b, hblankB, hsplitB⟩ := Text.exists_blank_trimStart inside
      split at h
      · rename_i digits₀ rest₀ hp
        obtain ⟨c, hblankC, hsplitC⟩ := Text.exists_blank_trimStart rest₀
        obtain ⟨hmark, hne, hdigits⟩ := Symbol.placeholder?_eq_some.mp hp
        split at h
        · rename_i rest₁ hclose
          obtain ⟨d, hblankD, hsplitD⟩ := Text.exists_blank_trimStart rest₁
          have ht : t = word.toList ++ (a ++ '(' :: (b ++ Mask.opening ::
              (digits₀ ++ Mask.closing :: (c ++ [')'])))) ++ d ++ Text.trimStart rest₁ := by
            rw [ha, hsplitA, hopen, hsplitB, hmark, hsplitC, hclose]
            simp only [List.append_assoc, List.cons_append, List.nil_append, ← hsplitD]
          split at h
          · rename_i rest₂ hsemi
            rw [Option.some.injEq, Prod.mk.injEq] at h
            obtain ⟨rfl, rfl⟩ := h
            refine ⟨word, hw, a, b, c, d ++ [';'], hblankA, hblankB, hblankC, hne, hdigits, ?_,
              .ended hblankD⟩
            rw [ht, hsemi]
            simp
          · rw [Option.some.injEq, Prod.mk.injEq] at h
            obtain ⟨rfl, rfl⟩ := h
            exact ⟨word, hw, a, b, c, d, hblankA, hblankB, hblankC, hne, hdigits, ht,
              .plain hblankD (Text.flush_trimStart rest₁)⟩
        · simp at h
      · simp at h
    · simp at h

/-- Every such call is read. -/
theorem literalEmit?_call {word : String} {a b digits c : Text} (hw : word ∈ ["print", "echo"])
    (ha : Text.Blank a) (hb : Text.Blank b) (hc : Text.Blank c) (hne : digits ≠ [])
    (hd : ∀ d ∈ digits, isDecimalDigit d = true) (v : Text) :
    ∃ rest, literalEmit? (word.toList ++ (a ++ '(' :: (b ++ Mask.opening ::
      (digits ++ Mask.closing :: (c ++ [')'])))) ++ v) = some (digits, rest) := by
  have trim {s : Text} (hs : Text.Blank s) (d : Char) (h : isBlank d = false) (t : Text) :
      Text.trimStart (s ++ d :: t) = d :: t := Text.trimStart_append hs (Text.flush_cons.mpr h)
  have hword (t : Text) :
      (["print", "echo"].findSome? fun w => Text.after? w.toList (word.toList ++ t)) = some t := by
    simp only [List.mem_cons, List.not_mem_nil, or_false] at hw
    rcases hw with rfl | rfl <;> rfl
  have hmark (t : Text) : Mask.placeholder? (Mask.opening :: (digits ++ Mask.closing :: t)) =
      some (digits, t) := Symbol.placeholder?_eq_some.mpr ⟨rfl, hne, hd⟩
  simp only [List.append_assoc, List.cons_append, List.nil_append]
  rw [literalEmit?, hword]
  simp only [trim ha '(' (by decide), trim hb Mask.opening (by decide), hmark,
    trim hc ')' (by decide)]
  split
  · exact ⟨_, rfl⟩
  · exact ⟨_, rfl⟩

/-- Whether such a call begins nowhere in the text. -/
def noCall (m : Mask) : Option Char → Text → Bool
  | _, [] => true
  | before, c :: cs =>
    !(wordMayBegin before && (literalEmit? (c :: cs)).any fun found =>
      (m.literal? found.1).any isEmptyQuoted) && noCall m (some c) cs

theorem isDecimalDigit_of_literal {m : Mask} {digits literal : Text}
    (h : m.literal? digits = some literal) : ∀ d ∈ digits, isDecimalDigit d = true := by
  intro d hd
  obtain ⟨i, hi, -⟩ := Option.bind_eq_some_iff.mp h
  unfold Mask.index? at hi
  split at hi
  · rename_i hall
    exact Symbol.isDecimalDigit_of_isDigit (List.all_eq_true.mp hall d hd)
  · simp at hi

private theorem noCall_iff {m : Mask} {before : Option Char} {t : Text} :
    noCall m before t = true ↔ ∀ w, EmptyCall m w → ¬ Occurs wordMayBegin before w t := by
  induction t generalizing before with
  | nil =>
      refine iff_of_true rfl fun w hw ho => ?_
      obtain ⟨u, v, hnil, -⟩ := ho
      have := (foreign_emptyCall hw).ne_nil
      rw [List.nil_eq_append_iff, List.append_eq_nil_iff] at hnil
      exact this hnil.2.1
  | cons c cs ih =>
      rw [noCall, Bool.and_eq_true, ih, Bool.not_eq_true']
      constructor
      · rintro ⟨hhere, hlater⟩ w hw ⟨u, v, ht, hbegin⟩
        cases u with
        | nil =>
            have hw' := hw
            obtain ⟨hword, ha, hb, hc, hne, hl, hq⟩ := hw'
            obtain ⟨rest, hread⟩ :=
              literalEmit?_call hword ha hb hc hne (isDecimalDigit_of_literal hl) v
            rw [List.nil_append] at ht
            rw [ht, hread, show wordMayBegin before = true from hbegin] at hhere
            simp [hl, hq] at hhere
        | cons d u =>
            rw [List.cons_append, List.cons.injEq] at ht
            obtain ⟨rfl, rfl⟩ := ht
            exact hlater w hw ⟨u, v, rfl, hbegin⟩
      · intro h
        refine ⟨?_, fun w hw ⟨u, v, ht, hbegin⟩ => h w hw ⟨c :: u, v, by rw [ht]; rfl, hbegin⟩⟩
        rw [Bool.eq_false_iff]
        intro hhere
        rw [Bool.and_eq_true, Option.any_eq_true] at hhere
        obtain ⟨hbegin, ⟨digits, rest⟩, hread, hempty⟩ := hhere
        obtain ⟨l, hl, hq⟩ := (Option.any_eq_true ..).mp hempty
        obtain ⟨word, hw, a, b, d, tail, ha, hb, hd, hne, -, ht, -⟩ := literalEmit?_eq_some hread
        refine h _ (.mk hw ha hb hd hne hl hq) ⟨[], tail ++ rest, ?_, hbegin⟩
        rw [ht]
        simp only [List.append_assoc, List.nil_append]

instance (m : Mask) (t : Text) : Decidable (CallFree m t) :=
  decidable_of_iff (noCall m none t = true) noCall_iff

/-- The rule drops an empty call with what is read after it, or puts back what it reads. -/
theorem emptyEmit_eq_some {m : Mask} {before : Option Char} {t new rest : Text}
    (h : emptyEmit m before t = some (new, rest)) : wordMayBegin before = true ∧
      ((∃ w tail, new = [] ∧ t = w ++ tail ++ rest ∧ EmptyCall m w ∧ CallTail tail rest) ∨
        new ≠ [] ∧ t = new ++ rest) := by
  unfold emptyEmit at h
  split at h
  · rename_i hbegin
    refine ⟨hbegin, ?_⟩
    obtain ⟨⟨digits, rest₀⟩, he, hnew⟩ := Option.map_eq_some_iff.mp h
    obtain ⟨word, hw, a, b, c, tail, ha, hb, hc, hne, -, rfl, htail⟩ := literalEmit?_eq_some he
    dsimp only at hnew
    split at hnew
    · rename_i hempty
      obtain ⟨l, hl, hq⟩ := (Option.any_eq_true ..).mp hempty
      obtain ⟨rfl, rfl⟩ := Prod.mk.inj hnew
      exact Or.inl ⟨_, tail, rfl, rfl, .mk hw ha hb hc hne hl hq, htail⟩
    · rw [Text.take_read, Prod.mk.injEq] at hnew
      obtain ⟨rfl, rfl⟩ := hnew
      exact Or.inr ⟨by simp, rfl⟩
  · simp at h

theorem advances_emptyEmit (m : Mask) : (emptyEmit m).Advances := by
  intro before t new rest h
  obtain ⟨-, ⟨w, tail, -, ht, hw, -⟩ | ⟨hne, ht⟩⟩ := emptyEmit_eq_some h
  · exact ⟨w ++ tail, by simp [hw.ne_nil], ht⟩
  · exact ⟨new, hne, ht⟩

/-- In code that calls no emitting function on an empty string the rule changes nothing. -/
theorem replaceAll_emptyEmit {m : Mask} {t : Text} (h : CallFree m t) :
    t.replaceAll (emptyEmit m) = t := by
  refine Text.replaceFrom_self (advances_emptyEmit m) fun u v new rest ht hr => ?_
  obtain ⟨hbegin, ⟨w, tail, -, rfl, hw, -⟩ | ⟨-, hv⟩⟩ := emptyEmit_eq_some hr
  · exact absurd ⟨u, tail ++ rest, by rw [ht, List.append_assoc], hbegin⟩ (h w hw)
  · exact hv

theorem collapse_of_callFree {m : Mask} {t : Text} (h : CallFree m t) :
    collapse m t = Text.trim ((((t.replaceAll semicolonSpace).replaceAll
      repeatedSemicolon).replaceAll braceSpace).replaceAll braceSemicolon) := by
  rw [collapse, replaceAll_emptyEmit ((edits_semicolonSpace.replaceAll t).callFree h)]

/-- Where no call is dropped, the collapsing passes are edits and trimming. -/
theorem exists_edited_collapse {m : Mask} {t : Text} (h : CallFree m t) :
    ∃ t', Edited t t' ∧ collapse m t = Text.trim t' :=
  ⟨_, ((((Edited.refl t).tail (edits_semicolonSpace.replaceAll _)).tail
    (edits_repeatedSemicolon.replaceAll _)).tail (edits_braceSpace.replaceAll _)).tail
    (edits_braceSemicolon.replaceAll _), collapse_of_callFree h⟩

theorem callFree_collapse {m : Mask} {t : Text} (h : CallFree m t) : CallFree m (collapse m t) := by
  obtain ⟨t', hedit, hcollapse⟩ := exists_edited_collapse h
  rw [hcollapse]
  rintro w hw ⟨u, v, ht, hbegin⟩
  obtain ⟨b, b', hb, -, hsplit⟩ := Text.exists_trim t'
  have hsplit : t' = b ++ u ++ (w ++ (v ++ b')) := by
    rw [hsplit, ht]
    simp
  refine hedit.callFree h w hw ⟨b ++ u, v ++ b', hsplit, ?_⟩
  rw [Text.lastOr_append]
  cases u with
  | nil =>
    show wordMayBegin (Text.lastOr none b) = true
    exact mayBegin_blank hb rfl
  | cons c u => exact hbegin

/-- Which calls are empty is a matter of the literals. -/
theorem CallFree.of_literals {m m' : Mask} {t : Text} (h : CallFree m t)
    (hm : m'.literals = m.literals) : CallFree m' t := by
  intro w hw
  obtain ⟨hword, ha, hb, hc, hne, hl, hq⟩ := hw
  refine h _ (.mk hword ha hb hc hne ?_ hq)
  rwa [Mask.literal?, ← hm]

/-- Where no call is dropped, the literals do not matter. -/
theorem collapse_eq {m m' : Mask} {t : Text} (h : CallFree m t) (h' : CallFree m' t) :
    collapse m t = collapse m' t := by
  rw [collapse_of_callFree h, collapse_of_callFree h']

end Stencil.Normalize

namespace Stencil

/-- The code of the source calls no emitting function on an empty string. -/
def NoEmptyCall (source : Text) : Prop :=
  Normalize.CallFree (Mask.ofText source) (Mask.ofText source).text

instance (source : Text) : Decidable (NoEmptyCall source) :=
  inferInstanceAs (Decidable (Normalize.CallFree _ _))

end Stencil
