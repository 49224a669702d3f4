import Stencil.Proofs.Mask.Passes
import Stencil.Proofs.Normalize.Calls
/-!
# Normalization and literals

The passes see placeholders, and no placeholder is cut or copied. So the literals come out as they
went in and in their order, but for empty ones that go with the call that emits them. The text around
them does not depend on what the others hold.
-/
namespace Stencil

open Symbol

/-- The literal with the number is an empty quoted string. -/
def Mask.IsEmpty (m : Mask) (i : Nat) : Prop :=
  m.literals[i]?.any Normalize.isEmptyQuoted = true

instance (m : Mask) (i : Nat) : Decidable (m.IsEmpty i) := inferInstanceAs (Decidable (_ = true))

namespace Normalize

/-- The call of an emitting function on the literal with the number. -/
inductive EmitCall (i : Nat) : Text → Prop
  | mk {word : String} {a b c : Text} : word ∈ ["print", "echo"] → Text.Blank a → Text.Blank b →
      Text.Blank c →
      EmitCall i (word.toList ++ (a ++ '(' :: (b ++ (Mask.placeholder i ++ (c ++ [')'])))))

/-- Somewhere in a text stands the call of an emitting function on the literal. -/
def Emitted (before : Option Char) (t : Text) (i : Nat) : Prop :=
  ∃ w, EmitCall i w ∧ Occurs wordMayBegin before w t

section Emitted

variable {before : Option Char} {t t' : Text} {i : Nat}

theorem Emitted.prepend (s : Text) (h : Emitted (Text.lastOr before s) t i) :
    Emitted before (s ++ t) i := by
  obtain ⟨w, hw, u, v, rfl, hbegin⟩ := h
  exact ⟨w, hw, s ++ u, v, by rw [List.append_assoc], by rwa [Text.lastOr_append]⟩

/-- Were the literal empty, the call would be one on an empty string. -/
private theorem EmitCall.emptyCall {w : Text} (h : EmitCall i w) :
    EmptyCall ⟨[], List.replicate (i + 1) ['"', '"']⟩ w := by
  obtain ⟨hword, ha, hb, hc⟩ := h
  have hliteral : Mask.literal? ⟨[], List.replicate (i + 1) ['"', '"']⟩ (Nat.toDigits 10 i) =
      some ['"', '"'] := by
    simp [Mask.literal?, index?_toDigits]
  simpa [Mask.placeholder] using EmptyCall.mk hword ha hb hc Nat.toDigits_ne_nil hliteral rfl

/-- Edits bring about no such call and leave those that are there. -/
theorem Edited.emitted_iff (h : Edited t t') : Emitted none t' i ↔ Emitted none t i :=
  ⟨fun ⟨w, hw, ho⟩ => ⟨w, hw, h.occurs hw.emptyCall ho⟩,
    fun ⟨w, hw, ho⟩ => ⟨w, hw, h.occurs_of hw.emptyCall ho⟩⟩

/-- A stretch without the first letters of the functions is passed over. -/
theorem Emitted.skip {s : Text} (hs : ∀ c ∈ s, c ≠ 'p' ∧ c ≠ 'e') (h : Emitted before (s ++ t) i) :
    Emitted (Text.lastOr before s) t i := by
  obtain ⟨w, hw, ho⟩ := h
  exact ⟨w, hw, occurs_skip_of_head hw.emptyCall hs ho⟩

theorem isDecimalDigit_of_mem_toDigits {d : Char} (h : d ∈ Nat.toDigits 10 i) :
    isDecimalDigit d = true :=
  isDecimalDigit_of_isDigit (Nat.isDigit_of_mem_toDigits (by decide) (by decide) h)

/-- Such a call is read where it begins. -/
theorem Emitted.cons {c : Char} (h : Emitted before (c :: t) i) :
    (wordMayBegin before = true ∧ ∃ rest, literalEmit? (c :: t) = some (Nat.toDigits 10 i, rest)) ∨
      Emitted (some c) t i := by
  obtain ⟨w, hw, u, v, ht, hbegin⟩ := h
  cases u with
  | nil =>
      obtain ⟨hword, ha, hb, hc⟩ := hw
      obtain ⟨rest, hread⟩ := literalEmit?_call hword ha hb hc Nat.toDigits_ne_nil
        (fun _ => isDecimalDigit_of_mem_toDigits (i := i)) v
      refine Or.inl ⟨hbegin, rest, ?_⟩
      rw [ht, ← hread]
      simp [Mask.placeholder]
  | cons d u =>
      rw [List.cons_append, List.cons.injEq] at ht
      obtain ⟨rfl, ht⟩ := ht
      exact Or.inr ⟨w, hw, u, v, ht, hbegin⟩

end Emitted

/-! ## The rule for empty calls -/

section Rule

variable {m : Mask} {before : Option Char} {t rest digits : Text} {s : List Symbol}

private theorem emptyEmit_of_call (hbegin : wordMayBegin before = true)
    (h : literalEmit? t = some (digits, rest)) : emptyEmit m before t =
      some (if (m.literal? digits).any isEmptyQuoted then ([], rest)
        else (t.take (t.length - rest.length), rest)) := by
  rw [emptyEmit, if_pos hbegin, h, Option.map_some]

private theorem emptyEmit_eq_none :
    emptyEmit m before t = none ↔ wordMayBegin before = false ∨ literalEmit? t = none := by
  rw [emptyEmit]
  split
  · rename_i hbegin
    simp [hbegin]
  · rename_i hbegin
    simp [hbegin]

private theorem literalEmit?_of_markChar {c : Char} (hc : isMarkChar c = true) :
    literalEmit? (c :: t) = none := by
  rw [Option.eq_none_iff_forall_ne_some]
  rintro ⟨digits, rest⟩ h
  obtain ⟨word, hw, a, b, d, tail, -, -, -, -, -, ht, -⟩ := literalEmit?_eq_some h
  rcases emitting_word hw with hw | hw <;> rw [hw] at ht <;>
    rw [(List.cons.inj ht).1] at hc <;> exact absurd hc (by decide)

theorem isEmpty_iff {i : Nat} :
    m.IsEmpty i ↔ (m.literal? (Nat.toDigits 10 i)).any isEmptyQuoted = true := by
  rw [Mask.literal?, index?_toDigits, Option.bind_some]
  rfl

/-- A call on a literal goes if that is empty and is copied if not. -/
private theorem replaceFrom_call {i : Nat} {call : Text} (hbegin : wordMayBegin before = true)
    (hcall : call ≠ []) (h : literalEmit? (call ++ rest) = some (Nat.toDigits 10 i, rest)) :
    (m.IsEmpty i → Text.replaceFrom (emptyEmit m) 0 before (call ++ rest) =
      Text.replaceFrom (emptyEmit m) 0 (Text.lastOr before call) rest) ∧
    (¬ m.IsEmpty i → Text.replaceFrom (emptyEmit m) 0 before (call ++ rest) =
      call ++ Text.replaceFrom (emptyEmit m) 0 (Text.lastOr before call) rest) := by
  have hmatch := emptyEmit_of_call (m := m) hbegin h
  rw [Text.take_read] at hmatch
  constructor
  · intro hempty
    rw [if_pos (isEmpty_iff.mp hempty)] at hmatch
    exact Text.replaceFrom_match hcall hmatch
  · intro hempty
    rw [if_neg fun h => hempty (isEmpty_iff.mpr h)] at hmatch
    exact Text.replaceFrom_match hcall hmatch

theorem toDigits_inj {i j : Nat} (h : Nat.toDigits 10 i = Nat.toDigits 10 j) : i = j := by
  have hi := index?_toDigits i
  rw [h, index?_toDigits] at hi
  exact (Option.some.inj hi).symm

/-- What is read as a call in a masked text is one on a literal, in which no other call begins. -/
private theorem exists_emitCall (hs : Legible s) (h : literalEmit? (spell s) = some (digits, rest)) :
    ∃ call i more c t, s = call ++ more ∧ Symbol.marks call = [i] ∧ spell call = c :: t ∧
      (∀ d ∈ t, d ≠ 'p' ∧ d ≠ 'e') ∧ digits = Nat.toDigits 10 i ∧ spell more = rest ∧
      ∀ before, wordMayBegin before = true → Emitted before (spell s) i := by
  obtain ⟨word, hword, a, b, c, tail, ha, hb, hc, hne, hdigits, ht, htail⟩ := literalEmit?_eq_some h
  obtain ⟨l, ls, hl, hbare, hls⟩ : ∃ l ls, word.toList = l :: ls ∧ Bare (l :: ls) ∧
      ∀ d ∈ ls, d ≠ 'p' ∧ d ≠ 'e' := by
    rcases emitting_word hword with hw | hw <;> exact ⟨_, _, hw, by decide, by decide⟩
  have hfront : Bare (l :: ls ++ (a ++ '(' :: b)) :=
    bare_append.mpr ⟨hbare, bare_append.mpr
      ⟨bare_of_blank ha, bare_cons.mpr ⟨by decide, bare_of_blank hb⟩⟩⟩
  have htail' : Bare tail ∧ ∀ d ∈ tail, isBlank d = true ∨ d = ';' := by
    cases htail with
    | plain hb _ => exact ⟨bare_of_blank hb, fun d hd => Or.inl (hb d hd)⟩
    | ended hb =>
        refine ⟨bare_append.mpr ⟨bare_of_blank hb, by decide⟩, fun d hd => ?_⟩
        rcases List.mem_append.mp hd with hd | hd
        · exact Or.inl (hb d hd)
        · exact Or.inr (List.mem_singleton.mp hd)
  have hback : Bare (c ++ ')' :: tail) := by
    simp only [bare_append, bare_cons]
    exact ⟨bare_of_blank hc, by decide, htail'.1⟩
  rw [hl] at ht
  obtain ⟨p, i, more, rfl, hp, rfl, hmore⟩ := symbols_of_call (u := []) (v := rest) hs (by simp)
    hfront hback hne hdigits (by rw [ht]; simp)
  have hnil : p = [] := by simpa [chars] using eq_chars (t := []) (by simp) hp
  subst hnil
  refine ⟨chars (l :: ls ++ (a ++ '(' :: b)) ++ (mark i :: chars (c ++ ')' :: tail)), i, more, l,
    ls ++ (a ++ '(' :: b) ++ (Mask.placeholder i ++ (c ++ ')' :: tail)),
    by simp, by simp [marks], by simp, fun d hd => ?_, rfl, hmore, fun before hbegin => ?_⟩
  · have hblank {d : Char} (h : isBlank d = true) : d ≠ 'p' ∧ d ≠ 'e' :=
      ⟨by rintro rfl; exact absurd h (by decide), by rintro rfl; exact absurd h (by decide)⟩
    have hmark {d : Char} (h : isMarkChar d = true) : d ≠ 'p' ∧ d ≠ 'e' :=
      ⟨by rintro rfl; exact absurd h (by decide), by rintro rfl; exact absurd h (by decide)⟩
    simp only [List.mem_append, List.mem_cons] at hd
    rcases hd with (hd | hd | rfl | hd) | hd | hd | rfl | hd
    · exact hls d hd
    · exact hblank (ha d hd)
    · decide
    · exact hblank (hb d hd)
    · exact hmark (isMarkChar_placeholder hd)
    · exact hblank (hc d hd)
    · decide
    · rcases htail'.2 d hd with h | rfl
      · exact hblank h
      · decide
  · refine ⟨_, .mk hword ha hb hc, [], tail ++ spell more, ?_, hbegin⟩
    rw [hl]
    simp

/-- Only what a masked text has is emitted in it. -/
theorem Emitted.mem_marks {i : Nat} (hs : Legible s) (h : Emitted before (spell s) i) :
    i ∈ Symbol.marks s := by
  obtain ⟨w, hw, u, v, ht, -⟩ := h
  obtain ⟨hword, ha, hb, hc⟩ := hw
  rename_i word a b c
  have hbare := (show ∀ word ∈ ["print", "echo"], Bare word.toList by decide) word hword
  have hfront : Bare (word.toList ++ (a ++ '(' :: b)) := by
    simp only [bare_append, bare_cons]
    exact ⟨hbare, bare_of_blank ha, by decide, bare_of_blank hb⟩
  have hback : Bare (c ++ [')']) := bare_append.mpr ⟨bare_of_blank hc, by decide⟩
  obtain ⟨p, j, more, rfl, -, hdigits, -⟩ := symbols_of_call hs (by simp) hfront hback
    (Nat.toDigits_ne_nil (b := 10) (n := i))
    (fun _ => isDecimalDigit_of_mem_toDigits) (u := u) (v := v) (by rw [ht]; simp [Mask.placeholder])
  rw [toDigits_inj hdigits]
  simp [marks]

end Rule

/-! ## What dropping empty calls leaves -/

/-- What the rule for empty calls leaves of a masked text: the literals in order, but for the empty
ones in a call. It leaves the same where the same literals of calls are empty. -/
structure Shed (m : Mask) (before : Option Char) (s s' : List Symbol) : Prop where
  legible : Legible s'
  kept : (marks s').Sublist (marks s)
  mem : ∀ i ∈ marks s, i ∈ marks s' ↔ ¬ (m.IsEmpty i ∧ Emitted before (spell s) i)
  result : ∀ m' : Mask, (∀ i, Emitted before (spell s) i → (m'.IsEmpty i ↔ m.IsEmpty i)) →
    Text.replaceFrom (emptyEmit m') 0 before (spell s) = spell s'

section Shed

variable {m : Mask} {before : Option Char} {v s s' : List Symbol}

private theorem Emitted.later {i : Nat} (h : Emitted (Text.lastOr before (spell v)) (spell s) i) :
    Emitted before (spell (v ++ s)) i := by
  rw [spell_append]
  exact h.prepend (spell v)

/-- A stretch that is copied, in which at most a call on a literal that is not empty begins. -/
private theorem Shed.copied (h : Shed m (Text.lastOr before (spell v)) s s') (hv : Legible v)
    (hs : Legible s) (hnodup : (marks (v ++ s)).Nodup)
    (hfirst : ∀ i, Emitted before (spell (v ++ s)) i → i ∈ marks v ∧ ¬ m.IsEmpty i ∨
      Emitted (Text.lastOr before (spell v)) (spell s) i)
    (hrun : ∀ m' : Mask, (∀ i, Emitted before (spell (v ++ s)) i → (m'.IsEmpty i ↔ m.IsEmpty i)) →
      Text.replaceFrom (emptyEmit m') 0 before (spell v ++ spell s) =
        spell v ++ Text.replaceFrom (emptyEmit m') 0 (Text.lastOr before (spell v)) (spell s)) :
    Shed m before (v ++ s) (v ++ s') := by
  rw [marks_append] at hnodup
  obtain ⟨-, -, hapart⟩ := List.nodup_append.mp hnodup
  refine ⟨legible_append.mpr ⟨hv, h.legible⟩, ?_, fun i hi => ?_, fun m' hm' => ?_⟩
  · rw [marks_append, marks_append]
    exact List.Sublist.append_left h.kept _
  · rw [marks_append, List.mem_append] at hi ⊢
    by_cases hiv : i ∈ marks v
    · refine iff_of_true (Or.inl hiv) fun ⟨hempty, hemitted⟩ => ?_
      rcases hfirst i hemitted with ⟨-, hne⟩ | hlater
      · exact hne hempty
      · exact hapart i hiv i (hlater.mem_marks hs) rfl
    · rw [or_iff_right hiv, h.mem i (hi.resolve_left hiv)]
      refine not_congr (and_congr_right fun _ => ⟨Emitted.later, fun hemitted => ?_⟩)
      exact (hfirst i hemitted).resolve_left fun hfirst => hiv hfirst.1
  · rw [spell_append, hrun m' hm', h.result m' fun i hi => hm' i hi.later, spell_append]

/-- A call that is dropped. -/
private theorem Shed.dropped {i : Nat} (h : Shed m (Text.lastOr before (spell v)) s s')
    (hv : marks v = [i]) (hnodup : (marks (v ++ s)).Nodup) (hempty : m.IsEmpty i)
    (hemitted : Emitted before (spell (v ++ s)) i)
    (hfirst : ∀ j, Emitted before (spell (v ++ s)) j → j = i ∨
      Emitted (Text.lastOr before (spell v)) (spell s) j)
    (hrun : ∀ m' : Mask, m'.IsEmpty i →
      Text.replaceFrom (emptyEmit m') 0 before (spell v ++ spell s) =
        Text.replaceFrom (emptyEmit m') 0 (Text.lastOr before (spell v)) (spell s)) :
    Shed m before (v ++ s) s' := by
  rw [marks_append, hv, List.singleton_append, List.nodup_cons] at hnodup
  have hmarks : marks (v ++ s) = i :: marks s := by rw [marks_append, hv]; rfl
  refine ⟨h.legible, ?_, fun j hj => ?_, fun m' hm' => ?_⟩
  · rw [hmarks]
    exact h.kept.cons i
  · by_cases hji : j = i
    · subst hji
      exact iff_of_false (fun hj' => hnodup.1 (h.kept.subset hj')) fun hn => hn ⟨hempty, hemitted⟩
    · rw [hmarks, List.mem_cons, or_iff_right hji] at hj
      rw [h.mem j hj]
      exact not_congr (and_congr_right fun _ =>
        ⟨Emitted.later, fun hj' => (hfirst j hj').resolve_left hji⟩)
  · rw [spell_append, hrun m' ((hm' i hemitted).mpr hempty), h.result m' fun j hj => hm' j hj.later]

private theorem Shed.mark {i : Nat} (h : Shed m (Text.lastOr before (spell [mark i])) s s')
    (hs : Legible s) (hnodup : (marks (mark i :: s)).Nodup) :
    Shed m before (mark i :: s) (mark i :: s') := by
  have hmark {c : Char} (hc : c ∈ spell [Symbol.mark i]) : isMarkChar c = true := by
    rw [spell_mark, spell_nil, List.append_nil] at hc
    exact isMarkChar_placeholder hc
  refine h.copied (by simp) hs hnodup (fun j hj => Or.inr ?_) fun m' _ => ?_
  · rw [spell_append] at hj
    refine hj.skip fun c hc => ⟨?_, ?_⟩ <;> rintro rfl <;> exact absurd (hmark hc) (by decide)
  · refine Text.replaceFrom_pass fun u c v hsplit => ?_
    refine emptyEmit_eq_none.mpr (Or.inr (literalEmit?_of_markChar (hmark ?_)))
    rw [hsplit]
    simp

/-- A character at which no call begins. -/
private theorem Shed.char {c : Char} (h : Shed m (some c) s s') (hs : Legible (char c :: s))
    (hnodup : (marks (char c :: s)).Nodup)
    (hread : wordMayBegin before = false ∨ literalEmit? (c :: spell s) = none) :
    Shed m before (char c :: s) (char c :: s') := by
  obtain ⟨hc, hs⟩ := legible_char.mp hs
  refine Shed.copied (v := [Symbol.char c]) h (legible_char.mpr ⟨hc, legible_nil⟩) hs hnodup
    (fun i hi => Or.inr ?_) fun m' _ => Text.replaceFrom_miss (emptyEmit_eq_none.mpr hread)
  refine (Emitted.cons (t := spell s) hi).resolve_left fun ⟨hbegin, rest, hcall⟩ => ?_
  rcases hread with hread | hread
  · rw [hbegin] at hread
    simp at hread
  · rw [hread] at hcall
    simp at hcall

/-- A call on a literal. -/
private theorem exists_shed_call {i : Nat} {c : Char} {t : Text} (hbegin : wordMayBegin before = true)
    (hcall : spell v = c :: t) (ht : ∀ d ∈ t, d ≠ 'p' ∧ d ≠ 'e') (hv : marks v = [i])
    (hread : literalEmit? (spell v ++ spell s) = some (Nat.toDigits 10 i, spell s))
    (hemitted : Emitted before (spell (v ++ s)) i) (hs : Legible (v ++ s))
    (hnodup : (marks (v ++ s)).Nodup) (h : Shed m (Text.lastOr before (spell v)) s s') :
    ∃ s'', Shed m before (v ++ s) s'' := by
  have hrun (m' : Mask) := replaceFrom_call (m := m') hbegin (by rw [hcall]; simp) hread
  have hfirst (j : Nat) (hj : Emitted before (spell (v ++ s)) j) :
      j = i ∨ Emitted (Text.lastOr before (spell v)) (spell s) j := by
    rw [spell_append, hcall, List.cons_append] at hj
    rw [hcall, List.cons_append] at hread
    rw [hcall, Text.lastOr_cons]
    rcases hj.cons with ⟨-, rest, hj⟩ | hj
    · rw [hread, Option.some.injEq, Prod.mk.injEq] at hj
      exact Or.inl (toDigits_inj hj.1).symm
    · exact Or.inr (hj.skip ht)
  by_cases hempty : m.IsEmpty i
  · exact ⟨_, h.dropped hv hnodup hempty hemitted hfirst fun m' => (hrun m').1⟩
  · obtain ⟨hlv, hs⟩ := legible_append.mp hs
    refine ⟨_, h.copied hlv hs hnodup (fun j hj => (hfirst j hj).imp_left ?_) fun m' hm' =>
      (hrun m').2 fun hempty' => hempty ((hm' i hemitted).mp hempty')⟩
    rintro rfl
    exact ⟨by simp [hv], hempty⟩

theorem exists_shed (m : Mask) (before : Option Char) (s : List Symbol) (hs : Legible s)
    (hnodup : (marks s).Nodup) : ∃ s', Shed m before s s' := by
  -- on the number of symbols, since a call takes several of them
  induction hn : s.length using Nat.strongRecOn generalizing before s with
  | ind n ih =>
      have tail {v more : List Symbol} (before' : Option Char) (hsplit : s = v ++ more)
          (hv : v ≠ []) : Legible more ∧ ∃ s', Shed m before' more s' := by
        subst hsplit
        have hl := (legible_append.mp hs).2
        rw [marks_append] at hnodup
        refine ⟨hl, ih more.length ?_ before' more hl (List.nodup_append.mp hnodup).2.1 rfl⟩
        have := List.length_pos_iff.mpr hv
        rw [← hn, List.length_append]
        omega
      cases s with
      | nil => exact ⟨[], hs, .slnil, by simp [marks], fun _ _ => rfl⟩
      | cons x s =>
          cases x with
          | mark i =>
              obtain ⟨hl, s', hs'⟩ := tail (v := [.mark i]) _ rfl (by simp)
              exact ⟨_, hs'.mark hl hnodup⟩
          | char c =>
              by_cases hread : wordMayBegin before = false ∨ literalEmit? (c :: spell s) = none
              · obtain ⟨-, s', hs'⟩ := tail (v := [.char c]) (some c) rfl (by simp)
                exact ⟨_, hs'.char hs hnodup hread⟩
              · rw [not_or, Bool.not_eq_false] at hread
                obtain ⟨hbegin, hread⟩ := hread
                obtain ⟨⟨digits, rest⟩, hread⟩ := Option.ne_none_iff_exists'.mp hread
                obtain ⟨call, i, more, d, t, hsplit, hv, hcall, ht, rfl, rfl, hemitted⟩ :=
                  exists_emitCall hs hread
                obtain ⟨-, s', hs'⟩ := tail (Text.lastOr before (spell call)) hsplit (by
                  rintro rfl
                  simp at hcall)
                rw [← spell_char, hsplit, spell_append] at hread
                rw [hsplit] at hs hnodup hemitted ⊢
                exact exists_shed_call hbegin hcall ht hv hread (hemitted before hbegin) hs hnodup hs'

end Shed

/-! ## The whole of normalization -/

private def readied (t : Text) : Text := (toBraces t).replaceAll semicolonSpace

private def tidied (t : Text) : Text :=
  Text.trim (((t.replaceAll repeatedSemicolon).replaceAll braceSpace).replaceAll braceSemicolon)

private theorem collapse_toBraces (m : Mask) (t : Text) :
    collapse m (toBraces t) = tidied (Text.replaceFrom (emptyEmit m) 0 none (readied t)) := rfl

private theorem edited_readied (t : Text) : Edited t (readied t) :=
  (edited_toBraces t).tail (edits_semicolonSpace.replaceAll _)

private theorem respells_tidied (t : Text) : Respells t (tidied t) :=
  ((((Edited.refl t).tail (edits_repeatedSemicolon.replaceAll _)).tail
    (edits_braceSpace.replaceAll _)).tail (edits_braceSemicolon.replaceAll _)).respells.trans
      ((respells_trimStart _).trans (respells_trimEnd _))

/-- The literals of a body come out of its normal form in order, each once and as it was, but for
empty ones that are the argument of a call of an emitting function. What stands between them does not
depend on what the literals hold, only on which literals of such calls are empty. -/
theorem normalize_keeps_literals {body : Text} (h : .plain Mask.opening ∉ tiles body) :
    let m := Mask.ofText body
    ∃ s : List Symbol, normalize body = fill m.literals s ∧ Legible s ∧
      (marks s).Sublist (List.range m.literals.length) ∧
      (∀ i < m.literals.length, i ∈ marks s ↔ ¬ (m.IsEmpty i ∧ Emitted none m.text i)) ∧
      ∀ body', (Mask.ofText body').text = m.text →
        (∀ i, Emitted none m.text i → ((Mask.ofText body').IsEmpty i ↔ m.IsEmpty i)) →
        normalize body' = fill (Mask.ofText body').literals s := by
  intro m
  have hlegible := legible_number h 0
  have htext : spell (number 0 (tiles body)) = m.text := spell_number 0 (tiles body)
  have hmarks : marks (number 0 (tiles body)) = List.range m.literals.length := by
    rw [marks_number, List.range_eq_range']
    rfl
  -- the text with the blocks in braces, then without the empty calls, then without needless marks
  obtain ⟨s₁, h₁, hm₁, hl₁⟩ := (edited_readied m.text).respells [] _ hlegible htext
  rw [List.nil_append] at h₁
  rw [hmarks] at hm₁
  obtain ⟨s₂, hshed⟩ := exists_shed m none s₁ hl₁ (by rw [hm₁]; exact List.nodup_range)
  obtain ⟨s₃, h₃, hm₃, hl₃⟩ := (respells_tidied (spell s₂)).exists_spell hshed.legible
  have hemitted (i : Nat) : Emitted none (spell s₁) i ↔ Emitted none m.text i := by
    rw [h₁]
    exact (edited_readied m.text).emitted_iff
  have hnormal {body' : Text} (ht : (Mask.ofText body').text = m.text)
      (hsame : ∀ i, Emitted none m.text i → ((Mask.ofText body').IsEmpty i ↔ m.IsEmpty i)) :
      normalize body' = fill (Mask.ofText body').literals s₃ := by
    have hrun := hshed.result (Mask.ofText body') fun i hi => hsame i ((hemitted i).mp hi)
    rw [normalize, collapse_toBraces, ht, ← h₁, hrun, ← h₃, restore_spell _ hl₃]
  refine ⟨s₃, hnormal rfl fun _ _ => Iff.rfl, hl₃, ?_, ?_, fun body' => hnormal⟩
  · rw [hm₃, ← hm₁]
    exact hshed.kept
  · intro i hi
    rw [hm₃, hshed.mem i (by rw [hm₁]; exact List.mem_range.mpr hi), hemitted]

theorem normalize_keeps_literals_printed :
    let body := "if (a): print(''); print(\"b\"); endif".toList
    let body' := "if (a): print(''); print(\"c\"); endif".toList
    .plain Mask.opening ∉ tiles body ∧
      ∃ s : List Symbol, normalize body = fill ["''".toList, "\"b\"".toList] s ∧
        normalize body' = fill ["''".toList, "\"c\"".toList] s ∧ 0 ∉ marks s ∧ 1 ∈ marks s := by
  intro body body'
  have hplain : .plain Mask.opening ∉ tiles body := by decide
  obtain ⟨s, hs, -, -, hmem, hsame⟩ := normalize_keeps_literals hplain
  have hemitted : Emitted none (Mask.ofText body).text 0 :=
    ⟨_, @EmitCall.mk 0 "print" [] [] [] (by decide) (by simp) (by simp)
      (by simp), "if (a): ".toList, "; print(\uE0001\uE001); endif".toList, by decide, by decide⟩
  have hliterals : (Mask.ofText body).literals = ["''".toList, "\"b\"".toList] := by decide
  have hliterals' : (Mask.ofText body').literals = ["''".toList, "\"c\"".toList] := by decide
  have hsame' (i : Nat) : (Mask.ofText body').IsEmpty i ↔ (Mask.ofText body).IsEmpty i := by
    rw [Mask.IsEmpty, Mask.IsEmpty, hliterals, hliterals']
    match i with
    | 0 | 1 | _ + 2 => exact Iff.rfl
  have hnormal := hsame body' (by decide) fun i _ => hsame' i
  rw [hliterals] at hs
  rw [hliterals'] at hnormal
  refine ⟨hplain, s, hs, hnormal, ?_, ?_⟩
  · rw [hmem 0 (by decide)]
    exact fun hkept => hkept ⟨by decide, hemitted⟩
  · rw [hmem 1 (by decide)]
    exact fun ⟨hempty, _⟩ => absurd hempty (by decide)

end Normalize

end Stencil
