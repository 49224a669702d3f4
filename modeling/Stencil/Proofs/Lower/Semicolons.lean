import Stencil.Proofs.Mask.Passes
import Stencil.Proofs.Normalize.Semicolons
import Stencil.Proofs.Lua.Lexing
/-!
# Semicolons in lowered text

Lowering exchanges parentheses, braces and words. It takes no semicolon, and what stands before one
stands before it still: nothing, another semicolon, or what opens a block or a table. It begins no
string and no comment, so that masking the lowered body gives the lowered mask.
-/
namespace Stencil

open Symbol
open Normalize (visible)

namespace Lower

section Swap

variable {old new s t t' u v w : Text}

/-! ## Strings and comments -/

private theorem not_opens_words :
    ∀ new ∈ [" ", " do ", " then ", " else ", " elseif ", " end "].map String.toList,
      new ≠ [] ∧ ∀ c ∈ new, opens c = false := by decide

private theorem infix_of_cons {d : Char} (hd : d ∉ w) (h : w <:+: u ++ d :: t) :
    w <:+: u ∨ w <:+: t := by
  obtain ⟨x, y, h⟩ := h
  rw [List.append_assoc] at h
  rcases List.append_eq_append_iff.mp h with ⟨z, rfl, hz⟩ | ⟨z, rfl, hz⟩
  · rcases List.append_eq_append_iff.mp hz with ⟨z', rfl, -⟩ | ⟨z', rfl, hz'⟩
    · exact Or.inl ⟨x, z', by simp⟩
    · cases z' with
      | nil => exact Or.inl ⟨x, [], by simp⟩
      | cons c z' =>
          obtain ⟨rfl, -⟩ := List.cons.inj hz'
          exact absurd (by simp) hd
  · cases z with
    | nil =>
        cases w with
        | nil => exact Or.inl List.nil_infix
        | cons c w =>
            obtain ⟨rfl, -⟩ := List.cons.inj hz
            exact absurd (by simp) hd
    | cons c z =>
        obtain ⟨-, rfl⟩ := List.cons.inj hz
        exact Or.inr ⟨z, y, by simp⟩

/-- What opens a string or a comment lies on one side of a text that cannot be part of it. -/
private theorem infix_of_parted (hne : new ≠ []) (hnew : ∀ c ∈ new, opens c = false)
    (hw : ∀ c ∈ w, opens c = true) (h : w <:+: u ++ (new ++ t)) : w <:+: u ∨ w <:+: t := by
  induction new generalizing u with
  | nil => exact absurd rfl hne
  | cons d new ih =>
      obtain ⟨hopens, hnew⟩ := List.forall_mem_cons.mp hnew
      have hd : d ∉ w := by
        intro hmem
        rw [hw d hmem] at hopens
        simp at hopens
      refine (infix_of_cons hd h).imp_right fun hrest => ?_
      cases new with
      | nil => exact hrest
      | cons e new =>
          rcases ih (u := []) (by simp) hnew hrest with hnil | hi
          · rw [List.infix_nil.mp hnil]
            exact List.nil_infix
          · exact hi

/-- Lowering begins no string and no comment. -/
theorem Lowers.settled {literals : List Text} (h : Lowers t t') (ht : Settled literals t) :
    Settled literals t' := by
  induction h with
  | refl => exact ht
  | @swap u old new t _ hs _ ih =>
      obtain ⟨hne, hnew⟩ := not_opens_words _ hs.mem_words
      refine ih fun w hw hi => ht w hw ?_
      rcases infix_of_parted hne hnew hw.opens hi with hi | hi
      · exact hi.trans (List.prefix_append u (old ++ t)).isInfix
      · exact hi.trans ((List.suffix_append old t).trans (List.suffix_append u _)).isInfix

/-! ## What stands before a semicolon -/

/-- What opens a block or a table. -/
def openers : List Text := ["\x7b", " do", " then", " else"].map String.toList

/-- The text ends with what opens a block or a table, white space apart. -/
def EndsOpen (t : Text) : Prop :=
  ∃ word ∈ openers, ∃ u b, Text.Blank b ∧ t = u ++ (word ++ b)

/-- Where one text ends with nothing, with a semicolon or with what opens a block or a table, the other
one does. -/
structure Follows (u w : Text) : Prop where
  blank : visible u = [] → visible w = []
  semicolon : (visible u).getLast? = some ';' → (visible w).getLast? = some ';'
  opens : EndsOpen u → EndsOpen w

theorem Follows.refl (u : Text) : Follows u u := ⟨id, id, id⟩

theorem Follows.trans (h : Follows u v) (h' : Follows v w) : Follows u w :=
  ⟨fun hu => h'.blank (h.blank hu), fun hu => h'.semicolon (h.semicolon hu),
    fun hu => h'.opens (h.opens hu)⟩

theorem Swap.no_semicolon (h : Swap old new) : ';' ∉ old ∧ ';' ∉ new := by
  have blank {b : Text} (hb : Text.Blank b) : ';' ∉ b := fun hmem => absurd (hb _ hmem) (by decide)
  refine ⟨?_, (show ∀ new ∈ [" ", " do ", " then ", " else ", " elseif ", " end "].map String.toList,
    ';' ∉ new by decide) _ h.mem_words⟩
  cases h with
  | opening _ => decide
  | header hb hb' => simp [blank hb, blank hb']
  | body hb hb' => simp [blank hb, blank hb']
  | otherwise hb hb' => simp [blank hb, blank hb']
  | elseIf hb hb' hb'' => simp [blank hb, blank hb', blank hb'']
  | closing => decide

/-- The last visible character of what lowering takes. -/
private theorem Swap.last (h : Swap old new) : ∃ c ∈ ['{', '(', 'f', '}'],
    (visible old).getLast? = some c ∧
      (c = '{' → ∃ word ∈ openers, new = word ++ [' ']) := by
  have hwords : ∀ new ∈ [" do ", " then ", " else "].map String.toList,
      ∃ word ∈ openers, new = word ++ [' '] := by decide
  have hlast {c : Char} (hc : isBlank c = false) (s : Text) :
      (visible (s ++ [c])).getLast? = some c := by
    rw [Normalize.visible_append, Normalize.visible_cons hc]
    exact List.getLast?_concat
  cases h with
  | opening hword =>
      refine ⟨'{', by simp, hlast (by decide) [], fun _ => hwords _ ?_⟩
      simp only [List.mem_cons, List.not_mem_nil, or_false] at hword
      rcases hword with rfl | rfl <;> decide
  | @header b b' _ hb' =>
      refine ⟨'(', by simp, ?_, by simp⟩
      have h := hlast (c := '(') (by decide) b
      rw [← List.singleton_append, ← List.append_assoc, Normalize.visible_append,
        Normalize.visible_of_blank hb', List.append_nil]
      exact h
  | @body b b' _ _ =>
      refine ⟨'{', by simp, ?_, fun _ => hwords _ (by decide)⟩
      simpa using hlast (c := '{') (by decide) (b ++ ')' :: b')
  | @otherwise b b' _ _ =>
      refine ⟨'{', by simp, ?_, fun _ => hwords _ (by decide)⟩
      simpa using hlast (c := '{') (by decide) ('}' :: (b ++ ("else".toList ++ b')))
  | @elseIf b b' b'' _ _ hb'' =>
      refine ⟨'f', by simp, ?_, by simp⟩
      have h := hlast (c := 'f') (by decide) ('}' :: (b ++ ("else".toList ++ (b' ++ ['i']))))
      have hsplit : '}' :: (b ++ ("else".toList ++ (b' ++ ("if".toList ++ b'')))) =
          '}' :: (b ++ ("else".toList ++ (b' ++ ['i']))) ++ ['f'] ++ b'' := by simp
      rw [hsplit, Normalize.visible_append, Normalize.visible_of_blank hb'', List.append_nil]
      exact h
  | closing => exact ⟨'}', by simp, hlast (by decide) [], by simp⟩

private theorem blank_of_visible (h : visible t = []) : Text.Blank t := by
  intro c hc
  have hnone := List.filter_eq_nil_iff.mp h c hc
  simpa using hnone

private theorem getLast?_visible_append (s : Text) (h : visible t ≠ []) :
    (visible (s ++ t)).getLast? = (visible t).getLast? := by
  rw [Normalize.visible_append, List.getLast?_append_of_ne_nil _ h]

/-- What opens a block, cut in two: the first part is a blank or ends in a letter. -/
private theorem cut_opener {word a a' : Text} (hword : word ∈ openers) (h : word = a ++ a')
    (ha : a ≠ []) (ha' : a' ≠ []) : a = [' '] ∨
      ∃ c, (visible a).getLast? = some c ∧ c ∉ ['{', '(', 'f', '}'] := by
  have hall : ∀ word ∈ openers, ∀ n < word.length, 0 < n → word.take n = [' '] ∨
      ∃ c ∈ "dothenels".toList, (visible (word.take n)).getLast? = some c := by decide
  have hletters : ∀ c ∈ "dothenels".toList, c ∉ ['{', '(', 'f', '}'] := by decide
  have htake : word.take a.length = a := by rw [h, List.take_left]
  have hlength : a.length < word.length := by
    rw [h, List.length_append]
    have := List.length_pos_iff.mpr ha'
    omega
  have hcut := hall word hword a.length hlength (List.length_pos_iff.mpr ha)
  rw [htake] at hcut
  exact hcut.imp_right fun ⟨c, hc, hlast⟩ => ⟨c, hlast, hletters c hc⟩

private theorem getLast_words :
    ∀ new ∈ [" ", " do ", " then ", " else ", " elseif ", " end "].map String.toList,
      new.getLast? = some ' ' := by decide

private theorem Swap.follows (h : Swap old new) (p q : Text) :
    Follows (p ++ (old ++ q)) (p ++ (new ++ q)) := by
  obtain ⟨c, hc, hlast, hnew⟩ := h.last
  have hold (s : Text) : (visible (s ++ old)).getLast? = some c := by
    rw [getLast?_visible_append s (by rintro hnil; simp [hnil] at hlast), hlast]
  have hend (hq : visible q = []) : (visible (p ++ (old ++ q))).getLast? = some c := by
    rw [← List.append_assoc, Normalize.visible_append, hq, List.append_nil, hold]
  have hmore (hq : visible q ≠ []) (s x : Text) :
      (visible (s ++ (x ++ q))).getLast? = (visible q).getLast? := by
    rw [← List.append_assoc, getLast?_visible_append _ hq]
  refine ⟨fun hnil => ?_, fun hsemi => ?_, ?_⟩
  · simp only [Normalize.visible_append, List.append_eq_nil_iff] at hnil
    rw [hnil.2.1] at hlast
    simp at hlast
  · by_cases hq : visible q = []
    · rw [hend hq, Option.some.injEq] at hsemi
      subst hsemi
      exact absurd hc (by decide)
    · rw [hmore hq] at hsemi ⊢
      exact hsemi
  · rintro ⟨word, hword, u, b, hb, ht⟩
    by_cases hq : visible q = []
    · have hwords : ∀ word ∈ openers, (visible word).getLast? = some '{' ∨
          ∃ d ∈ "one".toList, (visible word).getLast? = some d := by decide
      have hsame : (visible word).getLast? = some c := by
        have hne : visible word ≠ [] := (show ∀ word ∈ openers, visible word ≠ [] by decide) _ hword
        rw [← hend hq, ht, ← List.append_assoc, Normalize.visible_append,
          Normalize.visible_of_blank hb, List.append_nil, getLast?_visible_append _ hne]
      rcases hwords word hword with hbrace | ⟨d, hd, hletter⟩
      · obtain ⟨word', hword', rfl⟩ := hnew (Option.some.inj (hsame.symm.trans hbrace))
        refine ⟨word', hword', p, ' ' :: q, Text.blank_cons.mpr ⟨by decide, blank_of_visible hq⟩, ?_⟩
        simp
      · obtain rfl := Option.some.inj (hsame.symm.trans hletter)
        have hout : ∀ d ∈ "one".toList, d ∉ ['{', '(', 'f', '}'] := by decide
        exact absurd hc (hout c hd)
    · have hout (b' : Text) (h : b = b' ++ q) : False :=
        hq (Normalize.visible_of_blank (Text.blank_append.mp (h ▸ hb)).2)
      rw [← List.append_assoc] at ht
      rcases List.append_eq_append_iff.mp ht with ⟨a, -, rfl⟩ | ⟨a, hu, hword'⟩
      · exact ⟨word, hword, p ++ (new ++ a), b, hb, by simp⟩
      · rcases List.append_eq_append_iff.mp hword' with ⟨a', rfl, hb'⟩ | ⟨a', hcut, rfl⟩
        · exact (hout a' hb').elim
        · by_cases ha : a = []
          · subst ha
            exact ⟨word, hword, p ++ new, b, hb, by rw [hcut]; simp⟩
          · by_cases ha' : a' = []
            · subst ha'
              exact (hout [] rfl).elim
            · rcases cut_opener hword hcut ha ha' with rfl | ⟨d, hd, hdout⟩
              · -- the blank before the word is there as well in what is put in
                obtain ⟨n, rfl⟩ := List.getLast?_eq_some_iff.mp (getLast_words _ h.mem_words)
                exact ⟨word, hword, p ++ n, b, hb, by rw [hcut]; simp⟩
              · have hsame := hold p
                rw [hu, getLast?_visible_append _ (by rintro hnil; simp [hnil] at hd), hd] at hsame
                obtain rfl := Option.some.inj hsame
                exact absurd hc hdout

/-- A semicolon is still there, with as many before it and with the same standing before it. -/
theorem Lowers.before (h : Lowers t t') (ht : t = u ++ ';' :: v) :
    ∃ w x, t' = w ++ ';' :: x ∧ w.count ';' = u.count ';' ∧ Follows u w := by
  induction h generalizing u v with
  | refl => exact ⟨u, v, ht, rfl, .refl u⟩
  | @swap p old new q _ hs _ ih =>
      obtain ⟨hold, hnew⟩ := hs.no_semicolon
      rcases List.append_eq_append_iff.mp ht with ⟨a, rfl, hrest⟩ | ⟨a, rfl, hrest⟩
      · rcases List.append_eq_append_iff.mp hrest with ⟨a', rfl, rfl⟩ | ⟨a', rfl, hsemi⟩
        · obtain ⟨w, x, rfl, hcount, hw⟩ := ih (u := p ++ (new ++ a')) (v := v) (by simp)
          refine ⟨w, x, rfl, hcount.trans ?_, (hs.follows p a').trans hw⟩
          simp only [List.count_append, List.count_eq_zero.mpr hold, List.count_eq_zero.mpr hnew]
        · cases a' with
          | nil =>
              obtain ⟨w, x, rfl, hcount, hw⟩ :=
                ih (u := p ++ (new ++ [])) (v := v) (by rw [List.nil_append] at hsemi; simp [hsemi])
              rw [List.append_nil] at hold
              refine ⟨w, x, rfl, hcount.trans ?_, ?_⟩
              · simp only [List.count_append, List.count_eq_zero.mpr hold,
                  List.count_eq_zero.mpr hnew, List.count_nil]
              · have h := (hs.follows p []).trans hw
                simpa using h
          | cons d a' =>
              obtain ⟨rfl, -⟩ := List.cons.inj hsemi
              exact absurd (by simp) hold
      · cases a with
        | nil =>
            obtain ⟨c, old, rfl⟩ := List.exists_cons_of_ne_nil hs.bare.1
            obtain ⟨rfl, -⟩ := List.cons.inj hrest
            exact absurd (by simp) hold
        | cons d a =>
            obtain ⟨rfl, rfl⟩ := List.cons.inj hrest
            exact ih (u := u) (v := a ++ (new ++ q)) (by simp)

theorem Lowers.count_semicolon (h : Lowers t t') : t'.count ';' = t.count ';' := by
  induction h with
  | refl => rfl
  | swap hs _ ih =>
      obtain ⟨hold, hnew⟩ := hs.no_semicolon
      rw [ih]
      simp only [List.count_append, List.count_eq_zero.mpr hold, List.count_eq_zero.mpr hnew]

end Swap

end Lower

/-! ## The mask of a lowered body -/

/-- A source of code and closed literals only. -/
structure CommentFree (source : Text) : Prop where
  code : ∀ x ∈ tiles source, x.isComment = false
  closed : ∀ x ∈ tiles source, x.isClosed = true

instance (source : Text) : Decidable (CommentFree source) :=
  decidable_of_iff ((∀ x ∈ tiles source, x.isComment = false) ∧ ∀ x ∈ tiles source, x.isClosed = true)
    ⟨fun h => ⟨h.1, h.2⟩, fun h => ⟨h.code, h.closed⟩⟩

private theorem apart_of_code {ts : List Tile} (h : ∀ x ∈ ts, x.isComment = false) :
    Tile.apart ts = true := by
  induction ts with
  | nil => rfl
  | cons x ts ih =>
      obtain ⟨-, hts⟩ := List.forall_mem_cons.mp h
      have hjoins : Tile.joins x ts = false := by
        unfold Tile.joins
        split
        · have hcode := hts _ List.mem_cons_self
          simp [Tile.isComment] at hcode
        · rfl
      rw [Tile.apart, hjoins, ih hts]
      rfl

/-- Both see the same literals in such a source. -/
theorem CommentFree.maskable {source : Text} (h : CommentFree source) :
    Lua.Maskable (tiles source) := by
  refine ⟨fun x hx => ?_, h.closed, fun x hx => ?_, apart_of_code h.code⟩
  · have hcode := h.code x hx
    cases x with
    | plain _ => rfl
    | literal _ => rfl
    | comment _ => simp [Tile.isComment] at hcode
    | spaced _ => simp [Tile.isComment] at hcode
  · have hcode := h.code x hx
    cases x with
    | comment _ => simp [Tile.isComment] at hcode
    | _ => rfl

theorem CommentFree.proper {source : Text} (h : CommentFree source)
    (hlegible : .plain Mask.opening ∉ tiles source) :
    Proper (Mask.literalsOf (tiles source)) (number 0 (tiles source)) := by
  refine proper_number ⟨fun x hx => ?_, hlegible⟩ fun l hl => fit_of_closed hl (h.closed _ hl)
  have hcode := h.code x hx
  cases x with
  | comment _ => simp [Tile.isComment] at hcode
  | _ => rfl

private theorem mem_marks {i : Nat} {s : List Symbol} (h : .mark i ∈ s) : i ∈ marks s := by
  induction s with
  | nil => simp at h
  | cons y s ih =>
      rcases List.mem_cons.mp h with rfl | hmem
      · exact List.mem_cons_self
      · cases y with
        | char c => exact ih hmem
        | mark j => exact List.mem_cons_of_mem j (ih hmem)

namespace Lower

/-- Masking a lowered body gives its lowered mask. A lowered body has no comments either. -/
theorem commentFree_lower {body : Text} (h : CommentFree body)
    (hlegible : .plain Mask.opening ∉ tiles body) : CommentFree (lower body) ∧
      (Mask.ofText (lower body)).text =
        Text.trimEnd (lowerFrom 0 [] [] (Mask.ofText body).text).reverse := by
  have hproper := h.proper hlegible
  have hlowers := lowers_lowerFrom 0 [] [] (spell (number 0 (tiles body)))
  obtain ⟨s, hs, hmarks, hl⟩ := exists_spell_lower hproper.legible
  have hsettled : Settled (Mask.literalsOf (tiles body)) (spell s) := by
    obtain ⟨b, -, ht⟩ := Text.exists_trimEnd_blank
      (lowerFrom 0 [] [] (spell (number 0 (tiles body)))).reverse
    intro w hw hi
    refine hlowers.settled hproper.settled w hw ?_
    rw [ht, ← hs]
    exact hi.trans (List.prefix_append _ b).isInfix
  have hlowered : Proper (Mask.literalsOf (tiles body)) s :=
    ⟨hl, hsettled, hmarks.trans hproper.marks_eq, hproper.fit⟩
  have hfill : lower body = fill (Mask.literalsOf (tiles body)) s := by
    rw [lower, Mask.ofText, ← spell_number, ← hs, restore_spell _ hl]
  refine ⟨?_, ?_⟩
  · have htile : ∀ x ∈ tiles (lower body), x.isComment = false ∧ x.isClosed = true := by
      rw [hfill, hlowered.tiles_fill]
      refine List.forall_mem_map.mpr fun y hy => ?_
      cases y with
      | char c => exact ⟨rfl, rfl⟩
      | mark i =>
          have hi := mem_marks hy
          rw [hlowered.marks_eq, List.mem_range] at hi
          rw [tile, List.getElem?_eq_getElem hi]
          exact ⟨rfl, h.closed _ (mem_literalsOf.mp (List.getElem_mem hi))⟩
    exact ⟨fun x hx => (htile x hx).1, fun x hx => (htile x hx).2⟩
  · rw [hfill, hlowered.ofText_fill, hs, Mask.ofText, spell_number]

end Lower

end Stencil
