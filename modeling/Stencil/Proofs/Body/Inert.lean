import Stencil.Proofs.Body.Source
import Stencil.Proofs.Mask.Passes
import Stencil.Proofs.Repair.Steps
import Mathlib.Data.List.Forall2
/-!
# Emitted text is inert

Two bodies that differ in the text of one emitted literal have the same code and the same other
literals. So have their normal forms, and what lowering and repair make of these.
-/
namespace Stencil

open Symbol

/-! ## Filling in one literal or another -/

/-- The texts differ in one place, where the first literal stands in one and the second in the
other. -/
def Twins (l₁ l₂ x y : Text) : Prop := ∃ u v, x = u ++ l₁ ++ v ∧ y = u ++ l₂ ++ v

/-- The texts have the same masked text and the same literals, but for one of them. -/
def MaskTwins (before : List Text) (l₁ l₂ : Text) (after : List Text) (x y : Text) : Prop :=
  ∃ text, Mask.ofText x = ⟨text, before ++ l₁ :: after⟩ ∧
    Mask.ofText y = ⟨text, before ++ l₂ :: after⟩

section Fill

variable {before after : List Text}

private theorem fill_eq {s : List Symbol} (h : before.length ∉ marks s) (l₁ l₂ : Text) :
    fill (before ++ l₁ :: after) s = fill (before ++ l₂ :: after) s := by
  induction s with
  | nil => rfl
  | cons x s ih =>
      cases x with
      | char c => exact congrArg (c :: ·) (ih h)
      | mark i =>
          simp only [marks, List.mem_cons, not_or] at h
          have hi : (before ++ l₁ :: after)[i]? = (before ++ l₂ :: after)[i]? := by
            simp only [List.getElem?_append]
            split
            · rfl
            · rename_i hlt
              obtain ⟨j, hj⟩ : ∃ j, i - before.length = j + 1 :=
                ⟨i - before.length - 1, by omega⟩
              rw [hj, List.getElem?_cons_succ, List.getElem?_cons_succ]
          rw [fill_mark, fill_mark, hi, ih h.2]

private theorem exists_mark {s : List Symbol} {i : Nat} (h : i ∈ marks s) :
    ∃ a b, s = a ++ mark i :: b := by
  induction s with
  | nil => simp [marks] at h
  | cons x s ih =>
      cases x with
      | char c =>
          obtain ⟨a, b, rfl⟩ := ih h
          exact ⟨char c :: a, b, rfl⟩
      | mark j =>
          rcases List.mem_cons.mp h with rfl | h
          · exact ⟨[], s, rfl⟩
          · obtain ⟨a, b, rfl⟩ := ih h
            exact ⟨mark j :: a, b, rfl⟩

/-- A mark that stands once is where the two texts differ. -/
private theorem twins_fill {s : List Symbol} (hnodup : (marks s).Nodup)
    (h : before.length ∈ marks s) (l₁ l₂ : Text) :
    Twins l₁ l₂ (fill (before ++ l₁ :: after) s) (fill (before ++ l₂ :: after) s) := by
  obtain ⟨a, b, rfl⟩ := exists_mark h
  rw [marks_append, List.nodup_append] at hnodup
  obtain ⟨-, hb, hab⟩ := hnodup
  simp only [marks, List.nodup_cons] at hb
  have ha : before.length ∉ marks a := fun hmem =>
    hab _ hmem _ (by simp [marks]) rfl
  refine ⟨fill (before ++ l₁ :: after) a, fill (before ++ l₁ :: after) b, ?_, ?_⟩
  · simp [fill_mark]
  · rw [fill_eq ha l₁ l₂, fill_eq hb.1 l₁ l₂]
    simp [fill_mark]

end Fill

/-! ## Proper symbols with one literal or another -/

section Proper

variable {before after : List Text} {l₁ l₂ : Text} {s : List Symbol}

private theorem marks_of_proper (h : Proper (before ++ l₁ :: after) s) :
    (marks s).Nodup ∧ before.length ∈ marks s := by
  rw [h.marks_eq, List.mem_range]
  exact ⟨List.nodup_range, by simp⟩

private theorem twins_of_marks (h : Proper (before ++ l₁ :: after) s) {s' : List Symbol}
    (hm : marks s' = marks s) :
    Twins l₁ l₂ (fill (before ++ l₁ :: after) s') (fill (before ++ l₂ :: after) s') := by
  obtain ⟨hnodup, hmem⟩ := marks_of_proper h
  exact twins_fill (hm ▸ hnodup) (hm ▸ hmem) l₁ l₂

/-- Lowering does not see the literal. -/
private theorem twins_lower (h₁ : Proper (before ++ l₁ :: after) s)
    (h₂ : Proper (before ++ l₂ :: after) s) :
    Twins l₁ l₂ (lower (fill (before ++ l₁ :: after) s)) (lower (fill (before ++ l₂ :: after) s)) := by
  obtain ⟨s', hs', hm, hl⟩ := Lower.exists_spell_lower h₁.legible
  rw [lower, lower, h₁.ofText_fill, h₂.ofText_fill]
  dsimp only
  rw [← hs', restore_spell _ hl, restore_spell _ hl]
  exact twins_of_marks h₁ hm

/-- Two reports of the same repair, each with its own literal in the head. -/
def RepairTwins (l₁ l₂ : Text) (r₁ r₂ : Repair) : Prop :=
  r₁.closed = r₂.closed ∧ (r₁.head = r₂.head ∨ Twins l₁ l₂ r₁.head r₂.head)

/-- Repair does not see the literal. -/
private theorem twins_repair (h₁ : Proper (before ++ l₁ :: after) s)
    (h₂ : Proper (before ++ l₂ :: after) s) :
    Twins l₁ l₂ (repair (fill (before ++ l₁ :: after) s)).1
        (repair (fill (before ++ l₂ :: after) s)).1 ∧
      List.Forall₂ (RepairTwins l₁ l₂) (repair (fill (before ++ l₁ :: after) s)).2
        (repair (fill (before ++ l₂ :: after) s)).2 := by
  obtain ⟨⟨s', hs', hm, hl⟩, hheads⟩ :=
    Repair.exists_spell_repairFrom [] (spell s) ⟨s, rfl, rfl, h₁.legible⟩
  rw [repair, repair, h₁.ofText_fill, h₂.ofText_fill]
  dsimp only
  rw [Repair.repairFrom_restore, Repair.repairFrom_restore ⟨spell s, before ++ l₂ :: after⟩]
  dsimp only
  rw [← hs', restore_spell _ hl, restore_spell _ hl]
  refine ⟨twins_of_marks h₁ hm, ?_⟩
  rw [List.forall₂_map_left_iff, List.forall₂_map_right_iff, List.forall₂_same]
  intro r hr
  obtain ⟨sr, hsr, hmr, hlr⟩ := hheads r hr
  dsimp only [RepairTwins]
  rw [← hsr, restore_spell _ hlr, restore_spell _ hlr]
  refine ⟨rfl, ?_⟩
  by_cases hmem : before.length ∈ marks sr
  · exact Or.inr (twins_fill ((marks_of_proper h₁).1.sublist hmr.sublist) hmem l₁ l₂)
  · exact Or.inl (fill_eq hmem l₁ l₂)

end Proper

/-! ## Normalization -/

/-- A literal that is not empty takes part in no empty call, so it may be another such. -/
private theorem callFree_of_twin {before after : List Text} {l₁ l₂ text t : Text}
    (h₂ : Normalize.isEmptyQuoted l₂ = false)
    (h : Normalize.CallFree ⟨text, before ++ l₁ :: after⟩ t) :
    Normalize.CallFree ⟨text, before ++ l₂ :: after⟩ t := by
  intro w hw
  refine h w ?_
  obtain ⟨hword, ha, hb, hc, hne, hl, hq⟩ := hw
  rename_i literal
  refine .mk hword ha hb hc hne ?_ hq
  obtain ⟨i, hi, hget⟩ := Option.bind_eq_some_iff.mp hl
  rw [Mask.literal?, hi, Option.bind_some, ← hget]
  simp only [List.getElem?_append] at hget ⊢
  split
  · rfl
  · rename_i hlt
    rw [if_neg hlt] at hget
    cases hj : i - before.length with
    | zero =>
        rw [hj, List.getElem?_cons_zero, Option.some.injEq] at hget
        rw [← hget, h₂] at hq
        simp at hq
    | succ j => rw [List.getElem?_cons_succ, List.getElem?_cons_succ]

/-! ## Bodies -/

/-- The body with a chosen literal among other elements. -/
def Body.around (front back : List Element) (t : Text) : Body := ⟨front ++ .emit t :: back⟩

/-- The code of an element can be told from its literals, and these can be read again. -/
private theorem proper_element {e : Element} (h : ∀ c, e = .code c → Sealed c) :
    Plain e.tiles ∧ ∀ l, .literal l ∈ e.tiles → Fit l := by
  cases e with
  | emit t =>
      have hmem {x : Tile} (hx : x ∈ (Element.emit t).tiles) :
          (∃ c, x = .plain c ∧ c ≠ Mask.opening) ∨ x = .literal (quoted t) := by
        have hcode : ∀ c ∈ "print(".toList ++ ");\n".toList, c ≠ Mask.opening := by decide
        simp only [Element.tiles, List.mem_append, List.mem_cons] at hx
        rcases hx with hx | rfl | hx
        · obtain ⟨c, hc, rfl⟩ := List.mem_map.mp hx
          exact Or.inl ⟨c, rfl, hcode c (List.mem_append_left _ hc)⟩
        · exact Or.inr rfl
        · obtain ⟨c, hc, rfl⟩ := List.mem_map.mp hx
          exact Or.inl ⟨c, rfl, hcode c (List.mem_append_right _ hc)⟩
      refine ⟨⟨fun x hx => ?_, fun hx => ?_⟩, fun l hx => ?_⟩
      · rcases hmem hx with ⟨c, rfl, -⟩ | rfl <;> rfl
      · rcases hmem hx with ⟨d, hd, hne⟩ | hd
        · exact hne (Tile.plain.inj hd).symm
        · simp at hd
      · rcases hmem hx with ⟨d, hd, -⟩ | hd
        · simp at hd
        · rw [Tile.literal.inj hd]
          exact fit_quoted t
  | code c =>
      have hs := h c rfl
      exact ⟨hs.plain, fun l hl => fit_of_closed hl (hs.closed _ hl)⟩

/-- One code and one list of other literals for every text of the chosen one. -/
private theorem exists_proper_source {front back : List Element}
    (hcode : ∀ c, .code c ∈ front ++ back → Sealed c) :
    ∃ before after s, ∀ t,
      Mask.ofText (Body.around front back t).source = ⟨spell s, before ++ quoted t :: after⟩ ∧
      Proper (before ++ quoted t :: after) s := by
  let A := front.flatMap Element.tiles ++ callStart
  let B := callEnd ++ back.flatMap Element.tiles
  refine ⟨Mask.literalsOf A, Mask.literalsOf B,
    number 0 A ++ mark (Mask.literalsOf A).length :: number ((Mask.literalsOf A).length + 1) B,
    fun t => ?_⟩
  have helements : ∀ c, .code c ∈ front ++ .emit t :: back → Sealed c := by
    intro c hc
    refine hcode c ?_
    simpa using hc
  have htiles : tiles (Body.around front back t).source = A ++ .literal (quoted t) :: B := by
    have h := tiles_source helements []
    rw [List.append_nil, show tiles ([] : Text) = [] from rfl, List.append_nil] at h
    rw [Body.source, Body.around, h]
    simp [A, B, Element.tiles]
  have hplain : Plain (tiles (Body.around front back t).source) ∧
      ∀ l, .literal l ∈ tiles (Body.around front back t).source → Fit l := by
    have hsource : tiles (Body.around front back t).source =
        (front ++ .emit t :: back).flatMap Element.tiles := by
      rw [htiles]
      simp [A, B, Element.tiles]
    have helement {x : Tile} (hx : x ∈ tiles (Body.around front back t).source) :
        ∃ e : Element, x ∈ e.tiles ∧ Plain e.tiles ∧ ∀ l, .literal l ∈ e.tiles → Fit l := by
      rw [hsource, List.mem_flatMap] at hx
      obtain ⟨e, he, hx⟩ := hx
      exact ⟨e, hx, proper_element fun c hc => helements c (hc ▸ he)⟩
    refine ⟨⟨fun x hx => ?_, fun hx => ?_⟩, fun l hx => ?_⟩
    · obtain ⟨e, hx, hp, -⟩ := helement hx
      exact hp.short x hx
    · obtain ⟨e, hx, hp, -⟩ := helement hx
      exact hp.legible hx
    · obtain ⟨e, hx, -, hfit⟩ := helement hx
      exact hfit l hx
  have hliterals : Mask.literalsOf (tiles (Body.around front back t).source) =
      Mask.literalsOf A ++ quoted t :: Mask.literalsOf B := by
    rw [htiles, literalsOf_append, Mask.literalsOf]
  have hnumber : number 0 (tiles (Body.around front back t).source) =
      number 0 A ++ mark (Mask.literalsOf A).length ::
        number ((Mask.literalsOf A).length + 1) B := by
    rw [htiles, number_append, number, Nat.zero_add]
  have hproper := proper_number hplain.1 hplain.2
  rw [hliterals, hnumber] at hproper
  refine ⟨?_, hproper⟩
  rw [Mask.ofText, ← spell_number, hliterals, hnumber]

/-- The passes cannot tell one source from the other: they have the same code and the same other
literals, so have their normal forms, and lowering and repair make of these what differs in that
literal only. -/
structure Alike (l₁ l₂ x y : Text) : Prop where
  masked : ∃ before after, MaskTwins before l₁ l₂ after x y ∧
    MaskTwins before l₁ l₂ after (normalize x) (normalize y)
  normalized : Twins l₁ l₂ (normalize x) (normalize y)
  lowered : Twins l₁ l₂ (lower (normalize x)) (lower (normalize y))
  repaired : Twins l₁ l₂ (repair (normalize x)).1 (repair (normalize y)).1
  repairs : List.Forall₂ (RepairTwins l₁ l₂) (repair (normalize x)).2 (repair (normalize y)).2

/-- Emitted text is inert: the passes cannot tell which non-empty text is emitted at a place. -/
theorem emitted_text_inert {front back : List Element} {t₁ t₂ : Text}
    (hcode : ∀ c, .code c ∈ front ++ back → Sealed c) (h₂ : t₂ ≠ [])
    (hfree : NoEmptyCall (Body.around front back t₁).source) :
    Alike (quoted t₁) (quoted t₂) (Body.around front back t₁).source
      (Body.around front back t₂).source := by
  obtain ⟨before, after, s, hs⟩ := exists_proper_source hcode
  obtain ⟨hx, hproper₁⟩ := hs t₁
  obtain ⟨hy, hproper₂⟩ := hs t₂
  have hfree₁ : Normalize.CallFree ⟨spell s, before ++ quoted t₁ :: after⟩ (spell s) := by
    rw [NoEmptyCall, hx] at hfree
    exact hfree
  have hfree₂ := callFree_of_twin (isEmptyQuoted_quoted h₂) hfree₁
  obtain ⟨s', hs', hnormal₁⟩ := exists_proper_collapse hproper₁ hfree₁
  have hsame := Normalize.collapse_eq ((Normalize.edited_toBraces _).callFree hfree₁)
    ((Normalize.edited_toBraces _).callFree hfree₂)
  have hnormal₂ : Proper (before ++ quoted t₂ :: after) s' := by
    obtain ⟨s'', hs'', h⟩ := exists_proper_collapse hproper₂ hfree₂
    rw [← hsame, ← hs'] at hs''
    exact ⟨hnormal₁.legible, hs'' ▸ h.settled, hnormal₁.marks_eq.trans (by simp), h.fit⟩
  have hnx : normalize (Body.around front back t₁).source =
      fill (before ++ quoted t₁ :: after) s' := by
    rw [normalize, hx]
    dsimp only
    rw [← hs', restore_spell _ hnormal₁.legible]
  have hny : normalize (Body.around front back t₂).source =
      fill (before ++ quoted t₂ :: after) s' := by
    rw [normalize, hy]
    dsimp only
    rw [← hsame, ← hs', restore_spell _ hnormal₂.legible]
  obtain ⟨htext, hreports⟩ := twins_repair hnormal₁ hnormal₂
  constructor
  · refine ⟨before, after, ⟨_, hx, hy⟩, ?_⟩
    rw [hnx, hny]
    exact ⟨_, hnormal₁.ofText_fill, hnormal₂.ofText_fill⟩
  · rw [hnx, hny]
    exact twins_of_marks hnormal₁ rfl
  · rw [hnx, hny]
    exact twins_lower hnormal₁ hnormal₂
  · rw [hnx, hny]
    exact htext
  · rw [hnx, hny]
    exact hreports

theorem emitted_comment_inert :
    Alike (quoted "a".toList) (quoted "\" // ]] endif;\n".toList)
      (Body.around [.code "if (x):".toList] [.code "endif".toList] "a".toList).source
      (Body.around [.code "if (x):".toList] [.code "endif".toList]
        "\" // ]] endif;\n".toList).source := by
  refine emitted_text_inert (fun c hc => ?_) (by decide) (by decide +kernel)
  simp only [List.cons_append, List.nil_append, List.mem_cons, Element.code.injEq,
    List.not_mem_nil, or_false] at hc
  rcases hc with rfl | rfl
  · decide +kernel
  · decide +kernel

/-- It is the assembled code that must not have an empty call. A comment can swallow the end of
statement between two fragments, and then a call that neither fragment has is dropped. What stood
around it opens a comment, and the emitted text may close that one. -/
theorem split_call_not_inert :
    Sealed "x = y /print( // c".toList ∧ NoEmptyCall "x = y /print( // c;\n".toList ∧
      Sealed "\"\")* z".toList ∧ NoEmptyCall "\"\")* z;\n".toList ∧
      ¬ Alike (quoted "a".toList) (quoted "*/ b".toList)
        (Body.around [.code "x = y /print( // c".toList, .code "\"\")* z".toList] []
          "a".toList).source
        (Body.around [.code "x = y /print( // c".toList, .code "\"\")* z".toList] []
          "*/ b".toList).source := by
  refine ⟨by decide +kernel, by decide +kernel, by decide +kernel, by decide +kernel, fun h => ?_⟩
  obtain ⟨u, v, hlower, -⟩ := h.lowered
  have hgone : '"' ∉ lower (normalize (Body.around
      [.code "x = y /print( // c".toList, .code "\"\")* z".toList] [] "a".toList).source) := by
    decide +kernel
  rw [hlower] at hgone
  exact hgone (by simp [quoted])

end Stencil
