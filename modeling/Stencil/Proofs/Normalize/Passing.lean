import Stencil.Proofs.Normalize.BlockWords
import Stencil.Proofs.Normalize.Items
/-!
# Items that the rules for blocks pass over

What each piece of code must be like, together with the mark after it, so that a text of such pieces
passes the rules for blocks.
-/
namespace Stencil.Normalize

open Text

/-! ## Rules for blocks -/

/-- Wherever a word may begin, replacement makes the new text of the old one, and a word may begin
again after it. -/
def Turns (rule : Rule) (old new : Text) : Prop :=
  ∀ before rest, wordMayBegin before = true →
    replaceFrom rule 0 before (old ++ rest) = new ++ replaceFrom rule 0 (lastOr before old) rest ∧
      wordMayBegin (lastOr before old) = true

namespace Turns

variable {rule : Rule}

theorem append {s s' t t' : Text} (hs : Turns rule s s') (ht : Turns rule t t') :
    Turns rule (s ++ t) (s' ++ t') := by
  intro before rest hbefore
  obtain ⟨h1, hend⟩ := hs before (t ++ rest) hbefore
  obtain ⟨h2, hend'⟩ := ht (lastOr before s) rest hend
  rw [List.append_assoc, List.append_assoc, h1, h2, lastOr_append]
  exact ⟨rfl, hend'⟩

theorem flatMap {α : Type} {xs : List α} {f g : α → Text} (h : ∀ x ∈ xs, Turns rule (f x) (g x)) :
    Turns rule (xs.flatMap f) (xs.flatMap g) := by
  induction xs with
  | nil => exact fun _ _ hbefore => ⟨rfl, hbefore⟩
  | cons x xs ih =>
      rw [List.flatMap_cons, List.flatMap_cons]
      exact (h x (by simp)).append (ih fun y hy => h y (by simp [hy]))

theorem replaceAll {t t' : Text} (h : Turns rule t t') : t.replaceAll rule = t' := by
  have hwhole := (h none [] rfl).1
  rwa [List.append_nil, replaceFrom_nil, List.append_nil] at hwhole

/-- Characters outside every word stay. -/
theorem outside (hrule : Keyed rule) {s : Text} (hs : ∀ c ∈ s, isWordChar c = false) :
    Turns rule s s := by
  intro before rest hbefore
  refine ⟨hrule.outside before hs rest, ?_⟩
  induction s generalizing before with
  | nil => exact hbefore
  | cons c s ih =>
      have hc : wordMayBegin (some c) = true := by simp [wordMayBegin, hs c (by simp)]
      exact ih (fun d hd => hs d (by simp [hd])) (some c) hc

end Turns

theorem isWordChar_of_stop {c : Char} (h : isStop c = true) : isWordChar c = false := by
  simp only [isStop, Bool.or_eq_true, beq_iff_eq] at h
  rcases h with (rfl | rfl) | rfl <;> decide

/-- The rule passes over the code where the mark follows it. -/
def Passes (rule : Rule) (t : Text) (c : Char) : Prop :=
  ∀ before g rest, wordMayBegin before = true → Blank g →
    replaceFrom rule 0 before (t ++ (g ++ c :: rest)) =
      t ++ replaceFrom rule 0 (lastOr before t) (g ++ c :: rest)

private theorem turns_items {rule : Rule} (hrule : Keyed rule) {items : List Item}
    (hi : Punctuated (Passes rule) items) {before : Option Char}
    (hbefore : wordMayBegin before = true ∨ reaches isStop items = true) (rest : Text) :
    replaceFrom rule 0 before (spread items ++ rest) =
        spread items ++ replaceFrom rule 0 (lastOr before (spread items)) rest ∧
      wordMayBegin (lastOr before (spread items)) = true := by
  induction hi generalizing before with
  | nil => exact ⟨rfl, hbefore.resolve_right (by simp [reaches])⟩
  | @blank b r hb _ ih =>
      have hout : ∀ c ∈ b, isWordChar c = false := fun c hc => isWordChar_of_blank (hb c hc)
      have hnext : wordMayBegin (lastOr before b) = true ∨ reaches isStop r = true :=
        hbefore.imp_left fun h => (Turns.outside hrule hout before [] h).2
      obtain ⟨h, hend⟩ := ih hnext
      rw [spread_blank, List.append_assoc, hrule.outside before hout, h, lastOr_append, List.append_assoc]
      exact ⟨rfl, hend⟩
  | @stop c r hc _ _ ih =>
      have hout : ∀ d ∈ [c], isWordChar d = false := by
        simpa using isWordChar_of_stop hc
      have hnext : wordMayBegin (some c) = true := by simp [wordMayBegin, isWordChar_of_stop hc]
      obtain ⟨h, hend⟩ := ih (Or.inl hnext)
      have hmark := hrule.outside before hout (spread r ++ rest)
      rw [spread_stop, List.cons_append, ← List.singleton_append, hmark, lastOr_cons, lastOr_nil, h]
      exact ⟨rfl, hend⟩
  | @code t g c r ht hr ih =>
      have hbegin : wordMayBegin before = true := hbefore.resolve_right (by simp [reaches])
      cases hr with
      | blank hg hr =>
          cases hr with
          | stop hc _ _ =>
              obtain ⟨h, hend⟩ := @ih (lastOr before t) (Or.inr hc)
              have hpass := ht before g (spread r ++ rest) hbegin hg
              rw [spread_code, lastOr_append]
              refine ⟨?_, hend⟩
              simp only [spread_blank, spread_stop, List.append_assoc, List.cons_append] at h ⊢
              rw [hpass, h]

/-- A text of pieces that the rule passes over stays. -/
theorem Turns.items {rule : Rule} (hrule : Keyed rule) {items : List Item}
    (hi : Punctuated (Passes rule) items) : Turns rule (spread items) (spread items) :=
  fun _ rest hbefore => turns_items hrule hi (Or.inl hbefore) rest

/-! ## Else as a statement -/

/-- Whether an `else` stands here that a semicolon follows, or the end. -/
def isBareElse (t : Text) : Bool :=
  (after? "else".toList t).any fun rest =>
    (trimStart rest).isEmpty || (trimStart rest).head? == some ';'

theorem isBareElse_iff {t : Text} : isBareElse t = true ↔ ∃ b v, Blank b ∧
    t = "else".toList ++ (b ++ v) ∧ (v = [] ∨ ∃ w, v = ';' :: w) := by
  rw [isBareElse, Option.any_eq_true]
  constructor
  · rintro ⟨rest, hrest, h⟩
    obtain ⟨b, hb, hsplit⟩ := exists_blank_trimStart rest
    refine ⟨b, trimStart rest, hb, by rw [← hsplit]; exact after?_eq_some.mp hrest, ?_⟩
    rw [Bool.or_eq_true, List.isEmpty_iff, beq_iff_eq] at h
    exact h.imp_right List.head?_eq_some_iff.mp
  · rintro ⟨b, v, hb, rfl, hv⟩
    refine ⟨b ++ v, after?_append _ _, ?_⟩
    rcases hv with rfl | ⟨w, rfl⟩
    · rw [List.append_nil, trimStart_eq_nil.mpr hb]
      rfl
    · rw [trimStart_append hb (flush_cons.mpr (by decide))]
      rfl

/-- An `else` of its own is read after any white space. -/
theorem bareElse?_isSome (t : Text) : (bareElse? t).isSome = isBareElse (trimStart t) := by
  rw [Bool.eq_iff_iff]
  constructor
  · intro h
    obtain ⟨⟨lead, stop, rest⟩, h⟩ := Option.isSome_iff_exists.mp h
    obtain ⟨b, hlead, hb, rfl, hstop⟩ := bareElse?_eq_some h
    have hflush : Flush ("else".toList ++ b ++ (stop ++ rest)) :=
      flush_cons.mpr (show isBlank 'e' = false by decide)
    rw [trimStart_append hlead hflush, List.append_assoc]
    refine isBareElse_iff.mpr ⟨b, stop ++ rest, hb, rfl, ?_⟩
    rcases hstop with ⟨rfl, rfl⟩ | rfl
    · exact Or.inl rfl
    · exact Or.inr ⟨rest, rfl⟩
  · intro h
    obtain ⟨b, v, hb, ht, hv⟩ := isBareElse_iff.mp h
    rw [bareElse?, ht, after?_append]
    rcases hv with rfl | ⟨w, rfl⟩
    · have hended := ended_blank_append hb (t := []) rfl
      rw [List.append_nil] at hended ⊢
      simp [hended, trimStart_eq_nil.mpr hb]
    · have hflush : Flush (';' :: w) := flush_cons.mpr (by decide)
      have hended : wordHasEnded (b ++ ';' :: w) = true := by
        refine ended_blank_append hb ?_
        rw [trimStart_of_flush hflush]
        exact show (!isWordChar ';') = true by decide
      simp [hended, trimStart_append hb hflush]

theorem bareElse?_eq_none {t : Text} : bareElse? t = none ↔ isBareElse (trimStart t) = false := by
  rw [← bareElse?_isSome, Option.isSome_eq_false_iff, Option.isNone_iff_eq_none]

/-- The code is no `else` of its own where the mark follows it. -/
def Calm (t : Text) (c : Char) : Prop :=
  ∀ g rest, Blank g → bareElse? (t ++ (g ++ c :: rest)) = none

private theorem bareElse?_blank {b t : Text} (hb : Blank b) (h : bareElse? t = none) :
    bareElse? (b ++ t) = none := by
  rw [bareElse?_eq_none] at h ⊢
  rwa [trimStart_blank_append hb]

theorem bareElse?_of_head {c : Char} (hblank : isBlank c = false) (hc : c ≠ 'e') (t : Text) :
    bareElse? (c :: t) = none := by
  have hnone : after? "else".toList (c :: t) = none := after?_cons_ne (Ne.symm hc) _ t
  rw [bareElse?, trimStart_of_flush (flush_cons.mpr hblank), hnone]

private theorem bareElse?_spread {items : List Item} (hi : Punctuated Calm items) :
    bareElse? (spread items) = none := by
  induction hi with
  | nil => rfl
  | blank hb _ ih => exact bareElse?_blank hb ih
  | @stop c r hc _ _ _ =>
      refine bareElse?_of_head (isBlank_of_stop hc) ?_ _
      rintro rfl
      simp [isStop] at hc
  | @code t g c r ht hr _ =>
      cases hr with
      | blank hg _ => exact ht g (spread r) hg

theorem statementElse_eq_none {before : Option Char} {c : Char} {t : Text} :
    statementElse before (c :: t) = none ↔
      (before = none → bareElse? (c :: t) = none) ∧ (c = ';' → bareElse? t = none) := by
  unfold statementElse
  simp only [Option.orElse_eq_orElse, Option.orElse_eq_or, Option.or_eq_none_iff]
  refine and_congr ?_ ?_
  · cases before <;> simp
  · by_cases hc : c = ';'
    · subst hc
      simp
    · simp [hc]

/-- A text without an `else` of its own stays. -/
theorem replaceAll_statementElse {items : List Item} (hi : Punctuated Calm items)
    (hsolid : Punctuated (fun t _ => Solid t) items) :
    (spread items).replaceAll statementElse = spread items := by
  have hall (before : Option Char) :
      replaceFrom statementElse 0 before (spread items) = spread items := by
    induction hi generalizing before with
    | nil => rfl
    | @blank b r hb hr ih =>
        cases hsolid with
        | blank _ hs =>
            rw [spread_blank, replaceFrom_pass, ih hs]
            intro u c v hsplit
            have hblank : Blank (c :: v) := fun d hd =>
              hb d (by rw [hsplit]; exact List.mem_append_right _ hd)
            refine statementElse_eq_none.mpr ⟨fun _ => bareElse?_blank hblank (bareElse?_spread hr), ?_⟩
            rintro rfl
            have := hblank ';' (by simp)
            simp [isBlank] at this
    | @stop c r hc hnext hr ih =>
        cases hsolid with
        | stop _ _ hs =>
            rw [spread_stop, replaceFrom_miss, ih hs]
            exact statementElse_eq_none.mpr ⟨fun _ => bareElse?_spread (.stop hc hnext hr),
              fun _ => bareElse?_spread hr⟩
    | @code t g c r ht hr ih =>
        have hwhole := bareElse?_spread (.code ht hr)
        cases hsolid with
        | code hs hrest =>
            rw [spread_code, replaceFrom_pass, ih hrest]
            intro u d v hsplit
            refine statementElse_eq_none.mpr ⟨fun hnone => ?_, fun hsemi => ?_⟩
            · cases u with
              | nil => rwa [spread_code, hsplit] at hwhole
              | cons e u =>
                  obtain ⟨_, -, hlast⟩ := exists_mem_lastOr before e u
                  rw [hlast] at hnone
                  simp at hnone
            · have hout := hs.noStop d (by rw [hsplit]; simp)
              rw [hsemi] at hout
              simp [isStop] at hout
  exact hall none

end Stencil.Normalize
