import Stencil.Proofs.Style.Thinning
/-!
# Taking comments out

The first pass of the compressed style takes out the leftmost comment, as short as it can be read, and
goes on behind it. Thinning the white space out afterwards neither makes a comment nor breaks one.
-/
namespace Stencil

namespace Style

open Text

def commentStart : Text := ['<', '!', '-', '-']

def commentEnd : Text := ['-', '-', '>']

/-- A comment can be read somewhere. -/
def HasComment (t : Text) : Prop :=
  ∃ u inside v, t = u ++ (commentStart ++ (inside ++ (commentEnd ++ v)))

/-- No earlier end of a comment could be read. -/
def Shortest (inside v : Text) : Prop :=
  ∀ inside' v', inside ++ (commentEnd ++ v) = inside' ++ (commentEnd ++ v') →
    inside.length ≤ inside'.length

/-- No earlier comment could be read. -/
def Leftmost (u t : Text) : Prop :=
  ∀ u' inside' v', u ++ t = u' ++ (commentStart ++ (inside' ++ (commentEnd ++ v'))) →
    u.length ≤ u'.length

/-- The second text is what is left of the first when each leftmost shortest comment is removed. -/
inductive Stripped : Text → Text → Prop
  | plain {t : Text} : ¬ HasComment t → Stripped t t
  | next {u inside v rest : Text} :
      Leftmost u (commentStart ++ (inside ++ (commentEnd ++ v))) → Shortest inside v →
      Stripped v rest → Stripped (u ++ (commentStart ++ (inside ++ (commentEnd ++ v)))) (u ++ rest)

variable {before : Option Char} {t t' u v inside new rest : Text}

/-! ## The end of a comment -/

theorem Shortest.unique {inside' v' : Text} (h : Shortest inside v) (h' : Shortest inside' v')
    (heq : inside ++ (commentEnd ++ v) = inside' ++ (commentEnd ++ v')) :
    inside = inside' ∧ v = v' := by
  have hlength : inside.length = inside'.length :=
    Nat.le_antisymm (h inside' v' heq) (h' inside v heq.symm)
  obtain ⟨hinside, hrest⟩ := List.append_inj heq hlength
  exact ⟨hinside, List.append_cancel_left hrest⟩

theorem afterCommentEnd?_end (v : Text) : afterCommentEnd? (commentEnd ++ v) = some v := by
  simp [commentEnd, afterCommentEnd?]

theorem afterCommentEnd?_cons {c : Char} (h : ∀ v, c :: t ≠ commentEnd ++ v) :
    afterCommentEnd? (c :: t) = afterCommentEnd? t := by
  rw [afterCommentEnd?]
  rintro v rfl rfl
  exact h v rfl

theorem afterCommentEnd?_eq_some (h : afterCommentEnd? t = some v) :
    ∃ inside, t = inside ++ (commentEnd ++ v) ∧ Shortest inside v := by
  induction t with
  | nil => simp [afterCommentEnd?] at h
  | cons c t ih =>
      by_cases hend : ∃ w, c :: t = commentEnd ++ w
      · obtain ⟨w, hw⟩ := hend
        rw [hw, afterCommentEnd?_end, Option.some.injEq] at h
        rw [hw, h]
        exact ⟨[], rfl, fun _ _ _ => Nat.zero_le _⟩
      · rw [not_exists] at hend
        rw [afterCommentEnd?_cons hend] at h
        obtain ⟨inside, rfl, hshort⟩ := ih h
        refine ⟨c :: inside, rfl, ?_⟩
        intro inside' v' heq
        cases inside' with
        | nil => exact absurd heq (hend v')
        | cons d inside' =>
            have hle := hshort inside' v' (List.cons.inj heq).2
            simp only [List.length_cons]
            omega

theorem afterCommentEnd?_isSome (inside v : Text) :
    ∃ w, afterCommentEnd? (inside ++ (commentEnd ++ v)) = some w := by
  induction inside with
  | nil => exact ⟨v, afterCommentEnd?_end v⟩
  | cons c inside ih =>
      by_cases hend : ∃ w, c :: (inside ++ (commentEnd ++ v)) = commentEnd ++ w
      · obtain ⟨w, hw⟩ := hend
        rw [List.cons_append, hw]
        exact ⟨w, afterCommentEnd?_end w⟩
      · rw [not_exists] at hend
        rw [List.cons_append, afterCommentEnd?_cons hend]
        exact ih

/-! ## The rule -/

theorem comment_eq_some (h : comment before t = some (new, rest)) :
    ∃ inside, t = (commentStart ++ (inside ++ commentEnd)) ++ rest ∧ Shortest inside rest ∧
      new = [] := by
  unfold comment at h
  split at h
  · obtain ⟨v, hv, hfound⟩ := Option.map_eq_some_iff.mp h
    rw [Prod.mk.injEq] at hfound
    rw [hfound.2] at hv
    obtain ⟨inside, rfl, hshort⟩ := afterCommentEnd?_eq_some hv
    exact ⟨inside, by simp [commentStart], hshort, hfound.1.symm⟩
  · simp at h

theorem comment_of_shortest (h : Shortest inside v) :
    comment before (commentStart ++ (inside ++ (commentEnd ++ v))) = some ([], v) := by
  obtain ⟨w, hw⟩ := afterCommentEnd?_isSome inside v
  obtain ⟨inside', heq, hshort⟩ := afterCommentEnd?_eq_some hw
  obtain ⟨-, rfl⟩ := h.unique hshort heq
  simp [commentStart, comment, hw]

theorem comment_ne_none (inside v : Text) :
    comment before (commentStart ++ (inside ++ (commentEnd ++ v))) ≠ none := by
  obtain ⟨w, hw⟩ := afterCommentEnd?_isSome inside v
  simp [commentStart, comment, hw]

theorem comment_advances : Rule.Advances comment := by
  intro before t new rest h
  obtain ⟨inside, ht, -, -⟩ := comment_eq_some h
  exact ⟨_, by simp [commentStart], ht⟩

/-! ## The pass -/

/-- What is removed of a text is what the first pass removes. -/
theorem stripped_replaceAll (t : Text) : Stripped t (t.replaceAll comment) := by
  apply replaceFrom_induct comment_advances (motive := fun _ t out => Stripped t out)
  case nil =>
    intro _
    apply Stripped.plain
    rintro ⟨u, inside, v, h⟩
    simp [commentStart] at h
  case miss =>
    intro before c t new hmiss ih
    -- no comment begins with the character, so each begins further on
    have further {u inside v : Text}
        (h : c :: t = u ++ (commentStart ++ (inside ++ (commentEnd ++ v)))) :
        ∃ u', u = c :: u' ∧ t = u' ++ (commentStart ++ (inside ++ (commentEnd ++ v))) := by
      cases u with
      | nil =>
          rw [h] at hmiss
          exact absurd hmiss (comment_ne_none inside v)
      | cons d u =>
          rw [List.cons_append, List.cons.injEq] at h
          exact ⟨u, by rw [h.1], h.2⟩
    cases ih with
    | plain hnone =>
        apply Stripped.plain
        rintro ⟨u, inside, v, h⟩
        obtain ⟨u', -, ht⟩ := further h
        exact hnone ⟨u', inside, v, ht⟩
    | next hleft hshort hrest =>
        refine Stripped.next (u := c :: _) ?_ hshort hrest
        intro u' inside' v' h
        obtain ⟨u'', rfl, ht⟩ := further h
        have hle := hleft u'' inside' v' ht
        simp only [List.length_cons]
        omega
  case hit =>
    intro before old rest new more _ hhit ih
    obtain ⟨inside, hold, hshort, rfl⟩ := comment_eq_some hhit
    rw [List.append_cancel_right hold]
    have hfirst : Leftmost [] (commentStart ++ (inside ++ (commentEnd ++ rest))) :=
      fun _ _ _ _ => Nat.zero_le _
    simpa using Stripped.next hfirst hshort ih

/-- There is one way only to remove each leftmost shortest comment. -/
theorem Stripped.replaceAll (h : Stripped t rest) : t.replaceAll comment = rest := by
  have key : ∀ before, replaceFrom comment 0 before t = rest := by
    induction h with
    | @plain t hnone =>
        intro before
        apply replaceFrom_self comment_advances
        rintro u v new rest rfl hhit
        obtain ⟨inside, rfl, -, -⟩ := comment_eq_some hhit
        exact absurd ⟨u, inside, rest, by simp⟩ hnone
    | @next u inside v rest hleft hshort _ ih =>
        intro before
        rw [replaceFrom_pass]
        · rw [← List.append_assoc inside, ← List.append_assoc commentStart,
            replaceFrom_match (by simp [commentStart]) _, ih, List.nil_append]
          simpa using comment_of_shortest hshort
        · -- a comment that begins earlier would be further to the left
          intro u₁ c u₂ hu
          by_contra hhit
          obtain ⟨⟨new, rest⟩, hhit⟩ := Option.ne_none_iff_exists'.mp hhit
          obtain ⟨inside', ht, -, -⟩ := comment_eq_some hhit
          have hearlier : u ++ (commentStart ++ (inside ++ (commentEnd ++ v))) =
              u₁ ++ (commentStart ++ (inside' ++ (commentEnd ++ rest))) := by
            rw [hu, List.append_assoc]
            simpa using ht
          have hle := hleft u₁ inside' rest hearlier
          rw [hu, List.length_append, List.length_cons] at hle
          omega
  exact key none

theorem Stripped.sublist (h : Stripped t rest) : rest.Sublist t := by
  induction h with
  | plain => exact List.Sublist.refl _
  | @next u inside v rest _ _ _ ih =>
      apply List.Sublist.append_left
      rw [← List.append_assoc inside, ← List.append_assoc commentStart]
      exact ih.trans (List.sublist_append_right _ _)

/-- Removing a comment removes characters that are not white space. -/
theorem Stripped.length_content_lt (h : Stripped t rest) (hcomment : HasComment t) :
    (rest.filter fun c => !isBlank c).length < (t.filter fun c => !isBlank c).length := by
  cases h with
  | plain hnone => exact absurd hcomment hnone
  | @next u inside v rest _ _ hrest =>
      have hle := (hrest.sublist.filter fun c => !isBlank c).length_le
      have hstart : (commentStart.filter fun c => !isBlank c).length = 4 := by decide
      simp only [List.filter_append, List.length_append, hstart]
      omega

/-! ## Comments and white space -/

theorem tight_commentStart : Tight commentStart := by
  simp [Tight, commentStart, Seam, isBlank]

theorem tight_commentEnd : Tight commentEnd := by
  simp [Tight, commentEnd, Seam, isBlank]

theorem Tight.flush {word : Text} (h : Tight word) (hne : word ≠ []) (v : Text) :
    Flush (word ++ v) := by
  cases word with
  | nil => exact absurd rfl hne
  | cons c word =>
      rw [List.cons_append, flush_cons]
      exact h.1 c List.mem_cons_self

/-- Thinning white space out neither makes a comment nor breaks one. -/
theorem Thins.hasComment (h : Thins before t t') : HasComment t' ↔ HasComment t := by
  constructor
  · rintro ⟨u', inside', v', rfl⟩
    obtain ⟨_, u, r₁, rfl, h₁⟩ := h.to_append
    obtain ⟨gap, r₂, rfl, -, h₂⟩ := h₁.to_word tight_commentStart (by decide)
    obtain ⟨_, inside, r₃, rfl, h₃⟩ := h₂.to_append
    obtain ⟨gap', v, rfl, -, -⟩ := h₃.to_word tight_commentEnd (by decide)
    exact ⟨u ++ gap, inside ++ gap', v, by simp⟩
  · rintro ⟨u, inside, v, rfl⟩
    obtain ⟨_, u', r₁, rfl, h₁⟩ := h.of_append (tight_commentStart.flush (by decide) _)
    obtain ⟨r₂, rfl, h₂⟩ := h₁.of_word tight_commentStart.1
    obtain ⟨_, inside', r₃, rfl, h₃⟩ := h₂.of_append (tight_commentEnd.flush (by decide) _)
    obtain ⟨v', rfl, -⟩ := h₃.of_word tight_commentEnd.1
    exact ⟨u', inside', v', rfl⟩

end Style

end Stencil
