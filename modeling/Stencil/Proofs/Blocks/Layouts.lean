import Stencil.Proofs.Blocks.Sources
/-!
# Layouts of clauses

The styles in which clauses are written put plain characters around the text of a clause, if it has
one, so that masking works on that text alone.
-/
namespace Stencil

open Tile

namespace Clause

/-- The layout puts plain characters around the text of the clause, if it has one. -/
structure Around (layout : Clause Text → Text) (x : Clause Text) (front back : Text) : Prop where
  plain : ∀ c ∈ front ++ back, Span.isPlain c = true
  breaks : Breaks back
  eq : ∀ t, (x.inner = [] → t = []) → layout (x.withInner t) = front ++ (t ++ back)

theorem around_fixed {layout : Clause Text → Text} {x : Clause Text} (hx : x.inner = [])
    (hfixed : ∀ t, x.withInner t = x) (hplain : ∀ c ∈ layout x, Span.isPlain c = true) :
    Around layout x (layout x) [] := by
  refine ⟨by rwa [List.append_nil], breaks_nil, fun t ht => ?_⟩
  rw [hfixed, ht hx, List.append_nil, List.append_nil]

/-- In the brace style, with white space around braces or none, and something after each leaf. -/
theorem around_brace {gap last : Text} (hgap : ∀ c ∈ gap, Span.isPlain c = true)
    (hlast : ∀ c ∈ last, Span.isPlain c = true) (hbreaks : Breaks last) (x : Clause Text) :
    ∃ front back, Around (fun y => (y.map (· ++ last)).brace gap) x front back ∧
      (last ≠ [] → x.inner = [] ∨ back ≠ []) := by
  have hclose : Breaks ([')'] ++ (gap ++ ['\x7b'])) := breaks_cons.mpr (by decide)
  have hback : ∀ c ∈ [')'] ++ (gap ++ ['\x7b']), Span.isPlain c = true := by
    simp only [List.forall_mem_append]
    exact ⟨by decide, hgap, by decide⟩
  cases x with
  | leaf t =>
      exact ⟨[], last, ⟨by simpa using hlast, hbreaks, fun t _ => rfl⟩, Or.inr⟩
  | head kind c =>
      refine ⟨kind.word ++ " (".toList, _, ⟨?_, hclose, fun t _ => ?_⟩, fun _ => Or.inr (by simp)⟩
      · rw [List.forall_mem_append]
        exact ⟨by cases kind <;> decide, hback⟩
      · simp [Clause.withInner, Clause.map, Clause.brace, head_code]
  | elseIf c =>
      refine ⟨['\x7d'] ++ (gap ++ "else if (".toList), _, ⟨?_, hclose, fun t _ => ?_⟩,
        fun _ => Or.inr (by simp)⟩
      · rw [List.forall_mem_append]
        refine ⟨?_, hback⟩
        simp only [List.forall_mem_append]
        exact ⟨by decide, hgap, by decide⟩
      · simp [Clause.withInner, Clause.map, Clause.brace, elseIf_code]
  | otherwise =>
      have hplain : ∀ c ∈ ['\x7d'] ++ (gap ++ ("else".toList ++ (gap ++ ['\x7b']))),
          Span.isPlain c = true := by
        simp only [List.forall_mem_append]
        exact ⟨by decide, hgap, by decide, hgap, by decide⟩
      exact ⟨_, _, around_fixed rfl (fun _ => rfl) hplain, fun _ => Or.inl rfl⟩
  | close kind =>
      have hplain : ∀ c ∈ ['\x7d'], Span.isPlain c = true := by decide
      exact ⟨_, _, around_fixed rfl (fun _ => rfl) hplain, fun _ => Or.inl rfl⟩

end Clause

namespace Placed

variable {p : Placed}

theorem good_span {x : Clause Text} (h : ClosedCode x.inner) {front back : Text}
    (hplain : ∀ c ∈ front ++ back, Span.isPlain c = true)
    (hbreaks : x.inner = [] ∨ back ≠ [] ∧ Breaks back) : (Span.mk front x.inner back).Good := by
  rw [List.forall_mem_append] at hplain
  exact ⟨hplain.1, hplain.2, h, hbreaks⟩

theorem framed_of_around {layout : Clause Text → Text} {front back : Text}
    (h : ClosedCode p.clause.inner) (ha : p.clause.Around layout front back)
    (hne : p.clause.inner = [] ∨ back ≠ []) : p.Framed fun q => layout q.clause :=
  ⟨⟨front, p.clause.inner, back⟩,
    good_span h ha.plain (hne.imp_right fun hback => ⟨hback, ha.breaks⟩), rfl, ha.eq⟩

theorem framed_canonical (h : ClosedCode p.clause.inner) : p.Framed fun q => q.clause.canonical := by
  obtain ⟨front, back, ha, hne⟩ :=
    @Clause.around_brace [] [';'] (by decide) (by decide) (breaks_cons.mpr (by decide)) p.clause
  exact framed_of_around h ha (hne (by simp))

end Placed

end Stencil
