import Stencil.Text.Replace
/-!
# Block heads

A keyword that opens a block, followed by a parenthesis: `if (`, `else if (`, `for (`, `while (`.
-/
namespace Stencil

/-- A block head up to its parenthesis: the keyword as written and the text after the
parenthesis. -/
structure BlockHead where
  keyword : Text
  afterOpen : Text
deriving Repr, DecidableEq

namespace BlockHead

/-- The keyword that stands here, as written, and the text after it. -/
def keyword? (t : Text) : Option (Text × Text) :=
  match Text.after? "else".toList t with
  | some rest =>
    (Text.after? "if".toList (Text.trimStart rest)).map fun after =>
      (t.take (t.length - after.length), after)
  | none =>
    ["if", "for", "while"].findSome? fun word =>
      (Text.after? word.toList t).map fun after => (word.toList, after)

/-- The block head that begins here, where the given character stands before. -/
def read? (before : Option Char) (t : Text) : Option BlockHead :=
  if wordMayBegin before then
    match keyword? t with
    | some (keyword, after) =>
      match Text.trimStart after with
      | '(' :: afterOpen => some ⟨keyword, afterOpen⟩
      -- native code has heads without parentheses
      | _ => none
    | none => none
  else none

private theorem keyword?_rest_shorter {t keyword rest : Text}
    (h : keyword? t = some (keyword, rest)) : rest.length + 2 ≤ t.length := by
  unfold keyword? at h
  split at h
  · rename_i afterElse he
    obtain ⟨after, ha, hp⟩ := Option.map_eq_some_iff.mp h
    have h1 := Text.after?_length he
    have h2 := Text.after?_length ha
    have h3 := Text.length_trimStart_le afterElse
    simp only [Prod.mk.injEq] at hp
    rw [← hp.2]
    simp only [show "if".toList.length = 2 from rfl] at h2
    omega
  · obtain ⟨word, hw, hf⟩ := List.exists_of_findSome?_eq_some h
    obtain ⟨after, ha, hp⟩ := Option.map_eq_some_iff.mp hf
    have h1 := Text.after?_length ha
    simp only [Prod.mk.injEq] at hp
    rw [← hp.2]
    have h2 : 2 ≤ word.toList.length := by
      simp only [List.mem_cons, List.not_mem_nil, or_false] at hw
      rcases hw with rfl | rfl | rfl <;> decide
    omega

/-- A head takes at least its keyword and its parenthesis. -/
theorem length_afterOpen {before : Option Char} {t : Text} {head : BlockHead}
    (h : read? before t = some head) : head.afterOpen.length + 3 ≤ t.length := by
  unfold read? at h
  split at h
  · split at h
    · rename_i keyword after hk
      have h1 := keyword?_rest_shorter hk
      split at h
      · rename_i afterOpen ht
        have h2 := Text.length_trimStart_le after
        rw [ht] at h2
        simp only [Option.some.injEq] at h
        subst h
        simp only [List.length_cons] at h2
        simp only
        omega
      · simp at h
    · simp at h
  · simp at h

def isElse (h : BlockHead) : Bool := "else".toList.isPrefixOf h.keyword

end BlockHead

end Stencil
