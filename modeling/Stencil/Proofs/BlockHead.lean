import Stencil.BlockHead
import Stencil.Proofs.Mask.Symbols
/-!
# Where a block head stands

The heads that are read are exactly a keyword, white space and a parenthesis, where a word may
begin. No head runs over a brace, a semicolon or a closing parenthesis, so the heads of a text are
counted on the two sides of one.
-/
namespace Stencil.BlockHead

/-- The keywords of block heads, as written. -/
inductive IsKeyword : Text → Prop
  | plain {word : String} : word ∈ ["if", "for", "while"] → IsKeyword word.toList
  | branch {b : Text} : Text.Blank b → IsKeyword ("else".toList ++ (b ++ "if".toList))

theorem IsKeyword.bare {keyword : Text} (h : IsKeyword keyword) :
    Symbol.Bare keyword := by
  cases h with
  | plain hw =>
      simp only [List.mem_cons, List.not_mem_nil, or_false] at hw
      rcases hw with rfl | rfl | rfl <;> decide
  | branch hb =>
      rw [Symbol.bare_append, Symbol.bare_append]
      exact ⟨by decide, Symbol.bare_of_blank hb, by decide⟩

theorem keyword?_eq_some {t keyword rest : Text} :
    keyword? t = some (keyword, rest) ↔ IsKeyword keyword ∧ t = keyword ++ rest := by
  constructor
  · intro h
    unfold keyword? at h
    split at h
    · rename_i afterElse he
      obtain ⟨after, ha, hp⟩ := Option.map_eq_some_iff.mp h
      obtain ⟨b, hb, hsplit⟩ := Text.exists_blank_trimStart afterElse
      rw [Text.after?_eq_some.mp ha] at hsplit
      have ht : t = ("else".toList ++ (b ++ "if".toList)) ++ after := by
        rw [Text.after?_eq_some.mp he, hsplit]
        simp only [List.append_assoc]
      rw [Prod.mk.injEq] at hp
      obtain ⟨rfl, rfl⟩ := hp
      rw [ht, Text.take_read]
      exact ⟨.branch hb, rfl⟩
    · obtain ⟨word, hw, hf⟩ := List.exists_of_findSome?_eq_some h
      obtain ⟨after, ha, hp⟩ := Option.map_eq_some_iff.mp hf
      rw [Prod.mk.injEq] at hp
      obtain ⟨rfl, rfl⟩ := hp
      exact ⟨.plain hw, Text.after?_eq_some.mp ha⟩
  · rintro ⟨hk, rfl⟩
    cases hk with
    | plain hw =>
        simp only [List.mem_cons, List.not_mem_nil, or_false] at hw
        rcases hw with rfl | rfl | rfl <;> rfl
    | @branch b hb =>
        have he : Text.after? "else".toList ("else".toList ++ (b ++ "if".toList) ++ rest) =
            some (b ++ ("if".toList ++ rest)) := by
          simp only [List.append_assoc, Text.after?_append]
        have hflush : Text.Flush ("if".toList ++ rest) := by
          simpa using show isBlank 'i' = false by decide
        rw [keyword?, he]
        simp only [Text.trimStart_append hb hflush, Text.after?_append, Option.map_some,
          Text.take_read]

theorem read?_eq_some {before : Option Char} {t keyword afterOpen : Text} :
    read? before t = some ⟨keyword, afterOpen⟩ ↔ wordMayBegin before = true ∧ IsKeyword keyword ∧
      ∃ b, Text.Blank b ∧ t = keyword ++ (b ++ '(' :: afterOpen) := by
  constructor
  · intro h
    unfold read? at h
    split at h
    · rename_i hbefore
      split at h
      · rename_i kw after hk
        split at h
        · rename_i inside hs
          rw [Option.some.injEq, mk.injEq] at h
          obtain ⟨rfl, rfl⟩ := h
          obtain ⟨hkey, ht⟩ := keyword?_eq_some.mp hk
          obtain ⟨b, hb, hafter⟩ := Text.exists_blank_trimStart after
          rw [hs] at hafter
          exact ⟨hbefore, hkey, b, hb, by rw [ht, hafter]⟩
        · simp at h
      · simp at h
    · simp at h
  · rintro ⟨hbefore, hkey, b, hb, rfl⟩
    have hflush : Text.Flush ('(' :: afterOpen) := by
      simpa using show isBlank '(' = false by decide
    rw [read?, if_pos hbefore, keyword?_eq_some.mpr ⟨hkey, rfl⟩]
    simp only [Text.trimStart_append hb hflush]

/-! ## How many heads a text has -/

/-- How many heads stand in a text, the next being looked for after the parenthesis of the last. -/
def count (before : Option Char) : Text → Nat
  | [] => 0
  | c :: cs =>
    match h : read? before (c :: cs) with
    | none => count (some c) cs
    | some head =>
      have shorter : head.afterOpen.length < (c :: cs).length := by
        have h1 := length_afterOpen h
        omega
      count (some '(') head.afterOpen + 1
termination_by t => t.length
decreasing_by
  · simp
  · exact shorter

/-- Characters that no head has. -/
def outside (c : Char) : Bool := c == '{' || c == '}' || c == ')' || c == ';'

variable {before : Option Char} {c : Char}

@[simp] theorem count_nil : count before [] = 0 := by rw [count]

theorem count_pass {cs : Text} (h : read? before (c :: cs) = none) :
    count before (c :: cs) = count (some c) cs := by
  rw [count]
  split
  · rfl
  · rename_i hread
    rw [h] at hread
    simp at hread

theorem count_head {t : Text} {head : BlockHead} (h : read? before t = some head) :
    count before t = count (some '(') head.afterOpen + 1 := by
  cases t with
  | nil =>
      obtain ⟨-, -, b, -, hnil⟩ := read?_eq_some.mp h
      simp at hnil
  | cons c cs =>
      rw [count]
      split
      · rename_i hread
        rw [h] at hread
        simp at hread
      · rename_i hread
        rw [h, Option.some.injEq] at hread
        rw [hread]

private theorem wordMayBegin_outside (hc : outside c = true) : wordMayBegin (some c) = true := by
  simp only [outside, Bool.or_eq_true, beq_iff_eq] at hc
  rcases hc with ((rfl | rfl) | rfl) | rfl <;> decide

private theorem not_mem_head {keyword b : Text} (hc : outside c = true) (hkey : IsKeyword keyword)
    (hb : Text.Blank b) : c ∉ keyword ++ (b ++ ['(']) := by
  have hblank {b : Text} (hb : Text.Blank b) : c ∉ b := fun hmem => by
    have hc' := hb c hmem
    simp only [outside, Bool.or_eq_true, beq_iff_eq] at hc
    rcases hc with ((rfl | rfl) | rfl) | rfl <;> exact absurd hc' (by decide)
  have hkeyword : c ∉ keyword := by
    simp only [outside, Bool.or_eq_true, beq_iff_eq] at hc
    cases hkey with
    | plain hw =>
        simp only [List.mem_cons, List.not_mem_nil, or_false] at hw
        rcases hw with rfl | rfl | rfl <;> rcases hc with ((rfl | rfl) | rfl) | rfl <;> decide
    | branch hb =>
        simp only [List.mem_append, not_or]
        refine ⟨?_, hblank hb, ?_⟩ <;> rcases hc with ((rfl | rfl) | rfl) | rfl <;> decide
  have hopen : c ≠ '(' := by
    rintro rfl
    exact absurd hc (by decide)
  simpa using ⟨hkeyword, hblank hb, hopen⟩

/-- A head ends before a character that no head has. -/
theorem read?_outside (hc : outside c = true) (s t : Text) :
    read? before (s ++ c :: t) =
      (read? before s).map fun head => ⟨head.keyword, head.afterOpen ++ c :: t⟩ := by
  refine Option.ext fun head => ?_
  obtain ⟨keyword, afterOpen⟩ := head
  simp only [Option.map_eq_some_iff]
  constructor
  · intro h
    obtain ⟨hbefore, hkey, b, hb, ht⟩ := read?_eq_some.mp h
    have hsplit : s ++ c :: t = keyword ++ (b ++ ['(']) ++ afterOpen := by simp [ht]
    rcases List.append_eq_append_iff.mp hsplit with ⟨u, hu, hrest⟩ | ⟨u, hu, hrest⟩
    · cases u with
      | nil =>
          refine ⟨⟨keyword, []⟩, read?_eq_some.mpr ⟨hbefore, hkey, b, hb, ?_⟩, ?_⟩
          · simpa using hu.symm
          · simpa using hrest
      | cons d u =>
          obtain ⟨rfl, -⟩ := List.cons.inj hrest
          exact absurd (by rw [hu]; simp) (not_mem_head hc hkey hb)
    · refine ⟨⟨keyword, u⟩, read?_eq_some.mpr ⟨hbefore, hkey, b, hb, by simp [hu]⟩, ?_⟩
      rw [hrest]
  · rintro ⟨⟨keyword, afterOpen⟩, h, hhead⟩
    obtain ⟨hbefore, hkey, b, hb, rfl⟩ := read?_eq_some.mp h
    rw [mk.injEq] at hhead
    obtain ⟨rfl, rfl⟩ := hhead
    exact read?_eq_some.mpr ⟨hbefore, hkey, b, hb, by simp⟩

/-- The heads on the two sides of such a character are counted apart. -/
theorem count_outside (hc : outside c = true) (before : Option Char) (s t : Text) :
    count before (s ++ c :: t) = count before s + count (some c) t := by
  induction hn : s.length using Nat.strongRecOn generalizing before s with
  | ind n ih =>
      have hread : read? before (s ++ c :: t) = _ := read?_outside hc s t
      cases s with
      | nil =>
          rw [List.nil_append, count_nil, Nat.zero_add]
          refine count_pass ?_
          rw [List.nil_append] at hread
          rw [hread, Option.map_eq_none_iff]
          cases hnone : read? before [] with
          | none => rfl
          | some head => exact absurd (length_afterOpen hnone) (by simp)
      | cons d s =>
          cases hs : read? before (d :: s) with
          | none =>
              rw [hs, Option.map_none, List.cons_append] at hread
              rw [count_pass hs, List.cons_append, count_pass hread]
              exact ih s.length (by simp [← hn]) (some d) s rfl
          | some head =>
              have hlen := length_afterOpen hs
              rw [hs] at hread
              rw [count_head hs, count_head hread, ih head.afterOpen.length (by omega) _ _ rfl]
              omega

/-- After a character that no head has it does not matter which one it is. -/
theorem count_after_outside {d : Char} (hc : outside c = true) (hd : outside d = true) (t : Text) :
    count (some c) t = count (some d) t := by
  have hread : read? (some c) t = read? (some d) t := by
    rw [read?, read?, wordMayBegin_outside hc, wordMayBegin_outside hd]
  cases t with
  | nil => simp
  | cons e t =>
      cases h : read? (some d) (e :: t) with
      | none => rw [count_pass h, count_pass (hread.trans h)]
      | some head => rw [count_head h, count_head (hread.trans h)]

end Stencil.BlockHead
