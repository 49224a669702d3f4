import Stencil.Proofs.Blocks.Layouts
import Stencil.Proofs.Lower.Code
/-!
# Lowering trees of blocks

A program in the brace style is lowered to the same tree in native blocks. One clause after another
becomes its native form; the braces that are open between clauses are those of the blocks around.
-/
namespace Stencil

open Tile

namespace Clause

/-! ## Native clauses -/

/-- The clause without the white space around the header of a `for`. -/
def trimmed : Clause Text → Clause Text
  | .head .iteration header => .head .iteration (Text.trim header)
  | clause => clause

/-- The clause in native blocks, a statement with its semicolon. -/
def blocks : Clause Text → Text
  | .leaf text => text ++ [';']
  | .head .conditional condition => "if (".toList ++ (condition ++ ") then ".toList)
  | .head .loop condition => "while (".toList ++ (condition ++ ") do ".toList)
  | .head .iteration header => "for ".toList ++ (header ++ " do ".toList)
  | .elseIf condition => " elseif (".toList ++ (condition ++ ") then ".toList)
  | .otherwise => " else ".toList
  | .close _ => " end ".toList

/-- What the clause is lowered to. -/
def native (clause : Clause Text) : Text := clause.trimmed.blocks

/-- Native statements, and native code in conditions and headers. -/
def Lowerable : Clause Text → Prop
  | .leaf t => NativeStatement t
  | .head _ t | .elseIf t => NativeCode t
  | _ => True

instance : DecidablePred Lowerable
  | .leaf t => inferInstanceAs (Decidable (NativeStatement t))
  | .head _ t => inferInstanceAs (Decidable (NativeCode t))
  | .elseIf t => inferInstanceAs (Decidable (NativeCode t))
  | .otherwise => .isTrue trivial
  | .close _ => .isTrue trivial

theorem Lowerable.code {x : Clause Text} (h : x.Lowerable) : ClosedCode x.inner := by
  cases x with
  | leaf t => exact (show NativeStatement t from h).toClosedCode
  | head kind t => exact (show NativeCode t from h).toClosedCode
  | elseIf t => exact (show NativeCode t from h).toClosedCode
  | otherwise => exact closedCode_nil
  | close kind => exact closedCode_nil

/-- How many blocks are open after the clause. -/
def nest {α : Type} (depth : Nat) : Clause α → Option Nat
  | .head _ _ => some (depth + 1)
  | .close _ => if depth = 0 then none else some (depth - 1)
  | _ => some depth

end Clause

namespace Lower

open Text

/-! ## One clause -/

/-- What is asked of the texts of a masked clause. -/
def Masked : Clause Text → Prop
  | .leaf t => Native t ∧ ¬ BeginsBranch t
  | .head _ t | .elseIf t => Native t
  | _ => True

section Step

variable {written rest : Text} {depth after : Nat} {braces : List Brace} {x : Clause Text}

/-- A condition is copied with its parentheses. -/
private theorem lowerFrom_condition {front c : Text} (hfront : '{' ∉ front ∧ '}' ∉ front)
    (hc : Native c) : lowerFrom 0 braces written (front ++ ("(".toList ++ (c ++ ')' :: rest))) =
      lowerFrom 0 braces (append written (front ++ ("(".toList ++ (c ++ [')'])))) rest := by
  have hparen : Neutral (append (append written front) "(".toList) :=
    neutral_cons (by decide) (by decide) (by decide) _
  rw [lowerFrom_text hfront.1 hfront.2, lowerFrom_text (by decide) (by decide),
    lowerFrom_native hc hparen, lowerFrom_char (by decide) (by decide), append_append,
    append_append, append_append]

private theorem lowerFrom_head {kind : BlockKind} {c : Text} (hW : Neutral written)
    (hc : Native c) : lowerFrom 0 braces written ((Clause.head kind c).canonical ++ rest) =
      lowerFrom 0 (.block :: braces) (append written (Clause.head kind c).native) rest := by
  have hsplit (t : Text) : kind.word ++ (" (".toList ++ t) =
      kind.word ++ [' '] ++ ("(".toList ++ t) := by simp
  have hold : (Clause.head kind c).canonical ++ rest =
      kind.word ++ (" (".toList ++ (c ++ ')' :: '{' :: rest)) := by
    simp [Clause.canonical, Clause.map, Clause.brace, Clause.head_code]
  have hnative : (Clause.head kind c).native = openingText kind [' '] c [] := by
    cases kind with
    | conditional =>
        simp only [openingText, headText, List.append_assoc, List.cons_append]
        rfl
    | loop =>
        simp only [openingText, headText, List.append_assoc, List.cons_append]
        rfl
    | iteration => rfl
  have hopen := @openBrace_head braces kind written.reverse [' '] c []
    (by rw [lastOr_reverse]; exact hW.noName) (by decide) hc.parens blank_nil
  rw [← append_eq_reverse, ← append_eq_reverse, ← hnative] at hopen
  have hhead : openBrace (append written (kind.word ++ (" (".toList ++ (c ++ [')'])))) braces = _ :=
    hopen
  rw [hold, hsplit, lowerFrom_condition (by cases kind <;> decide) hc, ← hsplit, lowerFrom_opening,
    hhead]

private theorem lowerFrom_elseIf {c : Text} (hbraces : braces.head? ≠ some .table)
    (hc : Native c) : lowerFrom 0 braces written ((Clause.elseIf c).canonical ++ rest) =
      lowerFrom 0 braces (append written (Clause.elseIf c).native) rest := by
  have hold : (Clause.elseIf c).canonical ++ rest =
      '}' :: ("else if ".toList ++ ("(".toList ++ (c ++ ')' :: '{' :: rest))) := by
    simp [Clause.canonical, Clause.map, Clause.brace, Clause.elseIf_code]
  have hcopy := @lowerFrom_condition (append written " elseif ".toList) ('{' :: rest) braces [] c
    (by simp) hc
  have hopen := @openBrace_branch braces written.reverse c [] hc.parens blank_nil
  rw [← append_eq_reverse, ← append_eq_reverse] at hopen
  rw [List.nil_append, List.nil_append, append_append] at hcopy
  have hbranch : openBrace (append written (" elseif ".toList ++ ("(".toList ++ (c ++ [')'])))) braces =
      _ := hopen
  rw [hold, lowerFrom_branch hbraces (elseAfter?_elseIf _), hcopy, lowerFrom_opening, hbranch]
  rfl

/-- One clause becomes its native form, between the braces of the blocks around it. -/
theorem lowerFrom_clause (hx : Masked x) (hW : Neutral written) (hnest : x.nest depth = some after)
    (hrest : ¬ BeginsBranch rest) :
    lowerFrom 0 (List.replicate depth .block) written (x.canonical ++ rest) =
      lowerFrom 0 (List.replicate after .block) (append written x.native) rest := by
  have hblocks : (List.replicate depth Brace.block).head? ≠ some .table := by
    cases depth <;> simp [List.replicate_succ]
  cases x with
  | leaf t =>
      obtain rfl := Option.some.inj hnest
      have hold : (Clause.leaf t).canonical ++ rest = t ++ ';' :: rest := by
        simp [Clause.canonical, Clause.map, Clause.brace]
      rw [hold, lowerFrom_native hx.1 hW, lowerFrom_char (by decide) (by decide), append_append]
      rfl
  | head kind c =>
      obtain rfl := Option.some.inj hnest
      exact lowerFrom_head hW hx
  | elseIf c =>
      obtain rfl := Option.some.inj hnest
      exact lowerFrom_elseIf hblocks hx
  | otherwise =>
      obtain rfl := Option.some.inj hnest
      exact lowerFrom_branch hblocks (elseAfter?_otherwise rest)
  | close kind =>
      cases depth with
      | zero => simp [Clause.nest] at hnest
      | succ depth =>
          obtain rfl := Option.some.inj hnest
          exact lowerFrom_end (elseAfter?_of_not_branch hrest)

/-- After a clause there is nothing that belongs to a head. -/
theorem neutral_clause (written : Text) (x : Clause Text) : Neutral (append written x.native) := by
  have word {w : Text} (front : Text) (hne : w ≠ []) (hname : ∀ c ∈ w, isNameChar c = true)
      (hhead : Head.ofWord? w = none) :
      Neutral (append written (front ++ (' ' :: (w ++ [' '])))) := by
    rw [← append_append]
    exact neutral_word hne hname hhead _
  cases x with
  | leaf t =>
      rw [show (Clause.leaf t).native = t ++ [';'] from rfl, ← append_append]
      exact neutral_cons (by decide) (by decide) (by decide) _
  | head kind c =>
      cases kind with
      | conditional =>
          have h := word (w := "then".toList) ("if (".toList ++ (c ++ [')'])) (by decide) (by decide) rfl
          rwa [List.append_assoc, List.append_assoc] at h
      | loop =>
          have h := word (w := "do".toList) ("while (".toList ++ (c ++ [')'])) (by decide) (by decide) rfl
          rwa [List.append_assoc, List.append_assoc] at h
      | iteration =>
          have h := word (w := "do".toList) ("for ".toList ++ Text.trim c) (by decide) (by decide) rfl
          rwa [List.append_assoc] at h
  | elseIf c =>
      have h := word (w := "then".toList) (" elseif (".toList ++ (c ++ [')'])) (by decide) (by decide) rfl
      rwa [List.append_assoc, List.append_assoc] at h
  | otherwise => exact word [] (by decide : "else".toList ≠ []) (by decide) rfl
  | close kind => exact word [] (by decide : "end".toList ≠ []) (by decide) rfl

end Step

/-! ## All clauses -/

section Clauses

variable {xs : List (Clause Text)} {written rest : Text} {depth after : Nat}

/-- No clause of a masked text begins a branch by itself. -/
theorem not_branch_clauses (hxs : ∀ x ∈ xs, Masked x) (hrest : ¬ BeginsBranch rest) :
    ¬ BeginsBranch (xs.flatMap Clause.canonical ++ rest) := by
  cases xs with
  | nil => exact hrest
  | cons x xs =>
      rw [List.flatMap_cons, List.append_assoc]
      intro h
      cases x with
      | leaf t =>
          have hleaf := hxs (.leaf t) List.mem_cons_self
          refine hleaf.2 (@BeginsBranch.of_append t (xs.flatMap Clause.canonical ++ rest) ?_)
          simpa [Clause.canonical, Clause.map, Clause.brace] using h
      | head kind c => cases kind <;> exact absurd h.head (by decide)
      | elseIf c => exact absurd h.head (by decide)
      | otherwise => exact absurd h.head (by decide)
      | close kind => exact absurd h.head (by decide)

theorem lowerFrom_clauses (hxs : ∀ x ∈ xs, Masked x) (hW : Neutral written)
    (hnest : xs.foldlM Clause.nest depth = some after) (hrest : ¬ BeginsBranch rest) :
    lowerFrom 0 (List.replicate depth .block) written (xs.flatMap Clause.canonical ++ rest) =
      lowerFrom 0 (List.replicate after .block) (append written (xs.flatMap Clause.native)) rest := by
  induction xs generalizing written depth with
  | nil =>
      obtain rfl := Option.some.inj hnest
      rfl
  | cons x xs ih =>
      rw [List.foldlM_cons] at hnest
      obtain ⟨between, hx, hnest⟩ := Option.bind_eq_some_iff.mp hnest
      have hrest' := not_branch_clauses (fun y hy => hxs y (List.mem_cons_of_mem x hy)) hrest
      rw [List.flatMap_cons, List.append_assoc,
        lowerFrom_clause (hxs x List.mem_cons_self) hW hx hrest',
        ih (fun y hy => hxs y (List.mem_cons_of_mem x hy)) (neutral_clause written x) hnest,
        append_append, List.flatMap_cons]

end Clauses

end Lower

/-! ## In a source -/

namespace Clause

theorem nest_withInner (depth : Nat) (t : Text) (x : Clause Text) :
    (x.withInner t).nest depth = x.nest depth := by
  cases x <;> rfl

/-- The mask shows the texts of a clause as they are asked for. -/
theorem Lowerable.masked {x : Clause Text} (h : x.Lowerable) (k : Nat) :
    Lower.Masked (x.withInner (Mask.textFrom k (tiles x.inner))) := by
  cases x with
  | leaf t =>
      have ht : NativeStatement t := h
      exact ⟨ht.native.textFrom k, fun hbranch => ht.noBranch (Lower.beginsBranch_textFrom hbranch)⟩
  | head kind t => exact (show NativeCode t from h).native.textFrom k
  | elseIf t => exact (show NativeCode t from h).native.textFrom k
  | otherwise => trivial
  | close kind => trivial

/-- Native blocks put plain characters around the text of a clause. -/
theorem around_blocks (x : Clause Text) :
    ∃ front back, x.Around blocks front back ∧ (x.inner = [] ∨ back ≠ []) := by
  cases x with
  | leaf t =>
      exact ⟨[], [';'], ⟨by decide, breaks_cons.mpr (by decide), fun t _ => rfl⟩, Or.inr (by simp)⟩
  | head kind c =>
      cases kind with
      | conditional =>
          exact ⟨_, _, ⟨by decide, breaks_cons.mpr (by decide), fun t _ => rfl⟩, Or.inr (by decide)⟩
      | loop =>
          exact ⟨_, _, ⟨by decide, breaks_cons.mpr (by decide), fun t _ => rfl⟩, Or.inr (by decide)⟩
      | iteration =>
          exact ⟨_, _, ⟨by decide, breaks_cons.mpr (by decide), fun t _ => rfl⟩, Or.inr (by decide)⟩
  | elseIf c =>
      exact ⟨_, _, ⟨by decide, breaks_cons.mpr (by decide), fun t _ => rfl⟩, Or.inr (by decide)⟩
  | otherwise => exact ⟨_, _, around_fixed rfl (fun _ => rfl) (by decide), Or.inl rfl⟩
  | close kind =>
      have hplain : ∀ c ∈ " end ".toList, Span.isPlain c = true := by decide
      exact ⟨_, _, around_fixed rfl (fun _ => rfl) hplain, Or.inl rfl⟩

theorem closed_trimmed {x : Clause Text} (h : ClosedCode x.inner) : ClosedCode x.trimmed.inner := by
  cases x with
  | head kind c =>
      cases kind with
      | iteration => exact h.trim
      | _ => exact h
  | _ => exact h

end Clause

namespace Placed

variable {ps : List Placed}

theorem mem_shown {q : Placed} {k : Nat} (h : q ∈ shown k ps) :
    ∃ p ∈ ps, ∃ j, q = p.withInner (Mask.textFrom j (tiles p.clause.inner)) := by
  induction ps generalizing k with
  | nil => simp [shown] at h
  | cons p ps ih =>
      rcases List.mem_cons.mp h with rfl | h
      · exact ⟨p, List.mem_cons_self, k, rfl⟩
      · obtain ⟨p', hp', hq⟩ := ih h
        exact ⟨p', List.mem_cons_of_mem p hp', hq⟩

theorem nest_shown (k depth : Nat) (ps : List Placed) :
    ((shown k ps).map clause).foldlM Clause.nest depth =
      (ps.map clause).foldlM Clause.nest depth := by
  induction ps generalizing k depth with
  | nil => rfl
  | cons p ps ih =>
      rw [shown, List.map_cons, List.map_cons, List.foldlM_cons, List.foldlM_cons, withInner,
        Clause.nest_withInner]
      exact congrArg _ (funext fun d => ih _ d)

/-- The fragment without the white space around the header of a `for`. -/
def trimmed (p : Placed) : Placed := { p with clause := p.clause.trimmed }

private theorem literals_trimmed {p : Placed} (h : ClosedCode p.clause.inner) :
    p.trimmed.literals = p.literals := by
  obtain ⟨before, clause, after⟩ := p
  cases clause with
  | head kind c =>
      cases kind with
      | iteration => exact ClosedCode.literals_trim h
      | _ => rfl
  | _ => rfl

private theorem withInner_trimmed {p : Placed} (h : ClosedCode p.clause.inner) (k : Nat) :
    p.trimmed.withInner (Mask.textFrom k (tiles p.trimmed.clause.inner)) =
      (p.withInner (Mask.textFrom k (tiles p.clause.inner))).trimmed := by
  obtain ⟨before, clause, after⟩ := p
  cases clause with
  | head kind c =>
      cases kind with
      | iteration =>
          have htrim := ClosedCode.trim_textFrom h k
          dsimp only [Clause.inner] at htrim
          simp only [trimmed, withInner, Clause.trimmed, Clause.withInner, Clause.inner, htrim]
      | _ => rfl
  | _ => rfl

/-- The mask shows trimmed fragments trimmed. -/
theorem shown_trimmed (k : Nat) (h : ∀ p ∈ ps, ClosedCode p.clause.inner) :
    shown k (ps.map trimmed) = (shown k ps).map trimmed := by
  induction ps generalizing k with
  | nil => rfl
  | cons p ps ih =>
      have hp := h p List.mem_cons_self
      rw [List.map_cons, shown, shown, List.map_cons, withInner_trimmed hp, literals_trimmed hp,
        ih _ fun q hq => h q (List.mem_cons_of_mem p hq)]

theorem framed_blocks {p : Placed} (h : ClosedCode p.clause.inner) :
    p.Framed fun q => q.clause.blocks := by
  obtain ⟨front, back, ha, hne⟩ := Clause.around_blocks p.clause
  exact framed_of_around h ha hne

/-- A list of fragments in the brace style is lowered to the same list in native blocks. -/
theorem lower_placed (h : ∀ p ∈ ps, p.clause.Lowerable)
    (hnest : (ps.map clause).foldlM Clause.nest 0 = some 0) :
    lower (ps.flatMap fun p => p.clause.canonical) =
      Text.trimEnd (ps.flatMap fun p => p.clause.native) := by
  have hcode : ∀ p ∈ ps, ClosedCode p.clause.inner := fun p hp => (h p hp).code
  have hblocks : ∀ p ∈ ps.map trimmed, p.Framed fun q => q.clause.blocks := by
    intro p hp
    obtain ⟨q, hq, rfl⟩ := List.mem_map.mp hp
    exact framed_blocks (Clause.closed_trimmed (hcode q hq))
  have hmask := ofText_layout fun p hp => framed_canonical (hcode p hp)
  have hmask' := ofText_layout hblocks
  have hclosed := closed_layout hblocks
  have hliterals : (ps.map trimmed).flatMap literals = ps.flatMap literals := by
    rw [List.flatMap_map]
    exact List.flatMap_congr fun p hp => literals_trimmed (hcode p hp)
  rw [shown_trimmed 0 hcode, hliterals] at hmask'
  rw [List.flatMap_map] at hmask' hclosed
  rw [List.flatMap_map] at hmask'
  -- lowering the masked text
  have hmasked : ∀ x ∈ (shown 0 ps).map clause, Lower.Masked x := by
    intro x hx
    obtain ⟨q, hq, rfl⟩ := List.mem_map.mp hx
    obtain ⟨p, hp, k, rfl⟩ := mem_shown hq
    exact (h p hp).masked k
  have hlower := @Lower.lowerFrom_clauses _ [] [] 0 0 hmasked Lower.neutral_nil
    ((nest_shown 0 0 ps).trans hnest) (by decide)
  rw [List.append_nil, List.flatMap_map, List.flatMap_map] at hlower
  have hwritten : Lower.lowerFrom 0 [] [] ((shown 0 ps).flatMap fun p => p.clause.canonical) =
      ((shown 0 ps).flatMap fun p => p.clause.native).reverse := by
    rw [← List.append_nil (List.reverse _)]
    exact hlower
  have hrestore := hclosed.restore_trimEnd (m := Mask.ofText (ps.flatMap fun p => p.clause.canonical))
    (by rw [hmask, hmask'])
  rw [lower, hmask]
  dsimp only
  rw [hwritten, List.reverse_reverse, ← hmask]
  rw [hmask'] at hrestore
  exact hrestore

end Placed

/-! ## Programs -/

namespace Tree

mutual

/-- The blocks of a program that are open after it are those that were open before. -/
private theorem nest_clauses {α : Type} (depth : Nat) :
    (tree : Tree α) → tree.clauses.foldlM Clause.nest depth = some depth
  | .nil => rfl
  | .leaf _ next => nest_clauses depth next
  | .conditional _ body more next => by
      have hbody := nest_clauses (depth + 1) body
      have hmore := nest_branches (depth + 1) more
      have hnext := nest_clauses depth next
      simpa [Tree.clauses, Clause.nest, List.foldlM_append, hbody, hmore] using hnext
  | .loop _ body next => by
      have hbody := nest_clauses (depth + 1) body
      have hnext := nest_clauses depth next
      simpa [Tree.clauses, Clause.nest, List.foldlM_append, hbody] using hnext
  | .iteration _ body next => by
      have hbody := nest_clauses (depth + 1) body
      have hnext := nest_clauses depth next
      simpa [Tree.clauses, Clause.nest, List.foldlM_append, hbody] using hnext

private theorem nest_branches {α : Type} (depth : Nat) :
    (more : Branches α) → more.clauses.foldlM Clause.nest depth = some depth
  | .nil => rfl
  | .otherwise body => nest_clauses depth body
  | .elseIf _ body more => by
      have hbody := nest_clauses depth body
      have hmore := nest_branches depth more
      simpa [Branches.clauses, Clause.nest, List.foldlM_append, hbody] using hmore

end

def braced (tree : Tree Text) : Text := tree.clauses.flatMap Clause.canonical

def native (tree : Tree Text) : Text := tree.clauses.flatMap Clause.native

/-- A program in braces is lowered to the same program in native blocks, but for white space at its
end. Code without a block of its own is left alone. -/
theorem lower_braced {tree : Tree Text} (h : ∀ x ∈ tree.clauses, x.Lowerable) :
    lower tree.braced = Text.trimEnd tree.native ∧
      ∀ c, NativeCode c → lower c = Text.trimEnd c := by
  refine ⟨?_, fun c => lower_native⟩
  have hlower := @Placed.lower_placed (tree.clauses.map fun x => ⟨[], x, []⟩) (by simpa using h)
    (by simpa [Function.comp_def] using nest_clauses 0 tree)
  rwa [List.flatMap_map, List.flatMap_map] at hlower

/-- A search in a table, with a brace in a string and a table in a branch. -/
private def searchTree : Tree Text :=
  .iteration " i, v in pairs(\x7b1, \x7b2\x7d\x7d) ".toList
    (.conditional "v == \"\x7delse\x7b\"".toList (.leaf "found = \x7bi\x7d".toList .nil)
      (.elseIf "f(v)".toList (.leaf "print(i)".toList .nil)
        (.otherwise (.loop "v(i)".toList (.leaf "i = i + 1".toList .nil) .nil)))
      .nil)
    (.leaf "print(found)".toList .nil)

theorem lower_braced_search :
    (∀ x ∈ searchTree.clauses, x.Lowerable) ∧ lower searchTree.braced =
      "for i, v in pairs(\x7b1, \x7b2\x7d\x7d) do if (v == \"\x7delse\x7b\") then found = \x7bi\x7d; elseif (f(v)) then print(i); else while (v(i)) do i = i + 1; end  end  end print(found);".toList := by
  have hlowerable : ∀ x ∈ searchTree.clauses, x.Lowerable := by decide +kernel
  exact ⟨hlowerable, (lower_braced hlowerable).1.trans (by decide +kernel)⟩

end Tree

end Stencil
