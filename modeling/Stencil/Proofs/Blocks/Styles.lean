import Stencil.Proofs.Blocks.Layouts
import Stencil.Proofs.Blocks.Simple
import Mathlib.Data.List.Chain
/-!
# The two styles of blocks

A template may write its blocks with colons or with braces, each head, `else` and end as a fragment of
its own. The source of the template has the same normal form in both styles: the canonical text of
its tree.
-/
namespace Stencil

open Normalize Tile

inductive BlockStyle where
  | colon
  | brace
deriving Repr, DecidableEq

def Clause.written (style : BlockStyle) (x : Clause Text) : Text :=
  match style with
  | .colon => x.colon
  | .brace => x.brace [' ']

/-- The fragment as the style writes it, with the end of statement that the source puts after it. -/
def Placed.written (style : BlockStyle) (p : Placed) : Text :=
  p.before ++ (p.clause.written style ++ (p.after ++ ";\n".toList))

/-! ## Both layouts put plain characters around a text -/

section Layouts

variable {p : Placed}

private theorem around_colon (x : Clause Text) :
    ∃ front back, x.Around Clause.colon front back := by
  cases x with
  | leaf t =>
      exact ⟨[], [], by simp, breaks_nil, fun t _ => by simp [Clause.withInner, Clause.colon]⟩
  | head kind c =>
      refine ⟨kind.word ++ " (".toList, [')', ':'], ?_, breaks_cons.mpr (by decide), fun t _ => ?_⟩
      · cases kind <;> decide
      · simp [Clause.withInner, Clause.colon, Clause.head_code]
  | elseIf c =>
      refine ⟨"else if (".toList, [')', ':'], by decide, breaks_cons.mpr (by decide), fun t _ => ?_⟩
      simp [Clause.withInner, Clause.colon, Clause.elseIf_code]
  | otherwise => exact ⟨_, _, Clause.around_fixed rfl (fun _ => rfl) (by decide)⟩
  | close kind =>
      refine ⟨_, _, Clause.around_fixed rfl (fun _ => rfl) ?_⟩
      cases kind <;> decide

theorem framed_written (style : BlockStyle) (h : p.Sound) : p.Framed (Placed.written style) := by
  have hparts : ∃ front back, p.clause.Around (Clause.written style) front back := by
    cases style with
    | colon => exact around_colon p.clause
    | brace =>
        obtain ⟨front, back, haround, -⟩ :=
          @Clause.around_brace [' '] [] (by decide) (by decide) breaks_nil p.clause
        have hsame : (fun y : Clause Text => (y.map (· ++ [])).brace [' ']) = Clause.written .brace := by
          funext y
          cases y <;> simp [Clause.map, Clause.written]
        exact ⟨front, back, hsame ▸ haround⟩
  obtain ⟨front, back, hplain, hbreaks, haround⟩ := hparts
  have hblank {b : Text} (hb : Text.Blank b) : ∀ c ∈ b, Span.isPlain c = true :=
    fun c hc => Span.isPlain_of_blank (hb c hc)
  have hafter : Breaks (p.after ++ ";\n".toList) :=
    breaks_blank_append h.after (breaks_cons.mpr (by decide))
  rw [List.forall_mem_append] at hplain
  refine ⟨⟨p.before ++ front, p.clause.inner, back ++ (p.after ++ ";\n".toList)⟩,
    Placed.good_span h.clause.code ?_ (Or.inr ⟨by simp, ?_⟩), rfl, fun t ht => ?_⟩
  · simp only [List.forall_mem_append]
    exact ⟨⟨hblank h.before, hplain.1⟩, hplain.2, hblank h.after, by decide⟩
  · cases back with
    | nil => exact hafter
    | cons c back => exact hbreaks
  · simp [Placed.written, Placed.withInner, haround t ht]

end Layouts

section Sources

variable {ps : List Placed}

/-- The normal form of a source in either style. -/
theorem normalize_written (style : BlockStyle) (h : ∀ p ∈ ps, p.Sound) :
    normalize (ps.flatMap (Placed.written style)) = ps.flatMap fun p => p.clause.canonical := by
  refine normalize_layout h (fun p hp => framed_written style (h p hp))
    (fun p hp => Placed.framed_canonical (h p hp).clause.code) fun m qs hq => ?_
  cases style with
  | colon => exact normal_colon hq
  | brace => exact normal_brace hq

/-- The canonical text is its own normal form. -/
theorem normalize_canonical (h : ∀ p ∈ ps, p.Sound) :
    normalize (ps.flatMap fun p => p.clause.canonical) =
      ps.flatMap fun p => p.clause.canonical := by
  refine normalize_layout h (fun p hp => Placed.framed_canonical (h p hp).clause.code)
    (fun p hp => Placed.framed_canonical (h p hp).clause.code) fun m qs hq => ?_
  have hclauses := @normal_canonical m (qs.map Placed.clause) fun x hx => by
    obtain ⟨q, hmem, rfl⟩ := List.mem_map.mp hx
    exact (hq q hmem).tame
  rwa [List.flatMap_map] at hclauses

end Sources

/-! ## Templates -/

namespace Element

/-- The statement that an element is in the source, without the end of statement after it. -/
def statement : Element → Text
  | .emit t => "print(".toList ++ (quoted t ++ [')'])
  | .code c => c

def isEmit : Element → Bool
  | .emit _ => true
  | .code _ => false

theorem source_eq (e : Element) : e.source = e.statement ++ ";\n".toList := by
  cases e with
  | emit t =>
      have hclose : ");\n".toList = [')'] ++ ";\n".toList := by decide
      rw [emit_source, statement, hclose, List.append_assoc, List.append_assoc]
  | code c => rfl

private theorem tiles_statement (t : Text) : Stencil.tiles (emit t).statement =
    callStart ++ [.literal (quoted t), .plain ')'] := by
  have hstatement : (emit t).statement = "print(".toList ++ (quoted t ++ [')']) := rfl
  rw [hstatement, tiles_call]
  rfl

private theorem closed_statement (t : Text) : ClosedCode (emit t).statement := by
  refine ⟨?_, ?_, fun hx => ?_⟩
  · rw [tiles_statement, List.forall_mem_append]
    exact ⟨by decide, by simpa [isClosed] using isClosed_literal_quoted t⟩
  · rw [tiles_statement, List.forall_mem_append]
    exact ⟨by decide, by simp [isComment]⟩
  · rw [tiles_statement, List.mem_append] at hx
    rcases hx with hx | hx
    · exact absurd hx (by decide)
    · simp [Mask.opening] at hx

/-- The call that emits a text is a simple statement. -/
theorem simple_emit {t : Text} (h : t ≠ []) : SimpleStatement (emit t).statement := by
  have hmask : Mask.ofText (emit t).statement =
      ⟨"print(".toList ++ (Mask.placeholder 0 ++ [')']), [quoted t]⟩ := by
    rw [Mask.ofText, tiles_statement]
    rfl
  have htext := congrArg Mask.text hmask
  dsimp only at htext
  refine ⟨⟨closed_statement t, ?_, ?_, ?_⟩, ?_, ?_, ?_, ?_⟩
  · rw [htext]
    decide
  · rw [htext]
    decide +kernel
  · -- the one literal is not empty
    rintro w ⟨-, -, -, -, -, hliteral, hempty⟩ -
    rw [hmask] at hliteral
    obtain ⟨i, -, hget⟩ := Option.bind_eq_some_iff.mp hliteral
    rw [List.mem_singleton.mp (List.mem_of_getElem? hget), isEmptyQuoted_quoted h] at hempty
    simp at hempty
  · simp [statement]
  · exact Text.flush_cons.mpr (by decide)
  · rw [statement, ← List.append_assoc, List.reverse_append]
    exact Text.flush_cons.mpr (by decide)
  · exact fun hparen => absurd (Option.some.inj hparen) (by decide)

end Element

namespace Clause

/-- The element of a body that the clause is in a style. -/
def element (style : BlockStyle) : Clause Element → Element
  | .leaf e => e
  | clause => .code ((clause.map Element.statement).written style)

def isEmit : Clause Element → Bool
  | .leaf e => e.isEmit
  | _ => false

/-- What a template may have in a clause: a text that is not empty, a simple statement or a simple
condition. -/
def Writable : Clause Element → Prop
  | .leaf (.emit t) => t ≠ []
  | .leaf (.code c) => SimpleStatement c
  | .head _ c | .elseIf c => SimpleCondition c
  | _ => True

instance : DecidablePred Writable
  | .leaf (.emit t) => inferInstanceAs (Decidable (t ≠ []))
  | .leaf (.code c) => inferInstanceAs (Decidable (SimpleStatement c))
  | .head _ c => inferInstanceAs (Decidable (SimpleCondition c))
  | .elseIf c => inferInstanceAs (Decidable (SimpleCondition c))
  | .otherwise => .isTrue trivial
  | .close _ => .isTrue trivial

theorem Writable.sound {x : Clause Element} (h : x.Writable) : (x.map Element.statement).Sound := by
  cases x with
  | leaf e =>
      cases e with
      | emit t => exact Element.simple_emit h
      | code c => exact h
  | _ => exact h

end Clause

/-- The same literal, or the same code with white space around it. -/
inductive Padded : Element → Element → Prop
  | emit (t : Text) : Padded (.emit t) (.emit t)
  | code {before after : Text} (c : Text) : Text.Blank before → Text.Blank after →
      Padded (.code c) (.code (before ++ (c ++ after)))

namespace Tree

def elements (style : BlockStyle) (tree : Tree Element) : List Element :=
  tree.clauses.map (Clause.element style)

def canonical (tree : Tree Element) : Text :=
  tree.clauses.flatMap fun x => (x.map Element.statement).canonical

/-- A tree that templates are written from: no two literals are adjacent in it. -/
structure Writable (tree : Tree Element) : Prop where
  clauses : ∀ x ∈ tree.clauses, x.Writable
  apart : tree.clauses.IsChain fun x y => ¬ (x.isEmit ∧ y.isEmit)

end Tree

/-- Where no literal is empty and no two are adjacent there is nothing to merge. -/
theorem Body.merge_eq {elements : List Element} (hne : .emit [] ∉ elements)
    (h : elements.IsChain fun e f => ¬ (e.isEmit ∧ f.isEmit)) : merge elements = elements := by
  induction elements with
  | nil => rfl
  | cons e es ih =>
      rw [List.mem_cons, not_or] at hne
      have hrest := ih hne.2 h.tail
      cases e with
      | code c => rw [merge, hrest]
      | emit t =>
          have ht : t.isEmpty = false := by
            rw [List.isEmpty_eq_false_iff]
            rintro rfl
            exact hne.1 rfl
          rw [merge, hrest]
          cases es with
          | nil => simp [consLiteral, ht]
          | cons f es =>
              cases f with
              | code c => simp [consLiteral, ht]
              | emit s => exact absurd ⟨rfl, rfl⟩ h.rel

section Written

variable {tree : Tree Element} {style : BlockStyle} {elements : List Element}

private theorem written_of_element {x : Clause Element} {c : Text} (h : x.element style = .code c) :
    (x.map Element.statement).written style = c ∧ x.isEmit = false := by
  cases x with
  | leaf e =>
      cases e with
      | emit t => simp [Clause.element] at h
      | code c =>
          rw [Clause.element, Element.code.injEq] at h
          cases style <;> exact ⟨h, rfl⟩
  | _ => exact ⟨Element.code.inj h, rfl⟩

/-- Each element of the body is a fragment of its clause. -/
private theorem exists_fragment {x : Clause Element} {e : Element} (hx : x.Writable)
    (hp : Padded (x.element style) e) : ∃ p : Placed, p.Sound ∧
      p.clause = x.map Element.statement ∧ e.source = p.written style ∧ e ≠ .emit [] ∧
      e.isEmit = x.isEmit := by
  have hsound := hx.sound
  generalize he : x.element style = f at hp
  cases hp with
  | emit t =>
      cases x with
      | leaf e =>
          cases he
          refine ⟨⟨[], .leaf (Element.emit t).statement, []⟩,
            ⟨Text.blank_nil, Text.blank_nil, hsound⟩, rfl, ?_, fun hnil => ?_, rfl⟩
          · rw [Element.source_eq]
            cases style <;> rfl
          · exact hx (Element.emit.inj hnil)
      | _ => simp [Clause.element] at he
  | code c hbefore hafter =>
      rename_i before after
      obtain ⟨hwritten, hemit⟩ := written_of_element he
      refine ⟨⟨before, x.map Element.statement, after⟩, ⟨hbefore, hafter, hsound⟩, rfl, ?_, by simp,
        hemit.symm⟩
      dsimp only [Placed.written, Element.source]
      rw [hwritten, List.append_assoc, List.append_assoc]

/-- The source of a body is the fragments of its tree. -/
private theorem exists_placed {clauses : List (Clause Element)} (h : ∀ x ∈ clauses, x.Writable)
    (hp : List.Forall₂ Padded (clauses.map (Clause.element style)) elements) :
    ∃ ps : List Placed, (∀ p ∈ ps, p.Sound) ∧
      ps.map Placed.clause = clauses.map (Clause.map Element.statement) ∧
      elements.flatMap Element.source = ps.flatMap (Placed.written style) ∧
      .emit [] ∉ elements ∧ elements.map Element.isEmit = clauses.map Clause.isEmit := by
  induction clauses generalizing elements with
  | nil =>
      cases hp
      exact ⟨[], by simp, rfl, rfl, by simp, rfl⟩
  | cons x clauses ih =>
      rw [List.map_cons, List.forall₂_cons_left_iff] at hp
      obtain ⟨e, es, hpad, hrest, rfl⟩ := hp
      obtain ⟨p, hp, hclause, hsource, hne, hemit⟩ := exists_fragment (h x (by simp)) hpad
      obtain ⟨ps, hps, hclauses, hsources, hnone, hemits⟩ := ih (fun y hy => h y (by simp [hy])) hrest
      refine ⟨p :: ps, by simpa using ⟨hp, hps⟩, ?_, ?_, ?_, ?_⟩
      · rw [List.map_cons, List.map_cons, hclause, hclauses]
      · rw [List.flatMap_cons, List.flatMap_cons, hsource, hsources]
      · rw [List.mem_cons, not_or]
        exact ⟨hne.symm, hnone⟩
      · rw [List.map_cons, List.map_cons, hemit, hemits]

/-- A template has the same normal form in both styles, the canonical text of its tree, and that
text is its own normal form. -/
theorem normalize_template (h : tree.Writable)
    (hp : List.Forall₂ Padded (tree.elements style) elements) :
    normalize (Body.ofElements elements).source = tree.canonical ∧
      normalize tree.canonical = tree.canonical := by
  obtain ⟨ps, hps, hclauses, hsource, hne, hemits⟩ := exists_placed h.clauses hp
  have hcanonical : (ps.flatMap fun p => p.clause.canonical) = tree.canonical := by
    have hmap : (ps.flatMap fun p => p.clause.canonical) =
        (ps.map Placed.clause).flatMap Clause.canonical := by rw [List.flatMap_map]
    rw [hmap, hclauses, List.flatMap_map]
    rfl
  have happart : (tree.clauses.map Clause.isEmit).IsChain
      fun a b => ¬ (a = true ∧ b = true) := by
    rw [List.isChain_map]
    exact h.apart
  rw [← hemits, List.isChain_map] at happart
  rw [Body.source, Body.ofElements, Body.merge_eq hne happart, hsource, normalize_written style hps,
    ← hcanonical]
  exact ⟨rfl, normalize_canonical hps⟩

end Written

/-- Numbers written out in a loop, a comma after each but the last. -/
private def countTree : Tree Element :=
  .loop "i < n".toList
    (.leaf (.code "put(i)".toList)
      (.conditional "i == (n)".toList (.leaf (.emit ".".toList) .nil)
        (.otherwise (.leaf (.emit ", ".toList) .nil))
        (.leaf (.code "i = i + 1".toList) .nil)))
    .nil

theorem normalize_count :
    normalize (Body.ofElements [.code " while (i < n):".toList, .code "put(i)".toList,
      .code "if (i == (n)): ".toList, .emit ".".toList, .code "else:".toList, .emit ", ".toList,
      .code " endif ".toList, .code "i = i + 1".toList, .code "endwhile".toList]).source =
    "while (i < n)\x7bput(i);if (i == (n))\x7bprint(\".\");\x7delse\x7bprint(\", \");\x7di = i + 1;\x7d".toList := by
  have hpad {c : Text} (before after : Text) (hb : Text.Blank before) (ha : Text.Blank after)
      {t : Text} (ht : t = before ++ (c ++ after)) : Padded (.code c) (.code t) :=
    ht ▸ .code c hb ha
  have hp : List.Forall₂ Padded (countTree.elements .colon) [.code " while (i < n):".toList,
      .code "put(i)".toList, .code "if (i == (n)): ".toList, .emit ".".toList, .code "else:".toList,
      .emit ", ".toList, .code " endif ".toList, .code "i = i + 1".toList,
      .code "endwhile".toList] :=
    .cons (hpad [' '] [] (by decide) (by decide) (by decide)) <|
    .cons (hpad [] [] (by decide) (by decide) (by decide)) <|
    .cons (hpad [] [' '] (by decide) (by decide) (by decide)) <| .cons (.emit _) <|
    .cons (hpad [] [] (by decide) (by decide) (by decide)) <| .cons (.emit _) <|
    .cons (hpad [' '] [' '] (by decide) (by decide) (by decide)) <|
    .cons (hpad [] [] (by decide) (by decide) (by decide)) <|
    .cons (hpad [] [] (by decide) (by decide) (by decide)) .nil
  exact (normalize_template ⟨by decide, by decide⟩ hp).1.trans (by decide)

end Stencil
