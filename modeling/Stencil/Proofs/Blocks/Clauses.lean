import Stencil.Proofs.Blocks.Phrases
/-!
# The normal form of clauses

Clauses in the brace style, with any white space and perhaps a semicolon after a brace, pass the rules
for blocks and collapse to their canonical form. Clauses in the colon style are brought to the brace
style first.
-/
namespace Stencil.Normalize

open Text

/-! ## The brace style as items -/

/-- The clause in the brace style. -/
def clauseItems (gap : Text) : Clause Text → List Item
  | .leaf text => [.code text]
  | .head kind condition => [.code (Clause.head kind condition).code, .blank gap, .stop '\x7b']
  | .elseIf condition =>
    [.stop '\x7d', .blank gap, .code (Clause.elseIf condition).code, .blank gap, .stop '\x7b']
  | .otherwise =>
    [.stop '\x7d', .blank gap, .code (Clause.code .otherwise), .blank gap, .stop '\x7b']
  | .close _ => [.stop '\x7d']

theorem spread_clauseItems (gap : Text) (clause : Clause Text) :
    spread (clauseItems gap clause) = clause.brace gap := by
  cases clause <;> simp [clauseItems, Clause.brace]

/-- A clause in the brace style among others: white space around it, and a semicolon after it where it
is a statement, and perhaps where it is not. -/
inductive BraceForm : Clause Text → List Item → Prop
  | statement {t w g v : Text} : Blank w → Blank g → Blank v →
      BraceForm (.leaf t) [.blank w, .code t, .blank g, .stop ';', .blank v]
  | marked {clause : Clause Text} {w gap v : Text} : (∀ t, clause ≠ .leaf t) → Blank w → Blank gap →
      Blank v → BraceForm clause (.blank w :: (clauseItems gap clause ++ [.blank v]))
  | ended {clause : Clause Text} {w gap v v' : Text} : (∀ t, clause ≠ .leaf t) → Blank w →
      Blank gap → Blank v → Blank v' →
      BraceForm clause (.blank w :: (clauseItems gap clause ++ [.blank v, .stop ';', .blank v']))

section Forms

variable {m : Mask} {ok : Text → Char → Prop} {clause : Clause Text} {items r : List Item}

private theorem punctuated_clause (hok : ∀ t c, Phrase m t c → ok t c) {gap : Text}
    (hleaf : ∀ t, clause ≠ .leaf t) (ht : Tame m clause) (hgap : Blank gap) (hr : Punctuated ok r) :
    Punctuated ok (clauseItems gap clause ++ r) ∧
      reaches (· == ';') (clauseItems gap clause ++ r) = false := by
  have opened {t : Text} (h : Phrase m t '\x7b') :
      Punctuated ok (.code t :: .blank gap :: .stop '\x7b' :: r) :=
    .code (hok _ _ h) (.blank hgap (.stop rfl (fun hc => absurd hc (by decide)) hr))
  have closed {r : List Item} (hr : Punctuated ok r) :
      Punctuated ok (.stop '\x7d' :: r) := .stop rfl (fun hc => absurd hc (by decide)) hr
  cases clause with
  | leaf t => exact absurd rfl (hleaf t)
  | head kind c => exact ⟨opened (.head ht), rfl⟩
  | elseIf c => exact ⟨closed (.blank hgap (opened (.elseIf ht))), rfl⟩
  | otherwise => exact ⟨closed (.blank hgap (opened .otherwise)), rfl⟩
  | close kind => exact ⟨closed hr, rfl⟩

theorem BraceForm.punctuated (hok : ∀ t c, Phrase m t c → ok t c) (h : BraceForm clause items)
    (ht : Tame m clause) (hr : Punctuated ok r) (hnext : reaches (· == ';') r = false) :
    Punctuated ok (items ++ r) ∧ reaches (· == ';') (items ++ r) = false := by
  cases h with
  | statement hw hg hv =>
      exact ⟨.blank hw (.code (hok _ _ (.statement ht)) (.blank hg (.stop rfl (fun _ => hnext) (.blank hv hr)))),
        rfl⟩
  | marked hleaf hw hgap hv =>
      have hclause := punctuated_clause hok hleaf ht hgap (.blank hv hr)
      rw [List.cons_append, List.append_assoc]
      exact ⟨.blank hw hclause.1, hclause.2⟩
  | @ended _ w gap v v' hleaf hw hgap hv hv' =>
      have hafter : reaches (· == ';') (.blank v' :: r) = false := hnext
      have hsemi : Punctuated ok (.stop ';' :: .blank v' :: r) :=
        .stop rfl (fun _ => hafter) (.blank hv' hr)
      have hclause := punctuated_clause hok hleaf ht hgap (.blank hv hsemi)
      rw [List.cons_append, List.append_assoc]
      exact ⟨.blank hw hclause.1, hclause.2⟩

private theorem squeeze_true (h : reaches (· == ';') r = false) : squeeze true r = squeeze false r := by
  induction r with
  | nil => rfl
  | cons i r ih =>
      cases i with
      | blank b => exact ih h
      | code t => rfl
      | stop c => simp [squeeze, show (c == ';') = false from h]

theorem BraceForm.squeeze (h : BraceForm clause items) (hnext : reaches (· == ';') r = false) :
    squeeze false (items ++ r) = clause.canonical ++ squeeze false r := by
  have hsame := squeeze_true hnext
  cases h with
  | @statement t w g v _ _ _ =>
      show t ++ ';' :: Normalize.squeeze false r = (t ++ [';']) ++ Normalize.squeeze false r
      simp
  | marked hleaf _ _ _ =>
      cases clause with
      | leaf t => exact absurd rfl (hleaf t)
      | _ => simp [clauseItems, Normalize.squeeze, Clause.canonical, Clause.map, Clause.brace, hsame]
  | ended hleaf _ _ _ _ =>
      cases clause with
      | leaf t => exact absurd rfl (hleaf t)
      | _ => simp [clauseItems, Normalize.squeeze, Clause.canonical, Clause.map, Clause.brace]

end Forms

section Lists

variable {m : Mask} {α : Type} {as : List α} {clause : α → Clause Text} {form : α → List Item}

private theorem punctuated_forms
    (h : ∀ a ∈ as, BraceForm (clause a) (form a) ∧ Tame m (clause a)) :
    Punctuated (Phrase m) (as.flatMap form) ∧ reaches (· == ';') (as.flatMap form) = false ∧
      squeeze false (as.flatMap form) = as.flatMap fun a => (clause a).canonical := by
  induction as with
  | nil => exact ⟨.nil, rfl, rfl⟩
  | cons a as ih =>
      obtain ⟨hr, hnext, hsqueeze⟩ := ih fun b hb => h b (by simp [hb])
      obtain ⟨hform, htame⟩ := h a (by simp)
      obtain ⟨hp, hreach⟩ := hform.punctuated (fun _ _ h => h) htame hr hnext
      rw [List.flatMap_cons, List.flatMap_cons, hform.squeeze hnext, hsqueeze]
      exact ⟨hp, hreach, rfl⟩

/-- Clauses in the brace style pass the rules for blocks. -/
theorem toBraces_forms (h : ∀ a ∈ as, BraceForm (clause a) (form a) ∧ Tame m (clause a)) :
    toBraces (spread (as.flatMap form)) = spread (as.flatMap form) := by
  have hp := (punctuated_forms h).1
  have hheads := (Turns.items keyed_colonHead
    (hp.imp fun _ _ h => h.passes_colonHead)).replaceAll
  have helse := (Turns.items keyed_colonElse
    (hp.imp fun _ _ h => h.passes_colonElse)).replaceAll
  have hends := (Turns.items keyed_blockEnd
    (hp.imp fun _ _ h => h.passes_blockEnd)).replaceAll
  have hbare := replaceAll_statementElse (hp.imp fun _ _ h => h.calm) (hp.imp fun _ _ h => h.solid)
  rw [toBraces, hheads, helse, hbare, hends]

/-- Clauses in the brace style collapse to their canonical form. -/
theorem collapse_forms (h : ∀ a ∈ as, BraceForm (clause a) (form a) ∧ Tame m (clause a)) :
    collapse m (spread (as.flatMap form)) = as.flatMap fun a => (clause a).canonical := by
  obtain ⟨hp, -, hsqueeze⟩ := punctuated_forms h
  rw [collapse_spread (fun _ _ h => h.solid) hp (callFree_spread (hp.imp fun _ _ h => h.callFree)),
    hsqueeze]

end Lists

end Stencil.Normalize
