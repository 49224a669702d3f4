import Stencil.Body
import Stencil.Normalize
import Stencil.Proofs.Mask.Settled
/-!
# The tiles of a body's source

An emitted literal is one string in the source, whatever it says. Code that is closed by itself is
lexed apart from what stands around it, so the source of a body has the tiles of its elements.
-/
namespace Stencil

open Tile

def quoted (t : Text) : Text := '"' :: (escape t ++ ['"'])

/-! ## Escaped text stays inside its quotes -/

/-- Characters that mean nothing inside a string are read one by one. -/
private theorem quoted_append {s : Text} (h : ∀ c ∈ s, c ≠ '\\' ∧ c ≠ '"' ∧ c ≠ '\n') (t : Text) :
    quotedLength '"' (s ++ t) = s.length + quotedLength '"' t ∧
      closesQuote '"' (s ++ t) = closesQuote '"' t := by
  induction s with
  | nil => simp
  | cons c cs ih =>
      obtain ⟨h1, h2, h3⟩ := h c (by simp)
      obtain ⟨hlength, hcloses⟩ := ih fun d hd => h d (by simp [hd])
      rw [List.cons_append, quotedLength_cons h1, closesQuote_cons h1, if_neg h3, if_neg h3,
        if_neg h2, if_neg h2, hlength, hcloses, List.length_cons]
      exact ⟨by omega, rfl⟩

theorem exists_digitChar {n : Nat} {c : Char} (h : c ∈ Nat.toDigits 16 n) :
    ∃ d, c = Nat.digitChar d := by
  induction n using Nat.strongRecOn with
  | ind n ih =>
      by_cases hn : n < 16
      · rw [Nat.toDigits_of_lt_base hn, List.mem_singleton] at h
        exact ⟨n, h⟩
      · rw [← Nat.div_add_mod n 16, ← Nat.toDigits_append_toDigits (by decide) (by omega)
          (Nat.mod_lt n (by decide)), List.mem_append] at h
        rcases h with h | h
        · exact ih (n / 16) (by omega) h
        · exact ih (n % 16) (by omega) h

private theorem hexDigit_inside {n : Nat} {c : Char} (h : c ∈ Nat.toDigits 16 n) :
    c ≠ '\\' ∧ c ≠ '"' ∧ c ≠ '\n' := by
  obtain ⟨d, rfl⟩ := exists_digitChar h
  exact ⟨Nat.digitChar_ne _ (by decide), Nat.digitChar_ne _ (by decide),
    Nat.digitChar_ne _ (by decide)⟩

private theorem quoted_escapeChar (c : Char) (t : Text) :
    quotedLength '"' (escapeChar c ++ t) = (escapeChar c).length + quotedLength '"' t ∧
      closesQuote '"' (escapeChar c ++ t) = closesQuote '"' t := by
  -- an escape is a backslash and a character after it, and perhaps some that mean nothing
  have escaped (d : Char) {s : Text} (hs : ∀ c ∈ s, c ≠ '\\' ∧ c ≠ '"' ∧ c ≠ '\n') :
      quotedLength '"' ('\\' :: d :: s ++ t) = ('\\' :: d :: s).length + quotedLength '"' t ∧
        closesQuote '"' ('\\' :: d :: s ++ t) = closesQuote '"' t := by
    obtain ⟨hlength, hcloses⟩ := quoted_append hs t
    rw [List.cons_append, List.cons_append, quotedLength, closesQuote, hlength, hcloses]
    refine ⟨?_, rfl⟩
    simp only [List.length_cons]
    omega
  unfold escapeChar
  split
  · exact escaped _ (by simp)
  · exact escaped _ (by simp)
  · exact escaped _ (by simp)
  · exact escaped _ (by simp)
  · exact escaped _ (by simp)
  · exact escaped _ (by simp)
  · rename_i h1 h2 _ h3 _ _
    split
    · refine escaped 'u' (s := '{' :: (Nat.toDigits 16 c.toNat ++ ['}'])) fun d hd => ?_
      simp only [List.mem_cons, List.mem_append, List.not_mem_nil, or_false] at hd
      rcases hd with rfl | hd | rfl
      · decide
      · exact hexDigit_inside hd
      · decide
    · exact quoted_append (s := [c]) (by simpa using ⟨h1, h2, h3⟩) t

theorem escapeChar_ne_nil (c : Char) : escapeChar c ≠ [] := by
  unfold escapeChar
  split <;> try split
  all_goals simp

private theorem quoted_escape (t rest : Text) :
    quotedLength '"' (escape t ++ '"' :: rest) = (escape t).length + 1 ∧
      closesQuote '"' (escape t ++ '"' :: rest) = true := by
  induction t with
  | nil => exact ⟨rfl, rfl⟩
  | cons c cs ih =>
      have hcons : escape (c :: cs) = escapeChar c ++ escape cs := rfl
      obtain ⟨hlength, hcloses⟩ := quoted_escapeChar c (escape cs ++ '"' :: rest)
      rw [hcons, List.append_assoc, hlength, hcloses, ih.1, ih.2, List.length_append]
      exact ⟨by omega, rfl⟩

theorem isClosed_literal_quoted (t : Text) : (Tile.literal (quoted t)).isClosed = true := by
  rw [quoted, isClosed_quoted (Or.inr rfl)]
  exact (quoted_escape t []).2

/-- The string of a document text is read whole, and nothing after it. -/
theorem fit_quoted (t : Text) : Symbol.Fit (quoted t) := by
  refine ⟨⟨'"', escape t ++ ['"'], rfl, fun rest => ?_⟩, '"', _, rfl, Or.inr (Or.inl rfl)⟩
  rw [first_quoted (Or.inr rfl), List.append_assoc, List.singleton_append, (quoted_escape t rest).1,
    List.take_append]
  simp [quoted, List.take_of_length_le]

theorem isEmptyQuoted_quoted {t : Text} (h : t ≠ []) :
    Normalize.isEmptyQuoted (quoted t) = false := by
  obtain ⟨c, cs, rfl⟩ := List.exists_cons_of_ne_nil h
  have hne : escape (c :: cs) ≠ [] := fun h =>
    escapeChar_ne_nil c (List.append_eq_nil_iff.mp h).1
  cases he : escape (c :: cs) with
  | nil => exact absurd he hne
  | cons d ds => simp [Normalize.isEmptyQuoted, quoted, he]

/-! ## Tiles of a source -/

/-- Code that can be told from its literals and is closed by itself: no string, long bracket or
comment of it runs on, with the end of statement that is put after it. -/
structure Sealed (code : Text) : Prop where
  closed : ∀ x ∈ tiles (code ++ ";\n".toList), x.isClosed = true
  plain : Symbol.Plain (tiles (code ++ ";\n".toList))

instance (code : Text) : Decidable (Sealed code) :=
  decidable_of_iff ((∀ x ∈ tiles (code ++ ";\n".toList), x.isClosed = true) ∧
    Symbol.Plain (tiles (code ++ ";\n".toList))) ⟨fun h => ⟨h.1, h.2⟩, fun h => ⟨h.closed, h.plain⟩⟩

/-- The code around the string that is emitted. -/
def callStart : List Tile := "print(".toList.map .plain
def callEnd : List Tile := ");\n".toList.map .plain

def Element.tiles : Element → List Tile
  | .emit t => callStart ++ .literal (quoted t) :: callEnd
  | .code c => Stencil.tiles (c ++ ";\n".toList)

theorem emit_source (t : Text) :
    (Element.emit t).source = "print(".toList ++ (quoted t ++ ");\n".toList) := by
  have hopen : "print(\"".toList = "print(".toList ++ ['"'] := by decide
  have hclose : "\");\n".toList = ['"'] ++ ");\n".toList := by decide
  have hquoted (p q : Text) : p ++ ['"'] ++ escape t ++ (['"'] ++ q) = p ++ (quoted t ++ q) := by
    simp [quoted]
  calc (Element.emit t).source = "print(\"".toList ++ escape t ++ "\");\n".toList := rfl
    _ = "print(".toList ++ ['"'] ++ escape t ++ (['"'] ++ ");\n".toList) :=
      congr (congrArg (fun p q => p ++ escape t ++ q) hopen) hclose
    _ = "print(".toList ++ (quoted t ++ ");\n".toList) := hquoted _ _

/-- In a call on the string of a text, the string is lexed apart from what follows it. -/
theorem tiles_call (t rest : Text) : tiles ("print(".toList ++ (quoted t ++ rest)) =
    callStart ++ .literal (quoted t) :: tiles rest := by
  have hq := (fit_quoted t).standing.tiles_append rest
  rw [Tile.text] at hq
  rw [tiles_code (by decide), hq]
  rfl

private theorem tiles_emit (t rest : Text) :
    tiles ((Element.emit t).source ++ rest) = (Element.emit t).tiles ++ tiles rest := by
  rw [emit_source, List.append_assoc, List.append_assoc, tiles_call, tiles_code (by decide)]
  exact (List.append_assoc callStart (.literal (quoted t) :: callEnd) _).symm

/-- The source of a body has the tiles of its elements. -/
theorem tiles_source {elements : List Element}
    (h : ∀ c, .code c ∈ elements → Sealed c) (rest : Text) :
    tiles (elements.flatMap Element.source ++ rest) =
      elements.flatMap Element.tiles ++ tiles rest := by
  induction elements with
  | nil => rfl
  | cons e es ih =>
      have ih' := ih fun c hc => h c (by simp [hc])
      rw [List.flatMap_cons, List.flatMap_cons, List.append_assoc, List.append_assoc, ← ih']
      cases e with
      | emit t => exact tiles_emit t _
      | code c =>
          have hend : Ended (c ++ ";\n".toList) := by
            intro d hd
            have : ";\n".toList = [';', '\n'] := by decide
            rw [this] at hd
            simpa [eq_comm] using hd
          exact tiles_append hend (h c (by simp)).closed _

end Stencil
