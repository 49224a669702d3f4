import Stencil.Proofs.Lua.Strings
import Stencil.Proofs.Mask.Tiling
/-!
# Exact escaping

The string that a text is escaped to is read back as the text, and it cannot be broken off: a quote in
it is always escaped, and there is no control character in it. So masking sees one literal in it
wherever it stands in code.
-/
namespace Stencil

open Tile

/-! ## What is in an escaped text -/

def isControl (c : Char) : Bool := c.val < 0x20 || (0x7F ≤ c.val && c.val < 0xA0)

/-- Whether the text ends with a backslash that escapes what follows. -/
def endsEscaping (t : Text) : Bool := t.foldl (fun escaping c => !escaping && c == '\\') false

private theorem isControl_digitChar (n : Nat) : isControl (Nat.digitChar n) = false := by
  have hdigits : ∀ d < 16, isControl (Nat.digitChar d) = false := by decide
  by_cases h : n < 16
  · exact hdigits n h
  · have hstar : Nat.digitChar n = '*' := by
      unfold Nat.digitChar
      repeat rw [if_neg (by omega)]
    rw [hstar]
    decide

/-- What stands in an escape after its first two characters: a number in braces. -/
private theorem braced {n : Nat} {c : Char} (h : c ∈ '{' :: (Nat.toDigits 16 n ++ ['}'])) :
    c ≠ '\\' ∧ c ≠ '"' ∧ isControl c = false := by
  simp only [List.mem_cons, List.mem_append, List.not_mem_nil, or_false] at h
  rcases h with rfl | h | rfl
  · decide
  · obtain ⟨d, rfl⟩ := exists_digitChar h
    exact ⟨Nat.digitChar_ne _ (by decide), Nat.digitChar_ne _ (by decide), isControl_digitChar d⟩
  · decide

/-- A character is escaped to itself, or to a backslash with a character after it and perhaps a number
in braces. -/
theorem escapeChar_cases (c : Char) :
    (escapeChar c = [c] ∧ c ≠ '\\' ∧ c ≠ '"' ∧ isControl c = false) ∨
      ∃ d s, escapeChar c = '\\' :: d :: s ∧ isControl d = false ∧
        ∀ x ∈ s, x ≠ '\\' ∧ x ≠ '"' ∧ isControl x = false := by
  unfold escapeChar
  split
  · exact .inr ⟨'\\', [], rfl, by decide, by simp⟩
  · exact .inr ⟨'"', [], rfl, by decide, by simp⟩
  · exact .inr ⟨'\'', [], rfl, by decide, by simp⟩
  · exact .inr ⟨'n', [], rfl, by decide, by simp⟩
  · exact .inr ⟨'r', [], rfl, by decide, by simp⟩
  · exact .inr ⟨'t', [], rfl, by decide, by simp⟩
  · rename_i hslash hquote _ _ _ _
    split
    · refine .inr ⟨'u', '{' :: (Nat.toDigits 16 c.toNat ++ ['}']), by simp, by decide, ?_⟩
      exact fun x hx => braced hx
    · rename_i hcontrol
      exact .inl ⟨rfl, hslash, hquote, by simpa [isControl] using hcontrol⟩

private theorem escape_cons (c : Char) (t : Text) : escape (c :: t) = escapeChar c ++ escape t := rfl

theorem isControl_of_mem_escape {t : Text} {c : Char} (h : c ∈ escape t) : isControl c = false := by
  obtain ⟨d, -, hd⟩ := List.mem_flatMap.mp h
  rcases escapeChar_cases d with ⟨hself, -, -, hcontrol⟩ | ⟨e, s, hescape, he, hs⟩
  · rw [hself, List.mem_singleton] at hd
    rwa [hd]
  · rw [hescape, List.mem_cons, List.mem_cons] at hd
    rcases hd with rfl | rfl | hd
    · decide
    · exact he
    · exact (hs c hd).2.2

/-! ## Quotes in an escaped text -/

private theorem foldl_escaping_plain {s : Text} (h : ∀ x ∈ s, x ≠ '\\') :
    s.foldl (fun escaping c => !escaping && c == '\\') false = false := by
  induction s with
  | nil => rfl
  | cons c s ih =>
      have hc : (c == '\\') = false := by simpa using h c (by simp)
      rw [List.foldl_cons, hc]
      exact ih fun x hx => h x (List.mem_cons_of_mem c hx)

/-- What comes after the escape of a character is read afresh. -/
private theorem endsEscaping_escapeChar (c : Char) (t : Text) :
    endsEscaping (escapeChar c ++ t) = endsEscaping t := by
  have hreset : (escapeChar c).foldl (fun escaping c => !escaping && c == '\\') false = false := by
    rcases escapeChar_cases c with ⟨hself, hslash, -, -⟩ | ⟨d, s, hescape, -, hs⟩
    · rw [hself]
      exact foldl_escaping_plain (by simpa using hslash)
    · rw [hescape, List.foldl_cons, List.foldl_cons]
      exact foldl_escaping_plain fun x hx => (hs x hx).1
  rw [endsEscaping, List.foldl_append, hreset]
  rfl

/-- A quote that a character is escaped to comes right after a backslash. -/
private theorem eq_of_escapeChar {c : Char} {a w : Text} (h : escapeChar c = a ++ '"' :: w) :
    a = ['\\'] := by
  rcases escapeChar_cases c with ⟨hself, -, hquote, -⟩ | ⟨d, s, hescape, -, hs⟩
  · rw [hself] at h
    have hmem : '"' ∈ [c] := by simp [h]
    exact absurd (List.mem_singleton.mp hmem).symm hquote
  · rw [hescape] at h
    match a, h with
    | [], h => exact absurd (List.cons.inj h).1 (by decide)
    | [e], h => rw [(List.cons.inj h).1]
    | e :: e' :: a, h =>
        have hmem : '"' ∈ s := by
          rw [(List.cons.inj (List.cons.inj h).2).2]
          simp
        exact absurd rfl (hs '"' hmem).2.1

/-- A quote in an escaped text is escaped. -/
theorem endsEscaping_of_escape {t a b : Text} (h : escape t = a ++ '"' :: b) :
    endsEscaping a = true := by
  induction t generalizing a with
  | nil => simp [escape] at h
  | cons c t ih =>
      rw [escape_cons] at h
      rcases List.append_eq_append_iff.mp h with ⟨a', rfl, ha'⟩ | ⟨w, hw, hrest⟩
      · rw [endsEscaping_escapeChar]
        exact ih ha'
      · cases w with
        | nil =>
            rw [List.append_nil] at hw
            rw [← hw, ← List.append_nil (escapeChar c), endsEscaping_escapeChar]
            exact ih hrest.symm
        | cons e w =>
            obtain ⟨rfl, -⟩ := List.cons.inj hrest
            rw [eq_of_escapeChar hw]
            rfl

/-! ## Strings in code -/

namespace Tile

/-- Whether the tile is a comment up to the end of its line. -/
def isLineComment : Tile → Bool
  | comment t => !(comment t).isLongComment
  | _ => false

/-- The text ends in code, not inside of a literal or a comment: its last tile is closed and leaves the
rest of the line alone. -/
def EndsInCode (t : Text) : Prop :=
  ∀ x ∈ (tiles t).getLast?, x.isClosed = true ∧ x.isLineComment = false

instance (t : Text) : Decidable (EndsInCode t) := by
  unfold EndsInCode
  infer_instance

variable {x : Tile} {c : Char} {cs p r : Text}

/-- A tile that is closed, and no character by itself, is read the same whatever follows it. -/
private theorem standing_of_closed (hx : first c cs = x) (hclosed : x.isClosed = true)
    (hline : x.isLineComment = false) (hlong : ∀ d, x ≠ .plain d) : Standing x := by
  have hv := view c cs
  rw [hx] at hv
  cases hv with
  | plain _ => exact absurd rfl (hlong c)
  | quoted hq =>
      rw [isClosed_quoted hq] at hclosed
      exact standing_quoted hq hclosed
  | long _ _ =>
      rw [isClosed_long] at hclosed
      exact standing_long hclosed
  | longComment _ _ =>
      rw [isClosed_longComment] at hclosed
      exact standing_longComment hclosed
  | @lineComment line _ _ hnone =>
      have hshort : longBracket? (line.take (lineLength line)) = none :=
        longBracket?_eq_none.mpr fun level h =>
          longBracket?_eq_none.mp hnone level (h.trans (List.take_prefix _ line))
      simp [isLineComment, isLongComment, hshort] at hline
  | slashComment _ _ => simp [isLineComment, isLongComment] at hline
  | blockComment _ _ => exact standing_block hclosed

private theorem prefix_of_prefix_quote {mark : Text} (hmark : '"' ∉ mark)
    (h : mark <+: p ++ '"' :: r) : mark <+: p := by
  obtain ⟨more, hmore⟩ := h
  rcases List.append_eq_append_iff.mp hmore with ⟨a, ha, -⟩ | ⟨a, ha, hsplit⟩
  · exact ⟨a, ha.symm⟩
  · cases a with
    | nil => exact ⟨[], by rw [ha, List.append_nil, List.append_nil]⟩
    | cons d a =>
        obtain ⟨rfl, -⟩ := List.cons.inj hsplit
        exact absurd (by simp [ha]) hmark

private theorem quote_not_mem_opener (level : Nat) : '"' ∉ '[' :: opener level := by
  simp [opener, List.mem_replicate]

private theorem UpToLine.append {line : Text} (h : UpToLine line p) (hp : p ≠ []) (r : Text) :
    UpToLine line (p ++ r) := by
  obtain ⟨hline, hrest⟩ := h
  obtain ⟨more, rfl⟩ := List.head?_eq_some_iff.mp (hrest.resolve_left hp)
  exact ⟨hline, .inr rfl⟩

/-- A quote after a tile, though not directly after one that runs on, leaves it as it is. -/
private theorem Leads.append_quote (h : Leads x p) (hp : p ≠ [] ∨ ∃ d, x = .plain d) (r : Text) :
    Leads x (p ++ '"' :: r) := by
  cases h with
  | @plain d _ h =>
      refine .plain fun mark hmark hprefix => ?_
      by_cases hquote : '"' ∈ mark
      · cases hmark with
        | double =>
            obtain ⟨more, hmore⟩ := hprefix
            exact h _ .double ⟨p, congrArg (· :: p) (List.cons.inj hmore).1⟩
        | bracket level => exact quote_not_mem_opener level hquote
        | _ => exact absurd hquote (by decide)
      · exact h mark hmark (prefix_of_prefix_quote (p := d :: p) hquote hprefix)
  | quoted hq hstretch =>
      cases hstretch with
      | closed h => exact .quoted hq (.closed h)
      | line h => exact .quoted hq (.line h)
      | ended h => simp at hp
      | escaping h => simp at hp
  | long hstretch =>
      rcases hstretch with hclosed | ⟨rfl, -⟩
      · exact .long (.inl hclosed)
      · simp at hp
  | longComment hstretch =>
      rcases hstretch with hclosed | ⟨rfl, -⟩
      · exact .longComment (.inl hclosed)
      · simp at hp
  | dashComment hnone hline =>
      refine .dashComment (fun level hopen => ?_) (hline.append (by simpa using hp) _)
      rw [← List.append_assoc] at hopen
      exact hnone level (prefix_of_prefix_quote (quote_not_mem_opener level) hopen)
  | slashComment hline => exact .slashComment (hline.append (by simpa using hp) _)
  | blockComment hstretch =>
      rcases hstretch with hclosed | ⟨rfl, -⟩
      · exact .blockComment (.inl hclosed)
      · simp at hp

private theorem leads_first {body : Text} (h : (first c (body ++ p)).text = c :: body) :
    Leads (first c (body ++ p)) p := by
  obtain ⟨rest, hsplit, hlead⟩ := exists_leads c (body ++ p)
  rw [h, List.cons_append, List.cons.injEq, List.append_cancel_left_eq] at hsplit
  rwa [← hsplit.2] at hlead

private theorem Leads.first_eq {body : Text} (h : Leads x p) (htext : x.text = c :: body) :
    first c (body ++ p) = x := by
  obtain ⟨d, stretch, hd, hfirst⟩ := h.eq_first
  rw [htext, List.cons.injEq] at hd
  obtain ⟨rfl, rfl⟩ := hd
  exact hfirst

/-- A string after code is lexed apart from what stands before it. -/
theorem EndsInCode.tiles_append {t : Text} (h : EndsInCode t) (r : Text) :
    tiles (t ++ '"' :: r) = tiles t ++ tiles ('"' :: r) := by
  refine tiles_induct (motive := fun t ts =>
    (∀ x ∈ ts.getLast?, x.isClosed = true ∧ x.isLineComment = false) →
      tiles (t ++ '"' :: r) = ts ++ tiles ('"' :: r)) (fun _ => rfl) ?_ t h
  intro c body rest htext ih hlast
  have hfirst : first c (body ++ (rest ++ '"' :: r)) = first c (body ++ rest) := by
    by_cases hend : rest ≠ [] ∨ ∃ d, first c (body ++ rest) = .plain d
    · exact ((leads_first htext).append_quote hend r).first_eq htext
    · rw [not_or, Decidable.not_not, not_exists] at hend
      obtain ⟨rfl, hlong⟩ := hend
      obtain ⟨hclosed, hline⟩ := hlast _ rfl
      obtain ⟨d, stretch, hd, hstands⟩ := standing_of_closed rfl hclosed hline hlong
      rw [htext, List.cons.injEq] at hd
      obtain ⟨rfl, rfl⟩ := hd
      exact hstands _
  have hrest : ∀ x ∈ (tiles rest).getLast?, x.isClosed = true ∧ x.isLineComment = false := by
    intro x hx
    exact hlast x (by rw [List.getLast?_cons, Option.mem_def.mp hx]; rfl)
  rw [List.cons_append, List.append_assoc, tiles_cons (by rw [hfirst, htext]), hfirst, ih hrest]
  rfl

end Tile

/-! ## Exactness -/

/-- Escaping is exact. Between double quotes an escaped text is read as the bytes of the text, with no
line break in it; a quote in it is escaped, and none of its characters is a control character. Put
anywhere in code, the string is one literal of the source, and what stands around it is lexed apart
from it. -/
theorem escape_exact (t : Text) :
    (∀ rest, Lua.Token.readQuoted '"' ((escape t ++ '"' :: rest).length + 1)
        (escape t ++ '"' :: rest) = some (t.toBytes, 0, rest)) ∧
      (∀ a b, escape t = a ++ '"' :: b → endsEscaping a = true) ∧
      (∀ c ∈ escape t, isControl c = false) ∧
      ∀ before after, EndsInCode before →
        tiles (before ++ (quoted t ++ after)) =
            tiles before ++ .literal (quoted t) :: tiles after ∧
          (Mask.ofText (before ++ (quoted t ++ after))).literals =
            (Mask.ofText before).literals ++ quoted t :: (Mask.ofText after).literals := by
  refine ⟨fun rest => ?_, fun a b => endsEscaping_of_escape, fun c => isControl_of_mem_escape,
    fun before after hbefore => ?_⟩
  · refine Lua.Token.readQuoted_escape t rest ?_
    have hle := Lua.Token.length_le_escape t
    rw [List.length_append]
    omega
  · have hquoted := (fit_quoted t).standing.tiles_append after
    have hsplit : before ++ (quoted t ++ after) =
        before ++ '"' :: (escape t ++ ['"'] ++ after) := by simp [quoted]
    have htiles : tiles (before ++ (quoted t ++ after)) =
        tiles before ++ .literal (quoted t) :: tiles after := by
      rw [hsplit, hbefore.tiles_append]
      exact congrArg (tiles before ++ ·) hquoted
    refine ⟨htiles, ?_⟩
    simp only [Mask.ofText, htiles, literalsOf_eq, List.filterMap_append, List.filterMap_cons,
      literalText?]

/-- A text with both quotes, a backslash, a line break and a control character before a digit, after
code with a comment, a long bracket and an index in it. -/
theorem escape_exact_assignment :
    let t : Text := "\"'\\\n\x01f\x7d".toList
    let before := "-- \"\nx[ [=[\"]=] ] = ".toList
    EndsInCode before ∧
      Lua.Token.readQuoted '"' 18 (escape t ++ "\";".toList) = some (t.toBytes, 0, [';']) ∧
      (Mask.ofText (before ++ (quoted t ++ [';']))).literals = ["[=[\"]=]".toList, quoted t] := by
  intro t before
  have hbefore : EndsInCode before := by decide
  obtain ⟨hread, -, -, hplaced⟩ := escape_exact t
  exact ⟨hbefore, hread [';'], (hplaced before [';'] hbefore).2.trans (by decide)⟩

end Stencil
