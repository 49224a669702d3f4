import Stencil.Proofs.Lower.Semicolons
import Stencil.Proofs.Lua.Heads
import Stencil.Proofs.Lua.Scopes
/-!
# Separators of fields

In a body that the fragment language takes, as it stands or once it is lowered, a semicolon between the
fields of a table comes after a value. The collapsing passes keep it, unless the value ends in a brace
or in an empty call.
-/
namespace Stencil

open Lua Lua.Token
open Normalize (visible flagged)

/-! ## The token before a separator -/

namespace Lua

section Spells

variable {ts pre post : List Token} {t u v w : Text} {tok : Token}

theorem Spells.count_semicolon (h : Spells ts t) : t.count ';' = ts.countP isSemicolon := by
  induction h with
  | nil => rfl
  | @blank c _ _ hc _ ih =>
      rw [List.count_cons_of_ne, ih]
      rintro rfl
      exact absurd hc (by decide)
  | @token tok w ts t hw _ _ ih =>
      rw [List.count_append, ih, List.countP_cons, Nat.add_comm]
      congr 1
      by_cases hsemi : ';' ∈ w
      · obtain ⟨rfl, rfl⟩ := hw.of_semicolon hsemi
        rfl
      · have hother : tok.isSemicolon = false := by
          rw [Bool.eq_false_iff]
          intro htok
          unfold isSemicolon at htok
          split at htok
          · have hall : ∀ e ∈ Mark.table, e.1 = .semicolon → ';' ∈ e.2 := by decide
            exact hsemi (hall _ (written_mark hw) rfl)
          · simp at htok
        rw [List.count_eq_zero.mpr hsemi, hother]
        rfl

/-- A token that ends a value is not written with what opens a table or ends a statement. -/
private theorem Written.of_endsValue (h : Written tok w) (hvalue : tok.endsValue = true) :
    ∀ c ∈ w, c ≠ ';' ∧ c ≠ '{' := by
  intro c hc
  have hall : ∀ d ∈ [';', '{'], continuesName d = false ∧ isNumeralChar d = false ∧
      Symbol.isMarkChar d = false := by decide
  suffices hne : c ∉ [';', '{'] by simpa using hne
  intro hmem
  obtain ⟨hname, hnumeral, hplace⟩ := hall c hmem
  cases h with
  | named h => simp [h.continues c hc] at hname
  | number _ h => simp [h c hc] at hnumeral
  | string => simp [Symbol.isMarkChar_placeholder hc] at hplace
  | mark hm =>
      have hmarks : ∀ e ∈ Mark.table, ∀ d ∈ e.2, d ∈ [';', '{'] →
          (Token.mark e.1).endsValue = false := by decide
      have hends := hmarks _ (mem_table_of_readMark hm) c hc hmem
      rw [hvalue] at hends
      simp at hends

theorem Spells.blank_of_nil (h : Spells [] t) : Text.Blank t := by
  generalize hnone : ([] : List Token) = ts at h
  induction h with
  | nil => exact Text.blank_nil
  | blank hc _ ih => exact Text.blank_cons.mpr ⟨isBlank_of_isSpace hc, ih hnone⟩
  | token _ _ _ _ => simp at hnone

/-- What is written last is the end of the last token. -/
theorem Spells.last_visible (h : Spells (pre ++ [tok]) t) :
    ∃ w c, Written tok w ∧ c ∈ w ∧ (visible t).getLast? = some c := by
  obtain ⟨u, v, rfl, -, hv⟩ := h.split
  obtain ⟨b, w, b', rfl, -, hw, -, hnone⟩ := hv.first
  obtain ⟨w', c, rfl⟩ := (List.eq_nil_or_concat w).resolve_left hw.ne_nil
  rw [List.concat_eq_append] at hw ⊢
  have hvisible : isBlank c = false := (hw.inked c (by simp)).visible
  refine ⟨_, c, hw, by simp, ?_⟩
  have hsplit : u ++ (b ++ (w' ++ [c] ++ b')) = (u ++ b ++ w') ++ [c] ++ b' := by simp
  rw [hsplit, Normalize.visible_append, Normalize.visible_of_blank hnone.blank_of_nil,
    List.append_nil, Normalize.visible_append, Normalize.visible_cons hvisible]
  exact List.getLast?_concat

/-- A text that ends in a value ends with nothing that opens a block or a table. -/
private theorem not_endsOpen (h : Spells (pre ++ [tok]) t) (hvalue : tok.endsValue = true) :
    ¬ Lower.EndsOpen t := by
  have word {k u b : Text} (hk : Keyword k) (hends : (Token.ofName k).endsValue = false)
      (hb : Text.Blank b) (ht : t = u ++ (' ' :: (k ++ b))) : False := by
    have hsplit : t = (u ++ [' ']) ++ (k ++ b) := by simp [ht]
    have hstops : Stops b := by
      have h := stops_blank_append hb (t := []) (by rintro c ⟨⟩)
      rwa [List.append_nil] at h
    rw [hsplit] at h
    obtain ⟨ts₁, ts₂, hts, -, hnone⟩ := h.cut_word hk (by simp [wordMayBegin]; decide) hstops
    obtain rfl := hnone.eq_nil hb
    obtain rfl : tok = .ofName k := by
      have hlast := congrArg List.getLast? hts
      simpa using hlast
    rw [hends] at hvalue
    simp at hvalue
  rintro ⟨k, hk, u, b, hb, ht⟩
  simp only [Lower.openers, List.map_cons, List.map_nil, List.mem_cons, List.not_mem_nil,
    or_false] at hk
  rcases hk with rfl | rfl | rfl | rfl
  · obtain ⟨w, c, hw, hc, hlast⟩ := h.last_visible
    have hbrace : (visible t).getLast? = some '{' := by
      rw [ht, ← List.append_assoc, Normalize.visible_append, Normalize.visible_of_blank hb,
        List.append_nil, Normalize.visible_append]
      exact List.getLast?_concat
    rw [hlast, Option.some.injEq] at hbrace
    exact (hw.of_endsValue hvalue c hc).2 hbrace
  · exact word (k := "do".toList) (by decide) (by decide) hb ht
  · exact word (k := "then".toList) (by decide) (by decide) hb ht
  · exact word (k := "else".toList) (by decide) (by decide) hb ht

/-- The text before a separator ends in a value. -/
theorem Spells.value_before (h : Spells ts (u ++ ';' :: v)) (hsteps : Steps ts)
    (hsep : (separators [] ts)[u.count ';']? = some true) :
    ∃ pre tok, Spells (pre ++ [tok]) u ∧ tok.endsValue = true := by
  obtain ⟨ts₁, ts₂, rfl, h₁, -⟩ := h.cut_semicolon
  rw [h₁.count_semicolon, getElem?_separators, Option.some.injEq] at hsep
  obtain ⟨tok, hlast, hvalue⟩ := hsteps.endsValue hsep
  obtain ⟨pre, rfl⟩ := List.getLast?_eq_some_iff.mp hlast
  exact ⟨pre, tok, h₁, hvalue⟩

/-- A text before which stands what stands before a value ends in one itself. -/
private theorem exists_last (h : Spells (pre ++ [tok]) w) (hvalue : tok.endsValue = true)
    (hfollows : Lower.Follows u w) :
    ∃ c, (visible u).getLast? = some c ∧ c ≠ ';' ∧ c ≠ '{' := by
  obtain ⟨w', d, hw, hd, hlast⟩ := h.last_visible
  cases hu : (visible u).getLast? with
  | none =>
      rw [hfollows.blank (List.getLast?_eq_none_iff.mp hu)] at hlast
      simp at hlast
  | some c =>
      refine ⟨c, rfl, ?_, ?_⟩
      · rintro rfl
        rw [hfollows.semicolon hu, Option.some.injEq] at hlast
        exact (hw.of_endsValue hvalue d hd).1 hlast.symm
      · rintro rfl
        obtain ⟨s, b, hs, -, hb⟩ := Normalize.exists_last_visible hu
        exact not_endsOpen h hvalue (hfollows.opens ⟨['{'], by decide, s, b, hb, by simp [hs]⟩)

end Spells

end Lua

/-! ## Bodies -/

/-- A body that the fragment language takes, as it stands or once its braces are lowered, and the code
that it takes. -/
inductive Reads (body : Text) : Text → Prop
  | native {room : Nat} {b : Block} : Parse.chunk room (lex body) = .ok b → Reads body body
  | braced {room : Nat} {b : Block} : .plain Mask.opening ∉ tiles body →
      Parse.chunk room (lex (lower body)) = .ok b → Reads body (lower body)

namespace Normalize

theorem mem_flagged {flags : List Bool} {read t u v : Text} (h : (u, v) ∈ flagged flags read t) :
    ∃ s, u = read ++ s ∧ t = s ++ ';' :: v ∧ flags[s.count ';']? = some true := by
  induction t generalizing flags read with
  | nil => simp [flagged] at h
  | cons c t ih =>
      cases flags with
      | nil => simp [flagged] at h
      | cons flag flags =>
          rw [flagged] at h
          split at h
          · rename_i hc
            subst hc
            rcases List.mem_append.mp h with h | h
            · split at h
              · rename_i hflag
                obtain ⟨rfl, rfl⟩ := Prod.mk.inj (List.mem_singleton.mp h)
                exact ⟨[], by simp, rfl, by simp [hflag]⟩
              · simp at h
            · obtain ⟨s, rfl, rfl, hflag⟩ := ih h
              exact ⟨';' :: s, by simp, rfl, by simpa using hflag⟩
          · rename_i hc
            obtain ⟨s, rfl, rfl, hflag⟩ := ih h
            exact ⟨c :: s, by simp, rfl, by rwa [List.count_cons_of_ne hc]⟩

/-- Where each semicolon of the text stands in code that is read, the separators of the code stay. -/
private theorem tidied_of_code {m : Mask} {t code : Text} {ts : List Token} (hspells : Spells ts code)
    (hsteps : Steps ts) (hcount : code.count ';' = t.count ';')
    (hbefore : ∀ u v, t = u ++ ';' :: v →
      ∃ w x, code = w ++ ';' :: x ∧ w.count ';' = u.count ';' ∧ Lower.Follows u w)
    (hlasting : ∀ p ∈ flagged (separators [] ts) [] t, Lasting m p.1 p.2) :
    Tidied m (separators [] ts) none none t (visible (collapse m t)) := by
  refine tidied_collapse ?_ fun p hp => ⟨hlasting p hp, ?_⟩
  · rw [length_separators, ← hspells.count_semicolon, hcount]
  · obtain ⟨u, v⟩ := p
    obtain ⟨s, hs, ht, hsep⟩ := mem_flagged hp
    obtain rfl : u = s := hs
    obtain ⟨w, x, rfl, hw, hfollows⟩ := hbefore u v ht
    rw [← hw] at hsep
    obtain ⟨pre, tok, hpre, hvalue⟩ := hspells.value_before hsteps hsep
    exact exists_last hpre hvalue hfollows

end Normalize

open Normalize

/-- Normalization keeps the separators of fields in a body of code that the fragment language takes, as
it stands or lowered, if no rule for blocks applies to the body and no separator stands right after a
brace or an empty call. White space goes, and so do empty calls with the semicolon after them, and
terminators after another one or after a brace. -/
theorem normalize_keeps_separators {body code : Text} (hreads : Reads body code)
    (hbody : CommentFree body)
    (hbraces : toBraces (Mask.ofText body).text = (Mask.ofText body).text)
    (hlasting : ∀ p ∈ flagged (separators [] (tokens code)) [] (Mask.ofText body).text,
      Lasting (Mask.ofText body) p.1 p.2) :
    ∃ t, normalize body = (Mask.ofText body).restore t ∧
      Tidied (Mask.ofText body) (separators [] (tokens code)) none none (Mask.ofText body).text
        (visible t) := by
  refine ⟨collapse (Mask.ofText body) (Mask.ofText body).text, by rw [normalize, hbraces], ?_⟩
  cases hreads with
  | native hvalid =>
      obtain ⟨-, hspells⟩ := body_spells hvalid hbody.maskable
      exact tidied_of_code hspells (Parse.steps_of_chunk hvalid) rfl
        (fun u v ht => ⟨u, v, ht, rfl, .refl u⟩) hlasting
  | braced hlegible hvalid =>
      obtain ⟨hcode, htext⟩ := Lower.commentFree_lower hbody hlegible
      obtain ⟨-, hspells⟩ := body_spells hvalid hcode.maskable
      have hlowers := Lower.lowers_lowerFrom 0 [] [] (Mask.ofText body).text
      rw [htext] at hspells
      obtain ⟨b, hb, hend⟩ := Text.exists_trimEnd_blank
        (Lower.lowerFrom 0 [] [] (Mask.ofText body).text).reverse
      generalize Text.trimEnd (Lower.lowerFrom 0 [] [] (Mask.ofText body).text).reverse = L
        at hspells hend
      rw [hend] at hlowers
      have hnone : ';' ∉ b := fun hmem => absurd (hb _ hmem) (by decide)
      refine tidied_of_code hspells (Parse.steps_of_chunk hvalid) ?_ (fun u v ht => ?_) hlasting
      · have hcount := hlowers.count_semicolon
        rwa [List.count_append, List.count_eq_zero.mpr hnone, Nat.add_zero] at hcount
      · obtain ⟨w, x, hw, hcount, hfollows⟩ := hlowers.before ht
        rcases List.append_eq_append_iff.mp hw with ⟨a, rfl, hrest⟩ | ⟨a, rfl, hrest⟩
        · exact absurd (by rw [hrest]; simp) hnone
        · cases a with
          | nil => exact absurd (by rw [List.nil_append] at hrest; rw [← hrest]; simp) hnone
          | cons c a =>
              obtain ⟨rfl, -⟩ := List.cons.inj hrest
              exact ⟨w, a, rfl, hcount, hfollows⟩

/-- A table with two separators in a block, one of them after a function. -/
private def tableInBlock : Text :=
  "if (a) \x7b t = \x7b f = function() g(); end; 1; 2 \x7d; \x7d print(\"\");; h();".toList

theorem normalize_keeps_separators_in_block :
    Reads tableInBlock (lower tableInBlock) ∧
      separators [] (tokens (lower tableInBlock)) = [false, true, true, false, false, false, false] ∧
      ∃ t, normalize tableInBlock = (Mask.ofText tableInBlock).restore t ∧
        Tidied (Mask.ofText tableInBlock) (separators [] (tokens (lower tableInBlock))) none none
          (Mask.ofText tableInBlock).text (visible t) := by
  have hvalid : (Parse.chunk 20 (lex (lower tableInBlock))).isOk = true := by decide +kernel
  have hreads : Reads tableInBlock (lower tableInBlock) := by
    cases hb : Parse.chunk 20 (lex (lower tableInBlock)) with
    | error refusal =>
        rw [hb] at hvalid
        cases hvalid
    | ok b => exact .braced (by decide +kernel) hb
  have hflags : separators [] (tokens (lower tableInBlock)) =
      [false, true, true, false, false, false, false] := by decide +kernel
  have hlast : ∀ p ∈ flagged (separators [] (tokens (lower tableInBlock))) []
      (Mask.ofText tableInBlock).text, (visible p.1).getLast? ∉ [some '}', some ')'] := by
    decide +kernel
  refine ⟨hreads, hflags, normalize_keeps_separators hreads (by decide +kernel) (by decide +kernel)
    fun p hp => ⟨fun hbrace => ?_, fun hcall => ?_⟩⟩
  · exact absurd (by simp [hbrace]) (hlast p hp)
  · exact absurd (by simp [hcall.getLast?_visible]) (hlast p hp)

/-- Two tables in a table. -/
private def tablesInTable : Text := "t = \x7b\x7b1\x7d;\x7b2\x7d\x7d".toList

/-- The separator after the first one goes. -/
theorem normalize_drops_separator :
    (Parse.chunk 9 (lex tablesInTable)).isOk = true ∧ CommentFree tablesInTable ∧
      toBraces (Mask.ofText tablesInTable).text = (Mask.ofText tablesInTable).text ∧
      separators [] (tokens tablesInTable) = [true] ∧
      normalize tablesInTable = "t =\x7b\x7b1\x7d\x7b2\x7d\x7d".toList := by
  refine ⟨by decide +kernel, by decide +kernel, by decide +kernel, by decide +kernel, ?_⟩
  decide +kernel

end Stencil
