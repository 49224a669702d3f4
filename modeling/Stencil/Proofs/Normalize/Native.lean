import Stencil.Proofs.Lua.Heads
import Stencil.Proofs.Normalize.Rules
/-!
# The rules for blocks on native code

A source that the fragment language takes has no colon after a condition or an `else`. The rules for
blocks look for one after the group that a condition begins with, where a method may be called, and
right after `else`, where a label may stand. A source with neither is left as it is.
-/
namespace Stencil

open Lua

namespace Lua

namespace Token

def isColon : Token → Bool
  | .mark .colon => true
  | _ => false

def isLabel : Token → Bool
  | .mark .label => true
  | _ => false

/-- A name that the rules for blocks take for the end of a block. -/
def isBlockEnd : Token → Bool
  | .name id => ["endif", "endfor", "endwhile"].contains id
  | _ => false

end Token

def afterElse : List Token → List Token
  | [] => []
  | .word .else :: ts => ts.head?.toList ++ afterElse ts
  | _ :: ts => afterElse ts

/-- Whether an `else` stands between semicolons. -/
def hasStrayElse : List Token → Bool
  | [] => false
  | .mark .semicolon :: .word .else :: .mark .semicolon :: _ => true
  | _ :: ts => hasStrayElse ts

theorem mem_afterElse (before : List Token) (tok : Token) (ts : List Token) :
    tok ∈ afterElse (before ++ .word .else :: tok :: ts) := by
  induction before with
  | nil => exact List.mem_append_left _ (by simp)
  | cons t before ih =>
      rw [List.cons_append]
      unfold afterElse
      split
      · rename_i hnil
        simp at hnil
      · rename_i hcons
        obtain ⟨-, rfl⟩ := List.cons.inj hcons
        exact List.mem_append_right _ ih
      · rename_i hcons
        obtain ⟨-, rfl⟩ := List.cons.inj hcons
        exact ih

theorem hasStrayElse_append (before ts : List Token) :
    hasStrayElse (before ++ .mark .semicolon :: .word .else :: .mark .semicolon :: ts) = true := by
  induction before with
  | nil => rfl
  | cons t before ih =>
      rw [List.cons_append]
      unfold hasStrayElse
      split
      · rename_i hnil
        simp at hnil
      · rfl
      · rename_i hcons
        obtain ⟨-, rfl⟩ := List.cons.inj hcons
        exact ih

end Lua

namespace Normalize

variable {ts : List Token} {t u v new rest : Text}

theorem Edits.replaceAll_self {rule : Rule} (h : Edits rule)
    (hself : ∀ u v new rest, t = u ++ v → rule u.getLast? v = some (new, rest) → v = new ++ rest) :
    t.replaceAll rule = t := by
  refine Text.replaceFrom_self h.advances fun u v new rest ht hrule => ?_
  rw [← List.reverse_reverse u, Text.lastOr_reverse, List.head?_reverse] at hrule
  exact hself u v new rest ht hrule

theorem Edits.replaceAll_none {rule : Rule} (h : Edits rule)
    (hnone : ∀ u v, t = u ++ v → rule u.getLast? v = none) : t.replaceAll rule = t := by
  refine h.replaceAll_self fun u v new rest ht hrule => ?_
  rw [hnone u v ht] at hrule
  simp at hrule

/-- A head without a colon after its group is put back. -/
private theorem colonHead_groupless (hphrase : Phrase ts) (hspells : Spells ts (u ++ v))
    (hgroups : ∀ tok ∈ afterGroups ts, tok.isColon = false)
    (h : colonHead u.getLast? v = some (new, rest)) : v = new ++ rest := by
  obtain ⟨hbegin, keyword, b, hkey, hb, ⟨-, hv, -⟩ | ⟨condition, b', hcondition, hb', hv, -⟩⟩ :=
    colonHead_eq_some h
  · exact hv
  · exfalso
    have hread : BlockHead.read? u.getLast? v =
        some ⟨keyword, condition ++ ')' :: (b' ++ ':' :: rest)⟩ :=
      BlockHead.read?_eq_some.mpr ⟨hbegin, hkey, b, hb, by rw [hv]; simp⟩
    obtain ⟨condition', after, tok, rest', hsplit, hafter, hmem, hkind⟩ :=
      exists_group hphrase hspells hread
    rw [Text.splitGroup?_balanced (by decide) hcondition] at hsplit
    obtain ⟨-, rfl⟩ := Prod.mk.inj (Option.some.inj hsplit)
    obtain ⟨tok', rest'', hcons, hcolon⟩ := (hafter.trim hb').colon
    obtain ⟨rfl, -⟩ := List.cons.inj hcons
    rcases hcolon with rfl | rfl
    · have hnone := hgroups _ hmem
      simp [Token.isColon] at hnone
    · rcases hkind with hopens | hcontinues
      · simp [Token.opensBlock] at hopens
      · exact absurd hcontinues (by decide)

private theorem colonElse_none (hphrase : Phrase ts) (hspells : Spells ts (u ++ v))
    (helse : ∀ tok ∈ afterElse ts, tok.isLabel = false) : colonElse u.getLast? v = none := by
  rw [Option.eq_none_iff_forall_ne_some]
  rintro ⟨new, rest⟩ h
  obtain ⟨hbegin, ⟨b, hb, rfl⟩, -⟩ := colonElse_eq_some.mp h
  have hstops : Stops (b ++ ':' :: rest) := stops_blank_append hb (by rintro c ⟨⟩; decide)
  obtain ⟨ts₁, ts₂, rfl, -, h₂⟩ := hspells.cut_word (by decide) hbegin hstops
  obtain ⟨tok, ts₃, rfl, hcolon⟩ := (h₂.trim hb).colon
  obtain ⟨tok', ts₄, hcons, hne⟩ := hphrase.headed ts₁ .else (tok :: ts₃) rfl
  obtain ⟨rfl, -⟩ := List.cons.inj hcons
  obtain rfl := hcolon.resolve_left hne
  have hlabel := helse _ (mem_afterElse ts₁ _ ts₃)
  simp [Token.isLabel] at hlabel

private theorem statementElse_none (hbody : Lua.Body ts) (hspells : Spells ts (u ++ v))
    (hstray : hasStrayElse ts = false) : statementElse u.getLast? v = none := by
  rw [Option.eq_none_iff_forall_ne_some]
  rintro ⟨new, rest⟩ h
  obtain ⟨p, lead, b, stop, hp, hlead, hb, hstop, rfl, -⟩ := statementElse_eq_some h
  have hstops : Stops (b ++ (stop ++ rest)) := by
    refine stops_blank_append hb ?_
    rcases hstop with ⟨rfl, rfl⟩ | rfl
    · rintro c ⟨⟩
    · rintro c ⟨⟩
      decide
  -- what an `else` after white space begins
  have begun {ts : List Token} (h : Spells ts (lead ++ ("else".toList ++ b ++ (stop ++ rest)))) :
      ∃ ts', ts = .word .else :: ts' ∧ Spells ts' (stop ++ rest) := by
    have hword := h.trim hlead
    rw [List.append_assoc] at hword
    obtain ⟨ts₁, ts₂, rfl, h₁, h₂⟩ :=
      Spells.cut_word (u := []) (k := "else".toList) (by decide) rfl hstops hword
    obtain rfl := h₁.eq_nil Text.blank_nil
    exact ⟨ts₂, rfl, h₂.trim hb⟩
  rcases hp with ⟨rfl, hfirst⟩ | rfl
  · obtain rfl := List.getLast?_eq_none_iff.mp hfirst
    obtain ⟨ts', rfl, -⟩ := begun hspells
    exact (hbody.begins _ rfl).2 rfl
  · obtain ⟨ts₁, ts₂, rfl, -, h₂⟩ := hspells.cut_semicolon
    obtain ⟨ts₃, rfl, h₃⟩ := begun h₂
    rcases hstop with ⟨rfl, rfl⟩ | rfl
    · obtain rfl := h₃.eq_nil Text.blank_nil
      obtain ⟨tok, more, hcons, -⟩ :=
        hbody.phrase.headed (ts₁ ++ [.mark .semicolon]) .else [] (by simp)
      simp at hcons
    · obtain ⟨ts₄, rfl, -⟩ := h₃.semicolon
      rw [hasStrayElse_append] at hstray
      simp at hstray

private theorem blockEnd_none (hphrase : Phrase ts) (hspells : Spells ts (u ++ v))
    (hends : ∀ tok ∈ ts, tok.isBlockEnd = false) : blockEnd u.getLast? v = none := by
  rw [Option.eq_none_iff_forall_ne_some]
  rintro ⟨new, rest⟩ h
  obtain ⟨hbegin, -, word, hword, space, b, stop, hb, -, hspace, rfl, hended⟩ := blockEnd_eq_some h
  rcases hspace with rfl | ⟨rfl, rfl⟩
  · have hname : ∀ word ∈ ["if", "for", "while"], Keyword ("end".toList ++ word.toList) ∧
        (Token.ofName ("end".toList ++ word.toList)).isBlockEnd = true := by decide
    rw [List.nil_append, List.append_assoc] at hspells
    obtain ⟨ts₁, ts₂, rfl, -, -⟩ :=
      hspells.cut_word (hname word hword).1 hbegin (stops_of_ended hended)
    have hend := hends (Token.ofName ("end".toList ++ word.toList)) (by simp)
    rw [(hname word hword).2] at hend
    simp at hend
  · -- the second word would have a condition or a name after it
    have hsplit : u ++ ("end".toList ++ ([' '] ++ word.toList) ++ (b ++ [';']) ++ rest) =
        u ++ ("end".toList ++ (' ' :: (word.toList ++ (b ++ ';' :: rest)))) := by simp
    have hstops : Stops (b ++ ';' :: rest) := stops_blank_append hb (by rintro c ⟨⟩; decide)
    have hname : ∀ word ∈ ["if", "for", "while"], Keyword word.toList := by decide
    rw [hsplit] at hspells
    obtain ⟨ts₁, ts₂, rfl, -, h₂⟩ := hspells.cut_word (by decide) hbegin (stops_of_blank rfl _)
    obtain ⟨ts₃, ts₄, rfl, -, h₄⟩ :=
      Spells.cut_word (u := [' ']) (hname word hword) (by decide) hstops h₂
    obtain ⟨ts₅, rfl, -⟩ := (h₄.trim hb).semicolon
    have heads {w : Word} (hw : Token.ofName word.toList = .word w) :
        Heads w (.mark .semicolon :: ts₅) :=
      hphrase.headed (ts₁ ++ .ofName "end".toList :: ts₃) w _ (by rw [← hw]; simp)
    have nocondition (h : ∃ c tok rest, .mark .semicolon :: ts₅ = c ++ tok :: rest ∧
        Condition c ∧ tok.opensBlock = true) : False := by
      obtain ⟨c, tok, rest, hpost, hcondition, -⟩ := h
      obtain ⟨first, hfirst, hstop⟩ := hcondition.begins
      obtain ⟨c, rfl⟩ := List.head?_eq_some_iff.mp hfirst
      obtain ⟨rfl, -⟩ := List.cons.inj hpost
      simp [Token.isStop] at hstop
    simp only [List.mem_cons, List.not_mem_nil, or_false] at hword
    rcases hword with rfl | rfl | rfl
    · exact nocondition (heads rfl)
    · obtain ⟨id, rest, hcount⟩ := heads rfl
      simp at hcount
    · exact nocondition (heads rfl)

/-- Where no method is called on the group that a condition begins with and no label stands right after
an `else`, the rules for blocks leave the mask of a source as it is that the fragment language takes. It
has no `else` between semicolons, and no name that ends a block in the other form. -/
theorem toBraces_native {room : Nat} {body : Text} {b : Block}
    (hvalid : Parse.chunk room (Token.lex body) = .ok b) (hm : Maskable (tiles body))
    (hgroups : ∀ t ∈ afterGroups (tokens body), t.isColon = false)
    (helse : ∀ t ∈ afterElse (tokens body), t.isLabel = false)
    (hstray : hasStrayElse (tokens body) = false)
    (hends : ∀ t ∈ tokens body, t.isBlockEnd = false) :
    toBraces (Mask.ofText body).text = (Mask.ofText body).text := by
  obtain ⟨hbody, hspells⟩ := body_spells hvalid hm
  have hheads : (Mask.ofText body).text.replaceAll colonHead = (Mask.ofText body).text :=
    edits_colonHead.replaceAll_self fun u v new rest ht h =>
      colonHead_groupless hbody.phrase (ht ▸ hspells) hgroups h
  have hbranches : (Mask.ofText body).text.replaceAll colonElse = (Mask.ofText body).text :=
    edits_colonElse.replaceAll_none fun u v ht =>
      colonElse_none hbody.phrase (ht ▸ hspells) helse
  have hstatements :
      (Mask.ofText body).text.replaceAll statementElse = (Mask.ofText body).text :=
    edits_statementElse.replaceAll_none fun u v ht =>
      statementElse_none hbody (ht ▸ hspells) hstray
  have hlast : (Mask.ofText body).text.replaceAll blockEnd = (Mask.ofText body).text :=
    edits_blockEnd.replaceAll_none fun u v ht =>
      blockEnd_none hbody.phrase (ht ▸ hspells) hends
  rw [toBraces, hheads, hbranches, hstatements, hlast]

/-- A method call and a label, both with something between them and the word before, and a condition
that goes on after its group. -/
private def nativeLabels : Text :=
  "if (a) and b:m() then goto l else c() ::l:: x = \"else:\" -- endif\nend".toList

theorem toBraces_native_labels :
    (∃ b, Parse.chunk 9 (Token.lex nativeLabels) = .ok b) ∧
      toBraces (Mask.ofText nativeLabels).text = (Mask.ofText nativeLabels).text := by
  have hvalid : (Parse.chunk 9 (Token.lex nativeLabels)).isOk = true := by decide +kernel
  cases hb : Parse.chunk 9 (Token.lex nativeLabels) with
  | error refusal =>
      rw [hb] at hvalid
      cases hvalid
  | ok b =>
      refine ⟨⟨b, rfl⟩, toBraces_native hb ?_ ?_ ?_ ?_ ?_⟩
      · decide +kernel
      · decide +kernel
      · decide +kernel
      · decide +kernel
      · decide +kernel

/-- A method called on the group that a condition begins with, as it may be. -/
private def callsMethod : Text := "if (x):m() then y() end".toList

/-- The colon of the method becomes a brace. -/
theorem toBraces_breaks_native :
    (Parse.chunk 9 (Token.lex callsMethod)).isOk = true ∧ Maskable (tiles callsMethod) ∧
      hasStrayElse (tokens callsMethod) = false ∧
      (∀ t ∈ tokens callsMethod, t.isBlockEnd = false) ∧
      toBraces (Mask.ofText callsMethod).text = "if (x) \x7bm() then y() end".toList := by
  refine ⟨by decide +kernel, by decide +kernel, by decide +kernel, by decide +kernel, ?_⟩
  decide +kernel

example : toBraces (Mask.ofText "if a then b() else ::l:: c() end".toList).text =
    "if a then b() \x7d else \x7b:l:: c() end".toList := by
  decide +kernel

end Normalize

end Stencil
