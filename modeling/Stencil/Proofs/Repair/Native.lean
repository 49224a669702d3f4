import Stencil.Engine.Render
import Stencil.Proofs.Lua.Heads
import Stencil.Proofs.Repair.Steps
/-!
# Repair of native code

A source that the fragment language takes has a `then` or a `do` after every condition. Repair looks for
it after the group that the condition begins with, so it leaves a source as it is whose conditions end
with that group. One that goes on after the group gets a brace in its middle.
-/
namespace Stencil

open Lua

namespace Lua

/-- The tokens that repair takes for the beginning of a block. -/
def Token.beginsBlock : Token → Bool
  | .word .then | .word .do | .mark .openBrace => true
  | _ => false

end Lua

namespace Repair

variable {tok : Token} {ts : List Token} {t : Text}

/-- A word of which nothing goes on into the rest opens a block. -/
private theorem opensBlock_word {word : String} (hword : word ∈ ["then", "do"]) {b v : Text}
    (hb : Text.Blank b) (hv : v.head?.any isNameChar = false) :
    opensBlock (b ++ (word.toList ++ v)) = true := by
  have hflush : Text.Flush (word.toList ++ v) := by
    simp only [List.mem_cons, List.not_mem_nil, or_false] at hword
    rcases hword with rfl | rfl <;> exact Text.flush_cons.mpr (by decide)
  rw [opensBlock, Text.trimStart_append hb hflush]
  refine Bool.or_eq_true_iff.mpr (Or.inr (List.any_eq_true.mpr ⟨word, hword, ?_⟩))
  rw [Text.after?_append, Option.any_some, hv]
  rfl

theorem opensBlock_of_spells (h : Spells (tok :: ts) t) (htok : tok.beginsBlock = true) :
    opensBlock t = true := by
  obtain ⟨b, w, v, rfl, hb, hw, hparted, hrest⟩ := h.first
  have word {k : String} (hk : k ∈ ["then", "do"]) (hname : Keyword k.toList) (hw : w = k.toList) :
      opensBlock (b ++ (w ++ v)) = true := by
    subst hw
    refine opensBlock_word hk hb ?_
    cases v with
    | nil => rfl
    | cons d v =>
        obtain ⟨c, hc⟩ := Option.isSome_iff_exists.mp (List.getLast?_isSome.mpr (Written.ne_nil ‹_›))
        have hlast := hname.name.continues c (List.mem_of_getLast? hc)
        rw [List.head?_cons, Option.any_some, hrest.isNameChar d (by simp), hparted c d hc rfl hlast]
  unfold Token.beginsBlock at htok
  split at htok
  · have hall : ∀ e ∈ Word.table, e.2 = .then → e.1 = "then" := by decide
    have hthen := hall _ (written_word hw) rfl
    exact word (k := "then") (by simp) (by decide) (String.ofList_injective hthen)
  · have hall : ∀ e ∈ Word.table, e.2 = .do → e.1 = "do" := by decide
    have hdo := hall _ (written_word hw) rfl
    exact word (k := "do") (by simp) (by decide) (String.ofList_injective hdo)
  · obtain rfl := written_openBrace hw
    have hflush : Text.Flush (['\x7b'] ++ v) := Text.flush_cons.mpr (by decide)
    rw [opensBlock, Text.trimStart_append hb hflush]
    rfl
  · simp at htok

/-- Where what follows every group begins a block, repair finds nothing. -/
theorem repairFrom_of_spells (m : Mask) (hphrase : Phrase ts) (hspells : Spells ts t)
    (hgroups : ∀ tok ∈ afterGroups ts, tok.beginsBlock = true) {before rest : Text}
    (ht : before.reverse ++ rest = t) : repairFrom m before rest = (t, []) := by
  have group {before rest : Text} {head : BlockHead} (ht : before.reverse ++ rest = t)
      (hread : BlockHead.read? before.head? rest = some head) : ∃ condition after,
        Text.splitGroup? '(' ')' 0 head.afterOpen = some (condition, after) ∧
          opensBlock after = true := by
    rw [← List.getLast?_reverse] at hread
    obtain ⟨condition, after, tok, rest', hsplit, hafter, htok, -⟩ :=
      exists_group hphrase (ht ▸ hspells) hread
    exact ⟨condition, after, hsplit, opensBlock_of_spells hafter (hgroups tok htok)⟩
  revert ht
  refine repairFrom_induct (motive := fun before rest => before.reverse ++ rest = t →
    repairFrom m before rest = (t, [])) ?_ ?_ ?_ ?_ ?_ before rest
  · intro before ht
    rw [repairFrom, ← ht, List.append_nil]
  · intro before c cs hnone ih ht
    rw [repairFrom_pass hnone]
    exact ih (by rw [← ht]; simp)
  · intro before rest head hread hstop ht
    obtain ⟨condition, after, hsplit, -⟩ := group ht hread
    rw [hstop] at hsplit
    simp at hsplit
  · intro before written after head condition _ hread hsplit hopens ih ht
    rw [repairFrom_head hread hsplit, if_pos hopens]
    exact ih (by rw [← ht]; simp)
  · intro before written after head condition _ hread hsplit hnot _ ht
    obtain ⟨condition', after', hsplit', hopens⟩ := group ht hread
    rw [hsplit] at hsplit'
    obtain ⟨-, rfl⟩ := Prod.mk.inj (Option.some.inj hsplit')
    rw [hnot] at hopens
    simp at hopens

end Repair

/-- Where every condition that begins with a group ends with it, repair finds nothing in a source that
the fragment language takes. So a run of it that fails is not followed by another. -/
theorem repair_native {room : Nat} {body : Text} {b : Block}
    (hvalid : Parse.chunk room (Token.lex body) = .ok b) (hm : Maskable (tiles body))
    (hgroups : ∀ t ∈ afterGroups (tokens body), t.beginsBlock = true) :
    repair body = ((Mask.ofText body).restore (Mask.ofText body).text, []) ∧
      ∀ {I : Interpreter} (task : Engine.Task) (log : Collector) (e : Engine I),
        Engine.attemptRepairing task body log e =
          (Engine.attempt task.id task.label body e).bind fun e first => .done e (first, log) := by
  obtain ⟨hbody, hspells⟩ := body_spells hvalid hm
  have hrepair : repair body = ((Mask.ofText body).restore (Mask.ofText body).text, []) := by
    simp only [repair]
    rw [Repair.repairFrom_of_spells _ hbody.phrase hspells hgroups rfl]
  refine ⟨hrepair, fun {I} task log e => ?_⟩
  rw [Engine.attemptRepairing, hrepair]
  simp

/-- A loop and a call with a table after its function, with a comment and a string. -/
private def nativeLoop : Text :=
  "while (x) do y = \"if (\" --[[ z ]] end\nif (f)\x7b\x7d then g() end".toList

theorem repair_native_loop :
    (∃ b, Parse.chunk 9 (Token.lex nativeLoop) = .ok b) ∧ (repair nativeLoop).2 = [] := by
  have hvalid : (Parse.chunk 9 (Token.lex nativeLoop)).isOk = true := by decide +kernel
  cases hb : Parse.chunk 9 (Token.lex nativeLoop) with
  | error refusal =>
      rw [hb] at hvalid
      cases hvalid
  | ok b =>
      refine ⟨⟨b, rfl⟩, congrArg (·.2) (repair_native hb ?_ ?_).1⟩
      · decide +kernel
      · decide +kernel

/-- A condition that goes on after its first group, as it may. -/
private def goesOn : Text := "if (a) and (b) then print(1) end".toList

/-- Repair puts a brace into the condition. -/
theorem repair_breaks_native :
    (Parse.chunk 9 (Token.lex goesOn)).isOk = true ∧ Maskable (tiles goesOn) ∧
      (repair goesOn).2.head? = some ⟨"if (a)".toList, true⟩ := by
  refine ⟨by decide +kernel, by decide +kernel, ?_⟩
  have hmask : Mask.ofText goesOn = ⟨"if (a)".toList ++ " and (b) then print(1) end".toList, []⟩ := by
    decide +kernel
  have hread : BlockHead.read? none ("if (a)".toList ++ " and (b) then print(1) end".toList) =
      some ⟨"if".toList, "a) and (b) then print(1) end".toList⟩ := by decide +kernel
  have hgroup : Text.splitGroup? '(' ')' 0 "a) and (b) then print(1) end".toList =
      some (['a'], " and (b) then print(1) end".toList) := by decide +kernel
  have hnot : Repair.opensBlock " and (b) then print(1) end".toList = false := by decide +kernel
  have hbefore : ([] : Text).head? = none := rfl
  simp only [repair, hmask]
  rw [Repair.repairFrom_head (hbefore ▸ hread) hgroup, if_neg (hnot ▸ Bool.false_ne_true)]
  decide +kernel

end Stencil
