import Mathlib.Logic.Relation
import Mathlib.Order.Interval.Set.UnorderedInterval
import Stencil.Proofs.Repair.Again
/-!
# The balance of braces under repair

Repair goes from head to head, and each turn moves the balance of the braces towards zero and never
past it. An inserted brace counts one, the brace that closes the block before an `else if` takes one
off, and where the text then has a brace too many another one is closed.
-/
namespace Stencil

/-- The character of a tile of code. Literals and comments have none. -/
def Tile.char? : Tile → Option Char
  | plain c => some c
  | _ => none

namespace Repair

open BlockHead

/-- A place in a text under repair, what stands before it being read backwards. -/
structure Place where
  before : Text
  ahead : Text

def Place.text (p : Place) : Text := p.before.reverse ++ p.ahead

/-- One turn of a repair: on to the next head, which opens its block or gets a brace. -/
inductive Turn : Place → Place → Prop
  | pass {before cs : Text} {c : Char} {q : Place} : read? before.head? (c :: cs) = none →
      Turn ⟨c :: before, cs⟩ q → Turn ⟨before, c :: cs⟩ q
  | opens {before written after condition : Text} {head : BlockHead} :
      read? before.head? (written ++ after) = some head →
      Text.splitGroup? '(' ')' 0 head.afterOpen = some (condition, after) →
      opensBlock after = true → Turn ⟨before, written ++ after⟩ ⟨written.reverse ++ before, after⟩
  | puts {before written after condition : Text} {head : BlockHead} :
      read? before.head? (written ++ after) = some head →
      Text.splitGroup? '(' ')' 0 head.afterOpen = some (condition, after) →
      opensBlock after = false → Turn ⟨before, written ++ after⟩ ⟨opened head before written,
        closeIf (staysOpen (opened head before written) after) after⟩

/-- A number of turns, one after the other. -/
abbrev Turns : Place → Place → Prop := Relation.ReflTransGen Turn

variable {before t : Text} {p q : Place}

/-! ## Repair makes its turns -/

private theorem not_turn_nil : ¬ Turn ⟨before, []⟩ q := by
  intro h
  generalize hahead : ([] : Text) = ahead at h
  have hnone {head : BlockHead} (hread : read? before.head? ahead = some head) : False := by
    have hlength := length_afterOpen hread
    rw [← hahead, List.length_nil] at hlength
    omega
  cases h with
  | pass _ _ => exact absurd hahead (by simp)
  | opens hread _ _ => exact hnone hread
  | puts hread _ _ => exact hnone hread

/-- At a head there is a turn only if its group is closed. -/
private theorem Turn.at_head {head : BlockHead} (h : Turn ⟨before, t⟩ q)
    (hread : read? before.head? t = some head) :
    ∃ group, Text.splitGroup? '(' ')' 0 head.afterOpen = some group := by
  cases h with
  | pass hnone _ =>
      rw [hnone] at hread
      exact absurd hread (by simp)
  | opens hread' hgroup _ =>
      rw [hread', Option.some.injEq] at hread
      exact ⟨_, hread ▸ hgroup⟩
  | puts hread' hgroup _ =>
      rw [hread', Option.some.injEq] at hread
      exact ⟨_, hread ▸ hgroup⟩

/-- Where no head begins a turn goes on past the character. -/
private theorem Turn.of_pass {c : Char} {cs : Text} (h : Turn ⟨before, c :: cs⟩ q)
    (hread : read? before.head? (c :: cs) = none) : Turn ⟨c :: before, cs⟩ q := by
  generalize hahead : c :: cs = ahead at h hread
  cases h with
  | pass _ hnext =>
      obtain ⟨rfl, rfl⟩ := List.cons.inj hahead
      exact hnext
  | opens hread' _ _ => exact absurd (hread.symm.trans hread') (by simp)
  | puts hread' _ _ => exact absurd (hread.symm.trans hread') (by simp)

/-- Repair takes turns as long as there is one to take, and what it then stands in is what it
writes. -/
theorem exists_turns (m : Mask) (before t : Text) :
    ∃ last, Turns ⟨before, t⟩ last ∧ (∀ q, ¬ Turn last q) ∧
      (repairFrom m before t).1 = last.text := by
  refine repairFrom_induct (motive := fun before t => ∃ last, Turns ⟨before, t⟩ last ∧
    (∀ q, ¬ Turn last q) ∧ (repairFrom m before t).1 = last.text) ?_ ?_ ?_ ?_ ?_ before t
  · intro before
    exact ⟨⟨before, []⟩, .refl, fun _ => not_turn_nil, by rw [quiet_nil]; rfl⟩
  · intro before c cs hread ih
    obtain ⟨last, hturns, hhalts, htext⟩ := ih
    rw [repairFrom_pass hread, htext]
    rcases hturns.cases_head with rfl | ⟨next, hturn, hmore⟩
    · refine ⟨⟨before, c :: cs⟩, .refl, ?_, by simp [Place.text]⟩
      intro q hq
      exact hhalts q (hq.of_pass hread)
    · exact ⟨last, .head (.pass hread hturn) hmore, hhalts, rfl⟩
  · intro before t head hread hgroup
    refine ⟨⟨before, t⟩, .refl, ?_, by rw [repairFrom_stop hread hgroup]; rfl⟩
    intro q hq
    obtain ⟨group, hsome⟩ := hq.at_head hread
    rw [hgroup] at hsome
    exact absurd hsome (by simp)
  · intro before written after head condition _ hread hgroup hopens ih
    obtain ⟨last, hturns, hhalts, htext⟩ := ih
    rw [repairFrom_head hread hgroup, if_pos hopens]
    exact ⟨last, .head (.opens hread hgroup hopens) hturns, hhalts, htext⟩
  · intro before written after head condition _ hread hgroup hopens ih
    obtain ⟨last, hturns, hhalts, htext⟩ := ih
    rw [repairFrom_head hread hgroup, if_neg (by simp [hopens])]
    exact ⟨last, .head (.puts hread hgroup hopens) hturns, hhalts, htext⟩

/-! ## What a turn does to the balance -/

theorem balance_closeStatement (depth : Int) (t : Text) :
    balance (closeStatement depth t) = balance t - 1 := by
  induction t generalizing depth with
  | nil => rfl
  | cons c cs ih =>
      have hcons (t : Text) : balance (c :: t) = balance [c] + balance t := balance_append [c] t
      have hclosing : balance ('}' :: cs) = balance cs - 1 := by
        rw [balance]
        simp
        omega
      rw [closeStatement]
      split
      · rw [hcons, hclosing, hcons cs]
        omega
      · rw [hcons, ih, hcons cs]
        omega

theorem balance_closeIf (wanted : Bool) (t : Text) :
    balance (closeIf wanted t) = balance t - if wanted then 1 else 0 := by
  cases wanted with
  | true => exact balance_closeStatement 0 t
  | false => simp [closeIf]

/-- A brace is put in after a head, and one before it that closes a block takes its weight away. -/
theorem balance_opened (head : BlockHead) (before written after : Text) :
    balance ((opened head before written).reverse ++ after) =
      balance (before.reverse ++ (written ++ after)) + balance (lead head before) + 1 := by
  have hbrace : balance ['{'] = 1 := by decide
  rw [opened]
  simp only [List.reverse_cons, List.reverse_append, List.reverse_reverse, balance_append, hbrace]
  omega

/-- A turn moves the balance towards zero and not past it. -/
theorem Turn.balance_mem (h : Turn p q) : balance q.text ∈ Set.uIcc 0 (balance p.text) := by
  induction h with
  | @pass before cs c q _ _ ih =>
      have htext : Place.text ⟨c :: before, cs⟩ = Place.text ⟨before, c :: cs⟩ := by
        simp [Place.text]
      rw [htext] at ih
      exact ih
  | @opens before written after condition head _ _ _ =>
      have htext : Place.text ⟨written.reverse ++ before, after⟩ =
          Place.text ⟨before, written ++ after⟩ := by
        simp [Place.text]
      rw [htext]
      exact Set.right_mem_uIcc
  | @puts before written after condition head _ _ _ =>
      have hopened := balance_opened head before written after
      have hlead : balance (lead head before) = 0 ∨ balance (lead head before) = -1 := by
        obtain h | ⟨h, -⟩ := lead_eq head before <;> rw [h]
        · exact Or.inl rfl
        · exact Or.inr (by decide)
      have hclosed : balance (Place.text ⟨opened head before written,
          closeIf (staysOpen (opened head before written) after) after⟩) =
          balance ((opened head before written).reverse ++ after) -
            if 0 < balance ((opened head before written).reverse ++ after) then 1 else 0 := by
        rw [Place.text, balance_append, balance_closeIf, balance_append]
        simp only [staysOpen, balance_append, decide_eq_true_eq]
        omega
      have hbefore : Place.text ⟨before, written ++ after⟩ = before.reverse ++ (written ++ after) :=
        rfl
      rw [hclosed, hopened, hbefore, Set.mem_uIcc]
      split <;> omega

theorem Turns.balance_mem (h : Turns p q) : balance q.text ∈ Set.uIcc 0 (balance p.text) := by
  induction h with
  | refl => exact Set.right_mem_uIcc
  | tail _ hturn ih =>
      have hlast := hturn.balance_mem
      rw [Set.mem_uIcc] at ih hlast ⊢
      omega

/-! ## The balance of a body -/

private theorem balance_of_not_mem (hopen : '{' ∉ t) (hclose : '}' ∉ t) : balance t = 0 := by
  induction t with
  | nil => rfl
  | cons c cs ih =>
      rw [List.mem_cons, not_or] at hopen hclose
      rw [balance, if_neg (Ne.symm hopen.1), if_neg (Ne.symm hclose.1), ih hopen.2 hclose.2]
      rfl

/-- The braces of a masked text are those of the code. -/
theorem balance_textFrom (i : Nat) (ts : List Tile) :
    balance (Mask.textFrom i ts) = balance (ts.filterMap Tile.char?) := by
  have hmark (i : Nat) : balance (Mask.placeholder i) = 0 := by
    have hout {c : Char} (h : Symbol.isMarkChar c = false) : c ∉ Mask.placeholder i := by
      intro hmem
      rw [Symbol.isMarkChar_placeholder hmem] at h
      exact absurd h (by simp)
    exact balance_of_not_mem (hout (by decide)) (hout (by decide))
  induction ts generalizing i with
  | nil => rfl
  | cons x ts ih =>
      cases x with
      | plain c =>
          have hchar : (Tile.plain c :: ts).filterMap Tile.char? = c :: ts.filterMap Tile.char? := rfl
          rw [Mask.textFrom, hchar, balance, balance, ih]
      | literal l =>
          rw [Mask.textFrom, balance_append, hmark, ih, Int.zero_add]
          rfl
      | comment u => exact ih i
      | spaced u =>
          have hblank : balance (' ' :: Mask.textFrom i ts) = balance (Mask.textFrom i ts) := by
            rw [balance]
            simp
          rw [Mask.textFrom, hblank, ih]
          rfl

end Repair

end Stencil
