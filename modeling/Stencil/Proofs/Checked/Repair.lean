import Stencil.Proofs.Checked.Heads
import Stencil.Proofs.Checked.Mask
import Stencil.Proofs.Repair.Steps
/-!
# Repair by offsets

Repair puts braces into the text that it goes through, so the offsets that it has found before move
with what it puts in. Here the text is kept as a whole and every head, condition and brace is an
offset of it; each of them lies between two characters of the text as it stands by then.
-/
namespace Stencil.Checked

open Text Repair

/-- Where the first statement ends that is not inside of braces, from a depth on. -/
def endFrom : Int → List (Nat × Char) → Option Nat
  | _, [] => none
  | depth, (offset, c) :: more =>
    if c = ';' ∧ depth = 0 then some (offset + 1) else endFrom (depth + balance [c]) more

/-- Put a closing brace in after the first statement from an offset on, or at the end. -/
def closeBlock? (t : Text) (offset : Nat) : Option Text :=
  (onFrom? t offset).bind fun ahead =>
    insert? t ((endFrom 0 (offsetsFrom offset ahead)).getD t.byteLength) ['}']

/-- Whether a head that begins at an offset continues a block that is not closed before it. -/
def leavesOpen? (t : Text) (head : FoundHead) : Option Bool :=
  if head.isElse then (upTo? t head.start).map fun front => (trimEnd front).getLast? != some '}'
  else some false

/-- Put a brace in at an offset after a head, and close the block before the head where that is
wanted: the text, and the offset after the brace. -/
def openBlock? (t : Text) (head : FoundHead) (after : Nat) : Option (Text × Nat) :=
  (leavesOpen? t head).bind fun leaves =>
    if leaves then
      (insert? t head.start "\x7d ".toList).bind fun t =>
        (insert? t (after + 2) ['{']).map fun t => (t, after + 3)
    else (insert? t after ['{']).map fun t => (t, after + 1)

/-- A text that is repaired up to an offset, and the repairs so far. -/
structure Repairing where
  text : Text
  offset : Nat
  repairs : List Repair

/-- Put the braces in that are missing after a head. -/
def Repairing.put? (m : Mask) (s : Repairing) (head : FoundHead) (after : Nat) : Option Repairing :=
  (between? s.text head.start after).bind fun written =>
    (openBlock? s.text head after).bind fun (text, offset) =>
      let closed : Bool := 0 < balance text
      let further := s.repairs ++ [⟨m.restore written, closed⟩]
      if closed then (closeBlock? text offset).map fun text => ⟨text, offset, further⟩
      else some ⟨text, offset, further⟩

/-- Go past a head and its group, or into the block where the braces are put in. -/
def Repairing.past? (m : Mask) (s : Repairing) (head : FoundHead) (after : Nat) : Option Repairing :=
  (onFrom? s.text after).bind fun ahead =>
    if opensBlock ahead then some { s with offset := after } else s.put? m head after

/-- A turn of repair: up to the next head, and past it. -/
def repairTurn? (m : Mask) (s : Repairing) : Option (Turn Repairing (Text × List Repair)) :=
  (findHead? s.text s.offset).bind fun found =>
    match found with
    | none => some (.leave (s.text, s.repairs))
    | some head =>
      (less? head.stop 1).bind fun opening => (matchingClose? s.text opening).bind fun closing =>
        match closing with
        | none => some (.leave (s.text, s.repairs))
        | some closing => (s.past? m head (closing + 1)).map .next

/-- A body with its missing braces put in by offsets, and what was put in. -/
def repair? (body : Text) : Option (Text × List Repair) :=
  (mask? body).bind fun m =>
    (loop? (repairTurn? m) (m.text.byteLength + 1) ⟨m.text, 0, []⟩).map fun (text, repairs) =>
      (m.restore text, repairs)

/-! ## What is put in -/

private theorem endFrom_split (depth : Int) (offset : Nat) (t : Text) : ∃ s r, t = s ++ r ∧
    closeStatement depth t = s ++ '}' :: r ∧
      (endFrom depth (offsetsFrom offset t)).getD (offset + t.byteLength) = offset + s.byteLength := by
  induction t generalizing depth offset with
  | nil => exact ⟨[], [], rfl, rfl, rfl⟩
  | cons c cs ih =>
      rw [closeStatement, offsetsFrom, endFrom]
      by_cases hend : c = ';' ∧ depth = 0
      · have hone : ';'.utf8Size = 1 := rfl
        rw [if_pos hend, if_pos hend, hend.1]
        exact ⟨[';'], cs, rfl, rfl, by simp [hone]⟩
      · rw [if_neg hend, if_neg hend]
        obtain ⟨s, r, rfl, hclose, hoffset⟩ := ih (depth + balance [c]) (offset + c.utf8Size)
        refine ⟨c :: s, r, rfl, by rw [hclose]; rfl, ?_⟩
        rw [byteLength_cons, byteLength_cons, ← Nat.add_assoc, ← Nat.add_assoc]
        exact hoffset

/-- The closing brace is put in where the model of a statement puts it. -/
theorem closeBlock?_eq_some {t u v : Text} {offset : Nat} (h : t = u ++ v)
    (hu : u.byteLength = offset) : closeBlock? t offset = some (u ++ closeStatement 0 v) := by
  obtain ⟨s, r, rfl, hclose, hoffset⟩ := endFrom_split 0 offset v
  have hlength : t.byteLength = offset + byteLength (s ++ r) := by rw [h, byteLength_append, hu]
  have hsplit : t = u ++ s ++ r := by rw [h, List.append_assoc]
  rw [closeBlock?, onFrom?_eq_some h hu, Option.bind_some, hlength, hoffset,
    insert?_eq_some hsplit (by rw [byteLength_append, hu]), hclose]
  simp

private theorem byteLength_closeIf_le (wanted : Bool) (t : Text) :
    byteLength (closeIf wanted t) ≤ t.byteLength + 1 := by
  cases wanted with
  | true =>
      obtain ⟨s, r, rfl, hclose, -⟩ := endFrom_split 0 0 t
      have hone : '}'.utf8Size = 1 := rfl
      rw [closeIf, if_pos rfl, hclose]
      simp [hone]
      omega
  | false => exact Nat.le_succ _

section Put

variable {t w written after : Text} {head : BlockHead} {found : FoundHead}

private theorem leavesOpen?_eq_some (h : t = w ++ (written ++ after))
    (hstart : w.byteLength = found.start) (hkeyword : found.keyword = head.keyword) :
    leavesOpen? t found =
      some (head.isElse && (w.reverse.dropWhile isBlank).head? != some '}') := by
  rw [leavesOpen?, FoundHead.isElse, hkeyword, ← BlockHead.isElse]
  cases head.isElse with
  | false => rfl
  | true =>
      have hlast : (trimEnd w).getLast? = (w.reverse.dropWhile isBlank).head? := by
        rw [trimEnd, List.getLast?_reverse]
      rw [if_pos rfl, upTo?_eq_some h hstart, Option.map_some, hlast, Bool.true_and]

/-- The brace after a head, and the one before it, are put in where repair writes them. -/
theorem openBlock?_eq_some (h : t = w ++ (written ++ after)) (hstart : w.byteLength = found.start)
    (hkeyword : found.keyword = head.keyword) :
    openBlock? t found (w.byteLength + written.byteLength) =
      some ((opened head w.reverse written).reverse ++ after,
        byteLength (opened head w.reverse written).reverse) := by
  have hone : '{'.utf8Size = 1 ∧ '}'.utf8Size = 1 ∧ ' '.utf8Size = 1 := ⟨rfl, rfl, rfl⟩
  rw [openBlock?, leavesOpen?_eq_some h hstart hkeyword, Option.bind_some, opened, lead]
  split
  · have hlead : w ++ "\x7d ".toList ++ (written ++ after) =
        w ++ "\x7d ".toList ++ written ++ after := by simp
    rw [insert?_eq_some h hstart, Option.bind_some,
      insert?_eq_some hlead (by simp [hone]; omega), Option.map_some]
    simp [hone]
    omega
  · have hafter : t = w ++ written ++ after := by rw [h, List.append_assoc]
    rw [insert?_eq_some hafter (byteLength_append w written), Option.map_some]
    simp [hone]
    omega

theorem put?_eq_some (m : Mask) {s : Repairing} (h : s.text = w ++ (written ++ after))
    (hstart : w.byteLength = found.start) (hkeyword : found.keyword = head.keyword) :
    s.put? m found (w.byteLength + written.byteLength) =
      some ⟨(opened head w.reverse written).reverse ++
          closeIf (staysOpen (opened head w.reverse written) after) after,
        byteLength (opened head w.reverse written).reverse,
        s.repairs ++ [⟨m.restore written, staysOpen (opened head w.reverse written) after⟩]⟩ := by
  rw [Repairing.put?, between?_eq_some h hstart (by rw [← hstart]), Option.bind_some,
    openBlock?_eq_some h hstart hkeyword, Option.bind_some]
  have hstays : decide (0 < balance ((opened head w.reverse written).reverse ++ after)) =
      staysOpen (opened head w.reverse written) after := rfl
  simp only [hstays]
  cases staysOpen (opened head w.reverse written) after with
  | true =>
      rw [if_pos rfl, closeBlock?_eq_some rfl rfl]
      rfl
  | false => rfl

end Put

/-! ## The walk through the text -/

/-- Repair passes over a stretch in which no head begins. -/
private theorem repairFrom_noHead {m : Mask} {u t ahead : Text}
    (h : NoHead (lastOr none u) t ahead) :
    repairFrom m u.reverse (t ++ ahead) = repairFrom m (u ++ t).reverse ahead := by
  induction t generalizing u with
  | nil => simp
  | cons c t ih =>
      have hc : BlockHead.read? (u.reverse).head? (c :: (t ++ ahead)) = none := by
        rw [← lastOr_reverse, List.reverse_reverse]
        exact h [] c t rfl
      have hrest : NoHead (lastOr none (u ++ [c])) t ahead := by
        rw [lastOr_append]
        exact fun v d w hsplit => h (c :: v) d w (by rw [hsplit]; rfl)
      have hnext := ih hrest
      rw [List.cons_append, repairFrom_pass hc]
      simpa using hnext

/-- The text from the offset on is still to be repaired. -/
def Repairing.Due (m : Mask) (s : Repairing) (result : Text × List Repair) : Prop :=
  ∃ u v, s.text = u ++ v ∧ u.byteLength = s.offset ∧
    result = ((repairFrom m u.reverse v).1, s.repairs ++ (repairFrom m u.reverse v).2)

/-- Past a head and its group the text goes on as repair goes on with it, and less of it is left: a
brace may be put in, but a parenthesis and its partner have been passed. -/
private theorem past?_due (m : Mask) (s : Repairing) (found : FoundHead)
    {w written condition after : Text} {head : BlockHead} (h : s.text = w ++ (written ++ after))
    (hstart : w.byteLength = found.start) (hkeyword : found.keyword = head.keyword)
    (hread : BlockHead.read? w.reverse.head? (written ++ after) = some head)
    (hgroup : splitGroup? '(' ')' 0 head.afterOpen = some (condition, after))
    (hlong : 2 ≤ written.byteLength) :
    ∃ s', s.past? m found (w.byteLength + written.byteLength) = some s' ∧
      s'.text.byteLength - s'.offset < byteLength (written ++ after) ∧
      s'.Due m ((repairFrom m w.reverse (written ++ after)).1,
        s.repairs ++ (repairFrom m w.reverse (written ++ after)).2) := by
  have hsplit : s.text = w ++ written ++ after := by rw [h, List.append_assoc]
  rw [Repairing.past?, onFrom?_eq_some hsplit (byteLength_append w written), Option.bind_some,
    repairFrom_head hread hgroup]
  cases opensBlock after with
  | true =>
      rw [if_pos rfl, if_pos rfl]
      refine ⟨_, rfl, ?_, w ++ written, after, hsplit, byteLength_append w written, by simp⟩
      simp only [hsplit, byteLength_append]
      omega
  | false =>
      have hclose := byteLength_closeIf_le (staysOpen (opened head w.reverse written) after) after
      rw [if_neg (by simp), if_neg (by simp), put?_eq_some m h hstart hkeyword]
      refine ⟨_, rfl, ?_, _, _, rfl, rfl, by simp⟩
      simp only [byteLength_append]
      omega

theorem repairTurn?_cases {m : Mask} {s : Repairing} {result : Text × List Repair}
    (h : s.Due m result) :
    repairTurn? m s = some (.leave result) ∨ ∃ s', repairTurn? m s = some (.next s') ∧
      s'.text.byteLength - s'.offset < s.text.byteLength - s.offset ∧ s'.Due m result := by
  obtain ⟨text, offset, repairs⟩ := s
  obtain ⟨u, v, rfl, rfl, rfl⟩ := h
  rw [repairTurn?]
  rcases findHead?_cases u v with ⟨hfind, hno⟩ | ⟨passed, front, head, hfirst, hfind⟩
  · have hpass := repairFrom_noHead (m := m) hno
    rw [List.append_nil] at hpass
    rw [hfind, Option.bind_some, hpass, repairFrom]
    exact .inl (by simp)
  · have hpass := repairFrom_noHead (m := m) hfirst.first
    have hreads := hfirst.reads
    obtain rfl := hfirst.split
    -- repair asks for the character before a head at the front of the text read backwards
    rw [← lastOr_append, ← List.reverse_reverse (u ++ passed), lastOr_reverse] at hreads
    have ht : u ++ (passed ++ (front ++ '(' :: head.afterOpen)) =
        u ++ passed ++ front ++ '(' :: head.afterOpen := by simp
    have hopening : u.byteLength + passed.byteLength + front.byteLength =
        byteLength (u ++ passed ++ front) := by simp [Nat.add_assoc]
    rw [hfind, Option.bind_some, hpass]
    simp only [less?_succ, Option.bind_some]
    rw [hopening, matchingClose?_eq_some ht rfl, Option.bind_some]
    cases hgroup : splitGroup? '(' ')' 0 head.afterOpen with
    | none =>
        rw [repairFrom_stop hreads hgroup]
        exact .inl (by simp)
    | some group =>
        obtain ⟨condition, after⟩ := group
        obtain ⟨hsplit, -⟩ := (splitGroup?_eq_some (by decide)).mp hgroup
        have hone : '('.utf8Size = 1 ∧ ')'.utf8Size = 1 := ⟨rfl, rfl⟩
        have hwritten : front ++ '(' :: head.afterOpen =
            front ++ '(' :: (condition ++ [')']) ++ after := by simp [hsplit]
        have hstop : byteLength (u ++ passed ++ front) + 1 + condition.byteLength + 1 =
            byteLength (u ++ passed) + byteLength (front ++ '(' :: (condition ++ [')'])) := by
          simp [hone, Nat.add_assoc]
        rw [hwritten] at hreads ⊢
        simp only [Option.map_some]
        rw [hstop]
        obtain ⟨s', hpast, hless, hdue⟩ := past?_due m
          ⟨u ++ (passed ++ (front ++ '(' :: (condition ++ [')']) ++ after)), u.byteLength, repairs⟩
          ⟨u.byteLength + passed.byteLength, byteLength (u ++ passed ++ front) + 1, head.keyword⟩
          (List.append_assoc _ _ _).symm (byteLength_append u passed) rfl hreads hgroup
          (by simp [hone]; omega)
        refine .inr ⟨s', by rw [hpast]; rfl, ?_, hdue⟩
        simp only [byteLength_append] at hless ⊢
        omega

/-- Repair by offsets gives the repaired body and the repairs. -/
theorem repair?_eq_some (body : Text) : repair? body = some (repair body) := by
  rw [repair?, mask?_eq_some, Option.bind_some]
  generalize hm : Mask.ofText body = m
  have hloop : loop? (repairTurn? m) (m.text.byteLength + 1) ⟨m.text, 0, []⟩ =
      some (repairFrom m [] m.text) :=
    loop?_eq_some (fun s => s.text.byteLength - s.offset) (Repairing.Due m)
      (fun s result h => repairTurn?_cases h) ⟨[], m.text, rfl, rfl, by simp⟩ (by simp)
  rw [hloop, repair, hm]
  rfl

end Stencil.Checked
