import Stencil.Normalize
import Stencil.Proofs.BlockHead
import Stencil.Proofs.Checked.Bytes
import Stencil.Proofs.Text.Replacement
/-!
# Block heads by offsets

The colon heads of a text can be rewritten with offsets only: a head is looked for from an offset on,
its closing parenthesis from the opening one, and what lies between is cut out. Each offset lies
between two characters, the parentheses are never counted below zero, and what comes out is what the
rule for colon heads makes of the text.
-/
namespace Stencil.Checked

open Text

/-- A head that was found: the offsets where it begins and where it ends, right after its
parenthesis, and its keyword. -/
structure FoundHead where
  start : Nat
  stop : Nat
  keyword : Text

def FoundHead.isElse (found : FoundHead) : Bool := "else".toList.isPrefixOf found.keyword

/-- The first head in a text that stands at an offset after a character. -/
def firstHead (before : Option Char) (offset : Nat) : Text → Option FoundHead
  | [] => none
  | c :: cs =>
    match BlockHead.read? before (c :: cs) with
    | some head =>
      let read : Text := (c :: cs).take ((c :: cs).length - head.afterOpen.length)
      some ⟨offset, offset + read.byteLength, head.keyword⟩
    | none => firstHead (some c) (offset + c.utf8Size) cs

def findHead? (t : Text) (offset : Nat) : Option (Option FoundHead) :=
  (cut? t offset).map fun parts => firstHead (lastOr none parts.1) offset parts.2

/-- Where the parenthesis at an offset is closed, if it is. -/
def matchingClose? (t : Text) (opening : Nat) : Option (Option Nat) :=
  (onFrom? t opening).bind fun ahead => partner? '(' ')' 0 (offsetsFrom opening ahead)

/-- The length of the white space and the colon that a text begins with, if it does. -/
def colonLength? (t : Text) : Option Nat :=
  match trimStart t with
  | ':' :: _ => some (byteLength (t.takeWhile isBlank) + 1)
  | _ => none

/-- Where the parenthesis at an offset is closed and where the colon after it ends, if both are
there. -/
def colonAfter? (t : Text) (opening : Nat) : Option (Option (Nat × Nat)) :=
  (matchingClose? t opening).bind fun closing =>
    match closing with
    | none => some none
    | some closing => (onFrom? t (closing + 1)).map fun after =>
        (colonLength? after).map fun length => (closing, closing + 1 + length)

/-- A text in which the heads up to an offset are rewritten. -/
structure Rewriting where
  offset : Nat
  written : Text

/-- A turn of rewriting colon heads: up to the next head, and it. -/
def colonTurn? (t : Text) (s : Rewriting) : Option (Turn Rewriting Text) :=
  (findHead? t s.offset).bind fun found =>
    match found with
    | none => (onFrom? t s.offset).map fun rest => .leave (s.written ++ rest)
    | some head =>
      (less? head.stop 1).bind fun opening => (colonAfter? t opening).bind fun colon =>
        match colon with
        | none =>
          (between? t s.offset head.stop).map fun kept => .next ⟨head.stop, s.written ++ kept⟩
        | some (closing, after) =>
          (between? t s.offset head.start).bind fun passed =>
            (between? t (opening + 1) closing).map fun condition =>
              let keyword := if head.isElse then "\x7d else if".toList else head.keyword
              .next ⟨after, s.written ++ passed ++
                (keyword ++ " (".toList ++ condition ++ ") \x7b".toList)⟩

/-- The colon heads of a text, rewritten by offsets. -/
def colonHeads? (t : Text) : Option Text :=
  loop? (colonTurn? t) (t.byteLength + 1) ⟨0, []⟩

/-! ## Looking for a head -/

/-- No head begins in a stretch of text with more text after it. -/
def NoHead (before : Option Char) (t ahead : Text) : Prop :=
  ∀ u c v, t = u ++ c :: v → BlockHead.read? (lastOr before u) (c :: v ++ ahead) = none

theorem NoHead.cons {before : Option Char} {c : Char} {t ahead : Text}
    (hc : BlockHead.read? before (c :: t ++ ahead) = none) (h : NoHead (some c) t ahead) :
    NoHead before (c :: t) ahead := by
  rintro (_ | ⟨d, u⟩) e v hsplit
  · obtain ⟨rfl, rfl⟩ := List.cons.inj hsplit
    exact hc
  · obtain ⟨rfl, rfl⟩ := List.cons.inj hsplit
    exact h u e v rfl

/-- The first head of a text: what is passed on the way, the head up to its parenthesis and the text
after it. -/
structure FirstHead (before : Option Char) (t passed front : Text) (head : BlockHead) : Prop where
  split : t = passed ++ (front ++ '(' :: head.afterOpen)
  reads : BlockHead.read? (lastOr before passed) (front ++ '(' :: head.afterOpen) = some head
  first : NoHead before passed (front ++ '(' :: head.afterOpen)

theorem firstHead_cases (before : Option Char) (offset : Nat) (t : Text) :
    (firstHead before offset t = none ∧ NoHead before t []) ∨
      ∃ passed front head, FirstHead before t passed front head ∧
        firstHead before offset t = some ⟨offset + passed.byteLength,
          offset + passed.byteLength + front.byteLength + 1, head.keyword⟩ := by
  induction t generalizing before offset with
  | nil => exact .inl ⟨rfl, fun u c v h => by simp at h⟩
  | cons c cs ih =>
      rw [firstHead]
      cases hread : BlockHead.read? before (c :: cs) with
      | some head =>
          obtain ⟨keyword, afterOpen⟩ := head
          obtain ⟨-, -, b, -, hsplit⟩ := BlockHead.read?_eq_some.mp hread
          have hassoc : c :: cs = keyword ++ b ++ '(' :: afterOpen := by
            rw [hsplit, List.append_assoc]
          refine .inr ⟨[], keyword ++ b, ⟨keyword, afterOpen⟩, ⟨hassoc, ?_, ?_⟩, ?_⟩
          · rw [← hassoc]
            exact hread
          · exact fun u c v h => by simp at h
          · have hsplit' : c :: cs = keyword ++ b ++ ['('] ++ afterOpen := by simp [hassoc]
            have hone : '('.utf8Size = 1 := rfl
            dsimp only
            rw [hsplit', take_read]
            simp [hone, Nat.add_assoc]
      | none =>
          rcases ih (some c) (offset + c.utf8Size) with
            ⟨hnone, hno⟩ | ⟨passed, front, head, h, hfound⟩
          · exact .inl ⟨hnone, .cons (by rw [List.append_nil]; exact hread) hno⟩
          · refine .inr ⟨c :: passed, front, head, ⟨?_, h.reads, .cons ?_ h.first⟩, ?_⟩
            · rw [h.split]
              rfl
            · rw [List.cons_append, ← h.split]
              exact hread
            · rw [hfound, byteLength_cons]
              simp only [Nat.add_assoc]

/-- From an offset between two characters on, the next head is found, if there is one. -/
theorem findHead?_cases (u v : Text) :
    (findHead? (u ++ v) u.byteLength = some none ∧ NoHead (lastOr none u) v []) ∨
      ∃ passed front head, FirstHead (lastOr none u) v passed front head ∧
        findHead? (u ++ v) u.byteLength = some (some ⟨u.byteLength + passed.byteLength,
          u.byteLength + passed.byteLength + front.byteLength + 1, head.keyword⟩) := by
  rw [findHead?, cut?_append, Option.map_some]
  simp only [Option.some.injEq]
  exact firstHead_cases (lastOr none u) u.byteLength v

/-! ## Looking for the end of a group -/

/-- From an opening parenthesis on the search finds the end of its group. -/
theorem matchingClose?_eq_some {t u v : Text} {offset : Nat} (h : t = u ++ '(' :: v)
    (hu : u.byteLength = offset) : matchingClose? t offset =
      some ((splitGroup? '(' ')' 0 v).map fun found => offset + 1 + byteLength found.1) := by
  rw [matchingClose?, onFrom?_eq_some h hu, Option.bind_some, offsetsFrom, partner?, if_pos rfl,
    partner?_eq_some, map_snd_offsetsFrom]
  cases hgroup : splitGroup? '(' ')' 0 v with
  | none => rfl
  | some found =>
      obtain ⟨inside, rest⟩ := found
      obtain ⟨rfl, -⟩ := (splitGroup?_eq_some (by decide)).mp hgroup
      have hone : '('.utf8Size = 1 := rfl
      simp [offsetsFrom_append, offsetsFrom, hone]

/-- Only from an opening parenthesis on: at a closing one there is nothing to count down from. -/
example : matchingClose? "f(a)".toList 1 = some (some 3) ∧ matchingClose? ")".toList 0 = none := by
  decide

/-! ## Colon heads -/

private theorem colonLength?_blank {b : Text} (hb : Blank b) (rest : Text) :
    colonLength? (b ++ ':' :: rest) = some (b.byteLength + 1) := by
  have hread : (b ++ ':' :: rest).takeWhile isBlank = b := by
    rw [List.takeWhile_append_of_pos hb, List.takeWhile_cons_of_neg (by decide), List.append_nil]
  rw [colonLength?, trimStart_append hb (flush_cons.mpr (by decide)), hread]
  rfl

private theorem colonLength?_eq_none {t : Text} (h : ∀ rest, trimStart t ≠ ':' :: rest) :
    colonLength? t = none := by
  rw [colonLength?]
  split
  · exact absurd ‹_› (h _)
  · rfl

/-- Whether a colon follows a head whose parenthesis stands after a text, and what the rule for colon
heads makes of it. -/
inductive ColonAfter (t u front : Text) (before : Option Char) (head : BlockHead) : Prop
  | kept :
    Normalize.colonHead before (front ++ '(' :: head.afterOpen) =
      some (front ++ ['('], head.afterOpen) →
    colonAfter? t u.byteLength = some none → ColonAfter t u front before head
  | braced (condition b rest : Text) :
    head.afterOpen = condition ++ ')' :: (b ++ ':' :: rest) →
    Normalize.colonHead before (front ++ '(' :: head.afterOpen) =
      some ((if head.isElse then "\x7d else if".toList else head.keyword) ++ " (".toList ++
        condition ++ ") \x7b".toList, rest) →
    colonAfter? t u.byteLength = some (some (u.byteLength + 1 + condition.byteLength,
      u.byteLength + 1 + condition.byteLength + 1 + (b.byteLength + 1))) →
    ColonAfter t u front before head

theorem colonAfter?_cases {t u front : Text} {before : Option Char} {head : BlockHead}
    (ht : t = u ++ '(' :: head.afterOpen)
    (hread : BlockHead.read? before (front ++ '(' :: head.afterOpen) = some head) :
    ColonAfter t u front before head := by
  have hopen : front ++ '(' :: head.afterOpen = front ++ ['('] ++ head.afterOpen := by simp
  have hclose := matchingClose?_eq_some ht rfl
  cases hgroup : splitGroup? '(' ')' 0 head.afterOpen with
  | none =>
      rw [hgroup] at hclose
      refine .kept ?_ ?_
      · simp only [Normalize.colonHead, hread, Option.map_some, hgroup]
        rw [hopen, take_read]
      · rw [colonAfter?, hclose]
        rfl
  | some group =>
      obtain ⟨condition, after⟩ := group
      obtain ⟨hsplit, -⟩ := (splitGroup?_eq_some (by decide)).mp hgroup
      rw [hgroup] at hclose
      have hafter : onFrom? t (u.byteLength + 1 + condition.byteLength + 1) = some after := by
        have hone : '('.utf8Size = 1 ∧ ')'.utf8Size = 1 := ⟨rfl, rfl⟩
        have ht' : t = u ++ '(' :: (condition ++ [')']) ++ after := by simp [ht, hsplit]
        exact onFrom?_eq_some ht' (by simp [hone, Nat.add_assoc])
      -- the group is closed, so the text after it can be cut off whether a colon follows or not
      have hlength : colonAfter? t u.byteLength = some ((colonLength? after).map fun length =>
          (u.byteLength + 1 + condition.byteLength,
            u.byteLength + 1 + condition.byteLength + 1 + length)) := by
        rw [colonAfter?, hclose]
        simp only [Option.map_some, Option.bind_some]
        rw [hafter]
        rfl
      by_cases hcolon : ∃ rest, trimStart after = ':' :: rest
      · obtain ⟨rest, hcolon⟩ := hcolon
        obtain ⟨b, hb, hblank⟩ := exists_blank_trimStart after
        rw [hcolon] at hblank
        refine .braced condition b rest (by rw [hsplit, hblank]) ?_ ?_
        · simp only [Normalize.colonHead, hread, Option.map_some, hgroup, hcolon]
        · rw [hlength, hblank, colonLength?_blank hb]
          rfl
      · refine .kept ?_ ?_
        · simp only [Normalize.colonHead, hread, Option.map_some, hgroup]
          split
          · exact absurd ⟨_, ‹_›⟩ hcolon
          · rw [hopen, take_read]
        · rw [hlength, colonLength?_eq_none fun rest h => hcolon ⟨rest, h⟩]
          rfl

/-- What is left to be rewritten of a text, and what the rewriting of all of it comes to. -/
def Rewriting.Due (t : Text) (s : Rewriting) (result : Text) : Prop :=
  ∃ u v, t = u ++ v ∧ u.byteLength = s.offset ∧
    result = s.written ++ replaceFrom Normalize.colonHead 0 (lastOr none u) v

private theorem colonHead_eq_none {before : Option Char} {t : Text}
    (h : BlockHead.read? before t = none) : Normalize.colonHead before t = none := by
  rw [Normalize.colonHead, h]
  rfl

section Turn

variable {u passed front written : Text} {head : BlockHead}

/-- A stretch without heads is copied and the head after it is rewritten. -/
private theorem due_read {old rest new : Text} {stop : Nat} (hold : old ≠ [])
    (hno : NoHead (lastOr none u) passed (old ++ rest))
    (hrule : Normalize.colonHead (lastOr (lastOr none u) passed) (old ++ rest) = some (new, rest))
    (hstop : u.byteLength + passed.byteLength + old.byteLength = stop) :
    Rewriting.Due (u ++ (passed ++ (old ++ rest))) ⟨stop, written ++ passed ++ new⟩
      (written ++ replaceFrom Normalize.colonHead 0 (lastOr none u) (passed ++ (old ++ rest))) := by
  refine ⟨u ++ passed ++ old, rest, by simp, by simp [← hstop, Nat.add_assoc], ?_⟩
  have hpass := replaceFrom_pass fun a c b hsplit => colonHead_eq_none (hno a c b hsplit)
  rw [hpass, replaceFrom_match hold hrule, lastOr_append, lastOr_append]
  simp only [List.append_assoc]

/-- A turn ends after the next head, which it has rewritten as the rule for colon heads does. -/
private theorem colonTurn?_head
    (hno : NoHead (lastOr none u) passed (front ++ '(' :: head.afterOpen))
    (hread : BlockHead.read? (lastOr (lastOr none u) passed) (front ++ '(' :: head.afterOpen) =
      some head)
    (hfind : findHead? (u ++ (passed ++ (front ++ '(' :: head.afterOpen))) u.byteLength =
      some (some ⟨u.byteLength + passed.byteLength,
        u.byteLength + passed.byteLength + front.byteLength + 1, head.keyword⟩)) :
    ∃ s', colonTurn? (u ++ (passed ++ (front ++ '(' :: head.afterOpen))) ⟨u.byteLength, written⟩ =
      some (.next s') ∧ u.byteLength < s'.offset ∧
      s'.Due (u ++ (passed ++ (front ++ '(' :: head.afterOpen)))
        (written ++ replaceFrom Normalize.colonHead 0 (lastOr none u)
          (passed ++ (front ++ '(' :: head.afterOpen))) := by
  have hone : '('.utf8Size = 1 ∧ ')'.utf8Size = 1 ∧ ':'.utf8Size = 1 := ⟨rfl, rfl, rfl⟩
  have ht : u ++ (passed ++ (front ++ '(' :: head.afterOpen)) =
      u ++ passed ++ front ++ '(' :: head.afterOpen := by simp
  have hopening : u.byteLength + passed.byteLength + front.byteLength =
      byteLength (u ++ passed ++ front) := by simp [Nat.add_assoc]
  rw [colonTurn?, hfind, Option.bind_some]
  simp only [less?_succ, Option.bind_some]
  rw [hopening]
  cases colonAfter?_cases ht hread with
  | kept hrule hcolon =>
      have hopen : front ++ '(' :: head.afterOpen = front ++ ['('] ++ head.afterOpen := by simp
      rw [hcolon, Option.bind_some]
      simp only
      rw [hopen] at hno hrule ⊢
      rw [← List.append_assoc passed, between?_eq_some rfl rfl (by simp [hone, Nat.add_assoc])]
      refine ⟨_, rfl, by simp only [byteLength_append]; omega, ?_⟩
      have hdue := @due_read u passed written (front ++ ['(']) _ _ _ (by simp) hno hrule rfl
      simpa [hone, Nat.add_assoc] using hdue
  | braced condition b rest hsplit hrule hcolon =>
      have hcondition : u ++ (passed ++ (front ++ '(' :: head.afterOpen)) =
          u ++ passed ++ front ++ ['('] ++ (condition ++ ')' :: (b ++ ':' :: rest)) := by
        simp [hsplit]
      have hgroup : front ++ '(' :: head.afterOpen =
          front ++ '(' :: (condition ++ ')' :: (b ++ [':'])) ++ rest := by simp [hsplit]
      rw [hcolon, Option.bind_some]
      simp only
      rw [between?_eq_some rfl rfl rfl, Option.bind_some,
        between?_eq_some hcondition (by simp [hone, Nat.add_assoc]) (by simp)]
      refine ⟨_, rfl, by simp only [byteLength_append]; omega, ?_⟩
      rw [hgroup] at hno hrule ⊢
      refine due_read (by simp) hno hrule ?_
      simp [hone, Nat.add_assoc]

end Turn

theorem colonTurn?_cases {t result : Text} {s : Rewriting} (h : s.Due t result) :
    colonTurn? t s = some (.leave result) ∨ ∃ s', colonTurn? t s = some (.next s') ∧
      s.offset < s'.offset ∧ s'.Due t result := by
  obtain ⟨offset, written⟩ := s
  obtain ⟨u, v, rfl, rfl, rfl⟩ := h
  rcases findHead?_cases u v with ⟨hfind, hno⟩ | ⟨passed, front, head, hfirst, hfind⟩
  · have hpass := replaceFrom_pass fun a c b hsplit => colonHead_eq_none (hno a c b hsplit)
    rw [replaceFrom_nil, List.append_nil] at hpass
    refine .inl ?_
    rw [colonTurn?, hfind, Option.bind_some, hpass]
    simp only
    rw [onFrom?_eq_some rfl rfl]
    rfl
  · obtain rfl := hfirst.split
    exact .inr (colonTurn?_head hfirst.first hfirst.reads hfind)

/-- Rewriting by offsets is the rule for colon heads, applied from left to right. -/
theorem colonHeads?_eq_some (t : Text) :
    colonHeads? t = some (t.replaceAll Normalize.colonHead) := by
  refine loop?_eq_some (fun s => t.byteLength - s.offset) (Rewriting.Due t) (fun s result h => ?_)
    ⟨[], t, rfl, rfl, rfl⟩ (by simp)
  rcases colonTurn?_cases h with hleave | ⟨s', hnext, hlt, hdue⟩
  · exact .inl hleave
  · refine .inr ⟨s', hnext, ?_, hdue⟩
    obtain ⟨u, v, rfl, hu, -⟩ := hdue
    rw [byteLength_append, hu]
    omega

end Stencil.Checked
