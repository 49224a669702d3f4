import Stencil.Proofs.Checked.Bytes
import Stencil.Proofs.Checked.Mask
import Stencil.Proofs.Lower.Code
/-!
# Lowering by places and offsets

Lowering walks through the masked text by places and reads the head of an opening brace off the text
that it has written, which it cuts and shortens by offsets. Here all of that is done with places and
offsets, and each of them is one of the text it is used on.
-/
namespace Stencil.Checked

open Text Lower

/-! ## The head before a brace -/

/-- Where the last group of a text opens. The search is given up where more opens than closes. -/
def matchingOpen (t : Text) : Option Nat := (partner? ')' '(' 0 (offsetsFrom 0 t).reverse).join

/-- Where the name at the end of a text begins. -/
def nameStart (t : Text) : Nat :=
  match ((offsetsFrom 0 t).reverse.takeWhile fun place => isNameChar place.2).getLast? with
  | some place => place.1
  | none => t.byteLength

/-- The head that a brace after the text belongs to, and the offset of its parenthesis. -/
def blockHead? (out : Text) : Option (Option (Head × Nat)) :=
  if (trimEnd out).getLast? = some ')' then
    match matchingOpen (trimEnd out) with
    | none => some none
    | some opening => (upTo? (trimEnd out) opening).bind fun before =>
        (onFrom? (trimEnd before) (nameStart (trimEnd before))).map fun word =>
          (Head.ofWord? word).map fun head => (head, opening)
  else some none

/-- What an opening brace becomes: the text written and the open braces. -/
def openBrace? (out : Text) (braces : List Brace) : Option (Text × List Brace) :=
  (blockHead? out).bind fun found =>
    match found with
    | some (.iteration, opening) =>
      (less? (trimEnd out).byteLength 1).bind fun closing =>
        (between? out (opening + 1) closing).bind fun header =>
          (truncate? out opening).bind fun front =>
            (truncate? front (trimEnd front).byteLength).map fun kept =>
              (kept ++ ' ' :: (trim header ++ " do ".toList), .block :: braces)
    | some (.loop, _) => some (out ++ " do ".toList, .block :: braces)
    | some (.conditional, _) => some (out ++ " then ".toList, .block :: braces)
    | some (.branch, _) => some (out ++ " then ".toList, braces)
    | none => some (out ++ ['{'], .table :: braces)

/-! A text read backwards is taken apart from its end, and so are its offsets. -/

private theorem reverse_offsetsFrom_cons (c : Char) (t : Text) :
    (offsetsFrom 0 (c :: t).reverse).reverse =
      (t.byteLength, c) :: (offsetsFrom 0 t.reverse).reverse := by
  rw [List.reverse_cons, offsetsFrom_append, List.reverse_append, byteLength_reverse, Nat.zero_add]
  rfl

private theorem matchingOpen_reverse (t : Text) :
    matchingOpen (')' :: t).reverse =
      (splitGroup? ')' '(' 0 t).map fun found => byteLength found.2 := by
  have hplaces : ((offsetsFrom 0 t.reverse).reverse).map Prod.snd = t := by
    rw [List.map_reverse, map_snd_offsetsFrom, List.reverse_reverse]
  rw [matchingOpen, reverse_offsetsFrom_cons, partner?, if_pos rfl, partner?_eq_some, hplaces]
  cases hgroup : splitGroup? ')' '(' 0 t with
  | none => rfl
  | some found =>
      obtain ⟨inside, rest⟩ := found
      obtain ⟨rfl, -⟩ := (splitGroup?_eq_some (by decide)).mp hgroup
      have hreverse : (inside ++ '(' :: rest).reverse = rest.reverse ++ '(' :: inside.reverse := by
        simp
      rw [hreverse, offsetsFrom_append, offsetsFrom]
      simp [byteLength_reverse]

private theorem nameStart_reverse (t : Text) :
    nameStart t.reverse = byteLength (t.dropWhile isNameChar) := by
  induction t with
  | nil => rfl
  | cons c t ih =>
      rw [nameStart, reverse_offsetsFrom_cons]
      by_cases hc : isNameChar c = true
      · rw [List.takeWhile_cons_of_pos (by exact hc), List.dropWhile_cons_of_pos hc, ← ih,
          nameStart, List.getLast?_cons, ← byteLength_reverse t]
        cases ((offsetsFrom 0 t.reverse).reverse.takeWhile
          fun place => isNameChar place.2).getLast? <;> rfl
      · rw [List.takeWhile_cons_of_neg (by exact hc), List.dropWhile_cons_of_neg hc,
          ← byteLength_reverse (c :: t)]
        rfl

private theorem trimEnd_reverse (t : Text) : trimEnd t.reverse = (trimStart t).reverse := by
  rw [trimEnd_eq, List.reverse_reverse]

/-- The head is found where one is read off the end of the text. -/
theorem blockHead?_reverse (x : Text) :
    blockHead? x.reverse = some ((head? x).map fun found => (found.1, byteLength found.2.2)) := by
  have hx : x.dropWhile isBlank = trimStart x := rfl
  rw [blockHead?, trimEnd_reverse, List.getLast?_reverse, head?, hx]
  cases htrim : trimStart x with
  | nil => rfl
  | cons c behind =>
      by_cases hc : c = ')'
      · subst hc
        rw [List.head?_cons, if_pos rfl, matchingOpen_reverse]
        cases hgroup : splitGroup? ')' '(' 0 behind with
        | none => simp only [hgroup, Option.map_none]
        | some found =>
            obtain ⟨inside, before⟩ := found
            obtain ⟨hbehind, -⟩ := (splitGroup?_eq_some (by decide)).mp hgroup
            -- what stands before the group, and the name at its end
            have hbefore : upTo? (')' :: behind).reverse before.byteLength = some before.reverse :=
              upTo?_eq_some (v := '(' :: (inside.reverse ++ [')'])) (by simp [hbehind])
                (byteLength_reverse before)
            have hname : onFrom? (trimStart before).reverse
                (byteLength ((trimStart before).dropWhile isNameChar)) =
                  some ((trimStart before).takeWhile isNameChar).reverse :=
              onFrom?_eq_some (u := ((trimStart before).dropWhile isNameChar).reverse)
                (by rw [← List.reverse_append, List.takeWhile_append_dropWhile])
                (byteLength_reverse _)
            simp only [Option.map_some, hgroup]
            rw [hbefore, Option.bind_some, trimEnd_reverse, nameStart_reverse, hname,
              Option.map_some, Option.map_map]
            rfl
      · rw [if_neg (by simpa using hc)]
        split
        · rename_i hhead
          exact absurd (List.cons.inj hhead).1 hc
        · rfl

theorem openBrace?_reverse (x : Text) (braces : List Brace) :
    openBrace? x.reverse braces =
      some ((openBrace x braces).1.reverse, (openBrace x braces).2) := by
  rw [openBrace?, blockHead?_reverse, Option.bind_some]
  cases hhead : head? x with
  | none => simp [openBrace, hhead]
  | some found =>
      obtain ⟨head, inside, before⟩ := found
      cases head with
      | conditional => simp [openBrace, hhead, append]
      | branch => simp [openBrace, hhead, append]
      | loop => simp [openBrace, hhead, append]
      | iteration =>
          obtain ⟨b, inner, hb, hx, hinside, -, -⟩ := head?_eq_some.mp hhead
          have hone : '('.utf8Size = 1 ∧ ')'.utf8Size = 1 := ⟨rfl, rfl⟩
          have hout : x.reverse =
              before.reverse ++ ['('] ++ (inner.reverse ++ ')' :: b.reverse) := by simp [hx]
          have hgroup : trimEnd x.reverse = before.reverse ++ '(' :: (inner.reverse ++ [')']) := by
            rw [trimEnd_reverse, hx, trimStart_append hb (flush_cons.mpr (by decide))]
            simp
          have hclosing : less? (trimEnd x.reverse).byteLength 1 =
              some (before.byteLength + 1 + inside.byteLength) := by
            rw [hgroup, hinside, less?_eq_some] <;> simp [hone, byteLength_reverse] <;> omega
          have hheader : between? x.reverse (before.byteLength + 1)
              (before.byteLength + 1 + inside.byteLength) = some inside := by
            rw [hinside]
            exact between?_eq_some hout (by simp [hone, byteLength_reverse]) rfl
          have hfront : truncate? x.reverse before.byteLength = some before.reverse := by
            refine truncate?_eq_some (v := '(' :: (inner.reverse ++ ')' :: b.reverse)) ?_
              (byteLength_reverse before)
            simp [hx]
          have hkept : truncate? before.reverse (trimEnd before.reverse).byteLength =
              some (trimEnd before.reverse) := by
            obtain ⟨b', -, hbefore⟩ := exists_trimEnd_blank before.reverse
            exact truncate?_eq_some hbefore rfl
          simp only [Option.map_some]
          rw [hclosing, Option.bind_some, hheader, Option.bind_some, hfront, Option.bind_some, hkept,
            trimEnd_reverse, openBrace, hhead]
          simp [append, trimStart]

/-! ## What follows a closing brace -/

def skipBlank (t : Text) (place : Nat) : Nat := place + ((t.drop place).takeWhile isBlank).length

def wordAt (t : Text) (place : Nat) (word : Text) : Bool :=
  word.isPrefixOf (t.drop place) && !(t[place + word.length]?).any isNameChar

/-- After an `else`: the place after its brace or after the `if` it goes on with, and whether there is
an `if`. -/
def branchAfter (t : Text) (place : Nat) : Option (Nat × Bool) :=
  if t[place]? = some '{' then some (place + 1, false)
  else if wordAt t place "if".toList then some (skipBlank t (place + 2), true)
  else none

/-- The same after a closing brace. -/
def elseAfter (t : Text) (place : Nat) : Option (Nat × Bool) :=
  if wordAt t (skipBlank t place) "else".toList then
    branchAfter t (skipBlank t (skipBlank t place + 4))
  else none

section Else

variable {t ahead : Text} {place : Nat}

theorem le_skipBlank (t : Text) (place : Nat) : place ≤ skipBlank t place := Nat.le_add_right _ _

theorem At.skipBlank (h : At t place ahead) : At t (skipBlank t place) (trimStart ahead) := by
  have hsplit : At t place (ahead.takeWhile isBlank ++ trimStart ahead) := by
    rwa [trimStart, List.takeWhile_append_dropWhile]
  rw [Checked.skipBlank, h.drop]
  exact hsplit.add

theorem At.afterName? (h : At t place ahead) (word : Text) :
    afterName? word ahead = if wordAt t place word then some (ahead.drop word.length) else none := by
  rw [wordAt, h.drop, h.getElem?, Lower.afterName?, after?]
  by_cases hword : word.isPrefixOf ahead = true
  · by_cases hname : (ahead[word.length]?).any isNameChar = true
    · simp [hword, hname]
    · simp [hword, hname]
  · simp [hword]

theorem At.exists_afterName? {word : Text} (h : At t place ahead)
    (hword : wordAt t place word = true) :
    ∃ rest, Lower.afterName? word ahead = some rest ∧ At t (place + word.length) rest := by
  have hrest := h.afterName? word
  rw [if_pos hword] at hrest
  refine ⟨_, hrest, ?_⟩
  obtain ⟨hsplit, -⟩ := afterName?_eq_some.mp hrest
  rw [hsplit] at h
  exact h.add

private theorem branchAfter_cases {after : Text} (h : At t place after)
    (helse : (Lower.afterName? "else".toList (trimStart ahead)).map trimStart = some after) :
    (branchAfter t place = none ∧ elseAfter? ahead = none) ∨
      ∃ stop rest elseIf, branchAfter t place = some (stop, elseIf) ∧
        elseAfter? ahead = some (if elseIf then " elseif ".toList else " else ".toList, rest) ∧
        At t stop rest ∧ place ≤ stop := by
  rw [branchAfter]
  by_cases hbrace : ∃ rest, after = '{' :: rest
  · obtain ⟨rest, rfl⟩ := hbrace
    have hmodel : elseAfter? ahead = some (" else ".toList, rest) := by
      rw [elseAfter?, helse]
      rfl
    rw [if_pos h.first]
    exact .inr ⟨place + 1, rest, false, rfl, hmodel, h.next, Nat.le_succ _⟩
  · have hfirst : t[place]? ≠ some '{' := by
      have hget := h.getElem? 0
      rw [Nat.add_zero, ← List.head?_eq_getElem?] at hget
      rw [hget, Ne, List.head?_eq_some_iff]
      exact hbrace
    have hmodel : elseAfter? ahead = (Lower.afterName? "if".toList after).map fun rest =>
        (" elseif ".toList, trimStart rest) := by
      rw [elseAfter?, helse]
      split
      · rename_i hafter
        exact absurd ⟨_, Option.some.inj hafter⟩ hbrace
      · rename_i hafter
        rw [Option.some.inj hafter]
      · contradiction
    rw [if_neg hfirst, hmodel]
    by_cases hif : wordAt t place "if".toList = true
    · obtain ⟨rest, hrest, hat⟩ := h.exists_afterName? hif
      rw [if_pos hif, hrest]
      have hle := le_skipBlank t (place + 2)
      exact .inr ⟨_, _, true, rfl, rfl, hat.skipBlank, by omega⟩
    · rw [if_neg hif, h.afterName?, if_neg hif]
      exact .inl ⟨rfl, rfl⟩

/-- What follows a closing brace is read by places as it is read off the text. -/
theorem elseAfter_cases (h : At t place ahead) :
    (elseAfter t place = none ∧ elseAfter? ahead = none) ∨
      ∃ old rest elseIf, ahead = old ++ rest ∧
        elseAfter t place = some (place + old.length, elseIf) ∧
        elseAfter? ahead =
          some (if elseIf then " elseif ".toList else " else ".toList, rest) := by
  rw [elseAfter]
  by_cases helse : wordAt t (skipBlank t place) "else".toList = true
  · obtain ⟨after, hafter, hat⟩ := h.skipBlank.exists_afterName? helse
    have hplace := le_skipBlank t place
    have hword := le_skipBlank t (skipBlank t place + 4)
    rw [if_pos helse]
    rcases branchAfter_cases hat.skipBlank (by rw [hafter]; rfl) with
      ⟨hplaces, hnone⟩ | ⟨stop, rest, elseIf, hplaces, hsome, hstop, hle⟩
    · exact .inl ⟨hplaces, hnone⟩
    · obtain ⟨old, hold, hlength⟩ := h.exists_read hstop (by simp at hle; omega)
      refine .inr ⟨old, rest, elseIf, hold, ?_, hsome⟩
      rw [← hlength]
      exact hplaces
  · rw [if_neg helse, elseAfter?, h.skipBlank.afterName?, if_neg helse]
    exact .inl ⟨rfl, rfl⟩

end Else

/-! ## The walk through the text -/

/-- A text that is lowered up to a place: what is written, and the braces that are open. -/
structure Lowering where
  place : Nat
  written : Text
  braces : List Brace

/-- Write more for the character at the place, and go on after it. -/
def Lowering.write (s : Lowering) (more : Text) (braces : List Brace) : Turn Lowering Text :=
  .next ⟨s.place + 1, s.written ++ more, braces⟩

/-- What a closing brace becomes: that of a table is kept, and otherwise a branch goes on, a block
ends, or nothing is open. -/
def Lowering.close (t : Text) (s : Lowering) : Turn Lowering Text :=
  match s.braces with
  | .table :: outer => s.write ['}'] outer
  | braces =>
    match elseAfter t (s.place + 1) with
    | some (place, elseIf) =>
      .next ⟨place, s.written ++ (if elseIf then " elseif ".toList else " else ".toList), braces⟩
    | none =>
      match braces with
      | _ :: outer => s.write " end ".toList outer
      | [] => s.write ['}'] []

/-- A turn of lowering, over one character or over a closing brace and the branch after it. -/
def lowerTurn? (t : Text) (s : Lowering) : Option (Turn Lowering Text) :=
  if s.place < t.length then
    t[s.place]?.bind fun c =>
      if c = '{' then
        (openBrace? s.written s.braces).map fun (written, braces) =>
          .next ⟨s.place + 1, written, braces⟩
      else if c = '}' then some (s.close t)
      else some (s.write [c] s.braces)
  else some (.leave s.written)

/-- A body in native blocks, by places and offsets. -/
def lower? (body : Text) : Option Text :=
  (mask? body).bind fun m =>
    (loop? (lowerTurn? m.text) (m.text.length + 1) ⟨0, [], []⟩).map fun written =>
      m.restore (trimEnd written)

/-- The text from the place on is still to be lowered. -/
def Lowering.Due (t : Text) (s : Lowering) (result : Text) : Prop :=
  ∃ ahead, At t s.place ahead ∧ result = (lowerFrom 0 s.braces s.written.reverse ahead).reverse

section Turns

variable {t : Text} {s : Lowering} {c : Char} {cs : Text}

private theorem write_due {more : Text} {braces : List Brace} (h : At t s.place (c :: cs))
    (hmodel : lowerFrom 0 s.braces s.written.reverse (c :: cs) =
      lowerFrom 0 braces (append s.written.reverse more) cs) :
    ∃ s', s.write more braces = .next s' ∧ s.place < s'.place ∧
      s'.Due t (lowerFrom 0 s.braces s.written.reverse (c :: cs)).reverse := by
  refine ⟨_, rfl, Nat.lt_succ_self _, cs, h.next, ?_⟩
  rw [hmodel, append_eq_reverse, List.reverse_reverse]

private theorem close_due (h : At t s.place ('}' :: cs)) :
    ∃ s', s.close t = .next s' ∧ s.place < s'.place ∧
      s'.Due t (lowerFrom 0 s.braces s.written.reverse ('}' :: cs)).reverse := by
  obtain ⟨place, written, braces⟩ := s
  rcases elseAfter_cases h.next with ⟨hplaces, hnone⟩ | ⟨old, rest, elseIf, rfl, hplaces, hsome⟩
  · rcases braces with _ | ⟨_ | _, outer⟩
    case nil =>
      simp only [Lowering.close, hplaces]
      refine write_due h ?_
      simp only [lowerFrom, if_neg (show '}' ≠ '{' by decide), if_pos, hnone]
      rfl
    case cons.block =>
      simp only [Lowering.close, hplaces]
      exact write_due h (lowerFrom_end hnone)
    case cons.table => exact write_due h lowerFrom_table
  · have hbranch (hbraces : braces.head? ≠ some .table) : ∃ s', Turn.next ⟨place + 1 + old.length,
          written ++ (if elseIf then " elseif ".toList else " else ".toList), braces⟩ =
            (.next s' : Turn Lowering Text) ∧ place < s'.place ∧
        s'.Due t (lowerFrom 0 braces written.reverse ('}' :: (old ++ rest))).reverse := by
      refine ⟨_, rfl, ?_, rest, h.next.add, ?_⟩
      · show place < place + 1 + old.length
        omega
      · rw [lowerFrom_branch hbraces hsome, append_eq_reverse, List.reverse_reverse]
    rcases braces with _ | ⟨_ | _, outer⟩
    case nil =>
      simp only [Lowering.close, hplaces]
      exact hbranch (by simp)
    case cons.block =>
      simp only [Lowering.close, hplaces]
      exact hbranch (by simp)
    case cons.table => exact write_due h lowerFrom_table

end Turns

theorem lowerTurn?_cases {t result : Text} {s : Lowering} (h : s.Due t result) :
    lowerTurn? t s = some (.leave result) ∨ ∃ s', lowerTurn? t s = some (.next s') ∧
      s.place < s'.place ∧ s'.Due t result := by
  obtain ⟨ahead, hat, rfl⟩ := h
  cases ahead with
  | nil =>
      have hlength : t.length = s.place := hat.length
      refine .inl ?_
      rw [lowerTurn?, if_neg (by omega), lowerFrom, List.reverse_reverse]
  | cons c cs =>
      refine .inr ?_
      rw [lowerTurn?, if_pos hat.lt, hat.first, Option.bind_some]
      simp only
      by_cases ho : c = '{'
      · subst ho
        have hopen := openBrace?_reverse s.written.reverse s.braces
        rw [List.reverse_reverse] at hopen
        rw [if_pos rfl, hopen]
        refine ⟨_, rfl, Nat.lt_succ_self _, cs, hat.next, ?_⟩
        rw [lowerFrom_opening, List.reverse_reverse]
      · rw [if_neg ho]
        by_cases hc : c = '}'
        · subst hc
          rw [if_pos rfl]
          obtain ⟨s', hs', hdue⟩ := close_due hat
          exact ⟨s', congrArg some hs', hdue⟩
        · rw [if_neg hc]
          obtain ⟨s', hs', hdue⟩ := write_due hat (lowerFrom_char ho hc)
          exact ⟨s', congrArg some hs', hdue⟩

/-- Lowering by places and offsets gives the lowered body. -/
theorem lower?_eq_some (body : Text) : lower? body = some (lower body) := by
  rw [lower?, mask?_eq_some, Option.bind_some]
  have hloop : loop? (lowerTurn? (Mask.ofText body).text) ((Mask.ofText body).text.length + 1)
      ⟨0, [], []⟩ = some (lowerFrom 0 [] [] (Mask.ofText body).text).reverse := by
    generalize (Mask.ofText body).text = t
    refine loop?_eq_some (fun s => t.length - s.place) (Lowering.Due t) (fun s result h => ?_)
      ⟨t, ⟨rfl, Nat.zero_le _⟩, rfl⟩ (by simp)
    rcases lowerTurn?_cases h with hleave | ⟨s', hnext, hlt, hdue⟩
    · exact .inl hleave
    · refine .inr ⟨s', hnext, ?_, hdue⟩
      obtain ⟨ahead, hat, -⟩ := hdue
      have hinside := hat.inside
      omega
  rw [hloop]
  rfl

end Stencil.Checked
