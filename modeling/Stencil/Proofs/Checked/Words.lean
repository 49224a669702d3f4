import Stencil.Proofs.Checked.Basic
import Stencil.Text.Cursor
/-!
# A cursor in machine words

A text in memory is shorter than the largest machine word, and a cursor in it is a word that counts
the characters behind. Its moves add and subtract words: some stop at the ends of the word, some
have no result where a sum does not fit. Up to one question, what lies ahead, all of this comes out
as it would with integers, and every slice that is taken lies in the text.
-/
namespace Stencil

/-! ## Moves in exact integers -/

inductive Move where
  | moveTo (position : UInt64)
  | advance
  | advanceBy (amount : Int64)
  | retreat (count : UInt64)
  | reset
deriving Repr, DecidableEq

namespace Move

/-- Whether the move is refused: only a negative amount is. -/
def isRefused : Move → Bool
  | advanceBy amount => amount < 0
  | _ => false

/-- The integer that the move leads to, from a position. -/
def target (position : Int) : Move → Int
  | moveTo position => position.toNat
  | advance => position + 1
  | advanceBy amount => position + amount.toInt
  | retreat count => position - count.toNat
  | reset => 0

/-- The position after the move in a text of the given length: the integer it leads to, or the end
of the text next to it. A refused move leads nowhere. -/
def land (length : Nat) (position : Int) (m : Move) : Int :=
  if m.isRefused then position else max 0 (min (m.target position) length)

end Move

namespace Cursor

/-- The cursor after a move, if the move is not refused. -/
def move? (c : Cursor) : Move → Option Cursor
  | .moveTo position => some (c.moveTo position)
  | .advance => some c.advance
  | .advanceBy amount => c.advanceBy? amount
  | .retreat count => some (c.retreat count)
  | .reset => some c.reset

/-- The cursor after a move; a refused move leaves it where it is. -/
def move (c : Cursor) (m : Move) : Cursor := (c.move? m).getD c

variable (c : Cursor)

theorem position_le_length : c.position ≤ c.length := Nat.le_add_right _ _

theorem length_text : c.text.length = c.length := by simp [text, length]

theorem take_position : c.text.take c.position = c.behind.reverse := by
  simp [text, position]

theorem drop_position : c.text.drop c.position = c.ahead := by
  simp [text, position]

theorem text_skip (count : Nat) : (c.skip count).text = c.text := by
  simp [skip, text]

theorem position_skip (count : Nat) :
    (c.skip count).position = c.position + min count c.ahead.length := by
  simp [skip, position, Nat.add_comm]

theorem text_back (count : Nat) : (c.back count).text = c.text := by
  rw [back, text, text, ← List.append_assoc, ← List.reverse_append, List.take_append_drop]

theorem position_back (count : Nat) : (c.back count).position = c.position - count := by
  simp [back, position]

theorem text_moveTo (place : UInt64) : (c.moveTo place).text = c.text := by
  simp [moveTo, text]

theorem position_moveTo (place : UInt64) : (c.moveTo place).position = min place.toNat c.length := by
  rw [moveTo, position, List.length_reverse, List.length_take, length_text]

theorem move?_eq_none (m : Move) : c.move? m = none ↔ m.isRefused = true := by
  cases m <;> simp [move?, Move.isRefused, advanceBy?]

theorem text_move (m : Move) : (c.move m).text = c.text := by
  cases m with
  | moveTo place => exact c.text_moveTo place
  | advance => exact c.text_skip 1
  | advanceBy amount =>
      rw [move, move?, advanceBy?]
      split
      · rfl
      · exact c.text_skip _
  | retreat count => exact c.text_back _
  | reset => rfl

/-- A move ends at the exact position. -/
theorem position_move (m : Move) : ((c.move m).position : Int) = m.land c.length c.position := by
  have hle := c.position_le_length
  cases m with
  | moveTo place =>
      have h : (c.move (.moveTo place)).position = min place.toNat c.length := c.position_moveTo place
      simp only [h, Move.land, Move.isRefused, Move.target, Bool.false_eq_true, if_false]
      omega
  | advance =>
      have h : (c.move .advance).position = c.position + min 1 c.ahead.length := c.position_skip 1
      simp only [h, Move.land, Move.isRefused, Move.target, Bool.false_eq_true, if_false]
      simp only [position, length] at hle ⊢
      omega
  | advanceBy amount =>
      by_cases hamount : amount < 0
      · have h : c.move (.advanceBy amount) = c := by simp [move, move?, advanceBy?, hamount]
        simp [h, Move.land, Move.isRefused, hamount]
      · have h : c.move (.advanceBy amount) = c.skip amount.toInt.toNat := by
          simp [move, move?, advanceBy?, hamount]
        have hpositive : 0 ≤ amount.toInt := by simpa [Int64.lt_iff_toInt_lt] using hamount
        rw [h, position_skip, Move.land, if_neg (by simpa [Move.isRefused] using hamount),
          Move.target]
        simp only [position, length] at hle ⊢
        omega
  | retreat count =>
      have h : (c.move (.retreat count)).position = c.position - count.toNat := c.position_back _
      simp only [h, Move.land, Move.isRefused, Move.target, Bool.false_eq_true, if_false]
      omega
  | reset =>
      have h : (c.move .reset).position = 0 := rfl
      simp only [h, Move.land, Move.isRefused, Move.target, Bool.false_eq_true, if_false]
      omega

/-- After any moves the text is the same, and the cursor stands where exact moves lead. -/
theorem moves (ms : List Move) :
    (ms.foldl move c).text = c.text ∧
      ((ms.foldl move c).position : Int) = ms.foldl (Move.land c.length) c.position := by
  induction ms generalizing c with
  | nil => exact ⟨rfl, rfl⟩
  | cons m ms ih =>
      obtain ⟨htext, hposition⟩ := ih (c.move m)
      have hlength : (c.move m).length = c.length := by
        rw [← length_text, ← length_text, text_move]
      refine ⟨htext.trans (c.text_move m), ?_⟩
      rw [List.foldl_cons, List.foldl_cons, ← position_move, ← hlength]
      exact hposition

/-- What a cursor answers about the text around it: the text behind and ahead is the source, a look
either way gives as many characters as were asked for and as there are, and a range is the slice
between two places, each taken at most to the end. A look ahead has no answer where its end does not
fit the word. -/
structure Answers (source : Text) (c : Cursor) : Prop where
  whole : ∀ n : UInt64, source.length ≤ n.toNat → c.lookbehind n ++ c.ahead = source
  rest : c.ahead = source.drop c.position
  ahead : ∀ n : UInt64, c.lookahead? n = if c.position + n.toNat < UInt64.size then
    some (c.ahead.take (min n.toNat (source.length - c.position))) else none
  behind : ∀ n : UInt64, c.lookbehind n =
    (source.take c.position).drop (c.position - min n.toNat c.position)
  range : ∀ a b : UInt64, c.range a b =
    (source.take (min b.toNat source.length)).drop (min a.toNat (min b.toNat source.length))

theorem answers : Answers c.text c where
  whole n hn := by
    have hle := c.position_le_length
    rw [length_text] at hn
    rw [lookbehind, List.take_of_length_le (by rw [position] at hle; omega), text]
  rest := c.drop_position.symm
  ahead n := by
    have hlength : c.text.length - c.position = c.ahead.length := by
      simp [text, position]
    rw [lookahead?, hlength, ← List.take_eq_take_min]
  behind n := by
    rw [take_position, lookbehind, List.reverse_take]
    congr 1
    simp only [position]
    omega
  range a b := by
    rw [range, ← List.take_eq_take_min, List.drop_eq_drop_min, List.length_take]

end Cursor

namespace Checked

/-! ## Sums and differences of words -/

def add? (a b : UInt64) : Option UInt64 :=
  if a.toNat + b.toNat < UInt64.size then some (a + b) else none

/-- The sum of two words, the largest word standing for all that do not fit. -/
def addUpTo (a b : UInt64) : UInt64 := (add? a b).getD (UInt64.ofNat (UInt64.size - 1))

/-- The difference of two words, zero standing for all that are below. -/
def subDownTo (a b : UInt64) : UInt64 := if b ≤ a then a - b else 0

variable {a b : UInt64}

theorem toNat_add (h : a.toNat + b.toNat < UInt64.size) : (a + b).toNat = a.toNat + b.toNat := by
  rw [UInt64.toNat_add, Nat.mod_eq_of_lt h]

theorem toNat_addUpTo (a b : UInt64) :
    (addUpTo a b).toNat = min (a.toNat + b.toNat) (UInt64.size - 1) := by
  rw [addUpTo, add?]
  split
  · rename_i h
    rw [Option.getD_some, toNat_add h]
    omega
  · rw [Option.getD_none, UInt64.toNat_ofNat_of_lt' (by decide)]
    omega

theorem toNat_subDownTo (a b : UInt64) : (subDownTo a b).toNat = a.toNat - b.toNat := by
  rw [subDownTo]
  split
  · rename_i h
    exact UInt64.toNat_sub_of_le a b h
  · rename_i h
    rw [UInt64.le_iff_toNat_le] at h
    rw [UInt64.toNat_zero]
    omega

theorem toNat_min (a b : UInt64) : (min a b).toNat = min a.toNat b.toNat := by
  rw [show min a b = if a ≤ b then a else b from rfl, Nat.min_def]
  simp only [UInt64.le_iff_toNat_le]
  split <;> rfl

/-! ## The cursor as a word -/

/-- A text in memory and the word that counts the characters behind the cursor. -/
structure WordCursor where
  text : Text
  position : UInt64
deriving Repr, DecidableEq

namespace WordCursor

def ofText (text : Text) : WordCursor := ⟨text, 0⟩

def size (w : WordCursor) : UInt64 := UInt64.ofNat w.text.length

def moveTo (w : WordCursor) (position : UInt64) : WordCursor :=
  { w with position := min position w.size }

def advance? (w : WordCursor) : Option WordCursor := (add? w.position 1).map w.moveTo

def advanceBy? (w : WordCursor) (amount : Int64) : Option WordCursor :=
  if amount < 0 then none
  else some (w.moveTo (addUpTo w.position (UInt64.ofNat amount.toInt.toNat)))

def retreat (w : WordCursor) (count : UInt64) : WordCursor :=
  { w with position := subDownTo w.position count }

def reset (w : WordCursor) : WordCursor := { w with position := 0 }

/-- The cursor after a move, where every sum fits; a refused move leaves it where it is. -/
def move? (w : WordCursor) : Move → Option WordCursor
  | .moveTo position => some (w.moveTo position)
  | .advance => w.advance?
  | .advanceBy amount => some ((w.advanceBy? amount).getD w)
  | .retreat count => some (w.retreat count)
  | .reset => some w.reset

def moves? (w : WordCursor) : List Move → Option WordCursor
  | [] => some w
  | m :: ms =>
    match w.move? m with
    | some w => w.moves? ms
    | none => none

def slice? (w : WordCursor) (start stop : UInt64) : Option Text :=
  Checked.slice? w.text start.toNat stop.toNat

def lookahead? (w : WordCursor) (count : UInt64) : Option Text :=
  match add? w.position count with
  | some stop => w.slice? w.position (min stop w.size)
  | none => none

def lookbehind? (w : WordCursor) (count : UInt64) : Option Text :=
  w.slice? (subDownTo w.position count) w.position

def rest? (w : WordCursor) : Option Text := w.slice? w.position w.size

def range? (w : WordCursor) (start stop : UInt64) : Option Text :=
  let stop := min stop w.size
  w.slice? (min start stop) stop

/-- A cursor of words stands where another cursor does. -/
structure Shows (w : WordCursor) (c : Cursor) : Prop where
  text : w.text = c.text
  position : w.position.toNat = c.position
  /-- The place after the end of the text is a word too. -/
  fits : c.length + 1 < UInt64.size

variable {w : WordCursor} {c : Cursor}

theorem Shows.toNat_size (h : Shows w c) : w.size.toNat = c.length := by
  have hfits := h.fits
  rw [size, h.text, Cursor.length_text, UInt64.toNat_ofNat_of_lt' (by omega)]

theorem Shows.toNat_moveTo (h : Shows w c) (place : UInt64) :
    (w.moveTo place).position.toNat = min place.toNat c.length := by
  rw [← h.toNat_size, ← toNat_min]
  rfl

/-- A cursor of words that has come to the exact position stands where the other cursor went. -/
private theorem Shows.of_land {w' : WordCursor} {m : Move} (h : Shows w c)
    (htext : w'.text = w.text)
    (hland : (w'.position.toNat : Int) = m.land c.length c.position) : Shows w' (c.move m) where
  text := by rw [htext, h.text, c.text_move]
  position := by
    have := c.position_move m
    omega
  fits := by rw [← Cursor.length_text, c.text_move, c.length_text]; exact h.fits

/-- A move ends where the other cursor ends, and every sum fits on the way. -/
theorem Shows.move? (h : Shows w c) (m : Move) :
    ∃ w', w.move? m = some w' ∧ Shows w' (c.move m) := by
  have hle := c.position_le_length
  have hfits := h.fits
  have hposition := h.position
  cases m with
  | moveTo place =>
      refine ⟨_, rfl, h.of_land rfl ?_⟩
      rw [h.toNat_moveTo]
      simp only [Move.land, Move.isRefused, Move.target, Bool.false_eq_true, if_false]
      omega
  | advance =>
      have hone : (1 : UInt64).toNat = 1 := UInt64.toNat_one
      have hsum : w.position.toNat + (1 : UInt64).toNat < UInt64.size := by omega
      have hmove : w.move? .advance = some (w.moveTo (w.position + 1)) := by
        rw [WordCursor.move?, advance?, add?, if_pos hsum, Option.map_some]
      refine ⟨_, hmove, h.of_land rfl ?_⟩
      rw [h.toNat_moveTo, toNat_add hsum]
      simp only [Move.land, Move.isRefused, Move.target, Bool.false_eq_true, if_false]
      omega
  | advanceBy amount =>
      by_cases hamount : amount < 0
      · refine ⟨w, by simp [WordCursor.move?, advanceBy?, hamount], h.of_land rfl ?_⟩
        simp [Move.land, Move.isRefused, hamount, hposition]
      · have hmove : w.move? (.advanceBy amount) =
            some (w.moveTo (addUpTo w.position (UInt64.ofNat amount.toInt.toNat))) := by
          simp [WordCursor.move?, advanceBy?, hamount]
        have hpositive : 0 ≤ amount.toInt := by simpa [Int64.lt_iff_toInt_lt] using hamount
        have hbound : amount.toInt.toNat < UInt64.size := by
          have := amount.toInt_lt
          have : UInt64.size = 2 ^ 64 := rfl
          omega
        -- the length is below the largest word, so stopping there changes nothing
        refine ⟨_, hmove, h.of_land rfl ?_⟩
        rw [h.toNat_moveTo, toNat_addUpTo, UInt64.toNat_ofNat_of_lt' hbound, Move.land,
          if_neg (by simpa [Move.isRefused] using hamount), Move.target]
        omega
  | retreat count =>
      refine ⟨_, rfl, h.of_land rfl ?_⟩
      rw [WordCursor.retreat, toNat_subDownTo]
      simp only [Move.land, Move.isRefused, Move.target, Bool.false_eq_true, if_false]
      omega
  | reset =>
      refine ⟨_, rfl, h.of_land rfl ?_⟩
      simp only [WordCursor.reset, UInt64.toNat_zero, Move.land, Move.isRefused, Move.target,
        Bool.false_eq_true, if_false]
      omega

/-- Any moves end where the other cursor ends. -/
theorem Shows.moves? (h : Shows w c) (ms : List Move) :
    ∃ w', w.moves? ms = some w' ∧ Shows w' (ms.foldl Cursor.move c) := by
  induction ms generalizing w c with
  | nil => exact ⟨w, rfl, h⟩
  | cons m ms ih =>
      obtain ⟨w', hmove, h'⟩ := h.move? m
      obtain ⟨w'', hmoves, h''⟩ := ih h'
      exact ⟨w'', by rw [WordCursor.moves?, hmove]; exact hmoves, h''⟩

theorem shows_ofText {t : Text} (hfits : t.length + 1 < UInt64.size) :
    Shows (ofText t) (Cursor.ofText t) where
  text := rfl
  position := rfl
  fits := by rw [← Cursor.length_text]; exact hfits

private theorem Shows.slice? (h : Shows w c) {start stop : UInt64}
    (horder : start.toNat ≤ stop.toNat) (hstop : stop.toNat ≤ c.length) :
    w.slice? start stop = some ((c.text.take stop.toNat).drop start.toNat) := by
  rw [WordCursor.slice?, h.text, slice?_eq_some horder (by rw [c.length_text]; exact hstop)]

/-- What a cursor of words answers is what the other cursor answers: every slice lies in the text. -/
theorem Shows.answers (h : Shows w c) (n a b : UInt64) :
    w.lookahead? n = c.lookahead? n ∧ w.lookbehind? n = some (c.lookbehind n) ∧
      w.rest? = some c.ahead ∧ w.range? a b = some (c.range a b) := by
  have hle := c.position_le_length
  have hsize := h.toNat_size
  have hlength := c.length_text
  refine ⟨?_, ?_, ?_, ?_⟩
  · rw [lookahead?, Cursor.lookahead?, add?, h.position]
    by_cases hfits : c.position + n.toNat < UInt64.size
    · have hsum : (w.position + n).toNat = c.position + n.toNat := by
        rw [toNat_add (by rw [h.position]; exact hfits), h.position]
      have hstop : (min (w.position + n) w.size).toNat = min (c.position + n.toNat) c.length := by
        rw [toNat_min, hsum, hsize]
      simp only [if_pos hfits]
      rw [h.slice? (by rw [hstop, h.position]; omega) (by rw [hstop]; omega), hstop, h.position,
        List.drop_take, c.drop_position, List.take_eq_take_min (l := c.ahead) (i := n.toNat)]
      congr 2
      simp only [Cursor.position, Cursor.length]
      omega
    · simp only [if_neg hfits]
  · have hback := toNat_subDownTo w.position n
    rw [lookbehind?, h.slice? (by omega) (by rw [h.position]; exact hle), hback, h.position,
      c.answers.behind]
    congr 2
    omega
  · rw [rest?, h.slice? (by rw [h.position, hsize]; exact hle) (Nat.le_of_eq hsize), h.position, hsize,
      ← hlength, List.take_length, c.drop_position]
  · have hstop : (min b w.size).toNat = min b.toNat c.length := by rw [toNat_min, hsize]
    have hstart : (min a (min b w.size)).toNat = min a.toNat (min b.toNat c.length) := by
      rw [toNat_min, hstop]
    rw [range?, h.slice? (by rw [hstart, hstop]; omega) (by rw [hstop]; omega), hstart, hstop,
      c.answers.range, hlength]

end WordCursor

end Checked

namespace Cursor

open Checked

/-- The cursor after any moves from the start of a text. It stands in the text, where exact integers
lead; only negative amounts are refused, and a refused move changes nothing; and it answers about
the text around it, up to a look ahead whose end does not fit the word. A cursor of words moves and
answers alike: no other sum of words fails to fit, and every slice lies in the text. -/
theorem moves_exact (source : Text) (moves : List Move) :
    let c := moves.foldl move (ofText source)
    c.text = source ∧ c.position ≤ source.length ∧
      (c.position : Int) = moves.foldl (Move.land source.length) 0 ∧
      (∀ m, (c.move? m = none ↔ ∃ amount, m = .advanceBy amount ∧ amount < 0) ∧
        (c.move? m = none → c.move m = c)) ∧
      c.Answers source ∧
      (source.length + 1 < UInt64.size →
        ∃ w, (WordCursor.ofText source).moves? moves = some w ∧ w.text = source ∧
          w.position.toNat = c.position ∧ ∀ n a b,
            w.lookahead? n = c.lookahead? n ∧ w.lookbehind? n = some (c.lookbehind n) ∧
            w.rest? = some c.ahead ∧ w.range? a b = some (c.range a b)) := by
  intro c
  have hlength : (ofText source).length = source.length := by simp [ofText, length]
  obtain ⟨htext, hposition⟩ := (ofText source).moves moves
  rw [hlength] at hposition
  have hsource : c.text = source := htext.trans (by simp [ofText, text])
  refine ⟨hsource, ?_, hposition, fun m => ⟨?_, fun hrefused => ?_⟩, ?_, fun hfits => ?_⟩
  · rw [← hsource, length_text]
    exact c.position_le_length
  · rw [move?_eq_none]
    cases m <;> simp [Move.isRefused]
  · rw [move, hrefused, Option.getD_none]
  · have hanswers := c.answers
    rwa [hsource] at hanswers
  · obtain ⟨w, hmoves, hshows⟩ := (WordCursor.shows_ofText hfits).moves? moves
    exact ⟨w, hmoves, hshows.text.trans hsource, hshows.position, hshows.answers⟩

/-- Moves to the largest word and by the largest amount, and a refused one between them. -/
theorem moves_exact_largest :
    ("a\nb".toList.length + 1 < UInt64.size) ∧
      ∃ w, (WordCursor.ofText "a\nb".toList).moves? [.moveTo 18446744073709551615, .advanceBy (-1),
          .retreat 1, .advanceBy 9223372036854775807, .advance] = some w ∧
        w.position = 3 ∧ w.lookbehind? 18446744073709551615 = some "a\nb".toList := by
  have hfits : "a\nb".toList.length + 1 < UInt64.size := by decide
  obtain ⟨-, -, -, -, -, hwords⟩ := moves_exact "a\nb".toList [.moveTo 18446744073709551615,
    .advanceBy (-1), .retreat 1, .advanceBy 9223372036854775807, .advance]
  obtain ⟨w, hmoves, -, hplace, hanswers⟩ := hwords hfits
  refine ⟨hfits, w, hmoves, ?_, ?_⟩
  · exact UInt64.toNat_inj.mp (hplace.trans (by decide))
  · rw [(hanswers 18446744073709551615 0 0).2.1]
    decide

/-- A look ahead by the largest word from the second character of `ab` has no answer, though one
character lies ahead. -/
theorem lookahead_fails :
    ((ofText "ab".toList).move .advance).lookahead? 18446744073709551615 = none ∧
      ((ofText "ab".toList).move .advance).ahead = ['b'] ∧
      ((WordCursor.ofText "ab".toList).moves? [.advance]).bind
        (·.lookahead? 18446744073709551615) = none := by
  decide

end Cursor

end Stencil
