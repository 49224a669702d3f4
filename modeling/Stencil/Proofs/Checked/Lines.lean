import Mathlib.Data.List.Induction
import Mathlib.Data.Prod.Lex
import Mathlib.Order.Interval.Set.Defs
import Mathlib.Order.Monotone.Basic
import Stencil.Proofs.Checked.Basic
import Stencil.Text.Cursor
/-!
# Lines and columns by an index

Reading a text again for every location would be slow, so the places of its line breaks are listed
once. A search by halves among them finds the line of a place, and the break before that line its
column. What is found is the location that counting gives: as many lines as line breaks come before
the place, and as many columns as characters since the last of them. So a location tells the place,
and later places have later locations.
-/
namespace Stencil.Checked

/-! ## Search by halves -/

/-- Where the search in a stretch of a list ends, halving the stretch: the only element that can be
the number, if one is. -/
def narrow? (xs : List Nat) (x base size : Nat) : Option Nat :=
  if size ≤ 1 then some base
  else
    match xs[base + size / 2]? with
    | some middle => narrow? xs x (if x < middle then base else base + size / 2) (size - size / 2)
    | none => none
termination_by size

/-- Search a sorted list: the index at which it holds a number, or else the index at which the
number would have to be put in. -/
def search? (xs : List Nat) (x : Nat) : Option (Except Nat Nat) :=
  if xs.isEmpty then some (.error 0)
  else
    match narrow? xs x 0 xs.length with
    | none => none
    | some base =>
      xs[base]?.map fun y =>
        if y = x then .ok base else .error (if y < x then base + 1 else base)

def merge : Except Nat Nat → Nat
  | .ok index | .error index => index

variable {xs : List Nat} {x : Nat}

/-- What lies before a stretch is not above the number, and neither is the first element of the
stretch, unless it is the first of the list; what lies behind the stretch is above the number. -/
structure Narrowed (xs : List Nat) (x base size : Nat) : Prop where
  inside : base + size ≤ xs.length
  first : base = 0 ∨ ∀ hbase : base < xs.length, xs[base] ≤ x
  behind : ∀ i (hi : i < xs.length), base + size ≤ i → x < xs[i]

theorem Narrowed.narrow? {base size : Nat} (hsorted : xs.Pairwise (· < ·)) (hsize : 0 < size)
    (h : Narrowed xs x base size) : ∃ base', narrow? xs x base size = some base' ∧
      Narrowed xs x base' 1 := by
  induction size using Nat.strongRecOn generalizing base with
  | ind size ih =>
      rw [Checked.narrow?]
      split
      · have hone : size = 1 := by omega
        subst hone
        exact ⟨base, rfl, h⟩
      · have hinside := h.inside
        have hmiddle : base + size / 2 < xs.length := by omega
        rw [List.getElem?_eq_getElem hmiddle]
        simp only
        split
        · rename_i hless
          refine ih (size - size / 2) (by omega) (by omega) ⟨by omega, h.first, ?_⟩
          intro i hi hbehind
          rcases Nat.lt_or_ge (base + size / 2) i with hlater | hearlier
          · exact hless.trans (List.pairwise_iff_getElem.mp hsorted _ _ hmiddle hi hlater)
          · -- the stretch may end right before the middle
            have : i = base + size / 2 := by omega
            subst this
            exact hless
        · rename_i hless
          exact ih (size - size / 2) (by omega) (by omega)
            ⟨by omega, .inr fun _ => Nat.le_of_not_lt hless, fun i hi hbehind =>
              h.behind i hi (by omega)⟩

/-- The elements of a list that are below the number are counted where they stand in front. -/
private theorem countP_eq_of_front {k : Nat} (hk : k ≤ xs.length)
    (hbelow : ∀ i (hi : i < xs.length), i < k → xs[i] < x)
    (habove : ∀ i (hi : i < xs.length), k ≤ i → x ≤ xs[i]) : xs.countP (· < x) = k := by
  have hfront : (xs.take k).countP (· < x) = k := by
    rw [List.countP_eq_length.mpr, List.length_take, Nat.min_eq_left hk]
    intro y hy
    obtain ⟨i, hi, rfl⟩ := List.mem_take_iff_getElem.mp hy
    simpa using hbelow i (by omega) (by omega)
  have hback : (xs.drop k).countP (· < x) = 0 := by
    rw [List.countP_eq_zero]
    intro y hy
    obtain ⟨i, hi, rfl⟩ := List.mem_drop_iff_getElem.mp hy
    simpa using habove (k + i) (by omega) (by omega)
  calc xs.countP (· < x) = (xs.take k ++ xs.drop k).countP (· < x) := by
        rw [List.take_append_drop]
    _ = k := by rw [List.countP_append, hfront, hback, Nat.add_zero]

/-- A search gives how many elements of a sorted list are below the number, found or not. -/
theorem search?_eq_some (hsorted : xs.Pairwise (· < ·)) :
    ∃ result, search? xs x = some result ∧ merge result = xs.countP (· < x) := by
  by_cases hempty : xs = []
  · subst hempty
    exact ⟨.error 0, rfl, rfl⟩
  have hwhole : Narrowed xs x 0 xs.length :=
    ⟨by omega, .inl rfl, fun i hi hbehind => by omega⟩
  obtain ⟨base, hnarrow, hinside, hfirst, hbehind⟩ :=
    hwhole.narrow? hsorted (List.length_pos_iff.mpr hempty)
  have hbase : base < xs.length := hinside
  have hsearch : search? xs x = some (if xs[base] = x then .ok base
      else .error (if xs[base] < x then base + 1 else base)) := by
    simp [search?, hempty, hnarrow, List.getElem?_eq_getElem hbase]
  have hearlier : ∀ i (hi : i < xs.length), i < base → xs[i] < xs[base] := fun i hi hless =>
    List.pairwise_iff_getElem.mp hsorted i base hi hbase hless
  refine ⟨_, hsearch, ?_⟩
  rcases Nat.lt_trichotomy xs[base] x with hless | heq | hgreater
  · rw [if_neg hless.ne, if_pos hless]
    refine (countP_eq_of_front hinside (fun i hi hfront => ?_) fun i hi hback => ?_).symm
    · rcases Nat.lt_or_eq_of_le (Nat.le_of_lt_succ hfront) with hlt | rfl
      · exact (hearlier i hi hlt).trans hless
      · exact hless
    · exact (hbehind i hi hback).le
  · rw [if_pos heq]
    refine (countP_eq_of_front hbase.le (fun i hi hfront => ?_) fun i hi hback => ?_).symm
    · exact heq ▸ hearlier i hi hfront
    · rcases Nat.lt_or_eq_of_le hback with hlt | rfl
      · exact (hbehind i hi hlt).le
      · exact heq.ge
  · -- only the first element of the list can be above the number
    have hzero : base = 0 := hfirst.resolve_right fun h => by
      have := h hbase
      omega
    rw [if_neg hgreater.ne', if_neg hgreater.not_gt]
    refine (countP_eq_of_front hbase.le (fun i hi hfront => by omega) fun i hi hback => ?_).symm
    rcases Nat.lt_or_eq_of_le hback with hlt | rfl
    · exact (hbehind i hi hlt).le
    · exact hgreater.le

/-! ## The index of a text -/

def breaksFrom : Nat → Text → List Nat
  | _, [] => []
  | place, c :: cs => if c = '\n' then place :: breaksFrom (place + 1) cs else breaksFrom (place + 1) cs

theorem breaksFrom_append (place : Nat) (s t : Text) :
    breaksFrom place (s ++ t) = breaksFrom place s ++ breaksFrom (place + s.length) t := by
  induction s generalizing place with
  | nil => rfl
  | cons c s ih =>
      have hplace : place + (c :: s).length = place + 1 + s.length := by
        simp only [List.length_cons]
        omega
      rw [List.cons_append, breaksFrom, breaksFrom, ih, hplace]
      split <;> rfl

theorem length_breaksFrom (place : Nat) (t : Text) :
    (breaksFrom place t).length = t.count '\n' := by
  induction t generalizing place with
  | nil => rfl
  | cons c t ih =>
      rw [breaksFrom, List.count_cons]
      split
      · rename_i hc
        simp [hc, ih]
      · rename_i hc
        simp [hc, ih]

theorem mem_breaksFrom {place i : Nat} {t : Text} (h : i ∈ breaksFrom place t) :
    place ≤ i ∧ i < place + t.length := by
  induction t generalizing place with
  | nil => simp [breaksFrom] at h
  | cons c t ih =>
      have hmore : i = place ∨ i ∈ breaksFrom (place + 1) t := by
        rw [breaksFrom] at h
        split at h
        · exact List.mem_cons.mp h
        · exact .inr h
      simp only [List.length_cons]
      rcases hmore with rfl | hmore
      · omega
      · have := ih hmore
        omega

theorem pairwise_breaksFrom (place : Nat) (t : Text) : (breaksFrom place t).Pairwise (· < ·) := by
  induction t generalizing place with
  | nil => exact .nil
  | cons c t ih =>
      rw [breaksFrom]
      split
      · refine List.pairwise_cons.mpr ⟨fun i hi => ?_, ih (place + 1)⟩
        have := mem_breaksFrom hi
        omega
      · exact ih (place + 1)

/-- The places of the line breaks of a text, in order, and its length. -/
structure LineIndex where
  breaks : List Nat
  length : Nat
deriving Repr, DecidableEq

namespace LineIndex

def ofText (t : Text) : LineIndex := ⟨breaksFrom 0 t, t.length⟩

def lineCount (index : LineIndex) : Nat := index.breaks.length + 1

/-- Where the line begins that has so many line breaks before it. -/
def lineStart? (index : LineIndex) : Nat → Option Nat
  | 0 => some 0
  | row + 1 => index.breaks[row]?.map (· + 1)

/-- The location of a place, found in the index. Places past the end count as the end. -/
def location? (index : LineIndex) (place : Nat) : Option Location :=
  let place := min place index.length
  match search? index.breaks place with
  | none => none
  | some result =>
    let row := merge result
    match index.lineStart? row with
    | none => none
    | some start => (less? place start).map fun column => ⟨row + 1, column + 1⟩

end LineIndex

end Stencil.Checked

namespace Stencil.Location

open Checked

/-- What was read of the line that a text ends in. -/
def lineRead (t : Text) : Text := t.reverse.takeWhile (· != '\n')

/-- The location after a text, counted. -/
def after (t : Text) : Location := ⟨1 + t.count '\n', 1 + (lineRead t).length⟩

theorem foldl_step (t : Text) : t.foldl step start = after t := by
  induction t using List.reverseRecOn with
  | nil => rfl
  | append_singleton t c ih =>
      rw [List.foldl_append, ih, List.foldl_cons, List.foldl_nil, step]
      split
      · rename_i hc
        simp [after, lineRead, hc, Nat.add_assoc]
      · rename_i hc
        simp [after, lineRead, hc, Nat.add_comm]

/-- A location is counted on what comes before the place. -/
theorem ofPosition_eq (t : Text) (place : Nat) : ofPosition t place = after (t.take place) :=
  foldl_step _

private theorem ne_break {line : Text} (h : '\n' ∉ line) : ∀ c ∈ line.reverse, (c != '\n') = true := by
  intro c hc
  have hne : c ≠ '\n' := by
    rintro rfl
    exact h (List.mem_reverse.mp hc)
  simpa using hne

theorem lineRead_of_not_mem {t : Text} (h : '\n' ∉ t) : lineRead t = t.reverse := by
  rw [lineRead, ← List.append_nil t.reverse, List.takeWhile_append_of_pos (ne_break h),
    List.takeWhile_nil]

theorem lineRead_after_break (s : Text) {line : Text} (h : '\n' ∉ line) :
    lineRead (s ++ '\n' :: line) = line.reverse := by
  rw [lineRead, List.reverse_append, List.reverse_cons, List.append_assoc,
    List.takeWhile_append_of_pos (ne_break h)]
  simp

end Stencil.Location

namespace Stencil.Checked.LineIndex

open Location

/-- Where the last line of a text begins, the breaks of more text being listed after its own. -/
private theorem lineStart?_last (s : Text) (more : List Nat) (length : Nat) :
    ∃ start, lineStart? ⟨breaksFrom 0 s ++ more, length⟩ (s.count '\n') = some start ∧
      start + (lineRead s).length = s.length := by
  by_cases hmem : '\n' ∈ s
  · -- the last break of the text is the first one read backwards
    obtain ⟨back, front, hsplit, hline⟩ := List.eq_append_cons_of_mem (List.mem_reverse.mpr hmem)
    obtain ⟨line, rfl⟩ : ∃ line, line.reverse = back := ⟨back.reverse, List.reverse_reverse back⟩
    have hs : s = front.reverse ++ '\n' :: line := by
      rw [← List.reverse_reverse s, hsplit]
      simp
    have hline' : '\n' ∉ line := fun h => hline (List.mem_reverse.mpr h)
    have hcount : s.count '\n' = (breaksFrom 0 front.reverse).length + 1 := by
      rw [length_breaksFrom, hs, List.count_append, List.count_cons_self,
        List.count_eq_zero.mpr hline']
    refine ⟨front.length + 1, ?_, ?_⟩
    · rw [hcount, lineStart?, hs, breaksFrom_append, List.append_assoc,
        List.getElem?_append_right (Nat.le_refl _), Nat.sub_self, breaksFrom, if_pos rfl]
      simp
    · rw [hs, lineRead_after_break _ hline']
      simp only [List.length_append, List.length_reverse, List.length_cons]
      omega
  · refine ⟨0, ?_, ?_⟩
    · rw [List.count_eq_zero.mpr hmem, lineStart?]
    · rw [lineRead_of_not_mem hmem, List.length_reverse, Nat.zero_add]

/-- The breaks before a place are the breaks of the text up to there. -/
private theorem countP_breaks (s t : Text) :
    (breaksFrom 0 (s ++ t)).countP (· < s.length) = s.count '\n' := by
  rw [breaksFrom_append, List.countP_append, List.countP_eq_length.mpr, List.countP_eq_zero.mpr,
    length_breaksFrom, Nat.add_zero]
  · intro i hi
    have := mem_breaksFrom hi
    simp only [decide_eq_true_eq]
    omega
  · intro i hi
    have := mem_breaksFrom hi
    simp only [decide_eq_true_eq]
    omega

/-- The index gives the location that counting gives, for every place. -/
theorem location?_eq_some (t : Text) (place : Nat) :
    (ofText t).location? place = some (Location.ofPosition t place) := by
  have hread : (t.take place).length = min place t.length := List.length_take
  obtain ⟨result, hsearch, hmerge⟩ :=
    search?_eq_some (x := min place t.length) (pairwise_breaksFrom 0 t)
  have hbreaks : breaksFrom 0 t =
      breaksFrom 0 (t.take place) ++ breaksFrom (0 + (t.take place).length) (t.drop place) := by
    rw [← breaksFrom_append, List.take_append_drop]
  have hrow : merge result = (t.take place).count '\n' := by
    have hcount := countP_breaks (t.take place) (t.drop place)
    rwa [List.take_append_drop, hread, ← hmerge] at hcount
  obtain ⟨start, hstart, hcolumn⟩ := lineStart?_last (t.take place)
    (breaksFrom (0 + (t.take place).length) (t.drop place)) t.length
  rw [← hbreaks] at hstart
  have hless : less? (min place t.length) start = some (lineRead (t.take place)).length := by
    rw [less?_eq_some (by omega)]
    congr 1
    omega
  rw [ofPosition_eq, after, Nat.add_comm 1, Nat.add_comm 1]
  simp only [location?, ofText, hsearch, hrow, hstart, hless, Option.map_some]

end Stencil.Checked.LineIndex

namespace Stencil.Location

/-! ## The order of locations -/

/-- A location as a pair, which is ordered by the line first and by the column then. -/
def pair (here : Location) : Nat ×ₗ Nat := toLex (here.line, here.column)

theorem pair_lt_step (here : Location) (c : Char) : here.pair < (here.step c).pair := by
  rw [pair, pair, step, Prod.Lex.toLex_lt_toLex]
  split
  · exact .inl (Nat.lt_succ_self _)
  · exact .inr ⟨rfl, Nat.lt_succ_self _⟩

theorem pair_le_foldl (here : Location) (t : Text) : here.pair ≤ (t.foldl step here).pair := by
  induction t generalizing here with
  | nil => exact le_refl _
  | cons c t ih => exact (pair_lt_step here c).le.trans (ih (here.step c))

/-- A text that goes on ends at a later location. -/
theorem pair_after_lt (s : Text) {t : Text} (ht : t ≠ []) :
    (after s).pair < (after (s ++ t)).pair := by
  obtain ⟨c, t, rfl⟩ := List.exists_cons_of_ne_nil ht
  rw [← foldl_step (s ++ c :: t), List.foldl_append, foldl_step, List.foldl_cons]
  exact (pair_lt_step _ c).trans_le (pair_le_foldl _ t)

end Stencil.Location

namespace Stencil.Cursor

open Checked Location

/-- The location of a place of a text, as the index of its lines gives it: one more than the line
breaks before the place, and one more than the characters since the last of them, a place past the
end counting as the end. Up to the end each place has a location of its own, a later one the later
the place, and no location lies past the last line. -/
theorem locationAt_counts (c : Cursor) :
    (∀ place, (LineIndex.ofText c.text).location? place = some (c.locationAt place) ∧
      c.locationAt place = ⟨1 + (c.text.take (min place c.length)).count '\n',
        1 + (lineRead (c.text.take (min place c.length))).length⟩ ∧
      (c.locationAt place).line ≤ (LineIndex.ofText c.text).lineCount) ∧
    (LineIndex.ofText c.text).lineCount = c.text.lineCount ∧
    StrictMonoOn (fun place => (c.locationAt place).pair) (Set.Iic c.length) ∧
    Set.InjOn c.locationAt (Set.Iic c.length) := by
  have hlength : c.text.length = c.length := by simp [text, length]
  have hlines : (LineIndex.ofText c.text).lineCount = c.text.lineCount := by
    rw [LineIndex.lineCount, LineIndex.ofText, length_breaksFrom, Text.lineCount]
  have hmono : StrictMonoOn (fun place => (c.locationAt place).pair) (Set.Iic c.length) := by
    intro p hp q hq hless
    obtain ⟨more, hmore⟩ := List.take_prefix_take_left (l := c.text) hless.le
    have hne : more ≠ [] := by
      rintro rfl
      have := congrArg List.length hmore
      simp only [Set.mem_Iic] at hp hq
      simp only [List.append_nil, List.length_take, hlength] at this
      omega
    simp only [locationAt, ofPosition_eq, ← hmore]
    exact pair_after_lt _ hne
  refine ⟨fun place => ⟨LineIndex.location?_eq_some _ _, ?_, ?_⟩, hlines, hmono, ?_⟩
  · rw [locationAt, ofPosition_eq, after, ← hlength, ← List.take_eq_take_min]
  · rw [hlines, locationAt, ofPosition_eq, after, Text.lineCount, Nat.add_comm 1]
    exact Nat.succ_le_succ ((List.take_sublist place c.text).count_le '\n')
  · intro p hp q hq hsame
    exact hmono.injOn hp hq (congrArg pair hsame)

end Stencil.Cursor
