import Stencil.Proofs.Checked.Basic
import Stencil.Proofs.Text.Bytes
import Stencil.Text.Replace
/-!
# Places in bytes

A place in a text can be counted in the bytes before it. Such an offset is of use only where it lies
between two characters, and then it cuts the text in one way. All that is done at an offset is done
on the two parts: nothing comes of an offset inside a character or past the end.
-/
namespace Stencil.Checked

open Text

/-- The text before an offset and the text from it on, where it lies between two characters. -/
def cut? : Text → Nat → Option (Text × Text)
  | [], offset => if offset = 0 then some ([], []) else none
  | c :: cs, offset =>
    if offset = 0 then some ([], c :: cs)
    else (less? offset c.utf8Size).bind fun more => (cut? cs more).map (consFirst c)

def upTo? (t : Text) (offset : Nat) : Option Text := (cut? t offset).map (·.1)

def onFrom? (t : Text) (offset : Nat) : Option Text := (cut? t offset).map (·.2)

def between? (t : Text) (start stop : Nat) : Option Text :=
  (upTo? t stop).bind fun front => onFrom? front start

def insert? (t : Text) (offset : Nat) (more : Text) : Option Text :=
  (cut? t offset).map fun parts => parts.1 ++ more ++ parts.2

def truncate? (t : Text) (offset : Nat) : Option Text :=
  if offset ≤ t.byteLength then upTo? t offset else some t

/-- The characters of a text that stands at an offset, each with its own offset. -/
def offsetsFrom : Nat → Text → List (Nat × Char)
  | _, [] => []
  | offset, c :: cs => (offset, c) :: offsetsFrom (offset + c.utf8Size) cs

theorem cut?_append (u v : Text) : cut? (u ++ v) u.byteLength = some (u, v) := by
  induction u with
  | nil => cases v <;> rfl
  | cons c u ih =>
      have hc := c.utf8Size_pos
      rw [List.cons_append, cut?, byteLength_cons, if_neg (by omega),
        less?_eq_some (Nat.le_add_right _ _), Option.bind_some, Nat.add_sub_cancel_left, ih]
      rfl

/-- An offset cuts a text in one way, and only where it lies between two characters. -/
theorem cut?_eq_some {t u v : Text} {offset : Nat} :
    cut? t offset = some (u, v) ↔ t = u ++ v ∧ u.byteLength = offset := by
  constructor
  · intro h
    induction t generalizing offset u with
    | nil =>
        rw [cut?] at h
        split at h
        · rename_i hzero
          simp_all
        · simp at h
    | cons c cs ih =>
        rw [cut?] at h
        split at h
        · rename_i hzero
          simp_all
        · obtain ⟨more, hless, hcut⟩ := Option.bind_eq_some_iff.mp h
          obtain ⟨⟨u', v'⟩, hmore, hparts⟩ := Option.map_eq_some_iff.mp hcut
          obtain ⟨rfl, rfl⟩ := Prod.mk.inj hparts
          obtain ⟨rfl, hlength⟩ : cs = u' ++ v' ∧ u'.byteLength = more := ih hmore
          rw [less?] at hless
          split at hless
          · have hmore := Option.some.inj hless
            refine ⟨rfl, ?_⟩
            show byteLength (c :: u') = offset
            rw [byteLength_cons]
            omega
          · simp at hless
  · rintro ⟨rfl, rfl⟩
    exact cut?_append u v

/-- The second character of a text cannot be cut. -/
example : cut? "aé".toList 1 = some (['a'], ['é']) ∧ cut? "aé".toList 2 = none := by decide

section Parts

variable {t u v w : Text} {offset start stop : Nat}

theorem upTo?_eq_some (h : t = u ++ v) (hu : u.byteLength = offset) : upTo? t offset = some u := by
  rw [upTo?, cut?_eq_some.mpr ⟨h, hu⟩]
  rfl

theorem onFrom?_eq_some (h : t = u ++ v) (hu : u.byteLength = offset) :
    onFrom? t offset = some v := by
  rw [onFrom?, cut?_eq_some.mpr ⟨h, hu⟩]
  rfl

theorem between?_eq_some (h : t = u ++ (v ++ w)) (hu : u.byteLength = start)
    (hv : start + v.byteLength = stop) : between? t start stop = some v := by
  have hstop : upTo? t stop = some (u ++ v) :=
    upTo?_eq_some (by rw [h, List.append_assoc]) (by rw [byteLength_append, hu, hv])
  rw [between?, hstop, Option.bind_some, onFrom?_eq_some rfl hu]

theorem insert?_eq_some (h : t = u ++ v) (hu : u.byteLength = offset) (more : Text) :
    insert? t offset more = some (u ++ more ++ v) := by
  rw [insert?, cut?_eq_some.mpr ⟨h, hu⟩]
  rfl

theorem truncate?_eq_some (h : t = u ++ v) (hu : u.byteLength = offset) :
    truncate? t offset = some u := by
  have hle : offset ≤ t.byteLength := by
    rw [h, byteLength_append, hu]
    omega
  rw [truncate?, if_pos hle, upTo?_eq_some h hu]

end Parts

/-! ## Characters with their offsets -/

@[simp] theorem map_snd_offsetsFrom (offset : Nat) (t : Text) :
    (offsetsFrom offset t).map Prod.snd = t := by
  induction t generalizing offset with
  | nil => rfl
  | cons c t ih => rw [offsetsFrom, List.map_cons, ih]

theorem offsetsFrom_append (offset : Nat) (s t : Text) :
    offsetsFrom offset (s ++ t) = offsetsFrom offset s ++ offsetsFrom (offset + s.byteLength) t := by
  induction s generalizing offset with
  | nil => rfl
  | cons c s ih =>
      rw [List.cons_append, offsetsFrom, ih, byteLength_cons, ← Nat.add_assoc]
      rfl

@[simp] theorem length_offsetsFrom (offset : Nat) (t : Text) :
    (offsetsFrom offset t).length = t.length := by
  rw [← List.length_map Prod.snd, map_snd_offsetsFrom]

/-- The offset of the bracket that closes what is open at a depth, if there is one. A bracket that
closes more than is open cannot be counted. -/
def partner? (opening closing : Char) : Nat → List (Nat × Char) → Option (Option Nat)
  | _, [] => some none
  | depth, (offset, c) :: more =>
    if c = opening then partner? opening closing (depth + 1) more
    else if c = closing then
      (less? depth 1).bind fun outer =>
        if outer = 0 then some (some offset) else partner? opening closing outer more
    else partner? opening closing depth more

/-- In an open group the partner is found where the group is split off. -/
theorem partner?_eq_some (opening closing : Char) (depth : Nat) (places : List (Nat × Char)) :
    partner? opening closing (depth + 1) places =
      some ((splitGroup? opening closing depth (places.map Prod.snd)).bind fun found =>
        (places[found.1.length]?).map Prod.fst) := by
  induction places generalizing depth with
  | nil => rfl
  | cons place more ih =>
      obtain ⟨offset, c⟩ := place
      have further (d : Nat) : partner? opening closing (d + 1) more =
          some (((splitGroup? opening closing d (more.map Prod.snd)).map (consFirst c)).bind
            fun found => (((offset, c) :: more)[found.1.length]?).map Prod.fst) := by
        rw [ih, Option.bind_map]
        rfl
      rw [partner?, List.map_cons]
      by_cases ho : c = opening
      · rw [if_pos ho, further]
        cases depth <;> rw [splitGroup?, if_pos ho]
      · rw [if_neg ho]
        by_cases hc : c = closing
        · rw [if_pos hc, less?_succ, Option.bind_some]
          cases depth with
          | zero =>
              rw [if_pos rfl, splitGroup?, if_neg ho, if_pos hc]
              rfl
          | succ outer =>
              rw [if_neg (Nat.succ_ne_zero _), further, splitGroup?, if_neg ho, if_pos hc]
        · rw [if_neg hc, further]
          cases depth <;> rw [splitGroup?, if_neg ho, if_neg hc]

end Stencil.Checked
