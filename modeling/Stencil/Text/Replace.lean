import Stencil.Text.Word
/-!
# Replacement from left to right

A rule looks at the character before a place and at the text from there on. Where it applies, it
gives the text to put in and the text left over; matches never overlap, and what was put in is not
looked at again.
-/
namespace Stencil

/-- A rule of replacement: the new text and the rest of the old one, if the rule applies. -/
abbrev Rule := Option Char → Text → Option (Text × Text)

namespace Text

/-- Replacement with a number of characters still to be passed over. -/
def replaceFrom (rule : Rule) : Nat → Option Char → Text → Text
  | _, _, [] => []
  | pending + 1, _, c :: cs => replaceFrom rule pending (some c) cs
  | 0, before, c :: cs =>
    match rule before (c :: cs) with
    | some (new, rest) => new ++ replaceFrom rule (cs.length - rest.length) (some c) cs
    | none => c :: replaceFrom rule 0 (some c) cs

def replaceAll (rule : Rule) (t : Text) : Text := replaceFrom rule 0 none t

def consFirst (c : Char) (parts : Text × Text) : Text × Text := (c :: parts.1, parts.2)

/-- Split the text that follows an opening bracket into what the bracket holds and what comes
after its partner. -/
def splitGroup? (opening closing : Char) : Nat → Text → Option (Text × Text)
  | _, [] => none
  | depth, c :: cs =>
    if c = opening then
      (splitGroup? opening closing (depth + 1) cs).map (consFirst c)
    else if c = closing then
      match depth with
      | 0 => some ([], cs)
      | outer + 1 =>
        (splitGroup? opening closing outer cs).map (consFirst c)
    else
      (splitGroup? opening closing depth cs).map (consFirst c)

/-- What comes after the partner is shorter than what comes after the opening bracket. -/
theorem splitGroup?_length {opening closing : Char} {depth : Nat} {t inside rest : Text}
    (h : splitGroup? opening closing depth t = some (inside, rest)) : rest.length < t.length := by
  induction t generalizing depth inside with
  | nil => simp [splitGroup?] at h
  | cons c cs ih =>
    have deeper {d : Nat}
        (e : (splitGroup? opening closing d cs).map (consFirst c) = some (inside, rest)) :
        rest.length < (c :: cs).length := by
      obtain ⟨⟨i, r⟩, hr, hp⟩ := Option.map_eq_some_iff.mp e
      simp only [consFirst, Prod.mk.injEq] at hp
      obtain ⟨-, rfl⟩ := hp
      have := ih hr
      simp only [List.length_cons]
      omega
    unfold splitGroup? at h
    split at h
    · exact deeper h
    · split at h
      · cases depth with
        | zero =>
          simp only [Option.some.injEq, Prod.mk.injEq] at h
          simp [← h.2]
        | succ outer => exact deeper h
      · exact deeper h

/-- The text after the given word, if it begins with it. -/
def after? (word : Text) (t : Text) : Option Text :=
  if word.isPrefixOf t then some (t.drop word.length) else none

theorem after?_length {word t rest : Text} (h : after? word t = some rest) :
    rest.length + word.length = t.length := by
  unfold after? at h
  split at h
  · rename_i hp
    have hle := (List.isPrefixOf_iff_prefix.mp hp).length_le
    simp only [Option.some.injEq] at h
    rw [← h, List.length_drop]
    omega
  · simp at h

end Text

end Stencil
