import Stencil.Proofs.Checked.Heads
import Stencil.Proofs.Checked.Lower
import Stencil.Proofs.Checked.Repair
/-!
# The passes over a text

Masking, normalization, lowering and repair go through their texts by places and byte offsets, cut
them, shorten them and put more text in. None of them ever does so at a place that the text does not
have, inside a character or in the wrong order, and none counts below zero or goes on for ever:
whatever the source, each comes to its result.
-/
namespace Stencil.Checked

open Text

/-- The canonical brace form of a body, the mask and the colon heads by places and offsets. The other
rules use none. -/
def normalize? (body : Text) : Option Text :=
  (mask? body).bind fun m => (colonHeads? m.text).map fun t =>
    let braced := t.replaceAll Normalize.colonElse |>.replaceAll Normalize.statementElse
      |>.replaceAll Normalize.blockEnd
    m.restore (Normalize.collapse m braced)

theorem normalize?_eq_some (body : Text) : normalize? body = some (normalize body) := by
  rw [normalize?, mask?_eq_some, Option.bind_some, colonHeads?_eq_some]
  rfl

theorem blockHead?_eq_some (t : Text) : blockHead? t =
    some ((Lower.head? t.reverse).map fun found => (found.1, byteLength found.2.2)) := by
  have h := blockHead?_reverse t.reverse
  rwa [List.reverse_reverse] at h

theorem openBrace?_eq_some (t : Text) (braces : List Lower.Brace) : openBrace? t braces =
    some ((Lower.openBrace t.reverse braces).1.reverse, (Lower.openBrace t.reverse braces).2) := by
  have h := openBrace?_reverse t.reverse braces
  rwa [List.reverse_reverse] at h

/-- Whatever the text, each pass over it and each search in it has its result, so none of them reads,
cuts, writes or counts where it must not. -/
theorem passes_in_range (t : Text) :
    mask? t = some (Mask.ofText t) ∧
    colonHeads? t = some (t.replaceAll Normalize.colonHead) ∧
    normalize? t = some (normalize t) ∧
    lower? t = some (lower t) ∧
    repair? t = some (repair t) ∧
    blockHead? t = some ((Lower.head? t.reverse).map fun found =>
      (found.1, byteLength found.2.2)) ∧
    (∀ braces, openBrace? t braces = some ((Lower.openBrace t.reverse braces).1.reverse,
      (Lower.openBrace t.reverse braces).2)) ∧
    ∀ ahead, matchingClose? (t ++ '(' :: ahead) t.byteLength =
      some ((splitGroup? '(' ')' 0 ahead).map fun found => t.byteLength + 1 + byteLength found.1) :=
  ⟨mask?_eq_some t, colonHeads?_eq_some t, normalize?_eq_some t, lower?_eq_some t, repair?_eq_some t,
    blockHead?_eq_some t, openBrace?_eq_some t, fun _ => matchingClose?_eq_some rfl rfl⟩

end Stencil.Checked
