/-!
# White space

The characters of the property White_Space, and trimming by them.
-/
namespace Stencil

/-- Document text, source text and output text. -/
abbrev Text := List Char

/-! What is to hold of all characters of a text, or of one, is decided one by one. -/

instance (t : Text) (P : Char → Prop) [DecidablePred P] : Decidable (∀ c ∈ t, P c) :=
  List.decidableBAll P t

instance (t : Text) (P : Char → Prop) [DecidablePred P] : Decidable (∃ c ∈ t, P c) :=
  List.decidableBEx P t

/-- White space: blank, the controls from tab to carriage return, and the Unicode separators. -/
def isBlank (c : Char) : Bool :=
  c == ' ' || (9 ≤ c.val && c.val ≤ 13) || c.val == 0x85 || c.val == 0xA0 || c.val == 0x1680 ||
    (0x2000 ≤ c.val && c.val ≤ 0x200A) || c.val == 0x2028 || c.val == 0x2029 ||
    c.val == 0x202F || c.val == 0x205F || c.val == 0x3000

namespace Text

def trimStart (t : Text) : Text := t.dropWhile isBlank

theorem length_trimStart_le (t : Text) : (trimStart t).length ≤ t.length :=
  (List.dropWhile_suffix isBlank).length_le

def trimEnd (t : Text) : Text := (t.reverse.dropWhile isBlank).reverse

def trim (t : Text) : Text := trimEnd (trimStart t)

def byteLength (t : Text) : Nat := t.foldl (fun n c => n + c.utf8Size) 0

def contains (pattern : Text) : Text → Bool
  | [] => pattern.isEmpty
  | c :: cs => pattern.isPrefixOf (c :: cs) || contains pattern cs

end Text

end Stencil
