import Stencil.Proofs.Mask.Renumber
import Stencil.Proofs.Normalize.Rules
/-!
# Block words

The rules for blocks read words of their own. Code in which no such word stands passes them as it
is, whatever white space and punctuation follow.
-/
namespace Stencil.Normalize

open Text

def blockWords : List String :=
  ["if", "else", "elseif", "for", "while", "endif", "endfor", "endwhile"]

/-- Whether a block word stands in a text, the given character standing before it. -/
def hasBlockWord : Option Char → Text → Bool
  | _, [] => false
  | before, c :: cs =>
    (wordMayBegin before && blockWords.any fun word =>
      (after? word.toList (c :: cs)).any wordHasEnded) || hasBlockWord (some c) cs

theorem hasBlockWord_iff {before : Option Char} {t : Text} :
    hasBlockWord before t = true ↔ ∃ word ∈ blockWords, ∃ u v, t = u ++ word.toList ++ v ∧
      wordMayBegin (lastOr before u) = true ∧ wordHasEnded v = true := by
  induction t generalizing before with
  | nil =>
      refine iff_of_false (by simp [hasBlockWord]) ?_
      rintro ⟨word, hw, u, v, h, -⟩
      rw [eq_comm, List.append_eq_nil_iff, List.append_eq_nil_iff] at h
      exact absurd h.1.2 ((show ∀ word ∈ blockWords, word.toList ≠ [] by decide) word hw)
  | cons c cs ih =>
      rw [hasBlockWord, Bool.or_eq_true, Bool.and_eq_true, List.any_eq_true, ih]
      constructor
      · rintro (⟨hbegin, word, hw, hany⟩ | ⟨word, hw, u, v, rfl, hbegin, hended⟩)
        · obtain ⟨v, hv, hended⟩ := (Option.any_eq_true ..).mp hany
          exact ⟨word, hw, [], v, after?_eq_some.mp hv, hbegin, hended⟩
        · exact ⟨word, hw, c :: u, v, rfl, hbegin, hended⟩
      · rintro ⟨word, hw, u, v, ht, hbegin, hended⟩
        cases u with
        | nil =>
            rw [List.nil_append] at ht
            refine Or.inl ⟨hbegin, word, hw, ?_⟩
            rw [ht, after?_append]
            exact hended
        | cons d u =>
            rw [List.cons_append, List.cons_append, List.cons.injEq] at ht
            obtain ⟨rfl, rfl⟩ := ht
            exact Or.inr ⟨word, hw, u, v, rfl, hbegin, hended⟩

/-- No block word stands in the text. -/
def Wordless (t : Text) : Prop := hasBlockWord none t = false

instance (t : Text) : Decidable (Wordless t) := inferInstanceAs (Decidable (_ = false))

theorem Wordless.not_word {t u v : Text} (h : Wordless t) {word : String} (hw : word ∈ blockWords)
    (ht : t = u ++ word.toList ++ v) (hbegin : wordMayBegin (lastOr none u) = true)
    (hended : wordHasEnded v = true) : False := by
  have hin : hasBlockWord none t = true :=
    hasBlockWord_iff.mpr ⟨word, hw, u, v, ht, hbegin, hended⟩
  rw [Wordless, hin] at h
  simp at h

/-- The words are the same in every numbering. -/
theorem wordless_textFrom {ts : List Tile} (k : Nat) (h : Wordless (Mask.textFrom 0 ts)) :
    Wordless (Mask.textFrom k ts) := by
  rw [Wordless, Bool.eq_false_iff]
  intro hin
  obtain ⟨word, hw, u, v, ht, hbegin, hended⟩ := hasBlockWord_iff.mp hin
  have hbare := (show ∀ word ∈ blockWords, word.toList ≠ [] ∧ Symbol.Bare word.toList by decide)
    word hw
  rw [Symbol.textFrom_eq_spell] at ht
  obtain ⟨u', v', ht', hlast, hhead⟩ := Symbol.exists_unshifted hbare.1 hbare.2 ht
  rw [Symbol.spell_number] at ht'
  refine h.not_word hw ht' (by rw [hlast]; exact hbegin) ?_
  rw [wordHasEnded, hhead]
  exact hended

/-! ## Where the rules for blocks apply -/

/-- What the rules for blocks begin to read: a block word, or `end` and one of the blocks. -/
def keys : List Text :=
  (blockWords ++ ["end if", "end for", "end while"]).map String.toList

/-- Wherever the rule applies, it reads a key that ends there. -/
def Keyed (rule : Rule) : Prop :=
  ∀ {before t found}, rule before t = some found → wordMayBegin before = true ∧
    ∃ key ∈ keys, ∃ rest, t = key ++ rest ∧ wordHasEnded rest = true

private theorem ended_cons {c : Char} (hc : isWordChar c = false) (t : Text) :
    wordHasEnded (c :: t) = true := by
  simp [wordHasEnded, hc]

private theorem ended_blank_cons {b : Text} (hb : Blank b) {c : Char} (hflush : isBlank c = false)
    (hc : isWordChar c = false) (t : Text) : wordHasEnded (b ++ c :: t) = true := by
  refine ended_blank_append hb ?_
  rw [trimStart_of_flush (flush_cons.mpr hflush)]
  exact ended_cons hc t

theorem keyed_colonHead : Keyed colonHead := by
  intro before t found h
  obtain ⟨⟨keyword, afterOpen⟩, hhead, -⟩ := Option.map_eq_some_iff.mp h
  obtain ⟨hbegin, hkey, b, hb, rfl⟩ := BlockHead.read?_eq_some.mp hhead
  have hended := ended_blank_cons hb (c := '(') (by decide) (by decide) afterOpen
  refine ⟨hbegin, ?_⟩
  cases hkey with
  | @plain word hw =>
      have hmem := (show ∀ word ∈ ["if", "for", "while"], word.toList ∈ keys by decide) word hw
      exact ⟨_, hmem, _, rfl, hended⟩
  | @branch b' hb' =>
      cases b' with
      | nil =>
          exact ⟨"elseif".toList, by decide, _, rfl, hended⟩
      | cons c b' =>
          refine ⟨"else".toList, by decide, _, List.append_assoc .., ?_⟩
          exact ended_cons (isWordChar_of_blank (hb' c (by simp))) _

theorem keyed_colonElse : Keyed colonElse := by
  intro before t ⟨new, rest⟩ h
  obtain ⟨hbegin, ⟨b, hb, rfl⟩, -⟩ := colonElse_eq_some.mp h
  exact ⟨hbegin, "else".toList, by decide, _, rfl, ended_blank_cons hb (by decide) (by decide) rest⟩

theorem keyed_blockEnd : Keyed blockEnd := by
  intro before t ⟨new, rest⟩ h
  obtain ⟨hbegin, -, word, hw, space, b, stop, -, -, hspace, rfl, hended⟩ := blockEnd_eq_some h
  have hkeys : ∀ word ∈ ["if", "for", "while"], ∀ space ∈ [[], [' ']],
      "end".toList ++ (space ++ word.toList) ∈ keys := by decide
  refine ⟨hbegin, _, hkeys word hw space ?_, _, List.append_assoc .., hended⟩
  rcases hspace with rfl | ⟨rfl, -⟩ <;> simp

/-! ## Code that is passed over -/

section Keyed

variable {rule : Rule}

/-- A key ends in a block word that can begin where it stands. -/
private theorem exists_word_of_key : ∀ key ∈ keys, ∃ word ∈ blockWords, ∃ u, key = u ++ word.toList ∧
    (u = [] ∨ u = "end ".toList) := by
  have hall : ∀ key ∈ keys, ∃ word ∈ blockWords, key = word.toList ∨
      key = "end ".toList ++ word.toList := by decide
  intro key hkey
  obtain ⟨word, hw, h | h⟩ := hall key hkey
  · exact ⟨word, hw, [], h, Or.inl rfl⟩
  · exact ⟨word, hw, _, h, Or.inr rfl⟩

/-- The rest of a key begins with a character of a word, white space apart. -/
private theorem not_ended_of_key {key a z r : Text} (hkey : key ∈ keys) (hsplit : key = a ++ z)
    (hz : z ≠ []) : wordHasEnded (trimStart (z ++ r)) = false := by
  have hall : ∀ key ∈ keys, ∀ n ∈ List.range key.length,
      ((key.drop n).dropWhile isBlank).head?.any isWordChar = true := by decide
  have hlen : a.length < key.length := by
    have := List.length_pos_iff.mpr hz
    rw [hsplit, List.length_append]
    omega
  have h := hall key hkey a.length (List.mem_range.mpr hlen)
  rw [hsplit, List.drop_left] at h
  obtain ⟨c, hc, hword⟩ := (Option.any_eq_true ..).mp h
  obtain ⟨tail, htail⟩ := List.head?_eq_some_iff.mp hc
  obtain ⟨b, hb, hzb⟩ := exists_blank_trimStart z
  rw [show trimStart z = c :: tail from htail] at hzb
  have hflush : isBlank c = false := by
    cases hblank : isBlank c with
    | false => rfl
    | true =>
        rw [isWordChar_of_blank hblank] at hword
        simp at hword
  rw [hzb, List.append_assoc, List.cons_append, trimStart_append hb (flush_cons.mpr hflush)]
  simp [wordHasEnded, hword]

private theorem mayBegin_none {before : Option Char} {u : Text}
    (h : wordMayBegin (lastOr before u) = true) : wordMayBegin (lastOr none u) = true := by
  cases u with
  | nil => rfl
  | cons c u => exact h

/-- A stretch without block words is copied, if no word runs on after it. -/
theorem Keyed.wordless (hrule : Keyed rule) {before : Option Char} {s t : Text} (hs : Wordless s)
    (ht : wordHasEnded (trimStart t) = true) :
    replaceFrom rule 0 before (s ++ t) = s ++ replaceFrom rule 0 (lastOr before s) t := by
  refine replaceFrom_pass fun u c v hsplit => ?_
  cases hr : rule (lastOr before u) (c :: v ++ t) with
  | none => rfl
  | some found =>
      obtain ⟨hbegin, key, hkey, rest, hread, hended⟩ := hrule hr
      -- a key inside the stretch has a block word of the stretch at its end
      have inside {v' : Text} (hv : c :: v = key ++ v') (hv' : wordHasEnded v' = true) : False := by
        obtain ⟨word, hw, u', hword, hu'⟩ := exists_word_of_key key hkey
        have hoccurs : s = (u ++ u') ++ word.toList ++ v' := by
          rw [hsplit, hv, hword]
          simp
        refine hs.not_word hw hoccurs ?_ hv'
        rw [lastOr_append]
        rcases hu' with rfl | rfl
        · exact mayBegin_none hbegin
        · rfl
      rcases List.append_eq_append_iff.mp hread with ⟨z, hz, htail⟩ | ⟨v', hv', rfl⟩
      · by_cases hnil : z = []
        · subst hnil
          exact (@inside [] (by rw [hz, List.append_nil, List.append_nil]) rfl).elim
        · have hrun := not_ended_of_key (r := rest) hkey hz hnil
          rw [← htail, ht] at hrun
          simp at hrun
      · refine (inside hv' ?_).elim
        cases v' with
        | nil => rfl
        | cons d v' => exact hended

/-- Characters outside every word are copied. -/
theorem Keyed.outside (hrule : Keyed rule) (before : Option Char) {s : Text}
    (hs : ∀ c ∈ s, isWordChar c = false) (t : Text) :
    replaceFrom rule 0 before (s ++ t) = s ++ replaceFrom rule 0 (lastOr before s) t := by
  refine replaceFrom_pass fun u c v hsplit => ?_
  cases hr : rule (lastOr before u) (c :: v ++ t) with
  | none => rfl
  | some found =>
      obtain ⟨-, key, hkey, rest, hread, -⟩ := hrule hr
      obtain ⟨d, ds, rfl, hd⟩ := (show ∀ key ∈ keys, ∃ d ds, key = d :: ds ∧ isWordChar d = true by
        intro key hkey
        have hall : ∀ key ∈ keys, key.head?.any isWordChar = true := by decide
        obtain ⟨d, hd, hword⟩ := (Option.any_eq_true ..).mp (hall key hkey)
        obtain ⟨ds, hds⟩ := List.head?_eq_some_iff.mp hd
        exact ⟨d, ds, hds, hword⟩) key hkey
      rw [List.cons_append, List.cons_append, List.cons.injEq] at hread
      rw [← hread.1, hs c (by rw [hsplit]; simp)] at hd
      simp at hd

/-- A word is copied when the rule does not apply at its beginning. -/
theorem Keyed.word (hrule : Keyed rule) {before : Option Char} {w t : Text}
    (hw : ∀ c ∈ w, isWordChar c = true) (h : rule before (w ++ t) = none) :
    replaceFrom rule 0 before (w ++ t) = w ++ replaceFrom rule 0 (lastOr before w) t := by
  refine replaceFrom_pass fun u c v hsplit => ?_
  cases u with
  | nil =>
      rw [List.nil_append] at hsplit
      rw [← hsplit]
      exact h
  | cons d u =>
      cases hr : rule (lastOr before (d :: u)) (c :: v ++ t) with
      | none => rfl
      | some found =>
          -- inside the word none begins
          obtain ⟨hbegin, -⟩ := hrule hr
          obtain ⟨e, he, hl⟩ := exists_mem_lastOr before d u
          have hword := hw e (by rw [hsplit]; exact List.mem_append_left _ he)
          rw [hl] at hbegin
          simp [wordMayBegin, hword] at hbegin

end Keyed

end Stencil.Normalize
