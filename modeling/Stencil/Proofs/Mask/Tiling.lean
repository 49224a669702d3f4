import Stencil.Proofs.Mask.Comments
/-!
# The tiling of a source

A source is cut into plain characters, literals and comments in one way only: a tile begins where no
other has taken the characters, and ends at the first place that ends it. Masking takes the comments
out of this tiling and nothing else.
-/
namespace Stencil.Tile

/-! ## Where a tile ends -/

/-- The stretch ends with the first mark of the text; without a mark it is all of the text. -/
def UpTo (mark stretch rest : Text) : Prop :=
  (∃ t, stretch = t ++ mark ∧ ¬ mark <:+: t ++ mark.dropLast) ∨ rest = [] ∧ ¬ mark <:+: stretch

/-- The stretch is the rest of a line, without its line break. -/
def UpToLine (stretch rest : Text) : Prop := '\n' ∉ stretch ∧ (rest = [] ∨ rest.head? = some '\n')

/-- What a string may hold before it ends: escaped characters, and others than its quote and a line
break. -/
inductive Inside (quote : Char) : Text → Prop
  | nil : Inside quote []
  | escape {c : Char} {t : Text} : Inside quote t → Inside quote ('\\' :: c :: t)
  | char {c : Char} {t : Text} : c ≠ '\\' → c ≠ '\n' → c ≠ quote → Inside quote t →
      Inside quote (c :: t)

/-- The stretch is what belongs to a string after its opening quote: it ends with the first quote or
before the first line break that is not escaped, and else with the text. -/
inductive UpToQuote (quote : Char) : Text → Text → Prop
  | closed {inside rest : Text} : Inside quote inside → UpToQuote quote (inside ++ [quote]) rest
  | line {inside rest : Text} : Inside quote inside → UpToQuote quote inside ('\n' :: rest)
  | ended {inside : Text} : Inside quote inside → UpToQuote quote inside []
  | escaping {inside : Text} : Inside quote inside → UpToQuote quote (inside ++ ['\\']) []

/-- The closing bracket of a long bracket. -/
def closer (level : Nat) : Text := ']' :: (List.replicate level '=' ++ [']'])

/-- What a literal or a comment begins with. -/
inductive IsOpening : Text → Prop
  | single : IsOpening ['\'']
  | double : IsOpening ['"']
  | bracket (level : Nat) : IsOpening ('[' :: opener level)
  | dashes : IsOpening "--".toList
  | slashes : IsOpening "//".toList
  | block : IsOpening "/*".toList

/-- The tile comes first in a text that goes on with the rest. -/
inductive Leads : Tile → Text → Prop
  | plain {c : Char} {rest : Text} : (∀ mark, IsOpening mark → ¬ mark <+: c :: rest) →
      Leads (.plain c) rest
  | quoted {quote : Char} {stretch rest : Text} : quote = '\'' ∨ quote = '"' →
      UpToQuote quote stretch rest → Leads (.literal (quote :: stretch)) rest
  | long {level : Nat} {stretch rest : Text} : UpTo (closer level) stretch rest →
      Leads (.literal ('[' :: (opener level ++ stretch))) rest
  | longComment {level : Nat} {stretch rest : Text} : UpTo (closer level) stretch rest →
      Leads (.comment ('-' :: '-' :: '[' :: (opener level ++ stretch))) rest
  | dashComment {line rest : Text} : (∀ level, ¬ '[' :: opener level <+: line ++ rest) →
      UpToLine line rest → Leads (.comment ('-' :: '-' :: line)) rest
  | slashComment {line rest : Text} : UpToLine line rest →
      Leads (.comment ('/' :: '/' :: line)) rest
  | blockComment {stretch rest : Text} : UpTo "*/".toList stretch rest →
      Leads (.spaced ('/' :: '*' :: stretch)) rest

/-- The tiles cover the text from its beginning to its end, each as long as it goes. -/
inductive Tiling : List Tile → Text → Prop
  | nil : Tiling [] []
  | cons {x : Tile} {ts : List Tile} {rest : Text} : Leads x rest → Tiling ts rest →
      Tiling (x :: ts) (x.text ++ rest)

/-- What is left of a tile without comments. -/
def remains : Tile → Text
  | plain c => [c]
  | literal t => t
  | comment _ => []
  | spaced _ => [' ']

def literalText? : Tile → Option Text
  | literal t => some t
  | _ => none

/-! ## The lengths that lexing measures -/

/-- The length of a text up to the end of its first mark, or of all of it. -/
def lengthUpTo (mark : Text) : Text → Nat
  | [] => 0
  | c :: cs => if mark.isPrefixOf (c :: cs) then mark.length else lengthUpTo mark cs + 1

theorem upTo_take {mark : Text} (hmark : mark ≠ []) (t : Text) :
    UpTo mark (t.take (lengthUpTo mark t)) (t.drop (lengthUpTo mark t)) := by
  induction t with
  | nil => exact Or.inr ⟨rfl, fun h => hmark (List.infix_nil.mp h)⟩
  | cons c cs ih =>
      rw [lengthUpTo]
      split
      · rename_i hp
        obtain ⟨rest, hrest⟩ := List.isPrefixOf_iff_prefix.mp hp
        refine Or.inl ⟨[], by rw [← hrest, List.take_left, List.nil_append], fun h => ?_⟩
        have hlen := h.length_le
        have hpos := List.length_pos_iff.mpr hmark
        rw [List.nil_append, List.length_dropLast] at hlen
        omega
      · rename_i hp
        rw [List.isPrefixOf_iff_prefix] at hp
        rw [List.take_succ_cons, List.drop_succ_cons]
        rcases ih with ⟨t, ht, hfirst⟩ | ⟨hrest, hnone⟩
        · refine Or.inl ⟨c :: t, by rw [ht, List.cons_append], fun h => ?_⟩
          rcases List.infix_cons_iff.mp h with h | h
          · refine hp (h.trans (List.cons_prefix_cons.mpr ⟨rfl, ?_⟩))
            have hwhole : t ++ mark.dropLast <+: cs.take (lengthUpTo mark cs) := by
              rw [ht]
              exact (List.prefix_append_right_inj t).mpr (List.dropLast_prefix mark)
            exact hwhole.trans (List.take_prefix _ cs)
          · exact hfirst h
        · refine Or.inr ⟨hrest, fun h => ?_⟩
          rcases List.infix_cons_iff.mp h with h | h
          · exact hp (h.trans (List.cons_prefix_cons.mpr ⟨rfl, List.take_prefix _ cs⟩))
          · exact hnone h

theorem UpTo.length_eq {mark stretch rest : Text} (h : UpTo mark stretch rest) :
    lengthUpTo mark (stretch ++ rest) = stretch.length := by
  induction stretch with
  | nil =>
      rcases h with ⟨t, ht, hfirst⟩ | ⟨rfl, -⟩
      · obtain ⟨rfl, rfl⟩ := List.append_eq_nil_iff.mp ht.symm
        exact absurd List.nil_infix hfirst
      · rfl
  | cons c s ih =>
      rw [List.cons_append, lengthUpTo]
      rcases h with ⟨t, ht, hfirst⟩ | ⟨rfl, hnone⟩
      · cases t with
        | nil =>
            rw [List.nil_append] at ht
            rw [if_pos (List.isPrefixOf_iff_prefix.mpr ⟨rest, by rw [← ht, List.cons_append]⟩), ht]
        | cons d t =>
            obtain ⟨rfl, rfl⟩ := List.cons.inj ht
            rw [if_neg, ih (Or.inl ⟨t, rfl, fun h => hfirst (h.trans (List.suffix_cons _ _).isInfix)⟩),
              List.length_cons]
            -- a mark in front would be one before the end of the stretch
            rw [List.isPrefixOf_iff_prefix]
            intro hp
            have hshort : c :: (t ++ mark.dropLast) <+: c :: (t ++ mark ++ rest) := by
              rw [List.append_assoc]
              exact List.cons_prefix_cons.mpr ⟨rfl, (List.prefix_append_right_inj t).mpr
                ((List.dropLast_prefix mark).trans (List.prefix_append mark rest))⟩
            refine hfirst (List.prefix_of_prefix_length_le hp hshort ?_).isInfix
            simp only [List.length_cons, List.length_append, List.length_dropLast]
            omega
      · rw [if_neg, ih (Or.inr ⟨rfl, fun h => hnone (h.trans (List.suffix_cons _ _).isInfix)⟩),
          List.length_cons]
        rw [List.isPrefixOf_iff_prefix, List.append_nil]
        exact fun hp => hnone hp.isInfix

theorem bracketLength_eq (level : Nat) (t : Text) :
    bracketLength level t = lengthUpTo (closer level) t := by
  induction t with
  | nil => rfl
  | cons c cs ih =>
      have hlen : (closer level).length = level + 2 := by simp [closer]
      have hp : (closer level).isPrefixOf (c :: cs) = (c = ']' && closesBracket level cs) := by
        by_cases hc : c = ']'
        · simp [hc, closer, closesBracket]
        · simp [hc, Ne.symm hc, closer, List.isPrefixOf]
      rw [bracketLength, lengthUpTo, hp, hlen, ih]

theorem blockLength_eq (t : Text) : blockLength t = lengthUpTo "*/".toList t := by
  induction t using closesBlock.induct with
  | case1 cs => rfl
  | case2 c cs hc ih =>
      rw [blockLength.eq_2 c cs hc, lengthUpTo, if_neg, ih]
      rw [List.isPrefixOf_iff_prefix]
      rintro ⟨rest, hrest⟩
      obtain ⟨rfl, hcs⟩ := List.cons.inj hrest
      exact hc rest rfl hcs.symm
  | case3 => rfl

theorem upToLine_take (t : Text) :
    UpToLine (t.take (lineLength t)) (t.drop (lineLength t)) := by
  have htake : t.take (lineLength t) = t.takeWhile (· != '\n') :=
    (List.prefix_iff_eq_take.mp (List.takeWhile_prefix _)).symm
  refine ⟨fun hmem => ?_, (drop_lineLength t).imp_right fun ⟨more, h⟩ => by rw [h]; rfl⟩
  rw [htake] at hmem
  simpa using List.all_eq_true.mp List.all_takeWhile _ hmem

theorem UpToLine.length_eq {line rest : Text} (h : UpToLine line rest) :
    lineLength (line ++ rest) = line.length := by
  have hall : ∀ c ∈ line, (c != '\n') = true := fun c hc => by
    simpa using fun he : c = '\n' => h.1 (he ▸ hc)
  rw [lineLength, List.takeWhile_append_of_pos hall]
  rcases h.2 with rfl | hhead
  · simp
  · obtain ⟨more, rfl⟩ := List.head?_eq_some_iff.mp hhead
    simp

private theorem Inside.quotedLength_append {quote : Char} {inside : Text} (h : Inside quote inside)
    (t : Text) : quotedLength quote (inside ++ t) = inside.length + quotedLength quote t := by
  induction h with
  | nil => rw [List.nil_append, List.length_nil, Nat.zero_add]
  | escape _ ih =>
      rw [List.cons_append, List.cons_append, quotedLength, ih]
      simp only [List.length_cons]
      omega
  | char hescape hline hquote _ ih =>
      rw [List.cons_append, quotedLength_cons hescape, if_neg hline, if_neg hquote, ih]
      simp only [List.length_cons]
      omega

theorem upToQuote_take {quote : Char} (hquote : quote ≠ '\\' ∧ quote ≠ '\n') (t : Text) :
    UpToQuote quote (t.take (quotedLength quote t)) (t.drop (quotedLength quote t)) := by
  -- one character or escape more in front of a stretch
  have front {s stretch rest : Text} (hs : ∀ u, Inside quote u → Inside quote (s ++ u))
      (h : UpToQuote quote stretch rest) : UpToQuote quote (s ++ stretch) rest := by
    cases h with
    | closed h => exact List.append_assoc s _ _ ▸ .closed (hs _ h)
    | line h => exact .line (hs _ h)
    | ended h => exact .ended (hs _ h)
    | escaping h => exact List.append_assoc s _ _ ▸ .escaping (hs _ h)
  induction t using closesQuote.induct quote with
  | case1 => exact .ended .nil
  | case2 => exact .escaping .nil
  | case3 d cs ih => exact front (s := ['\\', d]) (fun _ h => .escape h) ih
  | case4 cs =>
      rw [quotedLength_cons (by decide), if_pos rfl]
      exact .line .nil
  | case5 cs hend hescape hline =>
      rw [quotedLength_cons hquote.1, if_neg hline, if_pos rfl]
      exact .closed .nil
  | case6 c cs hend hescape hline hne ih =>
      have hc := not_escape hend hescape
      rw [quotedLength_cons hc, if_neg hline, if_neg hne]
      exact front (s := [c]) (fun _ h => .char hc hline hne h) ih

theorem UpToQuote.length_eq {quote : Char} (hquote : quote ≠ '\\' ∧ quote ≠ '\n')
    {stretch rest : Text} (h : UpToQuote quote stretch rest) :
    quotedLength quote (stretch ++ rest) = stretch.length := by
  cases h with
  | closed h =>
      rw [List.append_assoc, h.quotedLength_append, List.singleton_append,
        quotedLength_cons hquote.1, if_neg hquote.2, if_pos rfl, List.length_append]
      rfl
  | line h =>
      rw [h.quotedLength_append, quotedLength_cons (by decide), if_pos rfl, Nat.add_zero]
  | ended h => rw [h.quotedLength_append, quotedLength, Nat.add_zero]
  | escaping h => rw [List.append_nil, h.quotedLength_append, List.length_append]; rfl

/-! ## The first tile -/

private theorem not_escape_of_quote {quote : Char} (h : quote = '\'' ∨ quote = '"') :
    quote ≠ '\\' ∧ quote ≠ '\n' := by
  rcases h with rfl | rfl <;> decide

private theorem closer_ne_nil (level : Nat) : closer level ≠ [] := by simp [closer]

theorem longBracket?_eq_none {t : Text} :
    longBracket? t = none ↔ ∀ level, ¬ '[' :: opener level <+: t := by
  rw [← Option.not_isSome_iff_eq_none, Option.isSome_iff_exists]
  constructor
  · rintro h level ⟨inside, rfl⟩
    exact h ⟨_, longBracket?_eq_some.mpr ⟨level, inside, by simp, rfl⟩⟩
  · rintro h ⟨n, hn⟩
    obtain ⟨level, inside, rfl, -⟩ := longBracket?_eq_some.mp hn
    exact h level ⟨inside, by simp⟩

theorem lone_iff {c : Char} {cs : Text} :
    Lone c cs ↔ ∀ mark, IsOpening mark → ¬ mark <+: c :: cs := by
  have pair {d e : Char} (hcs : cs.head? = some e) (hc : c = d) : [d, e] <+: c :: cs := by
    obtain ⟨more, rfl⟩ := List.head?_eq_some_iff.mp hcs
    exact ⟨more, by rw [hc]; rfl⟩
  constructor
  · rintro h mark hmark ⟨more, ht⟩
    cases hmark with
    | single => exact h.single (List.cons.inj ht).1.symm
    | double => exact h.double (List.cons.inj ht).1.symm
    | bracket level =>
        have hnone := longBracket?_eq_none.mp (h.bracket (List.cons.inj ht).1.symm)
        exact hnone level ⟨more, ht⟩
    | dashes =>
        obtain ⟨hc, rfl⟩ := List.cons.inj ht
        exact h.dash hc.symm rfl
    | slashes =>
        obtain ⟨hc, rfl⟩ := List.cons.inj ht
        exact h.slash hc.symm rfl
    | block =>
        obtain ⟨hc, rfl⟩ := List.cons.inj ht
        exact h.block hc.symm rfl
  · intro h
    refine ⟨fun hc => h _ .single ⟨cs, by rw [hc]; rfl⟩, fun hc => h _ .double ⟨cs, by rw [hc]; rfl⟩,
      fun _ => longBracket?_eq_none.mpr fun level => h _ (.bracket level),
      fun hc hcs => h _ .dashes (pair hcs hc), fun hc hcs => h _ .slashes (pair hcs hc),
      fun hc hcs => h _ .block (pair hcs hc)⟩

/-- Lexing begins with a tile that comes first. -/
theorem exists_leads (c : Char) (cs : Text) :
    ∃ rest, c :: cs = (first c cs).text ++ rest ∧ Leads (first c cs) rest := by
  have split (n : Nat) (t : Text) : t = t.take n ++ t.drop n := (List.take_append_drop n t).symm
  have hv := view c cs
  generalize first c cs = x at hv ⊢
  cases hv with
  | plain hl => exact ⟨cs, rfl, .plain (lone_iff.mp hl)⟩
  | quoted hq =>
      exact ⟨_, congrArg (c :: ·) (split _ cs),
        .quoted hq (upToQuote_take (not_escape_of_quote hq) cs)⟩
  | @long level inside hc hcs =>
      subst hc hcs
      refine ⟨inside.drop (bracketLength level inside), by simp [text], .long ?_⟩
      rw [bracketLength_eq]
      exact upTo_take (closer_ne_nil level) inside
  | @longComment level inside hc hcs =>
      subst hc hcs
      refine ⟨inside.drop (bracketLength level inside), by simp [text], .longComment ?_⟩
      rw [bracketLength_eq]
      exact upTo_take (closer_ne_nil level) inside
  | @lineComment line hc hcs hnone =>
      subst hc hcs
      refine ⟨line.drop (lineLength line), by simp [text], .dashComment ?_ (upToLine_take line)⟩
      rwa [List.take_append_drop, ← longBracket?_eq_none]
  | @slashComment line hc hcs =>
      subst hc hcs
      exact ⟨line.drop (lineLength line), by simp [text], .slashComment (upToLine_take line)⟩
  | @blockComment inside hc hcs =>
      subst hc hcs
      refine ⟨inside.drop (blockLength inside), by simp [text], .blockComment ?_⟩
      rw [blockLength_eq]
      exact upTo_take (by decide) inside

/-- A tile that comes first is the one that lexing begins with. -/
theorem Leads.eq_first {x : Tile} {rest : Text} (h : Leads x rest) :
    ∃ c body, x.text = c :: body ∧ first c (body ++ rest) = x := by
  cases h with
  | plain h => exact ⟨_, [], rfl, first_of_lone (lone_iff.mpr h)⟩
  | quoted hq hstretch =>
      refine ⟨_, _, rfl, ?_⟩
      rw [first_quoted hq, hstretch.length_eq (not_escape_of_quote hq), List.take_left]
  | long hstretch =>
      refine ⟨_, _, rfl, ?_⟩
      rw [List.append_assoc, first_long, bracketLength_eq, hstretch.length_eq, List.take_left]
  | longComment hstretch =>
      refine ⟨_, _, rfl, ?_⟩
      rw [List.cons_append, List.cons_append, List.append_assoc, first_longComment, bracketLength_eq,
        hstretch.length_eq, List.take_left]
  | dashComment hnone hline =>
      refine ⟨_, _, rfl, ?_⟩
      rw [List.cons_append, first, longBracket?_eq_none.mpr hnone]
      simp only [hline.length_eq, List.take_left]
  | slashComment hline =>
      refine ⟨_, _, rfl, ?_⟩
      rw [List.cons_append, first, hline.length_eq, List.take_left]
  | blockComment hstretch =>
      refine ⟨_, _, rfl, ?_⟩
      rw [List.cons_append, first_block, blockLength_eq, hstretch.length_eq, List.take_left]

/-! ## The whole tiling -/

/-- There is one tiling, the one that lexing finds. -/
theorem tiling_iff {ts : List Tile} {t : Text} : Tiling ts t ↔ ts = tiles t := by
  constructor
  · intro h
    induction h with
    | nil => rfl
    | @cons x ts rest hx _ ih =>
        obtain ⟨c, body, htext, hfirst⟩ := hx.eq_first
        rw [htext, List.cons_append, tiles_cons (by rw [hfirst, htext]), hfirst, ih]
  · rintro rfl
    refine tiles_induct (motive := fun t ts => Tiling ts t) .nil (fun c body rest ht ih => ?_) t
    obtain ⟨rest', hsplit, hx⟩ := exists_leads c (body ++ rest)
    rw [ht, List.cons_append, List.cons.injEq, List.append_cancel_left_eq] at hsplit
    obtain rfl := hsplit.2
    have hcons := Tiling.cons hx ih
    rwa [ht] at hcons

theorem literalsOf_eq (ts : List Tile) : Mask.literalsOf ts = ts.filterMap literalText? := by
  induction ts with
  | nil => rfl
  | cons x ts ih => cases x <;> simp [Mask.literalsOf, literalText?, List.filterMap_cons, ih]

theorem flatMap_text_kept (ts : List Tile) : (kept ts).flatMap text = ts.flatMap remains := by
  induction ts with
  | nil => rfl
  | cons x ts ih => cases x <;> simp [kept, remains, text, ih]

end Stencil.Tile

namespace Stencil.Mask

open Tile

/-- No quote is code, so none is left in the masked text. -/
theorem not_mem_text {quote : Char} (hquote : quote = '\'' ∨ quote = '"') (source : Text) :
    quote ∉ (ofText source).text := by
  have hmark : Symbol.isMarkChar quote = false := by rcases hquote with rfl | rfl <;> decide
  have hblank : quote ≠ ' ' := by rcases hquote with rfl | rfl <;> decide
  have hplain : .plain quote ∉ tiles source := by
    refine tiles_induct (motive := fun _ ts => .plain quote ∉ ts) (by simp) ?_ source
    intro c body rest _ ih hmem
    rcases List.mem_cons.mp hmem with hfirst | hmem
    · have hv := view c (body ++ rest)
      rw [← hfirst] at hv
      cases hv with
      | plain hl => exact hquote.elim hl.single hl.double
    · exact ih hmem
  rw [ofText, ← Symbol.spell_number, Symbol.mem_spell hmark]
  generalize tiles source = ts at hplain
  have hall (k : Nat) : Symbol.char quote ∉ Symbol.number k ts := by
    induction ts generalizing k with
    | nil => simp [Symbol.number]
    | cons x ts ih =>
        rw [List.mem_cons, not_or] at hplain
        cases x with
        | plain c =>
            rw [Symbol.number, List.mem_cons, not_or]
            exact ⟨fun h => hplain.1 (by rw [Symbol.char.inj h]), ih hplain.2 k⟩
        | literal l => simpa [Symbol.number] using ih hplain.2 (k + 1)
        | comment t => exact ih hplain.2 k
        | spaced t => simpa [Symbol.number, hblank] using ih hplain.2 k
  exact hall 0

/-- Masking loses the comments and nothing else: every source has one tiling; the literals are its
literal tiles, the masked text has no quote, and restored it is the source without its comments. -/
theorem loses_only_comments (source : Text) :
    ∃ ts, (∀ us, Tiling us source ↔ us = ts) ∧
      (ofText source).literals = ts.filterMap literalText? ∧
      '\'' ∉ (ofText source).text ∧ '"' ∉ (ofText source).text ∧
      (.plain opening ∉ ts →
        (ofText source).restore (ofText source).text = ts.flatMap remains) := by
  refine ⟨tiles source, fun us => tiling_iff, literalsOf_eq _, not_mem_text (Or.inl rfl) source,
    not_mem_text (Or.inr rfl) source, fun hlegible => ?_⟩
  rw [restore_text hlegible, uncommented, flatMap_text_kept]

theorem loses_only_comments_mixed :
    let source := "x = \"a\\\"b\" --[=[ c ]] ]=]+ [[d]]/* e **/'f // g\n- h -- i".toList
    ∃ ts, Tiling ts source ∧ .plain opening ∉ ts ∧
      (ofText source).restore (ofText source).text =
        "x = \"a\\\"b\" + [[d]] 'f // g\n- h ".toList := by
  intro source
  obtain ⟨ts, hts, -, -, -, hrestore⟩ := loses_only_comments source
  obtain rfl : tiles source = ts := (hts _).mp (tiling_iff.mpr rfl)
  have hlegible : .plain opening ∉ tiles source := by decide
  exact ⟨_, tiling_iff.mpr rfl, hlegible, (hrestore hlegible).trans (by decide)⟩

end Stencil.Mask
