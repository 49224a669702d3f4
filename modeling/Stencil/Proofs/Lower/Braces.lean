import Stencil.Lower
import Stencil.Proofs.Text.Blank
import Stencil.Proofs.Text.Reading
import Stencil.Proofs.Text.Replacement
/-!
# What a brace is

Lowering tells an opening brace by what it has written before: it is a block's where a parenthesised
group stands there that a word of a head owns. It tells a closing brace by what follows: another
branch of the block or none.
-/
namespace Stencil.Lower

open Text

/-! ## Heads -/

/-- The words that make a head of the parentheses after them. -/
def headWords : List Text := ["if", "elseif", "while", "for"].map String.toList

/-- The text ends in a parenthesised group that such a word owns. -/
inductive EndsInHead : Text → Prop
  | mk {front word gap inside b : Text} : word ∈ headWords →
      (lastOr none front).any isNameChar = false → Blank gap → Balanced '(' ')' inside → Blank b →
      EndsInHead (front ++ (word ++ (gap ++ '(' :: (inside ++ ')' :: b))))

/-- The name at the end of a text read backwards. -/
def owner (written : Text) : Text :=
  ((written.dropWhile isBlank).takeWhile isNameChar).reverse

theorem mem_headWords {word : Text} {head : Head} (h : Head.ofWord? word = some head) :
    word ∈ headWords := by
  unfold Head.ofWord? at h
  split at h
  · rename_i hw
    rw [hw]
    decide
  · split at h
    · rename_i hw
      rw [hw]
      decide
    · split at h
      · rename_i hw
        rw [hw]
        decide
      · split at h
        · rename_i hw
          rw [hw]
          decide
        · simp at h

/-- A head is read off the end of the text: its parentheses, and the word that owns them. -/
theorem head?_eq_some {written inside before : Text} {head : Head} :
    head? written = some (head, inside, before) ↔ ∃ b inner, Blank b ∧
      written = b ++ ')' :: (inner ++ '(' :: before) ∧ inside = inner.reverse ∧
      Balanced ')' '(' inner ∧ Head.ofWord? (owner before) = some head := by
  constructor
  · intro h
    unfold head? at h
    obtain ⟨b, hb, hw⟩ := exists_blank_trimStart written
    split at h
    · rename_i behind hclose
      split at h
      · rename_i inner outer hs
        obtain ⟨head', hword, hp⟩ := Option.map_eq_some_iff.mp h
        simp only [Prod.mk.injEq] at hp
        obtain ⟨rfl, rfl, rfl⟩ := hp
        obtain ⟨rfl, hinner⟩ := (splitGroup?_eq_some (by decide)).mp hs
        have hclose' : trimStart written = ')' :: (inner ++ '(' :: outer) := hclose
        exact ⟨b, inner, hb, by rw [← hclose', ← hw], rfl, hinner, hword⟩
      · simp at h
    · simp at h
  · rintro ⟨b, inner, hb, rfl, rfl, hinner, hword⟩
    have hclose : (b ++ ')' :: (inner ++ '(' :: before)).dropWhile isBlank =
        ')' :: (inner ++ '(' :: before) :=
      trimStart_append hb (flush_cons.mpr (by decide))
    unfold owner at hword
    rw [head?, hclose]
    simp only [splitGroup?_balanced (by decide) hinner, hword, Option.map_some]

theorem owner_blank_append {b : Text} (hb : Blank b) (t : Text) : owner (b ++ t) = owner t := by
  have htrim := trimStart_blank_append hb t
  unfold owner
  rw [show (b ++ t).dropWhile isBlank = t.dropWhile isBlank from htrim]

theorem owner_word {word rest : Text} (hne : word ≠ []) (hword : ∀ c ∈ word, isNameChar c = true)
    (hrest : rest.head?.any isNameChar = false) : owner (word ++ rest) = word.reverse := by
  obtain ⟨c, cs, rfl⟩ := List.exists_cons_of_ne_nil hne
  have hflush := isBlank_of_nameChar (hword c List.mem_cons_self)
  have htake : rest.takeWhile isNameChar = [] := by
    cases rest with
    | nil => rfl
    | cons d ds => exact List.takeWhile_cons_of_neg (by simpa using hrest)
  rw [owner, List.cons_append, List.dropWhile_cons_of_neg (by simp [hflush]), ← List.cons_append,
    List.takeWhile_append_of_pos hword, htake, List.append_nil]

/-! ## Text that is no part of a head -/

/-- A text read backwards that makes no head of what is written after it. -/
structure Neutral (written : Text) : Prop where
  noName : written.head?.any isNameChar = false
  noGroup : (trimStart written).head? ≠ some ')'
  noWord : Head.ofWord? (owner written) = none

theorem neutral_nil : Neutral [] := ⟨rfl, by decide, by decide⟩

/-- A character that is neither part of a name nor the end of a group. -/
theorem neutral_cons {c : Char} (hname : isNameChar c = false) (hblank : isBlank c = false)
    (hgroup : c ≠ ')') (written : Text) : Neutral (c :: written) := by
  have hempty : owner (c :: written) = [] := by
    rw [owner, List.dropWhile_cons_of_neg (by simp [hblank]),
      List.takeWhile_cons_of_neg (by simp [hname])]
    rfl
  refine ⟨by simp [hname], ?_, by rw [hempty]; decide⟩
  rw [trimStart_of_flush (flush_cons.mpr hblank)]
  simpa using hgroup

/-- A word of its own that makes no head. -/
theorem neutral_word {word : Text} (hne : word ≠ []) (hword : ∀ c ∈ word, isNameChar c = true)
    (hhead : Head.ofWord? word = none) (written : Text) :
    Neutral (append written (' ' :: (word ++ [' ']))) := by
  have hshape : append written (' ' :: (word ++ [' '])) =
      [' '] ++ (word.reverse ++ ' ' :: written) := by simp [append]
  have howner : owner (word.reverse ++ ' ' :: written) = word := by
    have hspace : isNameChar ' ' = false := by decide
    rw [owner_word (by simpa using hne) (by simpa using hword) (by simpa using hspace),
      List.reverse_reverse]
  obtain ⟨c, cs, hlast⟩ := List.exists_cons_of_ne_nil (List.reverse_ne_nil_iff.mpr hne)
  have hname : isNameChar c = true := hword c (List.mem_reverse.mp (by rw [hlast]; simp))
  have hflush := isBlank_of_nameChar hname
  rw [hshape]
  refine ⟨show isNameChar ' ' = false by decide, ?_, ?_⟩
  · have htrim : trimStart ([' '] ++ (c :: cs ++ ' ' :: written)) = c :: cs ++ ' ' :: written :=
      trimStart_append (by decide) (flush_cons.mpr hflush)
    rw [hlast, htrim]
    intro hparen
    rw [List.cons_append, List.head?_cons, Option.some.injEq] at hparen
    subst hparen
    exact absurd hname (by decide)
  · rw [owner_blank_append (by decide), howner, hhead]

section Unowned

variable {written u : Text} {depth : Nat}

/-- The owner of a group in a piece of code stands in that code. -/
private theorem endsInHead_of_owner {b inner x : Text} {head : Head} (hW : Neutral written)
    (hb : Blank b) (hinner : Balanced ')' '(' inner)
    (hword : Head.ofWord? (owner (x ++ written)) = some head) :
    EndsInHead (b ++ ')' :: (inner ++ '(' :: x)).reverse := by
  obtain ⟨g, hg, hx⟩ := exists_blank_trimStart x
  have hsplit : trimStart x =
      (trimStart x).takeWhile isNameChar ++ (trimStart x).dropWhile isNameChar :=
    List.takeWhile_append_dropWhile.symm
  have hall : ∀ c ∈ (trimStart x).takeWhile isNameChar, isNameChar c = true :=
    List.all_eq_true.mp List.all_takeWhile
  have hstop : ((trimStart x).dropWhile isNameChar).head?.any isNameChar = false := by
    cases h : ((trimStart x).dropWhile isNameChar).head? with
    | none => rfl
    | some c => simpa [h] using List.head?_dropWhile_not isNameChar (trimStart x)
  have hflush := flush_trimStart x
  generalize (trimStart x).takeWhile isNameChar = w at hsplit hall
  generalize (trimStart x).dropWhile isNameChar = f at hsplit hstop
  rw [hsplit] at hx hflush
  subst hx
  have hrest : (f ++ written).head?.any isNameChar = false := by
    cases f with
    | nil => exact hW.noName
    | cons c f => exact hstop
  rw [List.append_assoc, List.append_assoc, owner_blank_append hg] at hword
  by_cases hne : w = []
  · -- no name stands in the code before the group
    subst hne
    cases f with
    | nil =>
        rw [List.nil_append, List.nil_append, hW.noWord] at hword
        simp at hword
    | cons c f =>
        have hempty : owner (c :: (f ++ written)) = [] := by
          have hc : isNameChar c = false := hstop
          rw [owner, List.dropWhile_cons_of_neg (by simpa using flush_cons.mp hflush),
            List.takeWhile_cons_of_neg (by simp [hc])]
          rfl
        have hnone : Head.ofWord? [] = none := by decide
        rw [List.nil_append, List.cons_append, hempty, hnone] at hword
        simp at hword
  · rw [owner_word hne hall hrest] at hword
    have hmk := EndsInHead.mk (mem_headWords hword) (by rw [lastOr_reverse]; exact hstop)
      (blank_reverse.mpr hg) (balanced_reverse (by decide) hinner) (blank_reverse.mpr hb)
    simpa using hmk

/-- The group after a word that makes a head of it. -/
theorem head?_group {front word gap inside b : Text} {head : Head}
    (hword : Head.ofWord? word = some head) (hfront : (lastOr none front).any isNameChar = false)
    (hgap : Blank gap) (hinside : Balanced '(' ')' inside) (hb : Blank b) :
    head? (front ++ (word ++ (gap ++ '(' :: (inside ++ ')' :: b)))).reverse =
      some (head, inside, (front ++ (word ++ gap)).reverse) := by
  have hwords : ∀ word ∈ headWords, word ≠ [] ∧ ∀ c ∈ word, isNameChar c = true := by decide
  obtain ⟨hne, hname⟩ := hwords word (mem_headWords hword)
  rw [← List.reverse_reverse front, lastOr_reverse] at hfront
  have howner : owner (front ++ (word ++ gap)).reverse = word := by
    rw [List.reverse_append, List.reverse_append, List.append_assoc,
      owner_blank_append (blank_reverse.mpr hgap),
      owner_word (by simpa using hne) (by simpa using hname) hfront, List.reverse_reverse]
  refine head?_eq_some.mpr ⟨b.reverse, inside.reverse, blank_reverse.mpr hb, by simp, by simp,
    balanced_reverse (by decide) hinside, (congrArg Head.ofWord? howner).trans hword⟩

/-- A text ends in a head where one is read off its end. -/
theorem endsInHead_iff {t : Text} : EndsInHead t ↔ (head? t.reverse).isSome = true := by
  have hwords : ∀ word ∈ headWords, (Head.ofWord? word).isSome = true := by decide
  constructor
  · rintro @⟨front, word, gap, inside, b, hword, hfront, hgap, hinside, hb⟩
    obtain ⟨head, hhead⟩ := Option.isSome_iff_exists.mp (hwords word hword)
    rw [head?_group hhead hfront hgap hinside hb]
    rfl
  · intro h
    obtain ⟨⟨head, inside, before⟩, hhead⟩ := Option.isSome_iff_exists.mp h
    obtain ⟨b, inner, hb, hsplit, -, hinner, hword⟩ := head?_eq_some.mp hhead
    have hends := endsInHead_of_owner neutral_nil hb hinner (x := before)
      (by rwa [List.append_nil])
    rwa [← hsplit, List.reverse_reverse] at hends

instance (t : Text) : Decidable (EndsInHead t) := decidable_of_iff _ endsInHead_iff.symm

/-- Code closes no group that it did not open. -/
private theorem group_opened {b z a : Text} (hparens : nest? '(' ')' 0 u = some depth)
    (hinner : Balanced ')' '(' (z ++ a)) (hu : u.reverse = b ++ ')' :: z) : False := by
  have hsplit : u = z.reverse ++ ')' :: b.reverse := by
    rw [← List.reverse_reverse u, hu]
    simp
  rw [hsplit, nest?_append] at hparens
  rw [Text.Balanced, nest?_append] at hinner
  cases hz : nest? '(' ')' 0 z.reverse with
  | none => simp [hz] at hparens
  | some e =>
      rw [hz, Option.bind_some] at hparens
      cases hk : nest? ')' '(' 0 z with
      | none => simp [hk] at hinner
      | some k =>
          cases e with
          | zero =>
              rw [nest?_zero_closing (by decide)] at hparens
              simp at hparens
          | succ e =>
              have hback := nest?_reverse (by decide) hz
              have hdeep := nest?_add hk (e + 1)
              rw [List.reverse_reverse] at hback
              rw [Nat.zero_add, hback, Option.some.injEq] at hdeep
              omega

/-- A group that the code closes was opened in it. -/
private theorem group_within {b inner before : Text} (hW : Neutral written)
    (hparens : nest? '(' ')' 0 u = some depth) (hb : Blank b) (hinner : Balanced ')' '(' inner)
    (h : u.reverse ++ written = b ++ ')' :: (inner ++ '(' :: before)) :
    ∃ x, u.reverse = b ++ ')' :: (inner ++ '(' :: x) ∧ before = x ++ written := by
  have hout {z : Text} (hz : Blank z) (rest : Text) (hw : written = z ++ ')' :: rest) : False := by
    refine hW.noGroup ?_
    rw [hw, trimStart_append hz (flush_cons.mpr (by decide))]
    rfl
  have hclose {a : Text} (ha : b ++ ')' :: inner = u.reverse ++ a)
      (hw : written = a ++ '(' :: before) : False := by
    rcases List.append_eq_append_iff.mp ha with ⟨z, hz, hz'⟩ | ⟨z, hz, hz'⟩
    · cases z with
      | nil =>
          rw [List.nil_append] at hz'
          exact hout blank_nil (inner ++ '(' :: before) (by rw [hw, ← hz']; rfl)
      | cons c z =>
          rw [List.cons_append, List.cons.injEq] at hz'
          obtain ⟨rfl, rfl⟩ := hz'
          exact group_opened hparens hinner hz
    · rw [hz, blank_append] at hb
      exact hout hb.2 (inner ++ '(' :: before) (by rw [hw, hz']; simp)
  have h' : u.reverse ++ written = (b ++ ')' :: inner) ++ '(' :: before := by simpa using h
  rcases List.append_eq_append_iff.mp h' with ⟨a, ha, hw⟩ | ⟨x, hx, hbefore⟩
  · exact (hclose ha hw).elim
  · cases x with
    | nil => exact (@hclose [] (by rw [hx]; simp) hbefore.symm).elim
    | cons c x =>
        rw [List.cons_append, List.cons.injEq] at hbefore
        obtain ⟨rfl, rfl⟩ := hbefore
        exact ⟨x, by rw [hx]; simp, rfl⟩

/-- Code that ends in no head makes none with what was written before it. -/
theorem head?_of_neutral (hW : Neutral written) (hparens : nest? '(' ')' 0 u = some depth)
    (hu : ¬ EndsInHead u) : head? (u.reverse ++ written) = none := by
  cases h : head? (u.reverse ++ written) with
  | none => rfl
  | some found =>
      obtain ⟨head, inside, before⟩ := found
      obtain ⟨b, inner, hb, hsplit, -, hinner, hword⟩ := head?_eq_some.mp h
      obtain ⟨x, hx, rfl⟩ := group_within hW hparens hb hinner hsplit
      have hends := endsInHead_of_owner hW hb hinner hword
      rw [← hx, List.reverse_reverse] at hends
      exact absurd hends hu

end Unowned

/-! ## Branches -/

/-- The text goes on with another branch: `else` and a brace, or `else if`. -/
inductive BeginsBranch : Text → Prop
  | otherwise {b gap rest : Text} : Blank b → Blank gap →
      BeginsBranch (b ++ ("else".toList ++ (gap ++ '{' :: rest)))
  | elseIf {b gap rest : Text} : Blank b → Blank gap → gap ≠ [] →
      rest.head?.any isNameChar = false →
      BeginsBranch (b ++ ("else".toList ++ (gap ++ ("if".toList ++ rest))))

theorem afterName?_eq_some {word t rest : Text} :
    afterName? word t = some rest ↔ t = word ++ rest ∧ rest.head?.any isNameChar = false := by
  simp only [afterName?, Option.filter_eq_some_iff, after?_eq_some, Bool.not_eq_true']

theorem elseAfter?_of_not_branch {t : Text} (h : ¬ BeginsBranch t) : elseAfter? t = none := by
  cases he : elseAfter? t with
  | none => rfl
  | some found =>
      refine absurd ?_ h
      obtain ⟨b, hb, ht⟩ := exists_blank_trimStart t
      -- the word and the white space around it
      have word {after : Text} (hw : afterName? "else".toList (trimStart t) = some after) :
          ∃ gap, Blank gap ∧ after = gap ++ trimStart after ∧
            t = b ++ ("else".toList ++ (gap ++ trimStart after)) := by
        obtain ⟨gap, hgap, hafter⟩ := exists_blank_trimStart after
        exact ⟨gap, hgap, hafter, by rw [← hafter, ← (afterName?_eq_some.mp hw).1, ← ht]⟩
      unfold elseAfter? at he
      split at he
      · rename_i rest hs
        obtain ⟨after, hw, hopen⟩ := Option.map_eq_some_iff.mp hs
        obtain ⟨gap, hgap, -, hsplit⟩ := word hw
        rw [hsplit, hopen]
        exact .otherwise hb hgap
      · rename_i rest _ hs
        obtain ⟨after, hw, rfl⟩ := Option.map_eq_some_iff.mp hs
        obtain ⟨gap, hgap, hafter, hsplit⟩ := word hw
        obtain ⟨rest, hif, -⟩ := Option.map_eq_some_iff.mp he
        obtain ⟨hrest, hended⟩ := afterName?_eq_some.mp hif
        rw [hsplit, hrest]
        refine .elseIf hb hgap ?_ hended
        rintro rfl
        have hname := (afterName?_eq_some.mp hw).2
        rw [hafter, hrest] at hname
        exact absurd (show isNameChar 'i' = false from hname) (by decide)
      · simp at he

private theorem afterName?_branch {b gap rest : Text} (hb : Blank b) (hgap : Blank gap)
    (hflush : Flush rest) (hended : (gap ++ rest).head?.any isNameChar = false) :
    (afterName? "else".toList (trimStart (b ++ ("else".toList ++ (gap ++ rest))))).map trimStart =
      some rest := by
  have hstart : trimStart (b ++ ("else".toList ++ (gap ++ rest))) =
      "else".toList ++ (gap ++ rest) := trimStart_append hb (flush_cons.mpr (by decide))
  rw [hstart, afterName?_eq_some.mpr ⟨rfl, hended⟩, Option.map_some, trimStart_append hgap hflush]

/-- No name goes on into white space. -/
theorem ended_blank_append {gap rest : Text} (hgap : Blank gap)
    (h : gap = [] → rest.head?.any isNameChar = false) :
    (gap ++ rest).head?.any isNameChar = false := by
  cases gap with
  | nil => exact h rfl
  | cons c gap => exact isNameChar_of_blank (blank_cons.mp hgap).1

theorem elseAfter?_else {b gap rest : Text} (hb : Blank b) (hgap : Blank gap) :
    elseAfter? (b ++ ("else".toList ++ (gap ++ '{' :: rest))) = some (" else ".toList, rest) := by
  have hended : (gap ++ '{' :: rest).head?.any isNameChar = false :=
    ended_blank_append hgap fun _ => (by decide : isNameChar '{' = false)
  simp only [elseAfter?, afterName?_branch hb hgap (flush_cons.mpr (by decide)) hended]

theorem elseAfter?_if {b gap gap' rest : Text} (hb : Blank b) (hgap : Blank gap) (hne : gap ≠ [])
    (hgap' : Blank gap') (hrest : Flush rest)
    (hended : (gap' ++ rest).head?.any isNameChar = false) :
    elseAfter? (b ++ ("else".toList ++ (gap ++ ("if".toList ++ (gap' ++ rest))))) =
      some (" elseif ".toList, rest) := by
  have hflush : Flush ("if".toList ++ (gap' ++ rest)) :=
    flush_append (flush_cons.mpr (by decide)) (by simp)
  have hif : afterName? "if".toList ("if".toList ++ (gap' ++ rest)) = some (gap' ++ rest) :=
    afterName?_eq_some.mpr ⟨rfl, hended⟩
  rw [elseAfter?, afterName?_branch hb hgap hflush (ended_blank_append hgap fun h => absurd h hne)]
  change (afterName? "if".toList ("if".toList ++ (gap' ++ rest))).map _ = _
  rw [hif, Option.map_some, trimStart_append hgap' hrest]

theorem elseAfter?_eq_none {t : Text} : elseAfter? t = none ↔ ¬ BeginsBranch t := by
  refine ⟨fun h hbranch => ?_, elseAfter?_of_not_branch⟩
  cases hbranch with
  | otherwise hb hgap =>
      rw [elseAfter?_else hb hgap] at h
      simp at h
  | @elseIf b gap rest hb hgap hne hended =>
      obtain ⟨gap', hgap', hrest⟩ := exists_blank_trimStart rest
      rw [hrest] at h hended
      rw [elseAfter?_if hb hgap hne hgap' (flush_trimStart rest) hended] at h
      simp at h

instance (t : Text) : Decidable (BeginsBranch t) :=
  decidable_of_iff (¬ elseAfter? t = none) (by rw [elseAfter?_eq_none, Classical.not_not])

/-- What follows a semicolon takes no part in a branch. -/
theorem BeginsBranch.of_append {t rest : Text} (h : BeginsBranch (t ++ ';' :: rest)) :
    BeginsBranch t := by
  -- the branch lies before the semicolon
  have within {p r : Text} (hp : ';' ∉ p) (h : t ++ ';' :: rest = p ++ r) :
      ∃ r', t = p ++ r' ∧ r = r' ++ ';' :: rest := by
    rcases List.append_eq_append_iff.mp h with ⟨a, ha, hr⟩ | ⟨a, ha, hr⟩
    · cases a with
      | nil => exact ⟨[], by rw [ha, List.append_nil, List.append_nil], by simpa using hr.symm⟩
      | cons c a =>
          rw [List.cons_append, List.cons.injEq] at hr
          exact absurd (by rw [ha, ← hr.1]; simp) hp
    · exact ⟨a, ha, hr⟩
  have blank {b : Text} (hb : Blank b) : ';' ∉ b := fun hmem => absurd (hb _ hmem) (by decide)
  generalize hs : t ++ ';' :: rest = s at h
  cases h with
  | @otherwise b gap r hb hgap =>
      have hp : ';' ∉ b ++ ("else".toList ++ (gap ++ ['{'])) := by
        simp [blank hb, blank hgap]
      obtain ⟨r', rfl, -⟩ := within hp (r := r) (by rw [hs]; simp)
      have hbranch := @BeginsBranch.otherwise b gap r' hb hgap
      simpa using hbranch
  | @elseIf b gap r hb hgap hne hended =>
      have hp : ';' ∉ b ++ ("else".toList ++ (gap ++ "if".toList)) := by
        simp [blank hb, blank hgap]
      obtain ⟨r', rfl, hr⟩ := within hp (r := r) (by rw [hs]; simp)
      have hended' : r'.head?.any isNameChar = false := by
        cases r' with
        | nil => rfl
        | cons c r' =>
            rw [hr] at hended
            exact hended
      have hbranch := @BeginsBranch.elseIf b gap r' hb hgap hne hended'
      simpa using hbranch

theorem BeginsBranch.head {c : Char} {t : Text} (h : BeginsBranch (c :: t)) :
    isBlank c = true ∨ c = 'e' := by
  have front {b s : Text} (hb : Blank b) (hs : c :: t = b ++ ("else".toList ++ s)) :
      isBlank c = true ∨ c = 'e' := by
    cases b with
    | nil => exact Or.inr (List.cons.inj hs).1
    | cons d b => exact Or.inl ((List.cons.inj hs).1 ▸ hb d List.mem_cons_self)
  generalize hs : c :: t = s at h
  cases h with
  | otherwise hb _ => exact front hb hs
  | elseIf hb _ _ _ => exact front hb hs

theorem elseAfter?_otherwise (rest : Text) :
    elseAfter? ("else\x7b".toList ++ rest) = some (" else ".toList, rest) := rfl

theorem elseAfter?_elseIf (rest : Text) :
    elseAfter? ("else if ".toList ++ ("(".toList ++ rest)) =
      some (" elseif ".toList, "(".toList ++ rest) := rfl

end Stencil.Lower
