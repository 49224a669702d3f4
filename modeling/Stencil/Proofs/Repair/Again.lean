import Stencil.Proofs.Mask.Inserting
import Stencil.Proofs.Repair.Course
import Stencil.Proofs.Repair.Insertions
/-!
# Repairing again

A repaired text needs no other repair: every head in it that repair comes to opens its block. Braces
put in further on make no head and take no block from one, and the literals of the repaired body are
those of the body, so the second repair finds the heads of the first.
-/
namespace Stencil

namespace Repair

open BlockHead

/-! ## Where braces are put in -/

/-- What repair puts in between two parts of a text. -/
inductive Seam : Text → Text → Text → Prop
  | opens {u v : Text} : Seam (u ++ [')']) ['{'] v
  | closes {u v : Text} : Seam (u ++ [';']) ['}'] v
  | ends {u : Text} : Seam u ['}'] []
  | branch {u v : Text} : "else".toList <+: v → Seam u ['}', ' '] v

/-- The second text is the first with braces put in, one after the other. -/
inductive Mended (t : Text) : Text → Prop
  | refl : Mended t t
  | put {u w v : Text} : Mended t (u ++ v) → Seam u w v → Mended t (u ++ (w ++ v))

variable {m : Mask} {before t t' u v w written after condition : Text} {head : BlockHead}

theorem Seam.prepend (h : Seam u w v) (p : Text) : Seam (p ++ u) w v := by
  cases h with
  | opens => rw [← List.append_assoc]; exact .opens
  | closes => rw [← List.append_assoc]; exact .closes
  | ends => exact .ends
  | branch helse => exact .branch helse

/-- What is put in begins with a brace, that no head has and no name. -/
theorem Seam.exists_cons (h : Seam u w v) :
    ∃ c rest, w = c :: rest ∧ outside c = true ∧ isNameChar c = false := by
  cases h <;> exact ⟨_, _, rfl, by decide, by decide⟩

namespace Mended

theorem trans {t'' : Text} (h : Mended t t') (h' : Mended t' t'') : Mended t t'' := by
  induction h' with
  | refl => exact h
  | put _ hseam ih => exact .put ih hseam

theorem prepend (h : Mended t t') (p : Text) : Mended (p ++ t) (p ++ t') := by
  induction h with
  | refl => exact .refl
  | put _ hseam ih =>
      rw [← List.append_assoc] at ih ⊢
      exact .put ih (hseam.prepend p)

theorem closeIf (wanted : Bool) (t : Text) : Mended t (closeIf wanted t) := by
  cases wanted with
  | false => exact .refl
  | true =>
      obtain ⟨s, t', rfl, hclose, hend⟩ := exists_closeStatement 0 t
      rw [Repair.closeIf, if_pos rfl, hclose]
      obtain rfl | ⟨s, rfl⟩ := hend
      · exact .put (w := ['}']) .refl .ends
      · exact .put (w := ['}']) .refl .closes

end Mended

/-! ## What braces do not change -/

/-- Braces put in behind a place make no head there. -/
theorem read?_eq_none_of_mended {c : Char} {before : Option Char} (h : Mended t t')
    (hnone : read? before (c :: t) = none) : read? before (c :: t') = none := by
  induction h with
  | refl => exact hnone
  | @put u w v _ hseam ih =>
      obtain ⟨d, rest, rfl, hout, -⟩ := hseam.exists_cons
      have hfront : read? before (c :: u) = none := by
        cases hread : read? before (c :: u) with
        | none => rfl
        | some head =>
            -- the head would have been there without what comes after it
            obtain ⟨keyword, afterOpen⟩ := head
            obtain ⟨hbefore, hkey, b, hb, ht⟩ := read?_eq_some.mp hread
            have hlonger : read? before (c :: (u ++ v)) = some ⟨keyword, afterOpen ++ v⟩ := by
              rw [read?_eq_some]
              refine ⟨hbefore, hkey, b, hb, ?_⟩
              rw [← List.cons_append, ht]
              simp
            rw [ih] at hlonger
            exact absurd hlonger (by simp)
      rw [List.cons_append, ← List.cons_append, read?_outside hout, hfront]
      rfl

/-- What opens a block: a brace, or a word that ends there. -/
def Opening (t : Text) : Prop :=
  t.head? = some '{' ∨ ∃ word ∈ ["then", "do"], ∃ after, t = word.toList ++ after ∧
    ∀ c, after.head? = some c → isNameChar c = false

theorem opensBlock_iff :
    opensBlock t = true ↔ ∃ b rest, Text.Blank b ∧ t = b ++ rest ∧ Opening rest := by
  have hended (after : Text) : (!after.head?.any isNameChar) = true ↔
      ∀ c, after.head? = some c → isNameChar c = false := by
    cases after.head? <;> simp
  constructor
  · intro h
    obtain ⟨b, hb, ht⟩ := Text.exists_blank_trimStart t
    refine ⟨b, _, hb, ht, ?_⟩
    simp only [opensBlock, Bool.or_eq_true, beq_iff_eq, List.any_eq_true, Option.any_eq_true] at h
    rcases h with hbrace | ⟨word, hword, after, hafter, hend⟩
    · exact Or.inl hbrace
    · exact Or.inr ⟨word, hword, after, Text.after?_eq_some.mp hafter, (hended after).mp hend⟩
  · rintro ⟨b, rest, hb, rfl, hopening⟩
    have hflush : Text.Flush rest := by
      rcases hopening with hbrace | ⟨word, hword, after, rfl, -⟩
      · obtain ⟨more, rfl⟩ := List.head?_eq_some_iff.mp hbrace
        simpa using show isBlank '{' = false by decide
      · simp only [List.mem_cons, List.not_mem_nil, or_false] at hword
        rcases hword with rfl | rfl
        · simpa using show isBlank 't' = false by decide
        · simpa using show isBlank 'd' = false by decide
    simp only [opensBlock, Text.trimStart_append hb hflush, Bool.or_eq_true, beq_iff_eq,
      List.any_eq_true, Option.any_eq_true]
    rcases hopening with hbrace | ⟨word, hword, after, rfl, hend⟩
    · exact Or.inl hbrace
    · exact Or.inr ⟨word, hword, after, Text.after?_append _ _, (hended after).mpr hend⟩

private theorem else_eq : "else".toList = ['e', 'l', 's', 'e'] := rfl

/-- Where only white space stands before a seam, no block is opened after it. -/
private theorem Seam.not_opening {a rest : Text} (h : Seam u w v) (hu : Text.Blank u)
    (ha : Text.Blank a) (hv : v = a ++ rest) : ¬ Opening rest := by
  intro hopening
  cases h with
  | opens => exact absurd (hu ')' (by simp)) (by decide)
  | closes => exact absurd (hu ';' (by simp)) (by decide)
  | ends =>
      obtain ⟨-, rfl⟩ := List.append_eq_nil_iff.mp hv.symm
      rcases hopening with hbrace | ⟨word, hword, after, hsplit, -⟩
      · simp at hbrace
      · simp only [List.mem_cons, List.not_mem_nil, or_false] at hword
        rcases hword with rfl | rfl <;> simp at hsplit
  | branch helse =>
      obtain ⟨more, hmore⟩ := helse
      rw [hv, else_eq] at hmore
      cases a with
      | cons c a =>
          obtain ⟨rfl, -⟩ := List.cons.inj hmore
          exact absurd (ha 'e' (by simp)) (by decide)
      | nil =>
          rw [List.nil_append] at hmore
          rcases hopening with hbrace | ⟨word, hword, after, hsplit, -⟩
          · simp [← hmore] at hbrace
          · rw [← hmore] at hsplit
            simp only [List.mem_cons, List.not_mem_nil, or_false] at hword
            rcases hword with rfl | rfl <;> simp at hsplit

/-- No seam goes through a word that opens a block. -/
private theorem Seam.not_through_word {b x y after : Text} {word : String} (h : Seam u w v)
    (hword : word ∈ ["then", "do"]) (hu : u = b ++ y) (hy : y ≠ []) (hx : x ≠ [])
    (hsplit : word.toList = y ++ x) (hv : v = x ++ after) : False := by
  have hclosing {c : Char} {p : Text} (hp : p ++ [c] = b ++ y) : c ∈ word.toList := by
    obtain ⟨y, d, rfl⟩ := (List.eq_nil_or_concat y).resolve_left hy
    have hlast := congrArg List.getLast? hp
    have hc : c = d := by simpa using hlast
    simp [hsplit, hc]
  simp only [List.mem_cons, List.not_mem_nil, or_false] at hword
  cases h with
  | opens =>
      have hmem := hclosing hu
      rcases hword with rfl | rfl <;> exact absurd hmem (by decide)
  | closes =>
      have hmem := hclosing hu
      rcases hword with rfl | rfl <;> exact absurd hmem (by decide)
  | ends => exact hx (List.append_eq_nil_iff.mp hv.symm).1
  | branch helse =>
      -- the word would end with an `e`, or have an `l` after it
      obtain ⟨more, hmore⟩ := helse
      rw [hv, else_eq] at hmore
      obtain ⟨c, x, rfl⟩ := List.exists_cons_of_ne_nil hx
      obtain ⟨rfl, htail⟩ := List.cons.inj hmore
      cases x with
      | nil =>
          have hlast := congrArg List.getLast? hsplit
          rw [List.getLast?_concat] at hlast
          rcases hword with rfl | rfl <;> exact absurd hlast (by decide)
      | cons d x =>
          obtain ⟨rfl, -⟩ := List.cons.inj htail
          have hmem : 'l' ∈ word.toList := by simp [hsplit]
          rcases hword with rfl | rfl <;> exact absurd hmem (by decide)

/-- A brace put in after a head leaves its block open. -/
private theorem opensBlock_of_seam (h : Seam u w v) (hopens : opensBlock (u ++ v) = true) :
    opensBlock (u ++ (w ++ v)) = true := by
  obtain ⟨c, more, hw, -, hname⟩ := h.exists_cons
  obtain ⟨b, rest, hb, hsplit, hopening⟩ := opensBlock_iff.mp hopens
  rcases List.append_eq_append_iff.mp hsplit with ⟨a, rfl, hv⟩ | ⟨y, hu, rfl⟩
  · obtain ⟨hu, ha⟩ := Text.blank_append.mp hb
    exact absurd hopening (h.not_opening hu ha hv)
  · by_cases hy : y = []
    · subst hy
      rw [List.append_nil] at hu
      rw [← hu] at hb
      exact absurd hopening (h.not_opening hb Text.blank_nil rfl)
    · have hafter (x : Text) : (x ++ (w ++ v)).head? = (x ++ [c]).head? := by
        cases x <;> simp [hw]
      refine opensBlock_iff.mpr ⟨b, y ++ (w ++ v), hb, by rw [hu, List.append_assoc], ?_⟩
      rcases hopening with hbrace | ⟨word, hword, after, hrest, hend⟩
      · obtain ⟨e, y, rfl⟩ := List.exists_cons_of_ne_nil hy
        exact Or.inl hbrace
      · rcases List.append_eq_append_iff.mp hrest with ⟨x, hx, hv⟩ | ⟨x, hx, hafter'⟩
        · by_cases hnil : x = []
          · refine Or.inr ⟨word, hword, w ++ v, by rw [hx, hnil, List.append_nil], ?_⟩
            intro d hd
            have hd' : c = d := by simpa [hw] using hd
            exact hd' ▸ hname
          · exact (h.not_through_word hword hu hy hnil hx hv).elim
        · refine Or.inr ⟨word, hword, x ++ (w ++ v), by rw [hx, List.append_assoc], ?_⟩
          intro d hd
          cases x with
          | nil =>
              have hd' : c = d := by simpa [hw] using hd
              exact hd' ▸ hname
          | cons e x => exact hend d (by rw [hafter']; exact hd)

theorem opensBlock_of_mended (h : Mended t t') (hopens : opensBlock t = true) :
    opensBlock t' = true := by
  induction h with
  | refl => exact hopens
  | put _ hseam ih => exact opensBlock_of_seam hseam ih

/-- A head and its group are read again where only the text after them changes. -/
theorem head_again (hread : read? before.head? (written ++ after) = some head)
    (hgroup : Text.splitGroup? '(' ')' 0 head.afterOpen = some (condition, after)) (t : Text) :
    ∃ head', read? before.head? (written ++ t) = some head' ∧ head'.keyword = head.keyword ∧
      Text.splitGroup? '(' ')' 0 head'.afterOpen = some (condition, t) := by
  obtain ⟨keyword, afterOpen⟩ := head
  obtain ⟨hbefore, hkey, b, hb, hsplit⟩ := read?_eq_some.mp hread
  obtain ⟨hinside, hbalanced⟩ := (Text.splitGroup?_eq_some (by decide)).mp hgroup
  dsimp only at hinside
  have hwhole : written ++ after = keyword ++ (b ++ '(' :: (condition ++ [')'])) ++ after := by
    simp [hsplit, hinside]
  have hwritten := List.append_cancel_right hwhole
  refine ⟨⟨keyword, condition ++ ')' :: t⟩, read?_eq_some.mpr ⟨hbefore, hkey, b, hb, ?_⟩, rfl, ?_⟩
  · simp [hwritten]
  · exact (Text.splitGroup?_eq_some (by decide)).mpr ⟨rfl, hbalanced⟩

/-! ## Texts that need no repair -/

/-- From a place on nothing is put in, whatever the literals. -/
def Quiet (before t : Text) : Prop := ∀ m, repairFrom m before t = (before.reverse ++ t, [])

theorem quiet_nil (before : Text) : Quiet before [] := by
  intro m
  rw [repairFrom, List.append_nil]

theorem quiet_pass {c : Char} {cs : Text} (h : read? before.head? (c :: cs) = none) :
    Quiet before (c :: cs) ↔ Quiet (c :: before) cs := by
  simp only [Quiet, repairFrom_pass h, List.reverse_cons, List.append_assoc, List.singleton_append]

theorem quiet_stop (h : read? before.head? t = some head)
    (hs : Text.splitGroup? '(' ')' 0 head.afterOpen = none) : Quiet before t :=
  fun _ => repairFrom_stop h hs

theorem quiet_opens (h : read? before.head? (written ++ after) = some head)
    (hs : Text.splitGroup? '(' ')' 0 head.afterOpen = some (condition, after))
    (hopens : opensBlock after = true) :
    Quiet before (written ++ after) ↔ Quiet (written.reverse ++ before) after := by
  simp only [Quiet, repairFrom_head h hs, if_pos hopens, List.reverse_append, List.reverse_reverse,
    List.append_assoc]

private theorem read?_of_outside {c : Char} (hc : outside c = true) (before : Option Char)
    (t : Text) : read? before (c :: t) = none := by
  have hread : read? before ([] ++ c :: t) = _ := read?_outside hc [] t
  have hnil : read? before [] = none := by
    cases h : read? before [] with
    | none => rfl
    | some head => exact absurd (length_afterOpen h) (by simp)
  rw [hnil] at hread
  exact hread

private theorem read?_space (before : Option Char) (t : Text) : read? before (' ' :: t) = none := by
  cases h : read? before (' ' :: t) with
  | none => rfl
  | some head =>
      obtain ⟨keyword, afterOpen⟩ := head
      obtain ⟨-, hkey, b, -, hsplit⟩ := read?_eq_some.mp h
      cases hkey with
      | branch hb => simp [else_eq] at hsplit
      | plain hword =>
          simp only [List.mem_cons, List.not_mem_nil, or_false] at hword
          rcases hword with rfl | rfl | rfl <;> simp at hsplit

/-- What a repair writes around a head needs no other repair, if the rest needs none. -/
private theorem quiet_opened (hread : read? before.head? (written ++ after) = some head)
    (hgroup : Text.splitGroup? '(' ')' 0 head.afterOpen = some (condition, after))
    (hquiet : Quiet (opened head before written) t) :
    Quiet before (lead head before ++ (written ++ '{' :: t)) := by
  obtain ⟨head', hread', -, hgroup'⟩ := head_again hread hgroup ('{' :: t)
  have hopens : opensBlock ('{' :: t) = true :=
    opensBlock_iff.mpr ⟨[], _, Text.blank_nil, rfl, Or.inl rfl⟩
  have hbrace {before : Text} (h : Quiet ('{' :: before) t) : Quiet before ('{' :: t) :=
    (quiet_pass (read?_of_outside (by decide) _ _)).mpr h
  obtain hlead | ⟨hlead, -⟩ := lead_eq head before
  · rw [opened, hlead] at hquiet
    rw [hlead]
    exact (quiet_opens hread' hgroup' hopens).mpr (hbrace hquiet)
  · rw [opened, hlead] at hquiet
    rw [hlead]
    have hread'' : read? (' ' :: '}' :: before).head? (written ++ '{' :: t) = some head' := by
      obtain ⟨keyword, afterOpen⟩ := head'
      obtain ⟨-, hkey, hrest⟩ := read?_eq_some.mp hread'
      exact read?_eq_some.mpr ⟨show wordMayBegin (some ' ') = true by decide, hkey, hrest⟩
    have hhead := (quiet_opens hread'' hgroup' hopens).mpr (hbrace hquiet)
    exact (quiet_pass (read?_of_outside (by decide) _ _)).mpr
      ((quiet_pass (read?_space _ _)).mpr hhead)

/-- One repair mends the text from its place on. -/
private theorem mended_opened (hw : Written head.keyword written) (wanted : Bool)
    (helse : head.isElse = true → "else".toList <+: written)
    (h : Mended (closeIf wanted after) t) :
    Mended (written ++ after) (lead head before ++ (written ++ '{' :: t)) := by
  have hclosed : Mended (written ++ after) (written ++ closeIf wanted after) :=
    (Mended.closeIf wanted after).prepend written
  have hopened : Mended (written ++ after) (written ++ '{' :: closeIf wanted after) := by
    obtain ⟨c, u, rfl, -⟩ := hw.bare_ends
    exact .put (w := ['{']) hclosed (.opens (u := c :: u))
  have hrest : Mended (written ++ '{' :: closeIf wanted after) (written ++ '{' :: t) := by
    have hprepend := h.prepend (written ++ ['{'])
    simpa using hprepend
  have hall := hopened.trans hrest
  obtain hlead | ⟨hlead, hisElse⟩ := lead_eq head before
  · rw [hlead]
    exact hall
  · rw [hlead]
    have hbranch : "else".toList <+: written ++ '{' :: t :=
      (helse hisElse).trans (List.prefix_append _ _)
    exact .put (u := []) hall (.branch hbranch)

/-- Repair mends the text from a place on, and then nothing is left to repair there. -/
theorem exists_mended (before t : Text) :
    ∃ t', (repairFrom ⟨[], []⟩ before t).1 = before.reverse ++ t' ∧ Mended t t' ∧
      Quiet before t' := by
  refine repairFrom_induct (motive := fun before t =>
    ∃ t', (repairFrom ⟨[], []⟩ before t).1 = before.reverse ++ t' ∧ Mended t t' ∧
      Quiet before t') ?_ ?_ ?_ ?_ ?_ before t
  · intro before
    exact ⟨[], by rw [quiet_nil], .refl, quiet_nil before⟩
  · intro before c cs hread ih
    obtain ⟨t', htext, hmended, hquiet⟩ := ih
    refine ⟨c :: t', ?_, hmended.prepend [c], ?_⟩
    · rw [repairFrom_pass hread, htext]
      simp
    · exact (quiet_pass (read?_eq_none_of_mended hmended hread)).mpr hquiet
  · intro before t head hread hgroup
    exact ⟨t, by rw [repairFrom_stop hread hgroup], .refl, quiet_stop hread hgroup⟩
  · intro before written after head condition _ hread hgroup hopens ih
    obtain ⟨t', htext, hmended, hquiet⟩ := ih
    obtain ⟨head', hread', -, hgroup'⟩ := head_again hread hgroup t'
    refine ⟨written ++ t', ?_, hmended.prepend written, ?_⟩
    · rw [repairFrom_head hread hgroup, if_pos hopens, htext]
      simp
    · exact (quiet_opens hread' hgroup' (opensBlock_of_mended hmended hopens)).mpr hquiet
  · intro before written after head condition hw hread hgroup hopens ih
    obtain ⟨t', htext, hmended, hquiet⟩ := ih
    refine ⟨lead head before ++ (written ++ '{' :: t'), ?_, ?_, quiet_opened hread hgroup hquiet⟩
    · rw [repairFrom_head hread hgroup, if_neg (by simp [hopens]), htext]
      simp [opened]
    · exact mended_opened hw _ (isHead_written hread hgroup).2 hmended

/-! ## Without a brace at the end -/

private theorem opensBlock_of_ends (h : opensBlock (t ++ ['}']) = true) : opensBlock t = true := by
  obtain ⟨b, rest, hb, hsplit, hopening⟩ := opensBlock_iff.mp h
  have hnone : ¬ Opening ['}'] := by
    rintro (hbrace | ⟨word, hword, after, hw, -⟩)
    · simp at hbrace
    · simp only [List.mem_cons, List.not_mem_nil, or_false] at hword
      rcases hword with rfl | rfl <;> simp at hw
  rcases List.append_eq_append_iff.mp hsplit with ⟨a, rfl, ha⟩ | ⟨y, hy, hrest⟩
  · cases a with
    | nil =>
        rw [List.nil_append] at ha
        exact absurd (ha ▸ hopening) hnone
    | cons c a =>
        obtain ⟨rfl, -⟩ := List.cons.inj ha
        exact absurd (hb '}' (by simp)) (by decide)
  · refine opensBlock_iff.mpr ⟨b, y, hb, hy, ?_⟩
    cases y with
    | nil =>
        rw [List.nil_append] at hrest
        exact absurd (hrest ▸ hopening) hnone
    | cons c y =>
        rcases hopening with hbrace | ⟨word, hword, after, hw, hend⟩
        · rw [hrest] at hbrace
          exact Or.inl hbrace
        · rw [hrest] at hw
          rcases List.append_eq_append_iff.mp hw with ⟨x, hx, hafter⟩ | ⟨x, hx, hafter⟩
          · -- the brace is none of the word
            cases x with
            | nil => exact Or.inr ⟨word, hword, [], by simp [hx], by simp⟩
            | cons d x =>
                obtain ⟨rfl, -⟩ := List.cons.inj hafter
                have hmem : '}' ∈ word.toList := by simp [hx]
                simp only [List.mem_cons, List.not_mem_nil, or_false] at hword
                rcases hword with rfl | rfl <;> exact absurd hmem (by decide)
          · refine Or.inr ⟨word, hword, x, hx, ?_⟩
            intro d hd
            cases x with
            | nil => simp at hd
            | cons e x => exact hend d (by rw [hafter]; exact hd)

/-- A text that needs no repair needs none either without a brace at its end. -/
private theorem quiet_of_ends (before t : Text) : Quiet before (t ++ ['}']) → Quiet before t := by
  refine repairFrom_induct (motive := fun before t => Quiet before (t ++ ['}']) → Quiet before t)
    ?_ ?_ ?_ ?_ ?_ before t
  · intro before _
    exact quiet_nil before
  · intro before c cs hread ih hquiet
    have hmended : Mended cs (cs ++ ['}']) := by
      have hput := Mended.put (t := cs) (u := cs) (v := []) (by rw [List.append_nil]; exact .refl) .ends
      rwa [List.append_nil] at hput
    rw [List.cons_append, quiet_pass (read?_eq_none_of_mended hmended hread)] at hquiet
    exact (quiet_pass hread).mpr (ih hquiet)
  · intro before t head hread hgroup _
    exact quiet_stop hread hgroup
  · intro before written after head condition _ hread hgroup hopens ih hquiet
    obtain ⟨head', hread', -, hgroup'⟩ := head_again hread hgroup (after ++ ['}'])
    have hopens' : opensBlock (after ++ ['}']) = true := by
      have hseam : Seam after ['}'] [] := .ends
      simpa using opensBlock_of_seam hseam (by simpa using hopens)
    rw [List.append_assoc, quiet_opens hread' hgroup' hopens'] at hquiet
    exact (quiet_opens hread hgroup hopens).mpr (ih hquiet)
  · intro before written after head condition _ hread hgroup hopens _ hquiet
    obtain ⟨head', hread', -, hgroup'⟩ := head_again hread hgroup (after ++ ['}'])
    have hopens' : opensBlock (after ++ ['}']) = false := by
      rw [Bool.eq_false_iff]
      intro htrue
      rw [opensBlock_of_ends htrue] at hopens
      exact absurd hopens (by simp)
    -- a brace would have been put in after the head
    have hrepaired := congrArg Prod.snd (hquiet ⟨[], []⟩)
    rw [List.append_assoc, repairFrom_head hread' hgroup', if_neg (by simp [hopens'])] at hrepaired
    exact absurd hrepaired (by simp)

theorem quiet_of_braces {k : Nat} (h : Quiet before (t ++ List.replicate k '}')) : Quiet before t := by
  induction k with
  | zero => simpa using h
  | succ k ih =>
      rw [List.replicate_succ', ← List.append_assoc] at h
      exact ih (quiet_of_ends _ _ h)

/-! ## The tiles of a repaired body -/

open Tile in
/-- A text is mended by putting braces between the tiles of a source and at its end. -/
structure Tiled (ts : List Tile) (t : Text) (us : List Tile) (k : Nat) : Prop where
  masked : t = Mask.textFrom 0 us ++ List.replicate k '}'
  tiling : Tiling us (us.flatMap Tile.text)
  code : ∀ x ∈ us, x.isComment = false
  legible : .plain Mask.opening ∉ us
  literals : Mask.literalsOf us = Mask.literalsOf ts
  last : ∀ l, us.getLast? = some (.literal l) → ts.getLast? = some (.literal l)

section Tiles

open Tile

variable {ts us as bs : List Tile} {k : Nat}

/-- Where a character of the code stands, the tiles come apart. -/
private theorem Tiled.split {c : Char} (h : Tiled ts t us k) (hc : Symbol.isMarkChar c = false)
    (hne : c ≠ '}') (ht : t = u ++ c :: v) :
    ∃ as bs, us = as ++ .plain c :: bs ∧ u = Mask.textFrom 0 as ∧
      v = Mask.textFrom (Mask.literalsOf as).length bs ++ List.replicate k '}' := by
  have hsplit := h.masked.symm.trans ht
  rcases List.append_eq_append_iff.mp hsplit with ⟨a, -, ha⟩ | ⟨a, hmasked, ha⟩
  · have hmem : c ∈ List.replicate k '}' := by simp [ha]
    exact absurd (List.mem_replicate.mp hmem).2 hne
  · cases a with
    | nil =>
        rw [List.nil_append] at ha
        have hmem : c ∈ List.replicate k '}' := ha ▸ List.mem_cons_self
        exact absurd (List.mem_replicate.mp hmem).2 hne
    | cons d a =>
        obtain ⟨rfl, rfl⟩ := List.cons.inj ha
        obtain ⟨as, bs, rfl, rfl, hbs⟩ := textFrom_split h.code hc hmasked
        rw [Nat.zero_add] at hbs
        exact ⟨as, bs, rfl, rfl, by rw [hbs]; rfl⟩

/-- Braces can be put in between two tiles. -/
private theorem Tiled.put (h : Tiled ts t (as ++ bs) k) (hw : Inert w) (hne : w ≠ [])
    (hopening : Mask.opening ∉ w)
    (hlast : ∀ l, as.getLast? = some (.literal l) → ∃ c more, bs = .plain c :: more ∧ c ≠ '\n') :
    Tiled ts (Mask.textFrom 0 as ++
        (w ++ (Mask.textFrom (Mask.literalsOf as).length bs ++ List.replicate k '}')))
      (as ++ (w.map .plain ++ bs)) k where
  masked := by
    rw [Symbol.textFrom_append, Symbol.textFrom_append, Symbol.textFrom_plain,
      Symbol.literalsOf_plain]
    simp
  tiling := by
    have hcode := (List.forall_mem_append.mp h.code).1
    have hput := h.tiling.insert hcode hlast hw
    rw [← hput.flatMap_eq] at hput
    exact hput
  code := by
    obtain ⟨has, hbs⟩ := List.forall_mem_append.mp h.code
    refine List.forall_mem_append.mpr ⟨has, List.forall_mem_append.mpr ⟨?_, hbs⟩⟩
    intro x hx
    obtain ⟨c, -, rfl⟩ := List.mem_map.mp hx
    rfl
  legible := by
    have hlegible := h.legible
    simp only [List.mem_append, List.mem_map, Tile.plain.injEq, exists_eq_right, not_or] at hlegible ⊢
    exact ⟨hlegible.1, hopening, hlegible.2⟩
  literals := by
    rw [← h.literals]
    simp only [Symbol.literalsOf_append, Symbol.literalsOf_plain, List.nil_append]
  last := by
    intro l hl
    apply h.last
    by_cases hbs : bs = []
    · -- the last tile is a brace
      obtain ⟨w, c, rfl⟩ := (List.eq_nil_or_concat w).resolve_left hne
      simp [hbs] at hl
    · obtain ⟨bs, x, rfl⟩ := (List.eq_nil_or_concat bs).resolve_left hbs
      simpa using hl

/-- Each brace that is put in stands between two tiles, or at the end. -/
private theorem Tiled.seam (h : Tiled ts (u ++ v) us k) (hseam : Seam u w v) :
    ∃ us' k', Tiled ts (u ++ (w ++ v)) us' k' := by
  -- after a character of the code
  have after {c : Char} {u w v : Text} (h : Tiled ts (u ++ [c] ++ v) us k)
      (hc : Symbol.isMarkChar c = false) (hne : c ≠ '}') (hw : Inert w) (hnil : w ≠ [])
      (hopening : Mask.opening ∉ w) : ∃ us', Tiled ts (u ++ [c] ++ (w ++ v)) us' k := by
    obtain ⟨as, bs, rfl, rfl, rfl⟩ := h.split (u := u) (v := v) hc hne (by simp)
    have hsplit : as ++ .plain c :: bs = (as ++ [.plain c]) ++ bs := by simp
    rw [hsplit] at h
    have hput := h.put hw hnil hopening (by simp)
    refine ⟨as ++ [.plain c] ++ (w.map .plain ++ bs), ?_⟩
    rw [Symbol.textFrom_append, Symbol.literalsOf_append] at hput
    simpa [Mask.textFrom, Mask.literalsOf] using hput
  cases hseam with
  | opens =>
      obtain ⟨us', hus'⟩ := after (w := ['{']) h (by decide) (by decide) (by decide) (by decide) (by decide)
      exact ⟨us', k, hus'⟩
  | closes =>
      obtain ⟨us', hus'⟩ := after (w := ['}']) h (by decide) (by decide) (by decide) (by decide) (by decide)
      exact ⟨us', k, hus'⟩
  | ends =>
      refine ⟨us, k + 1, { h with masked := ?_ }⟩
      have hmasked := h.masked
      rw [List.append_nil] at hmasked
      rw [hmasked, List.replicate_succ']
      simp
  | branch helse =>
      obtain ⟨more, rfl⟩ := helse
      obtain ⟨as, bs, rfl, rfl, hbs⟩ :=
        h.split (c := 'e') (u := u) (v := ['l', 's', 'e'] ++ more) (by decide) (by decide) rfl
      have hput := h.put (w := ['}', ' ']) (by decide) (by decide) (by decide)
        (fun _ _ => ⟨'e', bs, rfl, by decide⟩)
      have hv : "else".toList ++ more =
          Mask.textFrom (Mask.literalsOf as).length (.plain 'e' :: bs) ++ List.replicate k '}' := by
        rw [Mask.textFrom, List.cons_append, ← hbs]
        rfl
      rw [hv]
      exact ⟨_, k, hput⟩

/-- A mended text has the tiles of its source and braces between them. -/
theorem Mended.exists_tiled {source : Text} (hcode : ∀ x ∈ tiles source, x.isComment = false)
    (hlegible : .plain Mask.opening ∉ tiles source) (h : Mended (Mask.textFrom 0 (tiles source)) t) :
    ∃ us k, Tiled (tiles source) t us k := by
  induction h with
  | refl =>
      refine ⟨tiles source, 0, ⟨by simp, ?_, hcode, hlegible, rfl, fun _ hl => hl⟩⟩
      rw [flatMap_text]
      exact tiling_iff.mpr rfl
  | put _ hseam ih =>
      obtain ⟨us, k, htiled⟩ := ih
      exact htiled.seam hseam

end Tiles

/-! ## The repaired body -/

section Body

open Tile

variable {body : Text}

private theorem inert_braces (k : Nat) : Inert (List.replicate k '}') := by
  intro c hc
  rw [(List.mem_replicate.mp hc).2]
  decide

private theorem textFrom_append_braces (us : List Tile) (k : Nat) :
    Mask.textFrom 0 (us ++ (List.replicate k '}').map .plain) =
      Mask.textFrom 0 us ++ List.replicate k '}' := by
  rw [Symbol.textFrom_append, Symbol.textFrom_plain]

private theorem code_append_braces {us : List Tile} (h : ∀ x ∈ us, x.isComment = false) (k : Nat) :
    ∀ x ∈ us ++ (List.replicate k '}').map .plain, x.isComment = false := by
  refine List.forall_mem_append.mpr ⟨h, ?_⟩
  intro x hx
  obtain ⟨c, -, rfl⟩ := List.mem_map.mp hx
  rfl

private theorem legible_append_braces {us : List Tile} (h : .plain Mask.opening ∉ us) (k : Nat) :
    .plain Mask.opening ∉ us ++ (List.replicate k '}').map .plain := by
  rw [List.mem_append, not_or]
  refine ⟨h, fun hmem => ?_⟩
  obtain ⟨c, hc, he⟩ := List.mem_map.mp hmem
  rw [(List.mem_replicate.mp hc).2] at he
  exact absurd (Tile.plain.inj he) (by decide)

/-- A repaired body has the tiles of the body and braces between them and at the end, and its masked
text needs no other repair. -/
theorem exists_repaired (hcode : ∀ x ∈ tiles body, x.isComment = false)
    (hlegible : .plain Mask.opening ∉ tiles body) :
    ∃ us k, Tiled (tiles body) (repairFrom (Mask.ofText body) [] (Mask.ofText body).text).1 us k ∧
      Quiet [] (Mask.textFrom 0 us ++ List.replicate k '}') ∧
      (repair body).1 = us.flatMap Tile.text ++ List.replicate k '}' := by
  obtain ⟨t, htext, hmended, hquiet⟩ := exists_mended [] (Mask.ofText body).text
  obtain ⟨us, k, htiled⟩ := hmended.exists_tiled hcode hlegible
  have hout : (repairFrom (Mask.ofText body) [] (Mask.ofText body).text).1 = t := by
    rw [repairFrom_restore, htext]
    rfl
  refine ⟨us, k, hout ▸ htiled, htiled.masked ▸ hquiet, ?_⟩
  have hliterals : (Mask.ofText body).literals =
      Mask.literalsOf (us ++ (List.replicate k '}').map .plain) := by
    rw [Symbol.literalsOf_append, Symbol.literalsOf_plain, List.append_nil, htiled.literals]
    rfl
  have hrestored : (repair body).1 = (Mask.ofText body).restore
      (repairFrom (Mask.ofText body) [] (Mask.ofText body).text).1 := rfl
  rw [hrestored, hout, htiled.masked, ← textFrom_append_braces,
    restore_textFrom (code_append_braces htiled.code k)
      (legible_append_braces htiled.legible k) hliterals, List.flatMap_append, List.flatMap_map]
  exact congrArg (us.flatMap Tile.text ++ ·) (List.flatMap_singleton' _)

/-- The repaired body has the masked text that repair wrote and the literals of the body, unless the
last tile is a literal that was left open. -/
theorem ofText_repaired (hcode : ∀ x ∈ tiles body, x.isComment = false)
    (hlegible : .plain Mask.opening ∉ tiles body)
    (hlast : ∀ l, (tiles body).getLast? = some (.literal l) → (Tile.literal l).isClosed = true) :
    Mask.ofText (repair body).1 =
      ⟨(repairFrom (Mask.ofText body) [] (Mask.ofText body).text).1,
        (Mask.ofText body).literals⟩ := by
  obtain ⟨us, k, htiled, -, htext⟩ := exists_repaired hcode hlegible
  rcases htiled.tiling.extend htiled.code (inert_braces k) with hplain | ⟨vs, l, rfl, hopen, -⟩
  · rw [htext, htiled.masked, Mask.ofText, ← tiling_iff.mp hplain, textFrom_append_braces,
      Symbol.literalsOf_append, Symbol.literalsOf_plain, List.append_nil, htiled.literals]
    rfl
  · rw [hlast l (htiled.last l (by simp))] at hopen
    exact absurd hopen (by simp)

/-- A body whose masked text needs no repair is left as it is. -/
theorem repair_of_quiet (hcode : ∀ x ∈ tiles body, x.isComment = false)
    (hlegible : .plain Mask.opening ∉ tiles body) (hquiet : Quiet [] (Mask.ofText body).text) :
    repair body = (body, []) := by
  have hrestored : (Mask.ofText body).restore (Mask.ofText body).text = body := by
    rw [Mask.ofText, restore_textFrom hcode hlegible rfl, flatMap_text]
  rw [repair]
  dsimp only
  rw [hquiet, List.reverse_nil, List.nil_append, hrestored]

end Body

end Repair

/-- Repair is done at once. Where a body has no comment and no character that looks like the beginning
of a placeholder outside its literals, repairing the repaired body puts nothing in and leaves the text
as it is. -/
theorem repair_repair {body : Text} (hcode : ∀ x ∈ tiles body, x.isComment = false)
    (hlegible : .plain Mask.opening ∉ tiles body) :
    repair (repair body).1 = ((repair body).1, []) := by
  obtain ⟨us, k, htiled, hquiet, htext⟩ := Repair.exists_repaired hcode hlegible
  rcases htiled.tiling.extend htiled.code (Repair.inert_braces k) with hplain | ⟨vs, l, rfl, -, htaken⟩
  · have htiles := (Tile.tiling_iff.mp hplain).symm
    rw [← htext] at htiles
    apply Repair.repair_of_quiet
    · rw [htiles]
      exact Repair.code_append_braces htiled.code k
    · rw [htiles]
      exact Repair.legible_append_braces htiled.legible k
    · rw [Mask.ofText, htiles, Repair.textFrom_append_braces]
      exact hquiet
  · -- the literal at the end takes up the braces that were put in there
    have htiles := (Tile.tiling_iff.mp htaken).symm
    rw [← htext] at htiles
    obtain ⟨hvs, -⟩ := List.forall_mem_append.mp htiled.code
    have hlegible' := htiled.legible
    rw [List.mem_append, not_or] at hlegible'
    apply Repair.repair_of_quiet
    · rw [htiles]
      exact List.forall_mem_append.mpr ⟨hvs, by simp [Tile.isComment]⟩
    · rw [htiles, List.mem_append, not_or]
      exact ⟨hlegible'.1, by simp⟩
    · have hmasked : (Mask.ofText (repair body).1).text = Mask.textFrom 0 (vs ++ [.literal l]) := by
        rw [Mask.ofText, htiles, Symbol.textFrom_append, Symbol.textFrom_append]
        rfl
      rw [hmasked]
      exact Repair.quiet_of_braces hquiet

open Repair Repair.Marked

/-- Heads without braces up to a string that is left open. -/
private def unended : Text := "if (a) else if (b; c) for (;;) f('x".toList

/-- The block of the first head is closed in the condition of the second one, and the brace that closes
the block of the last one falls into the string. -/
theorem repair_repair_unended :
    let repaired := "if (a)\x7b \x7d else if (b;\x7d c)\x7b for (;;)\x7b f('x\x7d".toList
    ((∀ x ∈ tiles unended, x.isComment = false) ∧ .plain Mask.opening ∉ tiles unended) ∧
      (repair unended).1 = repaired ∧ repair repaired = (repaired, []) := by
  intro repaired
  have hcode : ∀ x ∈ tiles unended, x.isComment = false := by decide +kernel
  have hlegible : .plain Mask.opening ∉ tiles unended := by decide +kernel
  let tail : Text := " f(\uE0000\uE001".toList
  let out : Marked := ofBody "if (a)".toList ++ ('{', .block) :: (ofBody " ".toList ++
    ('}', .branch) :: (' ', .branch) :: (ofBody "else if (b;".toList ++ ('}', .block) ::
      (ofBody " c)".toList ++ ('{', .branch) :: (ofBody " for (;;)".toList ++ ('{', .block) ::
        (ofBody tail ++ [('}', .block)])))))
  have hmask : (Mask.ofText unended).text = "if (a) else if (b; c) for (;;)".toList ++ tail := by
    decide +kernel
  have hcourse : Course [] (ofBody (Mask.ofText unended).text) out
      [.block (ofBody (" else if (b; c) for (;;)".toList ++ tail)),
        .branch (ofBody "else if (b;".toList ++ ('}', .block) :: ofBody " c)".toList),
        .block (ofBody tail)] := by
    rw [hmask]
    refine @Course.block [] (ofBody "if (a)".toList)
      (ofBody (" else if (b; c) for (;;)".toList ++ tail))
      ⟨"if".toList, "a) else if (b; c) for (;;)".toList ++ tail⟩ _ _
      ⟨by decide +kernel, ⟨"a".toList, by decide +kernel⟩, by decide +kernel⟩ (by decide +kernel) ?_
    refine @Course.passes _ (ofBody "else if (b;".toList ++ ('}', .block) ::
      ofBody (" c) for (;;)".toList ++ tail)) _ _ (ofBody " ".toList) (by decide +kernel) ?_
    refine @Course.branch _ (ofBody "else if (b;".toList ++ ('}', .block) :: ofBody " c)".toList)
      (ofBody (" for (;;)".toList ++ tail))
      ⟨"else if".toList, "b;\x7d c) for (;;)".toList ++ tail⟩ _ _
      ⟨by decide +kernel, ⟨"b;\x7d c".toList, by decide +kernel⟩, by decide +kernel⟩
      (by decide +kernel) ?_
    refine @Course.passes _ (ofBody ("for (;;)".toList ++ tail)) _ _ (ofBody " ".toList)
      (by decide +kernel) ?_
    refine @Course.block _ (ofBody "for (;;)".toList) (ofBody tail)
      ⟨"for".toList, ";;)".toList ++ tail⟩ _ _
      ⟨by decide +kernel, ⟨";;".toList, by decide +kernel⟩, by decide +kernel⟩ (by decide +kernel) ?_
    change Course _ (ofBody tail ++ [('}', .block)] ++ []) _ _
    exact Course.passes (by decide +kernel) .done
  have hrepaired : (repair unended).1 = repaired := by
    have htext := hcourse.text_eq (Mask.ofText unended)
    rw [text_nil, text_ofBody] at htext
    have hrestored : (repair unended).1 = (Mask.ofText unended).restore
        (repairFrom (Mask.ofText unended) [] (Mask.ofText unended).text).1 := rfl
    rw [hrestored, htext]
    decide +kernel
  have hagain := repair_repair hcode hlegible
  rw [hrepaired] at hagain
  exact ⟨⟨hcode, hlegible⟩, hrepaired, hagain⟩

end Stencil
