import Stencil.Proofs.Mask.Passes
import Stencil.Proofs.Normalize.Heads
import Stencil.Proofs.Normalize.Strays
import Mathlib.Logic.Relation
/-!
# Normalizing twice

Each rule goes over the text once, so a text that a rule writes, or that a later rule leaves, may be
one that it would rewrite. This happens where a condition holds a head of its own, where a call that
emits nothing is dropped, and where a comment or an open string hid what stands after it. Elsewhere a
normal form is its own normal form.
-/
namespace Stencil.Normalize

open Text

/-! ## What a rule leaves as it is -/

/-- A rule that reads only what stands nowhere changes nothing. -/
theorem replaceAll_of_nowhere {rule : Rule} {reads : Text → Bool} {t : Text}
    (hrule : rule.Advances) (h : ∀ {before v new rest}, rule before v = some (new, rest) →
      v = new ++ rest ∨ wordMayBegin before = true ∧ reads v = true)
    (ht : nowhere reads none t = true) : t.replaceAll rule = t := by
  refine replaceFrom_self hrule fun u v new rest hsplit hr => ?_
  rcases h hr with hsame | ⟨hbegin, hread⟩
  · exact hsame
  · obtain ⟨old, hold, hv⟩ := hrule hr
    obtain ⟨c, cs, rfl⟩ := List.exists_cons_of_ne_nil hold
    rw [hv, List.cons_append] at hread hsplit
    rw [nowhere_iff.mp ht u c (cs ++ rest) hsplit hbegin] at hread
    simp at hread

theorem replaceAll_colonHead {t : Text} (h : nowhere isColonHead none t = true) :
    t.replaceAll colonHead = t := by
  refine replaceAll_of_nowhere edits_colonHead.advances (fun {before v new rest} hr => ?_) h
  obtain ⟨hbegin, keyword, b, hkey, hb, ⟨-, ht, -⟩ | ⟨condition, b', hbal, hb', ht, -⟩⟩ :=
    colonHead_eq_some hr
  · exact Or.inl ht
  · refine Or.inr ⟨hbegin, ?_⟩
    rw [isColonHead, ht, colonCondition?_append hkey hb hbal hb']
    rfl

theorem replaceAll_colonElse {t : Text} (h : nowhere isColonElse none t = true) :
    t.replaceAll colonElse = t := by
  refine replaceAll_of_nowhere edits_colonElse.advances (fun {before v new rest} hr => Or.inr ?_) h
  obtain ⟨hbegin, ⟨b, hb, hv⟩, -⟩ := colonElse_eq_some.mp hr
  exact ⟨hbegin, isColonElse_iff.mpr ⟨b, rest, hb, hv⟩⟩

theorem replaceAll_blockEnd {t : Text} (h : nowhere isBlockEnd none t = true) :
    t.replaceAll blockEnd = t := by
  refine replaceAll_of_nowhere edits_blockEnd.advances (fun {before v new rest} hr => Or.inr ?_) h
  have hbegin := (blockEnd_eq_some hr).1
  rw [blockEnd, if_pos hbegin] at hr
  exact ⟨hbegin, by rw [isBlockEnd, blockEnd, if_pos (show wordMayBegin none = true from rfl), hr]; rfl⟩

private theorem hasStray_of_open {last : Last} (hopen : last.isOpen = true) {v : Text}
    (h : isBareElse (trimStart v) = true) : hasStray last v = true := by
  obtain ⟨b, hb, hv⟩ := exists_blank_trimStart v
  rw [hv]
  refine hasStray_append ?_
  rw [Last.run_blank hb]
  cases hnext : trimStart v with
  | nil =>
      rw [hnext] at h
      simp [isBareElse, after?] at h
  | cons c cs =>
      rw [hnext] at h
      rw [hasStray, hopen, h]
      rfl

/-- In tidy code a semicolon before an `else` ends other code. -/
private theorem isOpen_of_tidy {u v : Text} (ht : Tidy (u ++ ';' :: v))
    (h : isBareElse (trimStart v) = true) : (Last.nothing.run (u ++ [';'])).isOpen = true := by
  rcases List.eq_nil_or_concat u with rfl | ⟨u, c, rfl⟩
  · rfl
  · rw [List.concat_eq_append] at ht ⊢
    have hsplit : u ++ [c] ++ ';' :: v = u ++ c :: ';' :: v := by simp
    rw [hsplit] at ht
    have hapart := (List.isChain_append_cons_cons.mp ht.apart).2.1
    have hblank : isBlank c ≠ true := fun hc => hapart.space (Or.inl ⟨hc, rfl⟩)
    have hsemi : c ≠ ';' := fun hc => hapart.semicolon ⟨hc, rfl⟩
    have hbrace : ¬ (c = '{' ∨ c = '}') := by
      intro hc
      obtain ⟨w, rfl⟩ := List.head?_eq_some_iff.mp (ht.sparse u c v rfl hc)
      rw [trimStart_of_flush (flush_cons.mpr (by decide)), isBareElse_of_ne (by decide)] at h
      simp at h
    have hcode : (Last.nothing.run u).step c = .code := by
      rw [Last.step, if_neg hblank, if_neg hsemi, if_neg (by simpa using hbrace)]
    rw [Last.run_append, Last.run_append]
    change (((Last.nothing.run u).step c).step ';').isOpen = true
    rw [hcode]
    rfl

/-- In tidy code without a stray `else`, none is rewritten. -/
theorem replaceAll_statementElse_of_tidy {t : Text} (ht : Tidy t)
    (h : hasStray .nothing t = false) : t.replaceAll statementElse = t := by
  refine replaceFrom_self edits_statementElse.advances fun u v new rest hsplit hr => ?_
  exfalso
  obtain ⟨old, hold, hv⟩ := edits_statementElse.advances hr
  obtain ⟨c, cs, rfl⟩ := List.exists_cons_of_ne_nil hold
  subst hv
  have hnone : statementElse (lastOr none u) (c :: (cs ++ rest)) = none := by
    refine statementElse_eq_none.mpr ⟨fun hstart => ?_, fun hc => ?_⟩
    · cases u with
      | nil =>
          rw [List.nil_append, List.cons_append] at hsplit
          rw [← hsplit, bareElse?_eq_none, Bool.eq_false_iff]
          intro hread
          rw [hasStray_of_open rfl hread] at h
          simp at h
      | cons d u =>
          obtain ⟨e, -, hlast⟩ := exists_mem_lastOr none d u
          rw [hlast] at hstart
          simp at hstart
    · subst hc
      rw [bareElse?_eq_none, Bool.eq_false_iff]
      intro hread
      rw [hsplit, List.cons_append] at ht h
      have hopen := isOpen_of_tidy ht hread
      have hstray := hasStray_append (s := u ++ [';']) (hasStray_of_open hopen hread)
      rw [List.append_assoc, List.singleton_append, h] at hstray
      simp at hstray
  rw [List.cons_append, hnone] at hr
  simp at hr

/-! ## What the passes leave -/

/-- Some passes that write punctuation, one after the other. -/
def Reformed : Text → Text → Prop := Relation.ReflTransGen (Reform none)

theorem Reformed.replaceAll {rule : Rule} (hrule : Reforms rule) {t t' : Text}
    (h : Reformed t t') : Reformed t (t'.replaceAll rule) :=
  Relation.ReflTransGen.tail h (Reforms.replaceFrom hrule none t')

theorem Reformed.nowhere {reads : Text → Bool} (hw : Worded reads) (hr : Reflects reads)
    {t t' : Text} (h : Reformed t t') (ht : nowhere reads none t = true) :
    nowhere reads none t' = true := by
  induction h with
  | refl => exact ht
  | tail _ hstep ih => exact hstep.nowhere hw hr Or.inl ih

theorem Reformed.hasStray {t t' : Text} (h : Reformed t t')
    (ht : hasStray .nothing t = false) : hasStray .nothing t' = false := by
  induction h with
  | refl => exact ht
  | tail _ hstep ih =>
      rw [Bool.eq_false_iff] at ih ⊢
      exact fun h => ih (hstep.hasStray (Or.inl rfl) h)

/-- What the collapsing passes make of code without empty calls, up to white space at its ends. -/
private theorem exists_reformed_collapse {m : Mask} {t : Text} (h : CallFree m t) :
    ∃ b s, Blank b ∧ Reformed t (b ++ s) ∧ collapse m t = trimEnd s := by
  have hrefl : Reformed t t := .refl
  have hpasses := (((hrefl.replaceAll swaps_semicolonSpace.reforms).replaceAll
    swaps_repeatedSemicolon.reforms).replaceAll swaps_braceSpace.reforms).replaceAll
      reforms_braceSemicolon
  obtain ⟨b, hb, hsplit⟩ := exists_blank_trimStart ((((t.replaceAll semicolonSpace).replaceAll
    repeatedSemicolon).replaceAll braceSpace).replaceAll braceSemicolon)
  exact ⟨b, _, hb, hsplit ▸ hpasses, collapse_of_callFree h⟩

theorem nowhere_collapse {reads : Text → Bool} (hw : Worded reads) (hr : Reflects reads) {m : Mask}
    {t : Text} (h : CallFree m t) (ht : nowhere reads none t = true) :
    nowhere reads none (collapse m t) = true := by
  obtain ⟨b, s, hb, hreformed, hcollapse⟩ := exists_reformed_collapse h
  rw [hcollapse]
  exact (reform_trimEnd (lastOr none b) s).nowhere hw hr
    (fun _ => Or.inl (mayBegin_blank hb rfl)) (nowhere_append_right (hreformed.nowhere hw hr ht))

theorem hasStray_collapse {m : Mask} {t : Text} (h : CallFree m t)
    (ht : hasStray .nothing t = false) : hasStray .nothing (collapse m t) = false := by
  obtain ⟨b, s, hb, hreformed, hcollapse⟩ := exists_reformed_collapse h
  rw [hcollapse, Bool.eq_false_iff]
  intro hstray
  have hs := (reform_trimEnd none s).hasStray (Or.inl rfl) hstray
  have hwhole := hasStray_append (s := b) (by rwa [Last.run_blank hb])
  rw [hreformed.hasStray ht] at hwhole
  simp at hwhole

/-- The rules for blocks leave nothing that they would read. -/
private theorem toBraces_leaves {t : Text} (hflat : Flat t) :
    nowhere isColonHead none (toBraces t) = true ∧ nowhere isColonElse none (toBraces t) = true ∧
      hasStray .nothing (toBraces t) = false ∧ nowhere isBlockEnd none (toBraces t) = true := by
  have hcolon := Swaps.nowhere swaps_colonElse worded_isColonElse reflects_isColonElse
    (fun hbegin hread => by
      obtain ⟨b, rest, hb, ht⟩ := isColonElse_iff.mp hread
      rw [colonElse_eq_some.mpr ⟨hbegin, ⟨b, hb, ht⟩, rfl⟩]
      simp) (t.replaceAll colonHead)
  have hstray := hasStray_statementElse ((t.replaceAll colonHead).replaceAll colonElse)
  have hend := Swaps.nowhere swaps_blockEnd worded_isBlockEnd reflects_isBlockEnd
    (fun hbegin hread => by
      obtain ⟨word, hw, space, v, rfl, hv⟩ := isBlockEnd_iff.mp hread
      exact blockEnd_ne_none hbegin hw hv)
    (((t.replaceAll colonHead).replaceAll colonElse).replaceAll statementElse)
  have hlast {s s' : Text} (h : Reformed s s') := h.replaceAll swaps_blockEnd.reforms
  have helse {s s' : Text} (h : Reformed s s') := hlast (h.replaceAll reforms_statementElse)
  have hall {s s' : Text} (h : Reformed s s') := helse (h.replaceAll swaps_colonElse.reforms)
  exact ⟨(hall .refl).nowhere worded_isColonHead reflects_isColonHead (nowhere_isColonHead hflat),
    (helse .refl).nowhere worded_isColonElse reflects_isColonElse hcolon,
    (hlast .refl).hasStray hstray, hend⟩

/-- The rules for blocks have nothing to rewrite in what they and the collapsing passes leave. -/
theorem toBraces_collapse {m : Mask} {t : Text} (hfree : CallFree m (toBraces t)) (hflat : Flat t) :
    toBraces (collapse m (toBraces t)) = collapse m (toBraces t) := by
  obtain ⟨hheads, hcolon, hstray, hend⟩ := toBraces_leaves hflat
  have hheads' := nowhere_collapse worded_isColonHead reflects_isColonHead hfree hheads
  have hcolon' := nowhere_collapse worded_isColonElse reflects_isColonElse hfree hcolon
  have hend' := nowhere_collapse worded_isBlockEnd reflects_isBlockEnd hfree hend
  have hstray' := hasStray_collapse hfree hstray
  generalize hn : collapse m (toBraces t) = n at *
  have htidy : Tidy n := hn ▸ tidy_collapse hfree
  rw [toBraces, replaceAll_colonHead hheads', replaceAll_colonElse hcolon',
    replaceAll_statementElse_of_tidy htidy hstray', replaceAll_blockEnd hend']

end Stencil.Normalize

namespace Stencil

open Normalize Symbol

/-- A normal form is its own normal form: where no comment is written with a long bracket, every
literal is closed, no call on an empty string is dropped and no condition of a head with a colon
holds another. -/
theorem normalize_idempotent {body : Text} (hplain : Plain (tiles body))
    (hclosed : ∀ l ∈ (Mask.ofText body).literals, (Tile.literal l).isClosed = true)
    (hfree : NoEmptyCall body) (hflat : Flat (Mask.ofText body).text) :
    normalize (normalize body) = normalize body := by
  have hproper := proper_number hplain fun l hl =>
    fit_of_closed hl (hclosed l (mem_literalsOf.mpr hl))
  have hmask : Mask.ofText body = ⟨spell (number 0 (tiles body)), Mask.literalsOf (tiles body)⟩ := by
    rw [Mask.ofText, ← spell_number]
  rw [NoEmptyCall, hmask] at hfree
  rw [hmask] at hflat
  obtain ⟨s, hs, hnormal⟩ := exists_proper_collapse hproper hfree
  have hbraces := (edited_toBraces _).callFree hfree
  have hfill : normalize body = fill (Mask.literalsOf (tiles body)) s := by
    rw [normalize, hmask]
    dsimp only
    rw [← hs, restore_spell _ hnormal.legible]
  have htidy := tidy_collapse hbraces
  have hfree' : CallFree ⟨spell s, Mask.literalsOf (tiles body)⟩ (collapse _ _) :=
    (callFree_collapse hbraces).of_literals rfl
  rw [← hs] at htidy hfree'
  rw [hfill, normalize, hnormal.ofText_fill]
  dsimp only
  rw [hs, toBraces_collapse hbraces hflat, ← hs, collapse_of_tidy hfree' htidy,
    restore_spell _ hnormal.legible]

/-- A block with colons, a comment, a string that looks like a head and needless semicolons. -/
private def commentedBlock : Text :=
  "if (a): ;; x = \"b\" -- c\n ; else: y = (\"if (c): d\") ; endif; z".toList

theorem normalize_idempotent_commentedBlock :
    normalize commentedBlock = "if (a)\x7bx = \"b\";\x7delse\x7by = (\"if (c): d\");\x7dz".toList ∧
      normalize (normalize commentedBlock) = normalize commentedBlock := by
  have hclosed : ∀ l ∈ (Mask.ofText commentedBlock).literals, (Tile.literal l).isClosed = true := by
    decide +kernel
  have hflat : Flat (Mask.ofText commentedBlock).text := by decide +kernel
  exact ⟨by decide +kernel,
    normalize_idempotent (by decide +kernel) hclosed (by decide +kernel) hflat⟩

/-- A dropped call may leave an `else` as a statement of its own. -/
theorem normalize_not_idempotent :
    ¬ ∀ body, normalize (normalize body) = normalize body := by
  intro h
  have hbody := h "else print(\"\")".toList
  revert hbody
  decide +kernel

-- The other conditions are needed as well: a condition with a head, a comment between two slashes
-- and an open string.
example : normalize (normalize "while (if (a): b): c".toList) ≠
    normalize "while (if (a): b): c".toList := by decide +kernel

example : normalize (normalize "/--[[x]]/ y".toList) ≠ normalize "/--[[x]]/ y".toList := by
  decide +kernel

example : normalize (normalize "\"a\n;\"b  ;".toList) ≠ normalize "\"a\n;\"b  ;".toList := by
  decide +kernel

end Stencil
