import Stencil.Proofs.Mask.Comments
import Stencil.Proofs.Mask.Glyphs
import Stencil.Proofs.Repair.Steps
/-!
# What a repair puts in

Every glyph of a repaired text is noted with the repair that put it in, if one did. Repair goes on
in a text that it has written to, behind its place as well as before it, so what is behind is kept as
it is and what is still to be read is accounted for by the repairs that come. No repair puts anything
into a placeholder.
-/
namespace Stencil.Repair

open Glyph

/-- The glyphs of a text, each with the repair that put it in. Those of the body have none. -/
abbrev Noted := List (Glyph × Option Nat)

namespace Noted

def glyphs (w : Noted) : List Glyph := w.map Prod.fst

def text (w : Noted) : Text := spell (glyphs w)

/-- The glyphs that one repair put in, or those of the body. -/
def putBy (origin : Option Nat) (w : Noted) : List Glyph := glyphs (w.filter (·.2 == origin))

def note (origin : Option Nat) (t : Text) : Noted := (chars t).map (·, origin)

/-- Only repairs before the given one put something in. -/
def Before (n : Nat) (w : Noted) : Prop := ∀ x ∈ w, ∀ k, x.2 = some k → k < n

variable {v w a b : Noted} {n k : Nat} {origin other : Option Nat}

@[simp] theorem glyphs_nil : glyphs [] = [] := rfl

@[simp] theorem glyphs_cons (x : Glyph × Option Nat) (w : Noted) :
    glyphs (x :: w) = x.1 :: glyphs w := rfl

@[simp] theorem glyphs_append (v w : Noted) : glyphs (v ++ w) = glyphs v ++ glyphs w :=
  List.map_append

@[simp] theorem glyphs_note (origin : Option Nat) (t : Text) : glyphs (note origin t) = chars t := by
  simp [glyphs, note, Function.comp_def]

@[simp] theorem text_append (v w : Noted) : text (v ++ w) = text v ++ text w := by simp [text]

@[simp] theorem text_note (origin : Option Nat) (t : Text) : text (note origin t) = t := by
  simp [text]

@[simp] theorem putBy_append (origin : Option Nat) (v w : Noted) :
    putBy origin (v ++ w) = putBy origin v ++ putBy origin w := by
  simp [putBy]

@[simp] theorem putBy_note_self (origin : Option Nat) (t : Text) :
    putBy origin (note origin t) = chars t := by
  have hall : (note origin t).filter (·.2 == origin) = note origin t := by
    simp [List.filter_eq_self, note]
  rw [putBy, hall, glyphs_note]

theorem putBy_note_ne (h : other ≠ origin) (t : Text) : putBy origin (note other t) = [] := by
  have hnone : (note other t).filter (·.2 == origin) = [] := by simp [note, h]
  rw [putBy, hnone]
  rfl

theorem Before.putBy_eq_nil (h : Before n w) (hk : n ≤ k) : putBy (some k) w = [] := by
  have hnone : w.filter (·.2 == some k) = [] :=
    List.filter_eq_nil_iff.mpr fun x hx hmem => by
      have hlt := h x hx k (by simpa using hmem)
      omega
  rw [putBy, hnone]
  rfl

/-- Where no repair put something in, all is of the body. -/
theorem Before.putBy_none (h : Before 0 w) : putBy none w = glyphs w := by
  have hall : w.filter (·.2 == none) = w := List.filter_eq_self.mpr fun x hx => by
    cases ho : x.2 with
    | none => rfl
    | some k => exact absurd (h x hx k ho) (Nat.not_lt_zero k)
  rw [putBy, hall]

@[simp] theorem before_append : Before n (v ++ w) ↔ Before n v ∧ Before n w :=
  List.forall_mem_append

theorem before_note (h : ∀ k, origin = some k → k < n) (t : Text) : Before n (note origin t) := by
  intro x hx k hk
  obtain ⟨p, -, rfl⟩ := List.mem_map.mp hx
  exact h k hk

theorem Before.mono (h : Before n w) (hk : n ≤ k) : Before k w :=
  fun x hx i hi => Nat.lt_of_lt_of_le (h x hx i hi) hk

/-- At a character that no placeholder has, noted glyphs come apart. -/
theorem cut {c : Char} {s t : Text} (hc : inMark c = false) (h : ReadAs (s ++ c :: t) (glyphs w)) :
    ∃ a x b, w = a ++ (x :: b) ∧ x.1 = .char c ∧ ReadAs s (glyphs a) ∧ ReadAs t (glyphs b) := by
  obtain ⟨pa, pb, hw, ha, hb⟩ := h.cut hc
  obtain ⟨a, rest, rfl, rfl, hrest⟩ := List.map_eq_append_iff.mp hw
  obtain ⟨x, b, rfl, hx, rfl⟩ := List.map_eq_cons_iff.mp hrest
  exact ⟨a, x, b, rfl, hx, ha, hb⟩

/-- What has not more text than a part from the front lies in that part. -/
theorem prefix_of_text (hv : v <+: w) (ha : a <+: w) (h : text v <+: text a) : v <+: a := by
  rcases List.prefix_or_prefix_of_prefix hv ha with h' | ⟨u, rfl⟩
  · exact h'
  · have hnil : text u = [] := by
      have hlen := h.length_le
      rw [text_append, List.length_append] at hlen
      exact List.eq_nil_of_length_eq_zero (by omega)
    have hu : u = [] := List.map_eq_nil_iff.mp (spell_eq_nil.mp hnil)
    simp [hu]

end Noted

open Noted

/-! ## Where a repair stands -/

/-- The place of a repair in a repaired text: what stands before its head and what closes a block
there, the head, and what comes after the brace that opens its block. -/
structure Site where
  front : Noted
  closing : Text
  head : Noted
  back : Noted

/-- The text around a place, with what the repair put in there. -/
def Site.whole (s : Site) (k : Nat) : Noted :=
  s.front ++ (note (some k) s.closing ++ (s.head ++ (note (some k) ['{'] ++ s.back)))

/-- A head up to the parenthesis that closes its condition. -/
def IsHead (t : Text) : Prop :=
  ∃ keyword b condition, BlockHead.IsKeyword keyword ∧ Text.Blank b ∧
    Text.Balanced '(' ')' condition ∧ t = keyword ++ (b ++ '(' :: (condition ++ [')']))

/-- A repair did at a place what it reports. It put nothing else in but one brace further on, where
it is marked as closed. -/
structure Site.Shows (m : Mask) (r : Repair) (k : Nat) (s : Site) : Prop where
  begins : wordMayBegin s.front.text.getLast? = true
  head : IsHead s.head.text
  reported : fill m s.head.glyphs = r.head
  closing : s.closing = [] ∨ s.closing = ['}', ' '] ∧ "else".toList <+: s.head.text
  frontOwn : putBy (some k) s.front = []
  headOwn : putBy (some k) s.head = []
  backOwn : putBy (some k) s.back = if r.closed then [.char '}'] else []

/-! ## What one repair puts in -/

theorem exists_closeStatement (depth : Int) (t : Text) :
    ∃ s t', t = s ++ t' ∧ closeStatement depth t = s ++ '}' :: t' ∧
      (t' = [] ∨ ∃ s', s = s' ++ [';']) := by
  induction t generalizing depth with
  | nil => exact ⟨[], [], rfl, rfl, .inl rfl⟩
  | cons c cs ih =>
      rw [closeStatement]
      split
      · rename_i hc
        exact ⟨[';'], cs, by rw [hc.1]; rfl, by rw [hc.1]; rfl, .inr ⟨[], rfl⟩⟩
      · obtain ⟨s, t', ht, hclose, hend⟩ := ih (depth + balance [c])
        refine ⟨c :: s, t', by rw [ht]; rfl, by rw [hclose]; rfl, hend.imp_right ?_⟩
        rintro ⟨s', rfl⟩
        exact ⟨c :: s', rfl⟩

/-- A head is still counted where a block is closed among the heads. -/
theorem count_closeIf (wanted : Bool) (before : Option Char) (t : Text) :
    BlockHead.count before (closeIf wanted t) = BlockHead.count before t := by
  unfold closeIf
  split
  · obtain ⟨s, t', rfl, hclose, hend⟩ := exists_closeStatement 0 t
    rw [hclose, BlockHead.count_outside (by decide)]
    obtain rfl | ⟨s, rfl⟩ := hend
    · simp
    · rw [List.append_assoc, List.singleton_append, BlockHead.count_outside (by decide),
        BlockHead.count_outside (by decide),
        BlockHead.count_after_outside (c := '}') (d := ';') (by decide) (by decide)]
      simp
  · rfl

/-- The brace that closes a block stands beside a semicolon or at the end. -/
private theorem exists_closeIf {t : Text} {w : Noted} (origin : Option Nat) (wanted : Bool)
    (h : ReadAs t (glyphs w)) :
    ∃ x y, w = x ++ y ∧ ReadAs (closeIf wanted t)
      (glyphs (x ++ (note origin (if wanted then ['}'] else []) ++ y))) := by
  cases wanted with
  | false => exact ⟨[], w, rfl, by simpa [closeIf, chars] using h⟩
  | true =>
      obtain ⟨s, t', rfl, hclose, hend⟩ := exists_closeStatement 0 t
      rw [closeIf, if_pos rfl, hclose]
      obtain rfl | ⟨s, rfl⟩ := hend
      · refine ⟨w, [], by simp, ?_⟩
        have hs : ReadAs s (glyphs w) := by simpa using h
        simpa [chars] using hs.join (c := '}') (by decide) .nil
      · rw [List.append_assoc, List.singleton_append] at h
        obtain ⟨a, ⟨p, o⟩, b, rfl, rfl, ha, hb⟩ := cut (by decide) h
        refine ⟨a ++ [(.char ';', o)], b, by simp, ?_⟩
        have hword : ∀ c ∈ [';', '}'], inMark c = false := by decide
        have hput := ha.insert hword (by simp) hb
        simpa [chars] using hput

theorem Written.exists_first {keyword written : Text} (h : Written keyword written) :
    ∃ c w, written = c :: (w ++ [')']) ∧ inMark c = false := by
  obtain ⟨hkey, b, condition, -, rfl⟩ := h
  cases hkey with
  | plain hw =>
      simp only [List.mem_cons, List.not_mem_nil, or_false] at hw
      rcases hw with rfl | rfl | rfl
      · exact ⟨'i', ['f'] ++ (b ++ '(' :: condition), by simp, by decide⟩
      · exact ⟨'f', ['o', 'r'] ++ (b ++ '(' :: condition), by simp, by decide⟩
      · exact ⟨'w', ['h', 'i', 'l', 'e'] ++ (b ++ '(' :: condition), by simp, by decide⟩
  | @branch b' hb' =>
      exact ⟨'e', ['l', 's', 'e'] ++ (b' ++ ("if".toList ++ (b ++ '(' :: condition))), by simp,
        by decide⟩

theorem lead_eq (head : BlockHead) (before : Text) :
    lead head before = [] ∨ lead head before = ['}', ' '] ∧ head.isElse = true := by
  unfold lead
  split
  · rename_i h
    exact .inr ⟨rfl, (Bool.and_eq_true_iff.mp h).1⟩
  · exact .inl rfl

/-- A head and the text after it are glyphs of their own, and with the braces put in around the head
the text is read as the same glyphs. -/
private theorem exists_put {before written after : Text} {head : BlockHead} {w : Noted}
    (hw : Written head.keyword written) (wanted : Bool) (origin : Option Nat)
    (h : ReadAs (before.reverse ++ (written ++ after)) (glyphs w)) :
    ∃ a b x y, w = a ++ (b ++ (x ++ y)) ∧ a.text = before.reverse ∧ ReadAs written (glyphs b) ∧
      ReadAs ((opened head before written).reverse ++ closeIf wanted after)
        (glyphs (a ++ (note origin (lead head before) ++ (b ++ (note origin ['{'] ++
          (x ++ (note origin (if wanted then ['}'] else []) ++ y))))))) := by
  obtain ⟨c, t, rfl, hc⟩ := hw.exists_first
  -- the glyphs of the text before the head, of the head up to its last parenthesis, of the rest
  have hsplit : before.reverse ++ (c :: (t ++ [')']) ++ after) =
      before.reverse ++ c :: (t ++ ')' :: after) := by simp
  rw [hsplit] at h
  obtain ⟨a, ⟨p, o⟩, rest, rfl, rfl, ha, hrest⟩ := cut hc h
  obtain ⟨b, ⟨p', o'⟩, d, rfl, rfl, hb, hd⟩ := cut (by decide) hrest
  obtain ⟨x, y, rfl, hclosed⟩ := exists_closeIf origin wanted hd
  have hhead : ReadAs (c :: t ++ [')']) (.char c :: glyphs b ++ [.char ')']) :=
    ReadAs.join (by decide) (ReadAs.join hc .nil hb) .nil
  refine ⟨a, (.char c, o) :: b ++ [(.char ')', o')], x, y, by simp, ha.spell_eq,
    by simpa using hhead, ?_⟩
  -- the braces go beside the first and the last character of the head
  have hword : ∀ c ∈ [')', '{'], inMark c = false := by decide
  have hafter := hb.insert hword (by simp) hclosed
  have hlead : ∀ d ∈ lead head before ++ [c], inMark d = false := by
    obtain hl | ⟨hl, -⟩ := lead_eq head before <;> rw [hl]
    · simpa using hc
    · simpa using ⟨by decide, by decide, hc⟩
  have hall := ha.insert hlead (by simp) hafter
  simpa [opened, chars] using hall

theorem isHead_written {before written after condition : Text} {head : BlockHead}
    (h : BlockHead.read? before.head? (written ++ after) = some head)
    (hs : Text.splitGroup? '(' ')' 0 head.afterOpen = some (condition, after)) :
    IsHead written ∧ (head.isElse = true → "else".toList <+: written) := by
  obtain ⟨keyword, afterOpen⟩ := head
  obtain ⟨-, hkey, b, hb, ht⟩ := BlockHead.read?_eq_some.mp h
  obtain ⟨rfl, hcondition⟩ := (Text.splitGroup?_eq_some (by decide)).mp hs
  obtain rfl : written = keyword ++ (b ++ '(' :: (condition ++ [')'])) :=
    List.append_cancel_right (by simpa using ht)
  refine ⟨⟨keyword, b, condition, hkey, hb, hcondition, rfl⟩, fun helse => ?_⟩
  exact (List.isPrefixOf_iff_prefix.mp helse).trans (List.prefix_append _ _)

/-! ## What all repairs put in -/

/-- A repair from one place on is accounted for. What lies behind the place is kept, and what is
still to be read comes out with the glyphs that were there and with what the repairs that come put
in. -/
structure Accounted (m : Mask) (n : Nat) (result : Text × List Repair)
    (behind ahead ahead' : Noted) : Prop where
  reads : ReadAs result.1 (glyphs (behind ++ ahead'))
  body : putBy none ahead' = putBy none ahead
  earlier : ∀ k < n, putBy (some k) ahead' = putBy (some k) ahead
  before : Before (n + result.2.length) ahead'
  shows : ∀ i r, result.2[i]? = some r →
    ∃ s : Site, s.Shows m r (n + i) ∧ s.whole (n + i) = behind ++ ahead'

/-- Where nothing is put in any more, everything is as it was. -/
private theorem Accounted.done {m : Mask} {n : Nat} {t : Text} {behind ahead : Noted}
    (hreads : ReadAs t (glyphs (behind ++ ahead))) (hbefore : Before n (behind ++ ahead)) :
    Accounted m n (t, []) behind ahead ahead :=
  ⟨hreads, rfl, fun _ _ => rfl, (before_append.mp hbefore).2, by simp⟩

/-- One repair and those that come after it. -/
private theorem Accounted.put {m : Mask} {n : Nat} {r : Repair} {result : Text × List Repair}
    {behind u b x y ahead' : Noted} {closing : Text}
    (h : Accounted m (n + 1) result
      (behind ++ u ++ note (some n) closing ++ b ++ note (some n) ['{'])
      (x ++ (note (some n) (if r.closed then ['}'] else []) ++ y)) ahead')
    (hbefore : Before n (behind ++ (u ++ (b ++ (x ++ y)))))
    (hbegins : wordMayBegin (Noted.text (behind ++ u)).getLast? = true) (hhead : IsHead b.text)
    (hreported : fill m b.glyphs = r.head)
    (hclosing : closing = [] ∨ closing = ['}', ' '] ∧ "else".toList <+: b.text) :
    Accounted m n (result.1, r :: result.2) behind (u ++ (b ++ (x ++ y)))
      (u ++ (note (some n) closing ++ (b ++ (note (some n) ['{'] ++ ahead')))) := by
  have hlen : n + 1 + result.2.length = n + (result.2.length + 1) := by omega
  have hown {t : Text} : Before (n + (result.2.length + 1)) (note (some n) t) :=
    before_note (fun k hk => by rw [Option.some.injEq] at hk; omega) t
  simp only [before_append] at hbefore
  obtain ⟨hbehind, hu, hb, hx, hy⟩ := hbefore
  refine ⟨by simpa using h.reads, ?_, ?_, ?_, ?_⟩
  · simp [putBy_note_ne, h.body]
  · intro k hk
    have hne : n ≠ k := by omega
    simp [putBy_note_ne, hne, h.earlier k (by omega)]
  · have hrest := h.before
    rw [hlen] at hrest
    have hle : n ≤ n + (result.2.length + 1) := Nat.le_add_right n _
    simp [hu.mono hle, hb.mono hle, hown, hrest]
  · intro i r' hr
    cases i with
    | zero =>
        obtain rfl : r = r' := by simpa using hr
        refine ⟨⟨behind ++ u, closing, b, ahead'⟩, ⟨hbegins, hhead, hreported, hclosing,
          (before_append.mpr ⟨hbehind, hu⟩).putBy_eq_nil (Nat.le_refl n),
          hb.putBy_eq_nil (Nat.le_refl n), ?_⟩, by simp [Site.whole]⟩
        rw [Nat.add_zero, h.earlier n (Nat.lt_succ_self n), putBy_append, putBy_append,
          hx.putBy_eq_nil (Nat.le_refl n), hy.putBy_eq_nil (Nat.le_refl n), putBy_note_self]
        cases r.closed <;> rfl
    | succ i =>
        obtain ⟨s, hs, hwhole⟩ := h.shows i r' (by simpa using hr)
        rw [show n + 1 + i = n + (i + 1) by omega] at hs hwhole
        exact ⟨s, hs, by rw [hwhole]; simp⟩

theorem exists_accounted (m : Mask) (before t : Text) :
    ∀ n behind ahead, ReadAs (before.reverse ++ t) (glyphs (behind ++ ahead)) →
      behind.text <+: before.reverse → Before n (behind ++ ahead) →
      ∃ ahead', Accounted m n (repairFrom m before t) behind ahead ahead' := by
  refine repairFrom_induct (motive := fun before t =>
    ∀ n behind ahead, ReadAs (before.reverse ++ t) (glyphs (behind ++ ahead)) →
      behind.text <+: before.reverse → Before n (behind ++ ahead) →
      ∃ ahead', Accounted m n (repairFrom m before t) behind ahead ahead') ?_ ?_ ?_ ?_ ?_ before t
  · intro before n behind ahead hreads _ hbefore
    rw [repairFrom]
    exact ⟨ahead, .done (by simpa using hreads) hbefore⟩
  · intro before c cs hread ih n behind ahead hreads hbehind hbefore
    rw [repairFrom_pass hread]
    exact ih n behind ahead (by simpa using hreads) (hbehind.trans (by simp)) hbefore
  · intro before t head hread hgroup n behind ahead hreads _ hbefore
    rw [repairFrom_stop hread hgroup]
    exact ⟨ahead, .done hreads hbefore⟩
  · intro before written after head condition _ hread hgroup hopens ih n behind ahead hreads hbehind
      hbefore
    rw [repairFrom_head hread hgroup, if_pos hopens]
    exact ih n behind ahead (by simpa using hreads) (hbehind.trans (by simp)) hbefore
  · intro before written after head condition hw hread hgroup hopens ih n behind ahead hreads
      hbehind hbefore
    rw [repairFrom_head hread hgroup, if_neg (by simp [hopens])]
    generalize staysOpen (opened head before written) after = closed at ih ⊢
    obtain ⟨a, b, x, y, hsplit, ha, hb, hput⟩ := exists_put hw closed (some n) hreads
    -- what lies behind the place lies before the head
    obtain ⟨u, rfl⟩ : behind <+: a :=
      prefix_of_text (w := behind ++ ahead) (by simp) (by simp [hsplit]) (by rw [ha]; exact hbehind)
    obtain rfl : ahead = u ++ (b ++ (x ++ y)) := by simpa using hsplit
    have hbtext : Noted.text b = written := hb.spell_eq
    have hpassed : Noted.text (behind ++ u ++ note (some n) (lead head before) ++ b ++
        note (some n) ['{']) = (opened head before written).reverse := by
      rw [text_append, text_append, text_append, ha, hbtext, text_note, text_note, opened]
      simp
    have hown {t : Text} : Before (n + 1) (note (some n) t) :=
      before_note (fun k hk => by rw [Option.some.injEq] at hk; omega) t
    have hbefore' := hbefore.mono (Nat.le_add_right n 1)
    simp only [before_append] at hbefore'
    obtain ⟨ahead', hacc⟩ := ih (n + 1)
      (behind ++ u ++ note (some n) (lead head before) ++ b ++ note (some n) ['{'])
      (x ++ (note (some n) (if closed then ['}'] else []) ++ y)) (by simpa using hput)
      (hpassed ▸ List.prefix_rfl) (by simp [hbefore', hown])
    obtain ⟨hhead, helse⟩ := isHead_written hread hgroup
    obtain ⟨hbegins, -⟩ := BlockHead.read?_eq_some.mp hread
    refine ⟨_, hacc.put (r := ⟨m.restore written, closed⟩) hbefore ?_ (hbtext ▸ hhead)
      (hb.restore_eq m).symm (hbtext ▸ (lead_eq head before).imp_right (And.imp_right helse))⟩
    rw [ha, List.getLast?_reverse]
    exact hbegins

/-- Every repair is put in after a head of its own. -/
theorem length_repairFrom_le (m : Mask) (before t : Text) :
    (repairFrom m before t).2.length ≤ BlockHead.count before.head? t := by
  refine repairFrom_induct (motive := fun before t =>
    (repairFrom m before t).2.length ≤ BlockHead.count before.head? t) ?_ ?_ ?_ ?_ ?_ before t
  · intro before
    rw [repairFrom]
    exact Nat.zero_le _
  · intro before c cs hread ih
    rw [repairFrom_pass hread, BlockHead.count_pass hread]
    exact ih
  · intro before t head hread hgroup
    rw [repairFrom_stop hread hgroup]
    exact Nat.zero_le _
  · intro before written after head condition hw hread hgroup hopens ih
    obtain ⟨c, t, rfl, -⟩ := hw.exists_first
    obtain ⟨hinside, -⟩ := (Text.splitGroup?_eq_some (by decide)).mp hgroup
    have hlast : ((c :: (t ++ [')'])).reverse ++ before).head? = some ')' := by simp
    rw [hlast] at ih
    rw [repairFrom_head hread hgroup, if_pos hopens, BlockHead.count_head hread, hinside,
      BlockHead.count_outside (by decide)]
    omega
  · intro before written after head condition hw hread hgroup hopens ih
    obtain ⟨hinside, -⟩ := (Text.splitGroup?_eq_some (by decide)).mp hgroup
    rw [repairFrom_head hread hgroup, if_neg (by simp [hopens]), BlockHead.count_head hread, hinside,
      BlockHead.count_outside (by decide),
      BlockHead.count_after_outside (c := ')') (d := '{') (by decide) (by decide)]
    have hlast : (opened head before written).head? = some '{' := rfl
    rw [count_closeIf, hlast] at ih
    rw [List.length_cons]
    omega

/-- Repair puts in braces and nothing else, at most once for each head of the masked text. Leaving
out what the repairs put in gives the masked text with its placeholders, and filling those in gives
the body without its comments. -/
theorem repair_only_puts_in_braces (body : Text) :
    let m := Mask.ofText body
    let repairs := (repair body).2
    repairs.length ≤ BlockHead.count none m.text ∧
      (∃ w : Noted, (repair body).1 = fill m w.glyphs ∧ ReadAs m.text (putBy none w) ∧
        m.restore m.text = fill m (putBy none w) ∧
        (∀ x ∈ w, ∀ k, x.2 = some k → k < repairs.length) ∧
        ∀ k r, repairs[k]? = some r → ∃ s : Site, s.Shows m r k ∧ s.whole k = w) ∧
      (repairs = [] → (repair body).1 = m.restore m.text) ∧
      (Tile.plain Mask.opening ∉ tiles body → m.restore m.text = Tile.uncommented body) := by
  intro m repairs
  obtain ⟨ps, hps⟩ := exists_readAs m.text
  have hnoted : glyphs (ps.map (·, none)) = ps := by simp [glyphs, Function.comp_def]
  have hzero : Before 0 (ps.map (·, none)) := by simp [Before]
  have hbody : putBy none (ps.map (·, none)) = ps := by rw [hzero.putBy_none, hnoted]
  obtain ⟨w, hw⟩ := exists_accounted m [] m.text 0 [] (ps.map (·, none))
    (by rw [List.nil_append, hnoted]; exact hps) (by simp [Noted.text, spell])
    hzero
  have hrestored : (repair body).1 = m.restore (repairFrom m [] m.text).1 := rfl
  have hread : ReadAs m.text (putBy none w) := by rw [hw.body, hbody]; exact hps
  refine ⟨length_repairFrom_le m [] m.text, ⟨w, ?_, hread, hread.restore_eq m, ?_, ?_⟩, ?_,
    Mask.restore_text⟩
  · exact hw.reads.restore_eq m
  · have hbefore := hw.before
    rw [Nat.zero_add] at hbefore
    exact hbefore
  · intro k r hr
    obtain ⟨s, hs, hwhole⟩ := hw.shows k r hr
    rw [Nat.zero_add] at hs hwhole
    exact ⟨s, hs, hwhole⟩
  · intro hnone
    have hbefore := hw.before
    rw [show (repairFrom m [] m.text).2 = [] from hnone] at hbefore
    have hsame := hbefore.putBy_none
    rw [hread.restore_eq m, hsame]
    exact hw.reads.restore_eq m

end Stencil.Repair
