import Stencil.Proofs.Repair.Course
/-!
# Partners of braces

In a repaired text every brace has a partner of its own origin: a brace of the body one of the body, a
brace of a block that was put in one of that block. The braces of an `else if` that closes the block
before it stand the other way round, so that the block around goes on after them.
-/
namespace Stencil.Repair

namespace Marked

/-- The brace after which something stands open. A branch leaves something open between the brace
that closes the block before it and the brace that opens the next one. -/
def opener : Origin → Char
  | .branch => '}'
  | _ => '{'

def closer : Origin → Char
  | .branch => '{'
  | _ => '}'

/-- What stands open after one more character, the innermost first. Nothing is closed that does not
stand open innermost, and no branch begins before another one has opened its block. -/
def step? (standing : List Origin) (x : Char × Origin) : Option (List Origin) :=
  if x.1 = opener x.2 then
    if x.2 = .branch ∧ standing.head? = some .branch then none else some (x.2 :: standing)
  else if x.1 = closer x.2 then
    match standing with
    | inner :: outer => if inner = x.2 then some outer else none
    | [] => none
  else some standing

/-- What stands open after a text. -/
def open? (standing : List Origin) (w : Marked) : Option (List Origin) := w.foldlM step? standing

/-- Every brace has a partner of its own origin. -/
def Nested (w : Marked) : Prop := open? [] w = some []

instance (w : Marked) : Decidable (Nested w) := inferInstanceAs (Decidable (open? [] w = some []))

/-- What a character does to what stands open. -/
inductive Step : List Origin → Char × Origin → List Origin → Prop
  | opens {standing o} : (o = .branch → standing.head? ≠ some .branch) →
      Step standing (opener o, o) (o :: standing)
  | closes {standing o} : Step (o :: standing) (closer o, o) standing
  | passes {standing c o} : c ≠ '{' → c ≠ '}' → Step standing (c, o) standing

variable {o : Origin} {standing left : List Origin} {u w : Marked} {x : Char × Origin}

theorem step?_eq_some : step? standing x = some left ↔ Step standing x left := by
  have hne (o : Origin) : closer o ≠ opener o := by cases o <;> decide
  have hbrace {c : Char} {o : Origin} : c ≠ opener o ∧ c ≠ closer o ↔ c ≠ '{' ∧ c ≠ '}' := by
    cases o <;> simp [opener, closer, and_comm]
  obtain ⟨c, o⟩ := x
  constructor
  · intro h
    simp only [step?] at h
    split at h
    · rename_i hc
      split at h
      · simp at h
      · rename_i hfree
        obtain rfl := Option.some.inj h
        exact hc ▸ .opens fun ho hs => hfree ⟨ho, hs⟩
    · rename_i hopener
      split at h
      · rename_i hc
        cases standing with
        | nil => simp at h
        | cons inner outer =>
            dsimp only at h
            split at h
            · rename_i ho
              obtain rfl := Option.some.inj h
              exact hc ▸ ho ▸ .closes
            · simp at h
      · rename_i hcloser
        obtain rfl := Option.some.inj h
        exact .passes (hbrace.mp ⟨hopener, hcloser⟩).1 (hbrace.mp ⟨hopener, hcloser⟩).2
  · intro h
    cases h with
    | opens hfree =>
        have : ¬ (o = .branch ∧ standing.head? = some .branch) := fun hb => hfree hb.1 hb.2
        simp only [step?, if_neg this]
        simp
    | closes => simp [step?, hne]
    | passes h1 h2 =>
        obtain ⟨h1, h2⟩ := (hbrace (o := o)).mpr ⟨h1, h2⟩
        simp [step?, h1, h2]

theorem open?_cons : open? standing (x :: w) = some left ↔
    ∃ s, Step standing x s ∧ open? s w = some left := by
  simp only [open?, List.foldlM_cons, Option.bind_eq_bind, Option.bind_eq_some_iff, step?_eq_some]

theorem open?_append : open? standing (u ++ w) = some left ↔
    ∃ s, open? standing u = some s ∧ open? s w = some left := by
  simp only [open?, List.foldlM_append, Option.bind_eq_bind, Option.bind_eq_some_iff]

theorem Step.unique {s s' : List Origin} (h : Step standing x s) (h' : Step standing x s') :
    s = s' :=
  Option.some.inj ((step?_eq_some.mpr h).symm.trans (step?_eq_some.mpr h'))

/-- A brace of the body or of a block opens wherever it stands. -/
theorem Step.brace (ho : o ≠ .branch) : Step standing ('{', o) (o :: standing) := by
  have hc : '{' = opener o := by cases o <;> first | rfl | exact absurd rfl ho
  exact hc ▸ .opens fun h => absurd h ho

/-- And closes what stands open innermost, which has its origin. -/
theorem Step.eq_cons (h : Step standing ('}', o) left) (ho : o ≠ .branch) :
    standing = o :: left := by
  have hc : '}' = closer o := by cases o <;> first | rfl | exact absurd rfl ho
  generalize hx : ('}', o) = x at h
  cases h with
  | opens _ =>
      obtain ⟨hbrace, rfl⟩ := Prod.mk.inj hx
      cases o <;> simp [opener] at hbrace ho
  | closes =>
      obtain ⟨-, rfl⟩ := Prod.mk.inj hx
      rfl
  | passes _ h2 => exact absurd (Prod.mk.inj hx).1.symm h2

/-- Without branches, what nests does so inside whatever stands open. -/
theorem open?_outer (hb : ∀ x ∈ w, x.2 ≠ .branch) (h : open? standing w = some left)
    (outer : List Origin) : open? (standing ++ outer) w = some (left ++ outer) := by
  induction w generalizing standing with
  | nil => exact congrArg some (congrArg (· ++ outer) (Option.some.inj h))
  | cons x w ih =>
      rw [List.forall_mem_cons] at hb
      obtain ⟨s, hs, h⟩ := open?_cons.mp h
      refine open?_cons.mpr ⟨s ++ outer, ?_, ih hb.2 h⟩
      cases hs with
      | opens _ => exact .opens fun ho => absurd ho hb.1
      | closes => exact .closes
      | passes h1 h2 => exact .passes h1 h2

/-- Without branches no branch comes to stand open. -/
theorem branch_not_mem (hb : ∀ x ∈ w, x.2 ≠ .branch) (h : open? standing w = some left)
    (hs : .branch ∉ standing) : .branch ∉ left := by
  induction w generalizing standing with
  | nil =>
      obtain rfl : standing = left := Option.some.inj h
      exact hs
  | cons x w ih =>
      rw [List.forall_mem_cons] at hb
      obtain ⟨s, hstep, h⟩ := open?_cons.mp h
      refine ih hb.2 h ?_
      cases hstep with
      | opens _ =>
          rw [List.mem_cons, not_or]
          exact ⟨Ne.symm hb.1, hs⟩
      | closes => exact fun hmem => hs (List.mem_cons_of_mem _ hmem)
      | passes _ _ => exact hs

/-! ## Braces of the body and all braces -/

theorem open?_ofBody {depth d : Nat} {t : Text} (h : Text.nest? '{' '}' depth t = some d) :
    open? (List.replicate depth .written) (ofBody t) = some (List.replicate d .written) := by
  induction t generalizing depth with
  | nil => exact congrArg (fun n => some (List.replicate n _)) (Option.some.inj h)
  | cons c t ih =>
      refine open?_cons.mpr ?_
      by_cases h1 : c = '{'
      · subst h1
        rw [Text.nest?_opening] at h
        exact ⟨_, .opens (o := .written) (by simp), ih h⟩
      · by_cases h2 : c = '}'
        · subst h2
          cases depth with
          | zero => rw [Text.nest?_zero_closing (by decide)] at h; simp at h
          | succ depth =>
              rw [Text.nest?_closing (by decide)] at h
              exact ⟨_, .closes (o := .written), ih h⟩
        · rw [Text.nest?_cons_of_ne h1 h2] at h
          exact ⟨_, .passes h1 h2, ih h⟩

/-- Where the body closes nothing that it opened before, nothing that stood open below a brace of
the body is closed. -/
theorem open?_inside {l : List Origin} {d : Nat}
    (h : open? (l ++ .written :: standing) w = some left)
    (hn : Text.nest? '{' '}' (l.count .written) (written w) = some d) :
    ∃ l', open? l w = some l' ∧ l'.count .written = d ∧ left = l' ++ .written :: standing := by
  induction w generalizing l with
  | nil => exact ⟨l, rfl, Option.some.inj hn, (Option.some.inj h).symm⟩
  | cons x w ih =>
      obtain ⟨s, hs, h⟩ := open?_cons.mp h
      -- it is enough to follow the step below the brace of the body
      have follow (l₁ : List Origin) (hstep : Step l x l₁)
          (h : open? (l₁ ++ .written :: standing) w = some left)
          (hn : Text.nest? '{' '}' (l₁.count .written) (written w) = some d) :
          ∃ l', open? l (x :: w) = some l' ∧ l'.count .written = d ∧
            left = l' ++ .written :: standing := by
        obtain ⟨l', hl', hrest⟩ := ih h hn
        exact ⟨l', open?_cons.mpr ⟨l₁, hstep, hl'⟩, hrest⟩
      rw [written_cons] at hn
      generalize hstanding : l ++ .written :: standing = whole at hs
      cases hs with
      | @opens _ o hfree =>
          subst hstanding
          refine follow (o :: l) (.opens fun ho hl => hfree ho ?_) h ?_
          · rw [List.head?_append, hl]
            rfl
          · cases o with
            | written =>
                rw [if_pos rfl, opener, Text.nest?_opening] at hn
                · rwa [List.count_cons_self]
                · simp
            | _ => exact hn
      | @closes _ o =>
          cases l with
          | nil =>
              obtain rfl : .written = o := (List.cons.inj hstanding).1
              rw [if_pos rfl, closer, List.count_nil, Text.nest?_zero_closing (by decide)] at hn
              · simp at hn
              · simp
          | cons inner l =>
              obtain ⟨rfl, rfl⟩ := List.cons.inj hstanding
              refine follow _ .closes h ?_
              cases inner with
              | written =>
                  rw [if_pos rfl, closer, List.count_cons_self,
                    Text.nest?_closing (by decide)] at hn
                  · exact hn
                  · simp
              | _ => exact hn
      | passes h1 h2 =>
          subst hstanding
          refine follow _ (.passes h1 h2) h ?_
          split at hn
          · rwa [Text.nest?_cons_of_ne h1 h2] at hn
          · exact hn

/-- Braces of the body that the body pairs hold text that nests. -/
theorem nested_between {a b c : Marked}
    (hn : Nested (a ++ ('{', .written) :: (b ++ ('}', .written) :: c)))
    (hb : Text.Balanced '{' '}' (written b)) : Nested b := by
  obtain ⟨s, -, h⟩ := open?_append.mp hn
  obtain ⟨s', hs', h⟩ := open?_cons.mp h
  obtain ⟨left, hleft, h⟩ := open?_append.mp h
  obtain ⟨outer, hclose, -⟩ := open?_cons.mp h
  obtain rfl := hs'.unique (.brace (by simp))
  obtain ⟨l, hl, hcount, rfl⟩ := open?_inside (l := []) hleft hb
  have hcons := hclose.eq_cons (by simp)
  cases l with
  | nil => exact hl
  | cons inner l =>
      obtain rfl : inner = .written := (List.cons.inj hcons).1
      rw [List.count_cons_self] at hcount
      omega

/-- How deep a place stands in braces, given what stands open there. A branch takes the brace back
that stands open below it. -/
inductive Depth : List Origin → Nat → Prop
  | nil : Depth [] 0
  | brace {l o n} : o ≠ .branch → Depth l n → Depth (o :: l) (n + 1)
  | gap {l n} : l.head? ≠ some .branch → Depth l (n + 1) → Depth (.branch :: l) n

/-- Where no branch closes what stood open before, a text nests from its depth on. -/
theorem nest?_of_open? {n : Nat} (hd : Depth standing n)
    (hdirect : ∀ u v, w = u ++ ('}', .branch) :: v → open? standing u ≠ some [])
    (h : open? standing w = some left) :
    ∃ d, Depth left d ∧ Text.nest? '{' '}' n (text w) = some d := by
  induction w generalizing standing n with
  | nil =>
      obtain rfl : standing = left := Option.some.inj h
      exact ⟨n, hd, rfl⟩
  | cons x w ih =>
      obtain ⟨s, hs, hw⟩ := open?_cons.mp h
      have later : ∀ u v, w = u ++ ('}', .branch) :: v → open? s u ≠ some [] :=
        fun u v hsplit hu => hdirect (x :: u) v (by rw [hsplit]; rfl) (open?_cons.mpr ⟨s, hs, hu⟩)
      cases hs with
      | @opens _ o hfree =>
          by_cases ho : o = .branch
          · subst ho
            have hne : standing ≠ [] := fun hnil => hdirect [] w rfl (by rw [hnil]; rfl)
            cases hd with
            | nil => exact absurd rfl hne
            | gap _ _ => exact absurd rfl (hfree rfl)
            | @brace _ _ k ho hl =>
                obtain ⟨d, hleft, hnest⟩ := ih (.gap (hfree rfl) (.brace ho hl)) later hw
                exact ⟨d, hleft, (Text.nest?_closing (by decide) k (text w)).trans hnest⟩
          · obtain ⟨d, hleft, hnest⟩ := ih (.brace ho hd) later hw
            have hc : opener o = '{' := by cases o <;> first | rfl | exact absurd rfl ho
            refine ⟨d, hleft, ?_⟩
            rw [text_cons, hc, Text.nest?_opening]
            exact hnest
      | @closes _ o =>
          cases hd with
          | @brace _ _ k ho hl =>
              obtain ⟨d, hleft, hnest⟩ := ih hl later hw
              have hc : closer o = '}' := by cases o <;> first | rfl | exact absurd rfl ho
              refine ⟨d, hleft, ?_⟩
              rw [text_cons, hc, Text.nest?_closing (by decide)]
              exact hnest
          | gap _ hl =>
              obtain ⟨d, hleft, hnest⟩ := ih hl later hw
              exact ⟨d, hleft, (Text.nest?_opening n (text w)).trans hnest⟩
      | passes h1 h2 =>
          obtain ⟨d, hleft, hnest⟩ := ih hd later hw
          exact ⟨d, hleft, (Text.nest?_cons_of_ne h1 h2 n (text w)).trans hnest⟩

/-- A branch that is not inside a block of the text. -/
def Direct (w u v : Marked) : Prop := w = u ++ ('}', .branch) :: v ∧ Nested u

theorem balanced_of_nested (h : Nested w) (hdirect : ¬ ∃ u v, Direct w u v) :
    Text.Balanced '{' '}' (text w) := by
  obtain ⟨d, hd, hn⟩ := nest?_of_open? .nil (fun u v hw hu => hdirect ⟨u, v, hw, hu⟩) h
  cases hd
  exact hn

/-- Before the first branch every brace has its partner. -/
theorem exists_first_branch {v : Marked} (h : Direct w u v) :
    ∃ u v, Direct w u v ∧ Text.Balanced '{' '}' (text u) := by
  induction hn : u.length using Nat.strongRecOn generalizing u v with
  | ind n ih =>
      by_cases hdirect : ∃ u' v', Direct u u' v'
      · obtain ⟨u', v', rfl, hu'⟩ := hdirect
        refine ih u'.length ?_ (u := u') (v := v' ++ ('}', .branch) :: v) ⟨?_, hu'⟩ rfl
        · simp only [← hn, List.length_append, List.length_cons]
          omega
        · rw [h.1, List.append_assoc]
          rfl
      · exact ⟨u, v, h, balanced_of_nested h.2 hdirect⟩

/-- What stands open outermost is closed at last. -/
theorem exists_closer {l : List Origin} (h : open? (l ++ [o]) w = some []) :
    ∃ u v, w = u ++ (closer o, o) :: v ∧ Nested v := by
  induction w generalizing l with
  | nil =>
      have hnil : l ++ [o] = [] := Option.some.inj h
      simp at hnil
  | cons x w ih =>
      obtain ⟨s, hs, h⟩ := open?_cons.mp h
      have later (l' : List Origin) (h : open? (l' ++ [o]) w = some []) :
          ∃ u v, x :: w = u ++ (closer o, o) :: v ∧ Nested v := by
        obtain ⟨u, v, rfl, hv⟩ := ih h
        exact ⟨x :: u, v, rfl, hv⟩
      generalize hstanding : l ++ [o] = whole at hs
      cases hs with
      | @opens _ o' _ =>
          subst hstanding
          exact later (o' :: l) h
      | closes =>
          cases l with
          | nil =>
              obtain ⟨rfl, rfl⟩ := List.cons.inj hstanding
              exact ⟨[], w, rfl, h⟩
          | cons inner l =>
              obtain ⟨-, rfl⟩ := List.cons.inj hstanding
              exact later _ h
      | passes _ _ =>
          subst hstanding
          exact later _ h

/-- The braces of branches are the partners of the braces around a text: an `else if` closed the block
that the text is in, and a last one opened what the closing brace closes. -/
structure Branched (b : Marked) : Prop where
  closed : ∃ u v, b = u ++ ('}', .branch) :: v ∧ Text.Balanced '{' '}' (text u)
  opened : ∃ u v, b = u ++ ('{', .branch) :: v ∧ Text.Balanced '{' '}' (text v)

/-- The braces around a text that nests are partners, unless branches part them. -/
theorem Nested.balanced_or_branched (h : Nested w) :
    Text.Balanced '{' '}' (text w) ∨ Branched w := by
  induction hn : w.length using Nat.strongRecOn generalizing w with
  | ind n ih =>
      by_cases hdirect : ∃ u v, Direct w u v
      · obtain ⟨u, v, hdirect⟩ := hdirect
        obtain ⟨u, v, ⟨rfl, hu⟩, hbalanced⟩ := exists_first_branch hdirect
        refine Or.inr ⟨⟨u, v, rfl, hbalanced⟩, ?_⟩
        obtain ⟨s, hs, hv⟩ := open?_append.mp h
        obtain rfl : [] = s := Option.some.inj (hu.symm.trans hs)
        obtain ⟨s, hs, hv⟩ := open?_cons.mp hv
        obtain rfl := hs.unique (.opens (o := .branch) (by simp))
        obtain ⟨m, last, rfl, hlast⟩ := exists_closer (l := []) hv
        have hlen : last.length < n := by
          simp only [← hn, List.length_append, List.length_cons]
          omega
        rcases ih last.length hlen hlast rfl with hlast | ⟨-, x, y, rfl, hy⟩
        · exact ⟨u ++ ('}', .branch) :: m, last, by simp [closer], hlast⟩
        · exact ⟨u ++ ('}', .branch) :: (m ++ (closer .branch, .branch) :: x), y, by simp, hy⟩
      · exact Or.inl (balanced_of_nested h hdirect)

end Marked

end Stencil.Repair
