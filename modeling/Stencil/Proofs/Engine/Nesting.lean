import Stencil.Proofs.Engine.Sound
import Mathlib.Data.Finset.Card
import Mathlib.Data.Finset.Dedup
/-!
# Nested renders unwind

A template under render is never entered again, and the renders nested in one another are of
different contents. So includes that lead back to where they began come to an end, and a session that
includes finitely many contents nests no deeper than there are of them, and one.
-/
namespace Stencil.Engine

open Relation

variable {I : Interpreter} {limit : Nat} {m m' : Moment I} {S : Finset Text}

namespace Moment

/-- The templates under render and the one that is to be, innermost first. -/
def frames (m : Moment I) : List TemplateId :=
  match m.activity with
  | .call _ id _ _ => id :: m.stack
  | _ => m.stack

/-- The content that a running template asks to be rendered. -/
def asked? (m : Moment I) : Option Text :=
  match m.activity with
  | .work _ (.ask e request _) => (requested (requester m.stack request) request e).toOption
  | _ => none

/-- The nested renders are of templates that the registry finds by these contents. -/
def Nested (S : Finset Text) (m : Moment I) : Prop :=
  ∀ id ∈ m.frames.dropLast, ∃ content ∈ S, m.engine.find? (.ofContent content) = some id

end Moment

private theorem Sound.nodup_frames (h : Sound limit m) : m.frames.Nodup := by
  obtain ⟨ws, activity⟩ := m
  cases activity with
  | call again id patch e =>
      exact List.nodup_cons.mpr ⟨h.consistent.not_mem_of_idle h.activity.2.1, h.consistent.nodup⟩
  | _ => exact h.consistent.nodup

private theorem stack_length_le_frames (m : Moment I) : m.stack.length ≤ m.frames.length := by
  unfold Moment.frames
  split
  · exact Nat.le_succ _
  · exact le_rfl

private theorem mem_dropLast_cons {α : Type} {a b : α} {l : List α} (h : a ∈ l.dropLast) :
    a ∈ (b :: l).dropLast := by
  cases l with
  | nil => simp at h
  | cons c l => exact List.mem_cons_of_mem _ h

private theorem nested_of_grown {ids : List TemplateId} {e e' : Engine I} (hg : Grown e e')
    (h : ∀ id ∈ ids, ∃ content ∈ S, e.find? (.ofContent content) = some id) :
    ∀ id ∈ ids, ∃ content ∈ S, e'.find? (.ofContent content) = some id := by
  intro id hid
  obtain ⟨content, hcontent, hfound⟩ := h id hid
  exact ⟨content, hcontent, hg.found hfound⟩

private theorem Step.nested (h : Step limit m m') (hs : Sound limit m)
    (hasked : ∀ content ∈ m.asked?, content ∈ S) (hn : m.Nested S) : m'.Nested S := by
  have hgrown := h.grown hs
  have hkept := nested_of_grown hgrown hn
  cases h with
  | deep => exact fun id hid => hkept id (mem_dropLast_cons hid)
  | busy => exact fun id hid => hkept id (mem_dropLast_cons hid)
  | closed => exact fun id hid => hkept id (mem_dropLast_cons hid)
  | begins => exact hkept
  | answers => exact hkept
  | @descends ws task e request next child patch e' hresolve =>
      intro id hid
      rcases List.mem_cons.mp hid with rfl | hid
      · obtain ⟨-, content, hrequested, hfound⟩ := resolve_eq_render hresolve
        refine ⟨content, hasked content ?_, hfound⟩
        simp [Moment.asked?, hrequested, Except.toOption]
      · exact hkept id hid
  | ends => exact fun id hid => hkept id (mem_dropLast_cons hid)
  | returns => exact hkept

private theorem length_frames_le (hs : Sound limit m) (hn : m.Nested S) :
    m.frames.length ≤ S.card + 1 := by
  have hnodup : m.frames.dropLast.Nodup := hs.nodup_frames.sublist (List.dropLast_sublist _)
  have hsub : m.frames.dropLast.toFinset ⊆
      S.image fun content => (m.engine.find? (.ofContent content)).getD 0 := by
    intro id hid
    obtain ⟨content, hcontent, hfound⟩ := hn id (List.mem_toFinset.mp hid)
    exact Finset.mem_image.mpr ⟨content, hcontent, by rw [hfound]; rfl⟩
  have hcard := (Finset.card_le_card hsub).trans Finset.card_image_le
  rw [List.toFinset_card_of_nodup hnodup, List.length_dropLast] at hcard
  omega

private theorem nested_of_steps (hm : Reachable limit m) (hn : m.Nested S)
    (hasked : ∀ m', ReflTransGen (Step limit) m m' → ∀ content ∈ m'.asked?, content ∈ S)
    (hsteps : ReflTransGen (Step limit) m m') : m'.Nested S := by
  induction hsteps with
  | refl => exact hn
  | tail hbefore hstep ih =>
      exact hstep.nested (hm.of_steps hbefore).sound (hasked _ hbefore) ih

/-- At every moment the templates that say they are being rendered are those of the stack, each once.
A render from outside returns and leaves none, and if all that it includes, directly or not, are
finitely many source texts, it nests no deeper than there are of them, and one: then no nested render
is refused for its depth. -/
theorem nested_renders_unwind (h : Reachable limit m) :
    m.stack.Nodup ∧ (∀ id, (m.engine.template id).rendering = true ↔ id ∈ m.stack) ∧
    ∀ again id patch e, m = ⟨[], .call again id patch e⟩ →
      (∃ result e', renderTo limit [] again id patch e = (result, e') ∧
        ReflTransGen (Step limit) m ⟨[], .back result e'⟩ ∧
        ∀ i, (e'.template i).rendering = false) ∧
      ∀ S : Finset Text,
        (∀ m', ReflTransGen (Step limit) m m' → ∀ content ∈ m'.asked?, content ∈ S) →
        ∀ m', ReflTransGen (Step limit) m m' → m'.stack.length ≤ S.card + 1 ∧
          ∀ ws again id patch e, m' = ⟨ws, .call again id patch e⟩ → ws.length ≤ S.card := by
  have hs := h.sound
  refine ⟨hs.consistent.nodup, hs.consistent.rendering, fun again id patch e hm => ?_⟩
  subst hm
  have hreturns : ReflTransGen (Step limit) ⟨[], .call again id patch e⟩
      ⟨[], .back (renderTo limit [] again id patch e).1 (renderTo limit [] again id patch e).2⟩ :=
    steps_renderTo [] (by simp)
  refine ⟨⟨_, _, rfl, hreturns, (h.of_steps hreturns).sound.consistent.idle⟩,
    fun S hasked m' hsteps => ?_⟩
  have hn := nested_of_steps h (by simp [Moment.Nested, Moment.frames]) hasked hsteps
  have hlength := length_frames_le (h.of_steps hsteps).sound hn
  refine ⟨(stack_length_le_frames m').trans hlength, fun ws again id patch e hm' => ?_⟩
  subst hm'
  simpa [Moment.frames] using hlength

/-- A language whose programs include the empty text and emit what comes back. -/
def Including : Interpreter where
  State := Unit
  Program := Unit
  initial := ()
  compile _ _ _ := .ok ()
  run _ _ _ :=
    .ask () { source := [], options := some (.object [("code", .bool true)]), scope := none }
      fun _ reply => .done () { output := reply.toOption.getD [], error := none }

/-- The empty text, which there includes itself. -/
def selfIncluding : Engine Including := (register (.inline []) {} none {}).2

/-- The template is under render when it is asked for, so its last output is the reply. -/
private theorem replies_selfIncluding :
    (match produce (enter false 0 {} selfIncluding).1 (enter false 0 {} selfIncluding).2 with
      | .done _ _ => false
      | .ask e request _ =>
        match (resolve (requester [0] request) request e).1 with
        | .reply _ => true
        | .render _ _ => false) = true := by
  decide +kernel

private theorem asked_selfIncluding {m : Moment Including}
    (h : ReflTransGen (Step maxDepth) ⟨[], .call false 0 {} selfIncluding⟩ m) :
    ∀ content ∈ m.asked?, content ∈ ({[]} : Finset Text) := by
  obtain ⟨e, next, request, hproduce, hrequested, hdone⟩ : ∃ e next request,
      produce (enter false 0 {} selfIncluding).1 (enter false 0 {} selfIncluding).2 =
          .ask e request next ∧ requested (requester [0] request) request e = .ok [] ∧
        ∀ e' reply, ∃ e'' result, next e' reply = .done e'' result :=
    ⟨_, _, _, rfl, rfl, fun _ _ => ⟨_, _, rfl⟩⟩
  obtain ⟨reply, hreply⟩ : ∃ reply,
      (resolve (requester [0] request) request e).1 = .reply reply := by
    have hreplied := replies_selfIncluding
    rw [hproduce] at hreplied
    simp only at hreplied
    split at hreplied
    · exact ⟨_, ‹_›⟩
    · exact absurd hreplied Bool.false_ne_true
  rcases h.cases_head with rfl | ⟨m₁, hbegins, h⟩
  · simp [Moment.asked?]
  obtain rfl := hbegins.unique (.begins (by decide) rfl rfl)
  rw [hproduce] at h
  rcases h.cases_head with rfl | ⟨m₂, hanswers, h⟩
  · simp [Moment.asked?, hrequested, Except.toOption]
  obtain ⟨e', result, hdone⟩ := hdone (resolve (requester [0] request) request e).2
    (reply.mapError Error.message)
  have hanswered : Step maxDepth ⟨[], .work (enter false 0 {} selfIncluding).1 (.ask e request next)⟩
      ⟨[], .work (enter false 0 {} selfIncluding).1 (.done e' result)⟩ := by
    rw [← hdone]
    exact .answers (Prod.ext hreply rfl)
  obtain rfl := hanswers.unique hanswered
  rcases h.cases_head with rfl | ⟨m₃, hends, h⟩
  · simp [Moment.asked?]
  obtain rfl := hends.unique .ends
  rcases h.cases_head with rfl | ⟨m₄, hnone, -⟩
  · simp [Moment.asked?]
  · cases hnone

/-- A template that includes itself is begun once and comes to an end. -/
theorem nested_renders_unwind_self_including :
    Reachable maxDepth ⟨[], .call false 0 {} selfIncluding⟩ ∧
      ∀ m, ReflTransGen (Step maxDepth) ⟨[], .call false 0 {} selfIncluding⟩ m →
        m.stack.length ≤ 2 := by
  have hreachable : Reachable maxDepth ⟨[], .call false 0 {} selfIncluding⟩ :=
    ((Reachable.start ⟨rfl, rfl, rfl⟩).goes (.operation (.register _ _ _))).goes
      (.operation (.render {} (by decide)))
  have hunwinds := (nested_renders_unwind hreachable).2.2 _ _ _ _ rfl
  exact ⟨hreachable, fun m hsteps =>
    (hunwinds.2 {[]} (fun m' hsteps' => asked_selfIncluding hsteps') m hsteps).1⟩

end Stencil.Engine
