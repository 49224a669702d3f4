import Stencil.Path
/-!
# The components of a path

A path leads from where it starts over one name after another. A path below another one leads first
where that one leads, and on by a single name exactly if it is a file name.
-/
namespace Stencil

namespace Path

/-- A step of a path. -/
inductive Component where
  | root
  | here
  | up
  | name (text : Text)
deriving Repr, DecidableEq

def Component.ofName (text : Text) : Component := if text = ['.', '.'] then .up else .name text

/-- The steps over the names of a text. -/
def steps (t : Text) : List Component :=
  ((segments t).filter fun s => !isVoid s).map Component.ofName

/-- The step that a path starts with, if it starts with no name. -/
def start (p : Path) : List Component :=
  if lead p = ['/'] then [.root] else if lead p = ['.'] then [.here] else []

def components (p : Path) : List Component := start p ++ steps (p.drop (lead p).length)

/-- A name that is one step down. -/
def IsFileName (t : Text) : Prop := '/' ∉ t ∧ t ≠ [] ∧ t ≠ ['.'] ∧ t ≠ ['.', '.']

instance (t : Text) : Decidable (IsFileName t) := inferInstanceAs (Decidable (_ ∧ _))

/-! ## Segments -/

theorem segments_ne_nil (t : Text) : segments t ≠ [] := by
  unfold segments
  split
  · simp
  · split
    · simp
    · split <;> simp

theorem segments_of_not_mem {t : Text} (ht : '/' ∉ t) : segments t = [t] := by
  induction t with
  | nil => rfl
  | cons c t ih =>
      rw [List.mem_cons, not_or] at ht
      rw [segments, if_neg (Ne.symm ht.1), ih ht.2]

theorem segments_append (t u : Text) : segments (t ++ '/' :: u) = segments t ++ segments u := by
  induction t with
  | nil => simp [segments]
  | cons c t ih =>
      rw [List.cons_append, segments, segments, ih]
      split
      · rfl
      · cases hs : segments t with
        | nil => exact absurd hs (segments_ne_nil t)
        | cons s ss => rfl

theorem not_mem_of_mem_segments {s t : Text} (h : s ∈ segments t) : '/' ∉ s := by
  induction t generalizing s with
  | nil =>
      rw [segments, List.mem_singleton] at h
      simp [h]
  | cons c t ih =>
      rw [segments] at h
      split at h
      · rw [List.mem_cons] at h
        rcases h with rfl | h
        · simp
        · exact ih h
      · rename_i hc
        split at h
        · rename_i first rest hs
          rw [List.mem_cons] at h
          rcases h with rfl | h
          · rw [List.mem_cons, not_or]
            exact ⟨Ne.symm hc, ih (by rw [hs]; exact List.mem_cons_self)⟩
          · exact ih (by rw [hs]; exact List.mem_cons_of_mem first h)
        · rename_i hs
          exact absurd hs (segments_ne_nil t)

/-! ## Steps -/

theorem steps_append (t u : Text) : steps (t ++ '/' :: u) = steps t ++ steps u := by
  rw [steps, segments_append, List.filter_append, List.map_append]
  rfl

theorem steps_of_isFileName {t : Text} (h : IsFileName t) : steps t = [.name t] := by
  obtain ⟨hslash, hne, hhere, hup⟩ := h
  rw [steps, segments_of_not_mem hslash, List.filter_cons_of_pos (by simp [isVoid, hne, hhere])]
  simp [Component.ofName, hup]

/-- The names on a path are file names. -/
theorem isFileName_of_mem_steps {s t : Text} (h : .name s ∈ steps t) : IsFileName s := by
  rw [steps, List.mem_map] at h
  obtain ⟨s', hmem, hs⟩ := h
  rw [List.mem_filter] at hmem
  unfold Component.ofName at hs
  split at hs
  · simp at hs
  · rename_i hup
    rw [Component.name.injEq] at hs
    rw [← hs]
    have hvoid : s' ≠ [] ∧ s' ≠ ['.'] := by simpa [isVoid] using hmem.2
    exact ⟨not_mem_of_mem_segments hmem.1, hvoid.1, hvoid.2, hup⟩

theorem isFileName_of_mem_components {s : Text} {p : Path} (h : .name s ∈ components p) :
    IsFileName s := by
  rw [components, List.mem_append] at h
  rcases h with h | h
  · unfold start at h
    split at h
    · simp at h
    · split at h <;> simp at h
  · exact isFileName_of_mem_steps h

/-! ## Paths below others -/

theorem length_lead_le (p : Path) : (lead p).length ≤ p.length := by
  unfold lead
  split <;> simp

theorem lead_of_not_mem {p : Path} (hslash : '/' ∉ p) (hhere : p ≠ ['.']) : lead p = [] := by
  unfold lead
  split <;> simp_all

/-- What a path starts with does not depend on what stands after its first slash. -/
theorem lead_append {d : Text} (hne : d ≠ []) (t : Text) : lead (d ++ '/' :: t) = lead d := by
  cases d with
  | nil => exact absurd rfl hne
  | cons c d =>
      by_cases hroot : c = '/'
      · rw [hroot]
        rfl
      · by_cases hhere : c = '.'
        · rw [hhere]
          cases d with
          | nil => rfl
          | cons c' d =>
              by_cases hc' : c' = '/'
              · rw [hc']
                rfl
              · simp [lead, hc']
        · simp [lead, hroot, hhere]

/-- Below a directory a path leads first to the directory. -/
theorem components_append {d : Text} (hne : d ≠ []) (t : Text) :
    components (d ++ '/' :: t) = components d ++ steps t := by
  rw [components, start, lead_append hne, List.drop_append_of_le_length (length_lead_le d),
    steps_append, ← List.append_assoc]
  rfl

/-- Behind a slash a path leads over the names of the rest. -/
theorem components_slash (d t : Text) :
    components (d ++ '/' :: t) = components (d ++ ['/']) ++ steps t := by
  by_cases hne : d = []
  · rw [hne]
    rfl
  · rw [components_append hne, components_append hne]
    simp [steps, segments, isVoid]

/-- A path below a directory is one step further exactly if it is a file name. -/
theorem components_join (dir name : Path) :
    components (join dir name) = components dir ++ [.name name] ↔ IsFileName name := by
  constructor
  · intro h
    apply isFileName_of_mem_components (p := join dir name)
    rw [h]
    simp
  · intro hname
    have hrelative : isAbsolute name = false := by
      cases name with
      | nil => rfl
      | cons c name =>
          have hslash := hname.1
          rw [List.mem_cons, not_or] at hslash
          simp [isAbsolute, Ne.symm hslash.1]
    rw [join, if_neg (by simp [hrelative]), ← steps_of_isFileName hname]
    by_cases hempty : dir = []
    · rw [hempty]
      have hlead := lead_of_not_mem hname.1 hname.2.2.1
      change components name = steps name
      rw [components, start, hlead]
      rfl
    · by_cases hlast : dir.getLast? = some '/'
      · obtain ⟨d, rfl⟩ := List.getLast?_eq_some_iff.mp hlast
        rw [if_pos (by simp), List.append_assoc]
        exact components_slash d name
      · rw [if_neg (by simp [hempty, hlast])]
        exact components_append hempty name

/-- The stem of a file name is free of slashes. -/
theorem slash_not_mem_stem {p : Path} {stem : Text} (h : stem? p = some stem) : '/' ∉ stem := by
  obtain ⟨name, hname, rfl⟩ := Option.map_eq_some_iff.mp h
  have hhead : (namesBack p).head? = some name := (Option.filter_eq_some_iff.mp hname).1
  have hmem : name ∈ namesBack p := List.mem_of_head? hhead
  have hslash : '/' ∉ name := by
    apply not_mem_of_mem_segments (t := p.drop (lead p).length)
    rw [← List.mem_reverse]
    exact (List.dropWhile_suffix _).mem hmem
  have hcut : ∀ c ∈ (splitName name).1, c ∈ name := by
    intro c hc
    unfold splitName at hc
    dsimp only at hc
    split at hc
    · exact hc
    · exact List.mem_of_mem_take hc
  intro hstem
  exact hslash (hcut '/' hstem)

end Path

end Stencil
