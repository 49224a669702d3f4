import Stencil.Lua.Chunk
import Stencil.Proofs.Engine.Registry
import Stencil.Proofs.Output.Components
/-!
# Where output goes

The name of an output file is put together from texts of which two come from outside: the name of a
template and the extension. A fingerprint, a time and the name of a way to render are made of letters
and digits, so a slash in the name of the file comes from those two, and without one the output goes
into the output directory itself.
-/
namespace Stencil

open Stencil.Path

/-! ## Fingerprints -/

namespace Fingerprint

theorem slash_not_mem_hex (content : Text) : '/' ∉ (ofContent content).hex.toList := by
  have hdigit (n : Nat) : '/' ≠ Nat.digitChar n := fun h => Nat.digitChar_ne _ (by decide) h.symm
  rw [ofContent, String.toList_ofList, List.mem_flatMap]
  rintro ⟨b, -, hb⟩
  rw [hexByte, List.mem_cons, List.mem_singleton] at hb
  rcases hb with hb | hb
  · exact hdigit _ hb
  · exact hdigit _ hb

theorem length_hex (content : Text) : (ofContent content).hex.toList.length = 40 := by
  have hdigest (m : Bytes) : (Sha1.digest m).length = 20 := by
    simp [Sha1.digest, Sha1.bigEndian]
  have hbyte (b : UInt8) : (hexByte b).length = 2 := rfl
  rw [ofContent, String.toList_ofList, List.length_flatMap]
  simp only [hbyte, List.map_const', List.sum_replicate_nat, hdigest]

theorem mem_hex_of_mem_short {f : Fingerprint} {c : Char} (h : c ∈ f.short.toList) :
    c ∈ f.hex.toList := by
  rw [short, lastChars, String.toList_ofList] at h
  exact List.mem_of_mem_drop h

theorem short_ne_nil (content : Text) : (ofContent content).short.toList ≠ [] := by
  apply List.ne_nil_of_length_pos
  rw [short, lastChars, String.toList_ofList, List.length_drop, length_hex]
  decide

end Fingerprint

/-! ## Names put together -/

namespace OutputName

variable {n : OutputName} {o : Options}

def text (n : OutputName) (ext : String) : NameToken → Text
  | .ext => ext.toList
  | .tid => n.fingerprint.toList
  | .atid => n.short.toList
  | .time => (toString n.millis).toList
  | .filename => n.stem.toList
  | .type => n.type.name.toList

theorem mem_extend {c : Char} (hdash : c ≠ '-') (hdot : c ≠ '.') {ext : String} {name : Text}
    {token : NameToken} : c ∈ n.extend ext name token ↔ c ∈ name ∨ c ∈ n.text ext token := by
  have hpart (s : String) :
      c ∈ (if name.isEmpty then s.toList else name ++ '-' :: s.toList) ↔ c ∈ name ∨ c ∈ s.toList := by
    split
    · rename_i hempty
      rw [List.isEmpty_iff.mp hempty]
      simp
    · simp [hdash]
  cases token
  case ext => simp [extend, text, hdot]
  all_goals exact hpart _

theorem mem_foldl_extend {c : Char} (hdash : c ≠ '-') (hdot : c ≠ '.') {ext : String}
    {tokens : List NameToken} {name : Text} :
    c ∈ tokens.foldl (n.extend ext) name ↔
      c ∈ name ∨ ∃ token ∈ tokens, c ∈ n.text ext token := by
  induction tokens generalizing name with
  | nil => simp
  | cons token tokens ih => simp [ih, mem_extend hdash hdot, or_assoc]

theorem fileName_ne_nil (h : n.short.toList ≠ []) : n.fileName o ≠ [] := by
  simp only [fileName]
  split
  · exact h
  · rename_i hne
    simpa using hne

theorem slash_mem_fileName (h : '/' ∉ n.short.toList) :
    '/' ∈ n.fileName o ↔ ∃ token ∈ o.outputFormat, '/' ∈ n.text o.outputExt token := by
  have hname : '/' ∈ o.outputFormat.foldl (n.extend o.outputExt) [] ↔
      '/' ∈ ([] : Text) ∨ ∃ token ∈ o.outputFormat, '/' ∈ n.text o.outputExt token :=
    mem_foldl_extend (by decide) (by decide)
  simp only [fileName]
  split
  · rename_i hempty
    rw [List.isEmpty_iff.mp hempty] at hname
    simpa [h] using hname
  · simpa using hname

theorem slash_not_mem_type (type : RenderType) : '/' ∉ type.name.toList := by
  cases type <;> decide

theorem slash_not_mem_millis (millis : Nat) : '/' ∉ (toString millis).toList := by
  intro h
  rw [Nat.toString_eq_repr, Nat.toList_repr] at h
  exact absurd (Nat.isDigit_of_mem_toDigits (by decide) (by decide) h) (by decide)

end OutputName

/-! ## The names of a template's output -/

namespace Template

variable {I : Interpreter}

/-- What the name of the output is put together from when a template is rendered. -/
def outputName (t : Template I) (o : Options) (type : RenderType) (millis : Nat) : OutputName :=
  { fingerprint := t.fingerprint.hex, short := t.fingerprint.short
    stem := t.outputStem o, type, millis }

/-- The stem of a file is free of slashes, and so is the name of code that has none of its own. -/
theorem slash_mem_outputStem (t : Template I) (o : Options) :
    '/' ∈ (t.outputStem o).toList ↔
      ∃ code name, t.source = .inline code ∧ o.name = some name ∧ '/' ∈ name.toList := by
  unfold outputStem
  cases t.source with
  | file path =>
      have hstem : '/' ∉ (Path.stem? path).getD [] := by
        cases hstem : Path.stem? path with
        | none => simp
        | some stem => exact slash_not_mem_stem hstem
      simpa using hstem
  | inline code =>
      cases o.name with
      | none => simp
      | some name => simp

theorem slash_mem_fileName {t : Template I} (ht : t.fingerprint = .ofContent t.content) (o : Options)
    (type : RenderType) (millis : Nat) :
    '/' ∈ (t.outputName o type millis).fileName o ↔
      (.ext ∈ o.outputFormat ∧ '/' ∈ o.outputExt.toList) ∨
      (.filename ∈ o.outputFormat ∧ '/' ∈ (t.outputStem o).toList) := by
  have hhex : '/' ∉ (t.outputName o type millis).fingerprint.toList := by
    rw [outputName, ht]
    exact Fingerprint.slash_not_mem_hex t.content
  have hshort : '/' ∉ (t.outputName o type millis).short.toList := fun h =>
    hhex (Fingerprint.mem_hex_of_mem_short h)
  rw [OutputName.slash_mem_fileName hshort]
  constructor
  · rintro ⟨token, hmem, h⟩
    cases token with
    | ext => exact Or.inl ⟨hmem, h⟩
    | filename => exact Or.inr ⟨hmem, h⟩
    | tid => exact absurd h hhex
    | atid => exact absurd h hshort
    | time => exact absurd h (OutputName.slash_not_mem_millis millis)
    | type => exact absurd h (OutputName.slash_not_mem_type type)
  · rintro (⟨hmem, h⟩ | ⟨hmem, h⟩)
    · exact ⟨.ext, hmem, h⟩
    · exact ⟨.filename, hmem, h⟩

/-- Output goes one step below the output directory exactly if neither the extension nor the name
brings a slash along and the whole is no step to the directory or above it. -/
theorem output_below {t : Template I} (ht : t.fingerprint = .ofContent t.content) (o : Options)
    (type : RenderType) (millis : Nat) :
    components ((t.outputName o type millis).path o) =
        components o.outputDir ++ [.name ((t.outputName o type millis).fileName o)] ↔
      (.ext ∈ o.outputFormat → '/' ∉ o.outputExt.toList) ∧
      (.filename ∈ o.outputFormat → '/' ∉ (t.outputStem o).toList) ∧
      (t.outputName o type millis).fileName o ≠ ['.'] ∧
      (t.outputName o type millis).fileName o ≠ ['.', '.'] := by
  have hshort : (t.outputName o type millis).short.toList ≠ [] := by
    rw [outputName, ht]
    exact Fingerprint.short_ne_nil t.content
  have hne : (t.outputName o type millis).fileName o ≠ [] := OutputName.fileName_ne_nil hshort
  rw [OutputName.path, components_join, IsFileName, slash_mem_fileName ht, not_or, not_and, not_and,
    and_iff_right hne, and_assoc]

end Template

/-! ## The output of a session -/

namespace Engine

variable {I : Interpreter} {limit : Nat} {e e' : Engine I} {m : Moment I} {content : Text}

/-- A render writes its output to the path of this name. -/
theorem writeOutput_eq (task : Task) (output : Text) (e : Engine I) :
    e.writeOutput task output =
      match e.disk.write (((e.template task.id).outputName task.options task.type
        (epochMillis e.clock.now)).path task.options) output.toBytes with
      | .ok disk => (.ok (), { e.tick with disk })
      | .error error => (.error error, e.tick) :=
  rfl

/-- Every template goes by the fingerprint of its content. -/
def Named (e : Engine I) : Prop :=
  ∀ i < e.templates.length, (e.template i).fingerprint = .ofContent (e.template i).content

theorem Named.retains (h : e.Named) (h' : Retains e e') : e'.Named := by
  intro i hi
  rw [h'.length] at hi
  rw [(h'.template i).fingerprint, (h'.template i).content]
  exact h i hi

theorem Named.admits (h : e.Named) (h' : Admits content e e') : e'.Named := by
  intro i hi
  rw [h'.length] at hi
  by_cases hold : i < e.templates.length
  · rw [(h'.template i hold).fingerprint, (h'.template i hold).content]
    exact h i hold
  · have hnew : i = e.templates.length := by omega
    rw [hnew, h'.fingerprint, h'.content]

theorem Named.remove (h : e.Named) (f : Fingerprint) : (Engine.remove f e).2.Named := h

theorem Named.insert (h : e.Named) (source : Source) (content : Text) (base : Options)
    (patch : Patch) (scope : Option Json) : (e.insert source content base patch scope).2.Named :=
  (h.remove (.ofContent content)).admits (admits_insert source content base patch scope e)

private theorem Operation.named {activity : Activity I} (h : Operation e activity) (he : e.Named) :
    (Moment.engine ⟨[], activity⟩).Named := by
  cases h with
  | create source patch scope =>
      simp only [Moment.engine]
      unfold Engine.create
      split
      · exact he
      · split
        · exact he
        · exact he.insert _ _ _ _ _
  | register source patch scope =>
      simp only [Moment.engine]
      unfold Engine.register
      split
      · exact he
      · exact he.insert _ _ _ _ _
  | remove f => exact he.remove f
  | setScope id scope => exact he.retains (retains_setScope id (some scope) e)
  | renderStatic id => exact he.retains (retains_renderStatic id e)
  | _ => exact he.retains (retains_of_eq rfl rfl)

/-- However a session goes, its templates go by the fingerprints of their contents. -/
theorem Reachable.named (h : Reachable limit m) : m.engine.Named := by
  induction h with
  | @start e hnew =>
      intro i hi
      have hnone : (Moment.engine ⟨[], .back (.ok []) e⟩).templates = [] := hnew.templates
      rw [hnone] at hi
      contradiction
  | goes hm hgoes ih =>
      cases hgoes with
      | step hstep =>
          rcases hstep.retains_or_admits hm.sound with hretains | ⟨content, -, hadmits⟩
          · exact ih.retains hretains
          · exact ih.admits hadmits
      | operation hoperation => exact hoperation.named ih

/-- In every session, the output of a template goes one step below the output directory exactly if
no slash comes from the extension or from the name given to code, where these are part of the name of
the file, and that name is neither a step to the directory nor one above it. -/
theorem output_below_iff (hm : Reachable limit m) {t : Template I} (ht : t ∈ m.engine.templates)
    (o : Options) (type : RenderType) (millis : Nat) :
    components ((t.outputName o type millis).path o) =
        components o.outputDir ++ [.name ((t.outputName o type millis).fileName o)] ↔
      (.ext ∈ o.outputFormat → '/' ∉ o.outputExt.toList) ∧
      (.filename ∈ o.outputFormat →
        ∀ code name, t.source = .inline code → o.name = some name → '/' ∉ name.toList) ∧
      (t.outputName o type millis).fileName o ≠ ['.'] ∧
      (t.outputName o type millis).fileName o ≠ ['.', '.'] := by
  obtain ⟨i, hi, rfl⟩ := List.mem_iff_getElem.mp ht
  have hnamed := hm.named i hi
  rw [Engine.template, List.getD_eq_getElem?_getD, List.getElem?_eq_getElem hi, Option.getD_some]
    at hnamed
  rw [Template.output_below hnamed, Template.slash_mem_outputStem]
  simp only [not_exists, not_and]

section Called

/-- A session with a template of code. -/
def called : Engine Lua.interpreter := (register (.inline "text".toList) {} none {}).2

/-- Options that name the template and write its output under that name. -/
def callIt (name : String) : Options :=
  { outputDir := "out".toList, outputFormat := [.filename, .ext], name := some name }

def outputOf (name : String) : Path :=
  ((called.template 0).outputName (callIt name) .full 0).path (callIt name)

theorem output_below_iff_page :
    Reachable maxDepth ⟨[], .back (.ok []) called⟩ ∧ called.template 0 ∈ called.templates ∧
      outputOf "page" = "out/page.html".toList ∧
      components (outputOf "page") = components (callIt "page").outputDir ++
        [.name (((called.template 0).outputName (callIt "page") .full 0).fileName (callIt "page"))] := by
  have hreachable : Reachable maxDepth ⟨[], .back (.ok []) called⟩ :=
    (Reachable.start ⟨rfl, rfl, rfl⟩).goes (.operation (.register _ _ _))
  have hmem : called.template 0 ∈ called.templates := List.mem_cons_self
  refine ⟨hreachable, hmem, by decide +kernel, ?_⟩
  apply (output_below_iff hreachable hmem (callIt "page") .full 0).mpr
  refine ⟨fun _ => by decide, ?_, by decide +kernel, by decide +kernel⟩
  intro _ code name _ hname
  rw [← Option.some.inj hname]
  decide

/-- A name with slashes leads elsewhere: to the root, further down, or up again. -/
theorem output_leaves_directory :
    outputOf "/abs" = "/abs.html".toList ∧
      components (outputOf "a/b") =
        [.name "out".toList, .name "a".toList, .name "b.html".toList] ∧
      components (outputOf "../b") = [.name "out".toList, .up, .name "b.html".toList] ∧
      ¬ ∀ name, ∃ fileName, components (outputOf name) =
        components (callIt name).outputDir ++ [.name fileName] := by
  refine ⟨by decide +kernel, by decide +kernel, by decide +kernel, ?_⟩
  intro h
  obtain ⟨fileName, habs⟩ := h "/abs"
  have hroot : components (outputOf "/abs") = [.root, .name "abs.html".toList] := by decide +kernel
  have hout : components (callIt "/abs").outputDir = [.name "out".toList] := by decide +kernel
  rw [hroot, hout] at habs
  simp at habs

end Called

end Engine

end Stencil
