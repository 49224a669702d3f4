import Stencil.Proofs.Body.Literal
import Stencil.Proofs.Lua.Stepping
import Stencil.Proofs.Lua.Strings
import Mathlib
/-!
# The chunk of a document without code

The one statement of such a document compiles to three instructions between those of every chunk. Run
with any scope, where there is room for its two calls, the chunk emits the text and ends.
-/
namespace Stencil.Lua

/-- Code that emits a text and does nothing else. -/
structure Code.Emits (t : Text) (c : Code) : Prop where
  params : c.params = 0
  size : c.size = if t = [] then 4 else 6
  instrs : c.instrs = #[.separate 0, .varargs 0 (some 4)] ++
    (if t = [] then #[] else
      #[.move 4 0, .load 5 (.string t.toBytes), .call 4 (some 1) (some 0)]) ++
    #[.giveBack 0 (some 0)]

/-! ## Compiling -/

namespace Token

def ofPrelude : List Located :=
  [.word .local, .name "print", .mark .comma, .name "echo", .mark .comma, .name "scope",
    .mark .comma, .name "render", .mark .assign, .mark .dots].map (⟨·, 1⟩)

def ofEmission (t : Text) : List Located :=
  if t = [] then [] else
    [.name "print", .mark .openParen, .string t.toBytes, .mark .closeParen,
      .mark .semicolon].map (⟨·, 2⟩)

private theorem lexFrom_prelude (fuel : Nat) (rest : Text) :
    lexFrom (fuel + 17) 1 (Chunk.prelude ++ rest) =
      ofPrelude ++ lexFrom fuel 2 (afterBreak '\n' rest) := rfl

private theorem lexFrom_call (fuel line : Nat) (rest : Text) :
    lexFrom (fuel + 2) line ("print(".toList ++ rest) =
      ⟨.name "print", line⟩ :: ⟨.mark .openParen, line⟩ :: lexFrom fuel line rest := rfl

private theorem lexFrom_close (fuel line : Nat) : lexFrom (fuel + 3) line ");".toList =
    [⟨.mark .closeParen, line⟩, ⟨.mark .semicolon, line⟩] := rfl

theorem lex_emission (t : Text) : lex (Chunk.prelude ++ emission t) = ofPrelude ++ ofEmission t := by
  by_cases ht : t = []
  · rw [emission, if_pos ht, ofEmission, if_pos ht]
    rfl
  · rw [emission, if_neg ht, ofEmission, if_neg ht, lex]
    have hfuel : (Chunk.prelude ++ ("print(".toList ++ (quoted t ++ ");".toList))).length + 1 =
        (quoted t).length + 25 + 3 + 1 + 2 + 17 := by
      have hprelude : Chunk.prelude.length = 39 := rfl
      have hcall : "print(".toList.length = 6 := rfl
      have hclose : ");".toList.length = 2 := rfl
      simp only [List.length_append, hprelude, hcall, hclose]
      omega
    have hbreak (rest : Text) :
        afterBreak '\n' ("print(".toList ++ rest) = "print(".toList ++ rest := rfl
    rw [hfuel, lexFrom_prelude, hbreak, lexFrom_call, lexFrom_quoted, lexFrom_close]
    rfl

end Token

namespace Chunk

def opening : Stat :=
  .define (["print", "echo", "scope", "render"].map (·, .regular)) [.mk (.varargs 1) 1]

def printing (bytes : Bytes) : Stat :=
  .run (.call (.name "print" 2) [.mk (.literal (.string bytes) 2) 2] 2 2)

def emitting (t : Text) : Block := opening :: if t = [] then [] else [printing t.toBytes]

private theorem chunk_emission (room : Nat) (t : Text) :
    Parse.chunk (room + 2) (Token.ofPrelude ++ Token.ofEmission t) = .ok (emitting t) := by
  by_cases ht : t = []
  · rw [Token.ofEmission, if_pos ht, emitting, if_pos ht]
    with_unfolding_all rfl
  · rw [Token.ofEmission, if_neg ht, emitting, if_neg ht]
    generalize t.toBytes = bytes
    with_unfolding_all rfl

private theorem exists_ofBlock (chunk : Bytes) (t : Text) :
    ∃ c, Code.ofBlock? chunk (emitting t) = some c ∧ c.Emits t := by
  have hcode : (Code.ofBlock? chunk (emitting t)).map (fun c => (c.params, c.size, c.instrs)) =
      some (0, if t = [] then 4 else 6, #[.separate 0, .varargs 0 (some 4)] ++
        (if t = [] then #[] else
          #[.move 4 0, .load 5 (.string t.toBytes), .call 4 (some 1) (some 0)]) ++
        #[.giveBack 0 (some 0)]) := by
    unfold emitting
    generalize t.toBytes = bytes
    by_cases ht : t = []
    · simp only [if_pos ht]
      cbv
    · simp only [if_neg ht]
      cbv
  obtain ⟨c, hc, hparts⟩ := Option.map_eq_some_iff.mp hcode
  rw [Prod.mk.injEq, Prod.mk.injEq] at hparts
  exact ⟨c, hc, ⟨hparts.1, hparts.2.1, hparts.2.2⟩⟩

theorem nulPlace?_eq_none {name : Text} (h : '\x00' ∉ name) : nulPlace? name = none := by
  rw [nulPlace?, Option.map_eq_none_iff, List.findIdx?_eq_none_iff]
  intro b hb
  obtain ⟨c, hc, hb⟩ := List.mem_flatMap.mp hb
  rw [beq_eq_false_iff_ne]
  rintro rfl
  exact h (Utf8.eq_nul_of_mem hb ▸ hc)

/-- What is accepted as a chunk compiles to the code of its block. -/
theorem compile_eq {s : State} {name : String} {source : Text} {body : Block} {c : Code}
    (hname : nulPlace? name.toList = none)
    (hbody : Parse.chunk (room s.level) (Token.lex (prelude ++ source)) = .ok body)
    (hcode : Code.ofBlock? ((Bytes.ofString name).take shownLength) body = some c) :
    compile s name source = .ok c := by
  rw [compile, hname]
  dsimp only
  rw [hbody]
  dsimp only
  rw [hcode]

/-- Under a name without NUL, with room for a statement and an expression in it, the statement that
emits a text compiles to code that emits it. -/
theorem compile_emission {s : State} {name : String} (hname : '\x00' ∉ name.toList)
    (hroom : 2 ≤ room s.level) (t : Text) :
    ∃ c, compile s name (emission t) = .ok c ∧ c.Emits t := by
  obtain ⟨more, hmore⟩ := Nat.exists_eq_add_of_le' hroom
  obtain ⟨c, hcode, hc⟩ := exists_ofBlock ((Bytes.ofString name).take shownLength) t
  refine ⟨c, compile_eq (nulPlace?_eq_none hname) ?_ hcode, hc⟩
  rw [hmore, Token.lex_emission, chunk_emission]

end Chunk

/-! ## The beginning of a run -/

namespace State

variable {α β : Type}

/-- New tables may be put into the store, and nothing else is done. -/
def Stocks (m : StateM State α) : Prop :=
  ∀ s : State, ∃ a tables, m.run s = (a, { s with tables := s.tables ++ tables })

theorem stocks_pure (a : α) : Stocks (pure a) := fun s => ⟨a, #[], by rw [Array.append_empty]; rfl⟩

theorem Stocks.bind {m : StateM State α} {f : α → StateM State β} (hm : Stocks m)
    (hf : ∀ a, Stocks (f a)) : Stocks (m >>= f) := by
  intro s
  obtain ⟨a, tables, hrun⟩ := hm s
  obtain ⟨b, more, hmore⟩ := hf a { s with tables := s.tables ++ tables }
  refine ⟨b, tables ++ more, ?_⟩
  rw [StateT.run_bind, hrun]
  change (f a).run _ = _
  rw [hmore, Array.append_assoc]

theorem stocks_addTable (t : Table) : Stocks (modifyGet (State.addTable · t)) := by
  intro s
  refine ⟨.table s.tables.size, #[t], ?_⟩
  rw [Array.append_singleton]
  rfl

/-- What was found under a global name is found when there are more tables. -/
theorem global_append {s : State} (tables : Array Table) {id : String} {b : Builtin}
    (h : s.global id = .builtin b) :
    { s with tables := s.tables ++ tables }.global id = .builtin b := by
  have hlt : s.globals < s.tables.size := by
    rcases Nat.lt_or_ge s.globals s.tables.size with hlt | hge
    · exact hlt
    · rw [global, table, Array.getD_eq_getD_getElem?, Array.getElem?_eq_none hge] at h
      cases h
  have hsame : { s with tables := s.tables ++ tables }.table s.globals = s.table s.globals := by
    rw [table, table, Array.getD_eq_getD_getElem?, Array.getD_eq_getD_getElem?,
      Array.getElem?_append_left hlt]
  rw [← h, global, global, hsame]

end State

open State

namespace Value

mutual

theorem stocks_ofJson : ∀ j, Stocks (ofJson j)
  | .null => stocks_pure _
  | .bool _ => stocks_pure _
  | .int _ => stocks_pure _
  | .float _ => stocks_pure _
  | .string _ => stocks_pure _
  | .list items => by
    rw [ofJson]
    exact (stocks_itemsOfJson items).bind fun _ => stocks_addTable _
  | .object fields => by
    rw [ofJson]
    exact (stocks_fieldsOfJson fields _).bind fun _ => stocks_addTable _

theorem stocks_itemsOfJson : ∀ items, Stocks (itemsOfJson items)
  | [] => stocks_pure _
  | j :: rest => by
    rw [itemsOfJson]
    exact (stocks_ofJson j).bind fun _ => (stocks_itemsOfJson rest).bind fun _ => stocks_pure _

theorem stocks_fieldsOfJson : ∀ fields t, Stocks (fieldsOfJson fields t)
  | [], _ => stocks_pure _
  | (_, j) :: rest, t => by
    rw [fieldsOfJson]
    exact (stocks_ofJson j).bind fun _ => stocks_fieldsOfJson rest _

end

end Value

namespace Chunk

theorem stocks_scopeValue (scope : Json) : Stocks (scopeValue scope) := by
  unfold scopeValue
  split
  · exact stocks_addTable _
  · exact Value.stocks_ofJson _

/-- A state in which strings are shown as they are, and in which there is room for a chunk and for a
call in it. -/
structure Ready (s : State) : Prop where
  shower : s.global "tostring" = .builtin .tostring
  level : s.level + 2 < levelLimit
  place : startPlace s + 34 ≤ stackLimit

variable {c : Code} {t : Text} {s s' : State} {a : Activation}

/-- Where no call is under way there is room. -/
theorem ready_of_outside (h : s.global "tostring" = .builtin .tostring) (hframes : s.frames = []) :
    Ready s := by
  refine ⟨h, ?_, ?_⟩
  · rw [level, hframes]
    decide
  · rw [startPlace, hframes, List.isEmpty_nil, if_pos rfl]
    decide

/-- A chunk may then have a statement and an expression in it. -/
theorem Ready.two_le_room (h : Ready s) : 2 ≤ room s.level := by
  have hlevel := h.level
  rw [room]
  omega

/-- A run of the code is about to begin. -/
structure Begun (c : Code) (s s' : State) : Prop where
  control : s'.control = .call (startPlace s) 4 none (s.level + 1)
  frames : s'.frames = .entry (startPlace s) s.level :: s.frames
  runs : s'.runs = (s.nextRun, []) :: s.runs
  shower : s'.global "tostring" = .builtin .tostring
  callee : s'.read (startPlace s) = .closure s.closures.size
  emit : s'.read (startPlace s + 1) = .builtin (.emit s.nextRun)
  code : (s'.closures.getD s.closures.size default).code = c

theorem exists_begin (h : s.global "tostring" = .builtin .tostring) (c : Code) (scope : Json) :
    ∃ s', begin c scope s = (s.nextRun, s') ∧ Begun c s s' := by
  let emit := Value.builtin (.emit s.nextRun)
  obtain ⟨v, tables, hscope⟩ := stocks_scopeValue scope s
  obtain ⟨stack, hensure, hsize, -⟩ :=
    { s with tables := s.tables ++ tables }.exists_ensure (startPlace s + 5)
  obtain ⟨stack', hwrite, -, hwritten⟩ := exists_writeAll (startPlace s)
    [.closure s.closures.size, emit, emit, v, .builtin (.render s.nextRun)]
    { s with tables := s.tables ++ tables, stack } hsize
  refine ⟨{ s with
    tables := s.tables ++ tables
    nextRun := s.nextRun + 1
    runs := (s.nextRun, []) :: s.runs
    cells := s.cells.push (.own (.table s.globals))
    closures := s.closures.push { code := c, cells := #[s.cells.size] }
    frames := .entry (startPlace s) s.level :: s.frames
    control := .call (startPlace s) 4 none (s.level + 1)
    stack := stack' }, ?_, ⟨rfl, rfl, rfl, global_append tables h, hwritten 0 (by simp),
      hwritten 1 (by simp), by simp⟩⟩
  simp only [begin, hscope, hensure]
  rw [hwrite]

/-- The code at work has its arguments in registers. -/
structure Opened (c : Code) (s : State) (a : Activation) (s' : State) : Prop where
  code : a.closure.code = c
  base : a.base = startPlace s + 6
  level : a.level = s.level + 1
  control : s'.control = .run
  frames : s'.frames = .code a 2 :: .entry (startPlace s) s.level :: s.frames
  runs : s'.runs = (s.nextRun, []) :: s.runs
  shower : s'.global "tostring" = .builtin .tostring
  size : a.base + c.size ≤ s'.stack.size
  emit : s'.read a.base = .builtin (.emit s.nextRun)

theorem exists_opened (hc : c.Emits t) (hs : Ready s) (hb : Begun c s s') :
    ∃ a s'', Leads 3 s' s'' ∧ Opened c s a s'' := by
  have hlevel := hs.level
  have hplace := hs.place
  have hsize : 4 ≤ c.size ∧ c.size ≤ 6 := by
    rw [hc.size]
    split <;> decide
  obtain ⟨f, hf, rfl⟩ : ∃ f, s'.closures.getD s.closures.size default = f ∧ f.code = c :=
    ⟨_, rfl, hb.code⟩
  have hinstrs : f.code.instrs[0]? = some (.separate 0) ∧
      f.code.instrs[1]? = some (.varargs 0 (some 4)) := by
    rw [hc.instrs]
    split <;> exact ⟨rfl, rfl⟩
  -- the function is entered
  let a₁ : Activation := ⟨f, startPlace s + 1, ⟨startPlace s, none⟩, 0, s.level + 1⟩
  obtain ⟨stack₁, hstep₁, hstack₁⟩ := step_enter hb.control (by omega) hb.callee hf hc.params
    (by omega)
  let s₁ : State := { s' with
    stack := stack₁, top := startPlace s + 5, control := .run, frames := .code a₁ 0 :: s'.frames }
  -- its arguments are all further ones
  let a₂ : Activation := { a₁ with base := startPlace s + 6, extra := 4 }
  obtain ⟨stack₂, hstep₂, hsize₂, hstack₂⟩ := @step_separate s₁ a₁ 0 s'.frames rfl rfl hinstrs.1
    (show startPlace s + 5 + f.code.size + 1 ≤ stackLimit by omega)
  have hextra : s₁.top - a₁.base = 4 := show startPlace s + 5 - (startPlace s + 1) = 4 by omega
  rw [hextra] at hstep₂
  replace hsize₂ : startPlace s + 6 + f.code.size ≤ stack₂.size := hsize₂
  let s₂ : State := { s₁ with stack := stack₂, frames := .code a₂ 1 :: s'.frames }
  -- and they become the variables of the first line
  obtain ⟨stack₃, hstep₃, hsize₃, hstack₃⟩ := @step_varargs s₂ a₂ 1 s'.frames 0 4 rfl rfl hinstrs.2
    (Nat.le_refl 4) (show 4 < startPlace s + 6 by omega)
    (show startPlace s + 6 + 0 + 4 ≤ stack₂.size by omega)
  refine ⟨a₂, { s₂ with stack := stack₃, frames := .code a₂ 2 :: s'.frames },
    ((leads_step hstep₁).trans (leads_step hstep₂)).trans (leads_step hstep₃),
    ⟨rfl, rfl, rfl, rfl, ?_, hb.runs, hb.shower, ?_, ?_⟩⟩
  · rw [hb.frames]
  · rw [← hsize₃] at hsize₂
    exact hsize₂
  · have hcopied := hstack₃ 0 (by decide)
    have hsource : a₂.base - 1 - a₂.extra + 0 = startPlace s + 1 :=
      show startPlace s + 6 - 1 - 4 + 0 = startPlace s + 1 by omega
    rw [hsource] at hcopied
    exact hcopied.trans ((hstack₂ _).trans ((hstack₁ _).trans hb.emit))

/-! ## The rest of a run -/

/-- The text is emitted, and the code comes to its last instruction. -/
theorem exists_emitted (hc : c.Emits t) (hs : Ready s) (ho : Opened c s a s') :
    ∃ count s'' pc, Leads count s' s'' ∧ count ≤ 6 ∧ s''.control = .run ∧
      s''.frames = .code a pc :: .entry (startPlace s) s.level :: s.frames ∧
      c.instrs[pc]? = some (.giveBack 0 (some 0)) ∧ s''.emitted s.nextRun = t := by
  by_cases ht : t = []
  · refine ⟨0, s', 2, fun more => by rw [Nat.zero_add], by decide, ho.control, ho.frames, ?_, ?_⟩
    · rw [hc.instrs, if_pos ht]
      rfl
    · rw [emitted, ho.runs, ht]
      simp
  · have hinstrs : a.closure.code.instrs = #[.separate 0, .varargs 0 (some 4), .move 4 0,
        .load 5 (.string t.toBytes), .call 4 (some 1) (some 0), .giveBack 0 (some 0)] := by
      rw [ho.code, hc.instrs, if_neg ht]
      rfl
    have hsize : a.base + 6 ≤ s'.stack.size := by
      have hsize := ho.size
      rwa [hc.size, if_neg ht] at hsize
    have hlevel : a.level + 1 < levelLimit := by
      rw [ho.level]
      exact hs.level
    have hplace : a.base + 28 ≤ stackLimit := by
      rw [ho.base]
      exact hs.place
    let outer := .entry (startPlace s) s.level :: s.frames
    -- the function and the string are put side by side
    let s₁ : State := { s' with
      stack := s'.stack.setIfInBounds (a.base + 4) (s'.read a.base), frames := .code a 3 :: outer }
    have hstep₁ : s'.step = .go s₁ := step_move ho.control ho.frames (by rw [hinstrs]; rfl)
    let s₂ : State := { s₁ with
      stack := s₁.stack.setIfInBounds (a.base + 5) (.string t.toBytes)
      frames := .code a 4 :: outer }
    have hstep₂ : s₁.step = .go s₂ :=
      @step_load s₁ a 3 outer 5 t.toBytes ho.control rfl (by rw [hinstrs]; rfl)
    have hcallee : s₂.read (a.base + 4) = .builtin (.emit s.nextRun) := by
      change (s₁.stack.setIfInBounds _ _).getD _ _ = _
      rw [getD_write (by rw [Array.size_setIfInBounds]; omega), if_neg (by omega),
        getD_write (by omega), if_pos rfl, ho.emit]
    have hargument : s₂.read (a.base + 4 + 1) = .string t.toBytes := by
      change (s₁.stack.setIfInBounds _ _).getD _ _ = _
      rw [getD_write (by rw [Array.size_setIfInBounds]; omega), if_pos rfl]
    have hruns : s₂.runs = (s.nextRun, []) :: s.runs := ho.runs
    obtain ⟨stack, top, hemit⟩ := @leads_emit s₂ a 4 outer s.nextRun t 4 ho.control rfl
      (by rw [hinstrs]; rfl) hcallee hargument (by rw [isRunning, hruns]; simp) ho.shower hlevel
      hplace
    refine ⟨_, _, 5, ((leads_step hstep₁).trans (leads_step hstep₂)).trans hemit, by decide, rfl,
      rfl, ?_, ?_⟩
    · rw [← ho.code, hinstrs]
      rfl
    · simp only [emitted, emit, hruns]
      simp

/-- A run of code that emits a text ends without an error, and the text is what it emitted. -/
theorem run_emits (hc : c.Emits t) (hs : Ready s) (scope : Json) :
    ∃ s', run c scope s = .done s' { output := t, error := none } := by
  obtain ⟨s₀, hbegin, hbegun⟩ := exists_begin hs.shower c scope
  obtain ⟨a, s₁, hopen, hopened⟩ := exists_opened hc hs hbegun
  obtain ⟨count, s₂, pc, hemit, hcount, hcontrol, hframes, hi, hemitted⟩ :=
    exists_emitted hc hs hopened
  rw [← hopened.code] at hi
  obtain ⟨s₃, hdone, hruns⟩ := exists_done hcontrol hframes hi
  obtain ⟨more, hmore⟩ : ∃ more, stepLimit = 3 + count + (more + 2) := by
    have hlimit : 11 ≤ stepLimit := by decide
    exact ⟨stepLimit - (3 + count) - 2, by omega⟩
  have houtput : s₃.emitted s.nextRun = t := by
    rw [← hemitted, emitted, emitted, hruns]
  refine ⟨s₃.endRun s.nextRun, ?_⟩
  rw [run, hbegin]
  simp only []
  rw [hmore, hopen.trans hemit, hdone, Run.bind, houtput]
  rfl

end Chunk

end Stencil.Lua
