import Stencil.Lua.Chunk
import Stencil.Proofs.Text.Utf8
/-!
# Steps of the machine

What a step does where it goes well: calls that begin, instructions that move values, the emission of
a text, and the end of a run. The stack may become longer on the way, so a step says what lies on it
and not how long it is.
-/
namespace Stencil.Lua.State

/-! ## The stack -/

/-- A stack made long enough has on it what it had. -/
theorem exists_ensure (s : State) (size : Nat) : ∃ stack, s.ensure size = { s with stack } ∧
    size ≤ stack.size ∧ ∀ place, stack.getD place .nil = s.read place := by
  unfold ensure
  split
  · refine ⟨_, rfl, ?_, fun place => ?_⟩
    · simp only [Array.size_append, Array.size_replicate]
      omega
    · simp only [read, Array.getD_eq_getD_getElem?, Array.getElem?_append, Array.getElem?_replicate]
      split
      · rfl
      · rename_i h
        rw [Array.getElem?_eq_none (Nat.le_of_not_lt h)]
        split <;> rfl
  · rename_i h
    exact ⟨s.stack, rfl, Nat.le_of_not_lt h, fun _ => rfl⟩

theorem getD_write {stack : Array Value} {place : Nat} (h : place < stack.size) (v : Value)
    (other : Nat) : (stack.setIfInBounds place v).getD other .nil =
      if place = other then v else stack.getD other .nil := by
  simp only [Array.getD_eq_getD_getElem?, Array.getElem?_setIfInBounds]
  split
  · rename_i heq
    subst heq
    simp
  · rfl

/-- Values put at consecutive places are there afterwards. -/
theorem exists_writeAll (place : Nat) (values : List Value) (s : State)
    (hsize : place + values.length ≤ s.stack.size) :
    ∃ stack, s.writeAll place values = { s with stack } ∧
      (∀ before < place, stack.getD before .nil = s.read before) ∧
      ∀ i (h : i < values.length), stack.getD (place + i) .nil = values[i] := by
  induction values generalizing place s with
  | nil => exact ⟨s.stack, rfl, fun _ _ => rfl, by simp⟩
  | cons v values ih =>
      rw [List.length_cons] at hsize
      have hplace : place < s.stack.size := by omega
      obtain ⟨stack, hwrite, hbefore, hwritten⟩ := ih (place + 1) (s.write place v)
        (by simp only [write, Array.size_setIfInBounds]; omega)
      have hkept (before : Nat) (h : before ≤ place) :
          stack.getD before .nil = if place = before then v else s.read before := by
        rw [hbefore before (by omega), State.read, write, getD_write hplace]
        rfl
      refine ⟨stack, hwrite, fun before hlt => ?_, fun i hi => ?_⟩
      · rw [hkept before (Nat.le_of_lt hlt), if_neg (by omega)]
      · cases i with
        | zero =>
            rw [Nat.add_zero, hkept place (Nat.le_refl place), if_pos rfl]
            rfl
        | succ i =>
            have hnext := hwritten i (by simpa using hi)
            rwa [Nat.add_assoc, Nat.add_comm 1 i] at hnext

/-- Values copied one by one to places behind them are there afterwards. -/
theorem exists_copy (s : State) (source dest count : Nat) (hsize : dest + count ≤ s.stack.size)
    (hapart : source + count ≤ dest) :
    ∃ stack, (List.range count).foldl (fun (s : State) i =>
        s.write (dest + i) (s.read (source + i))) s = { s with stack } ∧
      stack.size = s.stack.size ∧ (∀ i < count, stack.getD (dest + i) .nil = s.read (source + i)) ∧
      ∀ before < dest, stack.getD before .nil = s.read before := by
  induction count with
  | zero => exact ⟨s.stack, rfl, rfl, by simp, fun _ _ => rfl⟩
  | succ count ih =>
      obtain ⟨stack, hfold, hstack, hcopied, hbefore⟩ := ih (by omega) (by omega)
      refine ⟨stack.setIfInBounds (dest + count) (stack.getD (source + count) .nil),
        ?_, ?_, fun i hi => ?_, fun before hlt => ?_⟩
      · rw [List.range_succ, List.foldl_append, hfold]
        rfl
      · rw [Array.size_setIfInBounds, hstack]
      · rw [getD_write (by omega)]
        split
        · obtain rfl : count = i := by omega
          exact hbefore _ (by omega)
        · exact hcopied i (by omega)
      · rw [getD_write (by omega), if_neg (by omega)]
        exact hbefore before hlt

/-! ## Steps -/

/-- So many steps lead from a state to another. -/
def Leads (count : Nat) (s s' : State) : Prop := ∀ more, s.drive (count + more) = s'.drive more

theorem Leads.trans {count count' : Nat} {s s' s'' : State} (h : Leads count s s')
    (h' : Leads count' s' s'') : Leads (count + count') s s'' := by
  intro more
  rw [Nat.add_assoc, h, h']

theorem leads_step {s s' : State} (h : s.step = .go s') : Leads 1 s s' := by
  intro more
  rw [Nat.add_comm, drive, h]

/-- A step of a function at work executes its next instruction. -/
theorem step_instr {s : State} {a : Activation} {pc : Nat} {frames : List Frame} {i : Instr}
    (hcontrol : s.control = .run) (hframes : s.frames = .code a pc :: frames)
    (hi : a.closure.code.instrs[pc]? = some i) :
    s.step = { s with frames := .code a (pc + 1) :: frames }.execute a pc i := by
  obtain ⟨hpc, hget⟩ := Array.getElem?_eq_some_iff.mp hi
  rw [step, hcontrol]
  simp only [hframes]
  rw [dif_pos hpc, hget]

section Instructions

variable {s : State} {a : Activation} {pc : Nat} {frames : List Frame}

/-- A function that takes no parameters begins its work behind its arguments. -/
theorem step_enter {place count level callee : Nat} {f : Closure}
    (hcontrol : s.control = .call place count none level) (hlevel : level < levelLimit)
    (hcallee : s.read place = .closure callee) (hf : s.closures.getD callee default = f)
    (hparams : f.code.params = 0) (hplace : place + 1 + count + f.code.size ≤ stackLimit) :
    ∃ stack, s.step = .go { s with
        stack, top := place + 1 + count, control := .run
        frames := .code ⟨f, place + 1, ⟨place, none⟩, 0, level⟩ 0 :: s.frames } ∧
      ∀ other, stack.getD other .nil = s.read other := by
  obtain ⟨stack, hensure, -, hreads⟩ :=
    { s with control := .run }.exists_ensure (place + 1 + count + f.code.size)
  refine ⟨stack, ?_, hreads⟩
  have hread : { s with control := .run }.read place = .closure callee := hcallee
  have hclosure : ({ s with control := .run } : State).closures.getD callee default = f := hf
  rw [step, hcontrol]
  dsimp only
  rw [callNested, if_neg (Nat.not_le_of_lt hlevel), call, hread]
  dsimp only
  rw [hclosure, enter, if_neg (Nat.not_lt_of_le hplace), hensure, hparams, Nat.zero_sub]
  simp only [clear]
  rw [Nat.add_zero, Nat.max_eq_left (Nat.le_add_right _ _)]

/-- Further arguments are set apart by having the registers begin behind them. -/
theorem step_separate (hcontrol : s.control = .run) (hframes : s.frames = .code a pc :: frames)
    (hi : a.closure.code.instrs[pc]? = some (.separate 0))
    (htop : s.top + a.closure.code.size + 1 ≤ stackLimit) :
    ∃ stack, s.step = .go { s with
        stack
        frames := .code { a with base := s.top + 1, extra := s.top - a.base } (pc + 1) :: frames } ∧
      s.top + 1 + a.closure.code.size ≤ stack.size ∧
      ∀ other, stack.getD other .nil = s.read other := by
  obtain ⟨stack, hensure, hsize, hreads⟩ :=
    { s with frames := .code a (pc + 1) :: frames }.exists_ensure (s.top + 1 + a.closure.code.size)
  refine ⟨stack, ?_, hsize, hreads⟩
  rw [step_instr hcontrol hframes hi, execute, separate, if_neg (Nat.not_lt_of_le htop)]
  simp only [hensure, List.range_zero, List.foldl_nil, Nat.sub_zero]

/-- The first further arguments are put into registers. -/
theorem step_varargs {dest count : Nat} (hcontrol : s.control = .run)
    (hframes : s.frames = .code a pc :: frames)
    (hi : a.closure.code.instrs[pc]? = some (.varargs dest (some count))) (hextra : count ≤ a.extra)
    (hbase : a.extra < a.base) (hsize : a.base + dest + count ≤ s.stack.size) :
    ∃ stack, s.step = .go { s with stack, frames := .code a (pc + 1) :: frames } ∧
      stack.size = s.stack.size ∧
      ∀ i < count, stack.getD (a.base + dest + i) .nil = s.read (a.base - 1 - a.extra + i) := by
  obtain ⟨stack, hcopy, hstack, hcopied, -⟩ := exists_copy
    { s with frames := .code a (pc + 1) :: frames } (a.base - 1 - a.extra) (a.base + dest) count hsize
    (by omega)
  refine ⟨stack, ?_, hstack, hcopied⟩
  rw [step_instr hcontrol hframes hi, execute, spread]
  dsimp only
  rw [Nat.min_eq_left hextra, hcopy, Nat.sub_eq_zero_of_le hextra]
  rfl

theorem step_move {dest source : Nat} (hcontrol : s.control = .run)
    (hframes : s.frames = .code a pc :: frames)
    (hi : a.closure.code.instrs[pc]? = some (.move dest source)) :
    s.step = .go { s with
      stack := s.stack.setIfInBounds (a.base + dest) (s.read (a.base + source))
      frames := .code a (pc + 1) :: frames } := by
  rw [step_instr hcontrol hframes hi]
  rfl

theorem step_load {dest : Nat} {bytes : Bytes} (hcontrol : s.control = .run)
    (hframes : s.frames = .code a pc :: frames)
    (hi : a.closure.code.instrs[pc]? = some (.load dest (.string bytes))) :
    s.step = .go { s with
      stack := s.stack.setIfInBounds (a.base + dest) (.string bytes)
      frames := .code a (pc + 1) :: frames } := by
  rw [step_instr hcontrol hframes hi]
  rfl

/-! ## The end of a run -/

theorem exists_detachFrom (s : State) (place : Nat) :
    ∃ cells inScope, s.detachFrom place = { s with cells, inScope } := by
  suffices h : ∀ (l : List (Nat × Nat)) (s : State), ∃ cells inScope,
      detachFrom.go place l s = { s with cells, inScope } from h s.inScope s
  intro l
  induction l with
  | nil => exact fun s => ⟨s.cells, [], rfl⟩
  | cons entry l ih =>
      intro s
      rw [detachFrom.go]
      split
      · exact ih _
      · exact ⟨s.cells, _, rfl⟩

/-- A function that was called from outside gives nothing back. -/
theorem step_giveBack {first place level : Nat} (hcontrol : s.control = .run)
    (hframes : s.frames = .code a pc :: .entry place level :: frames)
    (hi : a.closure.code.instrs[pc]? = some (.giveBack first (some 0))) :
    ∃ cells inScope, s.step = .go { s with
      cells, inScope, frames := .entry place level :: frames, control := .back [] a.landing } := by
  obtain ⟨cells, inScope, hdetach⟩ :=
    { s with frames := .code a (pc + 1) :: .entry place level :: frames }.exists_detachFrom a.base
  rw [step_instr hcontrol hframes hi, execute, leave, hdetach]
  cases hscope : s.inScope.isEmpty with
  | true => exact ⟨s.cells, s.inScope, by simp only [if_true]; rfl⟩
  | false => exact ⟨cells, inScope, by simp only [Bool.false_eq_true, if_false]; rfl⟩

/-- A run whose chunk came back is over. -/
theorem drive_entry {place level : Nat} {values : List Value} {landing : Landing}
    (hcontrol : s.control = .back values landing) (hframes : s.frames = .entry place level :: frames)
    (more : Nat) : s.drive (more + 1) = .done ({ s with frames }.detachFrom place) none := by
  have hback : s.step = s.handBack values landing := by rw [step, hcontrol]
  have hstop : s.handBack values landing = .stop ({ s with frames }.detachFrom place) none := by
    rw [handBack, hframes]
  rw [drive, hback, hstop]

/-- So a run ends where its chunk gives nothing back, and no run has emitted more by that. -/
theorem exists_done {first place level : Nat} (hcontrol : s.control = .run)
    (hframes : s.frames = .code a pc :: .entry place level :: frames)
    (hi : a.closure.code.instrs[pc]? = some (.giveBack first (some 0))) :
    ∃ s', (∀ more, s.drive (more + 2) = .done s' none) ∧ s'.runs = s.runs := by
  obtain ⟨cells, inScope, hback⟩ := step_giveBack hcontrol hframes hi
  let s₁ : State := { s with
    cells, inScope, frames := .entry place level :: frames, control := .back [] a.landing }
  obtain ⟨cells', inScope', hdetach⟩ := { s₁ with frames }.exists_detachFrom place
  refine ⟨{ s₁ with frames }.detachFrom place, fun more => ?_, ?_⟩
  · rw [drive, hback]
    exact drive_entry (s := s₁) rfl rfl more
  · rw [hdetach]

/-! ## Emitting a text -/

section Emission

variable {place level run : Nat} {landing : Landing} {bytes : Bytes} {t : Text}

theorem enterBuiltin_emit {count : Nat} (hplace : place + 1 + count + outsideRoom ≤ stackLimit) :
    s.enterBuiltin (.emit run) count landing level place =
      { s with top := place + 1 + count }.beginEmit run (s.readAll (place + 1) count) landing level := by
  rw [enterBuiltin, if_neg (Nat.not_lt_of_le hplace)]
  rfl

theorem enterBuiltin_tostring {count : Nat}
    (hplace : place + 1 + count + outsideRoom ≤ stackLimit) :
    s.enterBuiltin .tostring count landing level place =
      { s with top := place + 1 + count }.runBuiltin .tostring (s.readAll (place + 1) count)
        landing := by
  rw [enterBuiltin, if_neg (Nat.not_lt_of_le hplace)]
  rfl

theorem beginEmit_standard (hrun : s.isRunning run = true)
    (hshower : s.global "tostring" = .builtin .tostring) (args : List Value) :
    s.beginEmit run args landing level =
      s.emitNext landing level run (.builtin .tostring) args := by
  rw [beginEmit, hrun, hshower]
  rfl

/-- The function that shows values is called with the next value, behind everything else. -/
theorem exists_emitNext (s : State) (landing : Landing) (level run : Nat) (shower v : Value)
    (rest : List Value) : ∃ stack, s.emitNext landing level run shower (v :: rest) = .go { s with
        stack, frames := .emit landing level run shower rest :: s.frames
        control := .call s.top 1 none (level + 1) } ∧
      stack.getD s.top .nil = shower ∧ stack.getD (s.top + 1) .nil = v := by
  obtain ⟨stack, hensure, hsize, -⟩ := s.exists_ensure (s.top + 2)
  refine ⟨(stack.setIfInBounds s.top shower).setIfInBounds (s.top + 1) v, ?_, ?_, ?_⟩
  · rw [emitNext]
    simp only [hensure]
    rfl
  · rw [getD_write (by rw [Array.size_setIfInBounds]; omega), if_neg (by omega),
      getD_write (by omega), if_pos rfl]
  · rw [getD_write (by rw [Array.size_setIfInBounds]; omega), if_pos rfl]

/-- A call that emits a string begins with showing it. -/
theorem step_emit {callee : Nat} (hcontrol : s.control = .run)
    (hframes : s.frames = .code a pc :: frames)
    (hi : a.closure.code.instrs[pc]? = some (.call callee (some 1) (some 0)))
    (hcallee : s.read (a.base + callee) = .builtin (.emit run))
    (hargument : s.read (a.base + callee + 1) = .string bytes) (hrun : s.isRunning run = true)
    (hshower : s.global "tostring" = .builtin .tostring)
    (hplace : a.base + callee + 22 ≤ stackLimit) :
    ∃ stack, s.step = .go { s with
        stack, top := a.base + callee + 2
        frames := .emit ⟨a.base + callee, some 0⟩ a.level run (.builtin .tostring) [] ::
          .code a (pc + 1) :: frames
        control := .call (a.base + callee + 2) 1 none (a.level + 1) } ∧
      stack.getD (a.base + callee + 2) .nil = .builtin .tostring ∧
      stack.getD (a.base + callee + 3) .nil = .string bytes := by
  obtain ⟨stack, hnext, hshown⟩ := { s with
    frames := .code a (pc + 1) :: frames, top := a.base + callee + 2 }.exists_emitNext
      ⟨a.base + callee, some 0⟩ a.level run (.builtin .tostring) (.string bytes) []
  refine ⟨stack, ?_, hshown⟩
  have hread : { s with frames := .code a (pc + 1) :: frames }.read (a.base + callee) =
      .builtin (.emit run) := hcallee
  have harguments : { s with frames := .code a (pc + 1) :: frames }.readAll (a.base + callee + 1) 1 =
      [.string bytes] := congrArg ([·]) hargument
  rw [step_instr hcontrol hframes hi, execute, call, hread]
  simp only [Option.getD_some]
  rw [enterBuiltin_emit hplace, harguments]
  refine (beginEmit_standard ?_ ?_ _).trans hnext
  · exact hrun
  · exact hshower

/-- The function that shows values gives a string back as it is. -/
theorem step_tostring {outer : Nat} {shower : Value} {rest : List Value}
    (hcontrol : s.control = .call place 1 none level) (hlevel : level < levelLimit)
    (hframes : s.frames = .emit landing outer run shower rest :: frames)
    (hcallee : s.read place = .builtin .tostring) (hargument : s.read (place + 1) = .string bytes)
    (hplace : place + 22 ≤ stackLimit) :
    s.step = .go { s with top := place + 2, control := .back [.string bytes] ⟨place, none⟩ } := by
  have hread : { s with control := .run }.read place = .builtin .tostring := hcallee
  have harguments : { s with control := .run }.readAll (place + 1) 1 = [.string bytes] :=
    congrArg ([·]) hargument
  have hcall : s.step = { s with control := .run }.callNested place 1 none level := by
    rw [step, hcontrol]
  have hresults (s : State) : s.runBuiltin .tostring [.string bytes] ⟨place, none⟩ =
      s.giveBack [.string bytes] ⟨place, none⟩ := rfl
  rw [hcall, callNested, if_neg (Nat.not_le_of_lt hlevel), call, hread]
  simp only []
  rw [enterBuiltin_tostring hplace, harguments, hresults, giveBack]
  simp only [hframes]

private theorem exists_giveBack (hframes : s.frames = .code a pc :: frames) (place : Nat) :
    ∃ stack, s.giveBack [] ⟨place, some 0⟩ = .go { s with stack, control := .run } := by
  obtain ⟨stack, hensure, -, -⟩ := s.exists_ensure place
  refine ⟨stack, ?_⟩
  have hland : s.land [] ⟨place, some 0⟩ = s.ensure place := rfl
  rw [giveBack]
  simp only [hland, hensure, hframes]

/-- A text that was shown is emitted, and its call gives nothing back. -/
theorem step_emitted {shown : Landing} {shower : Value}
    (hcontrol : s.control = .back [.string t.toBytes] shown)
    (hframes : s.frames = .emit ⟨place, some 0⟩ level run shower [] :: .code a pc :: frames) :
    ∃ stack, s.step = .go { s.emit run t with
      stack, frames := .code a pc :: frames, control := .run } := by
  have htext : (firstOf [.string t.toBytes]).toText = .ok t := by
    simp only [firstOf, List.headD_cons, Value.toText, Value.toBytes?, Bytes.toText?_toBytes]
  have hback : s.step = s.handBack [.string t.toBytes] shown := by rw [step, hcontrol]
  obtain ⟨stack, hgive⟩ := @exists_giveBack ({ s with frames := .code a pc :: frames }.emit run t)
    a pc frames rfl place
  refine ⟨stack, ?_⟩
  rw [hback, handBack, hframes]
  simp only [htext]
  exact hgive

/-- A call that emits a text does so in three steps, and goes on with the next instruction. -/
theorem leads_emit {callee : Nat} (hcontrol : s.control = .run)
    (hframes : s.frames = .code a pc :: frames)
    (hi : a.closure.code.instrs[pc]? = some (.call callee (some 1) (some 0)))
    (hcallee : s.read (a.base + callee) = .builtin (.emit run))
    (hargument : s.read (a.base + callee + 1) = .string t.toBytes) (hrun : s.isRunning run = true)
    (hshower : s.global "tostring" = .builtin .tostring) (hlevel : a.level + 1 < levelLimit)
    (hplace : a.base + callee + 24 ≤ stackLimit) :
    ∃ stack top, Leads 3 s { s.emit run t with
      stack, top, frames := .code a (pc + 1) :: frames, control := .run } := by
  obtain ⟨stack₁, hstep₁, hshower₁, hargument₁⟩ := step_emit hcontrol hframes hi hcallee hargument
    hrun hshower (Nat.le_trans (Nat.add_le_add_left (by decide) _) hplace)
  let s₁ : State := { s with
    stack := stack₁, top := a.base + callee + 2
    frames := .emit ⟨a.base + callee, some 0⟩ a.level run (.builtin .tostring) [] ::
      .code a (pc + 1) :: frames
    control := .call (a.base + callee + 2) 1 none (a.level + 1) }
  have hstep₂ := step_tostring (s := s₁) rfl hlevel rfl hshower₁ hargument₁ hplace
  obtain ⟨stack₃, hstep₃⟩ := step_emitted (t := t) (s := { s₁ with
    top := a.base + callee + 4
    control := .back [.string t.toBytes] ⟨a.base + callee + 2, none⟩ }) rfl rfl
  exact ⟨stack₃, _, ((leads_step hstep₁).trans (leads_step hstep₂)).trans (leads_step hstep₃)⟩

end Emission

end Instructions

end Stencil.Lua.State
