/-
**Every step keeps the invariant.**

* `TrapInv.line`, `TrapInv.call`, `TrapInv.body`, `TrapInv.ret` — the code of a handler and its C
  function.
* `TrapInv.trapUser`, `TrapInv.trapKernel` — a trap puts its handler on a level of its own.
* `TrapInv.reEnter`, `TrapInv.process` — the ways back, and what they resume.
* `TrapInv.step`, `trapRun_inv` — the step and the run lemma.
-/

import WalOS.Trap.Invariant

namespace WalOS

open Bytes

variable {L : TrapLayout} {s s' s₀ : TrapState} {h : Handler} {rest : List Handler} {slot : Word}
  {m : Mem} {c : Cpu} {r : Regs}

/-! ### The instructions of a handler -/

/-- The bit of `IF` after `cli`, and behind an interrupt gate. -/
theorem cli_interrupts (eflags : Word) : (eflags &&& ~~~0x200).getLsbD 9 = false := by
  simp

theorem gate_interrupts (eflags : Word) : (eflags &&& ~~~Cpu.gateMask).getLsbD 9 = false := by
  simp [Cpu.gateMask]

theorem entry_lt (L : TrapLayout) (p : Fin totalTaskCnt) : L.sym.entry p + 72 < 2 ^ 32 := by
  have last := L.sym.entry_le p
  have fits := L.sym.fits
  unfold processSize at last
  omega

theorem irq_ne_sysCall {num : Fin 16} : TrapKind.irq num ≠ .sysCall := by simp

/-- **A handler goes on.** -/
theorem TrapInv.goOn (call : Option Regs) (value : Option Word) (inv : TrapInv L s)
    (under : s.handlers = h :: rest)
    (keeps : Keeps L (L.level s.current h rest).base s.cpu.mem c.mem)
    (cs : c.regs.cs = s.cpu.regs.cs) (ss : c.regs.ss = s.cpu.regs.ss)
    (depth : c.intReenter = s.cpu.intReenter)
    (doing : ∀ slot, Doing L (L.level s.current h rest) s.cpu.mem h slot s.cpu.regs →
      Doing L (L.level s.current h rest) c.mem { h with call := call, value := value } slot c.regs) :
    TrapInv L { s with cpu := c, handlers := { h with call := call, value := value } :: rest } := by
  have nested := inv.nested
  rw [under] at nested
  refine ⟨?_, nested.goOn keeps cs ss doing, fun p other => ?_, fun empty => absurd empty (by simp)⟩
  · have count := inv.depth
    rw [under] at count
    exact depth.trans count
  · obtain ⟨r, resumes, frame, mode, word⟩ := inv.parked p other
    exact ⟨r, resumes, frame.congr (fun x low high => keeps.regStacks p x ⟨low, by omega⟩)
      fun _ x low high => keeps.regStacks p x ⟨low, high⟩, mode, word⟩

/-- A push keeps the words above the stack pointer. -/
theorem load32_push {addr : ℕ} {value : Word} (room : 4 ≤ c.regs.esp) (above : c.regs.esp ≤ addr) :
    load32 (c.push value).mem addr = load32 c.mem addr :=
  load32_store32_off (Or.inr (by omega))

theorem keeps_push {value : Word} {low : ℕ} (deep : L.stackSpace + 4 ≤ c.regs.esp)
    (high : c.regs.esp ≤ L.stackTop) (below : c.regs.esp ≤ low) :
    Keeps L low c.mem (c.push value).mem := by
  have keeps : Keeps L (c.regs.esp - 4 + 4) c.mem (store32 c.mem (c.regs.esp - 4) value) :=
    keeps_store (by omega) (by omega)
  exact keeps.mono (by omega)

/-- A handler goes on from a line. -/
theorem TrapInv.lineTo {l : Line} (inv : TrapInv L s) (under : s.handlers = h :: rest)
    (here : s.cpu.regs.eip = L.code (.line l))
    (keeps : Keeps L (L.level s.current h rest).base s.cpu.mem c.mem)
    (cs : c.regs.cs = s.cpu.regs.cs) (ss : c.regs.ss = s.cpu.regs.ss)
    (depth : c.intReenter = s.cpu.intReenter)
    (doing : ∀ slot, l.kind = h.kind → h.call = none →
      load32 s.cpu.mem (L.level s.current h rest).base = L.code (L.level s.current h rest).exit →
      (L.level s.current h rest).AtLine s.cpu.mem h.toTrap slot s.cpu.regs l →
      Doing L (L.level s.current h rest) c.mem h slot c.regs) :
    TrapInv L { s with cpu := c, handlers := h :: rest } := by
  refine inv.goOn h.call h.value under keeps cs ss depth fun slot before => ?_
  obtain ⟨own, _, call, way, holds⟩ := before.at_line here (level_exit_ne_line l)
  exact doing slot own call way holds

/-- The line that stores the answer stores in the frame of the handler. -/
theorem TrapInv.storeEax_mem (input : BitVec 8) (inv : TrapInv L s) (under : s.handlers = h :: rest)
    (here : s.cpu.regs.eip = L.code (.line .storeEax)) : (s.cpu.run L input .storeEax).mem =
      store32 s.cpu.mem ((L.level s.current h rest).frame + Field.eax.offset) s.cpu.regs.eax := by
  obtain ⟨_, _, levels, slot, on⟩ := inv.innermost under
  obtain ⟨_, _, _, _, esi, _⟩ := on.doing.at_line here (level_exit_ne_line _)
  have stackFits := L.stackFits
  have entryFits := entry_lt L s.current
  have word : (L.level s.current h rest).frame < 2 ^ 32 := by
    by_cases empty : rest = []
    · subst empty
      simp only [TrapLayout.level]
      omega
    · obtain ⟨_, top, last⟩ := levels empty
      unfold TrapLayout.stackTop at last
      omega
  have target : s.cpu.regs.esi.toNat = (L.level s.current h rest).frame := by
    rw [esi, BitVec.toNat_ofNat, Nat.mod_eq_of_lt word]
  rw [← target]
  rfl

/-- The line that stores the answer of `int 0x90` keeps the invariant. -/
theorem TrapInv.storeEax {input : BitVec 8} (inv : TrapInv L s) (under : s.handlers = h :: rest)
    (here : s.cpu.regs.eip = L.code (.line .storeEax)) :
    TrapInv L { s with cpu := s.cpu.run L input .storeEax, handlers := h :: rest } := by
  have memory := inv.storeEax_mem input under here
  have nested := inv.nested
  rw [under] at nested
  obtain ⟨deep, high, levels⟩ := nested.bounds
  obtain ⟨⟨slot, on⟩, suspends, outer⟩ := nested
  obtain ⟨own, esp, call, way, _, value⟩ := on.doing.at_line here (level_exit_ne_line _)
  -- the store stays in the frame of the handler
  have onRegs (p : Fin totalTaskCnt) (other : p ≠ s.current ∨ rest ≠ []) {x : ℕ}
      (inside : L.OnRegs p x) : (s.cpu.run L input .storeEax).mem x = s.cpu.mem x := by
    rw [memory]
    refine store32_off ?_
    have off := onRegs_off_stack inside
    have last : Field.eax.offset = 44 := rfl
    by_cases empty : rest = []
    · subst empty
      have away := onRegs_ne (other.resolve_right fun nonempty => nonempty rfl) inside
      simp only [TrapLayout.level]
      omega
    · obtain ⟨bottom, top, below⟩ := levels empty
      omega
  have exit : load32 (s.cpu.run L input .storeEax).mem (L.level s.current h rest).base =
      L.code (L.level s.current h rest).exit := by
    rw [memory, load32_store32_off ?_, way]
    have last : Field.eax.offset = 44 := rfl
    by_cases empty : rest = []
    · subst empty
      have off := onRegs_off_stack (L := L) (p := s.current)
        (x := L.sym.entry s.current + 44) ⟨by omega, by omega⟩
      have off' := onRegs_off_stack (L := L) (p := s.current)
        (x := L.sym.entry s.current + 47) ⟨by omega, by omega⟩
      simp only [TrapLayout.level] at deep high ⊢
      omega
    · obtain ⟨bottom, _⟩ := levels empty
      omega
  refine ⟨?_, ⟨⟨s.cpu.regs.eax, ?_, fun irq => absurd own.symm irq, on.cs, on.ss, ?_⟩, suspends, ?_⟩,
    fun p other => ?_, fun empty => absurd empty (by simp)⟩
  · have count := inv.depth
    rw [under] at count
    exact count
  · rw [memory]
    exact on.frame.storeEax s.cpu.regs.eax
  · exact .line (l := .mask .sysCall) own rfl esp call exit value
  · by_cases empty : rest = []
    · subst empty
      exact outer
    · obtain ⟨bottom, top, below⟩ := levels empty
      refine outer.congr ⟨fun x low _ => ?_, fun p x inside => onRegs p (Or.inr empty) inside⟩
      rw [memory]
      refine store32_off (Or.inr ?_)
      have last : Field.eax.offset = 44 := rfl
      omega
  · obtain ⟨r, resumes, frame, mode, word⟩ := inv.parked p other
    exact ⟨r, resumes, frame.congr (fun x low last => onRegs p (Or.inl other) ⟨low, by omega⟩)
      fun _ x low last => onRegs p (Or.inl other) ⟨low, last⟩, mode, word⟩

/-- **An instruction of a handler keeps the invariant.** -/
theorem TrapInv.line {l : Line} (input : BitVec 8) (inv : TrapInv L s)
    (under : s.handlers = h :: rest) (here : s.cpu.regs.eip = L.code (.line l)) :
    TrapInv L { s with cpu := s.cpu.run L input l, handlers := h :: rest } := by
  obtain ⟨deep, high, levels, slot, on⟩ := inv.innermost under
  obtain ⟨-, esp, -⟩ := on.doing.at_line here (level_exit_ne_line l)
  have top (nonempty : (L.level s.current h rest).exit = .restartReEnter) :
      (L.level s.current h rest).base + 4 = (L.level s.current h rest).frame := by
    rw [level_exit] at nonempty
    exact (levels fun empty => by simp [empty] at nonempty).1.symm
  -- a push leaves the word for the way out and the pushed frame, both above it
  have push {addr : ℕ} {value : Word} (above : s.cpu.regs.esp ≤ addr) :
      load32 (s.cpu.push value).mem addr = load32 s.cpu.mem addr := by
    refine load32_push ?_ above
    cases l <;> simp only [Line.pushed] at esp <;> omega
  have keeps {value : Word} :
      Keeps L (L.level s.current h rest).base s.cpu.mem (s.cpu.push value).mem := by
    refine keeps_push ?_ (by omega) (by omega)
    cases l <;> simp only [Line.pushed] at esp <;> omega
  have same := Keeps.refl L (L.level s.current h rest).base s.cpu.mem
  cases l with
  | saved kind =>
    cases kind with
    | irq num =>
      exact inv.lineTo under here same rfl rfl rfl fun _ own call way _ =>
        .line (l := .pushNum num) own rfl esp call way trivial
    | sysCall =>
      exact inv.lineTo under here same rfl rfl rfl fun _ own call way holds =>
        .line (l := .pushFrame) own rfl esp call way holds.2
  | pushNum num =>
    exact inv.lineTo under here keeps rfl rfl rfl fun _ own call way _ =>
      .line (l := .loadNum num) own rfl (congrArg (· - 4) esp) call ((push esp.le).trans way) trivial
  | loadNum num =>
    exact inv.lineTo under here same rfl rfl rfl fun _ own call way _ =>
      .call (own ▸ rfl) (own ▸ esp) call way fun sys => absurd (own.trans sys) irq_ne_sysCall
  | popNum num =>
    refine inv.lineTo under here same rfl rfl rfl fun _ own call way _ =>
      .line (l := .mask (.irq num)) own rfl ?_ call way trivial
    show s.cpu.regs.esp + 4 = _ - 0
    simp only [Line.pushed] at esp
    omega
  | mask kind =>
    have out : load32 s.cpu.mem s.cpu.regs.esp = load32 s.cpu.mem (L.level s.current h rest).base :=
      congrArg _ esp
    cases kind with
    | irq num =>
      exact inv.lineTo under here same rfl rfl rfl fun _ own call way _ =>
        .leaving (out.trans way) (fun inner => (congrArg (· + 4) esp).trans (top inner)) call
          (cli_interrupts _) fun sys => absurd (own.trans sys) irq_ne_sysCall
    | sysCall =>
      exact inv.lineTo under here same rfl rfl rfl fun _ own call way holds =>
        .leaving (out.trans way) (fun inner => (congrArg (· + 4) esp).trans (top inner)) call
          (cli_interrupts _) fun _ => holds
  | pushFrame =>
    refine inv.lineTo under here keeps rfl rfl rfl fun _ own call way holds =>
      .line (l := .pushReady) own rfl (congrArg (· - 4) esp) call ((push esp.le).trans way) ?_
    have pushed : load32 (s.cpu.push s.cpu.regs.esi).mem (s.cpu.regs.esp - 4) = s.cpu.regs.esi :=
      load32_store32 _
    rw [esp] at pushed
    exact pushed.trans holds
  | pushReady =>
    simp only [Line.pushed] at esp
    exact inv.lineTo under here keeps rfl rfl rfl fun _ own call way holds =>
      .line (l := .pushEdx) own rfl (congrArg (· - 4) esp) call ((push (by omega)).trans way)
        ((push esp.le).trans holds)
  | pushEdx =>
    simp only [Line.pushed] at esp
    exact inv.lineTo under here keeps rfl rfl rfl fun _ own call way holds =>
      .line (l := .pushEcx) own rfl (congrArg (· - 4) esp) call ((push (by omega)).trans way)
        ((push (by omega)).trans holds)
  | pushEcx =>
    simp only [Line.pushed] at esp
    exact inv.lineTo under here keeps rfl rfl rfl fun _ own call way holds =>
      .line (l := .pushEbx) own rfl (congrArg (· - 4) esp) call ((push (by omega)).trans way)
        ((push (by omega)).trans holds)
  | pushEbx =>
    simp only [Line.pushed] at esp
    refine inv.lineTo under here keeps rfl rfl rfl fun _ own call way holds =>
      .call (own ▸ rfl) ?_ call ((push (by omega)).trans way) fun _ => (push (by omega)).trans holds
    rw [← own]
    exact congrArg (· - 4) esp
  | dropArgs =>
    refine inv.lineTo under here same rfl rfl rfl fun _ own call way holds =>
      .line (l := .popFrame) own rfl ?_ call way holds
    show s.cpu.regs.esp + 16 = _ - 4
    simp only [Line.pushed] at esp
    omega
  | popFrame =>
    refine inv.lineTo under here same rfl rfl rfl fun _ own call way holds =>
      .line (l := .storeEax) own rfl ?_ call way ⟨(congrArg _ esp).trans holds.1, holds.2⟩
    show s.cpu.regs.esp + 4 = _ - 0
    simp only [Line.pushed] at esp
    omega
  | storeEax => exact inv.storeEax under here

/-! ### C functions -/

/-- **The call of the C function keeps the invariant.** -/
theorem TrapInv.call {target : Word} (inv : TrapInv L s) (under : s.handlers = h :: rest)
    (here : s.cpu.regs.eip = L.code (.call h.kind)) (away : ∀ place, target ≠ L.code place) :
    TrapInv L { s with
      cpu := s.cpu.call L h.kind target
      handlers := { h with call := some (s.cpu.call L h.kind target).regs } :: rest } := by
  obtain ⟨deep, high, _, slot, on⟩ := inv.innermost under
  obtain ⟨esp, -⟩ := on.doing.at_call here (level_exit_ne_call _)
  have pushed : 4 ≤ h.kind.pushed ∧ h.kind.pushed ≤ 20 := by
    cases h.kind <;> simp [TrapKind.pushed]
  refine inv.goOn _ h.value under
    (keeps_push (by omega) (by omega) (by omega)) rfl rfl rfl fun slot before => ?_
  obtain ⟨_, way, framePushed⟩ := before.at_call here (level_exit_ne_call _)
  refine .body rfl away (congrArg (· - 4) esp) le_rfl (load32_store32 _) ?_ fun sys => ?_
  · exact (load32_push (by omega) (by omega)).trans way
  · exact (load32_push (by omega) (by omega)).trans (framePushed sys)

/-- **A step of the C function keeps the invariant.** -/
theorem TrapInv.body {called : Regs} (inv : TrapInv L s) (under : s.handlers = h :: rest)
    (runs : h.call = some called) (step : BodyStep L h.kind called s.cpu c) :
    TrapInv L { s with cpu := c, handlers := h :: rest } := by
  obtain ⟨deep, high, _, slot, on⟩ := inv.innermost under
  obtain ⟨entry, -⟩ := on.doing.in_body runs
  have pushed : 4 + 4 * h.kind.args ≤ h.kind.pushed + 4 ∧
      (h.kind = .sysCall → 4 + 4 * h.kind.args ≤ h.kind.pushed) ∧ h.kind.pushed ≤ 20 := by
    cases h.kind <;> simp [TrapKind.pushed, TrapKind.args]
  refine inv.goOn h.call h.value under
    ⟨fun x above inside => step.above x (by omega) inside, step.regStacks⟩ step.cs step.ss
    step.intReenter fun slot before => ?_
  obtain ⟨_, _, back, way, framePushed⟩ := before.in_body runs
  refine .body runs step.eip entry step.esp ?_ ?_ fun sys => ?_
  · rw [← back]
    exact load32_congr fun k _ => step.returned _ (by omega) (by omega)
  · rw [← way]
    exact load32_congr fun k _ => step.above _ (by omega) (by omega)
  · have args := pushed.2.1 sys
    refine Eq.trans ?_ (framePushed sys)
    exact load32_congr fun k _ => step.above _ (by omega) (by omega)

/-- **The return of the C function keeps the invariant.** -/
theorem TrapInv.ret {called : Regs} (inv : TrapInv L s) (under : s.handlers = h :: rest)
    (runs : h.call = some called) (esp : s.cpu.regs.esp = called.esp) :
    TrapInv L { s with
      cpu := s.cpu.ret
      handlers := { h with call := none, value := some s.cpu.regs.eax } :: rest } := by
  obtain ⟨deep, -⟩ := inv.innermost under
  refine inv.goOn _ _ under (.refl _ _ _) rfl rfl rfl fun slot before => ?_
  obtain ⟨entry, _, back, way, framePushed⟩ := before.in_body runs
  have eip : s.cpu.ret.regs.eip = L.code (.line h.kind.returned) := (congrArg _ esp).trans back
  have up : s.cpu.ret.regs.esp = s.cpu.regs.esp + 4 := rfl
  obtain ⟨⟨kind, interrupted, value⟩, call⟩ := h
  cases kind with
  | irq num =>
    refine .line (l := .popNum num) rfl eip ?_ rfl way trivial
    simp only [TrapKind.pushed, Line.pushed] at entry ⊢
    omega
  | sysCall =>
    refine .line (l := .dropArgs) rfl eip ?_ rfl way ⟨framePushed rfl, rfl⟩
    simp only [TrapKind.pushed, Line.pushed] at entry ⊢
    omega

/-- A change of the arithmetic flags keeps the invariant. -/
theorem TrapInv.flags {eflags : Word} (inv : TrapInv L s) (under : s.handlers = h :: rest)
    (same : eflags.getLsbD 9 = s.cpu.regs.interrupts) :
    TrapInv L { s with
      cpu := { s.cpu with regs := { s.cpu.regs with eflags := eflags } }, handlers := h :: rest } := by
  refine inv.goOn h.call h.value under (.refl _ _ _) rfl rfl rfl
    fun slot before => ?_
  cases before with
  | @line l own eip esp call way holds =>
    refine .line own eip esp call way ?_
    cases l with
    | saved kind =>
      cases kind with
      | irq num => exact same.trans holds
      | sysCall => exact ⟨same.trans holds.1, holds.2⟩
    | mask kind => cases kind <;> exact holds
    | _ => exact holds
  | call eip esp call way framePushed => exact .call eip esp call way framePushed
  | body call off esp below back way framePushed =>
    exact .body call off esp below back way framePushed
  | leaving eip esp call disabled answered =>
    exact .leaving eip esp call (same.trans disabled) answered

/-! ### Traps -/

/-- A trap with `_save` stores only in the frame and the word for the way back. -/
theorem trap_off {kind : TrapKind} {x : ℕ} (room : c.Room) (frame : x < c.frame ∨ c.frameEnd ≤ x)
    (base : x < c.exitBase L ∨ c.exitBase L + 4 ≤ x) : (c.trap.save L kind).mem x = c.mem x := by
  rw [save_trap]
  exact (store32_off base).trans (framed_off room frame)

/-- `_save` jumps back to the handler. -/
theorem save_eip (kind : TrapKind) (room : c.Room) (word : c.frame < 2 ^ 32)
    (apart : c.exitBase L + 4 ≤ c.frame ∨ c.frameEnd ≤ c.exitBase L) :
    (c.trap.save L kind).regs.eip = L.code (.line (.saved kind)) := by
  have size : c.frame + 64 ≤ c.frameEnd := by
    unfold Cpu.frameEnd
    split <;> omega
  have offset : Field.retAddr.offset = 48 := rfl
  rw [save_trap]
  show load32 (store32 _ _ _) _ = _
  rw [BitVec.toNat_ofNat, Nat.mod_eq_of_lt word, load32_store32_off (by omega)]
  exact framed_retAddr room

/-- **A trap puts the handler on its level.** -/
theorem trap_onLevel (kind : TrapKind) (room : c.Room) (word : c.frame < 2 ^ 32)
    (apart : c.exitBase L + 4 ≤ c.frame ∨ c.frameEnd ≤ c.exitBase L)
    (ss : c.trapSs = Cpu.kernelSs) :
    OnLevel L ⟨c.frame, c.exitBase L, c.exitPlace⟩ (c.trap.save L kind).mem
      ⟨⟨kind, c.regs, none⟩, none⟩ c.regs.eax (c.trap.save L kind).regs := by
  have size : c.frame + 64 ≤ c.frameEnd := by
    unfold Cpu.frameEnd
    split <;> omega
  have frame : Frame (store32 (c.framed L kind) (c.exitBase L) (L.code c.exitPlace)) c.frame c.regs := by
    refine (framed_frame room).congr (fun x low high => store32_off (by omega))
      fun user x low high => store32_off ?_
    have last : c.frameEnd = c.frame + 72 := if_pos user
    omega
  have eip := save_eip kind room word apart
  rw [save_trap] at eip ⊢
  refine ⟨frame, fun _ => rfl, rfl, ss, ?_⟩
  refine .line (l := .saved kind) rfl eip rfl rfl (load32_store32 _) ?_
  cases kind with
  | irq num => exact gate_interrupts _
  | sysCall => exact ⟨gate_interrupts _, rfl⟩

/-- What a trap of a process makes. -/
theorem TrapInv.trap_user (inv : TrapInv L s) (idle : s.handlers = []) :
    s.cpu.Room ∧ s.cpu.frame = L.sym.entry s.current ∧
      s.cpu.frameEnd = L.sym.entry s.current + 72 ∧ s.cpu.exitBase L = L.stackTop - 4 ∧
      s.cpu.exitPlace = .restartProcess := by
  have nested := inv.nested
  rw [idle] at nested
  obtain ⟨mode, _⟩ := nested
  obtain ⟨_, esp0⟩ := inv.user idle
  have outermost : s.cpu.intReenter + 1 = 0 := by
    rw [inv.depth, idle]
    rfl
  have room : s.cpu.Room := by
    unfold Cpu.Room
    rw [if_pos mode]
    omega
  have frame : s.cpu.frame = L.sym.entry s.current := by
    rw [Cpu.frame, Cpu.frameTop, if_pos mode]
    omega
  exact ⟨room, frame, by rw [Cpu.frameEnd, if_pos mode, frame], if_pos outermost, if_pos outermost⟩

/-- What a trap of a handler makes. -/
theorem TrapInv.trap_kernel {kind : TrapKind} (inv : TrapInv L s) (under : s.handlers = h :: rest)
    (may : MayTrap L s kind) :
    s.cpu.Room ∧ s.cpu.frame = s.cpu.regs.esp - 64 ∧ s.cpu.frameEnd = s.cpu.regs.esp ∧
      s.cpu.exitBase L = s.cpu.regs.esp - 68 ∧ s.cpu.exitPlace = .restartReEnter ∧
      L.stackSpace + 128 ≤ s.cpu.regs.esp ∧ s.cpu.regs.esp ≤ L.stackTop - 4 := by
  obtain ⟨_, high, _, slot, on⟩ := inv.innermost under
  have low := may.deep (by simp [under])
  have below : s.cpu.regs.esp ≤ (L.level s.current h rest).base := by
    refine on.doing.esp_le ?_
    by_cases sys : kind = .sysCall
    · exact Or.inr (may.coded sys h (by simp [under]))
    · exact Or.inl (may.enabled sys)
  have mode := kernel_not_user on.cs
  have inner : ¬ s.cpu.intReenter + 1 = 0 := by
    rw [inv.depth, under, List.length_cons]
    push_cast
    omega
  have room : s.cpu.Room := by
    unfold Cpu.Room
    rw [if_neg mode]
    omega
  have frame : s.cpu.frame = s.cpu.regs.esp - 64 := by rw [Cpu.frame, Cpu.frameTop, if_neg mode]
  refine ⟨room, frame, ?_, ?_, if_neg inner, low, by omega⟩
  · rw [Cpu.frameEnd, if_neg mode, frame]
    omega
  · rw [Cpu.exitBase, if_neg inner, frame]
    omega

/-- The frame of a trap and the word for the way back have no byte in common. -/
theorem TrapInv.trap_apart {kind : TrapKind} (inv : TrapInv L s)
    (may : s.handlers ≠ [] → MayTrap L s kind) : s.cpu.Room ∧ s.cpu.frame < 2 ^ 32 ∧
      (s.cpu.exitBase L + 4 ≤ s.cpu.frame ∨ s.cpu.frameEnd ≤ s.cpu.exitBase L) := by
  have stackFits := L.stackFits
  have deep : L.stackTop = L.stackSpace + 2048 := rfl
  cases under : s.handlers with
  | nil =>
    obtain ⟨room, frame, frameEnd, base, _⟩ := inv.trap_user under
    have fits := entry_lt L s.current
    have last := onRegs_off_stack (L := L) (p := s.current) (x := L.sym.entry s.current + 71)
      ⟨by omega, by omega⟩
    have first := onRegs_off_stack (L := L) (p := s.current) (x := L.sym.entry s.current)
      ⟨by omega, by omega⟩
    exact ⟨room, by omega, by omega⟩
  | cons h rest =>
    obtain ⟨room, frame, frameEnd, base, _, low, high⟩ := inv.trap_kernel under (may (by simp [under]))
    exact ⟨room, by omega, by omega⟩

theorem TrapInv.trap_eip {kind : TrapKind} (inv : TrapInv L s)
    (may : MayTrap L s kind) : (s.trap L kind).cpu.regs.eip = L.code (.line (.saved kind)) := by
  obtain ⟨room, word, apart⟩ := inv.trap_apart fun _ => may
  exact save_eip kind room word apart

/-- **A trap of a process keeps the invariant.** -/
theorem TrapInv.trapUser {kind : TrapKind} (inv : TrapInv L s) (idle : s.handlers = []) :
    TrapInv L { s with
      cpu := s.cpu.trap.save L kind, handlers := [⟨⟨kind, s.cpu.regs, none⟩, none⟩] } := by
  obtain ⟨_, frame, frameEnd, base, exit⟩ := inv.trap_user idle
  have may : s.handlers ≠ [] → MayTrap L s kind := fun busy => absurd idle busy
  obtain ⟨room, word, apart⟩ := inv.trap_apart may
  have nested := inv.nested
  rw [idle] at nested
  have ⟨mode, _⟩ := nested
  have deep : L.stackTop = L.stackSpace + 2048 := rfl
  have on := trap_onLevel (L := L) kind room word apart (if_pos mode)
  rw [frame, base, exit] at on
  refine ⟨?_, ⟨⟨_, on⟩, fun g member => by simp at member, nested⟩, fun p other => ?_,
    fun empty => absurd empty (by simp)⟩
  · rw [save_trap]
    show s.cpu.intReenter + 1 = _
    rw [inv.depth, idle]
    rfl
  · obtain ⟨r, resumes, held, mode, word⟩ := inv.parked p other
    have off {x : ℕ} (inside : L.OnRegs p x) :
        (s.cpu.trap.save L kind).mem x = s.cpu.mem x := by
      have stack := onRegs_off_stack inside
      refine trap_off room ?_ ?_
      · rw [frame, frameEnd]
        exact onRegs_ne other inside
      · rw [base]
        omega
    exact ⟨r, resumes, held.congr (fun x low high => off ⟨low, by omega⟩)
      fun _ x low high => off ⟨low, high⟩, mode, word⟩

/-- **A trap of a handler keeps the invariant.** -/
theorem TrapInv.trapKernel {kind : TrapKind} (inv : TrapInv L s) (under : s.handlers = h :: rest)
    (may : MayTrap L s kind) :
    TrapInv L { s with
      cpu := s.cpu.trap.save L kind
      handlers := ⟨⟨kind, s.cpu.regs, none⟩, none⟩ :: h :: rest } := by
  obtain ⟨_, frame, frameEnd, base, exit, low, high⟩ := inv.trap_kernel under may
  obtain ⟨room, word, apart⟩ := inv.trap_apart fun _ => may
  have nested := inv.nested
  rw [under] at nested
  have ⟨⟨slot, on⟩, _⟩ := nested
  have top : L.stackTop = L.stackSpace + 2048 := rfl
  have ss : s.cpu.trapSs = Cpu.kernelSs := (if_neg (kernel_not_user on.cs)).trans on.ss
  have level := trap_onLevel (L := L) kind room word apart ss
  rw [frame, base, exit] at level
  have keeps : Keeps L s.cpu.regs.esp s.cpu.mem (s.cpu.trap.save L kind).mem := by
    refine ⟨fun x above _ => ?_, fun p x inside => ?_⟩
    · exact trap_off room (Or.inr (by omega)) (Or.inr (by omega))
    · have off := onRegs_off_stack inside
      exact trap_off room (by omega) (by omega)
  refine ⟨?_, ⟨⟨_, level⟩, fun g member => ?_, nested.congr keeps⟩, fun p other => ?_,
    fun empty => absurd empty (by simp)⟩
  · rw [save_trap, List.length_cons, List.length_cons]
    show s.cpu.intReenter + 1 = _
    rw [inv.depth, under, List.length_cons]
    push_cast
    omega
  · obtain rfl : h = g := Option.some.inj member
    exact ⟨low, high, fun sys => may.coded sys h (by simp [under])⟩
  · obtain ⟨r, resumes, held, mode, word⟩ := inv.parked p other
    exact ⟨r, resumes, held.congr (fun x low high => keeps.regStacks p x ⟨low, by omega⟩)
      fun _ x low high => keeps.regStacks p x ⟨low, high⟩, mode, word⟩

/-! ### The way back -/

/-- The eax of a suspended handler matters only at a line, and `int 0x90` came from a C function. -/
theorem Doing.answer {v : Level} {eax : Word} (doing : Doing L v m h slot r) (runs : h.call ≠ none) :
    Doing L v m h slot { r with eax := eax } := by
  cases doing with
  | line _ _ _ call => exact absurd call runs
  | call _ _ call => exact absurd call runs
  | body call off esp below back way framePushed =>
    exact .body call off esp below back way framePushed
  | leaving _ _ call => exact absurd call runs

/-- What a handler on its way out resumes. -/
theorem OnLevel.resumes {v : Level} (on : OnLevel L v m h slot r)
    (answered : h.kind = .sysCall → h.value = some slot) :
    h.toTrap.Resumes { h.interrupted with eax := slot } := by
  have irq := on.irq
  obtain ⟨⟨kind, interrupted, value⟩, call⟩ := h
  cases kind with
  | irq num =>
    have same : slot = interrupted.eax := irq (by simp)
    show _ = interrupted
    rw [same]
  | sysCall => exact ⟨slot, answered rfl, rfl⟩

/-- **`restart_re_enter`** returns to the handler that was interrupted. -/
theorem TrapInv.reEnter (inv : TrapInv L s) (under : s.handlers = h :: rest)
    (here : s.cpu.regs.eip = L.code .restartReEnter) :
    rest ≠ [] ∧ h.toTrap.Resumes s.cpu.restartReEnter.regs ∧
      TrapInv L { s with cpu := s.cpu.restartReEnter, handlers := rest } := by
  have nested := inv.nested
  rw [under] at nested
  obtain ⟨_, _, levels⟩ := nested.bounds
  have kernel := nested.interrupted_kernel
  obtain ⟨⟨slot, on⟩, suspends, outer⟩ := nested
  obtain ⟨exit, esp, answered⟩ := on.doing.at_exit here (fun _ => by simp) (fun _ => by simp)
  have nonempty : rest ≠ [] := by
    rintro rfl
    exact absurd exit (by simp [TrapLayout.level])
  obtain ⟨_, top, _⟩ := levels nonempty
  obtain ⟨cs, ss⟩ := kernel nonempty
  have frame := on.frame
  rw [← esp exit] at frame
  have regs : s.cpu.restartReEnter.regs = { h.interrupted with eax := slot } :=
    restartReEnter_kernel frame (kernel_not_user cs) (by rw [esp exit]; exact top)
      (ss.trans on.ss.symm)
  obtain ⟨memory, _, depth, _⟩ := restartReEnter_rest s.cpu
  refine ⟨nonempty, regs ▸ on.resumes answered, ?_, ?_, fun p other => ?_,
    fun empty => absurd empty nonempty⟩
  · have count := inv.depth
    rw [under, List.length_cons] at count
    show s.cpu.restartReEnter.intReenter = _
    rw [depth, count]
    push_cast
    omega
  · show Nested L s.cpu.restartReEnter.mem s.current rest s.cpu.restartReEnter.regs
    rw [memory, regs]
    obtain ⟨g, rest, rfl⟩ := List.exists_cons_of_ne_nil nonempty
    obtain ⟨⟨slot', level⟩, suspends', outer'⟩ := outer
    refine ⟨⟨slot', level.frame, level.irq, level.cs, level.ss, ?_⟩, suspends', outer'⟩
    by_cases sys : h.kind = .sysCall
    · exact level.doing.answer ((suspends g rfl).coded sys)
    · rw [on.irq sys]
      exact level.doing
  · show Parked L s.cpu.restartReEnter.mem p (s.last p)
    rw [memory]
    exact inv.parked p other

/-- **`restart_process`** resumes the scheduled process. -/
theorem TrapInv.process (inv : TrapInv L s) (under : s.handlers = h :: rest)
    (here : s.cpu.regs.eip = L.code .restartProcess) :
    rest = [] ∧
      (Function.update s.last s.current h.toTrap s.cpu.processReady).Resumes
        (s.cpu.restartProcess L).regs ∧
      TrapInv L
        { cpu := s.cpu.restartProcess L, handlers := rest, current := s.cpu.processReady
          last := Function.update s.last s.current h.toTrap } := by
  have nested := inv.nested
  rw [under] at nested
  obtain ⟨⟨slot, on⟩, suspends, outer⟩ := nested
  obtain ⟨exit, _, answered⟩ := on.doing.at_exit here (fun _ => by simp) (fun _ => by simp)
  have empty : rest = [] := by
    by_contra nonempty
    rw [level_exit, if_neg nonempty] at exit
    exact absurd exit (by simp)
  subst empty
  obtain ⟨mode, word⟩ := outer
  have parked : ∀ p, Parked L s.cpu.mem p (Function.update s.last s.current h.toTrap p) := by
    intro p
    by_cases same : p = s.current
    · subst same
      rw [Function.update_self]
      exact ⟨_, on.resumes answered, on.frame, mode, word⟩
    · rw [Function.update_of_ne same]
      exact inv.parked p same
  obtain ⟨r, resumes, frame, user, word⟩ := parked s.cpu.processReady
  have regs : (s.cpu.restartProcess L).regs = r := by
    rw [Cpu.restartProcess]
    exact restartReEnter_user frame user word
  obtain ⟨memory, ready, depth, esp0⟩ : (s.cpu.restartProcess L).mem = s.cpu.mem ∧
      (s.cpu.restartProcess L).processReady = s.cpu.processReady ∧
      (s.cpu.restartProcess L).intReenter = s.cpu.intReenter - 1 ∧
      (s.cpu.restartProcess L).esp0 = L.sym.entry s.cpu.processReady + 72 :=
    restartReEnter_rest _
  refine ⟨rfl, regs ▸ resumes, ?_, ?_, fun p _ => ?_, fun _ => ⟨ready, esp0⟩⟩
  · have count := inv.depth
    rw [under] at count
    show (s.cpu.restartProcess L).intReenter = _
    rw [depth, count]
    rfl
  · show (s.cpu.restartProcess L).regs.UserMode ∧ (s.cpu.restartProcess L).regs.esp < 2 ^ 32
    rw [regs]
    exact ⟨user, word⟩
  · show Parked L (s.cpu.restartProcess L).mem p _
    rw [memory]
    exact parked p

/-! ### Runs -/

/-- A step of a process keeps the invariant. -/
theorem TrapInv.userStep (inv : TrapInv L s) (idle : s.handlers = []) (step : UserStep L s.cpu c) :
    TrapInv L { s with cpu := c } := by
  refine ⟨step.intReenter.trans inv.depth, ?_, fun p other => ?_, fun _ => ?_⟩
  · show Nested L c.mem s.current s.handlers c.regs
    rw [idle]
    exact ⟨step.mode, step.word⟩
  · obtain ⟨r, resumes, frame, mode, word⟩ := inv.parked p other
    exact ⟨r, resumes, frame.congr (fun x low high => step.regStacks p x ⟨low, by omega⟩)
      fun _ x low high => step.regStacks p x ⟨low, high⟩, mode, word⟩
  · obtain ⟨ready, esp0⟩ := inv.user idle
    exact ⟨step.processReady.trans ready, step.esp0.trans esp0⟩

theorem TrapCode.inv (inv : TrapInv L s) (step : TrapCode L s s') : TrapInv L s' := by
  cases step with
  | @trap kind may =>
    cases under : s.handlers with
    | nil => exact inv.trapUser under
    | cons h rest => exact inv.trapKernel under may
  | @line l input busy here =>
    obtain ⟨h, rest, under⟩ := List.exists_cons_of_ne_nil busy
    have next := inv.line input under here
    rwa [← under] at next
  | call under here away => exact inv.call under here away
  | restartProcess under here => exact (inv.process under here).2.2
  | restartReEnter under here => exact (inv.reEnter under here).2.2

/-- **The step lemma.** -/
theorem TrapInv.step (inv : TrapInv L s) (step : TrapStep L s s') : TrapInv L s' := by
  cases step with
  | code step => exact step.inv inv
  | user idle step => exact inv.userStep idle step
  | body under runs step =>
    have next := inv.body under runs step
    rwa [← under] at next
  | ret under runs esp => exact inv.ret under runs esp
  | flags busy same =>
    obtain ⟨h, rest, under⟩ := List.exists_cons_of_ne_nil busy
    have next := inv.flags under same
    rwa [← under] at next

theorem TrapStarted.inv (started : TrapStarted L s) : TrapInv L s := by
  have irq := started.irq s.current
  refine ⟨?_, ?_, fun p _ => ?_, fun idle => ?_⟩
  · rw [started.handlers, started.depth]
    rfl
  · rw [started.handlers]
    exact ⟨⟨_, started.frame s.current, fun _ => rfl, started.cs, started.ss,
      .leaving started.eip (fun inner => absurd inner (by simp [TrapLayout.level])) rfl
        started.disabled fun sys => absurd sys irq⟩, fun g member => by simp at member,
      started.mode s.current, started.word s.current⟩
  · refine ⟨_, ?_, started.frame p, started.mode p, started.word p⟩
    have irq := started.irq p
    unfold Trap.Resumes
    split
    · rfl
    · rename_i sys
      exact absurd sys irq
  · rw [started.handlers] at idle
    exact absurd idle (by simp)

/-- **The run lemma.** -/
theorem trapRun_inv (started : TrapStarted L s₀) (run : TrapRun L s₀ s) : TrapInv L s := by
  induction run with
  | refl => exact started.inv
  | tail _ step inv => exact inv.step step

end WalOS
