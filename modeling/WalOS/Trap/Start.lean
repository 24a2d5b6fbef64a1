/-
**The first process.**

`init_process_main` leaves in every entry the registers that its process starts with, and goes on to
`restart_process`.

* `initProcessMain_frame` — every entry is the frame of a process.
* `startState_started` — the runs of traps start where boot ends.
-/

import WalOS.Trap.Nesting
import WalOS.Boot.Start

namespace WalOS

open Bytes

/-- The registers that `restart_process` finds in an entry. -/
def Regs.ofFrame (m : Mem) (f : ℕ) : Regs where
  eax := load32 m (f + Field.eax.offset)
  ecx := load32 m (f + Field.ecx.offset)
  edx := load32 m (f + Field.edx.offset)
  ebx := load32 m (f + Field.ebx.offset)
  esp := (load32 m (f + Field.esp.offset)).toNat
  ebp := load32 m (f + Field.ebp.offset)
  esi := load32 m (f + Field.esi.offset)
  edi := load32 m (f + Field.edi.offset)
  eip := load32 m (f + Field.eip.offset)
  eflags := load32 m (f + Field.eflags.offset)
  cs := (load32 m (f + Field.cs.offset)).setWidth 16
  ss := (load32 m (f + Field.ss.offset)).setWidth 16
  ds := (load32 m (f + Field.ds.offset)).setWidth 16
  es := (load32 m (f + Field.es.offset)).setWidth 16
  fs := (load32 m (f + Field.fs.offset)).setWidth 16
  gs := (load32 m (f + Field.gs.offset)).setWidth 16

/-- The selectors, each in a word. -/
def selectorFields : List Field := [.gs, .fs, .es, .ds, .cs, .ss]

/-- A word that holds a selector. -/
def IsSelector (value : Word) : Prop := (value.setWidth 16).setWidth 32 = value

instance (value : Word) : Decidable (IsSelector value) := inferInstanceAs (Decidable (_ = _))

/-- `restart_process` in the state that boot leaves it with. Before its first trap a process counts
as interrupted with the registers of its entry. -/
def startState (L : TrapLayout) (c : Cpu) : TrapState :=
  let first (p : Fin totalTaskCnt) : Trap := ⟨.irq 0, Regs.ofFrame c.mem (L.sym.entry p), none⟩
  { cpu := c, handlers := [⟨first c.processReady, none⟩], current := c.processReady, last := first }

variable {L : TrapLayout} {sym : Symbols} {m : Mem} {f : ℕ} {c : Cpu}

theorem frame_ofFrame (narrow : ∀ field ∈ selectorFields, IsSelector (load32 m (f + field.offset))) :
    Frame m f (Regs.ofFrame m f) := by
  simp only [selectorFields, List.forall_mem_cons] at narrow
  obtain ⟨gs, fs, es, ds, cs, ss, -⟩ := narrow
  refine ⟨fun field member => ?_, fun _ field member => ?_⟩
  · simp only [trapFields, List.mem_cons, List.not_mem_nil, or_false] at member
    rcases member with rfl | rfl | rfl | rfl | rfl | rfl | rfl | rfl | rfl | rfl | rfl | rfl | rfl | rfl
    exacts [gs.symm, fs.symm, es.symm, ds.symm, rfl, rfl, rfl, rfl, rfl, rfl, rfl, rfl, cs.symm, rfl]
  · simp only [processFields, List.mem_cons, List.not_mem_nil, or_false] at member
    rcases member with rfl | rfl
    · simp [Regs.word, Regs.ofFrame]
    · exact ss.symm

/-- The selectors in an entry, and the ring of its process. -/
theorem initProcessMain_selectors (sym : Symbols) (m : Mem) (i : Fin totalTaskCnt) :
    (∀ field ∈ selectorFields, IsSelector (load32 (initProcessMain sym m) (sym.field i field))) ∧
      (load32 (initProcessMain sym m) (sym.field i .cs)).setWidth 16 &&& (3 : BitVec 16) ≠ 0 := by
  have selectors : ∀ i, IsSelector ((0 &&& saRplMask &&& saTiMask) ||| saTil ||| (ringOf i).rpl) ∧
      IsSelector ((8 &&& saRplMask &&& saTiMask) ||| saTil ||| (ringOf i).rpl) ∧
      IsSelector ((selectorKernelGs &&& saRplMask) ||| (ringOf i).rpl) ∧
      ((0 &&& saRplMask &&& saTiMask) ||| saTil ||| (ringOf i).rpl).setWidth 16 &&&
        (3 : BitVec 16) ≠ 0 := by
    decide
  obtain ⟨f, same⟩ := initProcessMain_words sym m i
  obtain ⟨code, segment, kernel, ring⟩ := selectors i
  have words := @initEntry_words sym i f
  simp only [List.forall_mem_cons] at words
  obtain ⟨_, cs, ⟨ds, es, fs, ss, -⟩, gs⟩ := words
  refine ⟨fun field member => ?_, ?_⟩
  · rw [same field (by revert field; decide)]
    simp only [selectorFields, List.mem_cons, List.not_mem_nil, or_false] at member
    rcases member with rfl | rfl | rfl | rfl | rfl | rfl
    exacts [gs ▸ kernel, fs ▸ segment, es ▸ segment, ds ▸ segment, cs ▸ code, ss ▸ segment]
  · rw [same .cs (by decide), cs]
    exact ring

/-- **Every entry that boot leaves is the frame of a process.** -/
theorem initProcessMain_frame (sym : Symbols) (m : Mem) (i : Fin totalTaskCnt) :
    let r := Regs.ofFrame (initProcessMain sym m) (sym.entry i)
    Frame (initProcessMain sym m) (sym.entry i) r ∧ r.UserMode ∧ r.esp < 2 ^ 32 := by
  obtain ⟨narrow, ring⟩ := initProcessMain_selectors sym m i
  exact ⟨frame_ofFrame narrow, ring, BitVec.isLt _⟩

/-- **Runs start where boot ends**: at `restart_process`, in the kernel, with interrupts disabled and
`int_reenter` 0. -/
theorem startState_started (mem : c.mem = initProcessMain L.sym m)
    (eip : c.regs.eip = L.code .restartProcess) (cs : c.regs.cs = Cpu.kernelCs)
    (ss : c.regs.ss = Cpu.kernelSs) (disabled : c.regs.interrupts = false)
    (depth : c.intReenter = 0) : TrapStarted L (startState L c) := by
  have entry := initProcessMain_frame L.sym m
  rw [← mem] at entry
  exact {
    handlers := rfl, eip := eip, cs := cs, ss := ss, disabled := disabled, depth := depth
    frame := fun p => (entry p).1
    mode := fun p => (entry p).2.1
    word := fun p => (entry p).2.2
    irq := fun _ => by simp [startState] }

/-! ### A layout -/

/-- The places of the code, in seven blocks of 16: one for each instruction of the gates, and one for
the rest. -/
def Place.index : Place → ℕ × Fin 16
  | .line (.saved (.irq num)) => (0, num)
  | .line (.pushNum num) => (1, num)
  | .line (.loadNum num) => (2, num)
  | .call (.irq num) => (3, num)
  | .line (.popNum num) => (4, num)
  | .line (.mask (.irq num)) => (5, num)
  | .restartProcess => (6, 0)
  | .restartReEnter => (6, 1)
  | .line (.saved .sysCall) => (6, 2)
  | .line .pushFrame => (6, 3)
  | .line .pushReady => (6, 4)
  | .line .pushEdx => (6, 5)
  | .line .pushEcx => (6, 6)
  | .line .pushEbx => (6, 7)
  | .call .sysCall => (6, 8)
  | .line .dropArgs => (6, 9)
  | .line .popFrame => (6, 10)
  | .line .storeEax => (6, 11)
  | .line (.mask .sysCall) => (6, 12)

def Place.ofIndex : ℕ × Fin 16 → Place
  | (0, num) => .line (.saved (.irq num))
  | (1, num) => .line (.pushNum num)
  | (2, num) => .line (.loadNum num)
  | (3, num) => .call (.irq num)
  | (4, num) => .line (.popNum num)
  | (5, num) => .line (.mask (.irq num))
  | (_, 0) => .restartProcess
  | (_, 1) => .restartReEnter
  | (_, 2) => .line (.saved .sysCall)
  | (_, 3) => .line .pushFrame
  | (_, 4) => .line .pushReady
  | (_, 5) => .line .pushEdx
  | (_, 6) => .line .pushEcx
  | (_, 7) => .line .pushEbx
  | (_, 8) => .call .sysCall
  | (_, 9) => .line .dropArgs
  | (_, 10) => .line .popFrame
  | (_, 11) => .line .storeEax
  | _ => .line (.mask .sysCall)

theorem Place.ofIndex_index : Function.LeftInverse Place.ofIndex Place.index := by
  intro place
  unfold Place.index
  split <;> rfl

theorem Place.index_le (place : Place) : place.index.1 ≤ 6 := by
  unfold Place.index
  split <;> simp

/-- The code of a kernel from `0x30400` on. -/
def kernelCode (place : Place) : Word :=
  BitVec.ofNat 32 (0x30400 + 16 * place.index.1 + place.index.2)

theorem kernelCode_injective : Function.Injective kernelCode := by
  intro place place' same
  refine Place.ofIndex_index.injective ?_
  have block := place.index_le
  have block' := place'.index_le
  have values := congrArg BitVec.toNat same
  simp only [kernelCode, BitVec.toNat_ofNat] at values
  refine Prod.ext ?_ (Fin.ext ?_) <;> omega

/-- The layout of that kernel, its stack behind its data. -/
def kernelLayout : TrapLayout where
  sym := kernelSymbols
  code := kernelCode
  code_injective := kernelCode_injective
  stackSpace := 0x3c000
  stackFits := by decide
  stackApart := by decide

/-- That kernel on zeroed RAM, at the end of `init_process_main`. -/
def kernelStart : TrapState :=
  startState kernelLayout {
    regs := {
      eax := 0, ecx := 0, edx := 0, ebx := 0, esp := kernelLayout.stackTop - 4, ebp := 0, esi := 0,
      edi := 0, eip := kernelCode .restartProcess, eflags := 2, cs := Cpu.kernelCs,
      ss := Cpu.kernelSs, ds := Cpu.kernelSs, es := Cpu.kernelSs, fs := Cpu.kernelSs, gs := 0x1b }
    mem := initProcessMain kernelSymbols fun _ => 0
    processReady := bootKernel.processReady
    intReenter := 0
    esp0 := 0
    ldtr := 0 }

theorem kernelStart_started : TrapStarted kernelLayout kernelStart :=
  startState_started rfl rfl rfl rfl rfl rfl

/-- The line of the clock. -/
def clockLine : Fin 16 := 0

/-- Its first process, and the first system call of this process. -/
def kernelFirst : TrapState :=
  { cpu := kernelStart.cpu.restartProcess kernelLayout, handlers := []
    current := kernelStart.current
    last := Function.update kernelStart.last kernelStart.current
      (kernelStart.last kernelStart.current) }

def kernelCall : TrapState :=
  { kernelFirst with
    cpu := kernelFirst.cpu.trap.save kernelLayout .sysCall
    handlers := [⟨⟨.sysCall, kernelFirst.cpu.regs, none⟩, none⟩] }

theorem kernelFirst_run : TrapRun kernelLayout kernelStart kernelFirst :=
  .single (.code (@TrapCode.restartProcess kernelLayout kernelStart
    ⟨kernelStart.last kernelStart.current, none⟩ [] rfl rfl))

theorem kernelFirst_mayTrap : MayTrap kernelLayout kernelFirst .sysCall :=
  ⟨fun other => absurd rfl other, fun _ h member => by simp [kernelFirst] at member,
    fun busy => absurd rfl busy⟩

theorem kernelCall_run : TrapRun kernelLayout kernelStart kernelCall :=
  kernelFirst_run.tail (.code (.trap kernelFirst_mayTrap))

end WalOS
