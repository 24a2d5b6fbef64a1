/-
**The processor, and the code that saves and restores it** (`interrupt.s`).

A trap pushes part of the registers, `_save` the rest: on the `REG_STACK` of the process that was
running, or on the kernel stack when a handler was. `restart_process` and `restart_re_enter` load them
again. The code of the handlers between the two is a list of places (`Place`), so that a trap can come
between any two instructions while interrupts are enabled.

* Addresses and `esp` are numbers: the kernel stack never wraps around. Words are 32 bits.
* `process_ready` is the index of its entry. It, `int_reenter`, `tss.esp0` and `LDTR` are kept apart
  from memory.
* Of the ports only what `in` leaves in `al` is modelled, and the gates of master and slave, which
  differ in ports only, are one.
-/

import WalOS.Lib.Bytes
import WalOS.Kernel.Layout

namespace WalOS

open Bytes

/-! ### The processor -/

abbrev Word := BitVec 32

structure Regs where
  eax : Word
  ecx : Word
  edx : Word
  ebx : Word
  esp : ℕ
  ebp : Word
  esi : Word
  edi : Word
  eip : Word
  eflags : Word
  cs : BitVec 16
  ss : BitVec 16
  ds : BitVec 16
  es : BitVec 16
  fs : BitVec 16
  gs : BitVec 16

/-- The privilege level in `cs` is not 0: a process runs. -/
def Regs.UserMode (r : Regs) : Prop := r.cs &&& 3 ≠ 0

instance (r : Regs) : Decidable r.UserMode := by
  unfold Regs.UserMode
  infer_instance

/-- `IF`, bit 9: interrupts are enabled. -/
def Regs.interrupts (r : Regs) : Bool := r.eflags.getLsbD 9

structure Cpu where
  regs : Regs
  mem : Mem
  processReady : Fin totalTaskCnt
  intReenter : Int
  esp0 : ℕ
  ldtr : BitVec 16

namespace Cpu

def push (c : Cpu) (value : Word) : Cpu :=
  { c with regs := { c.regs with esp := c.regs.esp - 4 }, mem := store32 c.mem (c.regs.esp - 4) value }

/-- `push` of a segment register. -/
def pushSeg (c : Cpu) (selector : BitVec 16) : Cpu := c.push (selector.setWidth 32)

/-- The word on top of the stack. -/
def top (c : Cpu) : Word := load32 c.mem c.regs.esp

/-- `esp` up by some bytes. -/
def drop (c : Cpu) (bytes : ℕ) : Cpu := { c with regs := { c.regs with esp := c.regs.esp + bytes } }

def goto (c : Cpu) (target : Word) : Cpu := { c with regs := { c.regs with eip := target } }

def sti (c : Cpu) : Cpu := { c with regs := { c.regs with eflags := c.regs.eflags ||| 0x200 } }
def cli (c : Cpu) : Cpu := { c with regs := { c.regs with eflags := c.regs.eflags &&& ~~~0x200 } }

def setAl (c : Cpu) (al : BitVec 8) : Cpu :=
  { c with regs := { c.regs with eax := (c.regs.eax &&& ~~~0xff) ||| al.setWidth 32 } }

def ret (c : Cpu) : Cpu := (c.drop 4).goto c.top

/-- `pushal`. -/
def pushal (c : Cpu) : Cpu :=
  let r := c.regs
  (((((((c.push r.eax).push r.ecx).push r.edx).push r.ebx).push (BitVec.ofNat 32 r.esp)).push
    r.ebp).push r.esi).push r.edi

/-- `popal`; it skips the pushed `esp`. -/
def popal (c : Cpu) : Cpu :=
  let sp := c.regs.esp
  { c with regs := { c.regs with
      edi := load32 c.mem sp, esi := load32 c.mem (sp + 4), ebp := load32 c.mem (sp + 8),
      ebx := load32 c.mem (sp + 16), edx := load32 c.mem (sp + 20), ecx := load32 c.mem (sp + 24),
      eax := load32 c.mem (sp + 28), esp := sp + 32 } }

/-- What an interrupt gate clears in `eflags`: `TF`, `IF`, `NT`, `RF` and `VM`. -/
def gateMask : Word := 0x34300

/-- `SELECTOR_KERNEL_CS`, and `tss.ss0`, which is `SELECTOR_KERNEL_DS`. -/
def kernelCs : BitVec 16 := 0x08
def kernelSs : BitVec 16 := 0x10

/-- What the processor does on a trap: from a process it goes over to the stack at `tss.esp0`. -/
def trap (c : Cpu) : Cpu :=
  let r := c.regs
  let c :=
    if r.UserMode then
      ({ c with regs := { r with ss := kernelSs, esp := c.esp0 } }.pushSeg r.ss).push
        (BitVec.ofNat 32 r.esp)
    else c
  let c := ((c.push r.eflags).pushSeg r.cs).push r.eip
  { c with regs := { c.regs with cs := kernelCs, eflags := r.eflags &&& ~~~gateMask } }

/-- `iretl`: to a process it also loads `esp` and `ss`. -/
def iretl (c : Cpu) : Cpu :=
  let m := c.mem
  let sp := c.regs.esp
  let c := { c with regs := { c.regs with
    eip := load32 m sp, cs := (load32 m (sp + 4)).setWidth 16, eflags := load32 m (sp + 8),
    esp := sp + 12 } }
  if c.regs.UserMode then
    { c with regs := { c.regs with
        esp := (load32 m (sp + 12)).toNat, ss := (load32 m (sp + 16)).setWidth 16 } }
  else c

end Cpu

/-! ### The code -/

/-- What traps: an interrupt request of the controllers, or `int 0x90`. -/
inductive TrapKind where
  | irq (num : Fin 16)
  | sysCall
deriving DecidableEq

/-- The instructions of `hw_int_master`, `hw_int_slaver` and `sys_call` but for the `call` of the C
function. `saved` stands for those from the return of `_save` to `sti` and `mask` for those from `cli`
to `ret`: no interrupt comes between them. -/
inductive Line where
  | saved (kind : TrapKind)
  | mask (kind : TrapKind)
  | pushNum (num : Fin 16)
  | loadNum (num : Fin 16)
  | popNum (num : Fin 16)
  | pushFrame
  | pushReady
  | pushEdx
  | pushEcx
  | pushEbx
  | dropArgs
  | popFrame
  | storeEax

/-- The places of the code that an address may lead to. -/
inductive Place where
  | restartProcess
  | restartReEnter
  | line (l : Line)
  | call (kind : TrapKind)

/-- **The addresses of the code and of the kernel stack**, of 2048 bytes up to `StackTop`. -/
structure TrapLayout where
  sym : Symbols
  code : Place → Word
  code_injective : Function.Injective code
  stackSpace : ℕ
  stackFits : stackSpace + 2048 < 2 ^ 32
  stackApart : stackSpace + 2048 ≤ sym.procTable ∨ sym.procTable + procTableSize ≤ stackSpace

/-- `StackTop`. -/
def TrapLayout.stackTop (L : TrapLayout) : ℕ := L.stackSpace + 2048

/-- Where the C function of the handler returns to. -/
def TrapKind.returned : TrapKind → Line
  | .irq num => .popNum num
  | .sysCall => .dropArgs

namespace Cpu

variable (L : TrapLayout)

/-- The first part of `_save`: push the registers, load the segments of the kernel, count the
handler. -/
def saveRegs (kind : TrapKind) (c : Cpu) : Cpu :=
  let c := c.push (L.code (.line (.saved kind)))
  let c := c.pushal
  let c := (((c.pushSeg c.regs.ds).pushSeg c.regs.es).pushSeg c.regs.fs).pushSeg c.regs.gs
  let ss := c.regs.ss
  { c with
    regs := { c.regs with ds := ss, es := ss, fs := ss, esi := BitVec.ofNat 32 c.regs.esp }
    intReenter := c.intReenter + 1 }

/-- The second part: an outermost handler goes over to the kernel stack and will leave to
`restart_process`, a nested one stays and will leave to `restart_re_enter`. -/
def pushExit (c : Cpu) : Cpu :=
  if c.intReenter = 0 then
    { c with regs := { c.regs with esp := L.stackTop } }.push (L.code .restartProcess)
  else c.push (L.code .restartReEnter)

/-- **`_save`**, called at the start of a handler. -/
def save (kind : TrapKind) (c : Cpu) : Cpu :=
  let c := (c.saveRegs L kind).pushExit L
  c.goto (load32 c.mem (c.regs.esi.toNat + Field.retAddr.offset))

/-- **`restart_re_enter`.** -/
def restartReEnter (c : Cpu) : Cpu :=
  let m := c.mem
  let sp := c.regs.esp
  let c := { c with intReenter := c.intReenter - 1 }
  let c := { c with regs := { c.regs with
    gs := (load32 m sp).setWidth 16, fs := (load32 m (sp + 4)).setWidth 16,
    es := (load32 m (sp + 8)).setWidth 16, ds := (load32 m (sp + 12)).setWidth 16, esp := sp + 16 } }
  (c.popal.drop 4).iretl

/-- **`restart_process`**, which falls through to `restart_re_enter`. -/
def restartProcess (c : Cpu) : Cpu :=
  let frame := L.sym.entry c.processReady
  let c := { c with ldtr := load16 c.mem (frame + Field.ldtSel.offset), esp0 := frame + 72 }
  restartReEnter { c with regs := { c.regs with
    esp := frame, eax := BitVec.ofNat 32 (frame + 72) } }

/-- `END_OF_INTERRUPT`. -/
def endOfInterrupt : BitVec 8 := 0x20

/-- **What an instruction of a handler does**; `input` is what `in` reads. -/
def run (input : BitVec 8) (c : Cpu) : Line → Cpu
  | .saved (.irq num) => (c.setAl endOfInterrupt).sti.goto (L.code (.line (.pushNum num)))
  | .pushNum num => (c.push (BitVec.ofNat 32 num)).goto (L.code (.line (.loadNum num)))
  | .loadNum num =>
      { c with regs := { c.regs with esi := BitVec.ofNat 32 num } }.goto (L.code (.call (.irq num)))
  | .popNum num =>
      ({ c with regs := { c.regs with ecx := c.top } }.drop 4).goto (L.code (.line (.mask (.irq num))))
  | .mask (.irq _) => (c.cli.setAl input).ret
  | .saved .sysCall => c.sti.goto (L.code (.line .pushFrame))
  | .pushFrame => (c.push c.regs.esi).goto (L.code (.line .pushReady))
  | .pushReady =>
      (c.push (BitVec.ofNat 32 (L.sym.entry c.processReady))).goto (L.code (.line .pushEdx))
  | .pushEdx => (c.push c.regs.edx).goto (L.code (.line .pushEcx))
  | .pushEcx => (c.push c.regs.ecx).goto (L.code (.line .pushEbx))
  | .pushEbx => (c.push c.regs.ebx).goto (L.code (.call .sysCall))
  | .dropArgs => (c.drop 16).goto (L.code (.line .popFrame))
  | .popFrame =>
      ({ c with regs := { c.regs with esi := c.top } }.drop 4).goto (L.code (.line .storeEax))
  | .storeEax =>
      { c with mem := store32 c.mem (c.regs.esi.toNat + Field.eax.offset) c.regs.eax }.goto
        (L.code (.line (.mask .sysCall)))
  | .mask .sysCall => c.cli.ret

/-- The `call` of the C function at `target`, from `irq_table` or `sys_call_table`. -/
def call (kind : TrapKind) (target : Word) (c : Cpu) : Cpu :=
  (c.push (L.code (.line kind.returned))).goto target

end Cpu

end WalOS
