/-
**Runs of traps, handlers and processes.**

A `TrapState` is the processor with the handlers under way, the innermost first. Each remembers what
it interrupted and where its C function was called; `last` keeps for every process its last trap.

* `TrapCode` — a step of the processor or of the assembly: a trap, an instruction of a handler, the
  call of a C function, `restart_process`, `restart_re_enter`.
* `TrapStep` — also the steps of processes and of C functions. Of the C calling convention it asks that
  a function keeps the stack above its frame, but for its arguments, returns with the `esp` it was
  called with and leaves `cs` and `ss` alone; and that no C code writes a `REG_STACK`.
* `TrapStarted` — the state in which `init_process_main` starts the first process.
-/

import WalOS.Trap.Frame
import Mathlib.Logic.Relation

namespace WalOS

open Bytes

/-! ### The states -/

/-- A trap: what it interrupted, and for `int 0x90` what the C function returned. -/
structure Trap where
  kind : TrapKind
  interrupted : Regs
  value : Option Word

/-- A handler under way, with the registers its C function was called with while it runs. -/
structure Handler extends Trap where
  call : Option Regs

/-- The registers that an interrupted process or handler goes on with. -/
def Trap.Resumes (t : Trap) (r : Regs) : Prop :=
  match t.kind with
  | .irq _ => r = t.interrupted
  | .sysCall => ∃ value, t.value = some value ∧ r = { t.interrupted with eax := value }

structure TrapState where
  cpu : Cpu
  handlers : List Handler
  current : Fin totalTaskCnt
  last : Fin totalTaskCnt → Trap

/-- A trap, without a look at the stack. -/
def TrapState.trap (L : TrapLayout) (s : TrapState) (kind : TrapKind) : TrapState :=
  { s with
    cpu := s.cpu.trap.save L kind
    handlers := ⟨⟨kind, s.cpu.regs, none⟩, none⟩ :: s.handlers }

/-- The bytes of the `REG_STACK` of a process. -/
def TrapLayout.OnRegs (L : TrapLayout) (p : Fin totalTaskCnt) (x : ℕ) : Prop :=
  L.sym.entry p ≤ x ∧ x < L.sym.entry p + 72

/-- The number of arguments on the stack. -/
def TrapKind.args : TrapKind → ℕ
  | .irq _ => 1
  | .sysCall => 4

/-- A trap may come: an interrupt when interrupts are enabled, `int 0x90` from a process or a C
function, and in a handler only while the kernel stack has room. -/
structure MayTrap (L : TrapLayout) (s : TrapState) (kind : TrapKind) : Prop where
  enabled : kind ≠ .sysCall → s.cpu.regs.interrupts = true
  coded : kind = .sysCall → ∀ h ∈ s.handlers.head?, h.call ≠ none
  deep : s.handlers ≠ [] → L.stackSpace + 128 ≤ s.cpu.regs.esp

/-! ### The steps -/

/-- **A step of the processor or of the assembly.** -/
inductive TrapCode (L : TrapLayout) : TrapState → TrapState → Prop where
  | trap {s : TrapState} {kind : TrapKind} : MayTrap L s kind →
      TrapCode L s { s with
        cpu := s.cpu.trap.save L kind
        handlers := ⟨⟨kind, s.cpu.regs, none⟩, none⟩ :: s.handlers }
  | line {s : TrapState} {l : Line} {input : BitVec 8} : s.handlers ≠ [] →
      s.cpu.regs.eip = L.code (.line l) → TrapCode L s { s with cpu := s.cpu.run L input l }
  | call {s : TrapState} {h : Handler} {rest : List Handler} {target : Word} :
      s.handlers = h :: rest → s.cpu.regs.eip = L.code (.call h.kind) →
      (∀ place, target ≠ L.code place) →
      TrapCode L s { s with
        cpu := s.cpu.call L h.kind target
        handlers := { h with call := some (s.cpu.call L h.kind target).regs } :: rest }
  | restartProcess {s : TrapState} {h : Handler} {rest : List Handler} :
      s.handlers = h :: rest → s.cpu.regs.eip = L.code .restartProcess →
      TrapCode L s
        { cpu := s.cpu.restartProcess L, handlers := rest, current := s.cpu.processReady
          last := Function.update s.last s.current h.toTrap }
  | restartReEnter {s : TrapState} {h : Handler} {rest : List Handler} :
      s.handlers = h :: rest → s.cpu.regs.eip = L.code .restartReEnter →
      TrapCode L s { s with cpu := s.cpu.restartReEnter, handlers := rest }

/-- What a C function may do that was called with the registers `called`: anything but leave its
stack, the kernel segments or the C code, or write a `REG_STACK`. -/
structure BodyStep (L : TrapLayout) (kind : TrapKind) (called : Regs) (c c' : Cpu) : Prop where
  esp : c'.regs.esp ≤ called.esp
  eip : ∀ place, c'.regs.eip ≠ L.code place
  cs : c'.regs.cs = c.regs.cs
  ss : c'.regs.ss = c.regs.ss
  regStacks : ∀ p x, L.OnRegs p x → c'.mem x = c.mem x
  returned : ∀ x, called.esp ≤ x → x < called.esp + 4 → c'.mem x = c.mem x
  above : ∀ x, called.esp + 4 + 4 * kind.args ≤ x → x < L.stackTop → c'.mem x = c.mem x
  intReenter : c'.intReenter = c.intReenter

/-- What a process may do: anything but leave its privilege level or write a `REG_STACK`. -/
structure UserStep (L : TrapLayout) (c c' : Cpu) : Prop where
  mode : c'.regs.UserMode
  word : c'.regs.esp < 2 ^ 32
  regStacks : ∀ p x, L.OnRegs p x → c'.mem x = c.mem x
  processReady : c'.processReady = c.processReady
  intReenter : c'.intReenter = c.intReenter
  esp0 : c'.esp0 = c.esp0

/-- **A step.** What the instructions of the kernel do to the arithmetic flags is not followed:
`flags` changes them at any time. -/
inductive TrapStep (L : TrapLayout) : TrapState → TrapState → Prop where
  | code {s s' : TrapState} : TrapCode L s s' → TrapStep L s s'
  | user {s : TrapState} {c' : Cpu} : s.handlers = [] → UserStep L s.cpu c' →
      TrapStep L s { s with cpu := c' }
  | body {s : TrapState} {h : Handler} {rest : List Handler} {called : Regs} {c' : Cpu} :
      s.handlers = h :: rest → h.call = some called → BodyStep L h.kind called s.cpu c' →
      TrapStep L s { s with cpu := c' }
  | ret {s : TrapState} {h : Handler} {rest : List Handler} {called : Regs} :
      s.handlers = h :: rest → h.call = some called → s.cpu.regs.esp = called.esp →
      TrapStep L s { s with
        cpu := s.cpu.ret
        handlers := { h with call := none, value := some s.cpu.regs.eax } :: rest }
  | flags {s : TrapState} {eflags : Word} : s.handlers ≠ [] →
      eflags.getLsbD 9 = s.cpu.regs.interrupts →
      TrapStep L s { s with cpu := { s.cpu with regs := { s.cpu.regs with eflags := eflags } } }

abbrev TrapRun (L : TrapLayout) : TrapState → TrapState → Prop := Relation.ReflTransGen (TrapStep L)

/-- **The start**: `init_process_main` calls `restart_process` with interrupts disabled and
`int_reenter` 0. It counts as the handler of the process it starts; every process has a frame. -/
structure TrapStarted (L : TrapLayout) (s : TrapState) : Prop where
  handlers : s.handlers = [⟨s.last s.current, none⟩]
  eip : s.cpu.regs.eip = L.code .restartProcess
  cs : s.cpu.regs.cs = Cpu.kernelCs
  ss : s.cpu.regs.ss = Cpu.kernelSs
  disabled : s.cpu.regs.interrupts = false
  depth : s.cpu.intReenter = 0
  frame : ∀ p, Frame s.cpu.mem (L.sym.entry p) (s.last p).interrupted
  mode : ∀ p, (s.last p).interrupted.UserMode
  word : ∀ p, (s.last p).interrupted.esp < 2 ^ 32
  irq : ∀ p, (s.last p).kind ≠ .sysCall

end WalOS
