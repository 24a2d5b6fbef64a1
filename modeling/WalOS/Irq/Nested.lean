/-
**Runs of nesting interrupts with their controllers.**

The traps of `Trap/Nesting.lean` come from the two controllers: an interrupt is a line that they ask
for, and the lines of `hw_int_master` and `hw_int_slaver` that read and write their ports do so.

* `enterIrq`, `leaveIrq` — what the two macros do at the ports, before `sti` and after `cli`.
* `IrqStep` — a step of the processor with the controllers, of a device or of a driver. Unlike
  `TrapStep` it asks for no room on the stack when a trap comes; it asks that a C function called by a
  handler uses at most `stack` bytes of it, that drivers enable only `lines`, and that `int 0x90` comes
  from a process.
* `IrqStarted` — the state in which the first process starts.
-/

import WalOS.Irq.Control
import WalOS.Trap.Start
import Mathlib.Data.Finset.Card

namespace WalOS

open Intel8259

/-! ### The code at the ports -/

/-- The first part of `hw_int_master` and of `hw_int_slaver`: mask the line and end the interrupt, for
a line of the slave at both. -/
def enterIrq (num : Fin 16) (pics : Pics) : Pics :=
  if num < 8 then
    let al := inb intMCtrlMask pics
    let pics := outb (al ||| 1#8 <<< (num : ℕ)) intMCtrlMask pics
    outb Cpu.endOfInterrupt intMCtrl pics
  else
    let al := inb intSCtrlMask pics
    let pics := outb (al ||| 1#8 <<< (num - 8 : ℕ)) intSCtrlMask pics
    let pics := outb Cpu.endOfInterrupt intMCtrl pics
    outb Cpu.endOfInterrupt intSCtrl pics

/-- The second part: unmask the line. -/
def leaveIrq (num : Fin 16) (pics : Pics) : Pics :=
  if num < 8 then
    let al := inb intMCtrlMask pics
    outb (al &&& ~~~(1#8 <<< (num : ℕ))) intMCtrlMask pics
  else
    let al := inb intSCtrlMask pics
    outb (al &&& ~~~(1#8 <<< (num - 8 : ℕ))) intSCtrlMask pics

/-- What a line of a handler does at the ports. -/
def Line.ports : Line → Pics → Pics
  | .saved (.irq num) => enterIrq num
  | .mask (.irq num) => leaveIrq num
  | _ => id

/-! ### The steps -/

/-- The processor with the controllers; `enabled` remembers the lines that the drivers have enabled. -/
structure IrqState where
  trap : TrapState
  irqs : Irqs
  enabled : Fin 16 → Bool

/-- **What the runs are about**: the lines that drivers enable, and the bytes of the kernel stack that
the C function of a handler uses. A handler takes up to 92 bytes besides, and there is at most one for
each line of a device over that of a system call. -/
structure IrqUse where
  lines : Finset (Fin 16)
  stack : ℕ
  room : ((lines.erase 2).card + 1) * (stack + 92) ≤ 2048

/-- A driver enables these lines only. -/
def IrqCall.Within (lines : Finset (Fin 16)) : IrqCall → Prop
  | enable irq => irqLine irq ∈ lines
  | _ => True

variable (L : TrapLayout) (use : IrqUse)

/-- **A step.** -/
inductive IrqStep : IrqState → IrqState → Prop
  | raise {s : IrqState} (n : Fin 16) :
      IrqStep s { s with irqs := { s.irqs with pics := s.irqs.pics.raise n } }
  | driver {s : IrqState} {call : IrqCall} : s.trap.handlers = [] → call.Within use.lines →
      IrqStep s { s with irqs := call.run s.irqs, enabled := call.enables s.enabled }
  | irq {s : IrqState} {n : Fin 16} : s.trap.cpu.regs.interrupts = true →
      s.irqs.pics.request = some n →
      IrqStep s { s with
        trap := s.trap.trap L (.irq n)
        irqs := { s.irqs with pics := s.irqs.pics.acknowledge n } }
  | sysCall {s : IrqState} : s.trap.handlers = [] →
      IrqStep s { s with trap := s.trap.trap L .sysCall }
  | line {s : IrqState} {l : Line} {input : BitVec 8} : s.trap.handlers ≠ [] →
      s.trap.cpu.regs.eip = L.code (.line l) →
      IrqStep s { s with
        trap := { s.trap with cpu := s.trap.cpu.run L input l }
        irqs := { s.irqs with pics := l.ports s.irqs.pics } }
  | call {s : IrqState} {h : Handler} {rest : List Handler} {target : Word} :
      s.trap.handlers = h :: rest → s.trap.cpu.regs.eip = L.code (.call h.kind) →
      (∀ place, target ≠ L.code place) →
      IrqStep s { s with trap := { s.trap with
        cpu := s.trap.cpu.call L h.kind target
        handlers := { h with call := some (s.trap.cpu.call L h.kind target).regs } :: rest } }
  | body {s : IrqState} {h : Handler} {rest : List Handler} {called : Regs} {c' : Cpu} :
      s.trap.handlers = h :: rest → h.call = some called →
      BodyStep L h.kind called s.trap.cpu c' → called.esp ≤ c'.regs.esp + use.stack →
      IrqStep s { s with trap := { s.trap with cpu := c' } }
  | ret {s : IrqState} {h : Handler} {rest : List Handler} {called : Regs} :
      s.trap.handlers = h :: rest → h.call = some called → s.trap.cpu.regs.esp = called.esp →
      IrqStep s { s with trap := { s.trap with
        cpu := s.trap.cpu.ret
        handlers := { h with call := none, value := some s.trap.cpu.regs.eax } :: rest } }
  | flags {s : IrqState} {eflags : Word} : s.trap.handlers ≠ [] →
      eflags.getLsbD 9 = s.trap.cpu.regs.interrupts →
      IrqStep s { s with trap := { s.trap with
        cpu := { s.trap.cpu with regs := { s.trap.cpu.regs with eflags := eflags } } } }
  | restartReEnter {s : IrqState} {h : Handler} {rest : List Handler} :
      s.trap.handlers = h :: rest → s.trap.cpu.regs.eip = L.code .restartReEnter →
      IrqStep s { s with trap := { s.trap with
        cpu := s.trap.cpu.restartReEnter, handlers := rest } }
  | restartProcess {s : IrqState} {h : Handler} {rest : List Handler} :
      s.trap.handlers = h :: rest → s.trap.cpu.regs.eip = L.code .restartProcess →
      IrqStep s { s with trap :=
        { cpu := s.trap.cpu.restartProcess L, handlers := rest, current := s.trap.cpu.processReady
          last := Function.update s.trap.last s.trap.current h.toTrap } }
  | user {s : IrqState} {c' : Cpu} : s.trap.handlers = [] → UserStep L s.trap.cpu c' →
      IrqStep s { s with trap := { s.trap with cpu := c' } }

abbrev IrqRun : IrqState → IrqState → Prop := Relation.ReflTransGen (IrqStep L use)

/-- **The start**: `init_8259a` and calls of the drivers lie behind, and `init_process_main` goes on to
`restart_process`. -/
structure IrqStarted (s : IrqState) : Prop where
  trap : TrapStarted L s.trap
  irqs : ∃ (before : Irqs) (calls : List IrqCall), (∀ call ∈ calls, call.Within use.lines) ∧
    s.irqs = calls.foldl IrqCall.run (init8259a before) ∧
    s.enabled = calls.foldl IrqCall.enables fun _ => false

/-! ### The ports -/

variable {pics : Pics} {n : Fin 16}

/-- **A line is served, and nothing else is in service.** -/
structure Serves (pics : Pics) (n : Fin 16) : Prop where
  own : (pics (chipOf n)).service = bit (lineOf n)
  master : chipOf n = .slave → (pics .master).service = bit cascade
  slave : chipOf n = .master → (pics .slave).service = 0

theorem SameButMasks.serves {pics' : Pics} (same : SameButMasks pics pics') (serves : Serves pics n) :
    Serves pics' n :=
  ⟨(same.service _).trans serves.own, fun slave => (same.service _).trans (serves.master slave),
    fun master => (same.service _).trans (serves.slave master)⟩

/-- The end of an interrupt at one controller. -/
def endAt (chip : Chip) (pics : Pics) : Pics := Function.update pics chip (pics chip).endService

theorem endAt_single {chip : Chip} {i : Fin 8} (single : (pics chip).service = bit i) :
    endAt chip pics = Function.update pics chip { pics chip with service := 0 } :=
  congrArg _ (endService_single single)

/-- The two macros shift to the bit of their line, and use the port of its controller. -/
theorem bit_of_lt (low : n < 8) : 1#8 <<< (n : ℕ) = bit (lineOf n) := by
  revert n
  decide

theorem bit_of_ge (high : ¬ n < 8) : 1#8 <<< (n - 8 : ℕ) = bit (lineOf n) := by
  revert n
  decide

/-- What entering does: a mask, and the end of interrupt at the controllers that serve the line. -/
theorem enterIrq_eq (n : Fin 16) (pics : Pics) :
    let masked := outb ((pics (chipOf n)).mask ||| bit (lineOf n)) (maskPort (chipOf n)) pics
    enterIrq n pics =
      if chipOf n = .slave then endAt .slave (endAt .master masked) else endAt .master masked := by
  unfold enterIrq
  by_cases low : n < 8
  · have master : chipOf n = .master := if_pos low
    rw [if_pos low, bit_of_lt low, master]
    rfl
  · have slave : chipOf n = .slave := if_neg low
    rw [if_neg low, bit_of_ge low, slave]
    rfl

theorem leaveIrq_eq (n : Fin 16) (pics : Pics) : leaveIrq n pics =
    outb ((pics (chipOf n)).mask &&& ~~~bit (lineOf n)) (maskPort (chipOf n)) pics := by
  unfold leaveIrq
  by_cases low : n < 8
  · have master : chipOf n = .master := if_pos low
    rw [if_pos low, bit_of_lt low, master]
    rfl
  · have slave : chipOf n = .slave := if_neg low
    rw [if_neg low, bit_of_ge low, slave]
    rfl

/-- The service of a controller alone is ended. -/
theorem endAt_spec {chip : Chip} {i : Fin 8} (single : (pics chip).service = bit i) :
    SameProgram pics (endAt chip pics) ∧ (endAt chip pics chip).service = 0 ∧
      (∀ other ≠ chip, endAt chip pics other = pics other) ∧
      (∀ m, (endAt chip pics).Masked m ↔ pics.Masked m) ∧
      ∀ m, (endAt chip pics).Requested m ↔ pics.Requested m := by
  have fields : ∀ other, ∃ service, endAt chip pics other = { pics other with service := service } := by
    intro other
    rw [endAt_single single]
    by_cases here : other = chip
    · subst here
      exact ⟨0, Function.update_self ..⟩
    · exact ⟨(pics other).service, Function.update_of_ne here ..⟩
  refine ⟨fun other => ?_, ?_, fun other apart => Function.update_of_ne apart .., fun m => ?_,
    fun m => ?_⟩
  · obtain ⟨_, same⟩ := fields other
    rw [same]
    exact ⟨rfl, rfl, rfl, rfl⟩
  · rw [endAt_single single, Function.update_self]
  · obtain ⟨_, same⟩ := fields (chipOf m)
    rw [Pics.Masked, Pics.Masked, same]
  · obtain ⟨_, same⟩ := fields (chipOf m)
    rw [Pics.Requested, Pics.Requested, same]

/-- **Entering masks the line and ends its interrupt at both controllers.** -/
theorem enterIrq_spec (programmed : Programmed pics) (serves : Serves pics n) :
    Programmed (enterIrq n pics) ∧ (enterIrq n pics).Quiet ∧
      (∀ m, (enterIrq n pics).Masked m ↔ m = n ∨ pics.Masked m) ∧
      ∀ m, (enterIrq n pics).Requested m ↔ pics.Requested m := by
  obtain ⟨same, held⟩ := setMask_spec programmed n
  rw [enterIrq_eq]
  revert same held
  generalize outb _ _ pics = masked
  intro same held
  have programmed := same.sameProgram.programmed programmed
  obtain ⟨own, master, slave⟩ := same.serves serves
  cases chip : chipOf n with
  | master =>
    rw [chip] at own
    obtain ⟨program, idle, others, masks', requests⟩ := endAt_spec own
    rw [if_neg (by decide)]
    refine ⟨program.programmed programmed, fun other => ?_, fun m => (masks' m).trans (held m),
      fun m => (requests m).trans same.requested⟩
    cases other with
    | master => exact idle
    | slave => rw [others .slave (by decide), slave chip]
  | slave =>
    obtain ⟨program, idle, others, masks', requests⟩ := endAt_spec (master chip)
    rw [chip, ← others .slave (by decide)] at own
    obtain ⟨program', idle', others', masks'', requests'⟩ := endAt_spec own
    rw [if_pos rfl]
    refine ⟨program'.programmed (program.programmed programmed), fun other => ?_,
      fun m => (masks'' m).trans ((masks' m).trans (held m)),
      fun m => (requests' m).trans ((requests m).trans same.requested)⟩
    cases other with
    | master => rw [others' .master (by decide), idle]
    | slave => exact idle'

/-- **Leaving unmasks the line.** -/
theorem leaveIrq_spec (programmed : Programmed pics) (n : Fin 16) :
    SameButMasks pics (leaveIrq n pics) ∧
      ∀ m, (leaveIrq n pics).Masked m ↔ m ≠ n ∧ pics.Masked m := by
  rw [leaveIrq_eq]
  exact clearMask_spec programmed n

end WalOS
