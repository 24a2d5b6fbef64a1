/-
**What the interrupts of the kernel promise.**

* `irq_masks` — **no interrupt nests in itself, none is held up by another, and the masks are those of
  the drivers and of the handlers under way**.
* `irq_kept` — **a request stays until its handler is entered, and a handler is entered for a request
  only**.
* `irq_stack_room` — **the kernel stack has room for every trap**.
-/

import WalOS.Irq.Steps

namespace WalOS

open Intel8259

variable {L : TrapLayout} {use : IrqUse} {s s' s₀ : IrqState} {h : Handler} {rest : List Handler}
  {n : Fin 16}

/-! ### Masks -/

/-- The masks while an interrupt may come, or a process runs. -/
theorem IrqInv.masked_iff (inv : IrqInv L use s)
    (allowed : s.trap.cpu.regs.interrupts = true ∨ s.trap.handlers = []) (n : Fin 16) :
    s.irqs.pics.Masked n ↔ s.enabled n = false ∨ ∃ h ∈ s.trap.handlers, h.kind = .irq n := by
  rw [inv.masks n]
  rcases allowed with enabled | idle
  · rw [(inv.all_hold enabled).1]
    rfl
  · rw [holding_nil idle, idle]
    rfl

/-- **Nothing holds up an interrupt.** -/
theorem IrqInv.asks (inv : IrqInv L use s) (enabled : s.trap.cpu.regs.interrupts = true)
    (device : n ≠ 2) (requested : s.irqs.pics.Requested n) (on : s.enabled n = true)
    (through : 8 ≤ n → s.enabled 2 = true) (free : ∀ h ∈ s.trap.handlers, h.kind ≠ .irq n) :
    s.irqs.pics.request.isSome := by
  refine request_complete (inv.quiet (inv.all_hold enabled).2) inv.programmed.wired device requested
    (fun masked => ?_) fun slave => ?_
  · rcases (inv.masks n).mp masked with off | ⟨h, member, kind⟩
    · exact absurd (off.symm.trans on) (by simp)
    · rw [(inv.all_hold enabled).1] at member
      exact free h member kind
  · have high : 8 ≤ n := by
      by_contra low
      have master : chipOf n = .master := if_pos (Fin.not_le.mp low)
      exact absurd (master.symm.trans slave) (by decide)
    have unmasked : ¬ s.irqs.pics.Masked 2 := by
      rw [inv.masks, not_or, through high]
      exact ⟨by simp, fun keeps => (inv.enabled 2 keeps).2 rfl⟩
    exact Bool.eq_false_iff.mpr unmasked

/-- **Interrupts nest by their masks.** In every state of every run after `init_8259a`: no two handlers
under way are of one line, and there are at most as many as lines that drivers enable, besides the
outermost; while interrupts are enabled or a process runs, nothing is in service, and a line is masked
exactly if no driver has enabled it or its handler is under way; and while interrupts are enabled, a
request on a line whose handler is not under way makes the controllers ask, whatever handler runs. -/
theorem irq_masks (started : IrqStarted L use s₀) (run : IrqRun L use s₀ s) :
    (s.trap.handlers.Pairwise fun h g => ∀ n, h.kind = .irq n → g.kind ≠ .irq n) ∧
    s.trap.cpu.intReenter ≤ (use.lines.erase 2).card ∧
    ((s.trap.cpu.regs.interrupts = true ∨ s.trap.handlers = []) → s.irqs.pics.Quiet ∧
      ∀ n, s.irqs.pics.Masked n ↔ s.enabled n = false ∨ ∃ h ∈ s.trap.handlers, h.kind = .irq n) ∧
    (s.trap.cpu.regs.interrupts = true → ∀ n ≠ 2, s.irqs.pics.Requested n → s.enabled n = true →
      (8 ≤ n → s.enabled 2 = true) → (∀ h ∈ s.trap.handlers, h.kind ≠ .irq n) →
      ∃ m, s.irqs.pics.request = some m) := by
  have inv := (irqRun_inv started run).1
  refine ⟨inv.distinct, ?_, fun allowed => ⟨inv.quiet fun n => ?_, inv.masked_iff allowed⟩,
    fun enabled n device requested on through free =>
      Option.isSome_iff_exists.mp (inv.asks enabled device requested on through free)⟩
  · have depth := inv.depth
    have count := inv.trap.depth
    omega
  · rcases allowed with enabled | idle
    · exact (inv.all_hold enabled).2 n
    · exact not_entering_nil idle

/-! ### Requests -/

/-- A handler is entered for the line. -/
structure Taken (L : TrapLayout) (use : IrqUse) (n : Fin 16) (s s' : IrqState) : Prop where
  step : IrqStep L use s s'
  asked : s.irqs.pics.request = some n
  trap : s'.trap = s.trap.trap L (.irq n)

/-- The instructions of a handler leave every request alone. -/
theorem IrqInv.ports_requested {l : Line} (inv : IrqInv L use s) (busy : s.trap.handlers ≠ [])
    (here : s.trap.cpu.regs.eip = L.code (.line l)) :
    (l.ports s.irqs.pics).Requested n ↔ s.irqs.pics.Requested n := by
  obtain ⟨h, rest, under⟩ := List.exists_cons_of_ne_nil busy
  obtain ⟨_, _, _, slot, on⟩ := inv.trap.innermost under
  obtain ⟨own, _⟩ := on.doing.at_line here (level_exit_ne_line l)
  cases l with
  | saved kind =>
    cases kind with
    | irq m =>
      obtain ⟨serves, _⟩ := inv.serves m ((entering_cons under).mpr ⟨own.symm, here⟩)
      exact (enterIrq_spec inv.programmed serves).2.2.2 n
    | sysCall => exact Iff.rfl
  | mask kind =>
    cases kind with
    | irq m => exact (leaveIrq_spec inv.programmed m).1.requested
    | sysCall => exact Iff.rfl
  | _ => exact Iff.rfl

/-- **A step keeps a request**, or enters its handler. -/
theorem IrqInv.requested_step (inv : IrqInv L use s) (step : IrqStep L use s s') (device : n ≠ 2)
    (requested : s.irqs.pics.Requested n) : s'.irqs.pics.Requested n ∨ Taken L use n s s' := by
  cases step with
  | raise m => exact Or.inl ((raise_spec s.irqs.pics m).2.2.2 n |>.mpr (Or.inr requested))
  | @driver call idle within =>
    have nobody : ∀ m, ¬ KeepsMasked (s.trap.holding L) m := fun m => by
      rw [holding_nil idle]
      exact not_keepsMasked_nil
    obtain ⟨same, _⟩ := irqCall_run inv.programmed s.irqs.irqTable call s.enabled
      fun m => (inv.masks m).trans (or_iff_left (nobody m))
    exact Or.inl (same.requested.mpr requested)
  | @irq m enabled asked =>
    by_cases same : n = m
    · subst same
      exact Or.inr ⟨.irq enabled asked, asked, rfl⟩
    · exact Or.inl (acknowledge_requested same device requested)
  | line busy here => exact Or.inl ((inv.ports_requested busy here).mpr requested)
  | _ => exact Or.inl requested

/-- **No interrupt is lost, and none comes from nowhere.** In every run after `init_8259a`: what a
device has requested stays requested until its handler is entered; and every handler that is entered
uses up a request of its line, which was enabled. -/
theorem irq_kept (started : IrqStarted L use s₀) (run : IrqRun L use s₀ s) :
    (∀ n s', n ≠ 2 → s.irqs.pics.Requested n → IrqRun L use s s' →
      s'.irqs.pics.Requested n ∨
        ∃ t t', IrqRun L use s t ∧ Taken L use n t t' ∧ IrqRun L use t' s') ∧
    ∀ s' h n, IrqStep L use s s' → s'.trap.handlers = h :: s.trap.handlers → h.kind = .irq n →
      s.irqs.pics.Requested n ∧ ¬ s'.irqs.pics.Requested n ∧ s.enabled n = true := by
  refine ⟨fun n s' device requested later => ?_, fun s' h n step entered kind => ?_⟩
  · induction later with
    | refl => exact Or.inl requested
    | @tail t t' before step ih =>
      have inv := (irqRun_inv started (run.trans before)).1
      rcases ih with still | ⟨u, u', first, taken, between⟩
      · refine (inv.requested_step step device still).imp id fun taken => ?_
        exact ⟨t, t', before, taken, .refl⟩
      · exact Or.inr ⟨u, u', first, taken, between.tail step⟩
  · have inv := (irqRun_inv started run).1
    have longer : s'.trap.handlers.length = s.trap.handlers.length + 1 := by
      rw [entered, List.length_cons]
    cases step with
    | @irq m enabled asked =>
      obtain ⟨rfl, _⟩ := List.cons.inj entered
      obtain rfl := TrapKind.irq.inj kind
      obtain ⟨_, requested, _⟩ := request_spec asked
      exact ⟨requested, acknowledge_not_requested _ _, (inv.asked enabled asked).2.1.1⟩
    | sysCall idle =>
      obtain ⟨rfl, _⟩ := List.cons.inj entered
      exact absurd kind.symm irq_ne_sysCall
    | raise | driver | line | body | flags | user => exact absurd longer (by simp)
    | call under | ret under =>
      rw [under, List.length_cons] at longer
      exact absurd longer (by simp)
    | restartReEnter under | restartProcess under =>
      rw [under, List.length_cons] at longer
      exact absurd longer (by simp; omega)

/-! ### The stack -/

/-- The C function that runs has its stack on the kernel stack. -/
theorem IrqInv.esp_low (inv : IrqInv L use s) (under : s.trap.handlers = h :: rest)
    (runs : h.call ≠ none) : L.stackSpace + 64 ≤ s.trap.cpu.regs.esp := by
  obtain ⟨_, _, _, slot, on⟩ := inv.trap.innermost under
  have near := on.doing.near (Or.inr runs) (inv.spent h (by simp [under]))
  have base := Stacked.base (under ▸ inv.stacked)
  have few := inv.depth
  rw [under, List.length_cons] at few
  have room := (Nat.mul_le_mul_right (use.stack + 92) few).trans use.room
  rw [Nat.add_mul] at room
  unfold TrapLayout.stackTop at base
  omega

/-- **The kernel stack never overflows.** Every run in which each C function of a handler uses at most
`stack` bytes, with `(k + 1) * (stack + 92) ≤ 2048` for the `k` lines of devices that drivers enable, is
a run of traps that find room on the stack; and the C functions stay above its lower end. -/
theorem irq_stack_room (started : IrqStarted L use s₀) (run : IrqRun L use s₀ s) :
    TrapRun L s₀.trap s.trap ∧
      (∀ n, s.trap.cpu.regs.interrupts = true → s.irqs.pics.request = some n →
        MayTrap L s.trap (.irq n)) ∧
      ∀ h ∈ s.trap.handlers.head?, h.call ≠ none → L.stackSpace + 64 ≤ s.trap.cpu.regs.esp := by
  obtain ⟨inv, traps⟩ := irqRun_inv started run
  refine ⟨traps, fun n => inv.mayTrap, fun h member runs => ?_⟩
  obtain ⟨rest, under⟩ := List.head?_eq_some_iff.mp member
  exact inv.esp_low under runs

/-! ### The kernel -/

/-- The clock, the keyboard, the slave and the disk, with 420 bytes for the C function of each. -/
def kernelUse : IrqUse where
  lines := {0, 1, 2, 14}
  stack := 420
  room := by decide

/-- The controllers as a BIOS may leave them, `init_8259a`, and `init_clock`. -/
def biosIrqs : Irqs where
  pics := fun chip =>
    { vector := if chip = .master then 0x08 else 0x70
      wiring := if chip = .master then 4 else 2
      mode := 1, single := false, needsMode := true, expects := .mask
      mask := if chip = .master then 0xb8 else 0x8e, requests := 1, service := 0 }
  irqTable := fun _ => .dummyIrqHandler

def initClockCalls : List IrqCall := [.set 0 .clockIntHandler, .enable 0]

def kernelIrqs : IrqState where
  trap := kernelStart
  irqs := initClockCalls.foldl IrqCall.run (init8259a biosIrqs)
  enabled := initClockCalls.foldl IrqCall.enables fun _ => false

theorem kernelIrqs_started : IrqStarted kernelLayout kernelUse kernelIrqs := by
  refine ⟨kernelStart_started, biosIrqs, initClockCalls, fun call member => ?_, rfl, rfl⟩
  simp only [initClockCalls, List.mem_cons, List.not_mem_nil, or_false] at member
  rcases member with rfl | rfl
  · trivial
  · show irqLine 0 ∈ kernelUse.lines
    decide

/-- The flags of every process let interrupts come. -/
theorem initProcessMain_eflags (sym : Symbols) (m : Bytes.Mem) (i : Fin totalTaskCnt) :
    (Regs.ofFrame (initProcessMain sym m) (sym.entry i)).interrupts = true := by
  obtain ⟨f, same⟩ := initProcessMain_words sym m i
  have word : Bytes.load32 (initEntry sym f i).mem (sym.field i .eflags) = (ringOf i).eflags := by
    simp only [initEntry, Symbols.field, Field.offset]
    simp (disch := omega) only [Bytes.load32_store32_off, Bytes.load32_store32]
  show (Bytes.load32 (initProcessMain sym m) (sym.field i .eflags)).getLsbD 9 = true
  have on : ∀ i, (ringOf i).eflags.getLsbD 9 = true := by decide
  rw [same .eflags (by decide), word, on i]

/-- The clock ticks before the first process starts; then it starts, its first interrupt comes, and the
handler goes on to `sti`. -/
def kernelTick : IrqState :=
  { kernelIrqs with irqs := { kernelIrqs.irqs with pics := kernelIrqs.irqs.pics.raise 0 } }

def kernelTickFirst : IrqState := { kernelTick with trap := kernelFirst }

def kernelTickTrap : IrqState :=
  { kernelTickFirst with
    trap := kernelTickFirst.trap.trap kernelLayout (.irq 0)
    irqs := { kernelTickFirst.irqs with pics := kernelTickFirst.irqs.pics.acknowledge 0 } }

def kernelTickServed : IrqState :=
  { kernelTickTrap with
    trap := { kernelTickTrap.trap with
      cpu := kernelTickTrap.trap.cpu.run kernelLayout 0 (.saved (.irq 0)) }
    irqs := { kernelTickTrap.irqs with pics := enterIrq 0 kernelTickTrap.irqs.pics } }

theorem kernelTick_first : IrqRun kernelLayout kernelUse kernelTick kernelTickFirst :=
  .single (@IrqStep.restartProcess kernelLayout kernelUse kernelTick
    ⟨kernelStart.last kernelStart.current, none⟩ [] rfl rfl)

theorem kernelTick_enabled : kernelTickFirst.trap.cpu.regs.interrupts = true := by
  obtain ⟨_, resumes, _⟩ := kernelStart_started.inv.process rfl rfl
  have regs : kernelFirst.cpu.regs = Regs.ofFrame kernelStart.cpu.mem
      (kernelLayout.sym.entry kernelStart.current) := resumes
  show kernelFirst.cpu.regs.interrupts = true
  rw [regs]
  exact initProcessMain_eflags _ _ _

theorem kernelTick_asked : kernelTickFirst.irqs.pics.request = some 0 := by decide +kernel

theorem kernelTick_trap : IrqStep kernelLayout kernelUse kernelTickFirst kernelTickTrap :=
  .irq kernelTick_enabled kernelTick_asked

theorem kernelTick_served : IrqStep kernelLayout kernelUse kernelTickTrap kernelTickServed := by
  have inv := (irqRun_inv kernelIrqs_started
    ((Relation.ReflTransGen.single (IrqStep.raise 0)).trans kernelTick_first)).1
  exact .line (by simp [kernelTickTrap, TrapState.trap])
    (inv.trap.trap_eip (inv.mayTrap kernelTick_enabled kernelTick_asked))

theorem kernelTick_run : IrqRun kernelLayout kernelUse kernelIrqs kernelTickServed :=
  ((((Relation.ReflTransGen.single (IrqStep.raise 0)).trans kernelTick_first).tail
    kernelTick_trap).tail kernelTick_served)

/-- In the handler of the clock nothing is in service any more, and the clock and the keyboard are
masked. -/
theorem irq_masks_tick : kernelTickServed.irqs.pics.Quiet ∧ kernelTickServed.irqs.pics.Masked 0 ∧
    kernelTickServed.irqs.pics.Masked 1 := by
  obtain ⟨_, _, allowed, _⟩ := irq_masks kernelIrqs_started kernelTick_run
  have enabled : kernelTickServed.trap.cpu.regs.interrupts = true := by
    show (_ ||| 0x200 : Word).getLsbD 9 = true
    simp
  obtain ⟨quiet, masks⟩ := allowed (Or.inl enabled)
  exact ⟨quiet, (masks 0).mpr (Or.inr ⟨_, List.mem_singleton_self _, rfl⟩), (masks 1).mpr (Or.inl rfl)⟩

/-- Its request is used up. -/
theorem irq_kept_tick :
    kernelTickFirst.irqs.pics.Requested 0 ∧ ¬ kernelTickTrap.irqs.pics.Requested 0 := by
  obtain ⟨_, entered⟩ := irq_kept kernelIrqs_started
    ((Relation.ReflTransGen.single (IrqStep.raise 0)).trans kernelTick_first)
  obtain ⟨requested, used, _⟩ := entered kernelTickTrap _ 0 kernelTick_trap rfl rfl
  exact ⟨requested, used⟩

/-- Its trap found room. -/
theorem irq_stack_room_tick : TrapRun kernelLayout kernelStart kernelTickServed.trap :=
  (irq_stack_room kernelIrqs_started kernelTick_run).1

end WalOS
