/-
**Traps are transparent.**

* `TrapCode.writes` — traps, `_save` and the handlers store on the kernel stack and in the `REG_STACK`
  of the process that was running, and nowhere else.
* `trap_transparent` — in every run of nesting traps: the counter is the number of handlers less one,
  the outermost handler leaves through `restart_process` and the others through `restart_re_enter`,
  and what was interrupted goes on with its registers, but for the answer of `int 0x90` in `eax`.
-/

import WalOS.Trap.Steps
import WalOS.Trap.Start

namespace WalOS

open Bytes

variable {L : TrapLayout} {s s' s₀ : TrapState} {h : Handler} {rest : List Handler}

/-! ### Stores -/

/-- What the assembly may write: the kernel stack, and in a process or an outermost handler the
`REG_STACK` of the process. -/
def Writable (L : TrapLayout) (s : TrapState) (x : ℕ) : Prop :=
  (L.stackSpace ≤ x ∧ x < L.stackTop) ∨ (s.handlers.length ≤ 1 ∧ L.OnRegs s.current x)

/-- A push on the kernel stack. -/
theorem writable_push {value : Word} {x : ℕ} (low : L.stackSpace + 4 ≤ s.cpu.regs.esp)
    (high : s.cpu.regs.esp ≤ L.stackTop) (written : (s.cpu.push value).mem x ≠ s.cpu.mem x) :
    Writable L s x := by
  by_contra outside
  refine written (store32_off ?_)
  unfold Writable at outside
  omega

/-- The instructions of a handler. -/
theorem TrapInv.line_writes {l : Line} {input : BitVec 8} {x : ℕ} (inv : TrapInv L s)
    (under : s.handlers = h :: rest) (here : s.cpu.regs.eip = L.code (.line l))
    (written : (s.cpu.run L input l).mem x ≠ s.cpu.mem x) : Writable L s x := by
  obtain ⟨deep, high, levels, slot, on⟩ := inv.innermost under
  obtain ⟨-, esp, -⟩ := on.doing.at_line here (level_exit_ne_line l)
  have push {value : Word} (stored : (s.cpu.push value).mem x ≠ s.cpu.mem x) : Writable L s x := by
    refine writable_push ?_ (by omega) stored
    cases l <;> simp only [Line.pushed] at esp <;> omega
  cases l with
  | saved kind => cases kind <;> exact absurd rfl written
  | mask kind => cases kind <;> exact absurd rfl written
  | loadNum | popNum | dropArgs | popFrame => exact absurd rfl written
  | pushNum | pushFrame | pushReady | pushEdx | pushEcx | pushEbx => exact push written
  | storeEax =>
    by_contra outside
    refine written ?_
    rw [inv.storeEax_mem input under here]
    refine store32_off ?_
    have offset : Field.eax.offset = 44 := rfl
    unfold Writable TrapLayout.OnRegs at outside
    rw [under, List.length_cons] at outside
    by_cases empty : rest = []
    · subst empty
      simp only [TrapLayout.level, List.length_nil] at outside ⊢
      omega
    · obtain ⟨bottom, top, last⟩ := levels empty
      omega

/-- **The assembly stores nowhere else.** -/
theorem TrapCode.writes {x : ℕ} (inv : TrapInv L s) (step : TrapCode L s s')
    (written : s'.cpu.mem x ≠ s.cpu.mem x) : Writable L s x := by
  cases step with
  | @trap kind may =>
    by_contra outside
    unfold Writable TrapLayout.OnRegs at outside
    have size : L.stackTop = L.stackSpace + 2048 := rfl
    cases under : s.handlers with
    | nil =>
      obtain ⟨room, frame, frameEnd, base, _⟩ := inv.trap_user under
      rw [under, List.length_nil] at outside
      exact written (trap_off room (by omega) (by omega))
    | cons h rest =>
      obtain ⟨room, frame, frameEnd, base, _, low, high⟩ := inv.trap_kernel under may
      exact written (trap_off room (by omega) (by omega))
  | line busy here =>
    obtain ⟨h, rest, under⟩ := List.exists_cons_of_ne_nil busy
    exact inv.line_writes under here written
  | @call h rest target under here away =>
    obtain ⟨deep, high, _, slot, on⟩ := inv.innermost under
    obtain ⟨esp, -⟩ := on.doing.at_call here (level_exit_ne_call _)
    have pushed : h.kind.pushed ≤ 20 := by
      cases h.kind <;> simp [TrapKind.pushed]
    exact writable_push (by omega) (by omega) written
  | restartProcess under here =>
    exact absurd (congrFun (restartReEnter_rest _).1 x) written
  | restartReEnter under here => exact absurd (congrFun (restartReEnter_rest _).1 x) written

/-! ### The ways out -/

/-- The `ret` of a handler. -/
theorem TrapInv.ret_leads (inv : TrapInv L s) (under : s.handlers = h :: rest)
    (here : s.cpu.regs.eip = L.code (.line (.mask h.kind))) (input : BitVec 8) :
    (s.cpu.run L input (.mask h.kind)).regs.eip =
      L.code (if rest = [] then .restartProcess else .restartReEnter) := by
  obtain ⟨_, _, _, slot, on⟩ := inv.innermost under
  obtain ⟨_, esp, _, way, _⟩ := on.doing.at_line here (level_exit_ne_line _)
  have eip : (s.cpu.run L input (.mask h.kind)).regs.eip = load32 s.cpu.mem s.cpu.regs.esp := by
    cases h.kind <;> rfl
  rw [eip, ← level_exit L s.current h, ← way]
  exact congrArg _ esp

/-- A step that ends a handler is one of the two ways out. -/
theorem TrapStep.ends (step : TrapStep L s s') (under : s.handlers = h :: rest)
    (ended : s'.handlers = rest) :
    (s.cpu.regs.eip = L.code .restartProcess ∧
      s' = { cpu := s.cpu.restartProcess L, handlers := rest, current := s.cpu.processReady
             last := Function.update s.last s.current h.toTrap }) ∨
    (s.cpu.regs.eip = L.code .restartReEnter ∧
      s' = { s with cpu := s.cpu.restartReEnter, handlers := rest }) := by
  have shorter : s'.handlers.length < s.handlers.length := by
    rw [ended, under, List.length_cons]
    omega
  cases step with
  | code code =>
    cases code with
    | trap =>
      rw [List.length_cons] at shorter
      omega
    | line => exact absurd shorter (lt_irrefl _)
    | call under' =>
      rw [under', List.length_cons, List.length_cons] at shorter
      omega
    | restartProcess under' here =>
      obtain ⟨rfl, rfl⟩ := List.cons.inj (under.symm.trans under')
      exact Or.inl ⟨here, rfl⟩
    | restartReEnter under' here =>
      obtain ⟨rfl, rfl⟩ := List.cons.inj (under.symm.trans under')
      exact Or.inr ⟨here, rfl⟩
  | user | body | flags => exact absurd shorter (lt_irrefl _)
  | ret under' =>
    rw [under', List.length_cons, List.length_cons] at shorter
    omega

/-! ### An interrupt and its handler -/

/-- A run goes on with an instruction of a handler. -/
theorem line_run {l : Line} (run : TrapRun L s₀ s) (busy : s.handlers ≠ [])
    (here : s.cpu.regs.eip = L.code (.line l)) :
    TrapRun L s₀ { s with cpu := s.cpu.run L 0 l } :=
  run.tail (.code (.line busy here))

/-- A C function that returns at once returns behind its call. -/
theorem call_ret (kind : TrapKind) (target : Word) (c : Cpu) :
    (c.call L kind target).ret.regs.eip = L.code (.line kind.returned) :=
  load32_store32 _

/-- The handler of an interrupt up to its call. -/
def TrapState.atCall (L : TrapLayout) (s : TrapState) (num : Fin 16) : TrapState :=
  let entered := s.trap L (.irq num)
  let saved := entered.cpu.run L 0 (.saved (.irq num))
  { entered with cpu := (saved.run L 0 (.pushNum num)).run L 0 (.loadNum num) }

/-- The handler of an interrupt at `cli`, its C function at `target` having returned at once. -/
def TrapState.atMask (L : TrapLayout) (s : TrapState) (num : Fin 16) (target : Word) : TrapState :=
  let called := (s.atCall L num).cpu.call L (.irq num) target
  { s with
    cpu := called.ret.run L 0 (.popNum num)
    handlers := ⟨⟨.irq num, s.cpu.regs, some called.regs.eax⟩, none⟩ :: s.handlers }

theorem atCall_run {num : Fin 16} (started : TrapStarted L s₀) (run : TrapRun L s₀ s)
    (may : MayTrap L s (.irq num)) : TrapRun L s₀ (s.atCall L num) := by
  have eip := (trapRun_inv started run).trap_eip may
  have entered := line_run (run.tail (.code (.trap may))) (List.cons_ne_nil _ _) eip
  exact line_run (line_run entered (List.cons_ne_nil _ _) rfl) (List.cons_ne_nil _ _) rfl

theorem atMask_run {num : Fin 16} {target : Word} (started : TrapStarted L s₀) (run : TrapRun L s₀ s)
    (may : MayTrap L s (.irq num)) (away : ∀ place, target ≠ L.code place) :
    TrapRun L s₀ (s.atMask L num target) := by
  let handler : Handler := ⟨⟨.irq num, s.cpu.regs, none⟩, none⟩
  let called := (s.atCall L num).cpu.call L (.irq num) target
  let inside : TrapState :=
    { s with cpu := called, handlers := { handler with call := some called.regs } :: s.handlers }
  have call : TrapRun L s₀ inside :=
    (atCall_run started run may).tail (.code (@TrapCode.call L _ handler s.handlers target rfl rfl away))
  have ret := call.tail (@TrapStep.ret L inside _ s.handlers called.regs rfl rfl rfl)
  have left := line_run ret (List.cons_ne_nil _ _) (call_ret (.irq num) target _)
  exact left

/-! ### The theorem -/

/-- **Traps are transparent under nesting.** In every state of every run: `int_reenter` is the number
of handlers less one; the `ret` of a handler leads the outermost to `restart_process` and a nested one
to `restart_re_enter`; when the outermost handler ends, it is at `restart_process`, and the process
scheduled then goes on with the registers of its last trap; when a nested handler ends, it is at
`restart_re_enter`, and what it interrupted goes on with its registers; and the assembly stores on the
kernel stack and in the `REG_STACK` of the trapped process only. -/
theorem trap_transparent (started : TrapStarted L s₀) (run : TrapRun L s₀ s) :
    s.cpu.intReenter = s.handlers.length - 1 ∧
    (∀ h rest input, s.handlers = h :: rest → s.cpu.regs.eip = L.code (.line (.mask h.kind)) →
      (s.cpu.run L input (.mask h.kind)).regs.eip =
        L.code (if rest = [] then .restartProcess else .restartReEnter)) ∧
    (∀ h s', s.handlers = [h] → TrapStep L s s' → s'.handlers = [] →
      s.cpu.regs.eip = L.code .restartProcess ∧ s'.current = s.cpu.processReady ∧
        s'.last = Function.update s.last s.current h.toTrap ∧
        (s'.last s'.current).Resumes s'.cpu.regs) ∧
    (∀ h g rest s', s.handlers = h :: g :: rest → TrapStep L s s' → s'.handlers = g :: rest →
      s.cpu.regs.eip = L.code .restartReEnter ∧ h.toTrap.Resumes s'.cpu.regs) ∧
    ∀ s' x, TrapCode L s s' → s'.cpu.mem x ≠ s.cpu.mem x → Writable L s x := by
  have inv := trapRun_inv started run
  refine ⟨inv.depth, fun h rest input under here => inv.ret_leads under here input,
    fun h s' under step ended => ?_, fun h g rest s' under step ended => ?_,
    fun s' x step written => step.writes inv written⟩
  · rcases step.ends under ended with ⟨here, rfl⟩ | ⟨here, rfl⟩
    · exact ⟨here, rfl, rfl, (inv.process under here).2.1⟩
    · exact absurd rfl (inv.reEnter under here).1
  · rcases step.ends under ended with ⟨here, rfl⟩ | ⟨here, rfl⟩
    · exact absurd (inv.process under here).1 (by simp)
    · exact ⟨here, (inv.reEnter under here).2.1⟩

/-- The first system call, behind its `sti`. -/
def kernelServing : TrapState :=
  { kernelCall with cpu := kernelCall.cpu.run kernelLayout 0 (.saved .sysCall) }

/-- The clock interrupts it: the handler at `cli`, at `restart_re_enter`, and after its end. -/
def kernelTicked : TrapState := kernelServing.atMask kernelLayout clockLine 0

def kernelLeaving : TrapState :=
  { kernelTicked with cpu := kernelTicked.cpu.run kernelLayout 0 (.mask (.irq clockLine)) }

def kernelResumed : TrapState :=
  { kernelLeaving with cpu := kernelLeaving.cpu.restartReEnter, handlers := kernelServing.handlers }

theorem kernelServing_run : TrapRun kernelLayout kernelStart kernelServing := by
  have inv := trapRun_inv kernelStart_started kernelFirst_run
  exact line_run kernelCall_run (List.cons_ne_nil _ _) (inv.trap_eip kernelFirst_mayTrap)

theorem kernelServing_mayTrap : MayTrap kernelLayout kernelServing (.irq clockLine) := by
  refine ⟨fun _ => ?_, fun other => absurd other irq_ne_sysCall, fun _ => ?_⟩
  · show (_ ||| 0x200 : Word).getLsbD 9 = true
    simp
  · obtain ⟨_, _, _, slot, on⟩ := (trapRun_inv kernelStart_started kernelServing_run).innermost rfl
    obtain ⟨_, esp, _⟩ := @Doing.at_line _ _ _ _ _ _ .pushFrame on.doing rfl (level_exit_ne_line _)
    rw [esp]
    show kernelLayout.stackSpace + 128 ≤ kernelLayout.stackTop - 4 - 0
    unfold TrapLayout.stackTop
    omega

theorem kernelTicked_run : TrapRun kernelLayout kernelStart kernelTicked := by
  refine atMask_run kernelStart_started kernelServing_run kernelServing_mayTrap fun place same => ?_
  have block := place.index_le
  have value : (kernelCode place).toNat = 0 := congrArg BitVec.toNat same.symm
  rw [kernelCode, BitVec.toNat_ofNat] at value
  omega

/-- Its `ret` leads to `restart_re_enter`, and `sys_call` goes on with the registers it had. -/
theorem trap_transparent_nested : kernelTicked.cpu.intReenter = 1 ∧
    kernelLeaving.cpu.regs.eip = kernelCode .restartReEnter ∧
    kernelResumed.cpu.regs = kernelServing.cpu.regs := by
  obtain ⟨depth, ways, _⟩ := trap_transparent kernelStart_started kernelTicked_run
  have leaves : kernelLeaving.cpu.regs.eip = kernelCode .restartReEnter := ways _ _ 0 rfl rfl
  have leaving := line_run kernelTicked_run (List.cons_ne_nil _ _) rfl
  obtain ⟨_, _, _, nested, _⟩ := trap_transparent kernelStart_started leaving
  have resumes := nested _ _ _ kernelResumed rfl (.code (.restartReEnter rfl leaves)) rfl
  exact ⟨depth, leaves, resumes.2⟩

end WalOS
