/-
**Every step keeps the masks.**

* `IrqInv.goesOn` — a step inside a handler that does not touch its line.
* `IrqInv.irq`, `IrqInv.line`, `IrqInv.reEnter`, … — the steps.
* `irqRun_inv` — the run lemma: the invariant, and a run of `TrapStep`.
-/

import WalOS.Irq.Masks
import WalOS.Trap.Transparent

namespace WalOS

open Intel8259

variable {L : TrapLayout} {use : IrqUse} {s s' s₀ : IrqState} {h g h' : Handler}
  {rest : List Handler} {n : Fin 16} {c' : Cpu} {v : Level} {m : Bytes.Mem} {slot : Word} {r : Regs}

/-! ### Devices and drivers -/

theorem raise_spec (pics : Pics) (n : Fin 16) :
    SameProgram pics (pics.raise n) ∧ (∀ chip, (pics.raise n chip).service = (pics chip).service) ∧
      (∀ m, (pics.raise n).Masked m ↔ pics.Masked m) ∧
      ∀ m, (pics.raise n).Requested m ↔ m = n ∨ pics.Requested m := by
  have fields : ∀ chip, ∃ requests, pics.raise n chip = { pics chip with requests := requests } := by
    intro chip
    by_cases here : chip = chipOf n
    · subst here
      exact ⟨_, Function.update_self ..⟩
    · exact ⟨(pics chip).requests, Function.update_of_ne here ..⟩
  refine ⟨fun chip => ?_, fun chip => ?_, fun m => ?_, fun m => ?_⟩
  · obtain ⟨_, same⟩ := fields chip
    rw [same]
    exact ⟨rfl, rfl, rfl, rfl⟩
  · obtain ⟨_, same⟩ := fields chip
    rw [same]
  · obtain ⟨_, same⟩ := fields (chipOf m)
    rw [Pics.Masked, Pics.Masked, same]
  · rw [Pics.Requested, Pics.Requested, Pics.raise]
    by_cases chip : chipOf m = chipOf n
    · rw [chip, Function.update_self, getLsbD_or_bit, Bool.or_eq_true, decide_eq_true_iff, or_comm]
      exact or_congr ⟨line_ext chip, congrArg lineOf⟩ Iff.rfl
    · rw [Function.update_of_ne chip]
      exact ⟨Or.inr, fun either => either.elim (fun here => absurd (congrArg chipOf here) chip) id⟩

theorem IrqInv.raise (inv : IrqInv L use s) (n : Fin 16) :
    IrqInv L use { s with irqs := { s.irqs with pics := s.irqs.pics.raise n } } := by
  obtain ⟨program, service, masked, _⟩ := raise_spec s.irqs.pics n
  exact { inv with
    programmed := program.programmed inv.programmed
    masks := fun m => (masked m).trans (inv.masks m)
    serves := fun m entering => by
      obtain ⟨⟨own, master, slave⟩, on⟩ := inv.serves m entering
      exact ⟨⟨(service _).trans own, fun chip => (service _).trans (master chip),
        fun chip => (service _).trans (slave chip)⟩, on⟩
    quiet := fun none chip => (service chip).trans (inv.quiet none chip) }

/-- A driver enables what it may. -/
theorem IrqCall.Within.enables {call : IrqCall} {on : Fin 16 → Bool} (within : call.Within use.lines)
    (lines : ∀ n, on n = true → n ∈ use.lines) (n : Fin 16) (enabled : call.enables on n = true) :
    n ∈ use.lines := by
  have masks : ∀ m, Function.update on m false n = true → n ∈ use.lines := by
    intro m set
    by_cases here : n = m
    · rw [here, Function.update_self] at set
      exact absurd set (by simp)
    · rw [Function.update_of_ne here] at set
      exact lines n set
  cases call with
  | enable irq =>
    by_cases here : n = irqLine irq
    · exact here ▸ within
    · rw [IrqCall.enables, Function.update_of_ne here] at enabled
      exact lines n enabled
  | disable irq => exact masks _ enabled
  | set irq handler => exact masks _ enabled

theorem IrqInv.driver {call : IrqCall} (inv : IrqInv L use s) (idle : s.trap.handlers = [])
    (within : call.Within use.lines) :
    IrqInv L use { s with irqs := call.run s.irqs, enabled := call.enables s.enabled } := by
  have nobody : ∀ n, ¬ KeepsMasked (s.trap.holding L) n := fun n => by
    rw [holding_nil idle]
    exact not_keepsMasked_nil
  obtain ⟨same, masks, _⟩ := irqCall_run inv.programmed s.irqs.irqTable call s.enabled
    fun n => (inv.masks n).trans (or_iff_left (nobody n))
  exact { inv with
    programmed := same.sameProgram.programmed inv.programmed
    masks := fun n => (masks n).trans (or_iff_left (nobody n)).symm
    enabled := fun n holds => absurd holds (nobody n)
    serves := fun n entering => absurd entering (not_entering_nil idle)
    quiet := fun none => same.quiet (inv.quiet none)
    lines := within.enables inv.lines }

/-! ### Traps -/

/-- **An interrupt keeps the invariant**: its handler has the line in service, and not yet masked. -/
theorem IrqInv.irq (inv : IrqInv L use s) (enabled : s.trap.cpu.regs.interrupts = true)
    (asked : s.irqs.pics.request = some n) : IrqInv L use { s with
      trap := s.trap.trap L (.irq n)
      irqs := { s.irqs with pics := s.irqs.pics.acknowledge n } } := by
  have next := inv.trap.step (.code (.trap (inv.mayTrap enabled asked)))
  obtain ⟨holding, entering⟩ := inv.all_hold enabled
  obtain ⟨line, on, free⟩ := inv.asked enabled asked
  have quiet := inv.quiet entering
  have eip := inv.trap.trap_eip (inv.mayTrap enabled asked)
  have outside : Outside L (.irq n) (s.trap.trap L (.irq n)).cpu.regs := Or.inl eip
  have holding' : (s.trap.trap L (.irq n)).holding L = s.trap.holding L := by
    rw [holding]
    exact (holding_cons rfl).trans (if_pos outside)
  have entered : ∀ m, (s.trap.trap L (.irq n)).Entering L m ↔ m = n := by
    intro m
    rw [entering_cons rfl, eip]
    constructor
    · intro both
      exact (TrapKind.irq.inj both.1).symm
    · rintro rfl
      exact ⟨rfl, rfl⟩
  have program : SameProgram s.irqs.pics (s.irqs.pics.acknowledge n) := by
    intro chip
    unfold Pics.acknowledge
    split_ifs <;> exact ⟨rfl, rfl, rfl, rfl⟩
  obtain ⟨own, master, slave⟩ := acknowledge_service quiet inv.programmed.wired n
  exact {
    trap := next
    programmed := program.programmed inv.programmed
    masks := fun m => by
      rw [holding']
      exact acknowledge_masked m |>.trans (inv.masks m)
    enabled := fun m holds => inv.enabled m (by rwa [holding'] at holds)
    serves := fun m entering => by
      obtain rfl := (entered m).mp entering
      exact ⟨⟨own, master, slave⟩, on⟩
    quiet := fun none => absurd ((entered n).mpr rfl) (none n)
    lines := inv.lines
    nested := fun h member => by
      cases under : s.trap.handlers with
      | nil => simp [TrapState.trap, under] at member
      | cons g rest =>
        rw [TrapState.trap, under, List.dropLast_cons_cons, List.mem_cons] at member
        rcases member with rfl | member
        · exact ⟨n, line, rfl⟩
        · exact inv.nested h (under ▸ member)
    distinct := List.pairwise_cons.mpr ⟨fun g member m kind => by
      obtain rfl := TrapKind.irq.inj kind
      exact free g member, inv.distinct⟩
    stacked := by
      have stacked := inv.stacked
      cases under : s.trap.handlers with
      | nil => simp [TrapState.trap, under, Stacked]
      | cons g rest =>
        rw [under] at stacked
        simp only [TrapState.trap, under]
        exact ⟨inv.running under enabled, stacked⟩
    spent := fun h member called call => by
      obtain rfl := Option.some.inj member
      exact absurd call (by simp) }

/-- A step that changes no mask of a handler under way. -/
theorem IrqInv.silent {t' : TrapState} (inv : IrqInv L use s) (trap : TrapInv L t')
    (holding : ∀ n, KeepsMasked (t'.holding L) n ↔ KeepsMasked (s.trap.holding L) n)
    (entering : ∀ n, t'.Entering L n ↔ s.trap.Entering L n)
    (nested : ∀ h ∈ t'.handlers.dropLast, ∃ n ∈ use.lines.erase 2, h.kind = .irq n)
    (distinct : t'.handlers.Pairwise fun h g => ∀ n, h.kind = .irq n → g.kind ≠ .irq n)
    (stacked : Stacked L use.stack t'.current t'.handlers)
    (spent : ∀ h ∈ t'.handlers.head?, h.Spent use.stack t'.cpu.regs.esp) :
    IrqInv L use { s with trap := t' } := {
  trap, nested, distinct, stacked, spent
  programmed := inv.programmed
  masks := fun n => (inv.masks n).trans (or_congr_right (holding n).symm)
  enabled := fun n keeps => inv.enabled n ((holding n).mp keeps)
  serves := fun n enters => inv.serves n ((entering n).mp enters)
  quiet := fun none => inv.quiet fun n enters => none n ((entering n).mpr enters)
  lines := inv.lines }

/-- A step while a process runs. -/
theorem IrqInv.idle {t' : TrapState} (inv : IrqInv L use s) (trap : TrapInv L t')
    (idle : s.trap.handlers = []) (idle' : t'.handlers = []) : IrqInv L use { s with trap := t' } := by
  refine inv.silent trap (fun n => by rw [holding_nil idle, holding_nil idle'])
    (fun n => ?_) ?_ ?_ ?_ ?_
  · exact iff_of_false (not_entering_nil idle') (not_entering_nil idle)
  all_goals simp [idle', Stacked]

theorem IrqInv.sysCall (inv : IrqInv L use s) (idle : s.trap.handlers = []) :
    IrqInv L use { s with trap := s.trap.trap L .sysCall } := by
  have may : MayTrap L s.trap .sysCall :=
    ⟨fun other => absurd rfl other, fun _ h member => by simp [idle] at member,
      fun busy => absurd idle busy⟩
  have handlers : (s.trap.trap L .sysCall).handlers = [⟨⟨.sysCall, s.trap.cpu.regs, none⟩, none⟩] := by
    rw [TrapState.trap, idle]
  have outside : Outside L .sysCall (s.trap.trap L .sysCall).cpu.regs :=
    Or.inl (inv.trap.trap_eip may)
  refine inv.silent (inv.trap.step (.code (.trap may))) (fun n => ?_) (fun n => ?_) ?_ ?_ ?_ ?_
  · rw [holding_nil idle, holding_cons handlers, if_pos outside]
  · rw [entering_cons handlers]
    exact iff_of_false (fun both => absurd both.1.symm irq_ne_sysCall) (not_entering_nil idle)
  all_goals simp [handlers, Stacked, Handler.Spent]

/-! ### Inside a handler -/

/-- **A step inside a handler** that does not reach or leave the instructions at the ports of an
interrupt. -/
theorem IrqInv.goesOn (inv : IrqInv L use s) (under : s.trap.handlers = h :: rest)
    (kind : h'.kind = h.kind) (interrupted : h'.interrupted = h.interrupted)
    (trap : TrapInv L { s.trap with cpu := c', handlers := h' :: rest })
    (place : ∀ n, h.kind = .irq n →
      (Outside L (.irq n) c'.regs ↔ Outside L (.irq n) s.trap.cpu.regs) ∧
      (c'.regs.eip = L.code (.line (.saved (.irq n))) ↔
        s.trap.cpu.regs.eip = L.code (.line (.saved (.irq n)))))
    (spent : h'.Spent use.stack c'.regs.esp) :
    IrqInv L use { s with trap := { s.trap with cpu := c', handlers := h' :: rest } } := by
  have nested := inv.nested
  have distinct := inv.distinct
  have stacked := inv.stacked
  rw [under] at nested distinct stacked
  obtain ⟨apart, others⟩ := List.pairwise_cons.mp distinct
  refine inv.silent trap (fun n => ?_) (fun n => ?_) (fun g member => ?_)
    (List.pairwise_cons.mpr ⟨fun g member n own => apart g member n (kind ▸ own), others⟩)
    (stacked.head interrupted) fun g member => by
      obtain rfl := Option.some.inj member
      exact spent
  · rw [keepsMasked_holding (t := { s.trap with cpu := c', handlers := h' :: rest }) rfl,
      keepsMasked_holding under, kind]
    refine or_congr_left (and_congr_right fun own => not_congr ?_)
    rw [own]
    exact (place n own).1
  · rw [entering_cons (t := { s.trap with cpu := c', handlers := h' :: rest }) rfl,
      entering_cons under, kind]
    exact and_congr_right fun own => (place n own).2
  · cases rest with
    | nil => simp at member
    | cons f rest =>
      rw [List.dropLast_cons_cons, List.mem_cons] at member
      rcases member with rfl | member
      · rw [kind]
        exact nested h (by simp)
      · exact nested g (by rw [List.dropLast_cons_cons]; exact List.mem_cons_of_mem _ member)

/-- Places other than the first and the last are inside. -/
theorem not_outside {kind : TrapKind} {place : Place} (here : r.eip = L.code place)
    (first : place ≠ .line (.saved kind)) (process : place ≠ .restartProcess)
    (reEnter : place ≠ .restartReEnter) : ¬ Outside L kind r := by
  rintro (there | there | there)
  · exact first (L.code_injective (here.symm.trans there))
  · exact process (L.code_injective (here.symm.trans there))
  · exact reEnter (L.code_injective (here.symm.trans there))

theorem off_outside {kind : TrapKind} (off : ∀ place, r.eip ≠ L.code place) : ¬ Outside L kind r := by
  rintro (there | there | there) <;> exact off _ there

/-- Both places are inside. -/
theorem inside_both {r r' : Regs} (before : ∀ kind, ¬ Outside L kind r)
    (after : ∀ kind, ¬ Outside L kind r') (n : Fin 16) :
    (Outside L (.irq n) r' ↔ Outside L (.irq n) r) ∧
      (r'.eip = L.code (.line (.saved (.irq n))) ↔ r.eip = L.code (.line (.saved (.irq n)))) :=
  ⟨iff_of_false (after _) (before _),
    iff_of_false (fun here => after _ (Or.inl here)) fun here => before _ (Or.inl here)⟩

theorem IrqInv.call {target : Word} (inv : IrqInv L use s) (under : s.trap.handlers = h :: rest)
    (here : s.trap.cpu.regs.eip = L.code (.call h.kind)) (away : ∀ place, target ≠ L.code place) :
    IrqInv L use { s with trap := { s.trap with
      cpu := s.trap.cpu.call L h.kind target
      handlers := { h with call := some (s.trap.cpu.call L h.kind target).regs } :: rest } } := by
  refine inv.goesOn under rfl rfl (inv.trap.call under here away) (fun n _ => ?_) ?_
  · exact inside_both (fun kind => not_outside here (by simp) (by simp) (by simp))
      (fun kind => off_outside away) n
  · rintro called call
    obtain rfl := Option.some.inj call
    exact Nat.le_add_right _ _

/-- While its C function runs, a handler is away from the assembly. -/
theorem IrqInv.off (inv : IrqInv L use s) (under : s.trap.handlers = h :: rest) (runs : h.call ≠ none)
    (kind : TrapKind) : ¬ Outside L kind s.trap.cpu.regs := by
  obtain ⟨_, _, _, slot, on⟩ := inv.trap.innermost under
  exact off_outside (on.doing.off_places runs)

theorem IrqInv.body {called : Regs} (inv : IrqInv L use s) (under : s.trap.handlers = h :: rest)
    (runs : h.call = some called) (step : BodyStep L h.kind called s.trap.cpu c')
    (spent : called.esp ≤ c'.regs.esp + use.stack) :
    IrqInv L use { s with trap := { s.trap with cpu := c' } } := by
  have next := inv.goesOn under rfl rfl (inv.trap.body under runs step)
    (fun n _ => inside_both (inv.off under (by simp [runs])) (fun kind => off_outside step.eip) n)
    fun called' call => by
      obtain rfl := Option.some.inj (runs.symm.trans call)
      exact spent
  rwa [← under] at next

theorem IrqInv.ret {called : Regs} (inv : IrqInv L use s) (under : s.trap.handlers = h :: rest)
    (runs : h.call = some called) (esp : s.trap.cpu.regs.esp = called.esp) :
    IrqInv L use { s with trap := { s.trap with
      cpu := s.trap.cpu.ret
      handlers := { h with call := none, value := some s.trap.cpu.regs.eax } :: rest } } := by
  obtain ⟨_, _, _, slot, on⟩ := inv.trap.innermost under
  obtain ⟨_, _, back, _⟩ := on.doing.in_body runs
  have eip : s.trap.cpu.ret.regs.eip = L.code (.line h.kind.returned) := (congrArg _ esp).trans back
  refine inv.goesOn under rfl rfl (inv.trap.ret under runs esp) (fun n _ => ?_)
    fun called call => absurd call (by simp)
  refine inside_both (inv.off under (by simp [runs])) (fun kind => ?_) n
  refine not_outside eip ?_ (by simp) (by simp)
  cases h.kind <;> simp [TrapKind.returned]

theorem IrqInv.flags {eflags : Word} (inv : IrqInv L use s) (busy : s.trap.handlers ≠ [])
    (same : eflags.getLsbD 9 = s.trap.cpu.regs.interrupts) :
    IrqInv L use { s with trap := { s.trap with
      cpu := { s.trap.cpu with regs := { s.trap.cpu.regs with eflags := eflags } } } } := by
  obtain ⟨h, rest, under⟩ := List.exists_cons_of_ne_nil busy
  have next := inv.goesOn under rfl rfl (inv.trap.flags under same) (fun _ _ => ⟨Iff.rfl, Iff.rfl⟩)
    (inv.spent h (by simp [under]))
  rwa [← under] at next

/-- **Entering** masks the line. -/
theorem IrqInv.enter (input : BitVec 8) (inv : IrqInv L use s) (under : s.trap.handlers = h :: rest)
    (here : s.trap.cpu.regs.eip = L.code (.line (.saved (.irq n)))) (own : h.kind = .irq n)
    (call : h.call = none) : IrqInv L use { s with
      trap := { s.trap with cpu := s.trap.cpu.run L input (.saved (.irq n)), handlers := h :: rest }
      irqs := { s.irqs with pics := enterIrq n s.irqs.pics } } := by
  have next := inv.trap.line input under here
  have outside : Outside L h.kind s.trap.cpu.regs := Or.inl (own ▸ here)
  obtain ⟨serves, on⟩ := inv.serves n ((entering_cons under).mpr ⟨own, here⟩)
  obtain ⟨programmed, quiet, masked, _⟩ := enterIrq_spec inv.programmed serves
  have handlers : ({ s.trap with
      cpu := s.trap.cpu.run L input (.saved (.irq n)), handlers := h :: rest } : TrapState).handlers =
        h :: rest := rfl
  have inside : ¬ Outside L h.kind (s.trap.cpu.run L input (.saved (.irq n))).regs :=
    not_outside rfl (by simp) (by simp) (by simp)
  have before : ∀ m, KeepsMasked (s.trap.holding L) m ↔ KeepsMasked rest m := fun m => by
    rw [holding_cons under, if_pos outside]
  have mine : ∀ m, h.kind = .irq m ↔ m = n := fun m => by
    rw [own]
    exact ⟨fun same => (TrapKind.irq.inj same).symm, fun same => same ▸ rfl⟩
  exact {
    trap := next, programmed, lines := inv.lines
    masks := fun m => by
      rw [masked, inv.masks, before, holding_cons handlers, if_neg inside, keepsMasked_cons, mine]
      exact or_left_comm
    enabled := fun m keeps => by
      rw [holding_cons handlers, if_neg inside, keepsMasked_cons, mine, ← before] at keeps
      exact keeps.elim (fun same => same ▸ on) (inv.enabled m)
    serves := fun m entering => by
      obtain ⟨kind, there⟩ := (entering_cons handlers).mp entering
      exact absurd (Or.inl (kind ▸ there)) inside
    quiet := fun _ => quiet
    nested := under ▸ inv.nested
    distinct := under ▸ inv.distinct
    stacked := under ▸ inv.stacked
    spent := fun g member called runs => by
      obtain rfl := Option.some.inj member
      exact absurd (call.symm.trans runs) (by simp) }

/-- **Leaving** unmasks it: no other handler is of this line. -/
theorem IrqInv.leave (input : BitVec 8) (inv : IrqInv L use s) (under : s.trap.handlers = h :: rest)
    (here : s.trap.cpu.regs.eip = L.code (.line (.mask (.irq n)))) (own : h.kind = .irq n)
    (call : h.call = none) : IrqInv L use { s with
      trap := { s.trap with cpu := s.trap.cpu.run L input (.mask (.irq n)), handlers := h :: rest }
      irqs := { s.irqs with pics := leaveIrq n s.irqs.pics } } := by
  have next := inv.trap.line input under here
  have inside : ¬ Outside L h.kind s.trap.cpu.regs := not_outside here (by simp) (by simp) (by simp)
  have exit := inv.trap.ret_leads under (own ▸ here) input
  rw [own] at exit
  have outside : Outside L h.kind (s.trap.cpu.run L input (.mask (.irq n))).regs := by
    refine Or.inr ?_
    rw [exit]
    by_cases last : rest = []
    · exact Or.inl (by rw [if_pos last])
    · exact Or.inr (by rw [if_neg last])
  obtain ⟨same, masked⟩ := leaveIrq_spec inv.programmed n
  have distinct := inv.distinct
  rw [under] at distinct
  have others : ¬ KeepsMasked rest n := by
    rintro ⟨g, member, kind⟩
    exact (List.pairwise_cons.mp distinct).1 g member n own kind
  have handlers : ({ s.trap with
      cpu := s.trap.cpu.run L input (.mask (.irq n)), handlers := h :: rest } : TrapState).handlers =
        h :: rest := rfl
  have before : ∀ m, KeepsMasked (s.trap.holding L) m ↔ m = n ∨ KeepsMasked rest m := fun m => by
    rw [holding_cons under, if_neg inside, keepsMasked_cons, own]
    exact or_congr_left ⟨fun same => (TrapKind.irq.inj same).symm, fun same => same ▸ rfl⟩
  have on : s.enabled n = true := (inv.enabled n ((before n).mpr (Or.inl rfl))).1
  exact {
    trap := next, lines := inv.lines, distinct
    programmed := same.sameProgram.programmed inv.programmed
    masks := fun m => by
      rw [masked, inv.masks, before, holding_cons handlers, if_pos outside]
      by_cases here : m = n
      · subst here
        simp [on, others]
      · simp [here]
    enabled := fun m keeps => by
      rw [holding_cons handlers, if_pos outside] at keeps
      exact inv.enabled m ((before m).mpr (Or.inr keeps))
    serves := fun m entering => by
      obtain ⟨kind, there⟩ := (entering_cons handlers).mp entering
      rw [exit] at there
      exact absurd (L.code_injective there) (by split_ifs <;> simp)
    quiet := fun _ => same.quiet (inv.quiet fun m entering => by
      obtain ⟨kind, there⟩ := (entering_cons under).mp entering
      exact inside (Or.inl (kind ▸ there)))
    nested := under ▸ inv.nested
    stacked := under ▸ inv.stacked
    spent := fun g member called runs => by
      obtain rfl := Option.some.inj member
      exact absurd (call.symm.trans runs) (by simp) }

/-- **An instruction of a handler keeps the invariant.** -/
theorem IrqInv.line {l : Line} (input : BitVec 8) (inv : IrqInv L use s)
    (busy : s.trap.handlers ≠ []) (here : s.trap.cpu.regs.eip = L.code (.line l)) :
    IrqInv L use { s with
      trap := { s.trap with cpu := s.trap.cpu.run L input l }
      irqs := { s.irqs with pics := l.ports s.irqs.pics } } := by
  obtain ⟨h, rest, under⟩ := List.exists_cons_of_ne_nil busy
  obtain ⟨_, _, _, slot, on⟩ := inv.trap.innermost under
  obtain ⟨own, _, call, _⟩ := on.doing.at_line here (level_exit_ne_line l)
  have next := inv.trap.line input under here
  have spent : h.Spent use.stack (s.trap.cpu.run L input l).regs.esp :=
    fun called runs => absurd (call.symm.trans runs) (by simp)
  have silent (place : ∀ n, h.kind = .irq n →
      (Outside L (.irq n) (s.trap.cpu.run L input l).regs ↔ Outside L (.irq n) s.trap.cpu.regs) ∧
      ((s.trap.cpu.run L input l).regs.eip = L.code (.line (.saved (.irq n))) ↔
        s.trap.cpu.regs.eip = L.code (.line (.saved (.irq n))))) :
      IrqInv L use { s with trap := { s.trap with cpu := s.trap.cpu.run L input l } } := by
    have after := inv.goesOn under rfl rfl next place spent
    rwa [← under] at after
  have system (kind : l.kind = .sysCall) :
      IrqInv L use { s with trap := { s.trap with cpu := s.trap.cpu.run L input l } } :=
    silent fun n irq => absurd (irq.symm.trans (own.symm.trans kind)) irq_ne_sysCall
  cases l with
  | saved kind =>
    cases kind with
    | irq n =>
      have after := inv.enter input under here own.symm call
      rwa [← under] at after
    | sysCall => exact system rfl
  | mask kind =>
    cases kind with
    | irq n =>
      have after := inv.leave input under here own.symm call
      rwa [← under] at after
    | sysCall => exact system rfl
  | pushNum n | loadNum n | popNum n =>
    refine silent fun m _ => inside_both (fun kind => ?_) (fun kind => ?_) m
    · exact not_outside here (by simp) (by simp) (by simp)
    · exact not_outside rfl (by simp) (by simp) (by simp)
  | pushFrame | pushReady | pushEdx | pushEcx | pushEbx | dropArgs | popFrame | storeEax =>
    exact system rfl

/-! ### The way back -/

/-- **`restart_re_enter`** goes back to a handler with its line masked. -/
theorem IrqInv.reEnter (inv : IrqInv L use s) (under : s.trap.handlers = h :: rest)
    (here : s.trap.cpu.regs.eip = L.code .restartReEnter) :
    IrqInv L use { s with trap := { s.trap with
      cpu := s.trap.cpu.restartReEnter, handlers := rest } } := by
  obtain ⟨nonempty, resumes, trap⟩ := inv.trap.reEnter under here
  obtain ⟨g, rest, rfl⟩ := List.exists_cons_of_ne_nil nonempty
  have nested := inv.nested
  have distinct := inv.distinct
  have stacked := inv.stacked
  rw [under] at nested distinct stacked
  obtain ⟨⟨inside, depth, spent⟩, outer⟩ := stacked
  obtain ⟨n, line, kind⟩ := nested h (by simp)
  have regs : s.trap.cpu.restartReEnter.regs = h.interrupted := by
    rw [Trap.Resumes, kind] at resumes
    exact resumes
  have outside : Outside L h.kind s.trap.cpu.regs := Or.inr (Or.inr here)
  rw [← regs] at inside spent
  have handlers : ({ s.trap with cpu := s.trap.cpu.restartReEnter, handlers := g :: rest } :
    TrapState).handlers = g :: rest := rfl
  refine inv.silent trap (fun m => ?_) (fun m => ?_) (fun f member => ?_)
    (List.pairwise_cons.mp distinct).2 outer fun f member => ?_
  · rw [holding_cons under, if_pos outside, holding_cons handlers, if_neg inside]
  · rw [entering_cons handlers, entering_cons under]
    refine iff_of_false (fun both => inside (Or.inl ?_)) fun both => ?_
    · rw [both.1]
      exact both.2
    · exact absurd (L.code_injective (here.symm.trans both.2)) (by simp)
  · exact nested f (by rw [List.dropLast_cons_cons]; exact List.mem_cons_of_mem _ member)
  · obtain rfl := Option.some.inj member
    exact spent

theorem IrqInv.process (inv : IrqInv L use s) (under : s.trap.handlers = h :: rest)
    (here : s.trap.cpu.regs.eip = L.code .restartProcess) :
    IrqInv L use { s with trap :=
      { cpu := s.trap.cpu.restartProcess L, handlers := rest, current := s.trap.cpu.processReady
        last := Function.update s.trap.last s.trap.current h.toTrap } } := by
  obtain ⟨rfl, _, trap⟩ := inv.trap.process under here
  have outside : Outside L h.kind s.trap.cpu.regs := Or.inr (Or.inl here)
  refine inv.silent trap (fun n => ?_) (fun n => ?_) ?_ ?_ ?_ ?_
  · rw [holding_cons under, if_pos outside, holding_nil rfl]
  · rw [entering_cons under]
    refine iff_of_false (not_entering_nil rfl) fun both => ?_
    exact absurd (L.code_injective (here.symm.trans both.2)) (by simp)
  all_goals simp [Stacked]

/-! ### Runs -/

/-- **Every step keeps the invariant**, and is a step of the processor, of a device or of a driver. -/
theorem IrqInv.step (inv : IrqInv L use s) (step : IrqStep L use s s') :
    IrqInv L use s' ∧ (s'.trap = s.trap ∨ TrapStep L s.trap s'.trap) := by
  cases step with
  | raise n => exact ⟨inv.raise n, Or.inl rfl⟩
  | driver idle within => exact ⟨inv.driver idle within, Or.inl rfl⟩
  | irq enabled asked =>
    exact ⟨inv.irq enabled asked, Or.inr (.code (.trap (inv.mayTrap enabled asked)))⟩
  | sysCall idle =>
    refine ⟨inv.sysCall idle, Or.inr (.code (.trap ⟨fun other => absurd rfl other, ?_, ?_⟩))⟩
    · exact fun _ h member => by simp [idle] at member
    · exact fun busy => absurd idle busy
  | line busy here => exact ⟨inv.line _ busy here, Or.inr (.code (.line busy here))⟩
  | call under here away => exact ⟨inv.call under here away, Or.inr (.code (.call under here away))⟩
  | body under runs step spent =>
    exact ⟨inv.body under runs step spent, Or.inr (.body under runs step)⟩
  | ret under runs esp => exact ⟨inv.ret under runs esp, Or.inr (.ret under runs esp)⟩
  | flags busy same => exact ⟨inv.flags busy same, Or.inr (.flags busy same)⟩
  | restartReEnter under here =>
    exact ⟨inv.reEnter under here, Or.inr (.code (.restartReEnter under here))⟩
  | restartProcess under here =>
    exact ⟨inv.process under here, Or.inr (.code (.restartProcess under here))⟩
  | user idle step =>
    exact ⟨inv.idle (inv.trap.step (.user idle step)) idle idle, Or.inr (.user idle step)⟩

/-- **The start has the invariant.** -/
theorem IrqStarted.inv (started : IrqStarted L use s) : IrqInv L use s := by
  obtain ⟨trap, before, calls, within, irqs, enabled⟩ := started
  obtain ⟨programmed, quiet, _, masks, _⟩ := irqs_started before calls
  rw [← irqs, ← enabled] at masks
  rw [← irqs] at programmed quiet
  have under := trap.handlers
  have outside : ∀ kind, Outside L kind s.trap.cpu.regs := fun _ => Or.inr (Or.inl trap.eip)
  have nobody : ∀ n, ¬ KeepsMasked (s.trap.holding L) n := fun n => by
    rw [holding_cons under, if_pos (outside _)]
    exact not_keepsMasked_nil
  have lines : ∀ (calls : List IrqCall) (on : Fin 16 → Bool), (∀ call ∈ calls, call.Within use.lines) →
      (∀ n, on n = true → n ∈ use.lines) →
      ∀ n, calls.foldl IrqCall.enables on n = true → n ∈ use.lines := by
    intro calls
    induction calls with
    | nil => exact fun _ _ given => given
    | cons call calls ih =>
      intro on within given
      obtain ⟨first, others⟩ := List.forall_mem_cons.mp within
      exact ih _ others (first.enables given)
  exact {
    trap := trap.inv, programmed
    masks := fun n => (masks n).trans (or_iff_left (nobody n)).symm
    enabled := fun n keeps => absurd keeps (nobody n)
    serves := fun n entering => by
      obtain ⟨_, here⟩ := (entering_cons under).mp entering
      exact absurd (L.code_injective (trap.eip.symm.trans here)) (by simp)
    quiet := fun _ => quiet
    lines := enabled ▸ lines calls _ within fun n on => absurd on (by simp)
    nested := by simp [under]
    distinct := by simp [under]
    stacked := by simp [under, Stacked]
    spent := by simp [under, Handler.Spent] }

/-- **Every state of a run has the invariant, and its traps are a run.** -/
theorem irqRun_inv (started : IrqStarted L use s₀) (run : IrqRun L use s₀ s) :
    IrqInv L use s ∧ TrapRun L s₀.trap s.trap := by
  induction run with
  | refl => exact ⟨started.inv, .refl⟩
  | tail _ step ih =>
    obtain ⟨inv, traps⟩ := ih
    obtain ⟨next, same | trap⟩ := inv.step step
    · exact ⟨next, same ▸ traps⟩
    · exact ⟨next, traps.tail trap⟩

end WalOS
