/-
**Interrupts nest by their masks.**

`IrqInv` says, of every state of a run, which lines are masked and in service, and how much of the
kernel stack each handler under way has left.

* `TrapState.holding` — the handlers that keep their line masked: those suspended, and the innermost
  but for its first and last instructions.
* `IrqInv.depth`, `IrqInv.mayTrap` — no line is under way twice, so the handlers are at most as many as
  the lines, and a trap always finds room on the stack.
* `irqRun_inv` — every state of a run has the invariant, and its traps are a run of `TrapStep`.
-/

import WalOS.Irq.Nested
import WalOS.Trap.Steps

namespace WalOS

open Intel8259

/-! ### The invariant -/

/-- A handler has its line unmasked: not masked yet, or unmasked again. -/
def Outside (L : TrapLayout) (kind : TrapKind) (r : Regs) : Prop :=
  r.eip = L.code (.line (.saved kind)) ∨ r.eip = L.code .restartProcess ∨
    r.eip = L.code .restartReEnter

instance (L : TrapLayout) (kind : TrapKind) (r : Regs) : Decidable (Outside L kind r) :=
  inferInstanceAs (Decidable (_ ∨ _ ∨ _))

/-- The handlers that keep their line masked. -/
def TrapState.holding (L : TrapLayout) (s : TrapState) : List Handler :=
  match s.handlers with
  | [] => []
  | h :: rest => if Outside L h.kind s.cpu.regs then rest else h :: rest

/-- One of the handlers, which keep their lines masked, is of this line. -/
def KeepsMasked (handlers : List Handler) (n : Fin 16) : Prop := ∃ h ∈ handlers, h.kind = .irq n

/-- The innermost handler has not ended the interrupt of its line yet. -/
def TrapState.Entering (L : TrapLayout) (s : TrapState) (n : Fin 16) : Prop :=
  ∃ h rest, s.handlers = h :: rest ∧ h.kind = .irq n ∧
    s.cpu.regs.eip = L.code (.line (.saved (.irq n)))

/-- The C function of a handler has used at most `stack` bytes. -/
def Handler.Spent (h : Handler) (stack esp : ℕ) : Prop :=
  ∀ called, h.call = some called → called.esp ≤ esp + stack

/-- `h` interrupted `g`, whose line was masked, with this much of the stack used. -/
structure Interrupts (L : TrapLayout) (stack : ℕ) (current : Fin totalTaskCnt) (h g : Handler)
    (rest : List Handler) : Prop where
  inside : ¬ Outside L g.kind h.interrupted
  depth : (L.level current g rest).base ≤ h.interrupted.esp + (stack + 24)
  spent : g.Spent stack h.interrupted.esp

/-- Every handler under way interrupted the next one. -/
def Stacked (L : TrapLayout) (stack : ℕ) (current : Fin totalTaskCnt) : List Handler → Prop
  | h :: g :: rest => Interrupts L stack current h g rest ∧ Stacked L stack current (g :: rest)
  | _ => True

/-- **The invariant.** -/
structure IrqInv (L : TrapLayout) (use : IrqUse) (s : IrqState) : Prop where
  trap : TrapInv L s.trap
  programmed : Programmed s.irqs.pics
  masks : ∀ n, s.irqs.pics.Masked n ↔ s.enabled n = false ∨ KeepsMasked (s.trap.holding L) n
  enabled : ∀ n, KeepsMasked (s.trap.holding L) n → s.enabled n = true ∧ ¬ IsCascade n
  serves : ∀ n, s.trap.Entering L n → Serves s.irqs.pics n ∧ s.enabled n = true ∧ ¬ IsCascade n
  quiet : (∀ n, ¬ s.trap.Entering L n) → s.irqs.pics.Quiet
  lines : ∀ n, s.enabled n = true → n ∈ use.lines
  nested : ∀ h ∈ s.trap.handlers.dropLast, ∃ n ∈ use.lines.erase 2, h.kind = .irq n
  distinct : s.trap.handlers.Pairwise fun h g => ∀ n, h.kind = .irq n → g.kind ≠ .irq n
  stacked : Stacked L use.stack s.trap.current s.trap.handlers
  spent : ∀ h ∈ s.trap.handlers.head?, h.Spent use.stack s.trap.cpu.regs.esp

/-! ### Handlers -/

variable {L : TrapLayout} {use : IrqUse} {s s' s₀ : IrqState} {t : TrapState} {h g h' : Handler}
  {rest : List Handler} {n : Fin 16} {stack : ℕ} {current : Fin totalTaskCnt} {c' : Cpu} {v : Level}
  {m : Bytes.Mem} {slot : Word} {r : Regs}

theorem holding_cons (under : t.handlers = h :: rest) :
    t.holding L = if Outside L h.kind t.cpu.regs then rest else h :: rest := by
  rw [TrapState.holding, under]

theorem holding_nil (idle : t.handlers = []) : t.holding L = [] := by
  rw [TrapState.holding, idle]

theorem keepsMasked_cons : KeepsMasked (h :: rest) n ↔ h.kind = .irq n ∨ KeepsMasked rest n := by
  simp [KeepsMasked]

theorem not_keepsMasked_nil : ¬ KeepsMasked [] n := by
  simp [KeepsMasked]

theorem keepsMasked_holding (under : t.handlers = h :: rest) :
    KeepsMasked (t.holding L) n ↔ (h.kind = .irq n ∧ ¬ Outside L h.kind t.cpu.regs) ∨ KeepsMasked rest n := by
  rw [holding_cons under]
  split_ifs with outside
  · simp [outside]
  · rw [keepsMasked_cons]
    simp [outside]

theorem entering_cons (under : t.handlers = h :: rest) : t.Entering L n ↔
    h.kind = .irq n ∧ t.cpu.regs.eip = L.code (.line (.saved (.irq n))) := by
  constructor
  · rintro ⟨h', rest', under', kind, here⟩
    obtain ⟨rfl, rfl⟩ := List.cons.inj (under.symm.trans under')
    exact ⟨kind, here⟩
  · exact fun both => ⟨h, rest, under, both⟩

theorem not_entering_nil (idle : t.handlers = []) : ¬ t.Entering L n := by
  rintro ⟨h, rest, under, _⟩
  rw [idle] at under
  exact absurd under (by simp)

/-- The innermost handler matters to what it interrupted by its registers only. -/
theorem Stacked.head (same : h'.interrupted = h.interrupted) (stacked : Stacked L stack current (h :: rest)) :
    Stacked L stack current (h' :: rest) := by
  cases rest with
  | nil => trivial
  | cons g rest =>
    obtain ⟨⟨inside, depth, spent⟩, outer⟩ := stacked
    exact ⟨⟨same ▸ inside, same ▸ depth, same ▸ spent⟩, outer⟩

theorem Stacked.tail (stacked : Stacked L stack current (h :: rest)) : Stacked L stack current rest := by
  cases rest with
  | nil => trivial
  | cons g rest => exact stacked.2

/-- **How deep the levels lie**, by induction on the handlers. -/
theorem Stacked.base (stacked : Stacked L stack current (h :: rest)) :
    L.stackTop ≤ (L.level current h rest).base + 4 + rest.length * (stack + 92) := by
  induction rest generalizing h with
  | nil =>
    simp only [TrapLayout.level, TrapLayout.stackTop]
    omega
  | cons g rest ih =>
    obtain ⟨⟨_, depth, _⟩, outer⟩ := stacked
    have below := ih outer
    have level : (L.level current h (g :: rest)).base = h.interrupted.esp - 68 := rfl
    rw [List.length_cons, Nat.add_mul, level]
    omega

/-! ### Places -/

/-- A C function is away from the assembly. -/
theorem Doing.off_places (doing : Doing L v m h slot r) (runs : h.call ≠ none) (place : Place) :
    r.eip ≠ L.code place := by
  cases doing with
  | line _ _ _ call => exact absurd call runs
  | call _ _ call => exact absurd call runs
  | body _ off => exact off place
  | leaving _ _ call => exact absurd call runs

/-- **With interrupts enabled, a handler has masked its line.** -/
theorem Doing.inside (doing : Doing L v m h slot r) (enabled : r.interrupts = true)
    (exit : ∀ l, v.exit ≠ .line l) : ¬ Outside L h.kind r := by
  rintro (here | here | here)
  · obtain ⟨_, _, _, _, holds⟩ := doing.at_line here (exit _)
    cases kind : h.kind with
    | irq n =>
      rw [kind] at holds
      exact absurd (holds.symm.trans enabled) (by simp)
    | sysCall =>
      rw [kind] at holds
      exact absurd (holds.1.symm.trans enabled) (by simp)
  all_goals
    cases doing with
    | line _ eip => exact absurd (L.code_injective (here.symm.trans eip)) (by simp)
    | call eip => exact absurd (L.code_injective (here.symm.trans eip)) (by simp)
    | body _ off => exact absurd here (off _)
    | leaving _ _ _ disabled => exact absurd (disabled.symm.trans enabled) (by simp)

theorem pushed_le : (∀ l : Line, l.pushed ≤ 20) ∧ ∀ kind : TrapKind, kind.pushed ≤ 20 := by
  refine ⟨fun l => ?_, fun kind => ?_⟩
  · cases l <;> simp [Line.pushed]
  · cases kind <;> simp [TrapKind.pushed]

/-- **A handler that runs has its stack pointer near its level.** -/
theorem Doing.near (doing : Doing L v m h slot r) (running : r.interrupts = true ∨ h.call ≠ none)
    (spent : h.Spent stack r.esp) : v.base ≤ r.esp + (stack + 24) := by
  cases doing with
  | @line l _ _ esp =>
    have := pushed_le.1 l
    omega
  | call _ esp =>
    have := pushed_le.2 h.kind
    omega
  | body call _ esp =>
    have := pushed_le.2 h.kind
    have := spent _ call
    omega
  | leaving _ _ call disabled =>
    rcases running with enabled | running
    · exact absurd (disabled.symm.trans enabled) (by simp)
    · exact absurd call running

/-- An interrupted handler with interrupts enabled. -/
theorem IrqInv.running (inv : IrqInv L use s) (under : s.trap.handlers = h :: rest)
    (enabled : s.trap.cpu.regs.interrupts = true) : Interrupts L use.stack s.trap.current
      ⟨⟨.irq n, s.trap.cpu.regs, none⟩, none⟩ h rest := by
  obtain ⟨_, _, _, slot, on⟩ := inv.trap.innermost under
  have spent := inv.spent h (by simp [under])
  exact ⟨on.doing.inside enabled level_exit_ne_line, on.doing.near (Or.inl enabled) spent, spent⟩

/-- With interrupts enabled, every handler keeps its line masked and nothing is in service. -/
theorem IrqInv.all_hold (inv : IrqInv L use s) (enabled : s.trap.cpu.regs.interrupts = true) :
    s.trap.holding L = s.trap.handlers ∧ ∀ n, ¬ s.trap.Entering L n := by
  cases under : s.trap.handlers with
  | nil => exact ⟨holding_nil under, fun n => not_entering_nil under⟩
  | cons h rest =>
    have inside := (inv.running (n := 0) under enabled).inside
    refine ⟨(holding_cons under).trans (if_neg inside), fun n entering => ?_⟩
    obtain ⟨kind, here⟩ := (entering_cons under).mp entering
    exact inside (Or.inl (kind ▸ here))

/-! ### How many there are -/

/-- The line of an interrupt. -/
def TrapKind.num : TrapKind → Fin 16
  | .irq n => n
  | .sysCall => 0

/-- **Handlers with different lines are at most as many as the lines.** -/
theorem length_le_card {lines : Finset (Fin 16)} {handlers : List Handler}
    (each : ∀ h ∈ handlers, ∃ n ∈ lines, h.kind = .irq n)
    (distinct : handlers.Pairwise fun h g => ∀ n, h.kind = .irq n → g.kind ≠ .irq n) :
    handlers.length ≤ lines.card := by
  have nodup : (handlers.map (·.kind.num)).Nodup := by
    refine List.pairwise_map.mpr (List.Pairwise.imp_of_mem (fun {h g} left right apart => ?_) distinct)
    obtain ⟨n, _, kind⟩ := each h left
    obtain ⟨n', _, kind'⟩ := each g right
    rw [kind, kind']
    rintro rfl
    exact apart n kind kind'
  rw [← List.length_map (·.kind.num), ← List.toFinset_card_of_nodup nodup]
  refine Finset.card_le_card fun n member => ?_
  obtain ⟨h, inside, rfl⟩ := List.mem_map.mp (List.mem_toFinset.mp member)
  obtain ⟨n, line, kind⟩ := each h inside
  rw [kind]
  exact line

/-- **The handlers nest at most as deep as there are lines**, besides the outermost. -/
theorem IrqInv.depth (inv : IrqInv L use s) :
    s.trap.handlers.length ≤ (use.lines.erase 2).card + 1 := by
  have nested := length_le_card inv.nested (inv.distinct.sublist (List.dropLast_sublist _))
  rw [List.length_dropLast] at nested
  omega

/-- A line that the controllers ask for is enabled by a driver, and under way in no handler. -/
theorem IrqInv.asked (inv : IrqInv L use s) (enabled : s.trap.cpu.regs.interrupts = true)
    (asked : s.irqs.pics.request = some n) :
    n ∈ use.lines.erase 2 ∧ (s.enabled n = true ∧ ¬ IsCascade n) ∧
      ∀ h ∈ s.trap.handlers, h.kind ≠ .irq n := by
  obtain ⟨device, _, unmasked, _⟩ := request_spec asked
  rw [inv.masks, (inv.all_hold enabled).1, not_or, Bool.not_eq_false] at unmasked
  exact ⟨Finset.mem_erase.mpr ⟨device, inv.lines n unmasked.1⟩, ⟨unmasked.1, device⟩,
    fun h member kind => unmasked.2 ⟨h, member, kind⟩⟩

/-- **A trap always finds room on the stack.** -/
theorem IrqInv.mayTrap (inv : IrqInv L use s) (enabled : s.trap.cpu.regs.interrupts = true)
    (asked : s.irqs.pics.request = some n) : MayTrap L s.trap (.irq n) := by
  refine ⟨fun _ => enabled, fun sys => absurd sys irq_ne_sysCall, fun busy => ?_⟩
  obtain ⟨h, rest, under⟩ := List.exists_cons_of_ne_nil busy
  obtain ⟨line, _, free⟩ := inv.asked enabled asked
  have near := (inv.running (n := n) under enabled).depth
  have base := Stacked.base (under ▸ inv.stacked)
  -- the line that asks is not among those of the nested handlers
  have few : rest.length + 1 ≤ (use.lines.erase 2).card := by
    have others := @length_le_card ((use.lines.erase 2).erase n) s.trap.handlers.dropLast
      (fun h member => by
        obtain ⟨n', line', kind⟩ := inv.nested h member
        refine ⟨n', Finset.mem_erase.mpr ⟨?_, line'⟩, kind⟩
        rintro rfl
        exact free h (List.mem_of_mem_dropLast member) kind)
      (inv.distinct.sublist (List.dropLast_sublist _))
    rw [List.length_dropLast, under, List.length_cons, Finset.card_erase_of_mem line] at others
    have some := Finset.card_pos.mpr ⟨n, line⟩
    omega
  have room := (Nat.mul_le_mul_right (use.stack + 92) (Nat.succ_le_succ few)).trans use.room
  rw [Nat.succ_eq_add_one, Nat.add_mul, Nat.add_mul] at room
  unfold TrapLayout.stackTop at base
  show L.stackSpace + 128 ≤ s.trap.cpu.regs.esp
  have near : (L.level s.trap.current h rest).base ≤ s.trap.cpu.regs.esp + (use.stack + 24) := near
  omega

end WalOS
