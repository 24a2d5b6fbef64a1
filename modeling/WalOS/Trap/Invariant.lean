/-
**What holds while traps nest.**

A handler runs on a `Level`: the frame of what it interrupted, and below it the word that leads it out.
`Doing` says where in its code a handler is and what its stack holds there; `Nested` that every handler
under way is on its level, each suspended one with the registers that the next one saved.

* `Doing.line`, `Doing.call`, … — what holds at a place of the code.
* `Nested.congr` — what suspended handlers need lies above the stack pointer.
* `TrapInv` — the invariant of a state.
-/

import WalOS.Trap.Nesting

namespace WalOS

open Bytes

/-! ### Levels -/

/-- The frame of a handler, the address of the word it leaves through, and where that leads. -/
structure Level where
  frame : ℕ
  base : ℕ
  exit : Place

/-- The outermost handler saves to the `REG_STACK` and runs from `StackTop`, a nested one goes on below
the stack pointer it found. -/
def TrapLayout.level (L : TrapLayout) (current : Fin totalTaskCnt) (h : Handler) : List Handler → Level
  | [] => ⟨L.sym.entry current, L.stackTop - 4, .restartProcess⟩
  | _ :: _ => ⟨h.interrupted.esp - 64, h.interrupted.esp - 68, .restartReEnter⟩

def Line.kind : Line → TrapKind
  | .saved kind => kind
  | .mask kind => kind
  | .pushNum num => .irq num
  | .loadNum num => .irq num
  | .popNum num => .irq num
  | _ => .sysCall

/-- The bytes that a handler has pushed at a line, and at its call. -/
def Line.pushed : Line → ℕ
  | .loadNum _ => 4
  | .popNum _ => 4
  | .pushReady => 4
  | .pushEdx => 8
  | .pushEcx => 12
  | .pushEbx => 16
  | .dropArgs => 20
  | .popFrame => 4
  | _ => 0

def TrapKind.pushed : TrapKind → ℕ
  | .irq _ => 4
  | .sysCall => 20

/-- `sys_call` has pushed the address of its frame. -/
def Level.FramePushed (v : Level) (m : Mem) : Prop :=
  load32 m (v.base - 4) = BitVec.ofNat 32 v.frame

/-- What holds at a line, with `slot` in the field `eax` of the frame. -/
def Level.AtLine (v : Level) (m : Mem) (t : Trap) (slot : Word) (r : Regs) : Line → Prop
  | .saved (.irq _) => r.interrupts = false
  | .saved .sysCall => r.interrupts = false ∧ r.esi = BitVec.ofNat 32 v.frame
  | .pushFrame => r.esi = BitVec.ofNat 32 v.frame
  | .pushReady | .pushEdx | .pushEcx | .pushEbx => v.FramePushed m
  | .dropArgs | .popFrame => v.FramePushed m ∧ t.value = some r.eax
  | .storeEax => r.esi = BitVec.ofNat 32 v.frame ∧ t.value = some r.eax
  | .mask .sysCall => t.value = some slot
  | _ => True

/-- Where a handler with the registers `r` is in its code. -/
inductive Doing (L : TrapLayout) (v : Level) (m : Mem) (h : Handler) (slot : Word) (r : Regs) : Prop
  where
  | line {l : Line} : l.kind = h.kind → r.eip = L.code (.line l) → r.esp = v.base - l.pushed →
      h.call = none → load32 m v.base = L.code v.exit → v.AtLine m h.toTrap slot r l →
      Doing L v m h slot r
  | call : r.eip = L.code (.call h.kind) → r.esp = v.base - h.kind.pushed → h.call = none →
      load32 m v.base = L.code v.exit → (h.kind = .sysCall → v.FramePushed m) → Doing L v m h slot r
  | body {called : Regs} : h.call = some called → (∀ place, r.eip ≠ L.code place) →
      called.esp = v.base - h.kind.pushed - 4 → r.esp ≤ called.esp →
      load32 m called.esp = L.code (.line h.kind.returned) → load32 m v.base = L.code v.exit →
      (h.kind = .sysCall → v.FramePushed m) → Doing L v m h slot r
  | leaving : r.eip = L.code v.exit → (v.exit = .restartReEnter → r.esp = v.frame) →
      h.call = none → r.interrupts = false → (h.kind = .sysCall → h.value = some slot) →
      Doing L v m h slot r

/-- A handler on its level, in the kernel. -/
structure OnLevel (L : TrapLayout) (v : Level) (m : Mem) (h : Handler) (slot : Word) (r : Regs) : Prop
    where
  frame : Frame m v.frame { h.interrupted with eax := slot }
  irq : h.kind ≠ .sysCall → slot = h.interrupted.eax
  cs : r.cs = Cpu.kernelCs
  ss : r.ss = Cpu.kernelSs
  doing : Doing L v m h slot r

/-- `h` interrupted `g`: the kernel stack had room, and `int 0x90` came from a C function. -/
structure Suspends (L : TrapLayout) (h g : Handler) : Prop where
  low : L.stackSpace + 128 ≤ h.interrupted.esp
  high : h.interrupted.esp ≤ L.stackTop - 4
  coded : h.kind = .sysCall → g.call ≠ none

/-- **Handlers under way**, the innermost first and with the registers `r`; without any a process
runs. -/
def Nested (L : TrapLayout) (m : Mem) (current : Fin totalTaskCnt) : List Handler → Regs → Prop
  | [], r => r.UserMode ∧ r.esp < 2 ^ 32
  | h :: rest, r => (∃ slot, OnLevel L (L.level current h rest) m h slot r) ∧
      (∀ g ∈ rest.head?, Suspends L h g) ∧ Nested L m current rest h.interrupted

/-- The frame of a process that does not run. -/
def Parked (L : TrapLayout) (m : Mem) (p : Fin totalTaskCnt) (t : Trap) : Prop :=
  ∃ r, t.Resumes r ∧ Frame m (L.sym.entry p) r ∧ r.UserMode ∧ r.esp < 2 ^ 32

/-- **The invariant.** -/
structure TrapInv (L : TrapLayout) (s : TrapState) : Prop where
  depth : s.cpu.intReenter = s.handlers.length - 1
  nested : Nested L s.cpu.mem s.current s.handlers s.cpu.regs
  parked : ∀ p, p ≠ s.current → Parked L s.cpu.mem p (s.last p)
  user : s.handlers = [] →
    s.cpu.processReady = s.current ∧ s.cpu.esp0 = L.sym.entry s.current + 72

/-! ### Places -/

variable {L : TrapLayout} {v : Level} {m m' : Mem} {h g : Handler} {rest : List Handler}
  {slot : Word} {r : Regs} {current p : Fin totalTaskCnt} {x : ℕ}

theorem kernel_not_user (cs : r.cs = Cpu.kernelCs) : ¬ r.UserMode := by
  rw [Regs.UserMode, cs]
  decide

theorem level_exit (L : TrapLayout) (current : Fin totalTaskCnt) (h : Handler) (rest : List Handler) :
    (L.level current h rest).exit = if rest = [] then .restartProcess else .restartReEnter := by
  cases rest <;> rfl

theorem level_exit_ne_line (l : Line) : (L.level current h rest).exit ≠ .line l := by
  cases rest <;> simp [TrapLayout.level]

theorem level_exit_ne_call (kind : TrapKind) : (L.level current h rest).exit ≠ .call kind := by
  cases rest <;> simp [TrapLayout.level]

/-- What holds at a line. -/
theorem Doing.at_line {l : Line} (doing : Doing L v m h slot r) (here : r.eip = L.code (.line l))
    (exit : v.exit ≠ .line l) : l.kind = h.kind ∧ r.esp = v.base - l.pushed ∧ h.call = none ∧
      load32 m v.base = L.code v.exit ∧ v.AtLine m h.toTrap slot r l := by
  cases doing with
  | @line l' kind eip esp call way holds =>
    obtain rfl : l' = l := Place.line.inj (L.code_injective (eip.symm.trans here))
    exact ⟨kind, esp, call, way, holds⟩
  | call eip => exact absurd (L.code_injective (eip.symm.trans here)) (by simp)
  | body _ off => exact absurd here (off _)
  | leaving eip => exact absurd (L.code_injective (eip.symm.trans here)) exit

/-- What holds at the call. -/
theorem Doing.at_call {kind : TrapKind} (doing : Doing L v m h slot r)
    (here : r.eip = L.code (.call kind)) (exit : v.exit ≠ .call kind) :
    r.esp = v.base - h.kind.pushed ∧ load32 m v.base = L.code v.exit ∧
      (h.kind = .sysCall → v.FramePushed m) := by
  cases doing with
  | line _ eip => exact absurd (L.code_injective (eip.symm.trans here)) (by simp)
  | call _ esp _ way pushed => exact ⟨esp, way, pushed⟩
  | body _ off => exact absurd here (off _)
  | leaving eip => exact absurd (L.code_injective (eip.symm.trans here)) exit

/-- What holds in the C function. -/
theorem Doing.in_body {called : Regs} (doing : Doing L v m h slot r) (runs : h.call = some called) :
    called.esp = v.base - h.kind.pushed - 4 ∧ r.esp ≤ called.esp ∧
      load32 m called.esp = L.code (.line h.kind.returned) ∧ load32 m v.base = L.code v.exit ∧
      (h.kind = .sysCall → v.FramePushed m) := by
  cases doing with
  | line _ _ _ call => exact absurd (call.symm.trans runs) (by simp)
  | call _ _ call => exact absurd (call.symm.trans runs) (by simp)
  | body call _ esp below back way pushed =>
    obtain rfl := Option.some.inj (call.symm.trans runs)
    exact ⟨esp, below, back, way, pushed⟩
  | leaving _ _ call => exact absurd (call.symm.trans runs) (by simp)

/-- What holds on the way out. -/
theorem Doing.at_exit {place : Place} (doing : Doing L v m h slot r) (here : r.eip = L.code place)
    (lines : ∀ l, place ≠ .line l) (calls : ∀ kind, place ≠ .call kind) :
    v.exit = place ∧ (v.exit = .restartReEnter → r.esp = v.frame) ∧
      (h.kind = .sysCall → h.value = some slot) := by
  cases doing with
  | line _ eip => exact absurd (L.code_injective (here.symm.trans eip)) (lines _)
  | call eip => exact absurd (L.code_injective (here.symm.trans eip)) (calls _)
  | body _ off => exact absurd here (off _)
  | leaving eip esp _ _ answered => exact ⟨L.code_injective (eip.symm.trans here), esp, answered⟩

/-- A handler that a trap can interrupt has its stack pointer on the kernel stack. -/
theorem Doing.esp_le (doing : Doing L v m h slot r)
    (running : r.interrupts = true ∨ h.call ≠ none) : r.esp ≤ v.base := by
  cases doing with
  | line _ _ esp => omega
  | call _ esp => omega
  | body _ _ esp below => omega
  | leaving _ _ call disabled =>
    rcases running with enabled | running
    · exact absurd (disabled.symm.trans enabled) (by simp)
    · exact absurd call running

/-! ### What stays -/

/-- The kernel stack from `low` on and every `REG_STACK` stay. -/
structure Keeps (L : TrapLayout) (low : ℕ) (m m' : Mem) : Prop where
  stack : ∀ x, low ≤ x → x < L.stackTop → m' x = m x
  regStacks : ∀ p x, L.OnRegs p x → m' x = m x

theorem Keeps.refl (L : TrapLayout) (low : ℕ) (m : Mem) : Keeps L low m m :=
  ⟨fun _ _ _ => rfl, fun _ _ _ => rfl⟩

theorem Keeps.mono {low low' : ℕ} (keeps : Keeps L low m m') (higher : low ≤ low') :
    Keeps L low' m m' :=
  ⟨fun x above => keeps.stack x (higher.trans above), keeps.regStacks⟩

theorem Keeps.load {low addr : ℕ} (keeps : Keeps L low m m') (above : low ≤ addr)
    (room : addr + 4 ≤ L.stackTop) : load32 m' addr = load32 m addr :=
  load32_congr fun k _ => keeps.stack _ (by omega) (by omega)

/-- A `REG_STACK` lies in `proc_table`, apart from the kernel stack. -/
theorem onRegs_off_stack (inside : L.OnRegs p x) : x < L.stackSpace ∨ L.stackTop ≤ x := by
  obtain ⟨low, high⟩ := inside
  have last := L.sym.entry_le p
  have first : L.sym.procTable ≤ L.sym.entry p := Nat.le_add_right _ _
  have apart := L.stackApart
  unfold processSize at last
  unfold TrapLayout.stackTop
  omega

/-- Two entries have no byte in common. -/
theorem onRegs_ne {q : Fin totalTaskCnt} (other : p ≠ q) (inside : L.OnRegs p x) :
    x < L.sym.entry q ∨ L.sym.entry q + 72 ≤ x := by
  obtain ⟨low, high⟩ := inside
  have apart : (p : ℕ) < q ∨ (q : ℕ) < p := Nat.lt_or_gt_of_ne (Fin.val_ne_of_ne other)
  simp only [Symbols.entry, processSize] at low high ⊢
  omega

/-- A store on the kernel stack keeps what lies above it. -/
theorem keeps_store {addr : ℕ} {value : Word} (low : L.stackSpace ≤ addr)
    (high : addr + 4 ≤ L.stackTop) : Keeps L (addr + 4) m (store32 m addr value) := by
  refine ⟨fun x above _ => store32_off (Or.inr above), fun p x inside => store32_off ?_⟩
  have off := onRegs_off_stack inside
  omega

/-- The places of the levels. -/
theorem Nested.bounds (nested : Nested L m current (h :: rest) r) :
    L.stackSpace + 60 ≤ (L.level current h rest).base ∧
      (L.level current h rest).base + 4 ≤ L.stackTop ∧
      (rest ≠ [] → (L.level current h rest).frame = (L.level current h rest).base + 4 ∧
        h.interrupted.esp = (L.level current h rest).frame + 64 ∧
        h.interrupted.esp ≤ L.stackTop) := by
  cases rest with
  | nil =>
    simp only [TrapLayout.level, TrapLayout.stackTop]
    exact ⟨by omega, by omega, fun nonempty => absurd rfl nonempty⟩
  | cons g rest =>
    obtain ⟨low, high, _⟩ := nested.2.1 g rfl
    simp only [TrapLayout.level]
    exact ⟨by omega, by omega, fun _ => ⟨by omega, by omega, by omega⟩⟩

/-- The innermost handler is on its level of the stack. -/
theorem TrapInv.innermost (inv : TrapInv L s) (under : s.handlers = h :: rest) :
    L.stackSpace + 60 ≤ (L.level s.current h rest).base ∧
      (L.level s.current h rest).base + 4 ≤ L.stackTop ∧
      (rest ≠ [] → (L.level s.current h rest).frame = (L.level s.current h rest).base + 4 ∧
        h.interrupted.esp = (L.level s.current h rest).frame + 64 ∧
        h.interrupted.esp ≤ L.stackTop) ∧
      ∃ slot, OnLevel L (L.level s.current h rest) s.cpu.mem h slot s.cpu.regs := by
  have nested := inv.nested
  rw [under] at nested
  obtain ⟨deep, high, levels⟩ := nested.bounds
  exact ⟨deep, high, levels, nested.1⟩

/-- What a nested handler interrupted was in the kernel. -/
theorem Nested.interrupted_kernel (nested : Nested L m current (h :: rest) r)
    (nonempty : rest ≠ []) :
    h.interrupted.cs = Cpu.kernelCs ∧ h.interrupted.ss = Cpu.kernelSs := by
  cases rest with
  | nil => exact absurd rfl nonempty
  | cons g rest =>
    obtain ⟨⟨slot, on⟩, _⟩ := nested.2.2
    exact ⟨on.cs, on.ss⟩

/-- The frame of a handler stays with what lies above it. -/
theorem Nested.frame_congr {low : ℕ} (nested : Nested L m current (h :: rest) r)
    (frame : Frame m (L.level current h rest).frame { h.interrupted with eax := slot })
    (keeps : Keeps L low m m') (below : rest ≠ [] → low ≤ (L.level current h rest).frame) :
    Frame m' (L.level current h rest).frame { h.interrupted with eax := slot } := by
  obtain ⟨_, _, levels⟩ := nested.bounds
  have kernel := nested.interrupted_kernel
  cases rest with
  | nil =>
    refine Frame.congr (f := L.sym.entry current) frame (fun x above inside => ?_)
      fun _ x above inside => ?_
    · exact keeps.regStacks current x ⟨above, by omega⟩
    · exact keeps.regStacks current x ⟨above, inside⟩
  | cons g rest =>
    obtain ⟨_, top, high⟩ := levels (by simp)
    have low := below (by simp)
    exact frame.congr (fun x above inside => keeps.stack x (by omega) (by omega))
      fun user => absurd user (kernel_not_user (kernel (by simp)).1)

/-- What a handler has on its stack stays with what lies above its stack pointer. -/
theorem Doing.congr (doing : Doing L v m h slot r) (deep : 24 ≤ v.base)
    (high : v.base + 4 ≤ L.stackTop) (keeps : Keeps L r.esp m m') : Doing L v m' h slot r := by
  have pushed (below : r.esp ≤ v.base - 4) (holds : v.FramePushed m) : v.FramePushed m' :=
    (keeps.load below (by omega)).trans holds
  have way (below : r.esp ≤ v.base) (holds : load32 m v.base = L.code v.exit) :
      load32 m' v.base = L.code v.exit := (keeps.load below high).trans holds
  cases doing with
  | @line l own eip esp call exit holds =>
    refine .line own eip esp call (way (by omega) exit) ?_
    cases l with
    | saved kind => cases kind <;> exact holds
    | mask kind => cases kind <;> exact holds
    | pushNum | loadNum | popNum | pushFrame | storeEax => exact holds
    | pushReady | pushEdx | pushEcx | pushEbx =>
      refine pushed ?_ holds
      simp only [Line.pushed] at esp
      omega
    | dropArgs | popFrame =>
      refine ⟨pushed ?_ holds.1, holds.2⟩
      simp only [Line.pushed] at esp
      omega
  | call eip esp call exit holds =>
    have above : 4 ≤ h.kind.pushed := by
      cases h.kind <;> simp [TrapKind.pushed]
    exact .call eip esp call (way (by omega) exit) fun same => pushed (by omega) (holds same)
  | @body called call off esp below back exit holds =>
    exact .body call off esp below ((keeps.load below (by omega)).trans back) (way (by omega) exit)
      fun same => pushed (by omega) (holds same)
  | leaving eip esp call disabled answered => exact .leaving eip esp call disabled answered

/-- The stack pointer of a handler is at its frame or below. -/
theorem OnLevel.esp_le (on : OnLevel L v m h slot r) (inner : v.exit = .restartReEnter)
    (frame : v.frame = v.base + 4) : r.esp ≤ v.frame := by
  cases on.doing with
  | line _ _ esp => omega
  | call _ esp => omega
  | body _ _ esp below => omega
  | leaving _ esp => exact (esp inner).le

/-- **Suspended handlers need only what lies above the stack pointer.** -/
theorem Nested.congr {handlers : List Handler} (nested : Nested L m current handlers r)
    (keeps : Keeps L r.esp m m') : Nested L m' current handlers r := by
  induction handlers generalizing r with
  | nil => exact nested
  | cons h rest ih =>
    obtain ⟨deep, high, levels⟩ := nested.bounds
    obtain ⟨⟨slot, on⟩, suspends, outer⟩ := nested
    have inner (nonempty : rest ≠ []) : r.esp ≤ (L.level current h rest).frame :=
      on.esp_le (by rw [level_exit, if_neg nonempty]) (levels nonempty).1
    have frame : Frame m' (L.level current h rest).frame { h.interrupted with eax := slot } :=
      Nested.frame_congr ⟨⟨slot, on⟩, suspends, outer⟩ on.frame keeps inner
    refine ⟨⟨slot, frame, on.irq, on.cs, on.ss, on.doing.congr (by omega) high keeps⟩, suspends, ?_⟩
    by_cases empty : rest = []
    · subst empty
      exact outer
    · have below := inner empty
      have top := (levels empty).2.1
      exact ih outer (keeps.mono (by omega))

/-- **A handler goes on**: memory stays from its level up, and what holds where it was gives what holds
where it is. -/
theorem Nested.goOn {call : Option Regs} {value : Option Word} {r' : Regs}
    (nested : Nested L m current (h :: rest) r)
    (keeps : Keeps L (L.level current h rest).base m m') (cs : r'.cs = r.cs) (ss : r'.ss = r.ss)
    (doing : ∀ slot, Doing L (L.level current h rest) m h slot r →
      Doing L (L.level current h rest) m' { h with call := call, value := value } slot r') :
    Nested L m' current ({ h with call := call, value := value } :: rest) r' := by
  obtain ⟨deep, high, levels⟩ := nested.bounds
  have ⟨⟨slot, on⟩, suspends, outer⟩ := nested
  have frame : Frame m' (L.level current h rest).frame { h.interrupted with eax := slot } :=
    nested.frame_congr on.frame keeps fun nonempty => by
      have := (levels nonempty).1
      omega
  have same : L.level current { h with call := call, value := value } rest =
      L.level current h rest := by
    cases rest <;> rfl
  refine ⟨⟨slot, ?_⟩, fun g member => ?_, ?_⟩
  · rw [same]
    exact ⟨frame, on.irq, cs.trans on.cs, ss.trans on.ss, doing slot on.doing⟩
  · obtain ⟨low, high, coded⟩ := suspends g member
    exact ⟨low, high, coded⟩
  · by_cases empty : rest = []
    · subst empty
      exact outer
    · have bottom := (levels empty).1
      have top := (levels empty).2.1
      exact outer.congr (keeps.mono (by omega))

end WalOS
