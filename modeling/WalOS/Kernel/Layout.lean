/-
**Where the fields of a process lie** (`process.h`).

A `PROCESS` takes 152 bytes. It starts with the `REG_STACK` that a trap fills and `restart_process`
unloads; behind it come the descriptors, the schedule, the name and the message state.

* `Symbols` — the addresses the linker gives to the objects that boot writes, `proc_table` apart from
  the others.
-/

import Mathlib.Algebra.Group.Nat.Defs
import WalOS.Kernel.State

namespace WalOS

/-- The fields of a `PROCESS`. -/
inductive Field where
  | gs | fs | es | ds
  | edi | esi | ebp | krnlEsp | ebx | edx | ecx | eax
  | retAddr
  | eip | cs | eflags | esp | ss
  | ldtSel | ldt
  | ticks | priority | id | name | consoleId
  | flags | msg | recvFrom | sendTo | haveIntMsg | currentSend | nextSend
deriving DecidableEq

/-- The offset of a field. `LDT_SIZE` is 2 and a descriptor takes 8 bytes; `name` has 16 bytes and
`have_int_msg` one. -/
def Field.offset : Field → ℕ
  | .gs => 0
  | .fs => 4
  | .es => 8
  | .ds => 12
  | .edi => 16
  | .esi => 20
  | .ebp => 24
  | .krnlEsp => 28
  | .ebx => 32
  | .edx => 36
  | .ecx => 40
  | .eax => 44
  | .retAddr => 48
  | .eip => 52
  | .cs => 56
  | .eflags => 60
  | .esp => 64
  | .ss => 68
  | .ldtSel => 72
  | .ldt => 74
  | .ticks => 92
  | .priority => 96
  | .id => 100
  | .name => 104
  | .consoleId => 120
  | .flags => 124
  | .msg => 128
  | .recvFrom => 132
  | .sendTo => 136
  | .haveIntMsg => 140
  | .currentSend => 144
  | .nextSend => 148

/-- `sizeof(PROCESS)`. -/
def processSize : ℕ := 152

/-- The number of bytes of `proc_table`. -/
def procTableSize : ℕ := totalTaskCnt * processSize

/-- **The addresses of the objects that boot writes.** -/
structure Symbols where
  procTable : ℕ
  gdt : ℕ
  taskStack : BitVec 32
  processReady : ℕ
  intReenter : ℕ
  ticks : ℕ
  irqTable : ℕ
  clockIntHandler : BitVec 32
  initEip : Fin totalTaskCnt → BitVec 32
  nonNull : 0 < procTable
  fits : procTable + procTableSize ≤ 2 ^ 32
  apart : ∀ global ∈ [processReady, intReenter, ticks, irqTable],
    global + 4 ≤ procTable ∨ procTable + procTableSize ≤ global

/-- The address of an entry of `proc_table`. -/
def Symbols.entry (sym : Symbols) (i : Fin totalTaskCnt) : ℕ := sym.procTable + i * processSize

/-- The address of a field of an entry. -/
def Symbols.field (sym : Symbols) (i : Fin totalTaskCnt) (field : Field) : ℕ :=
  sym.entry i + field.offset

/-- The bytes of `proc_table`. -/
def Symbols.OnTable (sym : Symbols) (addr : ℕ) : Prop :=
  sym.procTable ≤ addr ∧ addr < sym.procTable + procTableSize

/-- A pointer into `proc_table`, or `NULL`. -/
def Symbols.pointer (sym : Symbols) : Option (Fin totalTaskCnt) → BitVec 32
  | none => 0
  | some i => BitVec.ofNat 32 (sym.entry i)

theorem Symbols.entry_le (sym : Symbols) (i : Fin totalTaskCnt) :
    sym.entry i + processSize ≤ sym.procTable + procTableSize := by
  have := i.isLt
  simp only [Symbols.entry, procTableSize, processSize, totalTaskCnt] at this ⊢
  omega

/-- No entry lies at address 0. -/
theorem Symbols.pointer_eq_zero {sym : Symbols} {c : Option (Fin totalTaskCnt)} :
    sym.pointer c = 0 ↔ c = none := by
  refine ⟨fun isNull => ?_, fun isNull => isNull ▸ rfl⟩
  cases c with
  | none => rfl
  | some i =>
    have zero : sym.entry i % 2 ^ 32 = 0 := by
      simpa [Symbols.pointer] using congrArg BitVec.toNat isNull
    have nonNull := sym.nonNull
    have fits := sym.fits
    have last := sym.entry_le i
    simp only [Symbols.entry, procTableSize, processSize] at zero last fits
    omega

end WalOS
