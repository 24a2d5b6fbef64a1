/-
**How the loader puts the kernel in memory** (`InitKernel` of `loader.s`).

The kernel file lies at `0x80000`. `InitKernel` walks the program headers and copies what each has in
the file to its address. It does not look at `p_memsz`, and nothing clears the part of a segment
behind `p_filesz`. Addresses are 32-bit and wrap around. The stack of the loader is left out.

* `fetch32_eq` — a word that does not wrap around is read as from memory without wrapping.
* `memCpy_off`, `initKernel_off` — a byte that no copy reaches keeps what RAM held before.
-/

import Mathlib.Algebra.Group.Nat.Defs
import WalOS.Lib.Bytes

namespace WalOS

open Bytes

/-- `BaseOfKernelPhyAddr`, where the loader reads the kernel file to. -/
def baseOfKernelPhyAddr : BitVec 32 := 0x80000

/-- A word read at an address that may wrap around. -/
def fetch32 (m : Mem) (addr : BitVec 32) : BitVec 32 :=
  word (m addr.toNat) (m (addr + 1).toNat) (m (addr + 2).toNat) (m (addr + 3).toNat)

def fetch16 (m : Mem) (addr : BitVec 32) : BitVec 16 :=
  m (addr + 1).toNat ++ m addr.toNat

/-- `MemCpy`, with `size` bytes left to copy. -/
def memCpy (dest src : BitVec 32) : ℕ → Mem → Mem
  | 0, m => m
  | size + 1, m => memCpy (dest + 1) (src + 1) size (Function.update m dest.toNat (m src.toNat))

/-- One round of the loop: the program header at `esi` is copied unless its `p_type` is 0. -/
def loadHeader (m : Mem) (esi : BitVec 32) : Mem :=
  if fetch32 m esi = 0 then m
  else memCpy (fetch32 m (esi + 8)) (fetch32 m (esi + 4) + baseOfKernelPhyAddr)
    (fetch32 m (esi + 0x10)).toNat m

/-- The loop of `InitKernel`. A program header takes 32 bytes; the loop goes on by 20. -/
def initKernelLoop : ℕ → BitVec 32 → Mem → Mem
  | 0, _, m => m
  | rounds + 1, esi, m => initKernelLoop rounds (esi + 20) (loadHeader m esi)

/-- How often the loop runs: `ecx` is decremented before it is compared with 0. -/
def rounds (ecx : BitVec 32) : ℕ := (ecx - 1).toNat + 1

/-- `e_phnum` and `e_phoff` of the kernel file. -/
def phnum (m : Mem) : BitVec 32 := (fetch16 m (baseOfKernelPhyAddr + 0x2c)).setWidth 32
def phoff (m : Mem) : BitVec 32 := fetch32 m (baseOfKernelPhyAddr + 0x1c)

/-- **`InitKernel`.** -/
def initKernel (m : Mem) : Mem :=
  initKernelLoop (rounds (phnum m)) (phoff m + baseOfKernelPhyAddr) m

/-! ### What the copies reach -/

/-- The copy for the header at `esi` stays off `region`. -/
def HeaderSpares (region : ℕ → Prop) (m : Mem) (esi : BitVec 32) : Prop :=
  fetch32 m esi ≠ 0 → ∀ k < (fetch32 m (esi + 0x10)).toNat,
    ¬ region (fetch32 m (esi + 8) + BitVec.ofNat 32 k).toNat

/-- The copies of the loop stay off `region`. -/
def LoopSpares (region : ℕ → Prop) : ℕ → BitVec 32 → Mem → Prop
  | 0, _, _ => True
  | rounds + 1, esi, m =>
      HeaderSpares region m esi ∧ LoopSpares region rounds (esi + 20) (loadHeader m esi)

/-- The copies of `InitKernel` stay off `region`. -/
def Spares (region : ℕ → Prop) (m : Mem) : Prop :=
  LoopSpares region (rounds (phnum m)) (phoff m + baseOfKernelPhyAddr) m

variable {region : ℕ → Prop} {m : Mem} {x : ℕ}

theorem fetch32_eq {addr : BitVec 32} (room : addr.toNat + 4 ≤ 2 ^ 32) :
    fetch32 m addr = load32 m addr.toNat := by
  have next : ∀ k < 4, (addr + BitVec.ofNat 32 k).toNat = addr.toNat + k := by
    intro k bound
    rw [BitVec.toNat_add, BitVec.toNat_ofNat]
    omega
  rw [fetch32, load32, ← next 1 (by omega), ← next 2 (by omega), ← next 3 (by omega)]
  rfl

/-- A copy changes only bytes it reaches. -/
theorem memCpy_off {dest src : BitVec 32} {size : ℕ}
    (off : ∀ k < size, (dest + BitVec.ofNat 32 k).toNat ≠ x) : memCpy dest src size m x = m x := by
  induction size generalizing dest src m with
  | zero => rfl
  | succ size ih =>
    rw [memCpy, ih fun k bound => ?_]
    · have first := off 0 (Nat.succ_pos size)
      rw [show dest + BitVec.ofNat 32 0 = dest from BitVec.add_zero dest] at first
      exact Function.update_of_ne first.symm _ _
    · have next := off (k + 1) (Nat.succ_lt_succ bound)
      rwa [BitVec.ofNat_add, BitVec.add_comm (BitVec.ofNat 32 k), ← BitVec.add_assoc] at next

theorem loadHeader_off {esi : BitVec 32} (spares : HeaderSpares region m esi) (inside : region x) :
    loadHeader m esi x = m x := by
  unfold loadHeader
  split
  · rfl
  · rename_i loads
    exact memCpy_off fun k bound same => spares loads k bound (same ▸ inside)

/-- **What no copy reaches is as before.** -/
theorem initKernel_off (spares : Spares region m) (inside : region x) :
    initKernel m x = m x := by
  have loop : ∀ rounds esi m, LoopSpares region rounds esi m →
      initKernelLoop rounds esi m x = m x := by
    intro rounds
    induction rounds with
    | zero => exact fun _ _ _ => rfl
    | succ rounds ih =>
      intro esi m spares
      rw [initKernelLoop, ih _ _ spares.2, loadHeader_off spares.1 inside]
  exact loop _ _ _ spares

end WalOS
