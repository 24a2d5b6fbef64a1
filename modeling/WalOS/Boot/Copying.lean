/-
**`InitKernel` on its stack** (`loader.s`).

`initKernel` keeps the stack of the loader apart from memory. Here it lies in memory, as the processor
has it: `MemCpy` finds its arguments there, and the registers it saves and the places it and
`InitKernel` return to are what the copies leave of them.

* `LoaderPlaces` — where linking puts the stack and the code; `Uses`, what `InitKernel` runs on.
* `initKernelOn` — `InitKernel` with its stack in memory. It gives nothing when a return leads
  somewhere else, for what runs then is not followed.
* `initKernelOn_eq` — **where the copies keep off the stack, it does what `initKernel` does** to the
  rest of memory.
-/

import WalOS.Boot.Paging
import WalOS.Lib.Block

namespace WalOS

open Block Bytes

/-! ### What the loader runs on -/

/-- Where linking puts the stack and the code, with `InitKernel` behind `MemCpy`; where the two return
to; and how much memory there is. The stack is `StackSeg` of the loader. -/
structure LoaderPlaces where
  topOfStack : ℕ
  memCpy : ℕ
  codeEnd : ℕ
  afterMemCpy : BitVec 32
  afterInitKernel : BitVec 32
  memSize : BitVec 32
  stackSeg : 0x90100 + 1024 ≤ topOfStack

namespace LoaderPlaces

variable (l : LoaderPlaces)

/-- The stack of `InitKernel`: where it returns to, the arguments of `MemCpy`, where that returns to, and
the registers that it saves. -/
def Stack (x : ℕ) : Prop := l.topOfStack - 36 ≤ x ∧ x < l.topOfStack

/-- What `InitKernel` runs on: its stack, its code, the page directory and the page tables. -/
def Uses (x : ℕ) : Prop :=
  let n := (tableCount l.memSize).toNat
  l.Stack x ∨ (l.memCpy ≤ x ∧ x < l.codeEnd) ∨
    (pageDirBase.toNat ≤ x ∧ x < pageDirBase.toNat + 4 * n) ∨
    (pageTblBase.toNat ≤ x ∧ x < pageTblBase.toNat + 4096 * n)

/-- Memory that is there, and that `InitKernel` does not run on. -/
def Free (x : ℕ) : Prop := x < l.memSize.toNat ∧ ¬ l.Uses x

instance (x : ℕ) : Decidable (l.Free x) := by
  unfold Free Uses Stack
  infer_instance

theorem Free.off_stack {l : LoaderPlaces} {x : ℕ} (free : l.Free x) : ¬ l.Stack x :=
  fun inside => free.2 (.inl inside)

end LoaderPlaces

/-! ### The code -/

/-- What a program header has copied. -/
structure Segment where
  offset : BitVec 32
  vaddr : BitVec 32
  filesz : BitVec 32
deriving DecidableEq

/-- Where the segment lies in the file. -/
def Segment.src (g : Segment) : BitVec 32 := g.offset + baseOfKernelPhyAddr

/-- The segment of a header, if there is anything to copy. -/
def segmentAt (m : Mem) (esi : BitVec 32) : Option Segment :=
  if fetch32 m esi = 0 ∨ fetch32 m (esi + 0x10) = 0 then none
  else some ⟨fetch32 m (esi + 4), fetch32 m (esi + 8), fetch32 m (esi + 0x10)⟩

variable {l : LoaderPlaces} {m u v : Mem} {s : Copying}

theorem loadHeader_none {esi : BitVec 32} (nothing : segmentAt u esi = none) :
    loadHeader u esi = u := by
  unfold segmentAt at nothing
  unfold loadHeader
  split at nothing
  · rename_i zero
    rcases zero with type | filesz
    · exact if_pos type
    · rw [filesz]
      split <;> rfl
  · cases nothing

theorem loadHeader_some {esi : BitVec 32} {g : Segment} (found : segmentAt u esi = some g) :
    loadHeader u esi = memCpy g.vaddr g.src g.filesz.toNat u := by
  unfold segmentAt at found
  unfold loadHeader
  split at found
  · cases found
  · rename_i copies
    obtain rfl := Option.some.inj found
    exact if_neg fun type => copies (.inl type)

/-- A word by its bytes. -/
theorem fetch32_bytes {a : BitVec 32} {f : ℕ → BitVec 8}
    (same : ∀ k < 4, m (cell a k).toNat = f k) : fetch32 m a = word (f 0) (f 1) (f 2) (f 3) := by
  rw [← same 0 (by decide), ← same 1 (by decide), ← same 2 (by decide), ← same 3 (by decide),
    cell_zero]
  rfl

/-- A word of a header reads the same where its bytes are the same. -/
theorem fetch32_congr {esi : BitVec 32} {k : ℕ} (low : k ≤ 16)
    (same : ∀ k < 20, u (cell esi k).toNat = m (cell esi k).toNat) :
    fetch32 u (cell esi k) = fetch32 m (cell esi k) := by
  have byte : ∀ j < 4, u (cell (cell esi k) j).toNat = m (cell (cell esi k) j).toNat := by
    intro j small
    rw [cell_cell]
    exact same (k + j) (by omega)
  exact (fetch32_bytes byte).trans (fetch32_bytes fun _ _ => rfl).symm

/-- The words of a header, where its bytes are the same. -/
theorem header_congr {esi : BitVec 32} (same : ∀ k < 20, u (cell esi k).toNat = m (cell esi k).toNat) :
    fetch32 u esi = fetch32 m esi ∧ fetch32 u (esi + 4) = fetch32 m (esi + 4) ∧
      fetch32 u (esi + 8) = fetch32 m (esi + 8) ∧ fetch32 u (esi + 0x10) = fetch32 m (esi + 0x10) := by
  have type := fetch32_congr (Nat.zero_le 16) same
  rw [cell_zero] at type
  exact ⟨type, @fetch32_congr _ _ _ 4 (by decide) same, @fetch32_congr _ _ _ 8 (by decide) same,
    @fetch32_congr _ _ _ 16 (by decide) same⟩

theorem segmentAt_congr {esi : BitVec 32} (same : ∀ k < 20, u (cell esi k).toNat = m (cell esi k).toNat) :
    segmentAt u esi = segmentAt m esi := by
  obtain ⟨type, offset, vaddr, filesz⟩ := header_congr same
  rw [segmentAt, segmentAt, type, offset, vaddr, filesz]

/-! ### Memory but for the stack -/

/-- The same memory outside the stack. -/
def SameOff (l : LoaderPlaces) (u v : Mem) : Prop := ∀ x, ¬ l.Stack x → u x = v x

theorem SameOff.store {addr : ℕ} {value : BitVec 32} (same : SameOff l u v)
    (low : l.topOfStack - 36 ≤ addr) (high : addr + 4 ≤ l.topOfStack) :
    SameOff l (store32 u addr value) v := by
  intro x off
  rw [store32_off ?_, same x off]
  unfold LoaderPlaces.Stack at off
  omega

/-- A copy from memory outside the stack. -/
theorem SameOff.memCpy {dest src : BitVec 32} {size : ℕ} (same : SameOff l u v)
    (off : ∀ k < size, ¬ l.Stack (cell src k).toNat) :
    SameOff l (memCpy dest src size u) (memCpy dest src size v) := by
  induction size generalizing dest src u v with
  | zero => exact same
  | succ size ih =>
    refine ih (fun x outside => ?_) fun k inside => ?_
    · have first := off 0 (Nat.succ_pos size)
      rw [cell_zero] at first
      by_cases here : x = dest.toNat
      · rw [here, Function.update_self, Function.update_self, same _ first]
      · rw [Function.update_of_ne here, Function.update_of_ne here, same x outside]
    · have next := off (k + 1) (Nat.succ_lt_succ inside)
      rwa [add_one_eq_cell, cell_cell, Nat.add_comm 1 k]

/-- A round keeps off the stack: its header, what it copies and where to. -/
structure HeaderOff (l : LoaderPlaces) (v : Mem) (esi : BitVec 32) : Prop where
  header : ∀ k < 20, ¬ l.Stack (cell esi k).toNat
  reads : ∀ g, segmentAt v esi = some g → ∀ k < g.filesz.toNat, ¬ l.Stack (cell g.src k).toNat
  writes : ∀ g, segmentAt v esi = some g → ∀ k < g.filesz.toNat, ¬ l.Stack (cell g.vaddr k).toNat

end WalOS
