/-
**Blocks of consecutive cells in a space that wraps around.**

The cells of a `Space` are addressed by machine words. `fill m base contents size` is `m` with the cells
from `base` on replaced.

* `fill_at`, `fill_off` — what a filled space holds in the block and elsewhere.
* `fill_succ`, `fill_fill` — a block is filled cell by cell, and block by block.
* `copy` copies cell by cell; `copy_eq_fill` — between blocks that are apart it fills; `copy_comm` — two
  copies commute when neither writes what the other touches.
* `words` are bytes two at a time; `words_eq_iff` — they determine the bytes.
-/

import Mathlib.Algebra.Group.Nat.Defs
import Mathlib.Data.Nat.Basic
import Mathlib.Logic.Function.Basic

namespace Block

variable {w : ℕ} {β : Type}

/-- A cell for every word. -/
abbrev Space (w : ℕ) (β : Type) := BitVec w → β

/-- The address `k` cells further on. -/
def cell (base : BitVec w) (k : ℕ) : BitVec w := base + BitVec.ofNat w k

/-- **The block from `base` on holds `contents`.** -/
def fill (m : Space w β) (base : BitVec w) (contents : ℕ → β) (size : ℕ) : Space w β := fun x =>
  if (x - base).toNat < size then contents (x - base).toNat else m x

/-- Copy `size` cells one by one, the first first. -/
def copy (m : Space w β) (dest src : BitVec w) : ℕ → Space w β
  | 0 => m
  | size + 1 => copy (Function.update m dest (m src)) (dest + 1) (src + 1) size

/-- The blocks have no cell in common. -/
def Apart (a b : BitVec w) (size : ℕ) : Prop := ∀ i < size, ∀ j < size, cell a i ≠ cell b j

variable {m : Space w β} {base : BitVec w} {contents : ℕ → β} {size k : ℕ}

/-! ### Addresses -/

@[simp] theorem cell_zero (base : BitVec w) : cell base 0 = base := BitVec.add_zero base

theorem cell_cell (base : BitVec w) (i j : ℕ) : cell (cell base i) j = cell base (i + j) := by
  unfold cell
  rw [BitVec.add_assoc, ← BitVec.ofNat_add]

/-- An offset as a number of cells. -/
theorem cell_add (offset base : BitVec w) (k : ℕ) :
    cell (offset + base) k = cell base (offset.toNat + k) := by
  rw [← cell_cell]
  unfold cell
  rw [BitVec.ofNat_toNat, BitVec.setWidth_eq, BitVec.add_comm offset base]

theorem add_one_eq_cell (base : BitVec w) : base + 1 = cell base 1 := rfl

theorem cell_sub (base : BitVec w) (k : ℕ) (small : k < 2 ^ w) : (cell base k - base).toNat = k := by
  unfold cell
  rw [BitVec.add_comm, BitVec.add_sub_cancel, BitVec.toNat_ofNat, Nat.mod_eq_of_lt small]

theorem Apart.ne {a b : BitVec w} (apart : Apart a b (size + 1)) : a ≠ b := by
  have first := apart 0 (Nat.succ_pos size) 0 (Nat.succ_pos size)
  rwa [cell_zero, cell_zero] at first

/-- Every address is some cells further on. -/
theorem cell_toNat_sub (base x : BitVec w) : cell base (x - base).toNat = x := by
  unfold cell
  rw [BitVec.ofNat_toNat, BitVec.setWidth_eq, BitVec.add_comm, BitVec.sub_add_cancel]

theorem cell_inj {i j : ℕ} (small : i < 2 ^ w) (small' : j < 2 ^ w) :
    cell base i = cell base j ↔ i = j := by
  refine ⟨fun same => ?_, congrArg (cell base)⟩
  rw [← cell_sub base i small, same, cell_sub base j small']

theorem cell_base_inj {a b : BitVec w} (same : cell a k = cell b k) : a = b := by
  unfold cell at same
  rw [← BitVec.add_sub_cancel a (BitVec.ofNat w k), same, BitVec.add_sub_cancel]

/-- Blocks are apart when each begins behind the other. -/
theorem apart_of_sub {a b : BitVec w} (above : size ≤ (a - b).toNat) (below : size ≤ (b - a).toNat) :
    Apart a b size := by
  have behind : ∀ {a b : BitVec w} {i k : ℕ}, k < size → size ≤ (a - b).toNat →
      cell a i ≠ cell b (k + i) := by
    intro a b i k few far same
    rw [← cell_cell] at same
    obtain rfl := cell_base_inj same
    have fits := (cell b k - b).isLt
    rw [cell_sub b k (by omega)] at far
    omega
  intro i before j before' same
  rcases Nat.le_total i j with order | order
  · obtain ⟨k, rfl⟩ := Nat.exists_eq_add_of_le' order
    exact behind (by omega) above same
  · obtain ⟨k, rfl⟩ := Nat.exists_eq_add_of_le' order
    exact behind (by omega) below same.symm

/-! ### Filled blocks -/

theorem fill_at (inside : k < size) (small : k < 2 ^ w) :
    fill m base contents size (cell base k) = contents k := by
  unfold fill
  rw [cell_sub base k small, if_pos inside]

theorem fill_off {x : BitVec w} (off : ∀ k < size, x ≠ cell base k) :
    fill m base contents size x = m x :=
  if_neg fun inside => off _ inside (cell_toNat_sub base x).symm

@[simp] theorem fill_zero : fill m base contents 0 = m := by
  funext x
  exact if_neg (Nat.not_lt_zero _)

/-- The last cell of a block is filled last. -/
theorem fill_succ (small : size < 2 ^ w) :
    fill m base contents (size + 1) =
      Function.update (fill m base contents size) (cell base size) (contents size) := by
  funext x
  by_cases last : x = cell base size
  · rw [last, Function.update_self, fill_at (Nat.lt_succ_self _) small]
  · rw [Function.update_of_ne last]
    have ne : (x - base).toNat ≠ size := fun same => last (same ▸ (cell_toNat_sub base x).symm)
    unfold fill
    exact if_congr (by omega) rfl rfl

/-- **Filling block after block** fills the whole. -/
theorem fill_fill {size' : ℕ} (small : size + size' ≤ 2 ^ w) :
    fill (fill m base contents size) (cell base size) (fun k => contents (size + k)) size' =
      fill m base contents (size + size') := by
  induction size' with
  | zero => exact fill_zero
  | succ size' ih =>
    rw [fill_succ (by omega), ih (by omega), cell_cell, ← Nat.add_assoc, fill_succ (by omega)]

theorem fill_congr {contents' : ℕ → β} (same : ∀ k < size, contents k = contents' k) :
    fill m base contents size = fill m base contents' size := by
  funext x
  unfold fill
  split
  · exact same _ ‹_›
  · rfl

/-! ### Copies -/

/-- A copy leaves the cells outside its destination. -/
theorem copy_off {dest src x : BitVec w} (off : ∀ k < size, x ≠ cell dest k) :
    copy m dest src size x = m x := by
  induction size generalizing m dest src with
  | zero => rfl
  | succ size ih =>
    have behind : ∀ k < size, x ≠ cell (dest + 1) k := by
      intro k inside
      rw [add_one_eq_cell, cell_cell]
      exact off (1 + k) (by omega)
    have first : x ≠ dest := cell_zero dest ▸ off 0 (Nat.succ_pos size)
    rw [copy, ih behind, Function.update_of_ne first]

/-- A cell that a copy does not touch may be written before or after it. -/
theorem copy_update {dest src x : BitVec w} {value : β} (offDest : ∀ k < size, x ≠ cell dest k)
    (offSrc : ∀ k < size, x ≠ cell src k) :
    copy (Function.update m x value) dest src size = Function.update (copy m dest src size) x value := by
  induction size generalizing m dest src with
  | zero => rfl
  | succ size ih =>
    have behind : ∀ base : BitVec w, (∀ k < size + 1, x ≠ cell base k) →
        ∀ k < size, x ≠ cell (base + 1) k := by
      intro base off k inside
      rw [add_one_eq_cell, cell_cell]
      exact off (1 + k) (by omega)
    have first : x ≠ dest := cell_zero dest ▸ offDest 0 (Nat.succ_pos size)
    have read : x ≠ src := cell_zero src ▸ offSrc 0 (Nat.succ_pos size)
    rw [copy, copy, Function.update_of_ne read.symm, Function.update_comm first,
      ih (behind dest offDest) (behind src offSrc)]

/-- **Two copies commute** when neither writes what the other reads or writes. -/
theorem copy_comm {dest src dest' src' : BitVec w} (dests : Apart dest dest' size)
    (reads' : Apart dest src' size) (reads : Apart dest' src size) :
    copy (copy m dest src size) dest' src' size = copy (copy m dest' src' size) dest src size := by
  have go : ∀ left done, done + left = size → ∀ m : Space w β,
      copy (copy m dest src size) (cell dest' done) (cell src' done) left =
        copy (copy m (cell dest' done) (cell src' done) left) dest src size := by
    intro left
    induction left with
    | zero => exact fun _ _ _ => rfl
    | succ left ih =>
      intro done few m
      have next := ih (done + 1) (by omega)
        (Function.update m (cell dest' done) (m (cell src' done)))
      have kept : copy m dest src size (cell src' done) = m (cell src' done) :=
        copy_off fun k inside same => reads' k inside done (by omega) same.symm
      have outside : ∀ k < size, cell dest' done ≠ cell dest k :=
        fun k inside same => dests k inside done (by omega) same.symm
      rw [copy_update outside fun k inside => reads done (by omega) k inside] at next
      rw [copy, copy, kept, add_one_eq_cell, add_one_eq_cell, cell_cell, cell_cell]
      exact next
  have whole := go size 0 (Nat.zero_add size) m
  rwa [cell_zero, cell_zero] at whole

/-- **A copy between blocks that are apart** fills the one with the other. -/
theorem copy_eq_fill {dest src : BitVec w} (small : size ≤ 2 ^ w) (apart : Apart dest src size) :
    copy m dest src size = fill m dest (fun k => m (cell src k)) size := by
  have go : ∀ done, done ≤ size →
      copy (fill m dest (fun k => m (cell src k)) done) (cell dest done) (cell src done)
        (size - done) = fill m dest (fun k => m (cell src k)) size := by
    intro done few
    induction hleft : size - done generalizing done with
    | zero =>
      obtain rfl : done = size := by omega
      rfl
    | succ left ih =>
      have kept : fill m dest (fun k => m (cell src k)) done (cell src done) = m (cell src done) :=
        fill_off fun k before same => apart k (by omega) done (by omega) same.symm
      have longer : fill m dest (fun k => m (cell src k)) (done + 1) = Function.update
          (fill m dest (fun k => m (cell src k)) done) (cell dest done) (m (cell src done)) :=
        fill_succ (by omega)
      rw [copy, kept, ← longer, add_one_eq_cell, add_one_eq_cell, cell_cell, cell_cell]
      exact ih (done + 1) (by omega) (by omega)
  have whole := go 0 (Nat.zero_le _)
  rwa [fill_zero, cell_zero, cell_zero, Nat.sub_zero] at whole

/-! ### Blocks of words -/

/-- Bytes two at a time, the low byte first. -/
def words (bytes : ℕ → BitVec 8) (count : ℕ) : List (BitVec 16) :=
  (List.range count).map fun i => bytes (2 * i + 1) ++ bytes (2 * i)

/-- The words of a block. -/
def wordsAt (m : Space w (BitVec 8)) (base : BitVec w) (count : ℕ) : List (BitVec 16) :=
  words (fun k => m (cell base k)) count

theorem append_inj {a b c d : BitVec 8} : (a ++ b : BitVec 16) = c ++ d ↔ a = c ∧ b = d := by
  refine ⟨fun same => ⟨?_, ?_⟩, fun both => both.1 ▸ both.2 ▸ rfl⟩
  · have high := congrArg (BitVec.extractLsb' 8 8) same
    rwa [BitVec.extractLsb'_append_eq_left, BitVec.extractLsb'_append_eq_left] at high
  · have low := congrArg (BitVec.setWidth 8) same
    rwa [BitVec.setWidth_append_eq_right, BitVec.setWidth_append_eq_right] at low

/-- **Words determine the bytes.** -/
theorem words_eq_iff {bytes bytes' : ℕ → BitVec 8} {count : ℕ} :
    words bytes count = words bytes' count ↔ ∀ k < 2 * count, bytes k = bytes' k := by
  unfold words
  rw [List.map_inj_left]
  refine ⟨fun same k inside => ?_, fun same i inside => ?_⟩
  · have pair := append_inj.mp (same (k / 2) (List.mem_range.mpr (by omega)))
    rcases Nat.mod_two_eq_zero_or_one k with even | odd
    · have here : k = 2 * (k / 2) := by omega
      exact here ▸ pair.2
    · have here : k = 2 * (k / 2) + 1 := by omega
      exact here ▸ pair.1
  · have small := List.mem_range.mp inside
    exact append_inj.mpr ⟨same _ (by omega), same _ (by omega)⟩

theorem words_append (bytes : ℕ → BitVec 8) (count count' : ℕ) :
    words bytes (count + count') =
      words bytes count ++ words (fun k => bytes (2 * count + k)) count' := by
  unfold words
  rw [List.range_add, List.map_append, List.map_map]
  refine congrArg (_ ++ ·) (List.map_congr_left fun i _ => ?_)
  have odd : 2 * (count + i) + 1 = 2 * count + (2 * i + 1) := by omega
  have even : 2 * (count + i) = 2 * count + 2 * i := by omega
  exact congrArg₂ (fun i j => bytes i ++ bytes j) odd even

theorem wordsAt_succ (m : Space w (BitVec 8)) (base : BitVec w) (count : ℕ) :
    wordsAt m base (count + 1) =
      (m (base + 1) ++ m base) :: wordsAt m (cell base 2) count := by
  have next : (fun k => m (cell base (2 * 1 + k))) = fun k => m (cell (cell base 2) k) := by
    funext k
    rw [cell_cell]
  unfold wordsAt
  rw [Nat.add_comm, words_append, next, add_one_eq_cell]
  exact congrArg (fun low => (m (cell base 1) ++ m low) :: _) (cell_zero base)

end Block
