/-
**A file allocation table of 12-bit entries.**

The table is an array of nibbles, the low one of each byte first; entry `n` is the nibbles `3n`, `3n + 1`
and `3n + 2`. Read as a 16-bit word at byte `3n / 2`, an even entry is the low 12 bits of the word and an
odd one the high 12 bits.

* `entry_even`, `entry_odd` — the two cases; `entry_lt`.
* `Chain` — a chain of clusters: each entry names the next cluster, and the last holds the end mark.
-/

import Mathlib.Algebra.Group.Nat.Defs
import Mathlib.Data.Nat.Basic

namespace Fat12

/-- The nibbles of the bytes, the low one first. -/
def nibble (bytes : ℕ → BitVec 8) (i : ℕ) : ℕ := (bytes (i / 2)).toNat / 16 ^ (i % 2) % 16

/-- **Entry `n` of the table.** -/
def entry (bytes : ℕ → BitVec 8) (n : ℕ) : ℕ :=
  nibble bytes (3 * n) + 16 * nibble bytes (3 * n + 1) + 256 * nibble bytes (3 * n + 2)

/-- The word of two bytes, the low one first. -/
def wordAt (bytes : ℕ → BitVec 8) (i : ℕ) : ℕ := (bytes i).toNat + 256 * (bytes (i + 1)).toNat

/-- What marks the last cluster of a file. -/
def endMark : ℕ := 0xfff

/-- **The clusters of a file**, in order. -/
inductive Chain (bytes : ℕ → BitVec 8) : List ℕ → Prop where
  | last {c : ℕ} (ends : entry bytes c = endMark) : Chain bytes [c]
  | cons {c next : ℕ} {rest : List ℕ} (links : entry bytes c = next)
      (chain : Chain bytes (next :: rest)) : Chain bytes (c :: next :: rest)

variable {bytes : ℕ → BitVec 8}

theorem nibble_lt (bytes : ℕ → BitVec 8) (i : ℕ) : nibble bytes i < 16 := Nat.mod_lt _ (by decide)

theorem entry_lt (bytes : ℕ → BitVec 8) (n : ℕ) : entry bytes n < 0x1000 := by
  have low := nibble_lt bytes (3 * n)
  have middle := nibble_lt bytes (3 * n + 1)
  have high := nibble_lt bytes (3 * n + 2)
  unfold entry
  omega

theorem nibble_low (bytes : ℕ → BitVec 8) (i : ℕ) :
    nibble bytes (2 * i) = (bytes i).toNat % 16 := by
  unfold nibble
  rw [Nat.mul_div_cancel_left i (by decide), Nat.mul_mod_right, Nat.pow_zero, Nat.div_one]

theorem nibble_high (bytes : ℕ → BitVec 8) (i : ℕ) :
    nibble bytes (2 * i + 1) = (bytes i).toNat / 16 := by
  have byte := (bytes i).isLt
  have half : (2 * i + 1) / 2 = i := by omega
  have odd : (2 * i + 1) % 2 = 1 := by omega
  unfold nibble
  rw [half, odd, Nat.pow_one, Nat.mod_eq_of_lt (by omega)]

/-- **An even entry is the low 12 bits of its word.** -/
theorem entry_even (k : ℕ) : entry bytes (2 * k) = wordAt bytes (3 * k) % 0x1000 := by
  have low := nibble_low bytes (3 * k)
  have middle := nibble_high bytes (3 * k)
  have high := nibble_low bytes (3 * k + 1)
  have first := (bytes (3 * k)).isLt
  unfold entry wordAt
  rw [show 3 * (2 * k) = 2 * (3 * k) by omega, low, middle,
    show 2 * (3 * k) + 2 = 2 * (3 * k + 1) by omega, high]
  omega

/-- **An odd entry is the high 12 bits of its word.** -/
theorem entry_odd (k : ℕ) : entry bytes (2 * k + 1) = wordAt bytes (3 * k + 1) / 16 := by
  have low := nibble_high bytes (3 * k + 1)
  have middle := nibble_low bytes (3 * k + 2)
  have high := nibble_high bytes (3 * k + 2)
  have first := (bytes (3 * k + 1)).isLt
  unfold entry wordAt
  rw [show 3 * (2 * k + 1) = 2 * (3 * k + 1) + 1 by omega, low,
    show 2 * (3 * k + 1) + 1 + 1 = 2 * (3 * k + 2) by omega, middle,
    show 2 * (3 * k + 1) + 1 + 2 = 2 * (3 * k + 2) + 1 by omega, high,
    show 3 * k + 1 + 1 = 3 * k + 2 from rfl]
  omega

end Fat12
