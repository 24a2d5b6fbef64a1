/-
**Scheduling by quanta.**

`Quanta α` is what a scheduler by quanta has left to hand out, and whom it runs. `Charge` is one tick:
the one that runs loses a unit, and it goes on running as long as it has units left.

* `Charge.total` — a tick uses up one unit.
* `interval` — until the units are used up, everybody runs for exactly as many ticks as it had units,
  and without a break.
-/

import Mathlib.Algebra.BigOperators.Group.Finset.Basic
import Mathlib.Algebra.Order.BigOperators.Group.Finset
import Mathlib.Data.Fintype.BigOperators

/-- The units left, and the one that runs. -/
structure Quanta (α : Type) where
  left : α → ℕ
  current : α

namespace Quanta

variable {α : Type} [Fintype α]

/-- The units left in all. -/
def total (q : Quanta α) : ℕ := ∑ p, q.left p

/-- **One tick.** -/
structure Charge (q q' : Quanta α) : Prop where
  charged : q'.left q.current + 1 = q.left q.current
  kept : ∀ p, p ≠ q.current → q'.left p = q.left p
  stays : q'.left q.current ≠ 0 → q'.current = q.current

variable {q q' : Quanta α}

theorem left_le_total (q : Quanta α) (p : α) : q.left p ≤ q.total :=
  Finset.single_le_sum (fun _ _ => Nat.zero_le _) (Finset.mem_univ p)

variable [DecidableEq α]

/-- A tick uses up one unit. -/
theorem Charge.total (charge : Charge q q') : q'.total + 1 = q.total := by
  have others : ∑ p ∈ Finset.univ.erase q.current, q'.left p =
      ∑ p ∈ Finset.univ.erase q.current, q.left p :=
    Finset.sum_congr rfl fun p member => charge.kept p (Finset.ne_of_mem_erase member)
  have before := Finset.add_sum_erase Finset.univ q.left (Finset.mem_univ q.current)
  have after := Finset.add_sum_erase Finset.univ q'.left (Finset.mem_univ q.current)
  have charged := charge.charged
  unfold Quanta.total
  omega

/-- Units left to somebody who does not run are left in all. -/
theorem left_add_left_le_total {p : α} (other : p ≠ q.current) :
    q.left p + q.left q.current ≤ q.total := by
  have rest : q.left p ≤ ∑ p ∈ Finset.univ.erase q.current, q.left p :=
    Finset.single_le_sum (f := q.left) (fun _ _ => Nat.zero_le _)
      (Finset.mem_erase.mpr ⟨other, Finset.mem_univ p⟩)
  have all := Finset.add_sum_erase Finset.univ q.left (Finset.mem_univ q.current)
  unfold Quanta.total
  omega

/-- **Everybody runs for its units, without a break.** -/
theorem interval {size : ℕ} {q : ℕ → Quanta α}
    (running : ∀ j < size, 0 < (q j).left (q j).current)
    (charge : ∀ j, j + 1 < size → (q j).Charge (q (j + 1))) (total : (q 0).total = size) (p : α) :
    ∃ start, start + (q 0).left p ≤ size ∧ (p = (q 0).current → start = 0) ∧
      ∀ j < size, (q j).current = p ↔ start ≤ j ∧ j < start + (q 0).left p := by
  induction size generalizing q with
  | zero =>
    have none := left_le_total (q 0) p
    exact ⟨0, by omega, fun _ => rfl, fun j inside => absurd inside (Nat.not_lt_zero j)⟩
  | succ size ih =>
    have first := running 0 (Nat.succ_pos size)
    rcases Nat.eq_zero_or_pos size with rfl | more
    · -- the last unit
      have own := left_le_total (q 0) (q 0).current
      refine ⟨0, by have := left_le_total (q 0) p; omega, fun _ => rfl, fun j inside => ?_⟩
      obtain rfl : j = 0 := by omega
      by_cases same : p = (q 0).current
      · subst same
        exact ⟨fun _ => ⟨Nat.le_refl 0, by omega⟩, fun _ => rfl⟩
      · have none := left_add_left_le_total same
        exact ⟨fun runs => absurd runs.symm same, fun ⟨_, inside⟩ => by omega⟩
    · have tick : (q 0).Charge (q 1) := charge 0 (by omega)
      have rest : (q 1).total + 1 = size + 1 := tick.total.trans total
      obtain ⟨start, room, own, runs⟩ : ∃ start, start + (q 1).left p ≤ size ∧
          (p = (q 1).current → start = 0) ∧ ∀ j < size,
            (q (j + 1)).current = p ↔ start ≤ j ∧ j < start + (q 1).left p :=
        ih (q := fun j => q (j + 1)) (fun j inside => running (j + 1) (by omega))
          (fun j inside => charge (j + 1) (by omega)) (Nat.succ.inj rest)
      by_cases same : p = (q 0).current
      · subst same
        have charged := tick.charged
        refine ⟨0, by have := left_le_total (q 0) (q 0).current; omega, fun _ => rfl,
          fun j inside => ?_⟩
        cases j with
        | zero => exact ⟨fun _ => ⟨Nat.le_refl 0, by omega⟩, fun _ => rfl⟩
        | succ j =>
          rw [runs j (by omega)]
          by_cases done : (q 1).left (q 0).current = 0
          · omega
          · have := own (tick.stays done).symm
            omega
      · have kept : (q 1).left p = (q 0).left p := tick.kept p same
        refine ⟨start + 1, ?_, fun runs => absurd runs same, fun j inside => ?_⟩
        · omega
        · cases j with
          | zero => exact ⟨fun runs => absurd runs.symm same, fun ⟨low, _⟩ => by omega⟩
          | succ j =>
            rw [runs j (by omega)]
            omega

end Quanta
