/-
**Who runs next.**

`process_schedule` scans the table for the most ticks, from the first entry on, and refills it when
nobody has a tick left.

* `processSchedule_found`, `processSchedule_refill` — the two ways a round ends.
* `foldl_scanStep_first` — a scan keeps the first process with the most ticks.
* `schedule_selects` — **the first unblocked process with the most ticks is selected**, after a refill
  of exactly the unblocked ones if none has a tick left.
-/

import WalOS.Kernel.Process

namespace WalOS

variable {n : ℕ} {s : Kernel n}

/-! ### Rounds -/

/-- A scan that finds somebody ends `process_schedule`. -/
theorem processSchedule_found {fuel : ℕ} (found : (scheduleScan s).1 ≠ 0) :
    (processSchedule (fuel + 1) s).outcome =
      .ok { s with processReady := (scheduleScan s).2 } := by
  rw [processSchedule, Traced.loop, Traced.outcome_bind, scheduleRound, if_neg found]
  rfl

/-- A scan that finds nobody leaves `process_ready` alone. -/
theorem scheduleScan_none (none : (scheduleScan s).1 = 0) : (scheduleScan s).2 = s.processReady := by
  rcases (foldl_scanStep s (List.finRange n) (0, s.processReady)).2.2 with same | ⟨_, _, more⟩
  · exact congrArg Prod.snd same
  · exact absurd none more.ne'

/-- A scan that finds nobody is followed by a refill and another scan. -/
theorem processSchedule_refill {fuel : ℕ} (none : (scheduleScan s).1 = 0) :
    (processSchedule (fuel + 1) s).outcome = (processSchedule fuel (refill s)).outcome := by
  rw [processSchedule, Traced.loop, Traced.outcome_bind, scheduleRound, if_pos none,
    scheduleScan_none none]
  rfl

/-- What a scan finds: the most ticks of an unblocked process. -/
theorem scheduleScan_most (found : (scheduleScan s).1 ≠ 0) :
    (s.proc (scheduleScan s).2).flags = 0 ∧ 0 < (s.proc (scheduleScan s).2).ticks ∧
      ∀ p, (s.proc p).flags = 0 → (s.proc p).ticks ≤ (s.proc (scheduleScan s).2).ticks := by
  obtain ⟨most, _, same | ⟨ready, value, more⟩⟩ :=
    foldl_scanStep s (List.finRange n) (0, s.processReady)
  · exact absurd (congrArg Prod.fst same) found
  · refine ⟨ready, ?_, fun p free => ?_⟩
    · exact lt_of_lt_of_eq more value.symm
    · exact (most p (List.mem_finRange p) free).trans value.ge

/-- An unblocked process with a tick left is found. -/
theorem scheduleScan_ne_zero {p : Fin n} (ready : (s.proc p).flags = 0)
    (left : 0 < (s.proc p).ticks) : (scheduleScan s).1 ≠ 0 := fun zero =>
  absurd left (not_lt.mpr (scheduleScan_zero zero p ready))

/-! ### The first with the most -/

/-- **The scan keeps the first**: what it finds has more ticks than every unblocked process of the list
before it. -/
theorem foldl_scanStep_first (s : Kernel n) (l : List (Fin n)) (sorted : l.Pairwise (· < ·))
    (start : Int × Fin n) : l.foldl (scanStep s) start = start ∨
      ∀ q ∈ l, q < (l.foldl (scanStep s) start).2 → (s.proc q).flags = 0 →
        (s.proc q).ticks < (l.foldl (scanStep s) start).1 := by
  induction l generalizing start with
  | nil => exact .inl rfl
  | cons p l ih =>
    obtain ⟨behind, rest⟩ := List.pairwise_cons.mp sorted
    obtain ⟨-, grows, found⟩ := foldl_scanStep s l (scanStep s start p)
    rw [List.foldl_cons]
    have later := ih rest (scanStep s start p)
    by_cases better : (s.proc p).flags = 0 ∧ (s.proc p).ticks > start.1
    · have step : scanStep s start p = ((s.proc p).ticks, p) := if_pos better
      rw [step] at later grows found ⊢
      refine .inr fun q member before free => ?_
      rcases later with same | first
      · rw [same] at before
        rcases List.mem_cons.mp member with rfl | inside
        · exact absurd before (lt_irrefl _)
        · exact absurd before (lt_asymm (behind q inside))
      · rcases List.mem_cons.mp member with rfl | inside
        · rcases found with same | ⟨-, -, more⟩
          · exact absurd (same ▸ before) (lt_irrefl _)
          · exact more
        · exact first q inside before free
    · have step : scanStep s start p = start := if_neg better
      rw [step] at later grows found ⊢
      rcases later with same | first
      · exact .inl same
      · refine found.imp_right fun ⟨_, _, more⟩ q member before free => ?_
        rcases List.mem_cons.mp member with rfl | inside
        · exact lt_of_le_of_lt (not_lt.mp fun ahead => better ⟨free, ahead⟩) more
        · exact first q inside before free

/-- `r` is the first unblocked process with the most ticks. -/
structure FirstMost (s : Kernel n) (r : Fin n) : Prop where
  ready : (s.proc r).flags = 0
  most : ∀ q, (s.proc q).flags = 0 → (s.proc q).ticks ≤ (s.proc r).ticks
  first : ∀ q < r, (s.proc q).flags = 0 → (s.proc q).ticks < (s.proc r).ticks

theorem pairwise_finRange (n : ℕ) : (List.finRange n).Pairwise (· < ·) := by
  rw [List.pairwise_iff_getElem]
  intro i j inside inside' before
  rw [List.getElem_finRange, List.getElem_finRange]
  exact before

theorem scheduleScan_firstMost (found : (scheduleScan s).1 ≠ 0) :
    FirstMost s (scheduleScan s).2 := by
  obtain ⟨ready, -, most⟩ := scheduleScan_most found
  refine ⟨ready, most, fun q before free => ?_⟩
  have value : (s.proc (scheduleScan s).2).ticks = (scheduleScan s).1 := by
    rcases (foldl_scanStep s (List.finRange n) (0, s.processReady)).2.2 with same | ⟨-, value, -⟩
    · exact absurd (congrArg Prod.fst same) found
    · exact value
  rw [value]
  rcases foldl_scanStep_first s (List.finRange n) (pairwise_finRange n) (0, s.processReady) with
    same | first
  · exact absurd (congrArg Prod.fst same) found
  · exact first q (List.mem_finRange q) before free

/-! ### Selection -/

/-- **`process_schedule` selects.** When an unblocked process has positive ticks or a positive
priority, whatever the ticks and priorities are: it returns. If an unblocked process has positive ticks
nothing but `process_ready` changes, and that is the first unblocked process with the most ticks.
Otherwise exactly the unblocked processes get their priority as ticks first. -/
theorem schedule_selects (s : Kernel n) (p : Fin n) (ready : (s.proc p).flags = 0)
    (positive : 0 < (s.proc p).ticks ∨ 0 < (s.proc p).priority) (fuel : ℕ)
    (enough : scheduleFuel ≤ fuel) : ∃ t r, (processSchedule fuel s).outcome = .ok t ∧
      ((∃ q, (s.proc q).flags = 0 ∧ 0 < (s.proc q).ticks) →
        t = { s with processReady := r } ∧ FirstMost s r) ∧
      ((∀ q, (s.proc q).flags = 0 → (s.proc q).ticks ≤ 0) →
        t = { s with processReady := r, proc := t.proc } ∧ FirstMost t r ∧
          (∀ q, (s.proc q).flags = 0 → t.proc q = { s.proc q with ticks := (s.proc q).priority }) ∧
          ∀ q, (s.proc q).flags ≠ 0 → t.proc q = s.proc q) := by
  obtain ⟨more, rfl⟩ := Nat.exists_eq_add_of_le enough
  have rounds : scheduleFuel + more = more + 1 + 1 := by
    unfold scheduleFuel
    omega
  rw [rounds]
  by_cases found : (scheduleScan s).1 = 0
  · have empty : ∀ q, (s.proc q).flags = 0 → (s.proc q).ticks ≤ 0 := scheduleScan_zero found
    have refilled : ((refill s).proc p).flags = 0 ∧ 0 < ((refill s).proc p).ticks := by
      have entry : (refill s).proc p = { s.proc p with ticks := (s.proc p).priority } := if_pos ready
      rw [entry]
      exact ⟨ready, positive.resolve_left (not_lt.mpr (empty p ready))⟩
    have again : (scheduleScan (refill s)).1 ≠ 0 := scheduleScan_ne_zero refilled.1 refilled.2
    refine ⟨{ refill s with processReady := (scheduleScan (refill s)).2 }, (scheduleScan (refill s)).2,
      ?_, ?_, ?_⟩
    · rw [processSchedule_refill found, processSchedule_found again]
    · rintro ⟨q, free, left⟩
      exact absurd left (not_lt.mpr (empty q free))
    · intro _
      have selected := scheduleScan_firstMost again
      exact ⟨rfl, ⟨selected.ready, selected.most, selected.first⟩, fun q free => if_pos free,
        fun q blocked => if_neg blocked⟩
  · refine ⟨{ s with processReady := (scheduleScan s).2 }, (scheduleScan s).2,
      processSchedule_found found, ?_, ?_⟩
    · exact fun _ => ⟨rfl, scheduleScan_firstMost found⟩
    · intro empty
      obtain ⟨free, left, -⟩ := scheduleScan_most found
      exact absurd left (not_lt.mpr (empty _ free))

/-- Everybody has used more than its ticks, and the task of the disk waits. -/
def overdrawn : Kernel totalTaskCnt :=
  { bootKernel with proc := fun p => { bootKernel.proc p with
      ticks := -1, flags := if p = hddTask then msgRecving else 0 } }

theorem schedule_selects_overdrawn : ∃ t, (processSchedule scheduleFuel overdrawn).outcome = .ok t ∧
    t.proc 5 = { overdrawn.proc 5 with ticks := 5 } ∧ t.proc hddTask = overdrawn.proc hddTask := by
  obtain ⟨t, r, returned, -, refills⟩ :=
    schedule_selects overdrawn 0 rfl (.inr (by decide)) scheduleFuel (le_refl _)
  obtain ⟨-, -, ticks, kept⟩ := refills (by decide)
  exact ⟨t, returned, ticks 5 rfl, kept hddTask (by decide)⟩

end WalOS
