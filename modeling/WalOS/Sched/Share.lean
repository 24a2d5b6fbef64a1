/-
**Sharing the CPU.**

Between two refills of the table `clock_int_handler` hands out the priorities of the unblocked
processes as quanta.

* `Sharing` — what holds between two refills, as long as there is no message passing.
* `Sharing.step` — a call of the handler is a tick of `Quanta`, or uses up the last unit and refills.
* `proportional_share` — in every round each unblocked process is charged for as many ticks as its
  priority says, one behind the other.
-/

import WalOS.Kernel.Interrupt
import WalOS.Lib.Quantum
import WalOS.Sched.Select

namespace WalOS

variable {n : ℕ} {s s₀ t : Kernel n}

/-! ### The handler -/

/-- The tick is counted and charged to `process_ready`. -/
def charged (s : Kernel n) : Kernel n :=
  ({ s with ticks := s.ticks + 1 } : Kernel n).modify s.processReady fun p =>
    { p with ticks := decInt p.ticks }

/-- The handler gets to the refill: it is the outermost one, the running process has no ticks left,
and the scan finds nobody else. -/
def Refills (s : Kernel n) : Prop :=
  s.intReenter = 0 ∧ ¬ ((charged s).proc s.processReady).ticks > 0 ∧ (scheduleScan (charged s)).1 = 0

theorem clockIntHandler_runs (outermost : s.intReenter = 0)
    (left : 0 < ((charged s).proc s.processReady).ticks) :
    (clockIntHandler s).outcome = .ok (charged s) := by
  show (if s.intReenter ≠ 0 then pure (charged s)
    else if ((charged s).proc s.processReady).ticks > 0 then pure (charged s)
    else processSchedule scheduleFuel (charged s) : Ipc (Kernel n)).outcome = _
  rw [if_neg (not_not.mpr outermost), if_pos left]
  rfl

theorem clockIntHandler_schedules (outermost : s.intReenter = 0)
    (done : ¬ 0 < ((charged s).proc s.processReady).ticks) :
    (clockIntHandler s).outcome = (processSchedule scheduleFuel (charged s)).outcome := by
  show (if s.intReenter ≠ 0 then pure (charged s)
    else if ((charged s).proc s.processReady).ticks > 0 then pure (charged s)
    else processSchedule scheduleFuel (charged s) : Ipc (Kernel n)).outcome = _
  rw [if_neg (not_not.mpr outermost), if_neg done]

/-- `s` differs from `s₀` in the ticks of unblocked processes only. -/
structure Sharing (s₀ s : Kernel n) : Prop where
  proc : ∀ p, s.proc p = { s₀.proc p with ticks := (s.proc p).ticks }
  blocked : ∀ p, (s₀.proc p).flags ≠ 0 → s.proc p = s₀.proc p
  left : ∀ p, (s₀.proc p).flags = 0 → 0 ≤ (s.proc p).ticks
  ready : (s₀.proc s.processReady).flags = 0
  running : 0 < (s.proc s.processReady).ticks
  outermost : s.intReenter = 0

/-- **Just after a refill.** -/
structure Refilled (s : Kernel n) : Prop where
  ticks : ∀ p, (s.proc p).flags = 0 → (s.proc p).ticks = (s.proc p).priority
  priority : ∀ p, (s.proc p).flags = 0 → 0 < (s.proc p).priority
  ready : (s.proc s.processReady).flags = 0
  outermost : s.intReenter = 0

/-- The ticks of the unblocked processes. -/
def Kernel.quanta (s : Kernel n) : Quanta (Fin n) where
  left p := if (s.proc p).flags = 0 then (s.proc p).ticks.toNat else 0
  current := s.processReady

theorem Sharing.flags (sharing : Sharing s₀ s) (p : Fin n) :
    (s.proc p).flags = (s₀.proc p).flags := by
  rw [sharing.proc p]

theorem Sharing.priority (sharing : Sharing s₀ s) (p : Fin n) :
    (s.proc p).priority = (s₀.proc p).priority := by
  rw [sharing.proc p]

theorem Sharing.quanta_left (sharing : Sharing s₀ s) (p : Fin n) :
    s.quanta.left p = if (s₀.proc p).flags = 0 then (s.proc p).ticks.toNat else 0 := by
  show (if (s.proc p).flags = 0 then (s.proc p).ticks.toNat else 0) = _
  rw [sharing.flags p]

theorem Refilled.sharing (refilled : Refilled s) : Sharing s s where
  proc _ := rfl
  blocked _ _ := rfl
  left p free := (refilled.ticks p free).symm ▸ (refilled.priority p free).le
  ready := refilled.ready
  running := (refilled.ticks _ refilled.ready).symm ▸ refilled.priority _ refilled.ready
  outermost := refilled.outermost

/-! ### One call -/

theorem charged_ticks (s : Kernel n) (p : Fin n) : ((charged s).proc p).ticks =
    if p = s.processReady then decInt (s.proc p).ticks else (s.proc p).ticks := by
  rw [charged, modify_proc, ticks_ite]

/-- As long as nothing is charged for what it has not got, the charge is one tick. -/
theorem Sharing.charged_ticks (sharing : Sharing s₀ s) (p : Fin n) : ((charged s).proc p).ticks =
    if p = s.processReady then (s.proc p).ticks - 1 else (s.proc p).ticks := by
  have running := sharing.running
  rw [WalOS.charged_ticks]
  split
  · rename_i same
    exact decInt_of_lt (by rw [same]; omega)
  · rfl

/-- What the charge leaves. -/
theorem Sharing.charged (sharing : Sharing s₀ s) :
    (∀ p, (charged s).proc p = { s₀.proc p with ticks := ((charged s).proc p).ticks }) ∧
    (∀ p, (s₀.proc p).flags ≠ 0 → (WalOS.charged s).proc p = s₀.proc p) ∧
    ∀ p, (s₀.proc p).flags = 0 → 0 ≤ ((WalOS.charged s).proc p).ticks := by
  refine ⟨fun p => ?_, fun p stuck => ?_, fun p free => ?_⟩
  · rw [WalOS.charged, modify_proc]
    split
    · rw [sharing.proc p]
    · exact sharing.proc p
  · have other : p ≠ s.processReady := fun same => stuck (same ▸ sharing.ready)
    rw [WalOS.charged, modify_proc, if_neg other]
    exact sharing.blocked p stuck
  · rw [sharing.charged_ticks]
    have left := sharing.left p free
    have running := sharing.running
    split
    · rename_i same
      rw [same]
      omega
    · exact left

/-- A state that only the choice of the scheduler keeps from being the charged one. -/
theorem Sharing.charge (sharing : Sharing s₀ s) (proc : t.proc = (WalOS.charged s).proc)
    (stays : 0 < ((WalOS.charged s).proc s.processReady).ticks → t.processReady = s.processReady) :
    s.quanta.Charge t.quanta := by
  have ready : (s.proc s.processReady).flags = 0 := (sharing.flags _).trans sharing.ready
  have flags (p : Fin n) : ((WalOS.charged s).proc p).flags = (s.proc p).flags := by
    rw [sharing.charged.1 p, sharing.flags p]
  have left (p : Fin n) : t.quanta.left p =
      if (s.proc p).flags = 0 then ((WalOS.charged s).proc p).ticks.toNat else 0 := by
    show (if (t.proc p).flags = 0 then (t.proc p).ticks.toNat else 0) = _
    rw [proc, flags p]
  have running := sharing.running
  refine ⟨?_, fun p other => ?_, fun more => stays ?_⟩
  · show t.quanta.left s.processReady + 1 = s.quanta.left s.processReady
    rw [left, if_pos ready, sharing.charged_ticks, if_pos rfl]
    show _ = if (s.proc s.processReady).flags = 0 then _ else _
    rw [if_pos ready]
    omega
  · have elsewhere : p ≠ s.processReady := other
    rw [left, sharing.charged_ticks, if_neg elsewhere]
    rfl
  · have units : t.quanta.left s.processReady ≠ 0 := more
    rw [left, if_pos ready] at units
    omega

/-- **One call of the handler**: a tick of the round, or the last one with a refill. -/
theorem Sharing.step (sharing : Sharing s₀ s)
    (priority : ∀ p, (s₀.proc p).flags = 0 → 0 < (s₀.proc p).priority) :
    ∃ t, (clockIntHandler s).outcome = .ok t ∧ Sharing s₀ t ∧
      ((¬ Refills s ∧ s.quanta.Charge t.quanta) ∨
        (Refills s ∧ s.quanta.total = 1 ∧
          ∀ p, (s₀.proc p).flags = 0 → (t.proc p).ticks = (s₀.proc p).priority)) := by
  obtain ⟨proc, blocked, left⟩ := sharing.charged
  have flags (p : Fin n) : ((WalOS.charged s).proc p).flags = (s₀.proc p).flags := by rw [proc p]
  by_cases more : 0 < ((WalOS.charged s).proc s.processReady).ticks
  · refine ⟨WalOS.charged s, clockIntHandler_runs sharing.outermost more,
      ⟨proc, blocked, left, sharing.ready, more, sharing.outermost⟩, Or.inl ⟨?_, ?_⟩⟩
    · exact fun refills => refills.2.1 more
    · exact sharing.charge rfl fun _ => rfl
  · rw [clockIntHandler_schedules sharing.outermost more]
    by_cases none : (scheduleScan (WalOS.charged s)).1 = 0
    · -- nobody has a tick left: the table is refilled, and the next scan finds somebody
      have given (p : Fin n) (free : (s₀.proc p).flags = 0) :
          ((refill (WalOS.charged s)).proc p).ticks = (s₀.proc p).priority := by
        have filled : (refill (WalOS.charged s)).proc p =
            { (WalOS.charged s).proc p with ticks := ((WalOS.charged s).proc p).priority } :=
          if_pos ((flags p).trans free)
        rw [filled, proc p]
      have same (p : Fin n) (stuck : (s₀.proc p).flags ≠ 0) :
          (refill (WalOS.charged s)).proc p = s₀.proc p := by
        have kept : (refill (WalOS.charged s)).proc p = (WalOS.charged s).proc p :=
          if_neg fun free => stuck ((flags p).symm.trans free)
        rw [kept, blocked p stuck]
      have record (p : Fin n) : (refill (WalOS.charged s)).proc p =
          { s₀.proc p with ticks := ((refill (WalOS.charged s)).proc p).ticks } := by
        rw [(rescheduled_refill (WalOS.charged s)).proc p, proc p]
      have found : (scheduleScan (refill (WalOS.charged s))).1 ≠ 0 := by
        refine scheduleScan_ne_zero (p := s.processReady) ?_ ?_
        · rw [record]
          exact sharing.ready
        · rw [given _ sharing.ready]
          exact priority _ sharing.ready
      obtain ⟨ready, running, _⟩ := scheduleScan_most found
      rw [scheduleFuel, processSchedule_refill none, processSchedule_found found]
      refine ⟨_, rfl, ⟨record, same, fun p free => ?_, ?_, running, sharing.outermost⟩,
        Or.inr ⟨⟨sharing.outermost, more, none⟩, ?_, given⟩⟩
      · exact (given p free).symm ▸ (priority p free).le
      · rwa [record] at ready
      · have empty : (WalOS.charged s).quanta.total = 0 := by
          refine Finset.sum_eq_zero fun p _ => ?_
          show (if ((WalOS.charged s).proc p).flags = 0 then _ else _) = 0
          split
          · rename_i free
            have := scheduleScan_zero none p free
            omega
          · rfl
        have charge : s.quanta.Charge (WalOS.charged s).quanta := sharing.charge rfl fun _ => rfl
        rw [← charge.total, empty]
    · obtain ⟨ready, running, _⟩ := scheduleScan_most none
      rw [scheduleFuel, processSchedule_found none]
      refine ⟨_, rfl, ⟨proc, blocked, left, ?_, running, sharing.outermost⟩, Or.inl ⟨?_, ?_⟩⟩
      · rwa [flags] at ready
      · exact fun refills => none refills.2.2
      · exact sharing.charge rfl fun again => absurd again more

/-! ### Rounds -/

/-- Consecutive calls of the handler as the outermost one. -/
structure ClockRun (s : Kernel n) (t : ℕ → Kernel n) : Prop where
  start : t 0 = s
  step : ∀ k, (clockIntHandler (t k)).outcome = .ok (t (k + 1))

/-- The sum of the priorities of the unblocked processes. -/
def roundLength (s : Kernel n) : ℕ :=
  ∑ p, if (s.proc p).flags = 0 then (s.proc p).priority.toNat else 0

/-- The quanta of a full table. -/
theorem Sharing.full_left (sharing : Sharing s₀ s)
    (full : ∀ p, (s₀.proc p).flags = 0 → (s.proc p).ticks = (s₀.proc p).priority) (p : Fin n) :
    s.quanta.left p = if (s₀.proc p).flags = 0 then (s₀.proc p).priority.toNat else 0 := by
  rw [sharing.quanta_left]
  split
  · rename_i free
    rw [full p free]
  · rfl

theorem Sharing.running_left (sharing : Sharing s₀ s) :
    0 < s.quanta.left s.quanta.current := by
  show 0 < s.quanta.left s.processReady
  have running := sharing.running
  rw [sharing.quanta_left, if_pos sharing.ready]
  omega

/-- What holds after `k` calls. -/
structure InRound (s : Kernel n) (k : ℕ) (t : Kernel n) : Prop where
  sharing : Sharing s t
  used : t.quanta.total + k % roundLength s = roundLength s
  full : k % roundLength s = 0 → ∀ p, (s.proc p).flags = 0 → (t.proc p).ticks = (s.proc p).priority

theorem Refilled.inRound (refilled : Refilled s) : InRound s 0 s := by
  refine ⟨refilled.sharing, ?_, fun _ p free => refilled.ticks p free⟩
  rw [Nat.zero_mod, Nat.add_zero]
  exact Finset.sum_congr rfl fun p _ => refilled.sharing.full_left (fun p => refilled.ticks p) p

/-- The next call. -/
theorem InRound.step {k : ℕ} (inRound : InRound s k t) (refilled : Refilled s) :
    ∃ t', (clockIntHandler t).outcome = .ok t' ∧ InRound s (k + 1) t' ∧
      (Refills t ↔ roundLength s ∣ k + 1) ∧ (¬ roundLength s ∣ k + 1 → t.quanta.Charge t'.quanta) := by
  obtain ⟨t', returns, sharing, step⟩ := inRound.sharing.step refilled.priority
  have used := inRound.used
  have running := sharing.running_left
  have within := Quanta.left_le_total t'.quanta t'.quanta.current
  have next : (k + 1) % roundLength s = (k % roundLength s + 1) % roundLength s := by
    rw [Nat.mod_add_mod]
  rcases step with ⟨goes, charge⟩ | ⟨refills, last, full⟩
  · have total := charge.total
    have inside : (k + 1) % roundLength s = k % roundLength s + 1 := by
      rw [next, Nat.mod_eq_of_lt (by omega)]
    have notLast : ¬ roundLength s ∣ k + 1 := fun divides => by
      rw [Nat.dvd_iff_mod_eq_zero] at divides
      omega
    exact ⟨t', returns, ⟨sharing, by omega, fun zero => by omega⟩,
      ⟨fun refills => absurd refills goes, fun divides => absurd divides notLast⟩, fun _ => charge⟩
  · have atEnd : k % roundLength s + 1 = roundLength s := by omega
    have zero : (k + 1) % roundLength s = 0 := by rw [next, atEnd, Nat.mod_self]
    have divides : roundLength s ∣ k + 1 := Nat.dvd_of_mod_eq_zero zero
    refine ⟨t', returns, ⟨sharing, ?_, fun _ => full⟩, ⟨fun _ => divides, fun _ => refills⟩,
      fun notLast => absurd divides notLast⟩
    rw [zero, Nat.add_zero]
    exact Finset.sum_congr rfl fun p _ => sharing.full_left full p

theorem Refilled.run (refilled : Refilled s) {t : ℕ → Kernel n} (run : ClockRun s t) (k : ℕ) :
    InRound s k (t k) := by
  induction k with
  | zero => exact run.start ▸ refilled.inRound
  | succ k ih =>
    obtain ⟨t', returns, inRound, _⟩ := ih.step refilled
    obtain rfl : t' = t (k + 1) := Except.ok.inj (returns.symm.trans (run.step k))
    exact inRound

/-- The handler always returns. -/
theorem Refilled.exists_run (refilled : Refilled s) : ∃ t, ClockRun s t := by
  let next (t : Kernel n) : Kernel n := (clockIntHandler t).getD t
  have invariant (k : ℕ) : InRound s k (next^[k] s) := by
    induction k with
    | zero => exact refilled.inRound
    | succ k ih =>
      obtain ⟨t', returns, inRound, _⟩ := ih.step refilled
      have same : next (next^[k] s) = t' := by
        show (clockIntHandler _).getD _ = t'
        rw [Traced.getD, returns]
      rw [Function.iterate_succ_apply', same]
      exact inRound
  refine ⟨fun k => next^[k] s, rfl, fun k => ?_⟩
  obtain ⟨t', returns, _⟩ := (invariant k).step refilled
  have returned : (clockIntHandler (next^[k] s)).returns = true := by
    rw [Traced.returns, returns]
  rw [Function.iterate_succ_apply']
  exact Traced.outcome_getD returned _

/-- In a round every unblocked process is charged for its priority. -/
theorem Refilled.interval (refilled : Refilled s) {t : ℕ → Kernel n} (run : ClockRun s t)
    (round : ℕ) {p : Fin n} (free : (s.proc p).flags = 0) :
    ∃ start, start + (s.proc p).priority.toNat ≤ roundLength s ∧ ∀ j < roundLength s,
      (t (round * roundLength s + j)).processReady = p ↔
        start ≤ j ∧ j < start + (s.proc p).priority.toNat := by
  have first : round * roundLength s % roundLength s = 0 := Nat.mul_mod_left _ _
  have inRound := refilled.run run (round * roundLength s)
  have left : (t (round * roundLength s)).quanta.left p = (s.proc p).priority.toNat := by
    rw [inRound.sharing.full_left (inRound.full first), if_pos free]
  have total : (t (round * roundLength s)).quanta.total = roundLength s := by
    have used := inRound.used
    omega
  have charge : ∀ j, j + 1 < roundLength s → (t (round * roundLength s + j)).quanta.Charge
      (t (round * roundLength s + (j + 1))).quanta := by
    intro j inside
    obtain ⟨t', returns, _, _, charge⟩ :=
      (refilled.run run (round * roundLength s + j)).step refilled
    obtain rfl : t' = t (round * roundLength s + j + 1) :=
      Except.ok.inj (returns.symm.trans (run.step _))
    refine charge fun divides => ?_
    rw [Nat.add_assoc] at divides
    have within := (Nat.dvd_add_right (Nat.dvd_mul_left (roundLength s) round)).mp divides
    exact absurd (Nat.le_of_dvd (Nat.succ_pos j) within) (by omega)
  obtain ⟨start, room, _, runs⟩ := Quanta.interval
    (q := fun j => (t (round * roundLength s + j)).quanta)
    (fun j _ => (refilled.run run _).sharing.running_left) charge total p
  rw [Nat.add_zero, left] at room runs
  exact ⟨start, room, runs⟩

/-- **The CPU is shared in proportion to the priorities.** From a state just after a refill, with no
message passing: the handler always returns; in every round each unblocked process is the one charged
for exactly as many ticks as its priority says, and these are consecutive; the refill comes with the
last call of a round and with no other, and leaves the table as after the one before; ticks never get
negative; and a blocked process is neither charged nor selected. -/
theorem proportional_share (refilled : Refilled s) :
    (∃ t, ClockRun s t) ∧ ∀ t, ClockRun s t →
      (∀ round p, (s.proc p).flags = 0 →
        ∃ start, start + (s.proc p).priority.toNat ≤ roundLength s ∧ ∀ j < roundLength s,
          (t (round * roundLength s + j)).processReady = p ↔
            start ≤ j ∧ j < start + (s.proc p).priority.toNat) ∧
      (∀ k, Refills (t k) ↔ roundLength s ∣ k + 1) ∧
      (∀ round, Refilled (t (round * roundLength s))) ∧
      (∀ k p, (s.proc p).flags = 0 → 0 ≤ ((t k).proc p).ticks) ∧
      ∀ k, (s.proc (t k).processReady).flags = 0 ∧
        ∀ p, (s.proc p).flags ≠ 0 → (t k).proc p = s.proc p := by
  refine ⟨refilled.exists_run, fun t run => ⟨fun round p free => refilled.interval run round free,
    fun k => ?_, fun round => ?_, fun k => (refilled.run run k).sharing.left,
    fun k => ⟨(refilled.run run k).sharing.ready, (refilled.run run k).sharing.blocked⟩⟩⟩
  · obtain ⟨_, _, _, refills, _⟩ := (refilled.run run k).step refilled
    exact refills
  · have inRound := refilled.run run (round * roundLength s)
    have sharing := inRound.sharing
    have full := inRound.full (Nat.mul_mod_left _ _)
    refine ⟨fun p free => ?_, fun p free => ?_, ?_, sharing.outermost⟩
    · rw [sharing.flags] at free
      rw [full p free, sharing.priority]
    · rw [sharing.flags] at free
      rw [sharing.priority]
      exact refilled.priority p free
    · rw [sharing.flags]
      exact sharing.ready

/-- After boot the table is refilled every 75 ticks. -/
theorem proportional_share_boot : ∃ t, ClockRun bootKernel t ∧ ∀ k, Refills (t k) ↔ 75 ∣ k + 1 := by
  have refilled : Refilled bootKernel :=
    ⟨fun _ _ => rfl, fun p _ => by revert p; decide, rfl, rfl⟩
  have length : roundLength bootKernel = 75 := by decide
  obtain ⟨⟨t, run⟩, all⟩ := proportional_share refilled
  exact ⟨t, run, length ▸ (all t run).2.1⟩

end WalOS
