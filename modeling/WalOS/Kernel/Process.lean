/-
**Scheduling and addresses** (`process.c`).

* `processSchedule fuel s` — the `while (!biggest_tick)` of `process_schedule`: a scan for the
  unblocked process with the most ticks, and a refill of the unblocked processes when nobody has a
  tick left. A refilled table that still offers nobody is scanned forever.
* `processSchedule_sat` — whatever it returns differs from the table before in the ticks of unblocked
  processes and in `process_ready` only (`Rescheduled`), and `process_ready` is unblocked.
* `processSchedule_returns` — two rounds are enough as soon as an unblocked process has positive
  ticks or a positive priority.
-/

import WalOS.Kernel.State
import Mathlib.Data.List.FinRange

namespace WalOS

variable {n : ℕ}

/-! ### `process_schedule` -/

/-- One step of the scan, on `biggest_tick` and `process_ready`. -/
def scanStep (s : Kernel n) (best : Int × Fin n) (p : Fin n) : Int × Fin n :=
  if (s.proc p).flags = 0 ∧ (s.proc p).ticks > best.1 then ((s.proc p).ticks, p) else best

/-- The scan of the whole table, from `biggest_tick = 0`. -/
def scheduleScan (s : Kernel n) : Int × Fin n :=
  (List.finRange n).foldl (scanStep s) (0, s.processReady)

/-- The refill of the unblocked processes. -/
def refill (s : Kernel n) : Kernel n :=
  { s with proc := fun p =>
      if (s.proc p).flags = 0 then { s.proc p with ticks := (s.proc p).priority } else s.proc p }

/-- One round of the `while`. -/
def scheduleRound (s : Kernel n) : Ipc (Kernel n ⊕ Kernel n) :=
  let best := scheduleScan s
  let s := { s with processReady := best.2 }
  if best.1 = 0 then pure (.inl (refill s)) else pure (.inr s)

def processSchedule (fuel : ℕ) (s : Kernel n) : Ipc (Kernel n) :=
  Traced.loop .forever scheduleRound fuel s

/-- The rounds that decide `process_schedule`: after one refill the scans repeat themselves. -/
def scheduleFuel : ℕ := 2

/-! ### `vir_to_linear` -/

def virToLinear (outside : Int → Process n) (s : Kernel n) (id : Int) (virAddr : Addr) :
    Ipc Addr := do
  let p ← procTable outside s id
  let linearAddr := p.segBase + virAddr
  assertThat .virToLinear (id < n → linearAddr = virAddr)
  pure linearAddr

/-! ### What scheduling changes -/

/-- `t` is `s` with other ticks and another `process_ready`. -/
structure Rescheduled (s t : Kernel n) : Prop where
  proc : ∀ p, t.proc p = { s.proc p with ticks := (t.proc p).ticks }
  mem : t.mem = s.mem
  intReenter : t.intReenter = s.intReenter
  ticks : t.ticks = s.ticks

theorem Rescheduled.refl (s : Kernel n) : Rescheduled s s := ⟨fun _ => rfl, rfl, rfl, rfl⟩

theorem Rescheduled.trans {s t u : Kernel n} (first : Rescheduled s t) (second : Rescheduled t u) :
    Rescheduled s u where
  proc p := by rw [second.proc p, first.proc p]
  mem := second.mem.trans first.mem
  intReenter := second.intReenter.trans first.intReenter
  ticks := second.ticks.trans first.ticks

theorem rescheduled_refill (s : Kernel n) : Rescheduled s (refill s) where
  proc p := by
    unfold refill
    dsimp only
    split <;> rfl
  mem := rfl
  intReenter := rfl
  ticks := rfl

/-- `process_schedule` looks once more. -/
def LooksAgain (s t : Kernel n) : Prop := (scheduleRound s).outcome = .ok (.inl t)

theorem LooksAgain.rescheduled {s t : Kernel n} (looks : LooksAgain s t) : Rescheduled s t := by
  unfold LooksAgain scheduleRound at looks
  dsimp only at looks
  split at looks
  · obtain rfl := Sum.inl.inj (Except.ok.inj looks)
    exact Rescheduled.trans (t := { s with processReady := (scheduleScan s).2 })
      ⟨fun _ => rfl, rfl, rfl, rfl⟩ (rescheduled_refill _)
  · cases looks

/-- No process has more ticks than its priority. -/
def TicksBounded (s : Kernel n) : Prop := ∀ p, (s.proc p).ticks ≤ (s.proc p).priority

theorem TicksBounded.refill {s : Kernel n} (bounded : TicksBounded s) : TicksBounded (refill s) := by
  intro p
  unfold WalOS.refill
  dsimp only
  split
  · exact le_refl _
  · exact bounded p

/-- The scan of a list: either it keeps what it started from, or it ends at an unblocked process of
the list with more ticks; in any case no unblocked process of the list has more. -/
theorem foldl_scanStep (s : Kernel n) (l : List (Fin n)) (start : Int × Fin n) :
    (∀ p ∈ l, (s.proc p).flags = 0 → (s.proc p).ticks ≤ (l.foldl (scanStep s) start).1) ∧
      start.1 ≤ (l.foldl (scanStep s) start).1 ∧
      (l.foldl (scanStep s) start = start ∨
        ((s.proc (l.foldl (scanStep s) start).2).flags = 0 ∧
          (s.proc (l.foldl (scanStep s) start).2).ticks = (l.foldl (scanStep s) start).1 ∧
          start.1 < (l.foldl (scanStep s) start).1)) := by
  induction l generalizing start with
  | nil => exact ⟨fun p member => absurd member List.not_mem_nil, le_refl _, Or.inl rfl⟩
  | cons q l ih =>
    obtain ⟨most, grows, found⟩ := ih (scanStep s start q)
    rw [List.foldl_cons]
    by_cases better : (s.proc q).flags = 0 ∧ (s.proc q).ticks > start.1
    · have step : scanStep s start q = ((s.proc q).ticks, q) := if_pos better
      rw [step] at most grows found ⊢
      refine ⟨fun p member ready => ?_, better.2.le.trans grows, Or.inr ?_⟩
      · rcases List.mem_cons.mp member with rfl | member
        · exact grows
        · exact most p member ready
      · rcases found with same | ⟨ready, value, more⟩
        · rw [same]
          exact ⟨better.1, rfl, better.2⟩
        · exact ⟨ready, value, lt_trans better.2 more⟩
    · have step : scanStep s start q = start := if_neg better
      rw [step] at most grows found ⊢
      refine ⟨fun p member ready => ?_, grows, found⟩
      rcases List.mem_cons.mp member with rfl | member
      · exact (not_lt.mp fun more => better ⟨ready, more⟩).trans grows
      · exact most p member ready

/-- A scan that finds nothing: no unblocked process has a tick left. -/
theorem scheduleScan_zero {s : Kernel n} (zero : (scheduleScan s).1 = 0) (p : Fin n)
    (ready : (s.proc p).flags = 0) : (s.proc p).ticks ≤ 0 :=
  zero ▸ (foldl_scanStep s (List.finRange n) (0, s.processReady)).1 p (List.mem_finRange p) ready

/-- A scan that finds somebody finds an unblocked process. -/
theorem scheduleScan_found {s : Kernel n} (found : (scheduleScan s).1 ≠ 0) :
    (s.proc (scheduleScan s).2).flags = 0 := by
  rcases (foldl_scanStep s (List.finRange n) (0, s.processReady)).2.2 with same | ⟨ready, _, _⟩
  · exact absurd (congrArg Prod.fst same) found
  · exact ready

/-- **What `process_schedule` returns.** -/
theorem processSchedule_sat (fuel : ℕ) (s : Kernel n) (acc : Int → Prop) :
    (processSchedule fuel s).Sat acc
      (fun t => Rescheduled s t ∧ (t.proc t.processReady).flags = 0 ∧
        (TicksBounded s → TicksBounded t)) (· = .forever) := by
  have start : Rescheduled s s ∧ (TicksBounded s → TicksBounded s) := ⟨.refl s, id⟩
  unfold processSchedule
  refine Traced.Sat.loop_partial
    (fun u => Rescheduled s u ∧ (TicksBounded s → TicksBounded u)) (fun u holds => ?_) ?_ fuel s start
  case refine_2 => rfl
  unfold scheduleRound
  refine Traced.Sat.ite (fun _ => Traced.Sat.pure ?_) fun found => Traced.Sat.pure ?_
  · refine ⟨holds.1.trans ?_, fun bounded => ?_⟩
    · exact Rescheduled.trans (t := { u with processReady := (scheduleScan u).2 })
        ⟨fun _ => rfl, rfl, rfl, rfl⟩ (rescheduled_refill _)
    · exact TicksBounded.refill (s := { u with processReady := (scheduleScan u).2 })
        (holds.2 bounded)
  · exact ⟨holds.1.trans ⟨fun _ => rfl, rfl, rfl, rfl⟩, scheduleScan_found found, holds.2⟩

/-- **`process_schedule` returns** when an unblocked process has positive ticks or priority. -/
theorem processSchedule_returns {fuel : ℕ} {s : Kernel n} {p : Fin n} (enough : scheduleFuel ≤ fuel)
    (ready : (s.proc p).flags = 0) (positive : 0 < (s.proc p).ticks ∨ 0 < (s.proc p).priority)
    (acc : Int → Prop) : (processSchedule fuel s).Sat acc (fun _ => True) (fun _ => False) := by
  classical
  refine Traced.Sat.loop
    (fun u => (u.proc p).flags = 0 ∧ (0 < (u.proc p).ticks ∨ 0 < (u.proc p).priority))
    (fun u => if 0 < (u.proc p).ticks then 0 else 1) (fun u holds => ?_) fuel s ⟨ready, positive⟩ ?_
  · unfold scheduleRound
    refine Traced.Sat.ite (fun zero => Traced.Sat.pure ?_) fun _ => Traced.Sat.pure trivial
    have empty := scheduleScan_zero zero p holds.1
    have more : 0 < (u.proc p).priority := holds.2.resolve_left (not_lt.mpr empty)
    have refilled : ((refill { u with processReady := (scheduleScan u).2 }).proc p) =
        { u.proc p with ticks := (u.proc p).priority } := if_pos holds.1
    show (_ ∧ _) ∧ _
    rw [refilled, if_neg (not_lt.mpr empty)]
    exact ⟨⟨holds.1, Or.inl more⟩, by simp [more]⟩
  · unfold scheduleFuel at enough
    split <;> omega

end WalOS
