/-
**Waiting by ticks** (`delay` of `common.c`, `get_status` of `hdd.c`).

Both loops compare the milliseconds since their first reading of the ticks with a bound. A tick is 10
milliseconds. The source multiplies by 1000 and divides by `HZ`; signed overflow is undefined and the
`Makefile` does not ask for `-fwrapv`, so the compiler computes one product by 10, which wraps around from
214748365 ticks on.

* `elapsedMilli_source` — the product by 10 is the formula of the source where that does not overflow.
* `elapsedMilli_exact`, `elapsedMilli_wraps` — the milliseconds up to the last tick that fits, and then.
* `delay_eq`, `getStatus_eq` — both loops stop at the first reading that has the bound.
* `waits_exactly_iff` — **the waits are exact for bounds up to 2147483640**, and otherwise only while the
  time has not come.
-/

import Mathlib.Data.List.Chain
import Mathlib.Data.List.Range

namespace WalOS.Timeout

/-! ### The code -/

/-- `(get_ticks() - t) * 1000 / HZ`, as it is built: the factor and the divisor are folded. -/
def elapsedMilli (ticks t : BitVec 32) : BitVec 32 := (ticks - t) * 10

/-- `delay` after its first reading `t`: the later reading at which it stops. -/
def delay (milli t : BitVec 32) : List (BitVec 32) → Option ℕ
  | [] => none
  | ticks :: readings =>
      if (elapsedMilli ticks t).slt milli then (delay milli t readings).map (· + 1) else some 0

/-- `get_status` after its first reading `t`, with the status that each later reading is followed by: the
reading at which it stops, and what it returns. -/
def getStatus (stMask val timeout t : BitVec 32) : List (BitVec 32 × BitVec 8) → Option (ℕ × Bool)
  | [] => none
  | (ticks, status) :: polls =>
      if (elapsedMilli ticks t).slt timeout then
        if status.setWidth 32 &&& stMask = val then some (0, true)
        else (getStatus stMask val timeout t polls).map (Prod.map (· + 1) id)
      else some (0, false)

/-! ### The milliseconds -/

variable {milli t ticks stMask val : BitVec 32} {e before : ℕ} {elapsed : List ℕ}

theorem elapsed_ticks (t ticks : BitVec 32) : t + ticks - t = ticks := by
  rw [BitVec.add_comm, BitVec.add_sub_cancel]

/-- A product of few ticks. -/
theorem product_toInt {factor : ℕ} (few : e * factor ≤ 2147483647) :
    (BitVec.ofNat 32 e * BitVec.ofNat 32 factor).toInt = (e * factor : ℕ) := by
  rw [← BitVec.ofNat_mul, BitVec.toInt_ofNat', Int.bmod_eq_of_le (by omega) (by omega)]

/-- The milliseconds of few ticks. -/
theorem elapsedMilli_exact (few : e ≤ 214748364) :
    (elapsedMilli (t + BitVec.ofNat 32 e) t).toInt = e * 10 := by
  rw [elapsedMilli, elapsed_ticks]
  exact @product_toInt e 10 (by omega)

/-- **The formula of the source**, where its product by 1000 fits. -/
theorem elapsedMilli_source (few : e ≤ 2147483) :
    ((t + BitVec.ofNat 32 e - t) * 1000).sdiv 100 = elapsedMilli (t + BitVec.ofNat 32 e) t := by
  have product : ((t + BitVec.ofNat 32 e - t) * 1000).toInt = (e : ℤ) * 10 * 100 := by
    rw [elapsed_ticks]
    exact (@product_toInt e 1000 (by omega)).trans (by omega)
  apply BitVec.eq_of_toInt_eq
  rw [BitVec.toInt_sdiv_of_ne_or_ne _ _ (.inr (by decide)), product,
    elapsedMilli_exact (by omega)]
  exact Int.mul_tdiv_cancel _ (by decide)

/-- One tick more than fits, and the product wraps around. -/
theorem elapsedMilli_wraps (t : BitVec 32) :
    (elapsedMilli (t + BitVec.ofNat 32 214748365) t).toInt = -2147483646 := by
  rw [elapsedMilli, elapsed_ticks]
  decide

/-! ### The loops -/

/-- The milliseconds of a reading have come to the bound. -/
def stops (milli t ticks : BitVec 32) : Bool := !(elapsedMilli ticks t).slt milli

theorem stops_iff : stops milli t ticks = true ↔ milli.toInt ≤ (elapsedMilli ticks t).toInt := by
  rw [stops, Bool.not_eq_true', Bool.eq_false_iff, Ne, BitVec.slt_iff_toInt_lt, Int.not_lt]

/-- **`delay` stops** at the first reading that has the bound. -/
theorem delay_eq (milli t : BitVec 32) (readings : List (BitVec 32)) :
    delay milli t readings = readings.findIdx? (stops milli t) := by
  induction readings with
  | nil => rfl
  | cons ticks readings ih =>
    rw [delay, List.findIdx?_cons, stops, ih]
    cases (elapsedMilli ticks t).slt milli <;> rfl

/-- **`get_status` gives up** at the first reading that has the bound, if the status is never shown. -/
theorem getStatus_eq {polls : List (BitVec 32 × BitVec 8)}
    (other : ∀ poll ∈ polls, poll.2.setWidth 32 &&& stMask ≠ val) :
    getStatus stMask val milli t polls =
      (polls.map Prod.fst |>.findIdx? (stops milli t)).map fun k => (k, false) := by
  induction polls with
  | nil => rfl
  | cons poll polls ih =>
    rw [getStatus, ih fun later member => other later (List.mem_cons_of_mem _ member),
      if_neg (other poll List.mem_cons_self), List.map_cons, List.findIdx?_cons, stops]
    cases (elapsedMilli poll.1 t).slt milli with
    | true =>
      show Option.map _ (Option.map _ _) = Option.map _ (Option.map _ _)
      rw [Option.map_map, Option.map_map]
      rfl
    | false => rfl

/-! ### Exact waits -/

/-- Elapsed ticks that grow by 0 or 1 per reading. -/
def Grows (before : ℕ) (elapsed : List ℕ) : Prop :=
  (before :: elapsed).IsChain fun e e' => e' = e ∨ e' = e + 1

/-- The readings of elapsed ticks. -/
def readings (t : BitVec 32) (elapsed : List ℕ) : List (BitVec 32) :=
  elapsed.map fun e => t + BitVec.ofNat 32 e

/-- The time has come. -/
def due (milli : BitVec 32) (e : ℕ) : Bool := decide (milli.toInt ≤ e * 10)

/-- **Both loops stop at the first reading at which the time has come**; `get_status` gives up there when
the drive never shows the status. -/
structure WaitsExactly (milli t : BitVec 32) (elapsed : List ℕ) : Prop where
  delay : delay milli t (readings t elapsed) = elapsed.findIdx? (due milli)
  getStatus : ∀ (stMask val : BitVec 32) (statuses : List (BitVec 8)), statuses.length = elapsed.length →
    (∀ status ∈ statuses, status.setWidth 32 &&& stMask ≠ val) →
    getStatus stMask val milli t ((readings t elapsed).zip statuses) =
      (elapsed.findIdx? (due milli)).map fun k => (k, false)

/-- Both loops stop where the readings first have the bound. -/
theorem waitsExactly_iff : WaitsExactly milli t elapsed ↔
    (readings t elapsed).findIdx? (stops milli t) = elapsed.findIdx? (due milli) := by
  constructor
  · rintro ⟨waits, -⟩
    rwa [delay_eq] at waits
  · intro same
    refine ⟨by rw [delay_eq, same], fun stMask val statuses length other => ?_⟩
    have sizes : (readings t elapsed).length ≤ statuses.length := by
      rw [readings, List.length_map, length]
    have never : ∀ poll ∈ (readings t elapsed).zip statuses, poll.2.setWidth 32 &&& stMask ≠ val :=
      fun poll member => other poll.2 (List.of_mem_zip member).2
    rw [getStatus_eq never, List.map_fst_zip sizes, same]

/-- No reading stops a loop early. -/
theorem due_of_stops (stop : stops milli t (t + BitVec.ofNat 32 e) = true) : milli.toInt ≤ e * 10 := by
  rw [stops_iff] at stop
  rcases Nat.lt_or_ge 214748364 e with many | few
  · have most : milli.toInt < 2147483648 := BitVec.toInt_lt
    omega
  · rwa [elapsedMilli_exact few] at stop

/-- The reading at which the time has come stops the loops for a bound up to 2147483640. -/
theorem stops_iff_of_due (step : e = before ∨ e = before + 1)
    (waiting : before = 0 ∨ before * 10 < milli.toInt) (now : milli.toInt ≤ e * 10) :
    stops milli t (t + BitVec.ofNat 32 e) = true ↔ milli.toInt ≤ 2147483640 := by
  rw [stops_iff]
  rcases Nat.lt_or_ge 214748364 e with many | few
  · have most : milli.toInt < 2147483648 := BitVec.toInt_lt
    -- only a bound above 2147483640 is waited for until here
    obtain rfl : e = 214748365 := by omega
    rw [elapsedMilli_wraps]
    omega
  · rw [elapsedMilli_exact few]
    omega

/-- **The loops stop where the time has come** exactly if it does not come, or the bound is at most
2147483640. -/
theorem findIdx_eq_iff (grows : Grows before elapsed) (waiting : before = 0 ∨ before * 10 < milli.toInt) :
    (readings t elapsed).findIdx? (stops milli t) = elapsed.findIdx? (due milli) ↔
      milli.toInt ≤ 2147483640 ∨ ∀ e ∈ elapsed, e * 10 < milli.toInt := by
  induction elapsed generalizing before with
  | nil => exact iff_of_true rfl (.inr fun _ member => absurd member List.not_mem_nil)
  | cons e elapsed ih =>
    obtain ⟨step, grows⟩ := List.isChain_cons_cons.mp grows
    rw [readings, List.map_cons, List.findIdx?_cons, List.findIdx?_cons, due]
    by_cases now : milli.toInt ≤ e * 10
    · have here := stops_iff_of_due (t := t) step waiting now
      have notLater : ¬ ∀ e' ∈ e :: elapsed, e' * 10 < milli.toInt :=
        fun later => absurd (later e List.mem_cons_self) (Int.not_lt.mpr now)
      rw [if_pos (decide_eq_true now), or_iff_left notLater, ← here]
      cases stops milli t (t + BitVec.ofNat 32 e) with
      | true => exact iff_of_true rfl rfl
      | false =>
        refine iff_of_false (fun same => ?_) Bool.false_ne_true
        obtain ⟨k, -, zero⟩ := Option.map_eq_some_iff.mp same
        exact absurd zero (Nat.succ_ne_zero k)
    · rw [if_neg fun stop => now (due_of_stops stop), if_neg fun yet => now (of_decide_eq_true yet),
        (Option.map_injective (Nat.succ_injective)).eq_iff, List.forall_mem_cons,
        and_iff_right (Int.not_le.mp now)]
      exact ih grows (.inr (Int.not_le.mp now))

/-- **The waits are exact** exactly for a bound up to 2147483640, and while the time has not come. -/
theorem waits_exactly_iff (milli t : BitVec 32) (elapsed : List ℕ) (grows : Grows 0 elapsed) :
    WaitsExactly milli t elapsed ↔ milli.toInt ≤ 2147483640 ∨ ∀ e ∈ elapsed, e * 10 < milli.toInt := by
  rw [waitsExactly_iff]
  exact findIdx_eq_iff grows (.inl rfl)

/-- 20 milliseconds, from the last tick before the counter wraps around. -/
theorem waits_exactly_twenty : WaitsExactly 20 (-1) [0, 1, 1, 2, 3] :=
  (waits_exactly_iff 20 (-1) [0, 1, 1, 2, 3] (by unfold Grows; decide)).mpr (.inl (by decide))

/-- The largest bound, with one more tick at every reading. -/
theorem waits_past : Grows 0 (List.range' 1 214748365) ∧
    ¬ WaitsExactly 0x7fffffff 0 (List.range' 1 214748365) := by
  have grows : Grows 0 (List.range' 1 214748365) :=
    (List.isChain_range' 0 214748366 1).imp fun _ _ next => .inr next
  refine ⟨grows, ?_⟩
  rw [waitsExactly_iff, findIdx_eq_iff grows (.inl rfl)]
  rintro (few | never)
  · exact absurd few (by decide)
  · have last := never 214748365 (List.mem_range'_1.mpr (by decide))
    exact absurd last (by decide)

end WalOS.Timeout
