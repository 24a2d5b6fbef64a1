/-
**A pair of 8259A interrupt controllers**, the slave behind line 2 of the master.

A controller has for each of its lines a request, a mask and a service bit. The lowest line has the
highest priority, and a line in service blocks those of its priority and below.

* `Pic.writeCtrl`, `Pic.writeData` — what the command words do: a first initialization word starts the
  sequence, whose next words and then the masks go to the data port. Of the operation words only the
  non-specific end of interrupt is modelled.
* `Pics.request`, `Pics.acknowledge` — the line that the pair asks the processor for, and what happens
  when it is taken.
* `request_spec`, `request_complete` — a line that is asked for is requested and unmasked; while nothing
  is in service, no line is blocked.
-/

import Mathlib.Algebra.Group.Nat.Defs
import Mathlib.Data.List.FinRange
import Mathlib.Logic.Function.Basic

namespace Intel8259

/-! ### Bytes of lines -/

scoped instance eightLines : @NeZero ℕ Zero.ofOfNat0 8 := ⟨by decide⟩
scoped instance sixteenLines : @NeZero ℕ Zero.ofOfNat0 16 := ⟨by decide⟩

theorem eight_le_sixteen : 8 ≤ 16 := by decide

/-- The bit of a line. -/
def bit (i : Fin 8) : BitVec 8 := 1#8 <<< (i : ℕ)

/-- The line of the highest priority in a byte. -/
def firstLine (lines : BitVec 8) : Option (Fin 8) := (List.finRange 8).find? fun i => lines.getLsbD i

/-! ### A controller -/

/-- What the data port takes next. -/
inductive Expects where
  | vector
  | wiring
  | mode
  | mask
deriving DecidableEq

structure Pic where
  vector : BitVec 8
  wiring : BitVec 8
  mode : BitVec 8
  single : Bool
  needsMode : Bool
  expects : Expects
  mask : BitVec 8
  requests : BitVec 8
  service : BitVec 8
deriving DecidableEq

namespace Pic

/-- The non-specific end of interrupt ends the service of the highest priority. -/
def endService (p : Pic) : Pic :=
  match firstLine p.service with
  | none => p
  | some i => { p with service := p.service &&& ~~~bit i }

/-- The first initialization word. -/
def startInit (p : Pic) (word : BitVec 8) : Pic :=
  { p with
    mode := 0, single := word.getLsbD 1, needsMode := word.getLsbD 0, expects := .vector
    mask := 0, requests := 0, service := 0 }

def writeCtrl (p : Pic) (word : BitVec 8) : Pic :=
  if word.getLsbD 4 then p.startInit word
  else if word = 0x20 then p.endService
  else p

def writeData (p : Pic) (word : BitVec 8) : Pic :=
  match p.expects with
  | .vector =>
    { p with
      vector := word &&& 0xf8
      expects := if p.single then (if p.needsMode then .mode else .mask) else .wiring }
  | .wiring => { p with wiring := word, expects := if p.needsMode then .mode else .mask }
  | .mode => { p with mode := word, expects := .mask }
  | .mask => { p with mask := word }

/-- The line that a controller asks for, when `lines` are requested. -/
def pending (p : Pic) (lines : BitVec 8) : Option (Fin 8) :=
  match firstLine (lines &&& ~~~p.mask) with
  | none => none
  | some i => if ∀ j ≤ i, p.service.getLsbD j = false then some i else none

/-- A line is taken: unless the controller ends its interrupts itself, it is in service. -/
def acknowledge (p : Pic) (i : Fin 8) : Pic :=
  { p with
    requests := p.requests &&& ~~~bit i
    service := if p.mode.getLsbD 1 then p.service else p.service ||| bit i }

end Pic

/-! ### The pair -/

inductive Chip where
  | master
  | slave
deriving DecidableEq

abbrev Pics := Chip → Pic

/-- The lines of the pair, 0 to 7 of the master and 8 to 15 of the slave. -/
def chipOf (n : Fin 16) : Chip := if n < 8 then .master else .slave

def lineOf (n : Fin 16) : Fin 8 := ⟨n % 8, Nat.mod_lt _ (by decide)⟩

def slaveLine (i : Fin 8) : Fin 16 := ⟨i + 8, by omega⟩

/-- The line of the master that the slave asks through. -/
def cascade : Fin 8 := 2

namespace Pics

def Masked (pics : Pics) (n : Fin 16) : Prop := (pics (chipOf n)).mask.getLsbD (lineOf n) = true

def Requested (pics : Pics) (n : Fin 16) : Prop :=
  (pics (chipOf n)).requests.getLsbD (lineOf n) = true

instance (pics : Pics) (n : Fin 16) : Decidable (pics.Masked n) := inferInstanceAs (Decidable (_ = _))
instance (pics : Pics) (n : Fin 16) : Decidable (pics.Requested n) :=
  inferInstanceAs (Decidable (_ = _))

/-- Nothing is in service. -/
def Quiet (pics : Pics) : Prop := ∀ chip, (pics chip).service = 0

/-- Both know the line between them and leave the end of interrupts to the processor. -/
structure Wired (pics : Pics) : Prop where
  master : (pics .master).wiring = bit cascade
  slave : (pics .slave).wiring &&& 7 = 2
  mode : ∀ chip, (pics chip).mode.getLsbD 1 = false

/-- The line that the slave asks for. -/
def slavePending (pics : Pics) : Option (Fin 8) := (pics .slave).pending (pics .slave).requests

/-- The requests at the master, with that of the slave. -/
def masterRequests (pics : Pics) : BitVec 8 :=
  if pics.slavePending.isSome then (pics .master).requests ||| bit cascade
  else (pics .master).requests &&& ~~~bit cascade

/-- The line that the pair asks for; the slave has to be the one that the master expects. -/
def request (pics : Pics) : Option (Fin 16) :=
  match (pics .master).pending pics.masterRequests with
  | none => none
  | some i =>
    if i = cascade then
      if (pics .master).wiring.getLsbD i ∧ (pics .slave).wiring &&& 7 = 2 then
        pics.slavePending.map slaveLine
      else none
    else some (i.castLE eight_le_sixteen)

/-- The vector of a line. -/
def vectorOf (pics : Pics) (n : Fin 16) : BitVec 8 :=
  (pics (chipOf n)).vector ||| BitVec.ofNat 8 (lineOf n)

/-- The processor takes a line: that of a slave is in service at both. -/
def acknowledge (pics : Pics) (n : Fin 16) : Pics := fun chip =>
  if chip = chipOf n then (pics chip).acknowledge (lineOf n)
  else if chip = .master then (pics chip).acknowledge cascade
  else pics chip

/-- A device asks for a line. -/
def raise (pics : Pics) (n : Fin 16) : Pics :=
  Function.update pics (chipOf n)
    { pics (chipOf n) with requests := (pics (chipOf n)).requests ||| bit (lineOf n) }

end Pics

/-! ### Bits -/

theorem getLsbD_bit (i j : Fin 8) : (bit i).getLsbD j = decide (j = i) := by
  revert i j
  decide

theorem getLsbD_and_not_bit (b : BitVec 8) (i j : Fin 8) :
    (b &&& ~~~bit i).getLsbD j = (b.getLsbD j && decide (j ≠ i)) := by
  have inside : decide ((j : ℕ) < 8) = true := decide_eq_true j.isLt
  rw [BitVec.getLsbD_and, BitVec.getLsbD_not, getLsbD_bit, inside, Bool.true_and]
  simp

theorem getLsbD_or_bit (b : BitVec 8) (i j : Fin 8) :
    (b ||| bit i).getLsbD j = (b.getLsbD j || decide (j = i)) := by
  rw [BitVec.getLsbD_or, getLsbD_bit]

theorem getLsbD_unmasked (lines mask : BitVec 8) (i : Fin 8) :
    (lines &&& ~~~mask).getLsbD i = (lines.getLsbD i && !mask.getLsbD i) := by
  have inside : decide ((i : ℕ) < 8) = true := decide_eq_true i.isLt
  rw [BitVec.getLsbD_and, BitVec.getLsbD_not, inside, Bool.true_and]

/-- Bytes with the same lines are the same. -/
theorem eq_of_lines {b b' : BitVec 8} (same : ∀ i : Fin 8, b.getLsbD i = b'.getLsbD i) : b = b' :=
  BitVec.eq_of_getLsbD_eq fun i inside => same ⟨i, inside⟩

theorem firstLine_spec {lines : BitVec 8} {i : Fin 8} (first : firstLine lines = some i) :
    lines.getLsbD i = true :=
  List.find?_some (p := fun i : Fin 8 => lines.getLsbD i) first

theorem firstLine_none {lines : BitVec 8} (none : firstLine lines = none) (i : Fin 8) :
    lines.getLsbD i = false :=
  Bool.eq_false_iff.mpr (List.find?_eq_none.mp none i (List.mem_finRange i))

theorem firstLine_bit (i : Fin 8) : firstLine (bit i) = some i := by
  revert i
  decide

/-- **The service of a single line ends.** -/
theorem endService_single {p : Pic} {i : Fin 8} (single : p.service = bit i) :
    p.endService = { p with service := 0 } := by
  have clear : bit i &&& ~~~bit i = 0 := by simp
  rw [Pic.endService, single, firstLine_bit]
  dsimp only
  rw [clear]

/-- A controller that takes masks. -/
theorem writeData_mask {p : Pic} (expects : p.expects = .mask) (word : BitVec 8) :
    p.writeData word = { p with mask := word } := by
  obtain ⟨_, _, _, _, _, takes, _, _, _⟩ := p
  obtain rfl : takes = .mask := expects
  rfl

/-! ### What is asked for -/

variable {p : Pic} {lines : BitVec 8} {i : Fin 8} {pics : Pics} {n : Fin 16}

theorem pending_spec (asked : p.pending lines = some i) :
    lines.getLsbD i = true ∧ p.mask.getLsbD i = false := by
  unfold Pic.pending at asked
  split at asked
  · exact absurd asked (by simp)
  · rename_i first
    split_ifs at asked
    obtain rfl := Option.some.inj asked
    have both := firstLine_spec first
    rw [getLsbD_unmasked, Bool.and_eq_true, Bool.not_eq_true'] at both
    exact both

/-- **Without service, no line is blocked.** -/
theorem pending_complete (idle : p.service = 0) (asks : lines.getLsbD i = true)
    (unmasked : p.mask.getLsbD i = false) : (p.pending lines).isSome := by
  unfold Pic.pending
  cases first : firstLine (lines &&& ~~~p.mask) with
  | none =>
    have nobody := firstLine_none first i
    rw [getLsbD_unmasked, asks, unmasked] at nobody
    exact absurd nobody (by simp)
  | some j =>
    have clear : ∀ k ≤ j, p.service.getLsbD k = false := fun k _ => by
      rw [idle]
      exact BitVec.getLsbD_zero
    dsimp only
    rw [if_pos clear]
    rfl

theorem chipOf_slaveLine (i : Fin 8) : chipOf (slaveLine i) = .slave := by
  revert i
  decide

theorem lineOf_slaveLine (i : Fin 8) : lineOf (slaveLine i) = i := by
  revert i
  decide

theorem chipOf_castLE (i : Fin 8) : chipOf (i.castLE eight_le_sixteen) = .master := by
  revert i
  decide

theorem lineOf_castLE (i : Fin 8) : lineOf (i.castLE eight_le_sixteen) = i := by
  revert i
  decide

/-- A line is known by its controller and its place there. -/
theorem line_ext {n m : Fin 16} (chip : chipOf n = chipOf m) (line : lineOf n = lineOf m) : n = m := by
  revert n m
  decide

/-- The line that the slave asks through is not one of a device. -/
def IsCascade (n : Fin 16) : Prop := n = 2

instance (n : Fin 16) : Decidable (IsCascade n) := inferInstanceAs (Decidable (_ = _))

theorem isCascade_iff : IsCascade n ↔ chipOf n = .master ∧ lineOf n = cascade := by
  revert n
  decide

/-- **A line that is asked for** is requested and unmasked; the one of a slave, at the master as
well. -/
theorem request_spec (asked : pics.request = some n) :
    ¬ IsCascade n ∧ pics.Requested n ∧ ¬ pics.Masked n ∧
      (chipOf n = .slave → (pics .master).mask.getLsbD cascade = false) := by
  unfold Pics.request at asked
  split at asked
  · exact absurd asked (by simp)
  · rename_i i master
    obtain ⟨asks, unmasked⟩ := pending_spec master
    split_ifs at asked with behind wired
    · obtain ⟨j, slave, rfl⟩ := Option.map_eq_some_iff.mp asked
      obtain ⟨asks', unmasked'⟩ := pending_spec slave
      unfold Pics.Requested Pics.Masked
      rw [isCascade_iff, chipOf_slaveLine, lineOf_slaveLine]
      exact ⟨fun both => absurd both.1 (by decide), asks', ne_true_of_eq_false unmasked',
        fun _ => behind ▸ unmasked⟩
    · obtain rfl := Option.some.inj asked
      unfold Pics.Requested Pics.Masked
      rw [isCascade_iff, chipOf_castLE, lineOf_castLE]
      refine ⟨fun both => behind both.2, ?_, ne_true_of_eq_false unmasked, fun both => by cases both⟩
      unfold Pics.masterRequests at asks
      split_ifs at asks
      · rw [getLsbD_or_bit] at asks
        simpa [behind] using asks
      · rw [getLsbD_and_not_bit] at asks
        simpa [behind] using asks

/-- **While nothing is in service, a line that is requested and unmasked makes the pair ask.** -/
theorem request_complete (quiet : pics.Quiet) (wired : pics.Wired) (device : ¬ IsCascade n)
    (asks : pics.Requested n) (unmasked : ¬ pics.Masked n)
    (through : chipOf n = .slave → (pics .master).mask.getLsbD cascade = false) :
    pics.request.isSome := by
  unfold Pics.Requested at asks
  unfold Pics.Masked at unmasked
  rw [Bool.not_eq_true] at unmasked
  have some : ((pics .master).pending pics.masterRequests).isSome := by
    cases chip : chipOf n with
    | master =>
      rw [chip] at asks unmasked
      refine pending_complete (quiet .master) (i := lineOf n) ?_ unmasked
      have other : lineOf n ≠ cascade := fun same => device (isCascade_iff.mpr ⟨chip, same⟩)
      unfold Pics.masterRequests
      split_ifs
      · rw [getLsbD_or_bit, asks, Bool.true_or]
      · rw [getLsbD_and_not_bit, asks, decide_eq_true other, Bool.and_true]
    | slave =>
      rw [chip] at asks unmasked
      have behind : pics.slavePending.isSome := pending_complete (quiet .slave) asks unmasked
      refine pending_complete (quiet .master) (i := cascade) ?_ (through chip)
      unfold Pics.masterRequests
      rw [if_pos behind, getLsbD_or_bit]
      simp
  obtain ⟨i, master⟩ := Option.isSome_iff_exists.mp some
  unfold Pics.request
  rw [master]
  dsimp only
  split_ifs with behind wiring
  · subst behind
    obtain ⟨asked, _⟩ := pending_spec master
    unfold Pics.masterRequests at asked
    split_ifs at asked with pending
    · rw [Option.isSome_map]
      exact pending
    · rw [getLsbD_and_not_bit] at asked
      simp at asked
  · subst behind
    refine absurd ⟨?_, wired.slave⟩ wiring
    rw [wired.master, getLsbD_bit]
    simp
  · rfl

/-! ### Taking a line -/

/-- What is in service when a line is taken that nothing else is in service with. -/
theorem acknowledge_service (quiet : pics.Quiet) (wired : pics.Wired) (n : Fin 16) :
    (pics.acknowledge n (chipOf n)).service = bit (lineOf n) ∧
      (chipOf n = .slave → (pics.acknowledge n .master).service = bit cascade) ∧
      (chipOf n = .master → (pics.acknowledge n .slave).service = 0) := by
  have taken : ∀ chip i, ((pics chip).acknowledge i).service = bit i := by
    intro chip i
    rw [Pic.acknowledge, wired.mode chip, quiet chip]
    simp
  refine ⟨?_, fun slave => ?_, fun master => ?_⟩
  · rw [Pics.acknowledge, if_pos rfl, taken]
  · rw [Pics.acknowledge, slave, if_neg (by decide), if_pos rfl, taken]
  · rw [Pics.acknowledge, master, if_neg (by decide), if_neg (by decide), quiet]

theorem acknowledge_masked (m : Fin 16) : (pics.acknowledge n).Masked m ↔ pics.Masked m := by
  unfold Pics.Masked Pics.acknowledge
  split_ifs <;> rfl

/-- Taking a line drops no other request. -/
theorem acknowledge_requested {m : Fin 16} (other : m ≠ n) (device : ¬ IsCascade m)
    (asks : pics.Requested m) : (pics.acknowledge n).Requested m := by
  unfold Pics.Requested at asks ⊢
  unfold Pics.acknowledge
  split_ifs with own behind
  · have apart : lineOf m ≠ lineOf n := fun same => other (line_ext own same)
    rw [Pic.acknowledge, getLsbD_and_not_bit, asks, decide_eq_true apart, Bool.and_true]
  · have apart : lineOf m ≠ cascade := fun same => device (isCascade_iff.mpr ⟨behind, same⟩)
    rw [Pic.acknowledge, getLsbD_and_not_bit, asks, decide_eq_true apart, Bool.and_true]
  · exact asks

/-- Taking a line uses up its request. -/
theorem acknowledge_not_requested (pics : Pics) (n : Fin 16) : ¬ (pics.acknowledge n).Requested n := by
  unfold Pics.Requested Pics.acknowledge
  rw [if_pos rfl, Pic.acknowledge, getLsbD_and_not_bit]
  simp

end Intel8259
