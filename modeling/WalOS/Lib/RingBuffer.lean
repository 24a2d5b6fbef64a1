/-
**A ring buffer is a bounded queue.**

A `RingBuffer` stores through its pointer `head` and reads through its pointer `tail`, each an offset
into the buffer that goes back to the start at `cap`; `count` tells a full ring from an empty one.

* `Holds` — the ring is well formed, and what it holds is a list, the oldest element first.
* `Holds.put`, `Holds.put_full`, `Holds.take` — the operations are those of a queue of `cap` elements.
* `QueueStep`, `QueueRun` — the bounded queue; `QueueRun.balanced`: what is taken out is what was
  accepted, in order and once each.
* `Transitions.queueRun` — a system with a ring has the runs of the queue that the ring holds
  (`Holds.accepts`, `Holds.refuses`, `Holds.gives` for its steps).
-/

import Mathlib.Logic.Function.Basic
import Mathlib.Data.List.Basic
import Mathlib.Data.Nat.ModEq

/-- A ring: the buffer, where the next element goes, where the oldest is, and how many there are. -/
structure RingBuffer (α : Type) (cap : ℕ) where
  buf : ℕ → α
  head : ℕ
  tail : ℕ
  count : ℕ

namespace RingBuffer

variable {α : Type} {cap : ℕ}

/-- One element further, and back to the start at the end. -/
def advance (cap pointer : ℕ) : ℕ := if pointer + 1 = cap then 0 else pointer + 1

def empty (buf : ℕ → α) : RingBuffer α cap := ⟨buf, 0, 0, 0⟩

/-- Store an element unless the ring is full. -/
def put (r : RingBuffer α cap) (x : α) : RingBuffer α cap :=
  if r.count < cap then
    { buf := Function.update r.buf r.head x, head := advance cap r.head, tail := r.tail
      count := r.count + 1 }
  else r

/-- The oldest element, and the ring without it. -/
def next (r : RingBuffer α cap) : α := r.buf r.tail

def drop (r : RingBuffer α cap) : RingBuffer α cap :=
  { r with tail := advance cap r.tail, count := r.count - 1 }

/-- The cell that is `k` behind the oldest. -/
def cell (r : RingBuffer α cap) (k : ℕ) : ℕ := (r.tail + k) % cap

def contents (r : RingBuffer α cap) : List α := (List.range r.count).map fun k => r.buf (r.cell k)

/-- **The ring holds a list.** -/
structure Holds (r : RingBuffer α cap) (q : List α) : Prop where
  head_lt : r.head < cap
  tail_lt : r.tail < cap
  count_le : r.count ≤ cap
  meets : (r.tail + r.count) % cap = r.head
  contents : r.contents = q

variable {r : RingBuffer α cap} {q : List α} {x : α}

theorem advance_eq {pointer : ℕ} (inside : pointer < cap) :
    advance cap pointer = (pointer + 1) % cap := by
  unfold advance
  split
  · rename_i last
    rw [last, Nat.mod_self]
  · exact (Nat.mod_eq_of_lt (by omega)).symm

theorem advance_lt {pointer : ℕ} (inside : pointer < cap) : advance cap pointer < cap := by
  rw [advance_eq inside]
  exact Nat.mod_lt _ (by omega)

theorem holds_empty (buf : ℕ → α) (positive : 0 < cap) :
    (empty buf : RingBuffer α cap).Holds [] where
  head_lt := positive
  tail_lt := positive
  count_le := Nat.zero_le cap
  meets := Nat.zero_mod cap
  contents := rfl

theorem Holds.length (holds : r.Holds q) : q.length = r.count := by
  rw [← holds.contents, RingBuffer.contents, List.length_map, List.length_range]

/-- The cells in use are not the one at `head`. -/
theorem Holds.cell_ne_head (holds : r.Holds q) (room : r.count < cap) {k : ℕ}
    (used : k < r.count) : r.cell k ≠ r.head := by
  rw [← holds.meets, cell]
  intro same
  have offsets : k ≡ r.count [MOD cap] := Nat.ModEq.add_left_cancel' r.tail same
  exact absurd (offsets.eq_of_lt_of_lt (used.trans room) room) used.ne

/-- **Storing appends.** -/
theorem Holds.put (holds : r.Holds q) (room : r.count < cap) (x : α) :
    (r.put x).Holds (q ++ [x]) := by
  rw [RingBuffer.put, if_pos room]
  refine ⟨advance_lt holds.head_lt, holds.tail_lt, room, ?_, ?_⟩
  · show (r.tail + (r.count + 1)) % cap = advance cap r.head
    rw [advance_eq holds.head_lt, ← holds.meets, Nat.mod_add_mod, Nat.add_assoc]
  · show (List.range (r.count + 1)).map _ = _
    rw [List.range_succ, List.map_append, ← holds.contents]
    congr 1
    · refine List.map_congr_left fun k member => ?_
      exact Function.update_of_ne (holds.cell_ne_head room (List.mem_range.mp member)) _ _
    · show [Function.update r.buf r.head x ((r.tail + r.count) % cap)] = [x]
      rw [holds.meets, Function.update_self]

/-- A full ring refuses, and stays as it is. -/
theorem put_full (full : ¬ r.count < cap) (x : α) : r.put x = r := if_neg full

theorem put_eq_self_iff : r.put x = r ↔ ¬ r.count < cap := by
  refine ⟨fun same room => ?_, fun full => put_full full x⟩
  rw [RingBuffer.put, if_pos room] at same
  exact absurd (congrArg count same) (Nat.succ_ne_self _)

/-- **Taking removes the oldest.** -/
theorem Holds.take (holds : r.Holds q) (nonempty : 0 < r.count) :
    ∃ rest, q = r.next :: rest ∧ r.drop.Holds rest := by
  obtain ⟨count, counted⟩ : ∃ count, r.count = count + 1 := ⟨r.count - 1, by omega⟩
  have less : r.drop.count = count := by
    show r.count - 1 = count
    omega
  have tail_lt := holds.tail_lt
  refine ⟨r.drop.contents, ?_, holds.head_lt, advance_lt tail_lt, ?_, ?_, rfl⟩
  · rw [← holds.contents, RingBuffer.contents, counted, List.range_succ_eq_map, List.map_cons,
      List.map_map]
    congr 1
    · show r.buf ((r.tail + 0) % cap) = r.buf r.tail
      rw [Nat.add_zero, Nat.mod_eq_of_lt tail_lt]
    · rw [RingBuffer.contents, less]
      refine List.map_congr_left fun k _ => ?_
      show r.buf ((r.tail + (k + 1)) % cap) = r.buf ((advance cap r.tail + k) % cap)
      rw [advance_eq tail_lt, Nat.mod_add_mod, Nat.add_assoc, Nat.add_comm 1 k]
  · have := holds.count_le
    rw [less]
    omega
  · show (advance cap r.tail + r.drop.count) % cap = r.head
    rw [less, advance_eq tail_lt, Nat.mod_add_mod, ← holds.meets, counted, Nat.add_assoc,
      Nat.add_comm 1 count]

/-! ### The bounded queue -/

end RingBuffer

/-- What happens at a bounded queue. -/
inductive QueueEvent (α : Type) where
  | accepted (x : α)
  | refused (x : α)
  | took (x : α)

/-- **A bounded queue**: it refuses when it is full, and gives the oldest element. -/
inductive QueueStep {α : Type} (cap : ℕ) : List α → QueueEvent α → List α → Prop where
  | accepted {q : List α} (room : q.length < cap) (x : α) : QueueStep cap q (.accepted x) (q ++ [x])
  | refused {q : List α} (full : q.length = cap) (x : α) : QueueStep cap q (.refused x) q
  | took {q : List α} (x : α) : QueueStep cap (x :: q) (.took x) q

inductive QueueRun {α : Type} (cap : ℕ) : List α → List (QueueEvent α) → List α → Prop where
  | nil (q : List α) : QueueRun cap q [] q
  | cons {q q' q'' : List α} {event : QueueEvent α} {events : List (QueueEvent α)}
      (step : QueueStep cap q event q') (rest : QueueRun cap q' events q'') :
      QueueRun cap q (event :: events) q''

namespace QueueEvent

variable {α : Type}

/-- The element that an event stores, and the one that it takes out. -/
def stores : QueueEvent α → Option α
  | accepted x => some x
  | refused _ => none
  | took _ => none

def takes : QueueEvent α → Option α
  | accepted _ => none
  | refused _ => none
  | took x => some x

end QueueEvent

/-- What was accepted and what was taken out in a run. -/
def acceptedBy {α : Type} (events : List (QueueEvent α)) : List α :=
  events.filterMap QueueEvent.stores

def takenBy {α : Type} (events : List (QueueEvent α)) : List α :=
  events.filterMap QueueEvent.takes

/-- **First in, first out, once each.** -/
theorem QueueRun.balanced {α : Type} {cap : ℕ} {q q' : List α} {events : List (QueueEvent α)}
    (run : QueueRun cap q events q') : q ++ acceptedBy events = takenBy events ++ q' := by
  induction run with
  | nil q => exact List.append_nil q
  | @cons q q₁ q' event events step rest ih =>
    cases step with
    | accepted room x =>
      show q ++ x :: acceptedBy events = takenBy events ++ q'
      rw [← ih, List.append_assoc]
      rfl
    | refused full x => exact ih
    | took x => exact congrArg (x :: ·) ih

/-! ### Systems with a queue -/

/-- A run of a system: the events of its steps, where a step may be silent. -/
inductive Transitions {σ ε : Type} (step : σ → Option ε → σ → Prop) : σ → List ε → σ → Prop where
  | nil (s : σ) : Transitions step s [] s
  | cons {s s' s'' : σ} {event : Option ε} {events : List ε} (first : step s event s')
      (rest : Transitions step s' events s'') : Transitions step s (event.toList ++ events) s''

/-- One run after another. -/
theorem Transitions.append {σ ε : Type} {step : σ → Option ε → σ → Prop} {s s' s'' : σ}
    {events events' : List ε} (first : Transitions step s events s')
    (second : Transitions step s' events' s'') : Transitions step s (events ++ events') s'' := by
  induction first with
  | nil s => exact second
  | cons step₁ rest ih =>
    rw [List.append_assoc]
    exact .cons step₁ (ih second)

/-- **A system whose every event is one of the queue it represents has the runs of the queue.** -/
theorem Transitions.queueRun {σ α : Type} {cap : ℕ}
    {step : σ → Option (QueueEvent α) → σ → Prop} {s s' : σ} {events : List (QueueEvent α)}
    (run : Transitions step s events s') (represents : σ → List α → Prop)
    (silent : ∀ s s' q, represents s q → step s none s' → represents s' q)
    (visible : ∀ s event s' q, represents s q → step s (some event) s' →
      ∃ q', QueueStep cap q event q' ∧ represents s' q') {q : List α}
    (start : represents s q) : ∃ q', QueueRun cap q events q' ∧ represents s' q' := by
  induction run generalizing q with
  | nil s => exact ⟨q, .nil q, start⟩
  | @cons s s₁ s' event events first rest ih =>
    cases event with
    | none => exact ih (silent s s₁ q start first)
    | some event =>
      obtain ⟨q₁, moves, there⟩ := visible s event s₁ q start first
      obtain ⟨q', run, represented⟩ := ih there
      exact ⟨q', .cons moves run, represented⟩

namespace RingBuffer

variable {α : Type} {cap : ℕ} {r : RingBuffer α cap} {q : List α}

/-- The queue of a ring is full when its count says so. -/
theorem Holds.full_iff (holds : r.Holds q) : ¬ r.count < cap ↔ q.length = cap := by
  rw [holds.length]
  exact ⟨fun full => Nat.le_antisymm holds.count_le (Nat.le_of_not_lt full),
    fun full => Nat.not_lt_of_le full.ge⟩

theorem Holds.accepts (holds : r.Holds q) (room : r.count < cap) (x : α) :
    ∃ q', QueueStep cap q (.accepted x) q' ∧ (r.put x).Holds q' :=
  ⟨q ++ [x], .accepted (holds.length ▸ room) x, holds.put room x⟩

theorem Holds.refuses (holds : r.Holds q) (full : ¬ r.count < cap) (x : α) :
    ∃ q', QueueStep cap q (.refused x) q' ∧ (r.put x).Holds q' :=
  ⟨q, .refused (holds.full_iff.mp full) x, (put_full full x).symm ▸ holds⟩

theorem Holds.gives (holds : r.Holds q) (nonempty : 0 < r.count) :
    ∃ q', QueueStep cap q (.took r.next) q' ∧ r.drop.Holds q' := by
  obtain ⟨rest, rfl, holds'⟩ := holds.take nonempty
  exact ⟨rest, .took r.next, holds'⟩

end RingBuffer
