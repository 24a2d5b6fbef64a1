/-
**Linked lists threaded through a map of next-pointers.**

`Chain next start l`: following `next` from the pointer `start` visits exactly the cells of `l`, in
order, and then reaches null.

* `Chain.unique`, `Chain.nodup` — the visited cells are determined by the pointers, and no cell is
  visited twice.
* `Chain.congr` — pointers of cells off the list do not matter.
* `Chain.append` — linking a new cell behind the last one appends it; `Chain.unlink_head` and
  `Chain.unlink` — bypassing a cell removes it.
-/

import Mathlib.Data.List.Nodup

namespace Linked

variable {α : Type}

/-- Following `next` from `start` visits exactly `l` and then reaches null. -/
def Chain (next : α → Option α) : Option α → List α → Prop
  | start, [] => start = none
  | start, a :: l => start = some a ∧ Chain next (next a) l

namespace Chain

variable {next next' : α → Option α} {start : Option α} {l r : List α} {a b : α}

@[simp] theorem nil_iff : Chain next start [] ↔ start = none := Iff.rfl

@[simp] theorem cons_iff : Chain next start (a :: l) ↔ start = some a ∧ Chain next (next a) l :=
  Iff.rfl

/-- A chain from null is empty. -/
theorem eq_nil (chain : Chain next none l) : l = [] := by
  cases l with
  | nil => rfl
  | cons a l => exact absurd chain.1 (by simp)

/-- **The pointers determine the list.** -/
theorem unique (first : Chain next start l) (second : Chain next start r) : l = r := by
  induction l generalizing start r with
  | nil =>
    obtain rfl : start = none := first
    exact (eq_nil second).symm
  | cons a l ih =>
    obtain ⟨rfl, rest⟩ := first
    cases r with
    | nil => exact absurd second (by simp)
    | cons b r =>
      obtain ⟨same, rest'⟩ := second
      obtain rfl := Option.some.inj same
      rw [ih rest rest']

/-- Entering a chain at one of its cells gives the rest of it. -/
theorem suffix (chain : Chain next start (l ++ a :: r)) : Chain next (some a) (a :: r) := by
  induction l generalizing start with
  | nil => exact ⟨rfl, chain.2⟩
  | cons _ l ih => exact ih chain.2

/-- **No cell is visited twice**: the rest of the list from a cell is determined by the cell. -/
theorem nodup (chain : Chain next start l) : l.Nodup := by
  induction l generalizing start with
  | nil => exact List.nodup_nil
  | cons a l ih =>
    refine List.nodup_cons.mpr ⟨fun member => ?_, ih chain.2⟩
    obtain ⟨before, after, split⟩ := List.append_of_mem member
    have here : Chain next (some a) (a :: l) := ⟨rfl, chain.2⟩
    have again : Chain next (some a) ((a :: before) ++ a :: after) := by
      rw [List.cons_append, ← split]
      exact here
    have there : Chain next (some a) (a :: after) := suffix again
    have sameLength := congrArg List.length (unique here there)
    rw [split] at sameLength
    simp only [List.length_cons, List.length_append] at sameLength
    omega

/-- **Frame**: only the pointers of the cells on the list matter. -/
theorem congr (chain : Chain next start l) (same : ∀ c ∈ l, next' c = next c) :
    Chain next' start l := by
  induction l generalizing start with
  | nil => exact chain
  | cons a l ih =>
    refine ⟨chain.1, ?_⟩
    rw [same a List.mem_cons_self]
    exact ih chain.2 fun c member => same c (List.mem_cons_of_mem _ member)

/-- **Appending**: the last cell is pointed to a new cell that points nowhere. -/
theorem append (chain : Chain next start (l ++ [a])) (same : ∀ c ∈ l, next' c = next c)
    (link : next' a = some b) (stop : next' b = none) : Chain next' start (l ++ [a, b]) := by
  induction l generalizing start with
  | nil => exact ⟨chain.1, link, stop⟩
  | cons c l ih =>
    refine ⟨chain.1, ?_⟩
    rw [same c List.mem_cons_self]
    exact ih chain.2 fun d member => same d (List.mem_cons_of_mem _ member)

/-- **Unlinking the first cell.** -/
theorem unlink_head (chain : Chain next start (a :: l)) (same : ∀ c ∈ l, next' c = next c) :
    Chain next' (next a) l :=
  chain.2.congr same

/-- **Unlinking a later cell**: its predecessor is pointed past it. -/
theorem unlink (chain : Chain next start (l ++ a :: b :: r)) (bypass : next' a = next b)
    (same : ∀ c ∈ l ++ r, next' c = next c) : Chain next' start (l ++ a :: r) := by
  induction l generalizing start with
  | nil =>
    refine ⟨chain.1, ?_⟩
    rw [bypass]
    exact chain.2.2.congr fun c member => same c (by simpa using member)
  | cons d l ih =>
    refine ⟨chain.1, ?_⟩
    rw [same d (by simp)]
    exact ih chain.2 fun c member => same c (List.mem_cons_of_mem _ member)

/-- A chain is empty exactly when it starts at null. -/
theorem nil_iff_start (chain : Chain next start l) : l = [] ↔ start = none := by
  cases l with
  | nil => exact iff_of_true rfl chain
  | cons a l => exact iff_of_false (List.cons_ne_nil _ _) (by simp [chain.1])

end Chain

end Linked
