/-
**Code that takes its input one element at a time.**

A reader is given a stream, and returns with what it leaves of it, or finds the stream too short.

* `Consumes` — it uses up a first part of the stream, whatever follows, and of less it makes nothing:
  `Consumes.pure`, `Consumes.next`, `Consumes.bind`, `Consumes.ite`.
* `Consumes.last` — a reader that an element completes has left nothing, and goes through the same
  elements of any stream.
-/

import Mathlib.Data.List.Basic

namespace Reader

variable {α β γ : Type}

/-- A reader of a stream. -/
abbrev Code (α β : Type) : Type := StateT (List α) Option β

/-- **It uses up a first part of the stream.** -/
def Consumes (x : Code α β) : Prop :=
  ∀ l b rest, x l = some (b, rest) → ∃ used, l = used ++ rest ∧
    (∀ more, x (used ++ more) = some (b, more)) ∧ ∀ part, part <+: used → part ≠ used → x part = none

namespace Consumes

theorem pure (b : β) : Consumes (Pure.pure b : Code α β) := by
  intro l b' rest same
  cases same
  refine ⟨[], rfl, fun _ => rfl, fun part before proper => ?_⟩
  exact absurd (List.prefix_nil.mp before) proper

/-- The next element. -/
theorem next {x : Code α α} (empty : x [] = none) (cons : ∀ a l, x (a :: l) = some (a, l)) :
    Consumes x := by
  intro l a rest same
  cases l with
  | nil =>
    rw [empty] at same
    cases same
  | cons b l =>
    rw [cons] at same
    cases same
    refine ⟨[a], rfl, cons a, fun part before proper => ?_⟩
    rcases List.prefix_cons_iff.mp before with rfl | ⟨t, rfl, more⟩
    · exact empty
    · rw [List.prefix_nil.mp more] at proper
      exact absurd rfl proper

theorem bind_some {x : Code α β} {f : β → Code α γ} {l : List α} {c : γ} {rest : List α}
    (same : (x >>= f) l = some (c, rest)) :
    ∃ b middle, x l = some (b, middle) ∧ f b middle = some (c, rest) := by
  have whole : (x l).bind (fun p => f p.1 p.2) = some (c, rest) := same
  obtain ⟨⟨b, middle⟩, first, second⟩ := Option.bind_eq_some_iff.mp whole
  exact ⟨b, middle, first, second⟩

theorem bind_of_some {x : Code α β} {f : β → Code α γ} {l middle : List α} {b : β}
    (first : x l = some (b, middle)) : (x >>= f) l = f b middle := by
  show (x l).bind (fun p => f p.1 p.2) = _
  rw [first]
  rfl

theorem bind_of_none {x : Code α β} {f : β → Code α γ} {l : List α} (first : x l = none) :
    (x >>= f) l = none := by
  show (x l).bind (fun p => f p.1 p.2) = _
  rw [first]
  rfl

/-- One reader after the other. -/
theorem bind {x : Code α β} {f : β → Code α γ} (first : Consumes x) (rest : ∀ b, Consumes (f b)) :
    Consumes (x >>= f) := by
  intro l c left same
  obtain ⟨b, middle, taken, later⟩ := bind_some same
  obtain ⟨used, rfl, same₁, less₁⟩ := first l b middle taken
  obtain ⟨used', rfl, same₂, less₂⟩ := rest b middle c left later
  refine ⟨used ++ used', (List.append_assoc _ _ _).symm, fun more => ?_, fun part before proper => ?_⟩
  · rw [List.append_assoc, bind_of_some (same₁ _)]
    exact same₂ more
  · by_cases short : part <+: used ∧ part ≠ used
    · exact bind_of_none (less₁ part short.1 short.2)
    · -- the first reader is through, so the second is not
      have through : used <+: part := by
        rcases List.prefix_or_prefix_of_prefix before (List.prefix_append used used') with less | more
        · by_cases whole : part = used
          · exact whole ▸ List.prefix_rfl
          · exact absurd ⟨less, whole⟩ short
        · exact more
      obtain ⟨tail, rfl⟩ := through
      rw [bind_of_some (same₁ tail)]
      refine less₂ tail ((List.prefix_append_right_inj used).mp before) fun whole => proper ?_
      rw [whole]

theorem ite {condition : Prop} [Decidable condition] {x y : Code α β} (yes : Consumes x) (no : Consumes y) :
    Consumes (if condition then x else y) := by
  split
  · exact yes
  · exact no

/-- **The element that completes a reader** is the last it uses. -/
theorem last {x : Code α β} (reads : Consumes x) {l rest : List α} {a : α} {b : β} (waits : x l = none)
    (done : x (l ++ [a]) = some (b, rest)) :
    rest = [] ∧ ∀ more, x (l ++ [a] ++ more) = some (b, more) := by
  obtain ⟨used, whole, same, _⟩ := reads _ _ _ done
  have nothing : rest = [] := by
    by_contra something
    obtain ⟨front, z, rfl⟩ := List.eq_nil_or_concat rest |>.resolve_left something
    have split : l = used ++ front := by
      rw [List.concat_eq_append, ← List.append_assoc] at whole
      exact (List.append_inj' whole rfl).1
    rw [split, same front] at waits
    cases waits
  subst nothing
  rw [List.append_nil] at whole
  exact ⟨rfl, fun more => whole ▸ same more⟩

end Consumes

end Reader
