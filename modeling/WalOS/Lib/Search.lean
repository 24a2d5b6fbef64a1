/-
**Loops that search.**

A loop looks at the indices below `n` one after the other and leaves at the first with a property, or
after the last.

* `FirstFrom` — the first index with the property.
* `Traced.Searches` — what one round of such a loop does, at an index with the property, without it, and
  at the end.
* `Traced.Searches.loop` — **the loop finds the first index**, or has looked at all of them, in one round
  for each.
* `Traced.loop_counts` — the loop that only counts.
* `count_down`, `count_zero`, `count_ne_zero` — a register that counts the rounds that are left.
-/

import WalOS.Lib.Traced
import Mathlib.Algebra.Group.Nat.Defs
import Mathlib.Data.List.Range

/-- The first index from `i` on, below `n`, with the property. -/
structure FirstFrom (holds : ℕ → Prop) (i n j : ℕ) : Prop where
  le : i ≤ j
  lt : j < n
  here : holds j
  before : ∀ k, i ≤ k → k < j → ¬ holds k

variable {holds : ℕ → Prop} {i n j : ℕ}

theorem FirstFrom.later (first : FirstFrom holds (i + 1) n j) (none : ¬ holds i) :
    FirstFrom holds i n j := by
  refine ⟨Nat.le_of_succ_le first.le, first.lt, first.here, fun k from_ before => ?_⟩
  rcases Nat.eq_or_lt_of_le from_ with rfl | more
  · exact none
  · exact first.before k more before

/-- There is only one first. -/
theorem FirstFrom.unique {j' : ℕ} (first : FirstFrom holds i n j) (first' : FirstFrom holds i n j') :
    j = j' := by
  rcases Nat.lt_trichotomy j j' with less | same | more
  · exact absurd first.here (first'.before j first.le less)
  · exact same
  · exact absurd first'.here (first.before j' first'.le more)

/-- The first in the first block that has one. -/
theorem FirstFrom.block {width k e : ℕ}
    (block : FirstFrom (fun k => ∃ e < width, holds (width * k + e)) 0 n k)
    (first : FirstFrom (fun e => holds (width * k + e)) 0 width e) :
    FirstFrom holds 0 (width * n) (width * k + e) := by
  have room : width * (k + 1) ≤ width * n := Nat.mul_le_mul_left width block.lt
  have inside := first.lt
  rw [Nat.mul_succ] at room
  refine ⟨Nat.zero_le _, by omega, first.here, fun i _ before has => ?_⟩
  have wide : 0 < width := Nat.zero_lt_of_lt inside
  have parts : width * (i / width) + i % width = i := Nat.div_add_mod i width
  rcases Nat.lt_or_ge i (width * k) with earlier | within
  · refine block.before (i / width) (Nat.zero_le _) (Nat.div_lt_of_lt_mul earlier) ?_
    exact ⟨i % width, Nat.mod_lt i wide, parts.symm ▸ has⟩
  · refine first.before (i - width * k) (Nat.zero_le _) (by omega) ?_
    show holds (width * k + (i - width * k))
    rw [Nat.add_sub_cancel' within]
    exact has

/-! ### Counters -/

section Counter

variable {w : ℕ}

/-- A counter of the indices that are left, at index `i`. -/
theorem count_down (inside : i < n) : BitVec.ofNat w (n - i) - 1 = BitVec.ofNat w (n - (i + 1)) := by
  have more : n - i = n - (i + 1) + 1 := by omega
  rw [more, BitVec.ofNat_add]
  exact BitVec.add_sub_cancel _ _

theorem count_zero (inside : i < n) (small : n < 2 ^ w) : BitVec.ofNat w (n - (i + 1)) = 0 ↔ i + 1 = n := by
  have less : n - (i + 1) < 2 ^ w := (Nat.sub_le _ _).trans_lt small
  have zero : (0 : BitVec w).toNat = 0 := BitVec.toNat_ofNat 0 w ▸ Nat.zero_mod _
  rw [← BitVec.toNat_inj, BitVec.toNat_ofNat, zero, Nat.mod_eq_of_lt less]
  omega

theorem count_ne_zero (inside : i < n) (small : n < 2 ^ w) : BitVec.ofNat w (n - i) ≠ 0 := by
  have less : n - i < 2 ^ w := (Nat.sub_le _ _).trans_lt small
  have zero : (0 : BitVec w).toNat = 0 := BitVec.toNat_ofNat 0 w ▸ Nat.zero_mod _
  rw [Ne, ← BitVec.toNat_inj, BitVec.toNat_ofNat, zero, Nat.mod_eq_of_lt less]
  omega

end Counter

namespace Traced

variable {ι ε σ ρ : Type}

/-- The logs of the rounds from `i` on, `count` of them. -/
def searchLog (log : ℕ → List ι) (i count : ℕ) : List ι := (List.range' i count).flatMap log

theorem searchLog_succ (log : ℕ → List ι) (i count : ℕ) :
    searchLog log i (count + 1) = log i ++ searchLog log (i + 1) count := by
  rw [searchLog, List.range'_succ, List.flatMap_cons]
  rfl

theorem searchLog_nil (i count : ℕ) : searchLog (fun _ => ([] : List ι)) i count = [] :=
  List.flatMap_eq_nil_iff.mpr fun _ _ => rfl

theorem searchLog_zero (log : ℕ → ι) (count : ℕ) :
    searchLog (fun k => [log k]) 0 count = (List.range count).map log := by
  rw [searchLog, List.range_eq_range', List.map_eq_flatMap]

/-- **A round of a search** through the indices below `n`: `reaches i` holds at the top of round `i`. -/
structure Searches (body : σ → Traced ι ε (σ ⊕ ρ)) (n : ℕ) (holds : ℕ → Prop) (log : ℕ → List ι)
    (reaches : ℕ → σ → Prop) (found : ℕ → ρ → Prop) (missed : ρ → Prop) : Prop where
  next : ∀ i < n, ¬ holds i → ∀ s, reaches i s →
    ∃ s', (body s).Gives (log i) (.inl s') ∧ reaches (i + 1) s'
  hit : ∀ i < n, holds i → ∀ s, reaches i s → ∃ r, (body s).Gives (log i) (.inr r) ∧ found i r
  ends : ∀ s, reaches n s → ∃ r, (body s).Gives [] (.inr r) ∧ missed r

variable {body : σ → Traced ι ε (σ ⊕ ρ)} {log : ℕ → List ι} {reaches : ℕ → σ → Prop}
  {found : ℕ → ρ → Prop} {missed : ρ → Prop}

/-- **The loop finds the first index**, or none after all of them. -/
theorem Searches.loop (searches : Searches body n holds log reaches found missed) (exhausted : ε)
    (i : ℕ) (inside : i ≤ n) {fuel : ℕ} (enough : n - i < fuel) {s : σ} (top : reaches i s) :
    (∃ j r, FirstFrom holds i n j ∧
      (Traced.loop exhausted body fuel s).Gives (searchLog log i (j + 1 - i)) r ∧ found j r) ∨
    ((∀ k, i ≤ k → k < n → ¬ holds k) ∧
      ∃ r, (Traced.loop exhausted body fuel s).Gives (searchLog log i (n - i)) r ∧ missed r) := by
  obtain ⟨fuel, rfl⟩ := Nat.exists_eq_add_one_of_ne_zero (Nat.ne_zero_of_lt enough)
  induction left : n - i generalizing i fuel s with
  | zero =>
    obtain rfl : i = n := Nat.le_antisymm inside (Nat.le_of_sub_eq_zero left)
    obtain ⟨r, round, misses⟩ := searches.ends s top
    exact .inr ⟨fun k from_ before => absurd from_ (Nat.not_le_of_lt before), r,
      .loop_inr round fuel, misses⟩
  | succ left ih =>
    have here : i < n := by omega
    by_cases property : holds i
    · obtain ⟨r, round, finds⟩ := searches.hit i here property s top
      refine .inl ⟨i, r, ⟨le_rfl, here, property, fun k from_ before => ?_⟩, ?_, finds⟩
      · exact absurd from_ (Nat.not_le_of_lt before)
      · rw [Nat.add_sub_cancel_left, searchLog_succ]
        exact (List.append_nil (log i)).symm ▸ .loop_inr round fuel
    · obtain ⟨s', round, top'⟩ := searches.next i here property s top
      obtain ⟨fuel, rfl⟩ : ∃ f, fuel = f + 1 := ⟨fuel - 1, by omega⟩
      rcases ih (i + 1) here top' fuel (by omega) (by omega) with
        ⟨j, r, first, runs, finds⟩ | ⟨none, r, runs, misses⟩
      · have rounds : j + 1 - i = j + 1 - (i + 1) + 1 := by
          have from_ := first.le
          omega
        refine .inl ⟨j, r, first.later property, ?_, finds⟩
        rw [rounds, searchLog_succ]
        exact .loop_inl round runs
      · refine .inr ⟨fun k from_ before => ?_, r, ?_, misses⟩
        · rcases Nat.eq_or_lt_of_le from_ with rfl | more
          · exact property
          · exact none k more before
        · rw [searchLog_succ]
          exact .loop_inl round runs

/-- **A loop that counts** runs once for each index, and leaves after the last. -/
theorem loop_counts {body : σ → Traced ι ε (σ ⊕ σ)} (exhausted : ε)
    (round : ∀ i < n, ∀ s, reaches i s →
      ∃ s', (body s).Gives (log i) (if i + 1 = n then .inr s' else .inl s') ∧ reaches (i + 1) s')
    (some : 0 < n) {fuel : ℕ} (enough : n < fuel) {s : σ} (top : reaches 0 s) :
    ∃ s', (Traced.loop exhausted body fuel s).Gives ((List.range n).flatMap log) s' ∧ reaches n s' := by
  have searches : Searches body n (fun i => i + 1 = n) log (fun i s => i < n ∧ reaches i s)
      (fun i s => reaches (i + 1) s) (fun _ => False) := by
    refine ⟨fun i inside more s here => ?_, fun i inside last s here => ?_,
      fun s here => absurd here.1 (Nat.lt_irrefl n)⟩
    · obtain ⟨s', runs, next⟩ := round i inside s here.2
      rw [if_neg more] at runs
      exact ⟨s', runs, Nat.lt_of_le_of_ne inside more, next⟩
    · obtain ⟨s', runs, next⟩ := round i inside s here.2
      rw [if_pos last] at runs
      exact ⟨s', runs, next⟩
  rcases searches.loop exhausted 0 (Nat.zero_le n) enough ⟨some, top⟩ with
    ⟨i, s', first, runs, after⟩ | ⟨none, -⟩
  · rw [Nat.sub_zero, first.here, searchLog, ← List.range_eq_range'] at runs
    exact ⟨s', runs, first.here ▸ after⟩
  · exact absurd (Nat.sub_add_cancel some) (none (n - 1) (Nat.zero_le _) (Nat.sub_lt some Nat.one_pos))

end Traced
