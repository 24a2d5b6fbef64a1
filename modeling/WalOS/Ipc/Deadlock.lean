/-
**`dead_lock` follows the blocked senders.**

On a table that represents a message state without a cycle of blocked senders, for an unblocked `p`
and another process `d`:

* `deadLockPrint_sat` — the printing loop from `d` reaches `p`, if `d` waits for `p`;
* `deadLock_sat` — with `n` rounds or more, `dead_lock` returns, and it returns true exactly when `d`
  waits for `p`, directly or through others. Both loops walk along blocked senders, and each round
  lowers the rank of `Follow.Acyclic.exists_rank`.

The only way for it to stop short is the `ASSERT` on a blocked sender whose buffer is null.
-/

import WalOS.Ipc.Represents

namespace WalOS

open Rendezvous

variable {n : ℕ} {outside : Int → Process n} {s : Kernel n} {b : Post n}

/-- A blocked process left a null buffer. -/
def NullBuffer (b : Post n) : Prop := ∃ q, b.mail.wait q ≠ .ready ∧ b.buffer q = null

theorem pid_injective : Function.Injective (pid : Fin n → Int) := fun _ _ same => pid_inj.mp same

/-- Only a blocked sender waits for somebody. -/
theorem Post.Reaches.sending {p d : Fin n} (reach : b.Reaches d p) (ne : d ≠ p) :
    ∃ e, b.mail.wait d = .sending e ∧ b.Reaches e p := by
  rcases Relation.ReflTransGen.cases_head reach with same | ⟨e, edge, rest⟩
  · exact absurd same ne
  · exact ⟨e, edge, rest⟩

variable {acc : Int → Prop} {err : Stop → Prop}

/-- The printing loop ends at `&proc_table[src]`. -/
theorem deadLockPrint_sat (rep : Represents s b) (well : b.mail.WellFormed) {p d : Fin n}
    (reach : b.Reaches d p) {fuel : ℕ} (enough : n ≤ fuel) (inside : ∀ q : Fin n, acc (pid q))
    (nullStop : NullBuffer b → err (.assertFail .deadLockMsg)) :
    (Traced.loop .forever (deadLockPrint outside s (pid p)) fuel (pid d)).Sat acc
      (fun _ => True) err := by
  obtain ⟨rank, small, lower⟩ := well.acyclic.exists_rank
  rw [Fintype.card_fin] at small
  refine Traced.Sat.loop (fun id => ∃ q, id = pid q ∧ b.Reaches q p)
    (Function.extend pid rank 0) ?_ fuel (pid d) ⟨d, rfl, reach⟩ ?_
  · rintro _ ⟨q, rfl, here⟩
    refine (procTable_sat (inside q)).bind fun e same => ?_
    subst same
    refine Traced.Sat.ite (fun _ => Traced.Sat.pure trivial) fun ne => ?_
    obtain ⟨r, sending, rest⟩ := here.sending fun same => ne (same ▸ rfl)
    have shown := rep.shows q
    rw [sending] at shown
    refine Traced.Sat.check_bind (fun isNull => nullStop ⟨q, by rw [sending]; simp, ?_⟩) fun _ =>
      Traced.Sat.pure ⟨⟨r, shown.2, rest⟩, ?_⟩
    · rw [← rep.buffer q]
      exact not_not.mp isNull
    · rw [shown.2, pid_injective.extend_apply, pid_injective.extend_apply]
      exact lower q r sending
  · rw [pid_injective.extend_apply]
    exact (small d).trans_le enough

/-- **`dead_lock` returns, and is exact.** -/
theorem deadLock_sat (rep : Represents s b) (well : b.mail.WellFormed) {p d : Fin n} (ne : p ≠ d)
    {fuel : ℕ} (enough : n ≤ fuel) (ready : b.mail.wait p = .ready)
    (inside : ∀ q : Fin n, acc (pid q))
    (nullStop : NullBuffer b → err (.assertFail .deadLockMsg)) :
    (deadLock outside fuel s (pid p) (pid d)).Sat acc
      (fun dead => dead = true ↔ b.Reaches d p) err := by
  obtain ⟨rank, small, lower⟩ := well.acyclic.exists_rank
  rw [Fintype.card_fin] at small
  refine Traced.Sat.check_bind (fun same => absurd (pid_inj.mp (not_not.mp same)) ne) fun _ => ?_
  refine Traced.Sat.loop
    (fun id => ∃ q, id = pid q ∧ q ≠ p ∧ b.Reaches d q ∧ (b.Reaches d p ↔ b.Reaches q p))
    (Function.extend pid rank 0) ?_ fuel (pid d) ⟨d, rfl, ne.symm, .refl, Iff.rfl⟩ ?_
  · rintro _ ⟨q, rfl, other, fromD, same⟩
    refine (procTable_sat (inside q)).bind fun e read => ?_
    subst read
    refine Traced.Sat.ite (fun flag => ?_) fun flag => ?_
    · obtain ⟨r, sending⟩ := (sending_iff (rep.shows q)).mp flag
      have shown := rep.shows q
      rw [sending] at shown
      refine Traced.Sat.ite (fun closes => ?_) fun apart => Traced.Sat.pure ?_
      · obtain rfl : r = p := pid_inj.mp (shown.2.symm.trans closes)
        have reach : b.Reaches d r := fromD.tail sending
        exact (deadLockPrint_sat rep well reach enough inside nullStop).bind fun _ _ =>
          Traced.Sat.pure (iff_of_true rfl reach)
      · have further : r ≠ p := fun closes => apart (closes ▸ shown.2)
        refine ⟨⟨r, shown.2, further, fromD.tail sending, same.trans ⟨fun reach => ?_, fun reach =>
          reach.head sending⟩⟩, ?_⟩
        · obtain ⟨r', sending', rest⟩ := Post.Reaches.sending reach other
          rw [sending] at sending'
          exact Wait.sending.inj sending' ▸ rest
        · rw [shown.2, pid_injective.extend_apply, pid_injective.extend_apply]
          exact lower q r sending
    · refine Traced.Sat.pure (iff_of_false (by simp) fun reach => ?_)
      obtain ⟨r, sending, _⟩ := Post.Reaches.sending (same.mp reach) other
      exact flag ((sending_iff (rep.shows q)).mpr ⟨r, sending⟩)
  · rw [pid_injective.extend_apply]
    exact (small d).trans_le enough

end WalOS
