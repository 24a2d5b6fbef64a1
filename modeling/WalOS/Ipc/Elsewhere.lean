/-
**What a call does to the other processes.**

Every address has an owner, and a process calls with buffers of its own.

* `Call.Does.elsewhere` — the other processes go on as they were, with what they own, but for one that
  waited for this very message and one whose message was taken; `Call.Does.own` — the caller.
* `Owned`, `Asked` — blocked processes left buffers of their own, and those blocked sending to a task
  left requests; `Owned.does`, `Asked.does` — every call keeps that.
* `Post.Deliver.elsewhere`, `Owned.deliver`, `Asked.deliver` — so does an interrupt.
-/

import WalOS.Ipc.SysCall

namespace WalOS

open Rendezvous

variable {n : ℕ} {outside : Int → Process n} {s t : Kernel n} {b b' : Post n} {p q d h : Fin n}
  {a : Addr} {call : Call n} {usable : Addr → Prop} {owner : Addr → Fin n} {wants : Message → Prop}

/-- The message as the kernel sends it. -/
def Message.from (p : Fin n) (m : Message) : Message := { m with source := pid p }

/-- Blocked processes left buffers of their own. -/
def Owned (owner : Addr → Fin n) (b : Post n) : Prop :=
  ∀ q, b.mail.wait q ≠ .ready → owner (b.buffer q) = q

/-- Who is blocked sending to `h` left a request with its id. -/
def Asked (wants : Message → Prop) (h : Fin n) (b : Post n) : Prop :=
  ∀ q, b.mail.wait q = .sending h →
    (b.mem (b.buffer q)).source = pid q ∧ wants (b.mem (b.buffer q))

/-- `q` goes on as it was, with what it owns. -/
structure Undisturbed (owner : Addr → Fin n) (b b' : Post n) (q : Fin n) : Prop where
  wait : b'.mail.wait q = b.mail.wait q
  buffer : b'.buffer q = b.buffer q
  mem : ∀ x, owner x = q → b'.mem x = b.mem x

/-- Where `q` left its buffer, and what is in it. -/
theorem Undisturbed.owned (kept : Undisturbed owner b b' q) (owned : Owned owner b)
    (blocked : b'.mail.wait q ≠ .ready) : owner (b'.buffer q) = q := by
  rw [kept.buffer]
  exact owned q (kept.wait ▸ blocked)

theorem Undisturbed.asked (kept : Undisturbed owner b b' q) (owned : Owned owner b)
    (asked : Asked wants h b) (sending : b'.mail.wait q = .sending h) :
    (b'.mem (b'.buffer q)).source = pid q ∧ wants (b'.mem (b'.buffer q)) := by
  have before := kept.wait ▸ sending
  have mine : owner (b.buffer q) = q := owned q (by rw [before]; simp)
  rw [kept.buffer, kept.mem _ mine]
  exact asked q before

/-! ### The other processes -/

theorem stamp_mem (own : owner a = p) (other : q ≠ p) {x : Addr} (mine : owner x = q) :
    (b.stamp p a).mem x = b.mem x := by
  refine Function.update_of_ne ?_ _ _
  rintro rfl
  exact other (mine.symm.trans own)

/-- **What a call of `p` does to another process.** -/
theorem Call.Does.elsewhere (does : call.Does (b.stamp p a) p a b') (well : b.mail.WellFormed)
    (owned : Owned owner b) (own : owner a = p) (other : q ≠ p) :
    b'.pending q = b.pending q ∧ (Undisturbed owner b b' q ∨
      (∃ src, b.mail.wait q = .receiving src ∧ src.Accepts p ∧ call = .send q ∧
        b'.mail.wait q = .ready ∧ b'.mem (b.buffer q) = (b.mem a).from p) ∨
      ((∃ d, b.mail.wait q = .sending d) ∧ b'.mail.wait q = .ready)) := by
  have stamped : (b.stamp p a).mem a = (b.mem a).from p := Function.update_self _ _ _
  cases call with
  | send d =>
    cases does with
    | @pass src receiving accepts =>
      refine ⟨rfl, ?_⟩
      by_cases same : q = d
      · subst same
        refine .inr (.inl ⟨src, receiving, accepts, rfl, Post.put_wait_self, ?_⟩)
        exact (Function.update_self (b.buffer q) _ _).trans stamped
      · refine .inl ⟨Post.put_wait_of_ne q same, Function.update_of_ne same _ _, fun x mine => ?_⟩
        have apart : x ≠ b.buffer d := by
          rintro rfl
          exact same (mine.symm.trans (owned d (by
            show b.mail.wait d ≠ .ready
            rw [show b.mail.wait d = .receiving src from receiving]
            simp)))
        exact (Function.update_of_ne apart _ _).trans (stamp_mem own other mine)
    | queue _ _ =>
      exact ⟨rfl, .inl ⟨Post.put_wait_of_ne q other, Function.update_of_ne other _ _, fun x mine =>
        stamp_mem own other mine⟩⟩
  | receive src =>
    have apart : ∀ x, owner x = q → x ≠ a := by
      rintro x mine rfl
      exact other (mine.symm.trans own)
    cases does with
    | interrupt _ =>
      exact ⟨Function.update_of_ne other _ _, .inl ⟨rfl, rfl, fun x mine =>
        (Function.update_of_ne (apart x mine) _ _).trans (stamp_mem own other mine)⟩⟩
    | @take r before after _ split _ _ =>
      refine ⟨rfl, ?_⟩
      by_cases same : q = r
      · subst same
        have member : q ∈ b.mail.queue p := by
          rw [show b.mail.queue p = before ++ q :: after from split]
          exact List.mem_append_right _ List.mem_cons_self
        exact .inr (.inr ⟨⟨p, (well.mem q p).mp member⟩, Post.put_wait_self⟩)
      · exact .inl ⟨Post.put_wait_of_ne q same, Function.update_of_ne same _ _, fun x mine =>
          (Function.update_of_ne (apart x mine) _ _).trans (stamp_mem own other mine)⟩
    | await _ _ =>
      exact ⟨rfl, .inl ⟨Post.put_wait_of_ne q other, Function.update_of_ne other _ _, fun x mine =>
        stamp_mem own other mine⟩⟩

/-- **What a call does to its caller.** -/
theorem Call.Does.own (does : call.Does (b.stamp p a) p a b') (ready : b.mail.wait p = .ready)
    (named : ¬ call.Names p) :
    b'.mail.wait p = .ready ∨
      (∃ d, call = .send d ∧ b'.mail.wait p = .sending d ∧ b'.buffer p = a ∧
        b'.mem a = (b.mem a).from p) ∨
      (∃ src, call = .receive src ∧ b'.mail.wait p = .receiving src ∧ b'.buffer p = a) := by
  cases call with
  | send d =>
    have other : p ≠ d := fun same => named same.symm
    cases does with
    | pass _ _ => exact .inl ((Post.put_wait_of_ne p other).trans ready)
    | queue _ _ =>
      exact .inr (.inl ⟨d, rfl, Post.put_wait_self, Function.update_self _ _ _,
        Function.update_self _ _ _⟩)
  | receive src =>
    cases does with
    | interrupt _ => exact .inl ready
    | @take r before after _ _ _ _ =>
      refine .inl ?_
      show ((b.stamp p a).mail.put r .ready).wait p = .ready
      rw [Mail.put_wait]
      split
      · rfl
      · exact ready
    | await _ _ => exact .inr (.inr ⟨src, rfl, Post.put_wait_self, Function.update_self _ _ _⟩)

/-! ### What is kept -/

theorem Owned.does (owned : Owned owner b) (does : call.Does (b.stamp p a) p a b')
    (well : b.mail.WellFormed) (ready : b.mail.wait p = .ready) (named : ¬ call.Names p)
    (own : owner a = p) : Owned owner b' := by
  intro q blocked
  by_cases same : q = p
  · subst same
    rcases does.own ready named with free | ⟨_, _, _, buffer, _⟩ | ⟨_, _, _, buffer⟩
    · exact absurd free blocked
    · rw [buffer, own]
    · rw [buffer, own]
  · rcases (does.elsewhere well owned own same).2 with kept | ⟨_, _, _, _, free, _⟩ | ⟨_, free⟩
    · exact kept.owned owned blocked
    · exact absurd free blocked
    · exact absurd free blocked

theorem Asked.does (asked : Asked wants h b) (does : call.Does (b.stamp p a) p a b')
    (well : b.mail.WellFormed) (ready : b.mail.wait p = .ready) (named : ¬ call.Names p)
    (owned : Owned owner b) (own : owner a = p)
    (request : call = .send h → wants ((b.mem a).from p)) : Asked wants h b' := by
  intro q sending
  by_cases same : q = p
  · subst same
    rcases does.own ready named with free | ⟨d, sends, wait, buffer, mem⟩ | ⟨_, _, wait, _⟩
    · rw [free] at sending
      cases sending
    · obtain rfl := Wait.sending.inj (wait.symm.trans sending)
      rw [buffer, mem]
      exact ⟨rfl, request sends⟩
    · rw [wait] at sending
      cases sending
  · rcases (does.elsewhere well owned own same).2 with kept | ⟨_, _, _, _, free, _⟩ | ⟨_, free⟩
    · exact kept.asked owned asked sending
    · rw [free] at sending
      cases sending
    · rw [free] at sending
      cases sending

/-- A write of a ready process to what it owns. -/
theorem Asked.write (asked : Asked wants h b) (owned : Owned owner b)
    (ready : b.mail.wait p = .ready) (own : owner a = p) (m : Message) :
    Asked wants h { b with mem := Function.update b.mem a m } := by
  intro q sending
  have other : q ≠ p := by
    rintro rfl
    exact absurd (ready.symm.trans sending) (by simp)
  have kept : Undisturbed owner b { b with mem := Function.update b.mem a m } q := by
    refine ⟨rfl, rfl, fun x mine => Function.update_of_ne ?_ _ _⟩
    rintro rfl
    exact other (mine.symm.trans own)
  exact kept.asked owned asked sending

/-! ### Interrupts -/

theorem Post.Deliver.elsewhere (deliver : b.Deliver d b') (owned : Owned owner b) (other : q ≠ d) :
    Undisturbed owner b b' q := by
  cases deliver with
  | @wake src receiving _ =>
    refine ⟨Post.put_wait_of_ne q other, Function.update_of_ne other _ _, fun x mine => ?_⟩
    refine Function.update_of_ne ?_ _ _
    rintro rfl
    exact other (mine.symm.trans (owned d (by rw [receiving]; simp)))
  | signal _ => exact ⟨rfl, rfl, fun _ _ => rfl⟩

theorem Post.Deliver.own (deliver : b.Deliver d b') :
    b'.mail.wait d = .ready ∨
      b'.mail.wait d = b.mail.wait d ∧ b'.buffer d = b.buffer d ∧ b'.mem = b.mem := by
  cases deliver with
  | wake _ _ => exact .inl Post.put_wait_self
  | signal _ => exact .inr ⟨rfl, rfl, rfl⟩

theorem Owned.deliver (owned : Owned owner b) (deliver : b.Deliver d b') : Owned owner b' := by
  intro q blocked
  by_cases same : q = d
  · subst same
    rcases deliver.own with free | ⟨wait, buffer, _⟩
    · exact absurd free blocked
    · rw [buffer]
      exact owned q (wait ▸ blocked)
  · exact (deliver.elsewhere owned same).owned owned blocked

theorem Asked.deliver (asked : Asked wants h b) (deliver : b.Deliver d b') (owned : Owned owner b) :
    Asked wants h b' := by
  intro q sending
  by_cases same : q = d
  · subst same
    rcases deliver.own with free | ⟨wait, buffer, mem⟩
    · rw [free] at sending
      cases sending
    · rw [buffer, mem]
      exact asked q (wait ▸ sending)
  · exact (deliver.elsewhere owned same).asked owned asked sending

end WalOS
