/-
**Calls that block.**

`msg_send` and `msg_recv` block their caller with the last thing they do to the table, and then look in
`process_schedule` for another process, for as long as there is none. Interrupts come in meanwhile.

* `SendBlocks`, `RecvBlocks` — a call of `p` blocks it, and leaves the table `t` to `process_schedule`;
  `SendBlocks.outcome`, `RecvBlocks.outcome` — all the rest of the call is `block`.
* `SendBlocks.value`, `RecvBlocks.value` — what `t` represents.
-/

import WalOS.Ipc.Calls

namespace WalOS

open Rendezvous

variable {n : ℕ} {outside : Int → Process n} {s t : Kernel n} {b : Post n} {p d : Fin n} {a : Addr}
  {src : Source (Fin n)}

/-- `msg_send` of `p` finds `d` waiting for it. -/
def WaitsFor (s : Kernel n) (d p : Fin n) : Prop :=
  (s.proc d).flags &&& msgRecving ≠ 0 ∧
    ((s.proc d).recvFrom = (s.proc p).id ∨ (s.proc d).recvFrom = pAny n)

instance (s : Kernel n) (d p : Fin n) : Decidable (WaitsFor s d p) :=
  inferInstanceAs (Decidable (_ ∧ _))

/-- `p` is about to be queued at `d`. -/
def Kernel.sending (s : Kernel n) (p d : Fin n) (a : Addr) : Kernel n :=
  s.modify p fun e => { e with flags := e.flags ||| msgSending, sendTo := pid d, msg := a }

/-- `p` waits for `src`. -/
def Kernel.receiving (s : Kernel n) (p : Fin n) (src : Source (Fin n)) (a : Addr) : Kernel n :=
  s.modify p fun e =>
    { e with flags := e.flags ||| msgRecving, msg := a, recvFrom := sourceCode src }

/-- **A send of `p` blocks it.** -/
structure SendBlocks (outside : Int → Process n) (p d : Fin n) (a : Addr) (s t : Kernel n) : Prop where
  alive : (deadLock outside (linkFuel n) s (pid p) (pid d)).outcome = .ok false
  busy : ¬ WaitsFor s d p
  queued : ∃ u, (addToQueue p d (s.sending p d a)).outcome = .ok u ∧
    t = u.modify p fun e => { e with nextSend := none }

/-- **A receive of `p` blocks it.** -/
structure RecvBlocks (outside : Int → Process n) (p : Fin n) (src : Source (Fin n)) (a : Addr)
    (s t : Kernel n) : Prop where
  unanswered : (recvCheck outside p (sourceCode src) a s).outcome = .ok none
  nobody : (recvLook outside p (sourceCode src) s).outcome = .ok none
  table : t = s.receiving p src a

/-! ### The rest of the call -/

theorem procPtr_outcome (d : Fin n) : (procPtr n (pid d)).outcome = .ok d := by
  unfold procPtr
  rw [dif_pos (inTable_pid d)]
  rfl

theorem SendBlocks.outcome (blocks : SendBlocks outside p d a s t)
    (id : ((s.proc p).id : Int) = pid p) (ne : p ≠ d) :
    (msgSend outside p (pid d) a s).outcome = (block p t).outcome := by
  obtain ⟨alive, busy, u, queued, rfl⟩ := blocks
  have other : pid p ≠ pid d := fun same => ne (pid_inj.mp same)
  unfold WaitsFor at busy
  rw [id] at busy
  unfold msgSend
  simp only [id]
  rw [(assertThat_gives other).outcome_bind, Traced.bind_of_ok alive]
  show (procPtr n (pid d) >>= _).outcome = _
  rw [Traced.bind_of_ok (procPtr_outcome d)]
  show (Traced.check _ _ >>= _).outcome = _
  rw [(Traced.Gives.check rfl _).outcome_bind, if_neg busy]
  show (addToQueue p d (s.sending p d a) >>= _).outcome = _
  rw [Traced.bind_of_ok queued]

theorem RecvBlocks.outcome (blocks : RecvBlocks outside p src a s t) :
    (msgRecv outside p (sourceCode src) a s).outcome = (block p t).outcome := by
  obtain ⟨unanswered, nobody, rfl⟩ := blocks
  unfold msgRecv
  rw [Traced.bind_of_ok unanswered]
  show (recvLook outside p (sourceCode src) s >>= _).outcome = _
  rw [Traced.bind_of_ok nobody]
  rfl

/-! ### What is left -/

/-- What the table of a send that blocks represents. -/
theorem SendBlocks.value (blocks : SendBlocks outside p d a s t) (rep : Represents s b)
    (well : b.mail.WellFormed) (ready : b.mail.wait p = .ready) (ne : p ≠ d) :
    ∃ b', b.Send p d a b' ∧ Represents t b' ∧ Fixed s t := by
  obtain ⟨alive, busy, u, queued, rfl⟩ := blocks
  have verdict : (deadLock outside (linkFuel n) s (pid p) (pid d)).Sat (fun _ => True) _ fun _ => True :=
    deadLock_sat rep well ne (Nat.le_succ n) ready (fun _ => trivial) fun _ => trivial
  have apart : ¬ b.Reaches d p := fun reach => by
    have dead := (verdict.value false alive).mpr reach
    cases dead
  have refuses : ∀ src, b.mail.wait d = .receiving src → ¬ src.Accepts p := by
    intro src receiving accepts
    have shown := rep.shows d
    rw [receiving] at shown
    refine busy ⟨by rw [shown.1]; decide, ?_⟩
    rw [shown.2, rep.id]
    exact (accepts_iff src p).mpr accepts
  have spec : (addToQueue p d (s.sending p d a)).Sat (fun _ => True) _ fun _ => True :=
    enqueue_sat rep well ready
  obtain ⟨links, queues⟩ := spec.value u queued
  refine ⟨_, .queue refuses apart, represents_enqueue rep ready links queues, ?_⟩
  refine ⟨fun q => ?_, fun q => ?_, links.intReenter⟩
  · rw [links.proc q]
    simp
  · rw [links.proc q]
    simp

/-- What the table of a receive that blocks represents. -/
theorem RecvBlocks.value (blocks : RecvBlocks outside p src a s t) (rep : Represents s b)
    (well : b.mail.WellFormed) (ready : b.mail.wait p = .ready) (other : src ≠ .only p)
    (quiet : src = .interrupt → b.pending p = false → Quiet outside p) :
    ∃ b', b.Recv p src a b' ∧ Represents t b' ∧ Fixed s t := by
  obtain ⟨unanswered, nobody, rfl⟩ := blocks
  have checked : (recvCheck outside p (sourceCode src) a s).Sat (fun _ => True) _ fun _ => True :=
    recvCheck_sat rep other (fun _ => trivial) fun _ => trivial
  have silent : ¬ b.Answers p src := checked.value none unanswered
  have late : src = .interrupt → b.pending p = false := by
    rintro rfl
    exact Bool.eq_false_iff.mpr fun pending => silent ⟨pending, trivial⟩
  have looked : (recvLook outside p (sourceCode src) s).Sat (fun _ => True) _ fun _ => True :=
    recvLook_sat rep well (fun _ => trivial) (fun _ => trivial) fun same => quiet same (late same)
  refine ⟨_, .await silent (looked.value none nobody), represents_await rep ready, ?_⟩
  unfold Kernel.receiving
  exact ⟨fun q => by simp, fun q => by simp, rfl⟩

end WalOS
