/-
**Runs of message passing.**

`IpcStep usable s t`: an unblocked process sends or receives with a usable buffer, or a disk
interrupt arrives, and the call returns with the table `t`. A call that blocks its caller may also stay in
`process_schedule` with the table it has got so far, and look there again and again. A send that
`dead_lock` reports does not return, so a run ends there.

`IpcStep.simulated` is the step lemma: every step on a table that represents a well-formed message
state is a `Post.Step` on that state. `reachable_represents` is the run lemma, from the table that
boot leaves (`Boot`), and the invariants of the message state are read back from it:

* `send_queues` — each send queue is a list without repetition of exactly the processes blocked
  sending to its owner, and a step keeps the order of those that stay;
* `deadlock_detection` — the blocked senders never form a cycle, so `dead_lock` returns, and its
  answer is whether the new edge would close one; `deadLock_null` — it stops where it prints a sender
  with a null buffer;
* `no_stuck_pair` — no process is blocked receiving while a sender it accepts is blocked on it.
-/

import WalOS.Ipc.Blocking

namespace WalOS

open Rendezvous Linked

variable {n : ℕ} {usable : Addr → Prop} {s₀ s t : Kernel n}

/-- The process table as boot leaves it. -/
structure Boot (s : Kernel n) : Prop where
  id : ∀ p, (s.proc p).id = p
  flags : ∀ p, (s.proc p).flags = 0
  currentSend : ∀ p, (s.proc p).currentSend = none
  nextSend : ∀ p, (s.proc p).nextSend = none
  haveIntMsg : ∀ p, (s.proc p).haveIntMsg = false

/-- **One call.** -/
inductive IpcStep (usable : Addr → Prop) (s : Kernel n) : Kernel n → Prop where
  | send {outside : Int → Process n} {p d : Fin n} {msg : Addr} {t : Kernel n} :
      (s.proc p).flags = 0 → p ≠ d → usable msg →
      (msgSend outside p (pid d) msg s).outcome = .ok t → IpcStep usable s t
  | recv {outside : Int → Process n} {p : Fin n} {src : Source (Fin n)} {msg : Addr}
      {t : Kernel n} :
      (s.proc p).flags = 0 → src ≠ .only p → usable msg → (src = .interrupt → Quiet outside p) →
      (msgRecv outside p (sourceCode src) msg s).outcome = .ok t → IpcStep usable s t
  | deliver {p : Fin n} {t : Kernel n} :
      (deliverIntToProc p s).outcome = .ok t → IpcStep usable s t
  | sendBlocks {outside : Int → Process n} {p d : Fin n} {msg : Addr} {t : Kernel n} :
      (s.proc p).flags = 0 → p ≠ d → usable msg → SendBlocks outside p d msg s t → IpcStep usable s t
  | recvBlocks {outside : Int → Process n} {p : Fin n} {src : Source (Fin n)} {msg : Addr}
      {t : Kernel n} :
      (s.proc p).flags = 0 → src ≠ .only p → usable msg → (src = .interrupt → Quiet outside p) →
      RecvBlocks outside p src msg s t → IpcStep usable s t
  | looks {t : Kernel n} : LooksAgain s t → IpcStep usable s t

/-- The calls made one after the other. -/
abbrev IpcRun (usable : Addr → Prop) : Kernel n → Kernel n → Prop :=
  Relation.ReflTransGen (IpcStep usable)

theorem bootKernel_boot : Boot bootKernel :=
  ⟨fun _ => rfl, fun _ => rfl, fun _ => rfl, fun _ => rfl, fun _ => rfl⟩

/-- A call, or what else changes the table. -/
abbrev KernelCall (n : ℕ) : Type := Kernel n → Ipc (Kernel n)

/-- The table after the first `count` of the calls. -/
def Kernel.after (s : Kernel n) (calls : List (KernelCall n)) (count : ℕ) : Kernel n :=
  (calls.take count).foldl (fun s call => (call s).getD s) s

theorem after_step {calls : List (KernelCall n)} {call : KernelCall n} (count : ℕ)
    (now : calls[count]? = some call) (done : (call (s.after calls count)).returns = true) :
    (call (s.after calls count)).outcome = .ok (s.after calls (count + 1)) := by
  have next : s.after calls (count + 1) =
      (call (s.after calls count)).getD (s.after calls count) := by
    unfold Kernel.after
    rw [List.take_add_one, now, Option.toList_some, List.foldl_append]
    rfl
  rw [next]
  exact Traced.outcome_getD done _

/-! ### The simulation -/

/-- The message state of a table in which nothing has happened. -/
def Kernel.idle (s : Kernel n) : Post n :=
  ⟨Mail.rest, fun p => (s.proc p).msg, s.mem, fun p => (s.proc p).haveIntMsg⟩

theorem Boot.represents (boot : Boot s) : Represents s s.idle where
  id p := by rw [boot.id p]; rfl
  shows p := boot.flags p
  queues p := boot.currentSend p
  buffer _ := rfl
  mem := rfl
  pending _ := rfl

/-- **The step lemma.** -/
theorem IpcStep.simulated (step : IpcStep usable s t) {b : Post n} (rep : Represents s b)
    (well : b.mail.WellFormed) : ∃ b', (b.Step usable b' ∨ b' = b) ∧ Represents t b' := by
  cases step with
  | @send outside p d msg t free ne good returned =>
    have ready := (ready_iff (rep.shows p)).mp free
    obtain ⟨b', send, after, _⟩ := msgSend_value rep well ready ne returned
    exact ⟨b', .inl (.send ready ne good send), after⟩
  | @recv outside p src msg t free ne good quiet returned =>
    have ready := (ready_iff (rep.shows p)).mp free
    obtain ⟨b', recv, after, _⟩ := msgRecv_value rep well ready ne quiet returned
    exact ⟨b', .inl (.recv ready ne good recv), after⟩
  | @deliver p t returned =>
    obtain ⟨b', deliver, after, _⟩ := deliverIntToProc_value rep returned
    exact ⟨b', .inl (.deliver deliver), after⟩
  | @sendBlocks outside p d msg t free ne good blocks =>
    have ready := (ready_iff (rep.shows p)).mp free
    obtain ⟨b', send, after, _⟩ := blocks.value rep well ready ne
    exact ⟨b', .inl (.send ready ne good send), after⟩
  | @recvBlocks outside p src msg t free ne good quiet blocks =>
    have ready := (ready_iff (rep.shows p)).mp free
    obtain ⟨b', recv, after, _⟩ := blocks.value rep well ready ne fun same _ => quiet same
    exact ⟨b', .inl (.recv ready ne good recv), after⟩
  | looks looks => exact ⟨b, .inr rfl, rep.rescheduled looks.rescheduled⟩

/-- A message state that a run can be in. -/
structure Reached (usable : Addr → Prop) (s : Kernel n) (b : Post n) : Prop where
  rep : Represents s b
  well : b.mail.WellFormed
  buffered : b.Buffered usable

theorem Reached.step {b : Post n} (reached : Reached usable s b) (step : IpcStep usable s t) :
    ∃ b', (b.Step usable b' ∨ b' = b) ∧ Reached usable t b' := by
  obtain ⟨b', moved, rep⟩ := step.simulated reached.rep reached.well
  refine ⟨b', moved, ?_⟩
  rcases moved with moved | rfl
  · obtain ⟨_, mailStep⟩ := moved.move
    exact ⟨rep, mailStep.wellFormed reached.well, moved.buffered reached.buffered⟩
  · exact ⟨rep, reached.well, reached.buffered⟩

/-- **The run lemma.** -/
theorem reachable_represents (boot : Boot s₀) (run : IpcRun usable s₀ s) :
    ∃ b, Reached usable s b := by
  induction run with
  | refl => exact ⟨s₀.idle, boot.represents, Mail.rest_wellFormed, fun _ blocked => absurd rfl blocked⟩
  | tail _ step ih =>
    obtain ⟨b, reached⟩ := ih
    obtain ⟨b', _, reached'⟩ := reached.step step
    exact ⟨b', reached'⟩

/-! ### The send queues -/

/-- Following `current_send` and `next_send` from `d` visits `l`. -/
def SendQueue (s : Kernel n) (d : Fin n) (l : List (Fin n)) : Prop :=
  Chain s.next (s.proc d).currentSend l

/-- `q` is blocked sending to `d`. -/
def SendsTo (s : Kernel n) (q d : Fin n) : Prop :=
  (s.proc q).flags &&& msgSending ≠ 0 ∧ (s.proc q).sendTo = pid d

theorem Represents.sendsTo_iff {b : Post n} (rep : Represents s b) (q d : Fin n) :
    SendsTo s q d ↔ b.mail.wait q = .sending d := by
  have shown := rep.shows q
  constructor
  · rintro ⟨flag, peer⟩
    obtain ⟨e, sending⟩ := (sending_iff shown).mp flag
    rw [sending] at shown ⊢
    rw [pid_inj.mp (shown.2.symm.trans peer)]
  · intro sending
    rw [sending] at shown
    exact ⟨by rw [shown.1]; decide, shown.2⟩

/-- **The send queues.** In every reachable state the queue of each process ends, repeats nobody and
holds exactly the processes blocked sending to it; a blocked sender is in the queue of its
destination and in no other; a further step keeps the order of the senders that stay queued. -/
theorem send_queues (boot : Boot s₀) (run : IpcRun usable s₀ s) :
    (∀ d, ∃ l, SendQueue s d l ∧ l.Nodup ∧ ∀ q, q ∈ l ↔ SendsTo s q d) ∧
      (∀ q, (s.proc q).flags &&& msgSending ≠ 0 →
        ∃ d, (s.proc q).sendTo = pid d ∧ ∀ e l, SendQueue s e l → (q ∈ l ↔ e = d)) ∧
      ∀ t, IpcStep usable s t → ∀ d l l', SendQueue s d l → SendQueue t d l' →
        l'.filter (· ∈ l) = l.filter (· ∈ l') := by
  obtain ⟨b, reached⟩ := reachable_represents boot run
  have rep := reached.rep
  have member : ∀ {d l}, SendQueue s d l → ∀ q, q ∈ l ↔ SendsTo s q d := by
    intro d l chain q
    rw [Chain.unique chain (rep.queues d), reached.well.mem, rep.sendsTo_iff]
  refine ⟨fun d => ⟨b.mail.queue d, rep.queues d, reached.well.nodup d, member (rep.queues d)⟩,
    fun q flag => ?_, fun t step d l l' chain chain' => ?_⟩
  · obtain ⟨d, sending⟩ := (sending_iff (rep.shows q)).mp flag
    have peer : (s.proc q).sendTo = pid d := ((rep.sendsTo_iff q d).mpr sending).2
    refine ⟨d, peer, fun e l chain => (member chain q).trans ⟨fun sends => ?_, fun same => ?_⟩⟩
    · exact pid_inj.mp (sends.2.symm.trans peer)
    · exact ⟨flag, same ▸ peer⟩
  · obtain ⟨b', moved, reached'⟩ := reached.step step
    rw [Chain.unique chain (rep.queues d), Chain.unique chain' (reached'.rep.queues d)]
    rcases moved with moved | rfl
    · obtain ⟨_, mailStep⟩ := moved.move
      exact mailStep.order reached.well d
    · rfl

/-- Three processes send to `HDD_TASK`, which then receives from the second of them. -/
def threeSenders (count : ℕ) : Kernel totalTaskCnt :=
  bootKernel.after [msgSend nowhere fsTask (pid hddTask) 0x1000,
    msgSend nowhere processA (pid hddTask) 0x2000, msgSend nowhere processB (pid hddTask) 0x3000,
    msgRecv nowhere hddTask (sourceCode (.only processA)) 0x4000] count

set_option maxRecDepth 10000 in
theorem threeSenders_run : IpcRun (· ≠ null) bootKernel (threeSenders 3) :=
  ((Relation.ReflTransGen.single
    (.send (p := fsTask) rfl (by decide) (by decide) (after_step 0 rfl (by decide)))).tail
    (.send (p := processA) (by decide) (by decide) (by decide) (after_step 1 rfl (by decide)))).tail
    (.send (p := processB) (by decide) (by decide) (by decide) (after_step 2 rfl (by decide)))

set_option maxRecDepth 10000 in
/-- The receive takes the second sender out of the queue. -/
theorem send_queues_unlinked : SendQueue (threeSenders 3) hddTask [fsTask, processA, processB] ∧
    SendQueue (threeSenders 4) hddTask [fsTask, processB] ∧
    (∀ l, SendQueue (threeSenders 3) hddTask l → ∀ l', SendQueue (threeSenders 4) hddTask l' →
      l'.filter (· ∈ l) = l.filter (· ∈ l')) ∧
    ∃ l, SendQueue (threeSenders 4) hddTask l ∧ l.Nodup ∧
      ∀ q, q ∈ l ↔ SendsTo (threeSenders 4) q hddTask := by
  have unlinks : IpcStep (· ≠ null) (threeSenders 3) (threeSenders 4) :=
    @IpcStep.recv _ _ _ _ _ (.only processA) _ _ (by decide) (by decide) (by decide)
      (fun same => by cases same) (after_step 3 rfl (by decide))
  have queues := send_queues bootKernel_boot threeSenders_run
  refine ⟨⟨rfl, rfl, rfl, rfl⟩, ⟨rfl, rfl, rfl⟩, fun l chain l' chain' => ?_, ?_⟩
  · exact queues.2.2 _ unlinks hddTask l l' chain chain'
  · exact (send_queues bootKernel_boot (threeSenders_run.tail unlinks)).1 hddTask

/-! ### Deadlock detection -/

/-- **Deadlock detection is exact.** In every reachable state the blocked senders form no cycle. For
an unblocked `p` and another process `d`, `dead_lock` with `n` rounds or more for each of its loops
returns; it returns true exactly when the senders lead from `d` to `p`, that is, when the edge from
`p` to `d` would close a cycle. -/
theorem deadlock_detection (boot : Boot s₀) (run : IpcRun usable s₀ s) :
    Follow.Acyclic (SendsTo s) ∧
      ((∀ a, usable a → a ≠ null) → ∀ (outside : Int → Process n) (p d : Fin n) (fuel : ℕ),
        (s.proc p).flags = 0 → p ≠ d → n ≤ fuel →
        ∃ dead, (deadLock outside fuel s (pid p) (pid d)).outcome = .ok dead ∧
          (dead = true ↔ Relation.ReflTransGen (SendsTo s) d p) ∧
          (dead = true ↔ ¬ Follow.Acyclic fun q r => SendsTo s q r ∨ (q = p ∧ r = d))) := by
  obtain ⟨b, reached⟩ := reachable_represents boot run
  have rep := reached.rep
  have edges : SendsTo s = b.mail.Edge := by
    funext q r
    exact propext (rep.sendsTo_iff q r)
  rw [edges]
  refine ⟨reached.well.acyclic, fun nonNull outside p d fuel free ne enough => ?_⟩
  have spec : (deadLock outside fuel s (pid p) (pid d)).Sat (fun _ => True) _ (fun _ => False) :=
    deadLock_sat rep reached.well ne enough ((ready_iff (rep.shows p)).mp free) (fun _ => trivial)
      fun ⟨q, blocked, isNull⟩ => nonNull _ (reached.buffered q blocked) isNull
  cases answer : (deadLock outside fuel s (pid p) (pid d)).outcome with
  | error reason => exact (spec.stopped reason answer).elim
  | ok dead =>
    have reaches := spec.value dead answer
    refine ⟨dead, rfl, reaches, reaches.trans ⟨fun walk acyclic => ?_, fun cycle => ?_⟩⟩
    · have walk' : Relation.ReflTransGen (fun q r => b.mail.Edge q r ∨ (q = p ∧ r = d)) d p :=
        Relation.ReflTransGen.mono (fun _ _ => Or.inl) _ _ walk
      exact acyclic p (Relation.TransGen.head' (Or.inr ⟨rfl, rfl⟩) walk')
    · by_contra unreachable
      exact cycle (reached.well.acyclic.insert (fun _ _ edge => edge) unreachable)

/-- `process_A` sends to `FS_TASK`, and that with the buffer given to `HDD_TASK`. -/
def twoSenders (buffer : Addr) (count : ℕ) : Kernel totalTaskCnt :=
  bootKernel.after [msgSend nowhere processA (pid fsTask) 0x1000,
    msgSend nowhere fsTask (pid hddTask) buffer] count

set_option maxRecDepth 10000 in
/-- A send of `HDD_TASK` to `process_A` would close a cycle. -/
theorem deadlock_detection_twoSenders :
    (deadLock nowhere totalTaskCnt (twoSenders 0x2000 2) (pid hddTask)
      (pid processA)).outcome = .ok true ∧
    Relation.ReflTransGen (SendsTo (twoSenders 0x2000 2)) processA hddTask ∧
    Follow.Acyclic (SendsTo (twoSenders 0x2000 2)) ∧
    ¬ Follow.Acyclic fun q r => SendsTo (twoSenders 0x2000 2) q r ∨ (q = hddTask ∧ r = processA) := by
  have run : IpcRun (· ≠ null) bootKernel (twoSenders 0x2000 2) :=
    (Relation.ReflTransGen.single
      (.send (p := processA) (d := fsTask) rfl (by decide) (by decide) (after_step 0 rfl (by decide)))).tail
    (.send (p := fsTask) (d := hddTask) (by decide) (by decide) (by decide)
      (after_step 1 rfl (by decide)))
  obtain ⟨acyclic, exact⟩ := deadlock_detection bootKernel_boot run
  obtain ⟨dead, answer, reaches, closes⟩ := exact (fun _ nonNull => nonNull) nowhere hddTask processA
    totalTaskCnt (by decide) (by decide) (le_refl _)
  have found : (deadLock nowhere totalTaskCnt (twoSenders 0x2000 2) (pid hddTask)
      (pid processA)).outcome = .ok true := by decide
  obtain rfl : dead = true := Except.ok.inj (answer.symm.trans found)
  exact ⟨found, reaches.mp rfl, acyclic, closes.mp rfl⟩

set_option maxRecDepth 10000 in
/-- **With a null buffer it stops at an `ASSERT`** where it should report. -/
theorem deadLock_null : IpcRun (fun _ => True) bootKernel (twoSenders null 2) ∧
    ((twoSenders null 2).proc hddTask).flags = 0 ∧
    Relation.ReflTransGen (SendsTo (twoSenders null 2)) processA hddTask ∧
    (deadLock nowhere (linkFuel totalTaskCnt) (twoSenders null 2) (pid hddTask)
      (pid processA)).outcome = .error (.assertFail .deadLockMsg) := by
  have first : SendsTo (twoSenders null 2) processA fsTask := by unfold SendsTo; decide
  have second : SendsTo (twoSenders null 2) fsTask hddTask := by unfold SendsTo; decide
  refine ⟨(Relation.ReflTransGen.single
      (.send (p := processA) (d := fsTask) rfl (by decide) trivial (after_step 0 rfl (by decide)))).tail
    (.send (p := fsTask) (d := hddTask) (by decide) (by decide) trivial
      (after_step 1 rfl (by decide))), by decide, (Relation.ReflTransGen.single first).tail second,
    rfl⟩

/-! ### Senders and receivers -/

/-- **No matching sender and receiver are both blocked.** -/
theorem no_stuck_pair (boot : Boot s₀) (run : IpcRun usable s₀ s) :
    ¬ ∃ p q : Fin n, (s.proc p).flags &&& msgRecving ≠ 0 ∧ SendsTo s q p ∧
      ((s.proc p).recvFrom = pAny n ∨ (s.proc p).recvFrom = pid q) := by
  rintro ⟨p, q, flag, sends, peer⟩
  obtain ⟨b, reached⟩ := reachable_represents boot run
  obtain ⟨src, receiving⟩ := (recving_iff (reached.rep.shows p)).mp flag
  have shown := reached.rep.shows p
  rw [receiving] at shown
  rw [shown.2, or_comm, accepts_iff] at peer
  exact reached.well.apart p q src receiving peer ((reached.rep.sendsTo_iff q p).mp sends)

/-- `HDD_TASK` waits for `FS_TASK`, and another process for `HDD_TASK`. -/
def otherSender (count : ℕ) : Kernel totalTaskCnt :=
  bootKernel.after [msgRecv nowhere hddTask (sourceCode (.only fsTask)) 0x1000,
    msgSend nowhere processA (pid hddTask) 0x2000] count

set_option maxRecDepth 10000 in
/-- Both stay blocked, and they do not match. -/
theorem no_stuck_pair_otherSender :
    ((otherSender 2).proc hddTask).flags &&& msgRecving ≠ 0 ∧ SendsTo (otherSender 2) processA hddTask ∧
    ¬ ∃ p q : Fin totalTaskCnt, ((otherSender 2).proc p).flags &&& msgRecving ≠ 0 ∧
      SendsTo (otherSender 2) q p ∧ (((otherSender 2).proc p).recvFrom = pAny totalTaskCnt ∨
        ((otherSender 2).proc p).recvFrom = pid q) := by
  have run : IpcRun (· ≠ null) bootKernel (otherSender 2) :=
    (Relation.ReflTransGen.single (@IpcStep.recv _ _ _ _ hddTask (.only fsTask) _ _ rfl (by decide)
      (by decide) (fun same => by cases same) (after_step 0 rfl (by decide)))).tail
    (.send (p := processA) (by decide) (by decide) (by decide) (after_step 1 rfl (by decide)))
  exact ⟨by decide, by unfold SendsTo; decide, no_stuck_pair bootKernel_boot run⟩

end WalOS
