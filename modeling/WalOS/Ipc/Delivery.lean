/-
**Messages are delivered once and in order.**

A `History n` is a table with what was observed on the way: the messages every process sent to every
other (its buffer at the call, with the source the kernel writes), the messages every process
received (its buffer when a receive of it completes), and the blocked senders in the order in which
they blocked. The histories grow by calls whose buffers no blocked process has left, whether they return
or block in `process_schedule`, by disk interrupts, clock ticks, and writes that leave the buffers of
blocked processes alone.

* `Conserves` — the law of one step: what a process receives from another, with what stays pending
  between them, is what was pending with what is newly sent.
* `Balanced` — the ledger invariant that the law keeps, and `historyRun_balanced`, its run lemma.
* `exactly_once` — what was sent is what was received followed by what is pending; nothing else is
  received; and a receive from anyone takes the sender that blocked first.
-/

import WalOS.Ipc.SysCall

namespace WalOS

open Rendezvous

variable {n : ℕ} {s t : Kernel n} {b b' : Post n} {p q d x : Fin n} {a : Addr}

instance (s : Kernel n) (q d : Fin n) : Decidable (SendsTo s q d) :=
  inferInstanceAs (Decidable (_ ∧ _))

/-! ### Histories -/

structure History (n : ℕ) where
  kernel : Kernel n
  sent : Fin n → Fin n → List Message
  received : Fin n → List Message
  waiting : List (Fin n)

def History.start (s : Kernel n) : History n := ⟨s, fun _ _ => [], fun _ => [], []⟩

/-- The message of a receive of `d` that completes between `s` and `t`. -/
def arrivals (s t : Kernel n) (d : Fin n) : List Message :=
  if (s.proc d).flags &&& msgRecving ≠ 0 ∧ (t.proc d).flags = 0 then [t.mem (s.proc d).msg] else []

/-- Those of the list that are still blocked sending. -/
def stillSending (t : Kernel n) (w : List (Fin n)) : List (Fin n) :=
  w.filter fun q => (t.proc q).flags &&& msgSending ≠ 0

/-- What is observed of every step: receives complete, and senders stop waiting. -/
def History.record (h : History n) (t : Kernel n) : History n where
  kernel := t
  sent := h.sent
  received d := h.received d ++ arrivals h.kernel t d
  waiting := stillSending t h.waiting

/-- What is observed of a send of `p` to `d` with the message at `a`. -/
def History.send (h : History n) (t : Kernel n) (p d : Fin n) (a : Addr) : History n :=
  { h.record t with
    sent := fun q e => h.sent q e ++
      if q = p ∧ e = d then [{ h.kernel.mem a with source := pid p }] else []
    waiting := (h.record t).waiting ++
      if (t.proc p).flags &&& msgSending ≠ 0 then [p] else [] }

/-- What is observed of a receive of `p` into `a`. -/
def History.receive (h : History n) (t : Kernel n) (p : Fin n) (a : Addr) : History n :=
  { h.record t with
    received := fun q => (h.record t).received q ++
      if q = p ∧ (t.proc p).flags = 0 then [t.mem a] else [] }

/-- No blocked process left its buffer at `a`. -/
def Free (s : Kernel n) (a : Addr) : Prop := ∀ q, (s.proc q).flags ≠ 0 → (s.proc q).msg ≠ a

/-- **One step of a history.** -/
inductive HistoryStep (h : History n) : History n → Prop where
  | send {outside : Int → Process n} {p d : Fin n} {msg : Addr} {t : Kernel n} :
      (h.kernel.proc p).flags = 0 → p ≠ d → msg ≠ null → Free h.kernel msg →
      (sysSendRecv outside funcSend (pid d) msg p h.kernel).outcome = .ok t →
      HistoryStep h (h.send t p d msg)
  | receive {outside : Int → Process n} {p : Fin n} {src : Source (Fin n)} {msg : Addr}
      {t : Kernel n} :
      (h.kernel.proc p).flags = 0 → src ≠ .only p → msg ≠ null → Free h.kernel msg →
      (src = .interrupt → (h.kernel.proc p).haveIntMsg = false → Quiet outside p) →
      (sysSendRecv outside funcReceive (sourceCode src) msg p h.kernel).outcome = .ok t →
      HistoryStep h (h.receive t p msg)
  | deliver {p : Fin n} {t : Kernel n} : (deliverIntToProc p h.kernel).outcome = .ok t →
      HistoryStep h (h.record t)
  | tick {t : Kernel n} : (clockIntHandler h.kernel).outcome = .ok t → HistoryStep h (h.record t)
  | write {addr : Addr} {m : Message} : Free h.kernel addr →
      HistoryStep h (h.record (h.kernel.store addr m))
  | sendBlocks {outside : Int → Process n} {p d : Fin n} {msg : Addr} {t : Kernel n} :
      (h.kernel.proc p).flags = 0 → msg ≠ null → Free h.kernel msg →
      (Call.send d).Blocks outside p msg h.kernel t → HistoryStep h (h.send t p d msg)
  | receiveBlocks {outside : Int → Process n} {p : Fin n} {src : Source (Fin n)} {msg : Addr}
      {t : Kernel n} :
      (h.kernel.proc p).flags = 0 → msg ≠ null → Free h.kernel msg →
      (src = .interrupt → (h.kernel.proc p).haveIntMsg = false → Quiet outside p) →
      (Call.receive src).Blocks outside p msg h.kernel t → HistoryStep h (h.receive t p msg)
  | looks {t : Kernel n} : LooksAgain h.kernel t → HistoryStep h (h.record t)

abbrev HistoryRun : History n → History n → Prop := Relation.ReflTransGen HistoryStep

/-! ### What a step leaves untouched -/

/-- `q` goes on as it was, and the message it left is untouched. -/
structure Untouched (b b' : Post n) (q : Fin n) : Prop where
  wait : b'.mail.wait q = b.mail.wait q
  buffer : b.mail.wait q ≠ .ready → b'.buffer q = b.buffer q
  mem : b.mail.wait q ≠ .ready → b'.mem (b.buffer q) = b.mem (b.buffer q)

/-- No two blocked processes left the same buffer. -/
def Distinct (b : Post n) : Prop :=
  ∀ q r, b.mail.wait q ≠ .ready → b.mail.wait r ≠ .ready → b.buffer q = b.buffer r → q = r

/-- Every blocked sender left a message with its own id. -/
def Stamped (b : Post n) : Prop :=
  ∀ q e, b.mail.wait q = .sending e → (b.mem (b.buffer q)).source = pid q

/-- The buffer of no blocked process is at `a`. -/
def Vacant (b : Post n) (a : Addr) : Prop := ∀ q, b.mail.wait q ≠ .ready → b.buffer q ≠ a

theorem Represents.vacant (rep : Represents s b) (free : Free s a) : Vacant b a := by
  intro q blocked
  rw [← rep.buffer q]
  exact free q fun ready => blocked ((ready_iff (rep.shows q)).mp ready)

theorem Distinct.of_untouched (distinct : Distinct b) (same : ∀ q, q ≠ x → Untouched b b' q)
    (free : b'.mail.wait x ≠ .ready → Vacant b (b'.buffer x)) : Distinct b' := by
  have blocked : ∀ q, q ≠ x → b'.mail.wait q ≠ .ready → b.mail.wait q ≠ .ready := fun q other stuck =>
    (same q other).wait ▸ stuck
  have clash : ∀ q, q ≠ x → b'.mail.wait q ≠ .ready → b'.mail.wait x ≠ .ready →
      b'.buffer q ≠ b'.buffer x := by
    intro q other stuckQ stuckX equal
    rw [(same q other).buffer (blocked q other stuckQ)] at equal
    exact free stuckX q (blocked q other stuckQ) equal
  intro q r stuckQ stuckR equal
  by_cases sameQ : q = x <;> by_cases sameR : r = x
  · exact sameQ.trans sameR.symm
  · subst sameQ
    exact absurd equal.symm (clash r sameR stuckR stuckQ)
  · subst sameR
    exact absurd equal (clash q sameQ stuckQ stuckR)
  · rw [(same q sameQ).buffer (blocked q sameQ stuckQ),
      (same r sameR).buffer (blocked r sameR stuckR)] at equal
    exact distinct q r (blocked q sameQ stuckQ) (blocked r sameR stuckR) equal

theorem Stamped.of_untouched (stamped : Stamped b) (same : ∀ q, q ≠ x → Untouched b b' q)
    (here : ∀ e, b'.mail.wait x = .sending e → (b'.mem (b'.buffer x)).source = pid x) :
    Stamped b' := by
  intro q e sending
  by_cases sameQ : q = x
  · exact sameQ ▸ here e (sameQ ▸ sending)
  · have was : b.mail.wait q = .sending e := (same q sameQ).wait ▸ sending
    have stuck : b.mail.wait q ≠ .ready := by rw [was]; simp
    rw [(same q sameQ).buffer stuck, (same q sameQ).mem stuck]
    exact stamped q e was

/-! ### The law of one step -/

/-- The message pending from `q` to `e`. -/
def pendingOf (b : Post n) (q e : Fin n) : List Message :=
  if b.mail.wait q = .sending e then [b.mem (b.buffer q)] else []

/-- **The law of one step**: received now, with what stays pending, is what was pending with what is
sent now. -/
def Conserves (b b' : Post n) (sent : Fin n → Fin n → List Message)
    (received : Fin n → List Message) : Prop :=
  ∀ q e, (received e).filter (fun m => m.source = pid q) ++ pendingOf b' q e =
    pendingOf b q e ++ sent q e

theorem pendingOf_sending (sending : b.mail.wait q = .sending d) :
    pendingOf b q d = [b.mem (b.buffer q)] := if_pos sending

theorem pendingOf_other (other : b.mail.wait q ≠ .sending d) : pendingOf b q d = [] := if_neg other

theorem Untouched.pendingOf (same : Untouched b b' q) (e : Fin n) :
    pendingOf b' q e = pendingOf b q e := by
  by_cases sending : b.mail.wait q = .sending e
  · have stuck : b.mail.wait q ≠ .ready := by rw [sending]; simp
    rw [pendingOf_sending sending, pendingOf_sending (same.wait.trans sending), same.buffer stuck,
      same.mem stuck]
  · rw [pendingOf_other sending, pendingOf_other (same.wait ▸ sending)]

/-- Nothing pending changes where only `d` changes, who sends neither before nor after. -/
theorem pendingOf_same (same : ∀ q, q ≠ d → Untouched b b' q) (before : ∀ e, b.mail.wait d ≠ .sending e)
    (after : ∀ e, b'.mail.wait d ≠ .sending e) (q e : Fin n) : pendingOf b' q e = pendingOf b q e := by
  by_cases changed : q = d
  · subst changed
    rw [pendingOf_other (after e), pendingOf_other (before e)]
  · exact (same q changed).pendingOf e

/-- The message comes from a process or from an interrupt. -/
def Genuine (n : ℕ) (m : Message) : Prop :=
  m.source = msgSourceInterrupt ∨ ∃ p : Fin n, m.source = pid p

/-- What one step does to the messages. -/
structure Effect (b b' : Post n) (sent : Fin n → Fin n → List Message)
    (received : Fin n → List Message) : Prop where
  distinct : Distinct b'
  stamped : Stamped b'
  conserves : Conserves b b' sent received
  genuine : ∀ e, ∀ m ∈ received e, Genuine n m

section Effects

variable (distinct : Distinct b) (stamped : Stamped b)

include distinct stamped

/-- A step that touches no blocked process and completes no receive but the one given. -/
theorem effect_of_untouched (same : ∀ q, Untouched b b' q) {received : Fin n → List Message}
    (foreign : ∀ e, ∀ m ∈ received e, m.source = msgSourceInterrupt) :
    Effect b b' (fun _ _ => []) received where
  distinct q r stuckQ stuckR equal := by
    rw [(same q).wait] at stuckQ
    rw [(same r).wait] at stuckR
    rw [(same q).buffer stuckQ, (same r).buffer stuckR] at equal
    exact distinct q r stuckQ stuckR equal
  stamped q e sending := by
    have was : b.mail.wait q = .sending e := (same q).wait ▸ sending
    have stuck : b.mail.wait q ≠ .ready := by rw [was]; simp
    rw [(same q).buffer stuck, (same q).mem stuck]
    exact stamped q e was
  conserves q e := by
    have none : (received e).filter (fun m => m.source = pid q) = [] :=
      List.filter_eq_nil_iff.mpr fun m member => by
        simp [foreign e m member, (pid_ne_interrupt q).symm]
    rw [none, (same q).pendingOf e, List.nil_append, List.append_nil]
  genuine e m member := Or.inl (foreign e m member)

/-- The message of `p` goes straight to the waiting `d`. -/
theorem effect_pass {src : Source (Fin n)} (ready : b.mail.wait p = .ready) (vacant : Vacant b a)
    (receiving : b.mail.wait d = .receiving src) :
    Effect b ((b.stamp p a).pass d a)
      (fun q e => if q = p ∧ e = d then [{ b.mem a with source := pid p }] else [])
      (fun e => if e = d then [{ b.mem a with source := pid p }] else []) := by
  have stuck : b.mail.wait d ≠ .ready := by rw [receiving]; simp
  have free : ((b.stamp p a).pass d a).mail.wait d = .ready := Post.put_wait_self
  have same : ∀ q, q ≠ d → Untouched b ((b.stamp p a).pass d a) q := fun q other =>
    ⟨Post.put_wait_of_ne q other, fun _ => Function.update_of_ne other _ _, fun stuckQ => by
      show Function.update _ (b.buffer d) _ (b.buffer q) = _
      rw [Function.update_of_ne fun equal => other (distinct q d stuckQ stuck equal)]
      exact Function.update_of_ne (vacant q stuckQ) _ _⟩
  refine ⟨distinct.of_untouched same (absurd free), stamped.of_untouched same fun e sending => ?_,
    fun q e => ?_, fun e m member => ?_⟩
  · rw [free] at sending
    cases sending
  · rw [pendingOf_same same (by simp [receiving]) (by simp [free])]
    by_cases sameE : e = d
    · by_cases sameQ : q = p
      · subst sameQ
        rw [pendingOf_other (by rw [ready]; simp)]
        simp [sameE]
      · simp [sameE, sameQ, pid_inj, Ne.symm sameQ]
    · simp [sameE]
  · split at member
    · obtain rfl := List.mem_singleton.mp member
      exact Or.inr ⟨p, rfl⟩
    · cases member

/-- The message of `p` waits in the queue of `d`. -/
theorem effect_enqueue (ready : b.mail.wait p = .ready) (vacant : Vacant b a) :
    Effect b ((b.stamp p a).enqueue p d a)
      (fun q e => if q = p ∧ e = d then [{ b.mem a with source := pid p }] else [])
      (fun _ => []) := by
  have sending : ((b.stamp p a).enqueue p d a).mail.wait p = .sending d := Post.put_wait_self
  have buffer : ((b.stamp p a).enqueue p d a).buffer p = a := Function.update_self ..
  have mem : ((b.stamp p a).enqueue p d a).mem a = { b.mem a with source := pid p } :=
    Function.update_self ..
  have same : ∀ q, q ≠ p → Untouched b ((b.stamp p a).enqueue p d a) q := fun q other =>
    ⟨Post.put_wait_of_ne q other, fun _ => Function.update_of_ne other _ _,
      fun stuckQ => Function.update_of_ne (vacant q stuckQ) _ _⟩
  refine ⟨distinct.of_untouched same fun _ => buffer.symm ▸ vacant,
    stamped.of_untouched same fun e _ => by rw [buffer, mem], fun q e => ?_,
    fun e m member => by cases member⟩
  rw [List.filter_nil, List.nil_append]
  by_cases sameQ : q = p
  · subst sameQ
    rw [pendingOf_other (b := b) (by rw [ready]; simp), List.nil_append]
    by_cases sameE : e = d
    · subst sameE
      rw [pendingOf_sending sending, buffer, mem, if_pos ⟨rfl, rfl⟩]
    · rw [pendingOf_other (by rw [sending]; simpa using Ne.symm sameE), if_neg (by simp [sameE])]
  · rw [(same q sameQ).pendingOf e, if_neg (by simp [sameQ]), List.append_nil]

/-- `d` takes the message of `x` out of its queue. -/
theorem effect_take {rest : List (Fin n)} (vacant : Vacant b a)
    (sending : b.mail.wait x = .sending d) :
    Effect b ((b.stamp d a).take d x a rest) (fun _ _ => [])
      (fun e => if e = d then [b.mem (b.buffer x)] else []) := by
  have stuck : b.mail.wait x ≠ .ready := by rw [sending]; simp
  have free : ((b.stamp d a).take d x a rest).mail.wait x = .ready := Post.put_wait_self
  have same : ∀ q, q ≠ x → Untouched b ((b.stamp d a).take d x a rest) q := fun q other =>
    ⟨Post.put_wait_of_ne q other, fun _ => Function.update_of_ne other _ _, fun stuckQ => by
      show Function.update _ a _ (b.buffer q) = _
      rw [Function.update_of_ne (vacant q stuckQ)]
      exact Function.update_of_ne (vacant q stuckQ) _ _⟩
  refine ⟨distinct.of_untouched same (absurd free), stamped.of_untouched same fun e again => ?_,
    fun q e => ?_, fun e m member => ?_⟩
  · rw [free] at again
    cases again
  · rw [List.append_nil]
    by_cases sameQ : q = x
    · subst sameQ
      rw [pendingOf_other (b := (b.stamp d a).take d q a rest) (by rw [free]; simp), List.append_nil]
      by_cases sameE : e = d
      · subst sameE
        rw [pendingOf_sending sending]
        simp [stamped q e sending]
      · rw [pendingOf_other (by rw [sending]; simpa using Ne.symm sameE)]
        simp [sameE]
    · rw [(same q sameQ).pendingOf e]
      by_cases sameE : e = d
      · simp [sameE, stamped x d sending, pid_inj, Ne.symm sameQ]
      · simp [sameE]
  · split at member
    · obtain rfl := List.mem_singleton.mp member
      exact Or.inr ⟨x, stamped x d sending⟩
    · cases member

/-- `d` blocks receiving. -/
theorem effect_await {src : Source (Fin n)} (ready : b.mail.wait d = .ready)
    (vacant : Vacant b a) :
    Effect b ((b.stamp d a).await d src a) (fun _ _ => []) (fun _ => []) := by
  have receiving : ((b.stamp d a).await d src a).mail.wait d = .receiving src := Post.put_wait_self
  have buffer : ((b.stamp d a).await d src a).buffer d = a := Function.update_self ..
  have same : ∀ q, q ≠ d → Untouched b ((b.stamp d a).await d src a) q := fun q other =>
    ⟨Post.put_wait_of_ne q other, fun _ => Function.update_of_ne other _ _,
      fun stuckQ => Function.update_of_ne (vacant q stuckQ) _ _⟩
  refine ⟨distinct.of_untouched same fun _ => buffer.symm ▸ vacant,
    stamped.of_untouched same fun e sending => ?_, fun q e => ?_, fun e m member => by cases member⟩
  · rw [receiving] at sending
    cases sending
  · rw [List.filter_nil, List.nil_append, List.append_nil]
    exact pendingOf_same same (by simp [ready]) (by simp [receiving]) q e

/-- An interrupt releases the waiting `d`. -/
theorem effect_wake {src : Source (Fin n)} (receiving : b.mail.wait d = .receiving src) :
    Effect b (b.wake d) (fun _ _ => [])
      (fun e => if e = d then [(b.mem (b.buffer d)).patched] else []) := by
  have stuck : b.mail.wait d ≠ .ready := by rw [receiving]; simp
  have free : (b.wake d).mail.wait d = .ready := Post.put_wait_self
  have same : ∀ q, q ≠ d → Untouched b (b.wake d) q := fun q other =>
    ⟨Post.put_wait_of_ne q other, fun _ => Function.update_of_ne other _ _,
      fun stuckQ => Function.update_of_ne (fun equal => other (distinct q d stuckQ stuck equal)) _ _⟩
  refine ⟨distinct.of_untouched same (absurd free), stamped.of_untouched same fun e sending => ?_,
    fun q e => ?_, fun e m member => ?_⟩
  · rw [free] at sending
    cases sending
  · rw [pendingOf_same same (by simp [receiving]) (by simp [free]), List.append_nil]
    by_cases sameE : e = d
    · simp [sameE, Message.patched, (pid_ne_interrupt q).symm]
    · simp [sameE]
  · split at member
    · obtain rfl := List.mem_singleton.mp member
      exact Or.inl rfl
    · cases member

end Effects

/-! ### What is observed of a step -/

theorem arrivals_done (rep : Represents s b) (rep' : Represents t b') {src : Source (Fin n)}
    (receiving : b.mail.wait d = .receiving src) (free : b'.mail.wait d = .ready) :
    arrivals s t d = [b'.mem (b.buffer d)] := by
  unfold arrivals
  rw [if_pos ⟨(recving_iff (rep.shows d)).mpr ⟨src, receiving⟩,
    (ready_iff (rep'.shows d)).mpr free⟩, rep'.mem, rep.buffer d]

theorem arrivals_none (rep : Represents s b) (rep' : Represents t b')
    (waits : ∀ src, b.mail.wait d = .receiving src → b'.mail.wait d ≠ .ready) :
    arrivals s t d = [] := by
  refine if_neg fun ⟨flag, free⟩ => ?_
  obtain ⟨src, receiving⟩ := (recving_iff (rep.shows d)).mp flag
  exact waits src receiving ((ready_iff (rep'.shows d)).mp free)

/-- Only the released receiver has an arrival. -/
theorem arrivals_released (rep : Represents s b) (rep' : Represents t b') {src : Source (Fin n)}
    (receiving : b.mail.wait d = .receiving src) (free : b'.mail.wait d = .ready)
    (others : ∀ q, q ≠ d → b'.mail.wait q = b.mail.wait q) (e : Fin n) :
    arrivals s t e = if e = d then [b'.mem (b.buffer d)] else [] := by
  split
  · rename_i same
    subst same
    exact arrivals_done rep rep' receiving free
  · rename_i other
    exact arrivals_none rep rep' fun src' waiting => by rw [others e other, waiting]; simp

/-- Nobody has an arrival if everyone who waits goes on waiting. -/
theorem arrivals_waiting (rep : Represents s b) (rep' : Represents t b')
    (ready : b.mail.wait x = .ready ∨ ∃ e, b.mail.wait x = .sending e)
    (others : ∀ q, q ≠ x → b'.mail.wait q = b.mail.wait q) (e : Fin n) : arrivals s t e = [] := by
  refine arrivals_none rep rep' fun src waiting => ?_
  by_cases same : e = x
  · subst same
    rcases ready with free | ⟨_, sending⟩
    · rw [free] at waiting
      cases waiting
    · rw [sending] at waiting
      cases waiting
  · rw [others e same, waiting]
    simp

/-! ### The order in which senders blocked -/

/-- The list holds the blocked senders, and orders the queues. -/
structure InOrder (b : Post n) (w : List (Fin n)) : Prop where
  queue : ∀ d, b.mail.queue d = w.filter fun q => b.mail.wait q = .sending d
  blocked : ∀ q ∈ w, ∃ d, b.mail.wait q = .sending d

theorem stillSending_filter (rep' : Represents t b') (w : List (Fin n)) (d : Fin n) :
    ((stillSending t w).filter fun q => b'.mail.wait q = .sending d) =
      w.filter fun q => b'.mail.wait q = .sending d := by
  unfold stillSending
  rw [List.filter_filter]
  refine List.filter_congr fun q _ => ?_
  by_cases sending : b'.mail.wait q = .sending d
  · have flag := (sending_iff (rep'.shows q)).mpr ⟨d, sending⟩
    simpa [sending] using flag
  · simp [sending]

theorem stillSending_blocked (rep' : Represents t b') (w : List (Fin n)) :
    ∀ q ∈ stillSending t w, ∃ d, b'.mail.wait q = .sending d := fun q member =>
  (sending_iff (rep'.shows q)).mp (by simpa using (List.mem_filter.mp member).2)

variable {w : List (Fin n)}

theorem InOrder.steady (order : InOrder b w) (rep' : Represents t b')
    (queue : b'.mail.queue = b.mail.queue)
    (same : ∀ q d, b'.mail.wait q = .sending d ↔ b.mail.wait q = .sending d) :
    InOrder b' (stillSending t w) where
  queue d := by
    rw [stillSending_filter rep', queue, order.queue d]
    exact List.filter_congr fun q _ => by simp [same q d]
  blocked := stillSending_blocked rep' w

/-- Whoever starts or stops receiving does not change the order. -/
theorem InOrder.of_put (order : InOrder b w) (rep' : Represents t b')
    (queue : b'.mail.queue = b.mail.queue) (others : ∀ q, q ≠ x → b'.mail.wait q = b.mail.wait q)
    (before : ∀ d, b.mail.wait x ≠ .sending d) (after : ∀ d, b'.mail.wait x ≠ .sending d) :
    InOrder b' (stillSending t w) := by
  refine order.steady rep' queue fun q d => ?_
  by_cases same : q = x
  · subst same
    exact iff_of_false (after d) (before d)
  · rw [others q same]

theorem InOrder.enqueue (order : InOrder b w) (ready : b.mail.wait p = .ready)
    (rep' : Represents t (b.enqueue p d a)) :
    InOrder (b.enqueue p d a) (stillSending t w ++ [p]) := by
  have sending : (b.enqueue p d a).mail.wait p = .sending d := Post.put_wait_self
  have fresh : ∀ q ∈ w, q ≠ p := by
    rintro q member rfl
    obtain ⟨e, blocked⟩ := order.blocked q member
    rw [ready] at blocked
    cases blocked
  refine ⟨fun e => ?_, fun q member => ?_⟩
  · have kept : (w.filter fun q => (b.enqueue p d a).mail.wait q = .sending e) = b.mail.queue e := by
      rw [order.queue e]
      refine List.filter_congr fun q member => ?_
      rw [show (b.enqueue p d a).mail.wait q = b.mail.wait q from
        Post.put_wait_of_ne q (fresh q member)]
    have queue : (b.enqueue p d a).mail.queue e =
        if e = d then b.mail.queue d ++ [p] else b.mail.queue e := Mail.requeue_queue _ _ _ _
    rw [List.filter_append, stillSending_filter rep', kept, queue]
    by_cases same : e = d
    · subst same
      simp [sending]
    · simp [sending, same, Ne.symm same]
  · rcases List.mem_append.mp member with old | new
    · exact stillSending_blocked rep' w q old
    · exact ⟨d, List.mem_singleton.mp new ▸ sending⟩

theorem InOrder.take {before after : List (Fin n)} (order : InOrder b w)
    (well : b.mail.WellFormed) (split : b.mail.queue d = before ++ x :: after)
    (rep' : Represents t (b.take d x a (before ++ after))) :
    InOrder (b.take d x a (before ++ after)) (stillSending t w) := by
  have nodup : (before ++ x :: after).Nodup := split ▸ well.nodup d
  have gone : x ∉ before ++ after := (List.nodup_middle.mp nodup).notMem
  have free : (b.take d x a (before ++ after)).mail.wait x = .ready := Post.put_wait_self
  have others : ∀ q, q ≠ x → (b.take d x a (before ++ after)).mail.wait q = b.mail.wait q :=
    Post.put_wait_of_ne
  have kept : ∀ e, (w.filter fun q => (b.take d x a (before ++ after)).mail.wait q = .sending e) =
      (b.mail.queue e).filter fun q => q ≠ x := by
    intro e
    rw [order.queue e, List.filter_filter]
    refine List.filter_congr fun q _ => ?_
    by_cases same : q = x
    · subst same
      simp [free]
    · simp [others q same, same]
  refine ⟨fun e => ?_, stillSending_blocked rep' w⟩
  rw [stillSending_filter rep', kept, Post.take, Mail.requeue_queue]
  by_cases same : e = d
  · subst same
    rw [if_pos rfl, split, List.filter_append, List.filter_cons_of_neg (by simp),
      ← List.filter_append]
    exact (List.filter_eq_self.mpr fun q member => by
      simpa using fun same : q = x => gone (same ▸ member)).symm
  · rw [if_neg same]
    refine (List.filter_eq_self.mpr fun q member => ?_).symm
    have sendingX : b.mail.wait x = .sending d := (well.mem x d).mp (by simp [split])
    have sendingQ := (well.mem q e).mp member
    have ne : q ≠ x := by
      rintro rfl
      rw [sendingX] at sendingQ
      exact same (Wait.sending.inj sendingQ).symm
    simpa using ne

/-! ### The ledger -/

/-- **The invariant of a history.** -/
structure Balanced (h : History n) (b : Post n) : Prop where
  rep : Represents h.kernel b
  well : b.mail.WellFormed
  distinct : Distinct b
  stamped : Stamped b
  balance : ∀ p d, h.sent p d = (h.received d).filter (fun m => m.source = pid p) ++ pendingOf b p d
  genuine : ∀ d, ∀ m ∈ h.received d, Genuine n m
  order : InOrder b h.waiting

variable {h h' : History n}

/-- A step that obeys the law keeps the ledger. -/
theorem Balanced.effect {sent : Fin n → Fin n → List Message} {received : Fin n → List Message}
    (balanced : Balanced h b) (rep : Represents h'.kernel b') (well : b'.mail.WellFormed)
    (effect : Effect b b' sent received) (order : InOrder b' h'.waiting)
    (sentMore : ∀ q e, h'.sent q e = h.sent q e ++ sent q e)
    (receivedMore : ∀ e, h'.received e = h.received e ++ received e) : Balanced h' b' where
  rep := rep
  well := well
  distinct := effect.distinct
  stamped := effect.stamped
  balance q e := by
    rw [sentMore, receivedMore, balanced.balance q e, List.filter_append, List.append_assoc,
      List.append_assoc, effect.conserves q e]
  genuine e m member := by
    rw [receivedMore] at member
    rcases List.mem_append.mp member with old | new
    · exact balanced.genuine e m old
    · exact effect.genuine e m new
  order := order

theorem Balanced.start (boot : Boot s) : Balanced (History.start s) s.idle where
  rep := boot.represents
  well := Mail.rest_wellFormed
  distinct _ _ stuck := absurd rfl stuck
  stamped _ _ sending := (nomatch sending)
  balance _ _ := rfl
  genuine _ _ member := absurd member List.not_mem_nil
  order := ⟨fun _ => rfl, fun _ member => absurd member List.not_mem_nil⟩

/-- A send keeps the ledger. -/
theorem Balanced.send (balanced : Balanced h b) (free : (h.kernel.proc p).flags = 0) (ne : p ≠ d)
    (vacant : Vacant b a) (rep : Represents t b') (send : (b.stamp p a).Send p d a b') :
    Balanced (h.send t p d a) b' := by
  have ready := (ready_iff (balanced.rep.shows p)).mp free
  obtain ⟨_, mailStep⟩ := send.move ready ne
  have well := mailStep.wellFormed balanced.well
  cases send with
  | @pass src receiving accepts =>
    have released : ((b.stamp p a).pass d a).mail.wait d = .ready := Post.put_wait_self
    have others : ∀ q, q ≠ d → ((b.stamp p a).pass d a).mail.wait q = b.mail.wait q :=
      Post.put_wait_of_ne
    have arrived := arrivals_released balanced.rep rep receiving released others
    have idle : (t.proc p).flags &&& msgSending = 0 := by
      rw [(ready_iff (rep.shows p)).mpr ((others p ne).trans ready)]
      rfl
    refine balanced.effect rep well
      (effect_pass balanced.distinct balanced.stamped ready vacant receiving) ?_
      (fun q e => by simp only [History.send, balanced.rep.mem]) fun e => ?_
    · simp only [History.send, idle, ne_eq, not_true_eq_false, if_false, List.append_nil]
      refine balanced.order.of_put rep rfl others (fun e sending => ?_) fun e sending => ?_
      · exact absurd (receiving.symm.trans sending) (by simp)
      · exact absurd (released.symm.trans sending) (by simp)
    · simp only [History.send, History.record, arrived e]
      congr 1
      split
      · refine congrArg (fun m => [m]) ?_
        exact (Function.update_self ..).trans (Function.update_self ..)
      · rfl
  | queue _ _ =>
    have sending : ((b.stamp p a).enqueue p d a).mail.wait p = .sending d := Post.put_wait_self
    have others : ∀ q, q ≠ p → ((b.stamp p a).enqueue p d a).mail.wait q = b.mail.wait q :=
      Post.put_wait_of_ne
    have arrived := arrivals_waiting balanced.rep rep (Or.inl ready) others
    have flag := (sending_iff (rep.shows p)).mpr ⟨d, sending⟩
    refine balanced.effect rep well
      (effect_enqueue balanced.distinct balanced.stamped ready vacant) ?_
      (fun q e => by simp only [History.send, balanced.rep.mem]) fun e => ?_
    · simp only [History.send, if_pos flag]
      exact InOrder.enqueue (b := b.stamp p a) ⟨balanced.order.queue, balanced.order.blocked⟩ ready
        rep
    · simp only [History.send, History.record, arrived e, List.append_nil]

/-- A receive keeps the ledger. -/
theorem Balanced.receive {src : Source (Fin n)} (balanced : Balanced h b)
    (free : (h.kernel.proc p).flags = 0) (vacant : Vacant b a) (rep : Represents t b')
    (recv : (b.stamp p a).Recv p src a b') : Balanced (h.receive t p a) b' := by
  have ready := (ready_iff (balanced.rep.shows p)).mp free
  obtain ⟨_, mailStep⟩ := recv.move ready
  have well := mailStep.wellFormed balanced.well
  have unsent : ∀ q e, (h.receive t p a).sent q e = h.sent q e ++ [] := fun q e =>
    (List.append_nil _).symm
  cases recv with
  | interrupt _ =>
    have arrived := arrivals_waiting balanced.rep rep (Or.inl ready) fun _ _ => rfl
    have still : (t.proc p).flags = 0 := (ready_iff (rep.shows p)).mpr ready
    have effect : Effect b ((b.stamp p a).takeInterrupt p a) (fun _ _ => [])
        (fun e => if e = p then [Message.interrupt] else []) := by
      have same : ∀ q, Untouched b ((b.stamp p a).takeInterrupt p a) q := fun q =>
        ⟨rfl, fun _ => rfl, fun stuck => (Function.update_of_ne (vacant q stuck) _ _).trans
          (Function.update_of_ne (vacant q stuck) _ _)⟩
      refine effect_of_untouched balanced.distinct balanced.stamped same fun e m member => ?_
      split at member
      · rw [List.mem_singleton.mp member]
        rfl
      · cases member
    refine balanced.effect rep well effect ?_ unsent fun e => ?_
    · exact balanced.order.steady rep rfl fun _ _ => Iff.rfl
    · simp only [History.receive, History.record, arrived e, List.append_nil, still, and_true]
      congr 1
      split
      · exact congrArg (fun m => [m]) ((congrFun rep.mem a).trans (Function.update_self ..))
      · rfl
  | @take sender before after _ split accepts _ =>
    have sending : b.mail.wait sender = .sending p := (balanced.well.mem sender p).mp
      ((show b.mail.queue p = before ++ sender :: after from split) ▸ by simp)
    have ne : p ≠ sender := fun same => by
      rw [same, sending] at ready
      cases ready
    have others : ∀ q, q ≠ sender →
        ((b.stamp p a).take p sender a (before ++ after)).mail.wait q = b.mail.wait q :=
      Post.put_wait_of_ne
    have arrived := arrivals_waiting balanced.rep rep (Or.inr ⟨p, sending⟩) others
    have still : (t.proc p).flags = 0 := (ready_iff (rep.shows p)).mpr ((others p ne).trans ready)
    have stuck : b.mail.wait sender ≠ .ready := by rw [sending]; simp
    refine balanced.effect rep well
      (effect_take balanced.distinct balanced.stamped vacant sending) ?_ unsent fun e => ?_
    · exact InOrder.take (b := b.stamp p a) ⟨balanced.order.queue, balanced.order.blocked⟩
        balanced.well split rep
    · simp only [History.receive, History.record, arrived e, List.append_nil, still, and_true]
      congr 1
      split
      · refine congrArg (fun m => [m]) ((congrFun rep.mem a).trans ?_)
        exact (Function.update_self ..).trans (Function.update_of_ne (vacant sender stuck) _ _)
      · rfl
  | await _ _ =>
    have receiving : ((b.stamp p a).await p src a).mail.wait p = .receiving src :=
      Post.put_wait_self
    have others : ∀ q, q ≠ p → ((b.stamp p a).await p src a).mail.wait q = b.mail.wait q :=
      Post.put_wait_of_ne
    have arrived := arrivals_waiting balanced.rep rep (Or.inl ready) others
    have still : (t.proc p).flags ≠ 0 := fun free => by
      have free' := (ready_iff (rep.shows p)).mp free
      rw [receiving] at free'
      cases free'
    refine balanced.effect rep well (effect_await balanced.distinct balanced.stamped ready vacant)
      ?_ unsent fun e => ?_
    · refine balanced.order.of_put rep rfl others (fun e sending => ?_) fun e sending => ?_
      · exact absurd (ready.symm.trans sending) (by simp)
      · exact absurd (receiving.symm.trans sending) (by simp)
    · simp only [History.receive, History.record, arrived e, List.append_nil, still, and_false,
        if_false]

/-- A step that is neither a send nor a receive keeps the ledger. -/
theorem Balanced.deliver (balanced : Balanced h b) (rep : Represents t b')
    (deliver : b.Deliver d b') : Balanced (h.record t) b' := by
  obtain ⟨_, mailStep⟩ := deliver.move
  have well := mailStep.wellFormed balanced.well
  have unsent : ∀ q e, (h.record t).sent q e = h.sent q e ++ [] := fun q e =>
    (List.append_nil _).symm
  cases deliver with
  | @wake src receiving _ =>
    have released : (b.wake d).mail.wait d = .ready := Post.put_wait_self
    have others : ∀ q, q ≠ d → (b.wake d).mail.wait q = b.mail.wait q := Post.put_wait_of_ne
    have arrived := arrivals_released balanced.rep rep receiving released others
    refine balanced.effect rep well (effect_wake balanced.distinct balanced.stamped receiving) ?_
      unsent fun e => ?_
    · refine balanced.order.of_put rep rfl others (fun e sending => ?_) fun e sending => ?_
      · exact absurd (receiving.symm.trans sending) (by simp)
      · exact absurd (released.symm.trans sending) (by simp)
    · simp only [History.record, arrived e]
      congr 1
      split
      · exact congrArg (fun m => [m]) (Function.update_self ..)
      · rfl
  | signal _ =>
    have arrived : ∀ e, arrivals h.kernel t e = [] := fun e => arrivals_none balanced.rep rep
      fun src waiting => waiting.trans_ne (by simp)
    have same : ∀ q, Untouched b (b.signal d) q := fun q => ⟨rfl, fun _ => rfl, fun _ => rfl⟩
    have effect : Effect b (b.signal d) (fun _ _ => []) (fun _ => []) :=
      effect_of_untouched balanced.distinct balanced.stamped same fun e m member => by cases member
    refine balanced.effect rep well effect ?_ unsent fun e => ?_
    · exact balanced.order.steady rep rfl fun _ _ => Iff.rfl
    · simp only [History.record, arrived e]

/-- So does a step that only changes memory away from the buffers of blocked processes. -/
theorem Balanced.quiet (balanced : Balanced h b) (rep : Represents t b')
    (mail : b'.mail = b.mail) (buffer : b'.buffer = b.buffer)
    (mem : ∀ q, b.mail.wait q ≠ .ready → b'.mem (b.buffer q) = b.mem (b.buffer q)) :
    Balanced (h.record t) b' := by
  have arrived : ∀ e, arrivals h.kernel t e = [] := fun e => arrivals_none balanced.rep rep
    fun src waiting => by rw [mail, waiting]; simp
  have same : ∀ q, Untouched b b' q := fun q => ⟨by rw [mail], fun _ => by rw [buffer], mem q⟩
  have effect : Effect b b' (fun _ _ => []) (fun _ => []) :=
    effect_of_untouched balanced.distinct balanced.stamped same fun e m member => by cases member
  refine balanced.effect rep (mail ▸ balanced.well) effect ?_
    (fun q e => (List.append_nil _).symm) fun e => ?_
  · exact balanced.order.steady rep (by rw [mail]) fun q d => by rw [mail]
  · simp only [History.record, arrived e]

/-- **The step lemma.** -/
theorem Balanced.step (balanced : Balanced h b) (step : HistoryStep h h') :
    ∃ b', Balanced h' b' := by
  cases step with
  | @send outside p d msg t free ne _ vacant returned =>
    have ready := (ready_iff (balanced.rep.shows p)).mp free
    have quiet : (Call.send d).AsksInterrupt → b.pending p = false → Quiet outside p := False.elim
    obtain ⟨_, b', does, rep, _⟩ :=
      sysSendRecv_value balanced.rep balanced.well ready quiet returned
    exact ⟨b', balanced.send free ne (balanced.rep.vacant vacant) rep does⟩
  | @receive outside p src msg t free _ _ vacant quiet returned =>
    have ready := (ready_iff (balanced.rep.shows p)).mp free
    have quiet' : (Call.receive src).AsksInterrupt → b.pending p = false → Quiet outside p :=
      balanced.rep.pending p ▸ quiet
    obtain ⟨_, b', does, rep, _⟩ :=
      sysSendRecv_value balanced.rep balanced.well ready quiet' returned
    exact ⟨b', balanced.receive free (balanced.rep.vacant vacant) rep does⟩
  | deliver returned =>
    obtain ⟨b', deliver, rep, _⟩ := deliverIntToProc_value balanced.rep returned
    exact ⟨b', balanced.deliver rep deliver⟩
  | @tick t returned =>
    have spec : (clockIntHandler h.kernel).Sat (fun _ => True) _ _ :=
      clockIntHandler_sat balanced.rep
    exact ⟨b, balanced.quiet (spec.value t returned).1 rfl rfl fun _ _ => rfl⟩
  | @write addr m vacant =>
    exact ⟨_, balanced.quiet (balanced.rep.store addr m) rfl rfl fun q stuck =>
      Function.update_of_ne (balanced.rep.vacant vacant q stuck) _ _⟩
  | @sendBlocks outside p d msg t free _ vacant blocks =>
    have ready := (ready_iff (balanced.rep.shows p)).mp free
    have quiet : (Call.send d).AsksInterrupt → b.pending p = false → Quiet outside p := False.elim
    obtain ⟨_, b', does, rep, _⟩ := blocks.value balanced.rep balanced.well ready quiet
    exact ⟨b', balanced.send free blocks.1 (balanced.rep.vacant vacant) rep does⟩
  | @receiveBlocks outside p src msg t free _ vacant quiet blocks =>
    have ready := (ready_iff (balanced.rep.shows p)).mp free
    have quiet' : (Call.receive src).AsksInterrupt → b.pending p = false → Quiet outside p :=
      balanced.rep.pending p ▸ quiet
    obtain ⟨_, b', does, rep, _⟩ := blocks.value balanced.rep balanced.well ready quiet'
    exact ⟨b', balanced.receive free (balanced.rep.vacant vacant) rep does⟩
  | looks looks =>
    exact ⟨b, balanced.quiet (balanced.rep.rescheduled looks.rescheduled) rfl rfl fun _ _ => rfl⟩

/-- **The run lemma.** -/
theorem historyRun_balanced (boot : Boot s) (run : HistoryRun (.start s) h) :
    ∃ b, Balanced h b := by
  induction run with
  | refl => exact ⟨s.idle, .start boot⟩
  | tail _ step ih =>
    obtain ⟨b, balanced⟩ := ih
    exact balanced.step step

theorem Balanced.queue_eq (balanced : Balanced h b) (d : Fin n) :
    (h.waiting.filter fun q => SendsTo h.kernel q d) = b.mail.queue d := by
  rw [balanced.order.queue d]
  exact List.filter_congr fun q _ => by simp [balanced.rep.sendsTo_iff q d]

/-- **Exactly once, in order, unforged.** In every history: the messages `p` sent to `d` are those
`d` received from `p`, followed by the one still pending when `p` is blocked sending to `d`; whatever
is received comes from a process or an interrupt; and a receive of `d` from anyone, with no
interrupt pending, takes the message of the sender to `d` that blocked first, or blocks if there is
none. -/
theorem exactly_once {s₀ : Kernel n} (boot : Boot s₀) (run : HistoryRun (.start s₀) h) :
    (∀ p d, h.sent p d = (h.received d).filter (fun m => m.source = pid p) ++
        if SendsTo h.kernel p d then [h.kernel.mem (h.kernel.proc p).msg] else []) ∧
      (∀ d, ∀ m ∈ h.received d, m.source = msgSourceInterrupt ∨ ∃ p : Fin n, m.source = pid p) ∧
      ∀ (outside : Int → Process n) (d : Fin n) (msg : Addr) (t : Kernel n),
        (h.kernel.proc d).flags = 0 → (h.kernel.proc d).haveIntMsg = false → Free h.kernel msg →
        (sysSendRecv outside funcReceive (pAny n) msg d h.kernel).outcome = .ok t →
        match h.waiting.filter fun q => SendsTo h.kernel q d with
        | [] => (t.proc d).flags &&& msgRecving ≠ 0
        | q :: _ => (t.proc q).flags = 0 ∧ t.mem msg = h.kernel.mem (h.kernel.proc q).msg := by
  obtain ⟨b, balanced⟩ := historyRun_balanced boot run
  have rep := balanced.rep
  refine ⟨fun p d => ?_, balanced.genuine, fun outside d msg t free nothing vacant returned => ?_⟩
  · rw [balanced.balance p d, pendingOf, rep.mem, rep.buffer p]
    simp only [rep.sendsTo_iff p d]
  · have ready := (ready_iff (rep.shows d)).mp free
    have empty := rep.vacant vacant
    have quiet : (Call.receive (n := n) .any).AsksInterrupt → b.pending d = false →
        Quiet outside d := fun asks => (nomatch asks)
    obtain ⟨_, b', does, rep', _⟩ :=
      sysSendRecv_value rep balanced.well ready quiet returned
    rw [balanced.queue_eq d]
    cases does with
    | interrupt answers =>
      have pending : b.pending d = true := answers.1
      rw [← rep.pending d, nothing] at pending
      cases pending
    | @take q before after _ split _ first =>
      have queue : b.mail.queue d = before ++ q :: after := split
      rw [first rfl] at queue
      have stuck : b.mail.wait q ≠ .ready := by
        rw [(balanced.well.mem q d).mp (by simp [queue])]
        simp
      rw [queue]
      refine ⟨(ready_iff (rep'.shows q)).mpr Post.put_wait_self, ?_⟩
      rw [rep'.mem, rep.mem, rep.buffer q]
      exact (Function.update_self ..).trans (Function.update_of_ne (empty q stuck) _ _)
    | await _ nobody =>
      have queue : b.mail.queue d = [] :=
        List.eq_nil_iff_forall_not_mem.mpr fun q member => nobody q member trivial
      rw [queue]
      exact (recving_iff (rep'.shows d)).mpr ⟨.any, Post.put_wait_self⟩

/-- `FS_TASK` asks `HDD_TASK` for something. -/
def fsAsked : Kernel totalTaskCnt :=
  (sysSendRecv nowhere funcSend (pid hddTask) 0x1000 fsTask bootKernel).getD bootKernel

/-- `HDD_TASK` then receives from anyone. -/
def hddGot : Kernel totalTaskCnt :=
  (sysSendRecv nowhere funcReceive (sourceCode (Source.any : Source (Fin totalTaskCnt))) 0x2000
    hddTask fsAsked).getD fsAsked

/-- The history of the two calls. -/
def askedAndGot : History totalTaskCnt :=
  ((History.start bootKernel).send fsAsked fsTask hddTask 0x1000).receive hddGot hddTask 0x2000

set_option maxRecDepth 10000 in
theorem askedAndGot_run : HistoryRun (.start bootKernel) askedAndGot := by
  have first : HistoryStep (.start bootKernel)
      ((History.start bootKernel).send fsAsked fsTask hddTask 0x1000) :=
    .send rfl (by decide) (by decide) (fun q stuck => absurd rfl stuck)
      (Traced.outcome_getD (by decide) bootKernel)
  have other : (Source.any : Source (Fin totalTaskCnt)) ≠ .only hddTask := by simp
  have free : ∀ q : Fin totalTaskCnt, (fsAsked.proc q).flags ≠ 0 →
      (fsAsked.proc q).msg ≠ 0x2000 := by decide
  have quiet : (Source.any : Source (Fin totalTaskCnt)) = .interrupt →
      (fsAsked.proc hddTask).haveIntMsg = false → Quiet nowhere hddTask := fun same => (nomatch same)
  exact (Relation.ReflTransGen.single first).tail
    (.receive (by decide) other (by decide) free quiet (Traced.outcome_getD (by decide) fsAsked))

theorem exactly_once_request :
    askedAndGot.sent fsTask hddTask =
      (askedAndGot.received hddTask).filter (fun m => m.source = pid fsTask) ++
        if SendsTo askedAndGot.kernel fsTask hddTask then
          [askedAndGot.kernel.mem (askedAndGot.kernel.proc fsTask).msg] else [] :=
  (exactly_once bootKernel_boot askedAndGot_run).1 fsTask hddTask

end WalOS
