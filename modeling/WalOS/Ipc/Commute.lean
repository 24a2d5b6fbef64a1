/-
**Two sends in either order.**

The sends of `p` to `d` and of `q` to `e` meet in the graph of blocked senders only: each may add an
edge that the other's `dead_lock` follows.

* `Post.Send.reaches` — who waits for whom after a send; `Post.send_comm` — both orders make the same of
  the message state, if the messages and the buffers that are waited with are apart.
* `msgSend_dead`, `msgSend_peers`, `msgSend_cases` — what one send does to the table, with its peers.
* `sends_cases` — two sends one after the other; `sends_commute` — **in either order they leave the
  same, report a deadlock, or leave nobody to be scheduled**.
* `order_shows` — with a shared buffer the order shows.
-/

import WalOS.Ipc.SysCall
import WalOS.Lib.Block

namespace WalOS

open Rendezvous Linked

variable {n : ℕ} {outside : Int → Process n} {s s₀ t u : Kernel n} {p d q e : Fin n} {a a' : Addr}

attribute [ext] Post

namespace Post

variable {b b₁ b₂ c₁ c₂ : Post n}

/-! ### Sends on the message state -/

/-- `d` waits for a message of `p`. -/
def Accepting (b : Post n) (d p : Fin n) : Prop :=
  ∃ src, b.mail.wait d = .receiving src ∧ src.Accepts p

theorem Send.eq_pass (send : b.Send p d a b₁) (accepting : b.Accepting d p) : b₁ = b.pass d a := by
  obtain ⟨src, receiving, accepts⟩ := accepting
  cases send with
  | pass _ _ => rfl
  | queue refuses _ => exact absurd accepts (refuses src receiving)

theorem Send.eq_enqueue (send : b.Send p d a b₁) (busy : ¬ b.Accepting d p) :
    b₁ = b.enqueue p d a := by
  cases send with
  | pass receiving accepts => exact absurd ⟨_, receiving, accepts⟩ busy
  | queue _ _ => rfl

theorem ready_not_accepting (ready : b.mail.wait d = .ready) : ¬ b.Accepting d p := by
  rintro ⟨src, receiving, _⟩
  rw [ready] at receiving
  cases receiving

theorem Accepting.not_ready (accepting : b.Accepting d p) : b.mail.wait d ≠ .ready :=
  fun ready => ready_not_accepting ready accepting

/-- Whoever is ready stays so while others send. -/
theorem Send.ready (send : b.Send p d a b₁) (ready : b.mail.wait q = .ready) (other : q ≠ p) :
    b₁.mail.wait q = .ready := by
  cases send with
  | pass _ _ =>
    rw [Post.pass, Mail.put_wait, ready, ite_self]
  | queue _ _ => rw [Post.enqueue, Mail.requeue_wait, Mail.put_wait, if_neg other, ready]

/-- A send elsewhere does not decide how a message is sent. -/
theorem Send.accepting (send : b.Send p d a b₁) (ready : b.mail.wait p = .ready) (other : e ≠ d) :
    b₁.Accepting e q ↔ b.Accepting e q := by
  cases send with
  | pass _ _ =>
    unfold Accepting
    rw [Post.pass, put_wait_of_ne e other]
  | queue _ _ =>
    by_cases same : e = p
    · refine iff_of_false ?_ (same ▸ ready_not_accepting ready)
      rintro ⟨src, receiving, _⟩
      rw [Post.enqueue, Mail.requeue_wait, same, put_wait_self] at receiving
      cases receiving
    · unfold Accepting
      rw [Post.enqueue, Mail.requeue_wait, put_wait_of_ne e same]

/-- Whoever receives waits for no sender. -/
theorem not_reaches_of_receiving {src : Source (Fin n)} (receiving : b.mail.wait d = .receiving src)
    (ready : b.mail.wait q = .ready) : ¬ b.Reaches d q := by
  intro reach
  rcases Relation.ReflTransGen.cases_head reach with same | ⟨x, edge, _⟩
  · rw [same, ready] at receiving
    cases receiving
  · rw [Mail.Edge, receiving] at edge
    cases edge

/-- **Who waits for whom after a send**: through the new edge, if there is one. -/
theorem Send.reaches (send : b.Send p d a b₁) (readyP : b.mail.wait p = .ready)
    (ready : b.mail.wait q = .ready) :
    b₁.Reaches e q ↔ b.Reaches e q ∨ (b.Reaches e p ∧ b.Reaches d q) := by
  cases send with
  | @pass src receiving _ =>
    have edges : (b.pass d a).mail.Edge = b.mail.Edge := by
      funext x y
      unfold Mail.Edge
      by_cases same : x = d
      · rw [Post.pass, same, put_wait_self, receiving]
        simp
      · rw [Post.pass, put_wait_of_ne x same]
    unfold Reaches
    rw [edges, or_iff_left fun both => not_reaches_of_receiving receiving ready both.2]
  | queue _ _ =>
    have added : ∀ x y, (b.enqueue p d a).mail.Edge x y ↔ b.mail.Edge x y ∨ (x = p ∧ y = d) := by
      intro x y
      unfold Mail.Edge
      by_cases same : x = p
      · rw [Post.enqueue, Mail.requeue_wait, same, put_wait_self, readyP]
        simp [eq_comm]
      · rw [Post.enqueue, Mail.requeue_wait, put_wait_of_ne x same]
        simp [same]
    exact Follow.reach_insert_iff added

theorem put_comm {m : Mail (Fin n)} {w w' : Wait (Fin n)} (other : p ≠ q) :
    (m.put p w).put q w' = (m.put q w').put p w := by
  unfold Mail.put
  rw [Function.update_comm other]

theorem requeue_comm {m : Mail (Fin n)} {l l' : List (Fin n)} (other : d ≠ e) :
    (m.requeue d l).requeue e l' = (m.requeue e l').requeue d l := by
  unfold Mail.requeue
  rw [Function.update_comm other]

/-- A message that goes straight, and one that is queued. -/
theorem pass_enqueue (readyQ : b.mail.wait q = .ready) (receiving : b.mail.wait d ≠ .ready) :
    (b.pass d a).enqueue q e a' = (b.enqueue q e a').pass d a := by
  have other : d ≠ q := by
    rintro rfl
    exact receiving readyQ
  have mail : ((b.pass d a).enqueue q e a').mail = ((b.enqueue q e a').pass d a).mail :=
    congrArg (fun m : Mail (Fin n) => m.requeue e (b.mail.queue e ++ [q])) (put_comm other)
  have buffer : ((b.pass d a).enqueue q e a').buffer = ((b.enqueue q e a').pass d a).buffer :=
    Function.update_comm other _ _ _
  have mem : ((b.pass d a).enqueue q e a').mem = ((b.enqueue q e a').pass d a).mem := by
    show Function.update b.mem (b.buffer d) (b.mem a) =
      Function.update b.mem (Function.update b.buffer q a' d) (b.mem a)
    rw [Function.update_of_ne other]
  exact Post.ext mail buffer mem rfl

/-- Two messages that go straight. -/
theorem pass_pass (dests : d ≠ e) (message : a ≠ b.buffer e) (message' : a' ≠ b.buffer d)
    (buffers : b.buffer d ≠ b.buffer e) : (b.pass d a).pass e a' = (b.pass e a').pass d a := by
  refine Post.ext (put_comm dests) (Function.update_comm dests _ _ _) ?_ rfl
  show Function.update (Function.update b.mem (b.buffer d) (b.mem a))
      (Function.update b.buffer d null e) (Function.update b.mem (b.buffer d) (b.mem a) a') =
    Function.update (Function.update b.mem (b.buffer e) (b.mem a'))
      (Function.update b.buffer e null d) (Function.update b.mem (b.buffer e) (b.mem a') a)
  rw [Function.update_of_ne dests.symm, Function.update_of_ne dests,
    Function.update_of_ne message', Function.update_of_ne message, Function.update_comm buffers]

/-- Two messages that are queued. -/
theorem enqueue_enqueue (ne : p ≠ q) (dests : d ≠ e) :
    (b.enqueue p d a).enqueue q e a' = (b.enqueue q e a').enqueue p d a := by
  refine Post.ext ?_ (Function.update_comm ne _ _ _) rfl rfl
  have queueE : (b.enqueue p d a).mail.queue e = b.mail.queue e :=
    Function.update_of_ne dests.symm _ _
  have queueD : (b.enqueue q e a').mail.queue d = b.mail.queue d :=
    Function.update_of_ne dests _ _
  show ((b.enqueue p d a).mail.put q (.sending e)).requeue e
      ((b.enqueue p d a).mail.queue e ++ [q]) =
    ((b.enqueue q e a').mail.put p (.sending d)).requeue d
      ((b.enqueue q e a').mail.queue d ++ [p])
  rw [queueE, queueD]
  have waits : (b.mail.put p (.sending d)).put q (.sending e) =
      (b.mail.put q (.sending e)).put p (.sending d) := put_comm ne
  have queues : (((b.mail.put p (.sending d)).put q (.sending e)).requeue d
        (b.mail.queue d ++ [p])).requeue e (b.mail.queue e ++ [q]) =
      (((b.mail.put p (.sending d)).put q (.sending e)).requeue e
        (b.mail.queue e ++ [q])).requeue d (b.mail.queue d ++ [p]) := requeue_comm dests
  exact queues.trans (congrArg (fun m : Mail (Fin n) =>
    (m.requeue e (b.mail.queue e ++ [q])).requeue d (b.mail.queue d ++ [p])) waits)

/-- **Two sends make the same of the message state in either order**, when two messages that go
straight are apart from the buffers they go to, and these from each other. -/
theorem send_comm (readyP : b.mail.wait p = .ready) (readyQ : b.mail.wait q = .ready) (ne : p ≠ q)
    (dests : d ≠ e)
    (apart : b.Accepting d p → b.Accepting e q →
      a ≠ b.buffer e ∧ a' ≠ b.buffer d ∧ b.buffer d ≠ b.buffer e)
    (first : b.Send p d a b₁) (second : b₁.Send q e a' b₂) (first' : b.Send q e a' c₁)
    (second' : c₁.Send p d a c₂) : b₂ = c₂ := by
  have acceptingQ := first.accepting (q := q) readyP dests.symm
  have acceptingP := first'.accepting (q := p) readyQ dests
  by_cases passP : b.Accepting d p
  · obtain rfl := first.eq_pass passP
    obtain rfl := second'.eq_pass (acceptingP.mpr passP)
    by_cases passQ : b.Accepting e q
    · obtain rfl := second.eq_pass (acceptingQ.mpr passQ)
      obtain rfl := first'.eq_pass passQ
      obtain ⟨message, message', buffers⟩ := apart passP passQ
      exact pass_pass dests message message' buffers
    · obtain rfl := second.eq_enqueue (mt acceptingQ.mp passQ)
      obtain rfl := first'.eq_enqueue passQ
      exact pass_enqueue readyQ passP.not_ready
  · obtain rfl := first.eq_enqueue passP
    obtain rfl := second'.eq_enqueue (mt acceptingP.mp passP)
    by_cases passQ : b.Accepting e q
    · obtain rfl := second.eq_pass (acceptingQ.mpr passQ)
      obtain rfl := first'.eq_pass passQ
      exact (pass_enqueue readyP passQ.not_ready).symm
    · obtain rfl := second.eq_enqueue (mt acceptingQ.mp passQ)
      obtain rfl := first'.eq_enqueue passQ
      exact enqueue_enqueue ne dests

end Post

/-! ### One send -/

variable {b b' : Post n}

/-- The peers of the processes. -/
def Kernel.sendTos (s : Kernel n) (q : Fin n) : Int := (s.proc q).sendTo
def Kernel.recvFroms (s : Kernel n) (q : Fin n) : Int := (s.proc q).recvFrom

/-- **What a send of `p` to `d` makes of the peers**; and if `p` blocks, somebody runs. -/
structure Peers (b : Post n) (p d : Fin n) (s t : Kernel n) : Prop where
  passSend : b.Accepting d p → t.sendTos = s.sendTos
  passRecv : b.Accepting d p → t.recvFroms = Function.update s.recvFroms d (pNoTask n)
  queueSend : ¬ b.Accepting d p → t.sendTos = Function.update s.sendTos p (pid d)
  queueRecv : ¬ b.Accepting d p → t.recvFroms = s.recvFroms
  runs : ¬ b.Accepting d p → (t.proc t.processReady).flags = 0

/-- The test of `msg_send` on the receiver. -/
theorem Represents.waiting_iff (rep : Represents s b) (d p : Fin n) :
    ((s.proc d).flags &&& msgRecving ≠ 0 ∧
      ((s.proc d).recvFrom = (s.proc p).id ∨ (s.proc d).recvFrom = pAny n)) ↔ b.Accepting d p := by
  have entry := rep.shows d
  rw [rep.id, recving_iff entry]
  constructor
  · rintro ⟨⟨src, receiving⟩, peer⟩
    rw [receiving] at entry
    rw [entry.2] at peer
    exact ⟨src, receiving, (accepts_iff src p).mp peer⟩
  · rintro ⟨src, receiving, accepts⟩
    rw [receiving] at entry
    rw [entry.2]
    exact ⟨⟨src, receiving⟩, (accepts_iff src p).mpr accepts⟩

/-- The peers after a message that went straight. -/
theorem peers_pass (accepting : b.Accepting d p) {w : Kernel n} {f : Process n → Process n}
    (sent : ∀ e, (f e).sendTo = e.sendTo) (got : ∀ e, (f e).recvFrom = pNoTask n)
    (kept : w.proc = s.proc) : Peers b p d s (w.modify d f) := by
  refine ⟨fun _ => ?_, fun _ => ?_, fun other => absurd accepting other,
    fun other => absurd accepting other, fun other => absurd accepting other⟩
  · funext r
    rw [Kernel.sendTos, modify_proc, kept]
    split
    · subst r
      exact sent _
    · rfl
  · funext r
    rw [Kernel.recvFroms, modify_proc, kept, Function.update_apply]
    split
    · subst r
      exact got _
    · rfl

theorem msgSend_peers (outside : Int → Process n) (a : Addr) (rep : Represents s b)
    (well : b.mail.WellFormed) (ready : b.mail.wait p = .ready) (ne : p ≠ d) :
    (msgSend outside p (pid d) a s).Sat (fun _ => True) (Peers b p d s)
      fun reason => reason = .forever → ¬ b.Accepting d p := by
  have id := rep.id p
  have asserts : ∀ {condition : Prop} {site : Assertion}, condition → Stop.assertFail site = .forever →
      ¬ b.Accepting d p := fun _ same => by cases same
  unfold msgSend
  refine Traced.Sat.check_bind asserts fun _ => ?_
  rw [id]
  refine (deadLock_sat rep well ne (Nat.le_succ n) ready (fun _ => trivial) asserts).bind
    fun _ _ => ?_
  refine (procPtr_sat trivial).bind fun dest same => ?_
  subst same
  refine Traced.Sat.check_bind (fun _ same => by cases same) fun _ => ?_
  rw [← id]
  refine Traced.Sat.ite (fun waiting => ?_) fun busy => ?_
  · refine Traced.Sat.check_bind asserts fun _ => ?_
    refine Traced.Sat.check_bind asserts fun _ => ?_
    refine (virToLinear_sat trivial asserts).bind fun target _ => ?_
    rw [id]
    refine (virToLinear_sat trivial asserts).bind fun source _ => ?_
    refine Traced.Sat.check_bind asserts fun _ => Traced.Sat.pure ?_
    exact peers_pass ((rep.waiting_iff dest p).mp waiting) (fun _ => rfl) (fun _ => rfl) rfl
  · have refuses : ¬ b.Accepting dest p := fun accepting => busy ((rep.waiting_iff dest p).mpr accepting)
    refine (enqueue_sat rep well ready).bind fun u queued => ?_
    refine Traced.Sat.check_bind asserts fun _ => ?_
    refine (processSchedule_sat _ _ _).mono (fun _ inside => inside) (fun t found => ?_)
      fun _ _ _ => refuses
    obtain ⟨moved, runs, _⟩ := found
    refine ⟨fun other => absurd other refuses, fun other => absurd other refuses, fun _ => ?_,
      fun _ => ?_, fun _ => runs⟩
    · funext r
      rw [Kernel.sendTos, moved.proc r, queued.1.proc r]
      simp [Kernel.sendTos, Function.update_apply]
    · funext r
      rw [Kernel.recvFroms, moved.proc r, queued.1.proc r]
      simp [Kernel.recvFroms]

/-- **A send that would close a cycle is reported.** -/
theorem msgSend_dead (rep : Represents s b) (well : b.mail.WellFormed) (buffered : ¬ NullBuffer b)
    (ready : b.mail.wait p = .ready) (ne : p ≠ d) (reach : b.Reaches d p) :
    (msgSend outside p (pid d) a s).outcome = .error (.deadLock (pid p) (pid d)) := by
  have spec : (msgSend outside p (pid d) a s).Sat (fun _ => True) (fun _ => False)
      (· = .deadLock (pid p) (pid d)) := by
    unfold msgSend
    simp only [rep.id]
    refine Traced.Sat.check_bind (fun same => absurd (pid_inj.mp (not_not.mp same)) ne) fun _ => ?_
    refine (deadLock_sat rep well ne (Nat.le_succ n) ready (fun _ => trivial)
      fun isNull => absurd isNull buffered).bind fun dead verdict => ?_
    refine (procPtr_sat trivial).bind fun dest _ => ?_
    refine Traced.Sat.check_bind (fun _ => rfl) fun alive => ?_
    rw [verdict.mpr reach] at alive
    cases alive
  cases found : (msgSend outside p (pid d) a s).outcome with
  | ok t => exact (spec.value t found).elim
  | error reason => exact congrArg Except.error (spec.stopped reason found)

/-- **One send**: it is reported, it leaves nobody to be scheduled, or it returns. -/
theorem msgSend_cases (outside : Int → Process n) (reached : SysReached (· ≠ null) s b)
    (priority : ∀ r, 0 < (s.proc r).priority) (ready : b.mail.wait p = .ready) (ne : p ≠ d)
    (good : a ≠ null) :
    (b.Reaches d p ∧
      (msgSend outside p (pid d) a s).outcome = .error (.deadLock (pid p) (pid d))) ∨
    (¬ b.Reaches d p ∧ ¬ b.Accepting d p ∧ (∀ r, r ≠ p → b.mail.wait r ≠ .ready) ∧
      (msgSend outside p (pid d) a s).outcome = .error .forever) ∨
    (¬ b.Reaches d p ∧ ∃ t b₁, (msgSend outside p (pid d) a s).outcome = .ok t ∧ b.Send p d a b₁ ∧
      SysReached (· ≠ null) t b₁ ∧ (∀ r, 0 < (t.proc r).priority) ∧ Peers b p d s t) := by
  have rep := reached.rep
  have buffered : ¬ NullBuffer b := fun ⟨q, blocked, isNull⟩ => reached.buffered q blocked isNull
  by_cases reach : b.Reaches d p
  · exact .inl ⟨reach, msgSend_dead rep reached.well buffered ready ne reach⟩
  have peers := msgSend_peers outside a rep reached.well ready ne
  have spec : (msgSend outside p (pid d) a s).Sat (fun _ => True) _ _ :=
    msgSend_sat rep reached.well ready ne fun _ => trivial
  cases found : (msgSend outside p (pid d) a s).outcome with
  | ok t =>
    obtain ⟨b₁, send, rep', kept⟩ := spec.value t found
    obtain ⟨_, move⟩ := send.move ready ne
    refine .inr (.inr ⟨reach, t, b₁, rfl, send, ⟨⟨rep', move.wellFormed reached.well,
      Post.Step.buffered (.send ready ne good send) reached.buffered⟩, fun r => ?_, ?_⟩, fun r => ?_,
      peers.value t found⟩)
    · exact (kept.segBase r).trans (reached.segBase r)
    · exact kept.intReenter.trans reached.intReenter
    · rw [kept.priority r]
      exact priority r
  | error reason =>
    cases spec.stopped reason found with
    | deadLock reach' => exact absurd reach' reach
    | segment moved =>
      obtain ⟨q, moved⟩ := moved
      exact absurd (reached.segBase q) moved
    | buffer isNull => exact absurd isNull (not_or.mpr ⟨good, buffered⟩)
    | starved starved =>
      refine .inr (.inl ⟨reach, peers.stopped _ found rfl, fun r other free => ?_, rfl⟩)
      exact absurd (starved r other free).2 (not_le.mpr (priority r))

/-! ### Two sends -/

/-- One of the two sends closes a cycle, alone or with the other. -/
def Dead (b : Post n) (p d q e : Fin n) : Prop :=
  b.Reaches d p ∨ b.Reaches e q ∨ (b.Reaches e p ∧ b.Reaches d q)

/-- Both senders block, and nobody else is ready. -/
def Stuck (b : Post n) (p d q e : Fin n) : Prop :=
  ¬ b.Accepting d p ∧ ¬ b.Accepting e q ∧ ∀ r, r ≠ p → r ≠ q → b.mail.wait r ≠ .ready

theorem dead_comm : Dead b p d q e ↔ Dead b q e p d := by
  unfold Dead
  rw [or_left_comm, and_comm (a := b.Reaches e p)]

theorem stuck_comm : Stuck b p d q e ↔ Stuck b q e p d := by
  unfold Stuck
  constructor <;> exact fun ⟨first, second, others⟩ => ⟨second, first, fun r notFirst notSecond =>
    others r notSecond notFirst⟩

/-- After both have blocked nobody is ready. -/
theorem Stuck.none_ready {b₁ b₂ : Post n} (stuck : Stuck b p d q e) (ready : b.mail.wait p = .ready)
    (dests : d ≠ e) (first : b.Send p d a b₁) (second : b₁.Send q e a' b₂) (r : Fin n) :
    b₂.mail.wait r ≠ .ready := by
  obtain ⟨busyP, busyQ, others⟩ := stuck
  have acceptingQ := first.accepting (q := q) ready dests.symm
  obtain rfl := first.eq_enqueue busyP
  obtain rfl := second.eq_enqueue fun accepting => busyQ (acceptingQ.mp accepting)
  rw [Post.enqueue, Mail.requeue_wait, Mail.put_wait, Post.enqueue, Mail.requeue_wait, Mail.put_wait]
  split
  · simp
  · split
    · simp
    · exact others r ‹_› ‹_›

/-- Nobody but `q` is ready after the send of `p`. -/
theorem stuck_of_alone {b₁ : Post n} (first : b.Send p d a b₁) (readyP : b.mail.wait p = .ready)
    (readyQ : b.mail.wait q = .ready) (dests : d ≠ e) (busy : ¬ b₁.Accepting e q)
    (alone : ∀ r, r ≠ q → b₁.mail.wait r ≠ .ready) : Stuck b p d q e := by
  have acceptingQ := first.accepting (q := q) readyP dests.symm
  have busyP : ¬ b.Accepting d p := by
    intro accepting
    have ⟨src, receiving, _⟩ := accepting
    obtain rfl := first.eq_pass accepting
    refine alone d ?_ Post.put_wait_self
    rintro rfl
    rw [readyQ] at receiving
    cases receiving
  refine ⟨busyP, fun accepting => busy (acceptingQ.mpr accepting), fun r notP notQ => ?_⟩
  obtain rfl := first.eq_enqueue busyP
  have other := alone r notQ
  rwa [Post.enqueue, Mail.requeue_wait, Post.put_wait_of_ne r notP] at other

/-- **Two sends one after the other.** -/
theorem sends_cases (outside : Int → Process n) (reached : SysReached (· ≠ null) s b)
    (priority : ∀ r, 0 < (s.proc r).priority) (readyP : b.mail.wait p = .ready)
    (readyQ : b.mail.wait q = .ready) (ne : p ≠ q) (toD : p ≠ d) (toE : q ≠ e) (dests : d ≠ e)
    (good : a ≠ null) (good' : a' ≠ null) :
    (Dead b p d q e ∧ ∃ src dest, (msgSend outside p (pid d) a s >>=
      msgSend outside q (pid e) a').outcome = .error (.deadLock src dest)) ∨
    (¬ Dead b p d q e ∧ Stuck b p d q e ∧
      (msgSend outside p (pid d) a s >>= msgSend outside q (pid e) a').outcome = .error .forever) ∨
    (¬ Dead b p d q e ∧ ¬ Stuck b p d q e ∧ ∃ t u b₁ b₂,
      (msgSend outside p (pid d) a s >>= msgSend outside q (pid e) a').outcome = .ok u ∧
        b.Send p d a b₁ ∧ b₁.Send q e a' b₂ ∧ Represents u b₂ ∧ Peers b p d s t ∧
          Peers b₁ q e t u) := by
  rcases msgSend_cases outside reached priority readyP toD good with
    ⟨reach, stops⟩ | ⟨_, _, alone, _⟩ | ⟨apart, t, b₁, sent, send, reached₁, priority₁, peers⟩
  · refine .inl ⟨.inl reach, pid p, pid d, ?_⟩
    rw [Traced.bind_of_error stops]
  · exact absurd readyQ (alone q ne.symm)
  have readyQ₁ := send.ready readyQ ne.symm
  have reaches := send.reaches (e := e) readyP readyQ
  have dead : Dead b p d q e ↔ b₁.Reaches e q := by
    rw [reaches]
    exact or_iff_right apart
  rw [Traced.bind_of_ok sent, dead]
  rcases msgSend_cases outside reached₁ priority₁ readyQ₁ toE good' with
    ⟨reach, stops⟩ | ⟨apart', busy, alone, stops⟩ | ⟨apart', u, b₂, sent', send', reached₂, _, peers'⟩
  · exact .inl ⟨reach, _, _, stops⟩
  · exact .inr (.inl ⟨apart', stuck_of_alone send readyP readyQ dests busy alone, stops⟩)
  · refine .inr (.inr ⟨apart', fun stuck => ?_, t, u, b₁, b₂, sent', send, send', reached₂.rep, peers,
      peers'⟩)
    have busyQ : ¬ b₁.Accepting e q := fun accepting =>
      stuck.2.1 ((send.accepting readyP dests.symm).mp accepting)
    exact stuck.none_ready readyP dests send send' u.processReady
      ((ready_iff (reached₂.rep.shows u.processReady)).mp (peers'.runs busyQ))

/-! ### Either order -/

/-- **The same message state.** -/
structure SameMessages (t u : Kernel n) : Prop where
  flags : ∀ r, (t.proc r).flags = (u.proc r).flags
  msg : ∀ r, (t.proc r).msg = (u.proc r).msg
  sendTo : t.sendTos = u.sendTos
  recvFrom : t.recvFroms = u.recvFroms
  haveIntMsg : ∀ r, (t.proc r).haveIntMsg = (u.proc r).haveIntMsg
  queue : ∀ r l, SendQueue t r l ↔ SendQueue u r l
  mem : t.mem = u.mem

/-- Two tables for one message state differ in old peers only. -/
theorem Represents.same (rep : Represents t b) (rep' : Represents u b)
    (sendTo : t.sendTos = u.sendTos) (recvFrom : t.recvFroms = u.recvFroms) : SameMessages t u where
  flags r := by
    have first := rep.shows r
    have second := rep'.shows r
    cases waits : b.mail.wait r <;> rw [waits] at first second
    · exact Eq.trans first second.symm
    · exact first.1.trans second.1.symm
    · exact first.1.trans second.1.symm
  msg r := (rep.buffer r).trans (rep'.buffer r).symm
  sendTo := sendTo
  recvFrom := recvFrom
  haveIntMsg r := (rep.pending r).trans (rep'.pending r).symm
  queue r l := by
    constructor
    · intro chain
      exact Chain.unique chain (rep.queues r) ▸ rep'.queues r
    · intro chain
      exact Chain.unique chain (rep'.queues r) ▸ rep.queues r
  mem := rep.mem.trans rep'.mem.symm

/-- The peers do not depend on the order. -/
theorem Peers.comm {b₁ c₁ : Post n} {s₁ s₂ t₁ t₂ : Kernel n} (first : Peers b p d s s₁)
    (second : Peers b₁ q e s₁ s₂) (first' : Peers b q e s t₁) (second' : Peers c₁ p d t₁ t₂)
    (acceptingQ : b₁.Accepting e q ↔ b.Accepting e q) (acceptingP : c₁.Accepting d p ↔ b.Accepting d p)
    (ne : p ≠ q) (dests : d ≠ e) : s₂.sendTos = t₂.sendTos ∧ s₂.recvFroms = t₂.recvFroms := by
  by_cases passP : b.Accepting d p
  · have passP' := acceptingP.mpr passP
    by_cases passQ : b.Accepting e q
    · have passQ' := acceptingQ.mpr passQ
      rw [second.passSend passQ', first.passSend passP, second'.passSend passP', first'.passSend passQ,
        second.passRecv passQ', first.passRecv passP, second'.passRecv passP', first'.passRecv passQ]
      exact ⟨rfl, Function.update_comm dests _ _ _⟩
    · have busyQ := mt acceptingQ.mp passQ
      rw [second.queueSend busyQ, first.passSend passP, second'.passSend passP',
        first'.queueSend passQ, second.queueRecv busyQ, first.passRecv passP, second'.passRecv passP',
        first'.queueRecv passQ]
      exact ⟨rfl, rfl⟩
  · have busyP := mt acceptingP.mp passP
    by_cases passQ : b.Accepting e q
    · have passQ' := acceptingQ.mpr passQ
      rw [second.passSend passQ', first.queueSend passP, second'.queueSend busyP,
        first'.passSend passQ, second.passRecv passQ', first.queueRecv passP, second'.queueRecv busyP,
        first'.passRecv passQ]
      exact ⟨rfl, rfl⟩
    · have busyQ := mt acceptingQ.mp passQ
      rw [second.queueSend busyQ, first.queueSend passP, second'.queueSend busyP,
        first'.queueSend passQ, second.queueRecv busyQ, first.queueRecv passP, second'.queueRecv busyP,
        first'.queueRecv passQ]
      exact ⟨Function.update_comm ne _ _ _, rfl⟩

theorem SysStep.priority {usable : Addr → Prop} (step : SysStep usable s t)
    (reached : SysReached usable s b) (r : Fin n) : (t.proc r).priority = (s.proc r).priority := by
  cases step with
  | @call outside call p msg t free good quiet returned =>
    have ready := (ready_iff (reached.rep.shows p)).mp free
    rw [reached.rep.pending p] at quiet
    obtain ⟨_, _, _, _, kept⟩ := sysSendRecv_value reached.rep reached.well ready quiet returned
    exact kept.priority r
  | deliver returned =>
    obtain ⟨_, _, _, kept⟩ := deliverIntToProc_value reached.rep returned
    exact kept.priority r
  | tick returned =>
    have spec : (clockIntHandler s).Sat (fun _ => True) _ _ := clockIntHandler_sat reached.rep
    exact (spec.value t returned).2.priority r
  | write => rfl
  | @blocks outside call p msg t free good quiet blocks =>
    have ready := (ready_iff (reached.rep.shows p)).mp free
    rw [reached.rep.pending p] at quiet
    obtain ⟨_, _, _, _, fixed⟩ := blocks.value reached.rep reached.well ready quiet
    exact fixed.priority r
  | looks looks => exact looks.rescheduled.fixed.priority r

theorem SysRun.priority {usable : Addr → Prop} (boot : Booted s₀) (run : SysRun usable s₀ s)
    (r : Fin n) : (s.proc r).priority = (s₀.proc r).priority := by
  induction run with
  | refl => rfl
  | tail before step ih =>
    obtain ⟨b, reached⟩ := sysRun_reached boot before
    exact (step.priority reached r).trans ih

/-- `sizeof(MESSAGE)`. -/
def messageSize : ℕ := 48

/-- Neither of two messages that go straight is copied over bytes that the other copy reads or writes. -/
structure CopiesApart (s : Kernel n) (d e : Fin n) (a a' : Addr) : Prop where
  dests : Block.Apart (s.proc d).msg (s.proc e).msg messageSize
  reads' : Block.Apart (s.proc d).msg a' messageSize
  reads : Block.Apart (s.proc e).msg a messageSize

/-- **Two sends in either order.** From any state that a run from boot reaches, the sends of two
unblocked processes to two other destinations leave the same message state, or one of them is reported
as a deadlock, or both block and leave nobody to be scheduled; whichever it is, it is so in both orders.
If both messages go straight their copies are apart; then they leave the same bytes, too. -/
theorem sends_commute (boot : Booted s₀) (positive : ∀ r, 0 < (s₀.proc r).priority)
    (run : SysRun (· ≠ null) s₀ s) (freeP : (s.proc p).flags = 0) (freeQ : (s.proc q).flags = 0)
    (ne : p ≠ q) (toD : p ≠ d) (toE : q ≠ e) (dests : d ≠ e) (good : a ≠ null) (good' : a' ≠ null)
    (apart : WaitsFor s d p → WaitsFor s e q → CopiesApart s d e a a') :
    (WaitsFor s d p → WaitsFor s e q → ∀ bytes : Block.Space 32 (BitVec 8),
      Block.copy (Block.copy bytes (s.proc d).msg a messageSize) (s.proc e).msg a' messageSize =
        Block.copy (Block.copy bytes (s.proc e).msg a' messageSize) (s.proc d).msg a messageSize) ∧
    ((∃ t u, (msgSend outside p (pid d) a s >>= msgSend outside q (pid e) a').outcome = .ok t ∧
      (msgSend outside q (pid e) a' s >>= msgSend outside p (pid d) a).outcome = .ok u ∧
      SameMessages t u) ∨
    ((∃ src dest, (msgSend outside p (pid d) a s >>= msgSend outside q (pid e) a').outcome =
        .error (.deadLock src dest)) ∧
      ∃ src dest, (msgSend outside q (pid e) a' s >>= msgSend outside p (pid d) a).outcome =
        .error (.deadLock src dest)) ∨
    ((∀ r, r ≠ p → r ≠ q → (s.proc r).flags ≠ 0) ∧
      (msgSend outside p (pid d) a s >>= msgSend outside q (pid e) a').outcome = .error .forever ∧
      (msgSend outside q (pid e) a' s >>= msgSend outside p (pid d) a).outcome = .error .forever)) := by
  refine ⟨fun waitsP waitsQ bytes => ?_, ?_⟩
  · obtain ⟨dests, reads', reads⟩ := apart waitsP waitsQ
    exact Block.copy_comm dests reads' reads
  obtain ⟨b, reached⟩ := sysRun_reached boot run
  have rep := reached.rep
  have priority : ∀ r, 0 < (s.proc r).priority := fun r => (SysRun.priority boot run r).symm ▸ positive r
  have readyP := (ready_iff (rep.shows p)).mp freeP
  have readyQ := (ready_iff (rep.shows q)).mp freeQ
  have order := sends_cases outside reached priority readyP readyQ ne toD toE dests good good'
  have order' := sends_cases outside reached priority readyQ readyP ne.symm toE toD
    dests.symm good' good
  rw [dead_comm, stuck_comm] at order'
  rcases order with ⟨dead, stops⟩ | ⟨alive, stuck, stops⟩ |
    ⟨alive, loose, t₁, t, b₁, b₂, returns, send, send', rep₂, peers, peers'⟩
  · rcases order' with ⟨_, stops'⟩ | ⟨alive, _⟩ | ⟨alive, _⟩
    · exact .inr (.inl ⟨stops, stops'⟩)
    · exact absurd dead alive
    · exact absurd dead alive
  · rcases order' with ⟨dead, _⟩ | ⟨_, _, stops'⟩ | ⟨_, loose, _⟩
    · exact absurd dead alive
    · exact .inr (.inr ⟨fun r notP notQ free =>
        stuck.2.2 r notP notQ ((ready_iff (rep.shows r)).mp free), stops, stops'⟩)
    · exact absurd stuck loose
  · rcases order' with ⟨dead, _⟩ | ⟨_, stuck, _⟩ |
      ⟨_, _, u₁, u, c₁, c₂, returns', sent, sent', rep₂', peersQ, peersP⟩
    · exact absurd dead alive
    · exact absurd stuck loose
    have same : b₂ = c₂ := by
      refine Post.send_comm readyP readyQ ne dests (fun passP passQ => ?_) send send' sent sent'
      obtain ⟨dests, reads', reads⟩ :=
        apart ((rep.waiting_iff d p).mpr passP) ((rep.waiting_iff e q).mpr passQ)
      rw [← rep.buffer e, ← rep.buffer d]
      exact ⟨reads.ne.symm, reads'.ne.symm, dests.ne⟩
    obtain ⟨sendTo, recvFrom⟩ := peers.comm peers' peersQ peersP (send.accepting readyP dests.symm)
      (sent.accepting readyQ dests) ne dests
    exact .inl ⟨t, u, returns, returns', rep₂.same (same ▸ rep₂') sendTo recvFrom⟩

/-- Receives of ready processes, one after the other. -/
def receives (calls : List (Fin totalTaskCnt × Source (Fin totalTaskCnt) × Addr))
    (s : Kernel totalTaskCnt) : Ipc (Kernel totalTaskCnt) :=
  calls.foldlM (fun s call => do
    Traced.check ((s.proc call.1).flags = 0 ∧ call.2.2 ≠ null ∧ call.2.1 ≠ .interrupt) .notSupport
    sysSendRecv nowhere (Call.receive call.2.1).func (Call.receive call.2.1).srcDest call.2.2 call.1 s) s

theorem receives_run {calls : List (Fin totalTaskCnt × Source (Fin totalTaskCnt) × Addr)}
    {s t : Kernel totalTaskCnt} (returned : (receives calls s).outcome = .ok t) :
    SysRun (· ≠ null) s t := by
  induction calls generalizing s with
  | nil =>
    obtain rfl := Except.ok.inj returned
    exact .refl
  | cons call calls ih =>
    rw [receives, List.foldlM_cons] at returned
    obtain ⟨u, received, rest⟩ := Traced.bind_eq_ok.mp returned
    obtain ⟨_, checked, received⟩ := Traced.bind_eq_ok.mp received
    obtain ⟨free, usable, asks⟩ : (s.proc call.1).flags = 0 ∧ call.2.2 ≠ null ∧ call.2.1 ≠ .interrupt := by
      by_contra fails
      rw [Traced.check, if_neg fails] at checked
      cases checked
    have quiet : (Call.receive call.2.1).AsksInterrupt → (s.proc call.1).haveIntMsg = false →
        Quiet nowhere call.1 := fun same => absurd same asks
    exact (ih rest).head (.call free usable quiet received)

/-- `HDD_TASK` and `FS_TASK` wait with buffers of their own. -/
def bothWait : Kernel totalTaskCnt :=
  (receives [(hddTask, .any, 0x1000), (fsTask, .any, 0x2000)]
    (bootKernel.store 0x3000 Message.interrupt)).getD bootKernel

set_option maxRecDepth 10000 in
/-- Messages for both go straight, and the order does not show. -/
theorem sends_commute_bothWait : WaitsFor bothWait hddTask 0 ∧ WaitsFor bothWait fsTask systemTask ∧
    ∃ t u, (msgSend nowhere 0 (pid hddTask) 0x3000 bothWait >>=
        msgSend nowhere systemTask (pid fsTask) 0x4000).outcome = .ok t ∧
      (msgSend nowhere systemTask (pid fsTask) 0x4000 bothWait >>=
        msgSend nowhere 0 (pid hddTask) 0x3000).outcome = .ok u ∧ SameMessages t u := by
  have run : SysRun (· ≠ null) bootKernel bothWait :=
    (receives_run (Traced.outcome_getD (by decide) bootKernel)).head .write
  have apart : CopiesApart bothWait hddTask fsTask 0x3000 0x4000 :=
    ⟨Block.apart_of_sub (by decide) (by decide), Block.apart_of_sub (by decide) (by decide),
      Block.apart_of_sub (by decide) (by decide)⟩
  have completes : (msgSend nowhere 0 (pid hddTask) 0x3000 bothWait >>=
      msgSend nowhere systemTask (pid fsTask) 0x4000).returns = true := by decide
  obtain ⟨_, same | ⟨⟨src, dest, stops⟩, _⟩ | ⟨_, stops, _⟩⟩ :=
    @sends_commute _ nowhere _ _ 0 hddTask systemTask fsTask 0x3000 0x4000 bootKernel_booted (by decide)
      run (by decide) (by decide) (by decide) (by decide) (by decide) (by decide) (by decide) (by decide)
      fun _ _ => apart
  · exact ⟨by decide, by decide, same⟩
  · rw [Traced.returns, stops] at completes
    cases completes
  · rw [Traced.returns, stops] at completes
    cases completes

/-! ### Where the order shows -/

/-- `HDD_TASK` waits with the buffer that `SYSTEM_TASK` sends from. -/
def sharedBuffer : Kernel totalTaskCnt :=
  (receives [(hddTask, .any, 0x1000), (fsTask, .any, 0x2000)]
    (bootKernel.store 0x3000 Message.interrupt)).getD bootKernel

/-- All but the first two processes wait for somebody who does not send. -/
def everybodyWaits : Kernel totalTaskCnt :=
  (receives [(hddTask, .only fsTask, 0x1000), (fsTask, .only hddTask, 0x2000),
    (⟨4, by decide⟩, .any, 0x3000), (⟨5, by decide⟩, .any, 0x4000),
    (⟨6, by decide⟩, .any, 0x5000)] bootKernel).getD bootKernel

set_option maxRecDepth 10000 in
theorem sharedBuffer_run : SysRun (· ≠ null) bootKernel sharedBuffer :=
  (receives_run (Traced.outcome_getD (by decide) bootKernel)).head .write

set_option maxRecDepth 10000 in
theorem everybodyWaits_run : SysRun (· ≠ null) bootKernel everybodyWaits :=
  receives_run (Traced.outcome_getD (by decide) bootKernel)

set_option maxRecDepth 10000 in
/-- **The order shows** when `FS_TASK` gets what `SYSTEM_TASK` sends before or after another message is
in its place; and two sends can leave nobody to be scheduled. -/
theorem order_shows :
    (SysRun (· ≠ null) bootKernel sharedBuffer ∧
      (sharedBuffer.proc 0).flags = 0 ∧ (sharedBuffer.proc systemTask).flags = 0 ∧
      ∃ t u, (msgSend nowhere 0 (pid hddTask) 0x3000 sharedBuffer >>=
          msgSend nowhere systemTask (pid fsTask) 0x1000).outcome = .ok t ∧
        (msgSend nowhere systemTask (pid fsTask) 0x1000 sharedBuffer >>=
          msgSend nowhere 0 (pid hddTask) 0x3000).outcome = .ok u ∧ ¬ SameMessages t u) ∧
    (SysRun (· ≠ null) bootKernel everybodyWaits ∧
      (everybodyWaits.proc 0).flags = 0 ∧ (everybodyWaits.proc systemTask).flags = 0 ∧
      (msgSend nowhere 0 (pid hddTask) 0x6000 everybodyWaits >>=
        msgSend nowhere systemTask (pid fsTask) 0x7000).outcome = .error .forever) := by
  refine ⟨⟨sharedBuffer_run, by decide, by decide, _, _, Traced.outcome_getD (by decide) bootKernel,
    Traced.outcome_getD (by decide) bootKernel, fun same => ?_⟩, everybodyWaits_run, by decide,
    by decide, ?_⟩
  · exact absurd (congrFun same.mem 0x2000) (by decide)
  · rfl

end WalOS
