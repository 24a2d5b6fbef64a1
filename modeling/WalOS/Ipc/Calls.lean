/-
**What the calls do to the table**, one specification for each.

On a table that represents a well-formed message state `b`, for an unblocked caller:

* `msgSend_sat` — `msg_send` returns with a table that represents what `Post.Send` says, or it stops
  for one of the reasons of `SendStop`;
* `msgRecv_sat` — the same for `msg_recv` and `Post.Recv`, from its three parts `recvCheck_sat`,
  `recvLook_sat` and `recvCommit_sat`;
* `deliverIntToProc_sat` — `deliver_int_to_proc` always returns, as `Post.Deliver` says.
-/

import WalOS.Ipc.Deadlock

namespace WalOS

open Rendezvous

variable {n : ℕ} {outside : Int → Process n} {s : Kernel n} {b : Post n} {p d : Fin n} {a : Addr}
  {acc : Int → Prop}

/-- No process but `p` that is ready can be scheduled. -/
def Starved (s : Kernel n) (b : Post n) (p : Fin n) : Prop :=
  ∀ q, q ≠ p → b.mail.wait q = .ready → (s.proc q).ticks ≤ 0 ∧ (s.proc q).priority ≤ 0

/-- The data segment of some process does not start at 0. -/
def Segmented (s : Kernel n) : Prop := ∃ q, (s.proc q).segBase ≠ 0

/-- Why a send of `p` to `d` stops short. -/
inductive SendStop (s : Kernel n) (b : Post n) (p d : Fin n) (a : Addr) : Stop → Prop where
  | deadLock : b.Reaches d p → SendStop s b p d a (.deadLock (pid p) (pid d))
  | segment : Segmented s → SendStop s b p d a (.assertFail .virToLinear)
  | buffer {site : Assertion} : a = null ∨ NullBuffer b → SendStop s b p d a (.assertFail site)
  | starved : Starved s b p → SendStop s b p d a .forever

/-- Why a receive of `d` stops short. -/
inductive RecvStop (s : Kernel n) (b : Post n) (d : Fin n) : Stop → Prop where
  | segment : Segmented s → RecvStop s b d (.assertFail .virToLinear)
  | starved : Starved s b d → RecvStop s b d .forever

/-! ### Blocking -/

theorem Kept.refl (s : Kernel n) : Kept s s := ⟨fun _ => rfl, fun _ => rfl, rfl, rfl, id, id⟩

/-- `block` on a process that has just become blocked. -/
theorem block_sat {u : Kernel n} {c : Post n} {err : Stop → Prop} (rep : Represents u c)
    (blocked : c.mail.wait p ≠ .ready) (others : ∀ q, q ≠ p → c.mail.wait q = b.mail.wait q)
    (ticks : ∀ q, (u.proc q).ticks = (s.proc q).ticks)
    (priority : ∀ q, (u.proc q).priority = (s.proc q).priority)
    (segBase : ∀ q, (u.proc q).segBase = (s.proc q).segBase)
    (intReenter : u.intReenter = s.intReenter) (count : u.ticks = s.ticks)
    (starved : Starved s b p → err .forever) :
    (block p u).Sat acc (fun t => Represents t c ∧ Kept s t) err := by
  refine Traced.Sat.check_bind
    (fun zero => absurd ((ready_iff (rep.shows p)).mp (not_not.mp zero)) blocked) fun _ => ?_
  have returns := processSchedule_sat scheduleFuel u acc
  refine ⟨returns.access, fun t found => ?_, fun reason found => ?_⟩
  · obtain ⟨moved, ready, bounded⟩ := returns.value t found
    refine ⟨rep.rescheduled moved, ⟨fun q => ?_, fun q => ?_, moved.intReenter.trans intReenter,
      moved.ticks.trans count, fun below => bounded fun q => ?_, fun _ => ready⟩⟩
    · rw [moved.proc q]
      exact segBase q
    · rw [moved.proc q]
      exact priority q
    · rw [ticks, priority]
      exact below q
  · obtain rfl : reason = .forever := returns.stopped reason found
    refine starved fun q other ready => ?_
    by_contra positive
    have isReady : (u.proc q).flags = 0 := (ready_iff (rep.shows q)).mpr ((others q other).trans ready)
    have positive' : 0 < (u.proc q).ticks ∨ 0 < (u.proc q).priority := by
      rw [ticks, priority]
      omega
    exact (processSchedule_returns (le_refl _) isReady positive' acc).stopped _ found

/-! ### `msg_send` -/

/-- The table after a message went straight to the waiting `d`. -/
theorem represents_pass (rep : Represents s b) {src : Source (Fin n)}
    (receiving : b.mail.wait d = .receiving src) :
    Represents ((s.store (s.proc d).msg (s.mem a)).modify d fun e =>
      { e with msg := null, flags := e.flags &&& ~~~msgRecving, recvFrom := pNoTask n })
      (b.pass d a) where
  id q := by simpa using rep.id q
  shows := Shows.put rep.shows fun shown => (receiving ▸ shown).released rfl
  queues := rep.queues.congr (fun q => by simp) (fun q => by simp)
  buffer q := by
    simp only [Post.pass, modify_proc, store_proc, msg_ite, Function.update_apply, rep.buffer q]
  mem := by
    simp only [Post.pass, modify_mem, Kernel.store, rep.buffer d, rep.mem]
  pending q := by simpa [Post.pass] using rep.pending q

/-- The table after `p` was appended to the queue of `d`. -/
theorem represents_enqueue (rep : Represents s b) (ready : b.mail.wait p = .ready) {u : Kernel n}
    (links : SameButLinks (s.modify p fun e =>
      { e with flags := e.flags ||| msgSending, sendTo := pid d, msg := a }) u)
    (queues : Queues u (Function.update b.mail.queue d (b.mail.queue d ++ [p]))) :
    Represents u (b.enqueue p d a) where
  id q := by
    rw [links.proc q]
    simpa using rep.id q
  shows q := by
    have put : ∀ q, Shows ((s.modify p fun e =>
        { e with flags := e.flags ||| msgSending, sendTo := pid d, msg := a }).proc q)
        ((b.mail.put p (.sending d)).wait q) := by
      refine Shows.put rep.shows fun shown => ⟨?_, rfl⟩
      have flags : (s.proc p).flags = 0 := (ready_iff shown).mpr ready
      simp only [flags]
      decide
    rw [links.proc q]
    exact (put q).congr rfl rfl rfl
  queues := queues
  buffer q := by
    rw [links.proc q]
    simp only [Post.enqueue, modify_proc, msg_ite, Function.update_apply, rep.buffer q]
  mem := links.mem.trans rep.mem
  pending q := by
    rw [links.proc q]
    simpa [Post.enqueue] using rep.pending q

theorem separate_queue (well : b.mail.WellFormed) :
    Separate b.mail.queue := by
  intro q d e inD inE
  have same := ((well.mem q d).mp inD).symm.trans ((well.mem q e).mp inE)
  exact Wait.sending.inj same

/-- An unblocked `p` goes to the end of the queue of `d`. -/
theorem enqueue_sat {err : Stop → Prop} (rep : Represents s b) (well : b.mail.WellFormed)
    (ready : b.mail.wait p = .ready) :
    (addToQueue p d (s.modify p fun e =>
        { e with flags := e.flags ||| msgSending, sendTo := pid d, msg := a })).Sat acc (fun u =>
      let v := u.modify p fun e => { e with nextSend := none }
      SameButLinks (s.modify p fun e =>
        { e with flags := e.flags ||| msgSending, sendTo := pid d, msg := a }) v ∧
      Queues v (Function.update b.mail.queue d (b.mail.queue d ++ [p]))) err := by
  have fresh : ∀ e, p ∉ b.mail.queue e := fun e member => by
    have sending := (well.mem p e).mp member
    rw [ready] at sending
    cases sending
  have before : Queues (s.modify p fun e =>
      { e with flags := e.flags ||| msgSending, sendTo := pid d, msg := a }) b.mail.queue :=
    rep.queues.congr (fun q => by simp) (fun q => by simp)
  exact addToQueue_sat before (separate_queue well) fresh

/-- **`msg_send` does what `Post.Send` says.** -/
theorem msgSend_sat (rep : Represents s b) (well : b.mail.WellFormed)
    (ready : b.mail.wait p = .ready) (ne : p ≠ d) (inside : ∀ q : Fin n, acc (pid q)) :
    (msgSend outside p (pid d) a s).Sat acc
      (fun t => ∃ b', b.Send p d a b' ∧ Represents t b' ∧ Kept s t) (SendStop s b p d a) := by
  unfold msgSend
  simp only [rep.id]
  refine Traced.Sat.check_bind (fun same => absurd (pid_inj.mp (not_not.mp same)) ne) fun _ => ?_
  refine (deadLock_sat rep well ne (Nat.le_succ n) ready inside
    fun isNull => .buffer (Or.inr isNull)).bind fun dead verdict => ?_
  refine (procPtr_sat (inside d)).bind fun dest same => ?_
  subst same
  refine Traced.Sat.check_bind (fun isDead => .deadLock (verdict.mp (by simpa using isDead)))
    fun alive => ?_
  have apart : ¬ b.Reaches dest p := fun reach => by simp [verdict.mpr reach] at alive
  have showsDest := rep.shows dest
  refine Traced.Sat.ite (fun waiting => ?_) fun busy => ?_
  · -- the receiver waits for this sender or for anyone
    obtain ⟨src, receiving⟩ := (recving_iff showsDest).mp waiting.1
    rw [receiving] at showsDest
    rw [showsDest.2] at waiting
    have accepts : src.Accepts p := (accepts_iff src p).mp waiting.2
    have blocked : b.mail.wait dest ≠ .ready := by rw [receiving]; simp
    refine Traced.Sat.check_bind (fun isNull => .buffer (Or.inr ⟨dest, blocked, ?_⟩)) fun _ => ?_
    · rw [← rep.buffer dest]
      exact not_not.mp isNull
    refine Traced.Sat.check_bind (fun isNull => .buffer (Or.inl (not_not.mp isNull))) fun _ => ?_
    refine (virToLinear_sat (inside dest) fun moved => .segment ⟨dest, moved⟩).bind
      fun target same => ?_
    subst same
    refine (virToLinear_sat (inside p) fun moved => .segment ⟨p, moved⟩).bind fun source same => ?_
    subst same
    have after := represents_pass (a := source) rep receiving
    have free : ((b.pass dest source).mail.wait dest) = .ready := by
      rw [Post.pass, Mail.put_wait, if_pos rfl]
    refine Traced.Sat.check_bind
      (fun notFree => absurd ((ready_iff (after.shows dest)).mpr free) notFree) fun _ =>
      Traced.Sat.pure ⟨_, .pass receiving accepts, after, ?_⟩
    refine ⟨fun q => by simp, fun q => by simp, rfl, rfl, fun bounded q => by simpa using bounded q,
      fun free => ?_⟩
    simp only [modify_processReady, store_processReady, modify_proc, store_proc, flags_ite]
    split
    · rw [free]
      decide
    · exact free
  · -- the receiver does something else: queue up
    have refuses : ∀ src, b.mail.wait dest = .receiving src → ¬ src.Accepts p := by
      intro src receiving accepts
      rw [receiving] at showsDest
      refine busy ⟨by rw [showsDest.1]; decide, ?_⟩
      rw [showsDest.2]
      exact (accepts_iff src p).mpr accepts
    refine (enqueue_sat rep well ready).bind fun u queued => ?_
    obtain ⟨links, queues⟩ := queued
    refine (block_sat (s := s) (b := b) (represents_enqueue rep ready links queues) ?_ ?_ ?_ ?_ ?_
      links.intReenter links.ticks SendStop.starved).mono (fun _ inside => inside)
      (fun t after => ⟨_, .queue refuses apart, after⟩) (fun _ stopped => stopped)
    · rw [Post.enqueue, Mail.requeue_wait, Mail.put_wait, if_pos rfl]
      simp
    · intro q other
      rw [Post.enqueue, Mail.requeue_wait, Mail.put_wait, if_neg other]
    · intro q
      rw [links.proc q]
      simp
    · intro q
      rw [links.proc q]
      simp
    · intro q
      rw [links.proc q]
      simp

/-- What a send that returned did. -/
theorem msgSend_value {t : Kernel n} (rep : Represents s b) (well : b.mail.WellFormed)
    (ready : b.mail.wait p = .ready) (ne : p ≠ d)
    (returned : (msgSend outside p (pid d) a s).outcome = .ok t) :
    ∃ b', b.Send p d a b' ∧ Represents t b' ∧ Kept s t := by
  have spec : (msgSend outside p (pid d) a s).Sat (fun _ => True) _ _ :=
    msgSend_sat rep well ready ne fun _ => trivial
  exact spec.value t returned

/-! ### `msg_recv` -/

/-- The memory before the table does not look like a process sending to `d`. -/
def Quiet (outside : Int → Process n) (d : Fin n) : Prop :=
  ¬ ((outside msgSourceInterrupt).flags &&& msgSending ≠ 0 ∧
    (outside msgSourceInterrupt).sendTo = pid d)

variable {src : Source (Fin n)}

theorem pid_ne_sourceCode (other : src ≠ .only d) : pid d ≠ sourceCode src := by
  cases src with
  | any => exact pid_ne_pAny d
  | only q => exact fun same => other (by rw [pid_inj.mp same])
  | interrupt => exact pid_ne_interrupt d

/-- The table after `d` took the interrupt kept for it. -/
theorem represents_takeInterrupt (rep : Represents s b) :
    Represents ((s.store a Message.interrupt).modify d fun e => { e with haveIntMsg := false })
      (b.takeInterrupt d a) where
  id q := by simpa using rep.id q
  shows q := (rep.shows q).congr (by simp) (by simp) (by simp)
  queues := rep.queues.congr (fun q => by simp) (fun q => by simp)
  buffer q := by simpa [Post.takeInterrupt] using rep.buffer q
  mem := by simp only [Post.takeInterrupt, modify_mem, Kernel.store, rep.mem]
  pending q := by
    simp only [Post.takeInterrupt, modify_proc, store_proc, haveIntMsg_ite, Function.update_apply,
      rep.pending q]

/-- **The first part of `msg_recv`**: it returns exactly when a pending interrupt answers. -/
theorem recvCheck_sat (rep : Represents s b) (other : src ≠ .only d) {err : Stop → Prop}
    (inside : ∀ q : Fin n, acc (pid q)) (segment : Segmented s → err (.assertFail .virToLinear)) :
    (recvCheck outside d (sourceCode src) a s).Sat acc
      (fun r => match r with
        | some t => b.Answers d src ∧ Represents t (b.takeInterrupt d a) ∧ Kept s t
        | none => ¬ b.Answers d src) err := by
  unfold recvCheck
  simp only [rep.id]
  refine Traced.Sat.check_bind
    (fun same => absurd (not_not.mp same) (pid_ne_sourceCode other)) fun _ => ?_
  refine Traced.Sat.ite (fun early => ?_) fun late => Traced.Sat.pure ?_
  · rw [rep.pending d, or_comm, interruptible_iff] at early
    refine (virToLinear_sat (inside d) fun moved => segment ⟨d, moved⟩).bind fun target same => ?_
    subst same
    refine Traced.Sat.pure ⟨early, represents_takeInterrupt rep, ?_⟩
    exact ⟨fun q => by simp, fun q => by simp, rfl, rfl, fun bounded q => by simpa using bounded q,
      fun free => by simpa using free⟩
  · rwa [rep.pending d, or_comm, interruptible_iff] at late

/-- What a found sender is to the queue of the receiver. -/
def FoundIn (b : Post n) (d : Fin n) (src : Source (Fin n)) :
    Option (Fin n × Option (Fin n)) → Prop
  | some (q, prev) => ∃ before after, b.mail.queue d = before ++ q :: after ∧ src.Accepts q ∧
      (src = .any → before = []) ∧ prev = before.getLast?
  | none => ∀ q ∈ b.mail.queue d, ¬ src.Accepts q

/-- **The second part of `msg_recv`**: it finds a queued sender that the source accepts, with the
cell before it, exactly when there is one. -/
theorem recvLook_sat (rep : Represents s b) (well : b.mail.WellFormed) {err : Stop → Prop}
    (inside : ∀ q : Fin n, acc (pid q)) (before : src = .interrupt → acc msgSourceInterrupt)
    (quiet : src = .interrupt → Quiet outside d) :
    (recvLook outside d (sourceCode src) s).Sat acc
      (FoundIn b d src) err := by
  unfold recvLook
  simp only [rep.id]
  cases src with
  | any =>
    rw [sourceCode, if_pos rfl]
    refine Traced.Sat.pure ?_
    have chain := rep.queues d
    cases head : (s.proc d).currentSend with
    | none =>
      have empty := chain.nil_iff_start.mpr head
      intro q member
      exact absurd member (by simp [empty])
    | some first =>
      rw [head] at chain
      cases queue : b.mail.queue d with
      | nil => rw [queue] at chain; exact absurd chain (by simp)
      | cons q after =>
        rw [queue] at chain
        obtain rfl := Option.some.inj chain.1
        exact ⟨[], after, queue, trivial, fun _ => rfl, rfl⟩
  | only q =>
    rw [sourceCode, if_neg (pid_ne_pAny q)]
    refine (procTable_sat (inside q)).bind fun e same => ?_
    subst same
    have showsSrc := rep.shows q
    refine Traced.Sat.ite (fun sends => ?_) fun quietSrc => Traced.Sat.pure ?_
    · obtain ⟨e, sending⟩ := (sending_iff showsSrc).mp sends.1
      rw [sending] at showsSrc
      obtain rfl := pid_inj.mp (showsSrc.2.symm.trans sends.2)
      obtain ⟨before, after, split⟩ := List.append_of_mem ((well.mem q e).mpr sending)
      have chain := rep.queues e
      have length := rep.queues.length_le e
      rw [split] at chain length
      have gone : q ∉ before := fun member =>
        (List.nodup_middle.mp chain.nodup).notMem (List.mem_append_left _ member)
      refine Traced.Sat.check_bind (fun isNull => ?_) fun _ => ?_
      · rw [not_not.mp isNull] at chain
        exact absurd chain.eq_nil (by simp)
      refine (findLoop_sat chain (rep.id q)
        (fun c member same => gone (pid_inj.mp ((rep.id c).symm.trans same) ▸ member)) ?_).bind
        fun found same => ?_
      · rw [List.length_append, List.length_cons] at length
        unfold linkFuel
        omega
      subst same
      exact Traced.Sat.pure ⟨before, after, split, rfl, fun same => absurd same (by simp), Option.or_none⟩
    · intro r member accepts
      obtain rfl : r = q := accepts
      have sending := (well.mem r d).mp member
      rw [sending] at showsSrc
      exact quietSrc ⟨by rw [showsSrc.1]; decide, showsSrc.2⟩
  | interrupt =>
    rw [sourceCode, if_neg pAny_ne_interrupt.symm]
    refine Traced.Sat.bind (Traced.Sat.touch_bind (before rfl) (Traced.Sat.pure (rfl :
      s.entry outside msgSourceInterrupt = s.entry outside msgSourceInterrupt))) fun e same => ?_
    rw [Kernel.entry, dif_neg interrupt_off_table] at same
    subst same
    rw [if_neg (quiet rfl)]
    exact Traced.Sat.pure fun q _ accepts => accepts

/-- The table after `d` took the message of `q`. -/
theorem represents_take (rep : Represents s b) (well : b.mail.WellFormed) {q : Fin n}
    {before after : List (Fin n)} (split : b.mail.queue d = before ++ q :: after) {u : Kernel n}
    (links : SameButLinks s u)
    (queues : Queues u (Function.update b.mail.queue d (before ++ after))) :
    Represents ((u.store a (u.mem (u.proc q).msg)).modify q fun e =>
      { e with msg := null, sendTo := pNoTask n, flags := e.flags &&& ~~~msgSending })
      (b.take d q a (before ++ after)) where
  id r := by
    rw [modify_proc, store_proc, id_ite, ite_self, links.proc r]
    exact rep.id r
  shows r := by
    have shows' : ∀ r, Shows ((u.store a (u.mem (u.proc q).msg)).proc r) (b.mail.wait r) := fun r => by
      rw [store_proc, links.proc r]
      exact (rep.shows r).congr rfl rfl rfl
    rw [Post.take, Mail.requeue_wait]
    refine Shows.put shows' (fun shown => ?_) r
    rw [(well.mem q d).mp (by simp [split])] at shown
    have flags : (u.proc q).flags = msgSending := shown.1
    show (u.proc q).flags &&& ~~~msgSending = 0
    rw [flags]
    decide
  queues := queues.congr (fun r => by simp) (fun r => by simp)
  buffer r := by
    simp only [Post.take, modify_proc, store_proc, msg_ite, Function.update_apply]
    rw [links.proc r, rep.buffer r]
  mem := by
    simp only [Post.take, modify_mem, Kernel.store]
    rw [links.proc q, links.mem, rep.mem, rep.buffer q]
  pending r := by
    rw [modify_proc, store_proc, haveIntMsg_ite, ite_self, links.proc r]
    exact rep.pending r

/-- The table after `d` blocked receiving. -/
theorem represents_await (rep : Represents s b) (ready : b.mail.wait d = .ready) :
    Represents (s.modify d fun e =>
      { e with flags := e.flags ||| msgRecving, msg := a, recvFrom := sourceCode src })
      (b.await d src a) where
  id q := by simpa using rep.id q
  shows := by
    refine Shows.put rep.shows fun shown => ⟨?_, rfl⟩
    have flags : (s.proc d).flags = 0 := (ready_iff shown).mpr ready
    simp only [flags]
    decide
  queues := rep.queues.congr (fun q => by simp) (fun q => by simp)
  buffer q := by
    simp only [Post.await, modify_proc, msg_ite, Function.update_apply, rep.buffer q]
  mem := rep.mem
  pending q := by simpa [Post.await] using rep.pending q

/-- What the third part of `msg_recv` makes of the message state. -/
def CommitsTo (b : Post n) (d : Fin n) (src : Source (Fin n)) (a : Addr) (b' : Post n) :
    Option (Fin n × Option (Fin n)) → Prop
  | some (q, _) => ∃ before after, b.mail.queue d = before ++ q :: after ∧ src.Accepts q ∧
      (src = .any → before = []) ∧ b' = b.take d q a (before ++ after)
  | none => b' = b.await d src a

/-- **The third part of `msg_recv`**: it takes the message of the sender found, or blocks. -/
theorem recvCommit_sat (rep : Represents s b) (well : b.mail.WellFormed)
    (ready : b.mail.wait d = .ready) (inside : ∀ q : Fin n, acc (pid q))
    {found : Option (Fin n × Option (Fin n))}
    (look : FoundIn b d src found) :
    (recvCommit outside d (sourceCode src) a found s).Sat acc
      (fun t => ∃ b', Represents t b' ∧ Kept s t ∧ CommitsTo b d src a b' found)
      (RecvStop s b d) := by
  rcases found with _ | ⟨q, prev⟩
  · have rep' : Represents _ (b.await d src a) := represents_await rep ready
    refine (block_sat (s := s) (b := b) rep' ?_ ?_ (fun q => by simp) (fun q => by simp)
      (fun q => by simp) rfl rfl RecvStop.starved).mono (fun _ inside => inside)
      (fun t after => ⟨_, after.1, after.2, rfl⟩) (fun _ stopped => stopped)
    · rw [Post.await, Mail.put_wait, if_pos rfl]
      simp
    · intro q other
      rw [Post.await, Mail.put_wait, if_neg other]
  · obtain ⟨before, after, split, accepts, first, rfl⟩ := look
    have blocked : b.mail.wait q = .sending d := (well.mem q d).mp (by simp [split])
    have other : q ≠ d := well.ne blocked
    refine (takeFromQueue_sat rep.queues (separate_queue well) split).bind fun u taken => ?_
    obtain ⟨links, queues⟩ := taken
    have ids : ∀ r, (((u.modify q fun e => { e with nextSend := none }).proc r).id : Int) = pid r :=
      fun r => by rw [links.proc r]; exact rep.id r
    have bases : ∀ r, ((u.modify q fun e => { e with nextSend := none }).proc r).segBase =
        (s.proc r).segBase := fun r => by rw [links.proc r]
    simp only [ids]
    refine (virToLinear_sat (inside d) fun moved => .segment ⟨d, bases d ▸ moved⟩).bind
      fun target same => ?_
    subst same
    refine (virToLinear_sat (inside q) fun moved => .segment ⟨q, bases q ▸ moved⟩).bind
      fun source same => ?_
    subst same
    have rep' := represents_take (a := target) rep well split links queues
    have free : ((b.take d q target (before ++ after)).mail.wait q) = .ready := by
      rw [Post.take, Mail.requeue_wait, Mail.put_wait, if_pos rfl]
    refine Traced.Sat.check_bind
      (fun notFree => absurd ((ready_iff (rep'.shows q)).mpr free) notFree) fun _ =>
      Traced.Sat.pure ⟨_, rep', ?_, before, after, split, accepts, first, rfl⟩
    refine ⟨fun r => ?_, fun r => ?_, links.intReenter, links.ticks, fun bounded r => ?_,
      fun free => ?_⟩
    · rw [modify_proc, store_proc, segBase_ite, ite_self, bases r]
    · rw [modify_proc, store_proc, priority_ite, ite_self, links.proc r]
    · rw [modify_proc, store_proc, ticks_ite, priority_ite, ite_self, ite_self, links.proc r]
      exact bounded r
    · rw [modify_processReady, store_processReady, links.processReady, modify_proc, store_proc,
        flags_ite, links.proc s.processReady]
      split
      · simp only [free]
        decide
      · exact free

/-- **`msg_recv` does what `Post.Recv` says.** -/
theorem msgRecv_sat (rep : Represents s b) (well : b.mail.WellFormed)
    (ready : b.mail.wait d = .ready) (other : src ≠ .only d) (inside : ∀ q : Fin n, acc (pid q))
    (before : src = .interrupt → b.pending d = false → acc msgSourceInterrupt)
    (quiet : src = .interrupt → b.pending d = false → Quiet outside d) :
    (msgRecv outside d (sourceCode src) a s).Sat acc
      (fun t => ∃ b', b.Recv d src a b' ∧ Represents t b' ∧ Kept s t) (RecvStop s b d) := by
  refine (recvCheck_sat rep other inside RecvStop.segment).bind fun r checked => ?_
  cases r with
  | some t => exact Traced.Sat.pure ⟨_, .interrupt checked.1, checked.2⟩
  | none =>
    have late : src = .interrupt → b.pending d = false := by
      rintro rfl
      exact Bool.eq_false_iff.mpr fun pending => checked ⟨pending, trivial⟩
    refine (recvLook_sat rep well inside (fun same => before same (late same))
      fun same => quiet same (late same)).bind fun found look => ?_
    refine (recvCommit_sat rep well ready inside look).mono (fun _ inside => inside) ?_
      (fun _ stopped => stopped)
    rintro t ⟨b', rep', kept, made⟩
    rcases found with _ | ⟨q, prev⟩
    · exact ⟨b', made ▸ .await checked look, rep', kept⟩
    · obtain ⟨before, after, split, accepts, first, rfl⟩ := made
      exact ⟨_, .take checked split accepts first, rep', kept⟩

/-- What a receive that returned did. -/
theorem msgRecv_value {t : Kernel n} (rep : Represents s b) (well : b.mail.WellFormed)
    (ready : b.mail.wait d = .ready) (other : src ≠ .only d)
    (quiet : src = .interrupt → Quiet outside d)
    (returned : (msgRecv outside d (sourceCode src) a s).outcome = .ok t) :
    ∃ b', b.Recv d src a b' ∧ Represents t b' ∧ Kept s t := by
  have spec : (msgRecv outside d (sourceCode src) a s).Sat (fun _ => True) _ _ :=
    msgRecv_sat rep well ready other (fun _ => trivial) (fun _ _ => trivial)
      fun same _ => quiet same
  exact spec.value t returned

/-! ### `deliver_int_to_proc` -/

/-- The table after an interrupt released the waiting `d`. -/
theorem represents_wake (rep : Represents s b) (receiving : b.mail.wait d = .receiving src) :
    Represents ((s.store (s.proc d).msg (s.mem (s.proc d).msg).patched).modify d fun e =>
      { e with msg := null, haveIntMsg := false, flags := e.flags &&& ~~~msgRecving,
               recvFrom := pNoTask n }) (b.wake d) where
  id q := by simpa using rep.id q
  shows := Shows.put rep.shows fun shown => (receiving ▸ shown).released rfl
  queues := rep.queues.congr (fun q => by simp) (fun q => by simp)
  buffer q := by
    simp only [Post.wake, modify_proc, store_proc, msg_ite, Function.update_apply, rep.buffer q]
  mem := by simp only [Post.wake, modify_mem, Kernel.store, rep.buffer d, rep.mem]
  pending q := by
    simp only [Post.wake, modify_proc, store_proc, haveIntMsg_ite, Function.update_apply,
      rep.pending q]

/-- The table after an interrupt was kept for `d`. -/
theorem represents_signal (rep : Represents s b) :
    Represents (s.modify d fun e => { e with haveIntMsg := true }) (b.signal d) where
  id q := by simpa using rep.id q
  shows q := (rep.shows q).congr (by simp) (by simp) (by simp)
  queues := rep.queues.congr (fun q => by simp) (fun q => by simp)
  buffer q := by simpa [Post.signal] using rep.buffer q
  mem := rep.mem
  pending q := by
    simp only [Post.signal, modify_proc, haveIntMsg_ite, Function.update_apply, rep.pending q]

/-- **`deliver_int_to_proc` always returns and does what `Post.Deliver` says.** -/
theorem deliverIntToProc_sat (rep : Represents s b) :
    (deliverIntToProc d s).Sat acc (fun t => ∃ b', b.Deliver d b' ∧ Represents t b' ∧ Kept s t)
      (fun _ => False) := by
  have shown := rep.shows d
  unfold deliverIntToProc
  refine Traced.Sat.ite (fun waiting => ?_) fun busy => Traced.Sat.pure ⟨_, .signal ?_,
    represents_signal rep, ?_⟩
  · obtain ⟨src, receiving⟩ := (recving_iff shown).mp waiting.1
    rw [receiving] at shown
    rw [shown.2] at waiting
    have rep' := represents_wake rep receiving
    have free : ((b.wake d).mail.wait d) = .ready := by
      rw [Post.wake, Mail.put_wait, if_pos rfl]
    refine Traced.Sat.check_bind
      (fun notFree => absurd ((ready_iff (rep'.shows d)).mpr free) notFree) fun _ =>
      Traced.Sat.pure ⟨_, .wake receiving ((interruptible_iff src).mp waiting.2), rep', ?_⟩
    refine ⟨fun q => by simp, fun q => by simp, rfl, rfl, fun bounded q => by simpa using bounded q,
      fun free => ?_⟩
    simp only [modify_processReady, store_processReady, modify_proc, store_proc, flags_ite]
    split
    · rw [free]
      decide
    · exact free
  · intro src receiving interruptible
    rw [receiving] at shown
    refine busy ⟨by rw [shown.1]; decide, ?_⟩
    rw [shown.2]
    exact (interruptible_iff src).mpr interruptible
  · exact ⟨fun q => by simp, fun q => by simp, rfl, rfl, fun bounded q => by simpa using bounded q,
      fun free => by simpa using free⟩

/-- What an interrupt did. -/
theorem deliverIntToProc_value {t : Kernel n} (rep : Represents s b)
    (returned : (deliverIntToProc d s).outcome = .ok t) :
    ∃ b', b.Deliver d b' ∧ Represents t b' ∧ Kept s t := by
  have spec : (deliverIntToProc d s).Sat (fun _ => True) _ _ := deliverIntToProc_sat rep
  exact spec.value t returned

end WalOS
