/-
**The message system call and the clock on the table.**

`Call n` is what a process asks of `sys_send_recv`: a send to a process, or a receive from a process,
from `P_ANY` or from `MSG_SOURCE_INTERRUPT`.

* `sysSendRecv_sat` — `sys_send_recv` first writes the caller into the source of the message
  (`Post.stamp`), then does what `Post.Send` or `Post.Recv` says; its further reasons to stop are a
  call from inside a handler and a call that names the caller itself.
* `clockIntHandler_sat` — a clock tick keeps the message state.
* `SysRun` — runs of system calls, disk interrupts, clock ticks and writes of the processes.
* `SysReached.calls`, `SysReached.interrupt`, `SysReached.tick` — the steps of a run with what they do;
  `SysReached.step`, `sysRun_reached` — the step lemma and the run lemma.
-/

import WalOS.Ipc.Run

namespace WalOS

open Rendezvous

variable {n : ℕ} {outside : Int → Process n} {s s₀ t : Kernel n} {b : Post n} {p d : Fin n}
  {a : Addr} {acc : Int → Prop}

/-! ### Calls -/

/-- What a process asks for. -/
inductive Call (n : ℕ) where
  | send (dest : Fin n)
  | receive (src : Source (Fin n))

namespace Call

def func : Call n → Int
  | .send _ => funcSend
  | .receive _ => funcReceive

def srcDest : Call n → Int
  | .send d => pid d
  | .receive src => sourceCode src

/-- The call names `p` itself. -/
def Names (p : Fin n) : Call n → Prop
  | .send d => d = p
  | .receive src => src = .only p

/-- The call looks up `proc_table[MSG_SOURCE_INTERRUPT]` when nothing is pending for its caller. -/
def AsksInterrupt : Call n → Prop
  | .send _ => False
  | .receive src => src = .interrupt

/-- What the call of `p` with buffer `a` does to the message state. -/
def Does (call : Call n) (b : Post n) (p : Fin n) (a : Addr) (b' : Post n) : Prop :=
  match call with
  | .send d => b.Send p d a b'
  | .receive src => b.Recv p src a b'

theorem srcDest_eq_pid {call : Call n} : call.srcDest = pid p ↔ call.Names p := by
  cases call with
  | send d => exact pid_inj
  | receive src => exact @sourceCode_inj n src (.only p)

end Call

/-- `p` writes itself into the source of the message at `a`. -/
def Post.stamp (b : Post n) (p : Fin n) (a : Addr) : Post n :=
  { b with mem := Function.update b.mem a { b.mem a with source := pid p } }

/-- The same in the table. -/
def Kernel.stamp (s : Kernel n) (p : Fin n) (a : Addr) : Kernel n :=
  s.store a { s.mem a with source := pid p }

/-- The call of `p` blocks it, and leaves `t` to `process_schedule`. -/
def Call.Blocks (outside : Int → Process n) (p : Fin n) (a : Addr) (s t : Kernel n) : Call n → Prop
  | .send d => p ≠ d ∧ SendBlocks outside p d a (s.stamp p a) t
  | .receive src => src ≠ .only p ∧ RecvBlocks outside p src a (s.stamp p a) t

/-- The message state does not depend on memory, so a write keeps the rest. -/
theorem Represents.store (rep : Represents s b) (a : Addr) (m : Message) :
    Represents (s.store a m) { b with mem := Function.update b.mem a m } where
  id := rep.id
  shows := rep.shows
  queues := rep.queues
  buffer := rep.buffer
  mem := by simp only [Kernel.store, rep.mem]
  pending := rep.pending

theorem Represents.stamp (rep : Represents s b) (p : Fin n) (a : Addr) :
    Represents (s.stamp p a) (b.stamp p a) := by
  have stored := rep.store a { s.mem a with source := pid p }
  unfold Kernel.stamp
  rw [rep.mem] at stored ⊢
  exact stored

theorem Kept.trans (first : Kept s₀ s) (second : Kept s t) : Kept s₀ t where
  segBase q := (second.segBase q).trans (first.segBase q)
  priority q := (second.priority q).trans (first.priority q)
  intReenter := second.intReenter.trans first.intReenter
  ticks := second.ticks.trans first.ticks
  bounded below := second.bounded (first.bounded below)
  ready free := second.ready (first.ready free)

theorem Kept.store (s : Kernel n) (a : Addr) (m : Message) : Kept s (s.store a m) :=
  ⟨fun _ => rfl, fun _ => rfl, rfl, rfl, id, id⟩

/-- Why a call stops short. -/
inductive CallStop (s : Kernel n) (b : Post n) (p : Fin n) (call : Call n) (a : Addr) :
    Stop → Prop where
  | reenter : s.intReenter ≠ 0 → CallStop s b p call a (.assertFail .sysReenter)
  | self : call.Names p → CallStop s b p call a (.assertFail .sysSource)
  | deadLock {d : Fin n} : call = .send d → b.Reaches d p →
      CallStop s b p call a (.deadLock (pid p) (pid d))
  | segment : Segmented s → CallStop s b p call a (.assertFail .virToLinear)
  | buffer {site : Assertion} : a = null ∨ NullBuffer b → CallStop s b p call a (.assertFail site)
  | starved : Starved s b p → CallStop s b p call a .forever

/-- **`sys_send_recv` does what its call says.** -/
theorem sysSendRecv_sat (call : Call n) (rep : Represents s b) (well : b.mail.WellFormed)
    (ready : b.mail.wait p = .ready) (inside : ∀ q : Fin n, acc (pid q))
    (before : call.AsksInterrupt → b.pending p = false → acc msgSourceInterrupt)
    (quiet : call.AsksInterrupt → b.pending p = false → Quiet outside p) :
    (sysSendRecv outside call.func call.srcDest a p s).Sat acc
      (fun t => ¬ call.Names p ∧ ∃ b', call.Does (b.stamp p a) p a b' ∧ Represents t b' ∧ Kept s t)
      (CallStop s b p call a) := by
  unfold sysSendRecv
  simp only [rep.id]
  refine Traced.Sat.check_bind CallStop.reenter fun _ => ?_
  refine (virToLinear_sat (inside p) fun moved => .segment ⟨p, moved⟩).bind fun target same => ?_
  subst same
  have stamped : Represents (s.store target { s.mem target with source := pid p })
      (b.stamp p target) := rep.stamp p target
  have kept := Kept.store s target { s.mem target with source := pid p }
  have source : ((s.store target { s.mem target with source := pid p }).mem target).source =
      pid p := by rw [store_mem, if_pos rfl]
  rw [source]
  refine Traced.Sat.check_bind
    (fun same => .self (Call.srcDest_eq_pid.mp (not_not.mp same).symm)) fun different => ?_
  have other : ¬ call.Names p := fun names => different (Call.srcDest_eq_pid.mpr names).symm
  cases call with
  | send d =>
    rw [if_pos (show (Call.send d).func = funcSend from rfl)]
    refine (msgSend_sat stamped well ready (fun same => other same.symm) inside).mono
      (fun _ inside => inside) (fun t returned => ?_) fun reason stopped => ?_
    · obtain ⟨b', does, rep', after⟩ := returned
      exact ⟨other, b', does, rep', kept.trans after⟩
    cases stopped with
    | deadLock reach => exact .deadLock rfl reach
    | segment moved => exact .segment moved
    | buffer isNull => exact .buffer isNull
    | starved starved => exact .starved starved
  | receive src =>
    rw [if_neg (show ¬ (Call.receive src).func = funcSend from
        show ¬ funcReceive = funcSend by decide),
      if_pos (show (Call.receive src).func = funcReceive from rfl)]
    refine (msgRecv_sat stamped well ready other inside before quiet).mono
      (fun _ inside => inside) (fun t returned => ?_) fun reason stopped => ?_
    · obtain ⟨b', does, rep', after⟩ := returned
      exact ⟨other, b', does, rep', kept.trans after⟩
    cases stopped with
    | segment moved => exact .segment moved
    | starved starved => exact .starved starved

/-- **All the rest of a call that blocks is `block`.** -/
theorem Call.Blocks.outcome {call : Call n} (blocks : call.Blocks outside p a s t)
    (id : ((s.proc p).id : Int) = pid p) (flat : (s.proc p).segBase = 0) (depth : s.intReenter = 0) :
    (sysSendRecv outside call.func call.srcDest a p s).outcome = (block p t).outcome := by
  have linear : (virToLinear outside s (pid p) a).outcome = .ok a := by
    have spec : (virToLinear outside s (pid p) a).Sat (fun _ => True) _ fun _ => False :=
      virToLinear_sat trivial fun moved => moved flat
    cases answer : (virToLinear outside s (pid p) a).outcome with
    | ok target => rw [spec.value target answer]
    | error reason => exact (spec.stopped reason answer).elim
  have source : ((s.stamp p a).mem a).source = pid p := by rw [Kernel.stamp, store_mem, if_pos rfl]
  have id' : (((s.stamp p a).proc p).id : Int) = pid p := id
  unfold sysSendRecv
  rw [(assertThat_gives depth).outcome_bind, id, Traced.bind_of_ok linear]
  show (assertThat .sysSource (((s.stamp p a).mem a).source ≠ call.srcDest) >>= _).outcome = _
  cases call with
  | send d =>
    have other : ((s.stamp p a).mem a).source ≠ pid d := fun same =>
      blocks.1 (pid_inj.mp (source.symm.trans same))
    rw [(@assertThat_gives _ (_ ≠ (Call.send d).srcDest) _ other).outcome_bind]
    exact blocks.2.outcome id' blocks.1
  | receive src =>
    have other : ((s.stamp p a).mem a).source ≠ sourceCode src := by
      rw [source]
      exact pid_ne_sourceCode blocks.1
    rw [(@assertThat_gives _ (_ ≠ (Call.receive src).srcDest) _ other).outcome_bind]
    exact blocks.2.outcome

/-- What a call that blocks left to `process_schedule`. -/
theorem Call.Blocks.value {call : Call n} (blocks : call.Blocks outside p a s t) (rep : Represents s b)
    (well : b.mail.WellFormed) (ready : b.mail.wait p = .ready)
    (quiet : call.AsksInterrupt → b.pending p = false → Quiet outside p) :
    ¬ call.Names p ∧ ∃ b', call.Does (b.stamp p a) p a b' ∧ Represents t b' ∧ Fixed s t := by
  have stamped : Fixed s (s.stamp p a) := ⟨fun _ => rfl, fun _ => rfl, rfl⟩
  have rep' := rep.stamp p a
  cases call with
  | send d =>
    obtain ⟨b', send, after, fixed⟩ := blocks.2.value rep' well ready blocks.1
    exact ⟨fun same => blocks.1 same.symm, b', send, after, stamped.trans fixed⟩
  | receive src =>
    obtain ⟨b', recv, after, fixed⟩ := blocks.2.value rep' well ready blocks.1 quiet
    exact ⟨blocks.1, b', recv, after, stamped.trans fixed⟩

/-- What a call that returned did. -/
theorem sysSendRecv_value {call : Call n} (rep : Represents s b) (well : b.mail.WellFormed)
    (ready : b.mail.wait p = .ready)
    (quiet : call.AsksInterrupt → b.pending p = false → Quiet outside p)
    (returned : (sysSendRecv outside call.func call.srcDest a p s).outcome = .ok t) :
    ¬ call.Names p ∧ ∃ b', call.Does (b.stamp p a) p a b' ∧ Represents t b' ∧ Kept s t := by
  have spec : (sysSendRecv outside call.func call.srcDest a p s).Sat (fun _ => True) _ _ :=
    sysSendRecv_sat call rep well ready (fun _ => trivial) (fun _ _ => trivial) quiet
  exact spec.value t returned

/-- A call of another process with a usable buffer is a step. -/
theorem Call.Does.step {call : Call n} {b' : Post n} {usable : Addr → Prop}
    (does : call.Does b p a b') (ready : b.mail.wait p = .ready) (other : ¬ call.Names p)
    (good : usable a) : b.Step usable b' := by
  cases call with
  | send d => exact .send ready (fun same => other same.symm) good does
  | receive src => exact .recv ready other good does

/-! ### The clock -/

/-- The table after the tick is counted. -/
theorem represents_tick (rep : Represents s b) (count : BitVec 32) (p : Fin n) :
    Represents (({ s with ticks := count } : Kernel n).modify p fun e =>
      { e with ticks := decInt e.ticks }) b where
  id q := by simpa using rep.id q
  shows q := (rep.shows q).congr (by simp) (by simp) (by simp)
  queues := rep.queues.congr (fun q => by simp) (fun q => by simp)
  buffer q := by simpa using rep.buffer q
  mem := rep.mem
  pending q := by simpa using rep.pending q

/-- What a tick leaves alone. The ticks stay below the priorities unless those of `process_ready` wrap. -/
structure Ticked (s t : Kernel n) : Prop extends Fixed s t where
  ticks : t.ticks = s.ticks + 1
  bounded : -2147483648 < (s.proc s.processReady).ticks → TicksBounded s → TicksBounded t
  ready : (s.proc s.processReady).flags = 0 → (t.proc t.processReady).flags = 0

/-- The tick itself. -/
theorem ticked_charge (s : Kernel n) : Ticked s
    (({ s with ticks := s.ticks + 1 } : Kernel n).modify s.processReady fun e =>
      { e with ticks := decInt e.ticks }) where
  segBase q := by simp
  priority q := by simp
  intReenter := rfl
  ticks := rfl
  bounded above below q := by
    have bound := below q
    simp only [modify_proc, ticks_ite, priority_ite, ite_self]
    split
    · rename_i same
      rw [decInt_of_lt (same ▸ above)]
      omega
    · exact bound
  ready free := by simpa using free

/-- **A clock tick keeps the message state**, and stops short only when nobody can be scheduled. -/
theorem clockIntHandler_sat (rep : Represents s b) :
    (clockIntHandler s).Sat acc (fun t => Represents t b ∧ Ticked s t)
      (fun reason => reason = .forever ∧
        ∀ q, b.mail.wait q = .ready → (s.proc q).priority ≤ 0) := by
  unfold clockIntHandler
  have rep' := represents_tick rep (s.ticks + 1) s.processReady
  have charge := ticked_charge s
  refine Traced.Sat.ite (fun _ => Traced.Sat.pure ⟨rep', charge⟩) fun _ => ?_
  refine Traced.Sat.ite (fun _ => Traced.Sat.pure ⟨rep', charge⟩) fun _ => ?_
  have returns := processSchedule_sat scheduleFuel
    (({ s with ticks := s.ticks + 1 } : Kernel n).modify s.processReady fun e =>
      { e with ticks := decInt e.ticks }) acc
  refine ⟨returns.access, fun t found => ?_, fun reason found => ?_⟩
  · obtain ⟨moved, ready, bounded⟩ := returns.value t found
    exact ⟨rep'.rescheduled moved, ⟨charge.toFixed.trans moved.fixed, moved.ticks.trans charge.ticks,
      fun above below => bounded (charge.bounded above below), fun _ => ready⟩⟩
  · refine ⟨returns.stopped reason found, fun q ready => ?_⟩
    by_contra positive
    have priority := charge.priority q
    exact (processSchedule_returns (le_refl _) ((ready_iff (rep'.shows q)).mpr ready)
      (Or.inr (priority ▸ not_le.mp positive)) acc).stopped reason found

/-! ### Runs -/

variable {usable : Addr → Prop}

/-- **One step of the system**, at handler depth 0: a call of an unblocked process, which may block it
and stay in `process_schedule`, a disk interrupt, a clock tick or a write to memory. -/
inductive SysStep (usable : Addr → Prop) (s : Kernel n) : Kernel n → Prop where
  | call {outside : Int → Process n} {call : Call n} {p : Fin n} {msg : Addr} {t : Kernel n} :
      (s.proc p).flags = 0 → usable msg →
      (call.AsksInterrupt → (s.proc p).haveIntMsg = false → Quiet outside p) →
      (sysSendRecv outside call.func call.srcDest msg p s).outcome = .ok t → SysStep usable s t
  | deliver {p : Fin n} {t : Kernel n} :
      (deliverIntToProc p s).outcome = .ok t → SysStep usable s t
  | tick {t : Kernel n} : (clockIntHandler s).outcome = .ok t → SysStep usable s t
  | write {addr : Addr} {m : Message} : SysStep usable s (s.store addr m)
  | blocks {outside : Int → Process n} {call : Call n} {p : Fin n} {msg : Addr} {t : Kernel n} :
      (s.proc p).flags = 0 → usable msg →
      (call.AsksInterrupt → (s.proc p).haveIntMsg = false → Quiet outside p) →
      call.Blocks outside p msg s t → SysStep usable s t
  | looks {t : Kernel n} : LooksAgain s t → SysStep usable s t

/-- Steps one after the other. -/
abbrev SysRun (usable : Addr → Prop) : Kernel n → Kernel n → Prop :=
  Relation.ReflTransGen (SysStep usable)

/-- The table boot leaves: nothing has happened, segments start at 0, and no handler is nested. -/
structure Booted (s : Kernel n) : Prop extends Boot s where
  segBase : ∀ p, (s.proc p).segBase = 0
  intReenter : s.intReenter = 0

theorem bootKernel_booted : Booted bootKernel := ⟨bootKernel_boot, fun _ => rfl, rfl⟩

/-- A message state that a run of the system can be in. -/
structure SysReached (usable : Addr → Prop) (s : Kernel n) (b : Post n) : Prop
    extends Reached usable s b where
  segBase : ∀ p, (s.proc p).segBase = 0
  intReenter : s.intReenter = 0

theorem Booted.reached (boot : Booted s) : SysReached usable s s.idle where
  rep := boot.represents
  well := Mail.rest_wellFormed
  buffered _ blocked := absurd rfl blocked
  segBase := boot.segBase
  intReenter := boot.intReenter

/-- The message state as it was. -/
theorem SysReached.same (reached : SysReached usable s b) (rep : Represents t b) (fixed : Fixed s t) :
    SysReached usable t b :=
  ⟨⟨rep, reached.well, reached.buffered⟩, fun q => (fixed.segBase q).trans (reached.segBase q),
    fixed.intReenter.trans reached.intReenter⟩

/-- A step of the message state, from a memory that may be written before. -/
theorem SysReached.moved {b' : Post n} {mem : Addr → Message} (reached : SysReached usable s b)
    (step : ({ b with mem := mem } : Post n).Step usable b') (rep : Represents t b')
    (fixed : Fixed s t) : SysReached usable t b' := by
  obtain ⟨_, mailStep⟩ := step.move
  have well : ({ b with mem := mem } : Post n).mail.WellFormed := reached.well
  have buffered : ({ b with mem := mem } : Post n).Buffered usable := reached.buffered
  exact ⟨⟨rep, mailStep.wellFormed well, step.buffered buffered⟩,
    fun q => (fixed.segBase q).trans (reached.segBase q), fixed.intReenter.trans reached.intReenter⟩

/-- A call of an unblocked process, with what it does. -/
theorem SysReached.calls {call : Call n} (reached : SysReached usable s b)
    (free : (s.proc p).flags = 0) (good : usable a)
    (quiet : call.AsksInterrupt → (s.proc p).haveIntMsg = false → Quiet outside p)
    (returned : (sysSendRecv outside call.func call.srcDest a p s).outcome = .ok t) :
    ¬ call.Names p ∧ ∃ b', call.Does (b.stamp p a) p a b' ∧ SysReached usable t b' := by
  have ready := (ready_iff (reached.rep.shows p)).mp free
  rw [reached.rep.pending p] at quiet
  obtain ⟨other, b', does, rep, kept⟩ :=
    sysSendRecv_value reached.rep reached.well ready quiet returned
  exact ⟨other, b', does, reached.moved (does.step ready other good) rep kept.fixed⟩

/-- The same of a call that blocks. -/
theorem SysReached.blocks {call : Call n} (reached : SysReached usable s b)
    (free : (s.proc p).flags = 0) (good : usable a)
    (quiet : call.AsksInterrupt → (s.proc p).haveIntMsg = false → Quiet outside p)
    (blocks : call.Blocks outside p a s t) :
    ¬ call.Names p ∧ ∃ b', call.Does (b.stamp p a) p a b' ∧ SysReached usable t b' := by
  have ready := (ready_iff (reached.rep.shows p)).mp free
  rw [reached.rep.pending p] at quiet
  obtain ⟨other, b', does, rep, fixed⟩ := blocks.value reached.rep reached.well ready quiet
  exact ⟨other, b', does, reached.moved (does.step ready other good) rep fixed⟩

theorem SysReached.interrupt (reached : SysReached usable s b)
    (returned : (deliverIntToProc p s).outcome = .ok t) :
    ∃ b', b.Deliver p b' ∧ SysReached usable t b' := by
  obtain ⟨b', deliver, rep, kept⟩ := deliverIntToProc_value reached.rep returned
  have moved : b.Step usable b' := .deliver deliver
  exact ⟨b', deliver, reached.moved moved rep kept.fixed⟩

theorem SysReached.tick (reached : SysReached usable s b)
    (returned : (clockIntHandler s).outcome = .ok t) : SysReached usable t b := by
  have spec : (clockIntHandler s).Sat (fun _ => True) _ _ := clockIntHandler_sat reached.rep
  obtain ⟨rep, ticked⟩ := spec.value t returned
  exact reached.same rep ticked.toFixed

/-- `process_schedule` looks again. -/
theorem SysReached.looks (reached : SysReached usable s b) (looks : LooksAgain s t) :
    SysReached usable t b :=
  reached.same (reached.rep.rescheduled looks.rescheduled) looks.rescheduled.fixed

theorem SysReached.write (reached : SysReached usable s b) (a : Addr) (m : Message) :
    SysReached usable (s.store a m) { b with mem := Function.update b.mem a m } :=
  ⟨⟨reached.rep.store a m, reached.well, reached.buffered⟩, reached.segBase, reached.intReenter⟩

/-- **The step lemma.** -/
theorem SysReached.step (reached : SysReached usable s b) (step : SysStep usable s t) :
    ∃ b', SysReached usable t b' := by
  cases step with
  | call free good quiet returned =>
    obtain ⟨_, b', _, reached'⟩ := reached.calls free good quiet returned
    exact ⟨b', reached'⟩
  | deliver returned =>
    obtain ⟨b', _, reached'⟩ := reached.interrupt returned
    exact ⟨b', reached'⟩
  | tick returned => exact ⟨b, reached.tick returned⟩
  | write => exact ⟨_, reached.write _ _⟩
  | blocks free good quiet blocks =>
    obtain ⟨_, b', _, reached'⟩ := reached.blocks free good quiet blocks
    exact ⟨b', reached'⟩
  | looks looks => exact ⟨b, reached.looks looks⟩

/-- **The run lemma.** -/
theorem sysRun_reached (boot : Booted s₀) (run : SysRun usable s₀ s) :
    ∃ b, SysReached usable s b := by
  induction run with
  | refl => exact ⟨s₀.idle, boot.reached⟩
  | tail _ step ih =>
    obtain ⟨b, reached⟩ := ih
    exact reached.step step

end WalOS
