/-
**Whole runs of the machine**: user mode, traps, nested handlers, and the way back.

A `Machine n` is the table with its mode: a process runs in user mode, or the kernel runs with a
stack of handlers, the outermost for a system call or an interrupt (`Job`), the nested ones for
interrupts only. Entering a handler raises `int_reenter` and leaving one lowers it; the outermost
handler leaves to `process_ready`, as `restart_process` does.

* `TableInv` — what holds of the table at every moment, and `TableInv.run`, that the body of a handler
  keeps it.
* `machine_consistent` — in every reachable state flags and buffers are consistent, user mode runs an
  unblocked `process_ready`, a blocked process is released by a matching call or interrupt only, and no
  handler stops at an `ASSERT` of message passing; the ticks stay below the priorities until they wrap.
* `ticks_wrap` — nested clock interrupts, which do not reschedule, make them wrap.
-/

import WalOS.Ipc.SysCall

namespace WalOS

open Rendezvous

variable {n : ℕ} {outside : Int → Process n} {s s₀ t : Kernel n} {b : Post n} {p q : Fin n}

/-! ### Handlers -/

/-- What interrupts. -/
inductive Interrupt (n : ℕ) where
  | clock
  | disk (p : Fin n)

/-- What a handler is for. -/
inductive Job (n : ℕ) where
  | sysCall (call : Call n) (msg : Addr)
  | irq (interrupt : Interrupt n)

/-- The body of a handler. `sys_call` passes `process_ready` for the caller. -/
def Job.run (outside : Int → Process n) (s : Kernel n) : Job n → Ipc (Kernel n)
  | .sysCall call msg => sysSendRecv outside call.func call.srcDest msg s.processReady s
  | .irq .clock => clockIntHandler s
  | .irq (.disk p) => deliverIntToProc p s

/-- What `p` may ask for: another process, with a buffer. -/
def Job.Valid (p : Fin n) : Job n → Prop
  | .sysCall call msg => ¬ call.Names p ∧ msg ≠ null
  | .irq _ => True

/-- Looking up `proc_table[MSG_SOURCE_INTERRUPT]` for the job finds no sender. -/
def Job.Quiet (outside : Int → Process n) (s : Kernel n) : Job n → Prop
  | .sysCall call _ => call.AsksInterrupt → (s.proc s.processReady).haveIntMsg = false →
      WalOS.Quiet outside s.processReady
  | .irq _ => True

/-- What runs: a process, or handlers. A handler whose body has run is `none`; the nested handlers
are listed innermost first. -/
inductive Mode (n : ℕ) where
  | user (current : Fin n)
  | kernel (outer : Option (Job n)) (nested : List (Option (Interrupt n)))

/-- The handler whose body runs next. -/
def Mode.next : Mode n → Option (Job n)
  | .user _ => none
  | .kernel outer [] => outer
  | .kernel _ (interrupt :: _) => interrupt.map .irq

/-- The mode after that body. -/
def Mode.ran : Mode n → Mode n
  | .user current => .user current
  | .kernel _ [] => .kernel none []
  | .kernel outer (_ :: nested) => .kernel outer (none :: nested)

structure Machine (n : ℕ) where
  kernel : Kernel n
  mode : Mode n

/-- Change the depth of the handlers. -/
def Kernel.deepen (s : Kernel n) (levels : Int) : Kernel n :=
  { s with intReenter := s.intReenter + levels }

/-- **One step of the machine.** -/
inductive MachineStep : Machine n → Machine n → Prop where
  | write {s : Kernel n} {p : Fin n} {addr : Addr} {m : Message} :
      MachineStep ⟨s, .user p⟩ ⟨s.store addr m, .user p⟩
  | trap {s : Kernel n} {p : Fin n} {job : Job n} : job.Valid p →
      MachineStep ⟨s, .user p⟩ ⟨s.deepen 1, .kernel (some job) []⟩
  | nest {s : Kernel n} {outer : Option (Job n)} {nested : List (Option (Interrupt n))}
      {interrupt : Interrupt n} :
      MachineStep ⟨s, .kernel outer nested⟩
        ⟨s.deepen 1, .kernel outer (some interrupt :: nested)⟩
  | body {outside : Int → Process n} {s t : Kernel n} {mode : Mode n} {job : Job n} :
      mode.next = some job → job.Quiet outside s → (job.run outside s).outcome = .ok t →
      MachineStep ⟨s, mode⟩ ⟨t, mode.ran⟩
  | restartReEnter {s : Kernel n} {outer : Option (Job n)}
      {nested : List (Option (Interrupt n))} :
      MachineStep ⟨s, .kernel outer (none :: nested)⟩ ⟨s.deepen (-1), .kernel outer nested⟩
  | restartProcess {s : Kernel n} :
      MachineStep ⟨s, .kernel none []⟩ ⟨s.deepen (-1), .user s.processReady⟩

abbrev MachineRun : Machine n → Machine n → Prop := Relation.ReflTransGen MachineStep

/-- **The start**: `init_process_main` is about to leave through `restart_process`, with the table as
boot leaves it, ticks at the priority and no buffer. -/
structure Started (m : Machine n) : Prop where
  boot : Boot m.kernel
  ticks : ∀ p, (m.kernel.proc p).ticks = (m.kernel.proc p).priority
  msg : ∀ p, (m.kernel.proc p).msg = null
  intReenter : m.kernel.intReenter = 0
  mode : m.mode = .kernel none []

/-! ### The invariant of the table -/

/-- **What holds of the table at every moment.** -/
structure TableInv (s : Kernel n) (b : Post n) : Prop extends Reached (· ≠ null) s b where
  cleared : b.Cleared
  ready : (s.proc s.processReady).flags = 0

theorem Represents.deepen (rep : Represents s b) (levels : Int) : Represents (s.deepen levels) b :=
  ⟨rep.id, rep.shows, rep.queues, rep.buffer, rep.mem, rep.pending⟩

theorem TableInv.deepen (inv : TableInv s b) (levels : Int) : TableInv (s.deepen levels) b :=
  ⟨⟨inv.rep.deepen levels, inv.well, inv.buffered⟩, inv.cleared, inv.ready⟩

/-- A step that keeps what calls leave alone keeps the invariant. -/
theorem TableInv.step {b' : Post n} (inv : TableInv s b) (step : b.Step (· ≠ null) b')
    (rep : Represents t b') (kept : Kept s t) : TableInv t b' := by
  obtain ⟨_, mailStep⟩ := step.move
  exact ⟨⟨rep, mailStep.wellFormed inv.well, step.buffered inv.buffered⟩, step.cleared inv.cleared,
    kept.ready inv.ready⟩

/-- A nested clock interrupt does not reschedule. -/
theorem clockIntHandler_nested (nested : s.intReenter ≠ 0)
    (returned : (clockIntHandler s).outcome = .ok t) : t.processReady = s.processReady := by
  unfold clockIntHandler at returned
  simp only [modify_intReenter, if_pos nested] at returned
  obtain rfl := Except.ok.inj returned
  rfl

/-- A disk interrupt does not reschedule. -/
theorem deliverIntToProc_processReady (returned : (deliverIntToProc p s).outcome = .ok t) :
    t.processReady = s.processReady := by
  unfold deliverIntToProc at returned
  split at returned
  · obtain ⟨_, _, last⟩ := Traced.bind_eq_ok.mp returned
    obtain rfl := Except.ok.inj last
    rfl
  · obtain rfl := Except.ok.inj returned
    rfl

/-- The job is a system call. -/
def Job.IsCall : Job n → Prop
  | .sysCall _ _ => True
  | .irq _ => False

/-- What the body of a handler does to the message state. -/
def Job.Does (s : Kernel n) (b b' : Post n) : Job n → Prop
  | .sysCall call msg => call.Does (b.stamp s.processReady msg) s.processReady msg b'
  | .irq .clock => b' = b
  | .irq (.disk p) => b.Deliver p b'

/-- A tick makes the ticks of `process_ready` no greater, unless they wrap. -/
def Counted (s t : Kernel n) : Prop :=
  t.ticks ≠ s.ticks → -2147483648 < (s.proc s.processReady).ticks

/-- **The body of a handler keeps the invariant**, the depth, in a nested handler the scheduled process,
and as long as nothing wraps the bound on the ticks. -/
theorem TableInv.run {job : Job n} (inv : TableInv s b) (valid : job.Valid s.processReady)
    (quiet : job.Quiet outside s) (returned : (job.run outside s).outcome = .ok t) :
    ∃ b', TableInv t b' ∧ job.Does s b b' ∧ t.intReenter = s.intReenter ∧
      (¬ job.IsCall → s.intReenter ≠ 0 → t.processReady = s.processReady) ∧
      (Counted s t → TicksBounded s → TicksBounded t) := by
  cases job with
  | sysCall call msg =>
    have ready := (ready_iff (inv.rep.shows s.processReady)).mp inv.ready
    have quiet' : call.AsksInterrupt → b.pending s.processReady = false →
        WalOS.Quiet outside s.processReady := fun asks nothing =>
      quiet asks ((inv.rep.pending _).trans nothing)
    obtain ⟨_, b', does, rep, kept⟩ := sysSendRecv_value inv.rep inv.well ready quiet' returned
    have step : (b.stamp s.processReady msg).Step (· ≠ null) b' :=
      does.step ready valid.1 valid.2
    obtain ⟨_, mailStep⟩ := step.move
    exact ⟨b', ⟨⟨rep, mailStep.wellFormed inv.well, step.buffered inv.buffered⟩,
      step.cleared inv.cleared, kept.ready inv.ready⟩, does, kept.intReenter,
      fun notCall => absurd trivial notCall, fun _ => kept.bounded⟩
  | irq interrupt =>
    cases interrupt with
    | clock =>
      have spec : (clockIntHandler s).Sat (fun _ => True) _ _ := clockIntHandler_sat inv.rep
      obtain ⟨rep, ticked⟩ := spec.value t returned
      have counts : t.ticks ≠ s.ticks := by
        rw [ticked.ticks]
        simp
      exact ⟨b, ⟨⟨rep, inv.well, inv.buffered⟩, inv.cleared, ticked.ready inv.ready⟩, rfl,
        ticked.intReenter, fun _ nested => clockIntHandler_nested nested returned,
        fun counted => ticked.bounded (counted counts)⟩
    | disk p =>
      obtain ⟨b', deliver, rep, kept⟩ := deliverIntToProc_value inv.rep returned
      exact ⟨b', inv.step (.deliver deliver) rep kept, deliver, kept.intReenter,
        fun _ _ => deliverIntToProc_processReady returned, fun _ => kept.bounded⟩

/-! ### The invariant of the machine -/

/-- The depth and the scheduled process fit the mode. -/
def Fits (s : Kernel n) : Mode n → Prop
  | .user current => s.intReenter = -1 ∧ current = s.processReady
  | .kernel outer nested => s.intReenter = nested.length ∧ ∀ job ∈ outer, job.Valid s.processReady

/-- **The invariant of the machine.** -/
structure MachineInv (m : Machine n) (b : Post n) : Prop where
  table : TableInv m.kernel b
  fits : Fits m.kernel m.mode

theorem Started.inv {m : Machine n} (started : Started m) : MachineInv m m.kernel.idle where
  table :=
    { rep := started.boot.represents
      well := Mail.rest_wellFormed
      buffered := fun _ blocked => absurd rfl blocked
      cleared := fun p _ => started.msg p
      ready := started.boot.flags _ }
  fits := by
    rw [started.mode]
    exact ⟨started.intReenter, fun _ member => by cases member⟩

/-- The next job is valid, and a call only runs in an outermost handler. -/
theorem Fits.next {mode : Mode n} {job : Job n} (fits : Fits s mode) (next : mode.next = some job) :
    job.Valid s.processReady ∧ (job.IsCall → s.intReenter = 0) := by
  match mode, next with
  | .kernel _ [], next => exact ⟨fits.2 job next, fun _ => fits.1⟩
  | .kernel _ (some interrupt :: _), rfl => exact ⟨trivial, fun call => call.elim⟩

/-- The body of the next handler keeps the fit. -/
theorem Fits.ran {mode : Mode n} {job : Job n} (fits : Fits s mode) (next : mode.next = some job)
    (depth : t.intReenter = s.intReenter)
    (stays : ¬ job.IsCall → s.intReenter ≠ 0 → t.processReady = s.processReady) :
    Fits t mode.ran := by
  match mode, next with
  | .kernel _ [], _ => exact ⟨depth.trans fits.1, fun _ member => by cases member⟩
  | .kernel outer (some interrupt :: nested), rfl =>
    have deep : s.intReenter ≠ 0 := by
      rw [fits.1, List.length_cons]
      omega
    refine ⟨depth.trans fits.1, ?_⟩
    rw [stays id deep]
    exact fits.2

/-- **The step lemma.** -/
theorem MachineInv.step {m m' : Machine n} (inv : MachineInv m b) (step : MachineStep m m') :
    ∃ b', MachineInv m' b' ∧
      (Counted m.kernel m'.kernel → TicksBounded m.kernel → TicksBounded m'.kernel) := by
  obtain ⟨table, fits⟩ := inv
  cases step with
  | write =>
    exact ⟨_, ⟨⟨⟨table.rep.store _ _, table.well, table.buffered⟩, table.cleared, table.ready⟩, fits⟩,
      fun _ bounded => bounded⟩
  | @trap s p job valid =>
    have depth : s.intReenter = -1 := fits.1
    have current : p = s.processReady := fits.2
    refine ⟨b, ⟨table.deepen 1, ?_, fun other member => ?_⟩, fun _ bounded => bounded⟩
    · simp [Kernel.deepen, depth]
    · obtain rfl := Option.some.inj member
      exact current ▸ valid
  | @nest s outer nested interrupt =>
    have depth : s.intReenter = nested.length := fits.1
    refine ⟨b, ⟨table.deepen 1, ?_, fits.2⟩, fun _ bounded => bounded⟩
    simp [Kernel.deepen, depth]
  | @body outside s t mode job next quiet returned =>
    obtain ⟨valid, _⟩ := fits.next next
    obtain ⟨b', table', _, depth, stays, bounded⟩ := table.run valid quiet returned
    exact ⟨b', ⟨table', fits.ran next depth stays⟩, bounded⟩
  | @restartReEnter s outer nested =>
    have depth : s.intReenter = (none :: nested).length := fits.1
    refine ⟨b, ⟨table.deepen (-1), ?_, fits.2⟩, fun _ bounded => bounded⟩
    rw [List.length_cons] at depth
    show s.intReenter + -1 = nested.length
    omega
  | @restartProcess s =>
    have depth : s.intReenter = 0 := fits.1
    refine ⟨b, ⟨table.deepen (-1), ?_, rfl⟩, fun _ bounded => bounded⟩
    simp [Kernel.deepen, depth]

/-- **The run lemma.** -/
theorem machineRun_inv {m₀ m : Machine n} (started : Started m₀) (run : MachineRun m₀ m) :
    ∃ b, MachineInv m b := by
  induction run with
  | refl => exact ⟨_, started.inv⟩
  | tail _ step ih =>
    obtain ⟨b, inv⟩ := ih
    obtain ⟨b', inv', _⟩ := inv.step step
    exact ⟨b', inv'⟩

/-- Runs in which no tick makes the ticks of `process_ready` wrap. -/
abbrev CountedRun : Machine n → Machine n → Prop :=
  Relation.ReflTransGen fun m m' => MachineStep m m' ∧ Counted m.kernel m'.kernel

theorem CountedRun.run {m₀ m : Machine n} (run : CountedRun m₀ m) : MachineRun m₀ m :=
  Relation.ReflTransGen.mono (fun _ _ => And.left) _ _ run

/-- **The run lemma for the ticks.** -/
theorem CountedRun.bounded {m₀ m : Machine n} (started : Started m₀) (run : CountedRun m₀ m) :
    TicksBounded m.kernel := by
  induction run with
  | refl => exact fun p => (started.ticks p).le
  | tail before step ih =>
    obtain ⟨b, inv⟩ := machineRun_inv started (CountedRun.run before)
    obtain ⟨_, _, bounded⟩ := inv.step step.1
    exact bounded step.2 ih

/-! ### What the invariant says -/

/-- The flags and buffers are consistent, and user mode runs an unblocked `process_ready`. -/
structure Consistent (m : Machine n) : Prop where
  flags : ∀ p, (m.kernel.proc p).flags = 0 ∨ (m.kernel.proc p).flags = msgSending ∨
    (m.kernel.proc p).flags = msgRecving
  msg : ∀ p, (m.kernel.proc p).msg ≠ null ↔ (m.kernel.proc p).flags ≠ 0
  current : ∀ p, m.mode = .user p → p = m.kernel.processReady ∧ (m.kernel.proc p).flags = 0

theorem MachineInv.consistent {m : Machine n} (inv : MachineInv m b) : Consistent m where
  flags p := by
    have shown := inv.table.rep.shows p
    cases wait : b.mail.wait p with
    | ready => rw [wait] at shown; exact Or.inl shown
    | sending d => rw [wait] at shown; exact Or.inr (Or.inl shown.1)
    | receiving src => rw [wait] at shown; exact Or.inr (Or.inr shown.1)
  msg p := by
    rw [inv.table.rep.buffer p, ne_eq ((m.kernel.proc p).flags),
      ready_iff (inv.table.rep.shows p)]
    exact ⟨fun left ready => left (inv.table.cleared p ready), inv.table.buffered p⟩
  current p mode := by
    have fits := inv.fits
    rw [mode] at fits
    obtain ⟨_, current⟩ := fits
    exact ⟨current, current ▸ inv.table.ready⟩

/-- The job is the send, the receive or the interrupt that the blocked `q` waits for. -/
inductive Releases (s : Kernel n) (q : Fin n) : Job n → Prop where
  | send {msg : Addr} : (s.proc q).flags &&& msgRecving ≠ 0 →
      (s.proc q).recvFrom = pid s.processReady ∨ (s.proc q).recvFrom = pAny n →
      Releases s q (.sysCall (.send q) msg)
  | receive {src : Source (Fin n)} {msg : Addr} : SendsTo s q s.processReady → src.Accepts q →
      Releases s q (.sysCall (.receive src) msg)
  | disk : (s.proc q).flags &&& msgRecving ≠ 0 →
      (s.proc q).recvFrom = msgSourceInterrupt ∨ (s.proc q).recvFrom = pAny n →
      Releases s q (.irq (.disk q))

/-- Who is unblocked by a job was waiting for it. -/
theorem TableInv.releases {job : Job n} {b' : Post n} (inv : TableInv s b)
    (does : job.Does s b b') (blocked : b.mail.wait q ≠ .ready) (free : b'.mail.wait q = .ready) :
    Releases s q job := by
  have shown := inv.rep.shows q
  -- only `p` changes what it does
  have only : ∀ {m : Mail (Fin n)} {p : Fin n} {w : Wait (Fin n)}, m.wait q ≠ .ready →
      (m.put p w).wait q = .ready → q = p := by
    intro m p w stuck done
    by_contra other
    exact stuck ((Post.put_wait_of_ne q other).symm.trans done)
  cases job with
  | sysCall call msg =>
    cases call with
    | send d =>
      cases does with
      | @pass src receiving accepts =>
        obtain rfl := only blocked free
        have waiting : b.mail.wait q = .receiving src := receiving
        rw [waiting] at shown
        refine .send ((recving_iff (inv.rep.shows q)).mpr ⟨src, waiting⟩) ?_
        rw [shown.2]
        exact (accepts_iff src s.processReady).mpr accepts
      | queue _ _ =>
        obtain rfl := only blocked free
        exact absurd (Post.put_wait_self.symm.trans free) (by simp)
    | receive src =>
      cases does with
      | interrupt _ => exact absurd free blocked
      | @take sender before after _ split accepts _ =>
        obtain rfl := only blocked free
        have member : q ∈ b.mail.queue s.processReady :=
          (show b.mail.queue s.processReady = before ++ q :: after from split) ▸ by simp
        exact .receive ((inv.rep.sendsTo_iff q s.processReady).mpr
          ((inv.well.mem q s.processReady).mp member)) accepts
      | await _ _ =>
        obtain rfl := only blocked free
        exact absurd (Post.put_wait_self.symm.trans free) (by simp)
  | irq interrupt =>
    cases interrupt with
    | clock =>
      obtain rfl : b' = b := does
      exact absurd free blocked
    | disk p =>
      cases does with
      | @wake src receiving interruptible =>
        obtain rfl := only blocked free
        rw [receiving] at shown
        refine .disk ((recving_iff (inv.rep.shows q)).mpr ⟨src, receiving⟩) ?_
        rw [shown.2]
        exact (interruptible_iff src).mpr interruptible
      | signal _ => exact absurd free blocked

/-- Why the body of a handler may stop: `dead_lock` reports, no process can be scheduled, or data
segments do not start at 0. -/
inductive Excused (s : Kernel n) : Job n → Stop → Prop where
  | deadLock {d : Fin n} {msg : Addr} :
      Excused s (.sysCall (.send d) msg) (.deadLock (pid s.processReady) (pid d))
  | starvedCall {call : Call n} {msg : Addr} :
      (∀ q, q ≠ s.processReady → (s.proc q).flags = 0 → (s.proc q).priority ≤ 0) →
      Excused s (.sysCall call msg) .forever
  | starvedClock : (∀ q, (s.proc q).flags = 0 → (s.proc q).priority ≤ 0) →
      Excused s (.irq .clock) .forever
  | segment {call : Call n} {msg : Addr} : Segmented s →
      Excused s (.sysCall call msg) (.assertFail .virToLinear)

/-- No other stop is possible. -/
theorem TableInv.excused {job : Job n} {reason : Stop} (inv : TableInv s b)
    (valid : job.Valid s.processReady) (depth : job.IsCall → s.intReenter = 0)
    (quiet : job.Quiet outside s) (stopped : (job.run outside s).outcome = .error reason) :
    Excused s job reason := by
  cases job with
  | sysCall call msg =>
    have quiet' : call.AsksInterrupt → b.pending s.processReady = false →
        WalOS.Quiet outside s.processReady := fun asks nothing =>
      quiet asks ((inv.rep.pending _).trans nothing)
    have spec : (sysSendRecv outside call.func call.srcDest msg s.processReady s).Sat
        (fun _ => True) _ _ :=
      sysSendRecv_sat call inv.rep inv.well ((ready_iff (inv.rep.shows _)).mp inv.ready)
        (fun _ => trivial) (fun _ _ => trivial) quiet'
    cases spec.stopped reason stopped with
    | reenter nested => exact absurd (depth trivial) nested
    | self names => exact absurd names valid.1
    | deadLock same _ => exact same ▸ .deadLock
    | segment moved => exact .segment moved
    | buffer isNull =>
      rcases isNull with isNull | ⟨q, blocked, isNull⟩
      · exact absurd isNull valid.2
      · exact absurd isNull (inv.buffered q blocked)
    | starved starved =>
      exact .starvedCall fun q other free =>
        (starved q other ((ready_iff (inv.rep.shows q)).mp free)).2
  | irq interrupt =>
    cases interrupt with
    | clock =>
      have spec : (clockIntHandler s).Sat (fun _ => True) _ _ := clockIntHandler_sat inv.rep
      obtain ⟨rfl, starved⟩ := spec.stopped reason stopped
      exact .starvedClock fun q free => starved q ((ready_iff (inv.rep.shows q)).mp free)
    | disk p =>
      have spec : (deliverIntToProc p s).Sat (fun _ => True) _ _ := deliverIntToProc_sat inv.rep
      exact (spec.stopped reason stopped).elim

/-- **The table is consistent over whole runs.** In every reachable state the table is `Consistent`;
a step unblocks a process only by the job it waits for; and the body of the next handler stops short
only for an `Excused` reason, never at an `ASSERT` of message passing. The ticks stay below the priorities
as long as none wrap. -/
theorem machine_consistent {m₀ m : Machine n} (started : Started m₀) (run : MachineRun m₀ m) :
    Consistent m ∧
      (∀ m' q, MachineStep m m' → (m.kernel.proc q).flags ≠ 0 → (m'.kernel.proc q).flags = 0 →
        ∃ job, m.mode.next = some job ∧ Releases m.kernel q job) ∧
      (∀ job outside reason, m.mode.next = some job → job.Quiet outside m.kernel →
        (job.run outside m.kernel).outcome = .error reason → Excused m.kernel job reason) ∧
      (CountedRun m₀ m → ∀ p, (m.kernel.proc p).ticks ≤ (m.kernel.proc p).priority) := by
  obtain ⟨b, inv⟩ := machineRun_inv started run
  refine ⟨inv.consistent, fun m' q step blocked free => ?_, fun job outside reason next quiet stopped =>
    inv.table.excused (inv.fits.next next).1 (inv.fits.next next).2 quiet stopped,
    fun counted => counted.bounded started⟩
  obtain ⟨table, fits⟩ := inv
  cases step with
  | @body outside s t mode job next quiet returned =>
    obtain ⟨b', table', does, _⟩ := table.run (fits.next next).1 quiet returned
    exact ⟨job, next, table.releases does
      (fun ready => blocked ((ready_iff (table.rep.shows q)).mpr ready))
      ((ready_iff (table'.rep.shows q)).mp free)⟩
  | write | trap _ | nest | restartReEnter | restartProcess => exact absurd free blocked

/-- The machine as boot leaves it. -/
def bootMachine : Machine totalTaskCnt := ⟨bootKernel, .kernel none []⟩

theorem bootMachine_started : Started bootMachine :=
  ⟨bootKernel_boot, fun _ => rfl, fun _ => rfl, rfl, rfl⟩

/-- The first process receives from the disk, with a clock interrupt in the call and one behind it, and
then the disk interrupt comes. -/
def firstReceives (count : ℕ) : Kernel totalTaskCnt :=
  bootKernel.after [fun s => pure (s.deepen (-1)), fun s => pure (s.deepen 1),
    fun s => pure (s.deepen 1), clockIntHandler, fun s => pure (s.deepen (-1)),
    sysSendRecv nowhere funcReceive msgSourceInterrupt 0x1000 consoleTask, fun s => pure (s.deepen (-1)),
    fun s => pure (s.deepen 1), clockIntHandler, fun s => pure (s.deepen (-1)),
    fun s => pure (s.deepen 1), deliverIntToProc consoleTask] count

/-- A step after which the tick count is the same. -/
theorem uncounted {t : Kernel n} (same : t.ticks = s.ticks) : Counted s t := fun counts => absurd same counts

set_option maxRecDepth 10000 in
theorem firstReceives_run : CountedRun bootMachine
    ⟨firstReceives 11, .kernel (some (.irq (.disk consoleTask))) []⟩ := by
  let job : Job totalTaskCnt := .sysCall (.receive .interrupt) 0x1000
  have valid : job.Valid bootKernel.processReady := ⟨fun same => (by cases same), by decide⟩
  have quiet : job.Quiet nowhere (firstReceives 5) := fun _ _ => by unfold WalOS.Quiet; decide
  have calls : (job.run nowhere (firstReceives 5)).outcome = .ok (firstReceives 6) :=
    after_step (s := bootKernel) 5 rfl (by decide)
  have ticks : (clockIntHandler (firstReceives 3)).outcome = .ok (firstReceives 4) :=
    after_step 3 rfl (by decide)
  have ticks' : (clockIntHandler (firstReceives 8)).outcome = .ok (firstReceives 9) :=
    after_step 8 rfl (by decide)
  have trapped : CountedRun bootMachine ⟨firstReceives 2, .kernel (some job) []⟩ :=
    (Relation.ReflTransGen.single ⟨.restartProcess, uncounted rfl⟩).tail ⟨.trap valid, uncounted rfl⟩
  have nested : CountedRun bootMachine ⟨firstReceives 5, .kernel (some job) []⟩ :=
    ((trapped.tail ⟨@MachineStep.nest _ _ _ _ .clock, uncounted rfl⟩).tail
      ⟨@MachineStep.body _ nowhere _ _ _ _ rfl trivial ticks, fun _ => by decide⟩).tail
      ⟨.restartReEnter, uncounted rfl⟩
  have blocked : CountedRun bootMachine ⟨firstReceives 7, .user 1⟩ :=
    (nested.tail ⟨.body rfl quiet calls, uncounted rfl⟩).tail ⟨.restartProcess, uncounted rfl⟩
  have ticked : CountedRun bootMachine ⟨firstReceives 10, .user 1⟩ :=
    ((blocked.tail ⟨@MachineStep.trap _ _ _ (.irq .clock) trivial, uncounted rfl⟩).tail
      ⟨@MachineStep.body _ nowhere _ _ _ _ rfl trivial ticks', fun _ => by decide⟩).tail
      ⟨.restartProcess, uncounted rfl⟩
  exact ticked.tail ⟨.trap trivial, uncounted rfl⟩

set_option maxRecDepth 10000 in
/-- The interrupt releases the process that waits for it. -/
theorem machine_consistent_disk :
    let m : Machine totalTaskCnt := ⟨firstReceives 11, .kernel (some (.irq (.disk consoleTask))) []⟩
    (m.kernel.proc consoleTask).flags = msgRecving ∧ ((firstReceives 12).proc consoleTask).flags = 0 ∧
      Consistent m ∧ (∃ job, m.mode.next = some job ∧ Releases m.kernel consoleTask job) ∧
      ∀ p, (m.kernel.proc p).ticks ≤ (m.kernel.proc p).priority := by
  intro m
  have step : MachineStep m ⟨firstReceives 12, .kernel none []⟩ :=
    @MachineStep.body _ nowhere _ _ _ _ rfl trivial (after_step 11 rfl (by decide))
  obtain ⟨consistent, released, _, bounded⟩ :=
    machine_consistent bootMachine_started firstReceives_run.run
  exact ⟨by decide, by decide, consistent, released _ consoleTask step (by decide) (by decide),
    bounded firstReceives_run⟩

/-! ### Ticks that wrap -/

/-- A clock interrupt in a handler. -/
def Kernel.nestedTick (s : Kernel n) : Kernel n :=
  ({ s with ticks := s.ticks + 1 } : Kernel n).modify s.processReady fun p =>
    { p with ticks := decInt p.ticks }

/-- It comes, is handled, and leaves. -/
theorem nestedTick_run (outermost : s.intReenter = 0) (outer : Option (Job n)) :
    MachineRun ⟨s, .kernel outer []⟩ ⟨s.nestedTick, .kernel outer []⟩ := by
  have nested : (s.deepen 1).nestedTick.intReenter ≠ 0 := by
    show s.intReenter + 1 ≠ 0
    omega
  have handled : (clockIntHandler (s.deepen 1)).outcome = .ok (s.deepen 1).nestedTick := by
    unfold clockIntHandler
    exact congrArg Traced.outcome (if_pos nested)
  have back : (s.deepen 1).nestedTick.deepen (-1) = s.nestedTick := by
    unfold Kernel.nestedTick Kernel.deepen Kernel.modify
    dsimp only
    rw [show s.intReenter + 1 + -1 = s.intReenter by omega]
  rw [← back]
  exact ((Relation.ReflTransGen.single (@MachineStep.nest _ _ _ _ .clock)).tail
    (@MachineStep.body _ (fun _ => s.proc s.processReady) _ _ _ _ rfl trivial handled)).tail .restartReEnter

/-- **Any number of them.** -/
theorem nestedTicks_run (outermost : s.intReenter = 0) (outer : Option (Job n)) (count : ℕ) :
    MachineRun ⟨s, .kernel outer []⟩ ⟨Kernel.nestedTick^[count] s, .kernel outer []⟩ := by
  induction count generalizing s with
  | zero => exact .refl
  | succ count ih => exact (nestedTick_run outermost outer).trans (ih outermost)

theorem nestedTicks_ticks (s : Kernel n) (count : ℕ) :
    (Kernel.nestedTick^[count] s).processReady = s.processReady ∧
    ((Kernel.nestedTick^[count] s).proc s.processReady).ticks =
      decInt^[count] (s.proc s.processReady).ticks ∧
    ((Kernel.nestedTick^[count] s).proc s.processReady).priority =
      (s.proc s.processReady).priority := by
  induction count generalizing s with
  | zero => exact ⟨rfl, rfl, rfl⟩
  | succ count ih =>
    obtain ⟨ready, ticks, priority⟩ := ih s.nestedTick
    have first : (s.nestedTick.proc s.processReady).ticks = decInt (s.proc s.processReady).ticks := by
      rw [Kernel.nestedTick, modify_proc, if_pos rfl]
    have second : (s.nestedTick.proc s.processReady).priority = (s.proc s.processReady).priority := by
      rw [Kernel.nestedTick, modify_proc, if_pos rfl]
    exact ⟨ready, ticks.trans (congrArg decInt^[count] first), priority.trans second⟩

/-- Down to the least `int`. -/
theorem decInt_iterate (start : Int) (count : ℕ) (above : -2147483648 ≤ start - count) :
    decInt^[count] start = start - count := by
  induction count with
  | zero => simp
  | succ count ih =>
    rw [Function.iterate_succ_apply', ih (by omega), decInt_of_lt (by omega)]
    omega

/-- Below that comes the greatest. -/
theorem decInt_wraps {start : Int} {count : ℕ} (least : start - count = -2147483648) :
    decInt^[count + 1] start = 2147483647 := by
  rw [Function.iterate_succ_apply', decInt_iterate start count least.ge, least]
  rfl

/-- **The ticks wrap.** In a system call of the first process the clock ticks until its ticks are the
greatest `int`. -/
theorem ticks_wrap : ∃ m, MachineRun bootMachine m ∧
    (m.kernel.proc 0).priority < (m.kernel.proc 0).ticks := by
  let job : Job totalTaskCnt := .sysCall (.send hddTask) 0x1000
  have valid : job.Valid bootKernel.processReady :=
    ⟨fun same : hddTask = 0 => absurd same (by decide), by decide⟩
  have trapped : MachineRun bootMachine ⟨(bootKernel.deepen (-1)).deepen 1, .kernel (some job) []⟩ :=
    (Relation.ReflTransGen.single .restartProcess).tail (.trap valid)
  obtain ⟨count, least⟩ : ∃ count : ℕ, (15 : Int) - count = -2147483648 := ⟨2147483663, rfl⟩
  obtain ⟨_, ticks, priority⟩ := nestedTicks_ticks ((bootKernel.deepen (-1)).deepen 1) (count + 1)
  refine ⟨_, trapped.trans (nestedTicks_run rfl (some job) (count + 1)), ?_⟩
  have wrapped : (15 : Int) < decInt^[count + 1] 15 := by
    rw [decInt_wraps least]
    decide
  exact lt_of_eq_of_lt priority (lt_of_lt_of_eq wrapped ticks.symm)

end WalOS
