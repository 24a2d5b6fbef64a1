/-
**An interrupt before a receive, and one after it.**

`send_recv` clears the buffer before it receives. So a process finds the same in it whether the interrupt
was kept for it (`msg_recv` copies a message made for the purpose) or comes while it waits
(`deliver_int_to_proc` patches two fields of the buffer).

* `sendRecv_receive` — the call up to `msg_recv`; `receive_early`, `receive_late` — what `msg_recv` does with
  an interrupt kept, and without one.
* `deliver_awaiting` — an interrupt for the process that waits.
* `interrupt_order` — **the two orders leave the same**.
-/

import WalOS.Ipc.SysCall

namespace WalOS

open Rendezvous

variable {n : ℕ} {outside : Int → Process n} {s s₀ t w : Kernel n} {p : Fin n}
  {src : Source (Fin n)} {msg : Addr} {usable : Addr → Prop} {acc : Int → Prop}

/-- `send_recv` for a send or a receive of `proc`; a `MSG_BOTH` makes one call of each kind. -/
def sendRecv (outside : Int → Process n) (call : Call n) (msg : Addr) (proc : Fin n) (s : Kernel n) :
    Ipc (Kernel n) :=
  sysSendRecv outside call.func call.srcDest msg proc
    (if call.func = funcReceive then s.store msg Message.zero else s)

/-- **`p` has got the interrupt in its buffer**, and for the others nothing changed. -/
structure Handed (s t : Kernel n) (p : Fin n) (msg : Addr) : Prop where
  mem : t.mem = Function.update s.mem msg Message.interrupt
  flags : (t.proc p).flags = 0
  haveIntMsg : (t.proc p).haveIntMsg = false
  others : ∀ q, q ≠ p → t.proc q = { s.proc q with ticks := (t.proc q).ticks }

/-- Nobody but `p` can be scheduled. -/
def NobodyElse (s : Kernel n) (p : Fin n) : Prop :=
  ∀ q, q ≠ p → (s.proc q).flags = 0 → (s.proc q).ticks ≤ 0 ∧ (s.proc q).priority ≤ 0

/-- The buffer as `msg_recv` gets it. -/
def Kernel.cleared (s : Kernel n) (p : Fin n) (msg : Addr) : Kernel n :=
  s.store msg { Message.zero with source := pid p }

/-- `p` waits for an interrupt. -/
def Kernel.awaiting (s : Kernel n) (p : Fin n) (src : Source (Fin n)) (msg : Addr) : Kernel n :=
  (s.cleared p msg).modify p fun e =>
    { e with flags := e.flags ||| msgRecving, msg := msg, recvFrom := sourceCode src }

/-! ### The call -/

theorem sourceCode_interruptible (interruptible : src.Interruptible) :
    sourceCode src = pAny n ∨ sourceCode src = msgSourceInterrupt :=
  ((interruptible_iff src).mpr interruptible).symm

theorem pid_ne_interruptible (interruptible : src.Interruptible) : pid p ≠ sourceCode src := by
  apply pid_ne_sourceCode
  rintro rfl
  exact interruptible

theorem virToLinear_flat (flat : (s.proc p).segBase = 0) (a : Addr) :
    (virToLinear outside s (pid p) a).Gives [pid p] a := by
  have read : (procTable outside s (pid p)).Gives [pid p] (s.proc p) := by
    rw [← entry_pid s outside p]
    exact .touch_bind rfl
  have linear : (s.proc p).segBase + a = a := by
    rw [flat]
    exact BitVec.zero_add a
  have checked : (assertThat .virToLinear (pid p < n → (s.proc p).segBase + a = a) >>= fun _ =>
      pure ((s.proc p).segBase + a)).Gives [] a := by
    refine .check_bind (fun _ => linear) ?_
    rw [linear]
    exact .pure a
  exact read.bind checked

/-- **`send_recv` up to `msg_recv`.** -/
theorem sendRecv_receive (id : ((s.proc p).id : Int) = pid p) (flat : (s.proc p).segBase = 0)
    (depth : s.intReenter = 0) (interruptible : src.Interruptible) :
    (sendRecv outside (.receive src) msg p s).outcome =
      (msgRecv outside p (sourceCode src) msg (s.cleared p msg)).outcome := by
  have stored : (s.store msg Message.zero).store msg
      { (s.store msg Message.zero).mem msg with source := pid p } = s.cleared p msg := by
    rw [store_mem, if_pos rfl]
    unfold Kernel.store Kernel.cleared Kernel.store
    dsimp only
    rw [Function.update_idem]
  have source : ((s.cleared p msg).mem msg).source = pid p := by
    rw [Kernel.cleared, store_mem, if_pos rfl]
  have other : ((s.cleared p msg).mem msg).source ≠ (Call.receive src).srcDest := by
    rw [source]
    exact pid_ne_interruptible interruptible
  have call : (Call.receive src).func = funcReceive := rfl
  have depth' : (s.store msg Message.zero).intReenter = 0 := depth
  have id' : (((s.store msg Message.zero).proc p).id : Int) = pid p := id
  unfold sendRecv sysSendRecv
  rw [if_pos call, (assertThat_gives depth').outcome_bind]
  simp only [id']
  rw [(virToLinear_flat (s := s.store msg Message.zero) flat msg).outcome_bind, stored,
    (assertThat_gives other).outcome_bind]
  rfl

/-! ### The two orders -/

/-- A receive that finds an interrupt kept. -/
theorem receive_early (id : ((s.proc p).id : Int) = pid p) (flat : (s.proc p).segBase = 0)
    (early : (s.proc p).haveIntMsg = true) (interruptible : src.Interruptible) :
    (msgRecv outside p (sourceCode src) msg s).outcome =
      .ok ((s.store msg Message.interrupt).modify p fun e => { e with haveIntMsg := false }) := by
  have other : ((s.proc p).id : Int) ≠ sourceCode src := id ▸ pid_ne_interruptible interruptible
  have answers : (s.proc p).haveIntMsg = true ∧
      (sourceCode src = pAny n ∨ sourceCode src = msgSourceInterrupt) :=
    ⟨early, sourceCode_interruptible interruptible⟩
  have check : (recvCheck outside p (sourceCode src) msg s).outcome = .ok (some
      ((s.store msg Message.interrupt).modify p fun e => { e with haveIntMsg := false })) := by
    unfold recvCheck
    rw [(assertThat_gives other).outcome_bind, if_pos answers, id,
      (virToLinear_flat flat msg).outcome_bind]
    rfl
  unfold msgRecv
  rw [Traced.bind_of_ok check]
  rfl

/-- A receive that finds nothing waits. -/
theorem receive_late (id : ((s.proc p).id : Int) = pid p) (late : (s.proc p).haveIntMsg = false)
    (interruptible : src.Interruptible) (empty : src = .any → (s.proc p).currentSend = none)
    (quiet : src = .interrupt → Quiet outside p) :
    (msgRecv outside p (sourceCode src) msg s).outcome =
      (block p (s.modify p fun e => { e with
        flags := e.flags ||| msgRecving, msg := msg, recvFrom := sourceCode src })).outcome := by
  have other : ((s.proc p).id : Int) ≠ sourceCode src := id ▸ pid_ne_interruptible interruptible
  have check : (recvCheck outside p (sourceCode src) msg s).outcome = .ok none := by
    unfold recvCheck
    rw [(assertThat_gives other).outcome_bind, if_neg fun answers => ?_]
    · rfl
    · rw [late] at answers
      cases answers.1
  have look : (recvLook outside p (sourceCode src) s).outcome = .ok none := by
    unfold recvLook
    cases src with
    | any =>
      rw [if_pos (show sourceCode .any = pAny n from rfl), empty rfl]
      rfl
    | only q => exact interruptible.elim
    | interrupt =>
      have notAny : sourceCode (.interrupt : Source (Fin n)) ≠ pAny n := pAny_ne_interrupt.symm
      rw [if_neg notAny]
      have read : (procTable outside s (sourceCode (.interrupt : Source (Fin n)))).Gives
          [msgSourceInterrupt] (outside msgSourceInterrupt) := by
        refine .touch_bind ?_
        rw [sourceCode, Kernel.entry, dif_neg interrupt_off_table]
        exact .pure _
      rw [read.outcome_bind, id, if_neg (quiet rfl)]
      rfl
  unfold msgRecv
  rw [Traced.bind_of_ok check]
  show (recvLook outside p (sourceCode src) s >>= _).outcome = _
  rw [Traced.bind_of_ok look]
  rfl

/-- **An interrupt for the process that waits**, also while `process_schedule` still looks. -/
theorem deliver_awaiting (free : (s.proc p).flags = 0)
    (interruptible : src.Interruptible) (moved : Rescheduled (s.awaiting p src msg) w) :
    ∃ t, (deliverIntToProc p w).outcome = .ok t ∧ Handed s t p msg := by
  have entry : w.proc p = { s.proc p with
      ticks := (w.proc p).ticks
      flags := (s.proc p).flags ||| msgRecving
      msg := msg
      recvFrom := sourceCode src } := by
    rw [moved.proc p, Kernel.awaiting, modify_proc, if_pos rfl]
    rfl
  have flags : (w.proc p).flags = msgRecving := by
    rw [entry, free]
    rfl
  have waits : (w.proc p).flags &&& msgRecving ≠ 0 ∧
      ((w.proc p).recvFrom = msgSourceInterrupt ∨ (w.proc p).recvFrom = pAny n) := by
    refine ⟨by rw [flags]; decide, ?_⟩
    rw [entry]
    exact (sourceCode_interruptible interruptible).symm
  have buffer : (w.proc p).msg = msg := by rw [entry]
  have content : w.mem = Function.update s.mem msg { Message.zero with source := pid p } := moved.mem
  have free' : (((w.store (w.proc p).msg (w.mem (w.proc p).msg).patched).modify p fun e =>
      { e with msg := null, haveIntMsg := false, flags := e.flags &&& ~~~msgRecving,
               recvFrom := pNoTask n }).proc p).flags = 0 := by
    rw [modify_proc, if_pos rfl, store_proc, flags]
    exact (by decide : msgRecving &&& ~~~msgRecving = 0)
  refine ⟨_, ?_, ⟨?_, free', ?_, fun q other => ?_⟩⟩
  · unfold deliverIntToProc
    rw [if_pos waits]
    show (assertThat .unblock _ >>= fun _ => _).outcome = _
    rw [(assertThat_gives free').outcome_bind]
    rfl
  · rw [modify_mem, buffer, content]
    unfold Kernel.store
    dsimp only
    rw [content, Function.update_self, Function.update_idem]
    rfl
  · rw [modify_proc, if_pos rfl]
  · rw [modify_proc, if_neg other, store_proc, moved.proc q, Kernel.awaiting, modify_proc,
      if_neg other]
    rfl

/-- The receive blocks, and `process_schedule` looks for another process. -/
theorem sendRecv_awaits (id : ((s.proc p).id : Int) = pid p) (flat : (s.proc p).segBase = 0)
    (depth : s.intReenter = 0) (free : (s.proc p).flags = 0) (late : (s.proc p).haveIntMsg = false)
    (interruptible : src.Interruptible) (empty : src = .any → (s.proc p).currentSend = none)
    (quiet : src = .interrupt → Quiet outside p) :
    (sendRecv outside (.receive src) msg p s).outcome =
      (processSchedule scheduleFuel (s.awaiting p src msg)).outcome := by
  have blocked : ((s.awaiting p src msg).proc p).flags ≠ 0 := by
    rw [Kernel.awaiting, modify_proc, if_pos rfl, Kernel.cleared, store_proc, free]
    exact (by decide : (0 : BitVec 32) ||| msgRecving ≠ 0)
  rw [sendRecv_receive id flat depth interruptible,
    receive_late (s := s.cleared p msg) id late interruptible empty quiet]
  exact (assertThat_gives blocked).outcome_bind _

/-- The interrupt first. -/
theorem deliver_receive (id : ((s.proc p).id : Int) = pid p) (flat : (s.proc p).segBase = 0)
    (depth : s.intReenter = 0) (free : (s.proc p).flags = 0) (interruptible : src.Interruptible) :
    ∃ t, (deliverIntToProc p s >>= sendRecv outside (.receive src) msg p).outcome = .ok t ∧
      Handed s t p msg := by
  obtain ⟨u, kept⟩ : ∃ u, u = s.modify p fun e => { e with haveIntMsg := true } := ⟨_, rfl⟩
  have entry : u.proc p = { s.proc p with haveIntMsg := true } := by
    rw [kept, modify_proc, if_pos rfl]
  have delivered : deliverIntToProc p s = pure u := by
    rw [kept]
    refine if_neg fun waits => waits.1 ?_
    rw [free]
    decide
  have id' : ((u.proc p).id : Int) = pid p := by rw [entry, ← id]
  have flat' : (u.proc p).segBase = 0 := by rw [entry, ← flat]
  have depth' : u.intReenter = 0 := by rw [kept, ← depth]; rfl
  rw [delivered, pure_bind, sendRecv_receive id' flat' depth' interruptible,
    receive_early (s := u.cleared p msg) id' flat' (by rw [Kernel.cleared, store_proc, entry])
      interruptible]
  refine ⟨_, rfl, ⟨?_, ?_, ?_, fun q other => ?_⟩⟩
  · rw [kept]
    exact Function.update_idem _ _ _
  · rw [modify_proc, if_pos rfl, store_proc, Kernel.cleared, store_proc, entry]
    exact free
  · rw [modify_proc, if_pos rfl]
  · rw [modify_proc, if_neg other, store_proc, Kernel.cleared, store_proc, kept, modify_proc,
      if_neg other]

/-- Whom `process_schedule` does not find. -/
theorem nobodyElse_of_forever
    (found : (processSchedule scheduleFuel (s.awaiting p src msg)).outcome = .error .forever) :
    NobodyElse s p := by
  intro q other ready
  have entry : (s.awaiting p src msg).proc q = s.proc q := by
    rw [Kernel.awaiting, modify_proc, if_neg other]
    rfl
  by_contra positive
  refine (processSchedule_returns (p := q) (le_refl scheduleFuel) ?_ ?_ fun _ => True).stopped _ found
  · rw [entry, ready]
  · rw [entry]
    omega

theorem looksAgain_rescheduled (looks : Relation.ReflTransGen LooksAgain s w) : Rescheduled s w := by
  induction looks with
  | refl => exact .refl _
  | tail _ step ih => exact ih.trans step.rescheduled

/-- **The two orders leave the same**, for a process that waits for nobody. -/
theorem interrupt_order (boot : Booted s₀) (run : SysRun usable s₀ s) (free : (s.proc p).flags = 0)
    (late : (s.proc p).haveIntMsg = false) (interruptible : src.Interruptible)
    (empty : src = .any → (s.proc p).currentSend = none) (quiet : src = .interrupt → Quiet outside p) :
    (∃ t, (deliverIntToProc p s >>= sendRecv outside (.receive src) msg p).outcome = .ok t ∧
      Handed s t p msg) ∧
    ((∃ t, (sendRecv outside (.receive src) msg p s >>= deliverIntToProc p).outcome = .ok t ∧
        Handed s t p msg) ∨
      ((sendRecv outside (.receive src) msg p s).outcome = .error .forever ∧ NobodyElse s p)) ∧
    (sendRecv outside (.receive src) msg p s).outcome =
        (processSchedule scheduleFuel (s.awaiting p src msg)).outcome ∧
      ∀ w, Relation.ReflTransGen LooksAgain (s.awaiting p src msg) w →
        ∃ t, (deliverIntToProc p w).outcome = .ok t ∧ Handed s t p msg := by
  obtain ⟨b, reached⟩ := sysRun_reached boot run
  have id := reached.rep.id p
  have flat := reached.segBase p
  have depth := reached.intReenter
  have receive : (sendRecv outside (.receive src) msg p s).outcome =
      (processSchedule scheduleFuel (s.awaiting p src msg)).outcome :=
    sendRecv_awaits id flat depth free late interruptible empty quiet
  refine ⟨deliver_receive id flat depth free interruptible, ?_, receive, fun w looks =>
    deliver_awaiting free interruptible (looksAgain_rescheduled looks)⟩
  have schedule := processSchedule_sat scheduleFuel (s.awaiting p src msg) fun _ => True
  cases found : (processSchedule scheduleFuel (s.awaiting p src msg)).outcome with
  | ok w =>
    left
    rw [Traced.bind_of_ok (receive.trans found)]
    exact deliver_awaiting free interruptible (schedule.value w found).1
  | error reason =>
    obtain rfl := schedule.stopped reason found
    exact .inr ⟨receive.trans found, nobodyElse_of_forever found⟩

/-- `HDD_TASK` waits for its first interrupt, or has it already. -/
theorem interrupt_order_hdd :
    (∃ t, (deliverIntToProc hddTask bootKernel >>=
        sendRecv nowhere (.receive .interrupt) 0x1000 hddTask).outcome = .ok t ∧
      Handed bootKernel t hddTask 0x1000) ∧
    ((∃ t, (sendRecv nowhere (.receive .interrupt) 0x1000 hddTask bootKernel >>=
        deliverIntToProc hddTask).outcome = .ok t ∧ Handed bootKernel t hddTask 0x1000) ∨
      ((sendRecv nowhere (.receive .interrupt) 0x1000 hddTask bootKernel).outcome = .error .forever ∧
        NobodyElse bootKernel hddTask)) :=
  have order := interrupt_order bootKernel_booted (.refl : SysRun (· ≠ null) bootKernel bootKernel)
    (p := hddTask) rfl rfl (show (Source.interrupt : Source (Fin totalTaskCnt)).Interruptible from trivial)
    (fun same => by cases same) fun _ sends => absurd rfl sends.1
  ⟨order.1, order.2.1⟩

end WalOS
