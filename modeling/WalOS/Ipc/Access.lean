/-
**Which entries of the process table a message call looks at.**

`msg_recv` takes every source but `P_ANY` for an index into the table, `MSG_SOURCE_INTERRUPT`
included, unless a pending interrupt has answered the receive before.

* `table_accesses` — in every reachable state a call keeps to the table exactly when it is not a
  receive from `MSG_SOURCE_INTERRUPT` with nothing pending for its caller.
* `identify_off_table` — the receive that `handle_identify` starts with, when the disk has not
  answered yet, reads `proc_table[-10]`.
-/

import WalOS.Ipc.SysCall

namespace WalOS

open Rendezvous

variable {n : ℕ} {outside : Int → Process n} {s s₀ : Kernel n} {b : Post n} {p : Fin n} {a : Addr}

theorem virToLinear_outcome (outside : Int → Process n) (flat : (s.proc p).segBase = 0) (a : Addr) :
    (virToLinear outside s (pid p) a).outcome = .ok a := by
  have spec : (virToLinear outside s (pid p) a).Sat (fun _ => True) _ (fun _ => False) :=
    virToLinear_sat trivial fun moved => moved flat
  cases answer : (virToLinear outside s (pid p) a).outcome with
  | ok target => rw [spec.value target answer]
  | error reason => exact (spec.stopped reason answer).elim

/-- A receive from `MSG_SOURCE_INTERRUPT` with nothing pending looks up the entry of that index. -/
theorem interrupt_looked_up (id : ∀ q, ((s.proc q).id : Int) = pid q) (depth : s.intReenter = 0)
    (flat : (s.proc p).segBase = 0) (nothing : (s.proc p).haveIntMsg = false) :
    msgSourceInterrupt ∈
      (sysSendRecv outside funcReceive msgSourceInterrupt a p s).accesses := by
  unfold sysSendRecv
  simp only [id]
  refine Traced.mem_bind_right (Traced.outcome_check depth _) ?_
  refine Traced.mem_bind_right (virToLinear_outcome outside flat a) ?_
  refine Traced.mem_bind_right (Traced.outcome_check ?_ _) ?_
  · rw [store_mem, if_pos rfl]
    exact pid_ne_interrupt p
  rw [if_neg (show ¬ funcReceive = funcSend by decide), if_pos trivial]
  have unanswered : (recvCheck outside p msgSourceInterrupt a
      (s.store a { s.mem a with source := pid p })).outcome = .ok none := by
    unfold recvCheck
    rw [Traced.outcome_bind, assertThat, Traced.outcome_check, Except.bind, if_neg]
    · rfl
    · exact fun early => absurd early.1 (by simp [nothing])
    · rw [store_proc, id p]
      exact pid_ne_interrupt p
  refine Traced.mem_bind_right unanswered (Traced.mem_bind_left ?_)
  unfold recvLook
  rw [if_neg pAny_ne_interrupt.symm]
  exact Traced.mem_bind_left (List.mem_cons_self)

/-- **Which calls keep to the table.** In every reachable state, for every call of an unblocked
process and whatever memory holds around the table: all indices are on the table exactly when the
call is not a receive from `MSG_SOURCE_INTERRUPT` with no interrupt pending. -/
theorem table_accesses (boot : Booted s₀) (run : SysRun (fun _ => True) s₀ s)
    (outside : Int → Process n) (call : Call n) (msg : Addr) (free : (s.proc p).flags = 0) :
    (∀ index ∈ (sysSendRecv outside call.func call.srcDest msg p s).accesses, InTable n index) ↔
      ¬ (call = .receive .interrupt ∧ (s.proc p).haveIntMsg = false) := by
  obtain ⟨b, reached⟩ := sysRun_reached boot run
  constructor
  · rintro inside ⟨rfl, nothing⟩
    exact interrupt_off_table (inside _ (interrupt_looked_up reached.rep.id reached.intReenter
      (reached.segBase p) nothing))
  · intro answered
    have waits : call.AsksInterrupt → b.pending p ≠ false := by
      intro asks nothing
      cases call with
      | send d => exact asks
      | receive src => exact answered ⟨congrArg Call.receive asks, (reached.rep.pending p).trans nothing⟩
    exact (sysSendRecv_sat call reached.rep reached.well
      ((ready_iff (reached.rep.shows p)).mp free) inTable_pid
      (fun asks nothing => absurd nothing (waits asks))
      fun asks nothing => absurd nothing (waits asks)).access

theorem table_accesses_request :
    (∀ index ∈ (sysSendRecv nowhere (Call.send hddTask).func (Call.send hddTask).srcDest 0x1000
        fsTask bootKernel).accesses, InTable totalTaskCnt index) ↔
      ¬ (Call.send hddTask = .receive .interrupt ∧ (bootKernel.proc fsTask).haveIntMsg = false) :=
  table_accesses bootKernel_booted .refl nowhere (.send hddTask) 0x1000 rfl

/-- **The table is left** when `HDD_TASK` waits for an interrupt that has not come yet. -/
theorem identify_off_table :
    ¬ ∀ s, SysRun (fun _ => True) bootKernel s → ∀ (call : Call totalTaskCnt) (p : Fin totalTaskCnt)
      (msg : Addr), (s.proc p).flags = 0 →
      ∀ index ∈ (sysSendRecv nowhere call.func call.srcDest msg p s).accesses,
        InTable totalTaskCnt index := by
  intro inside
  have off : msgSourceInterrupt ∈
      (sysSendRecv nowhere funcReceive msgSourceInterrupt 0x1000 hddTask bootKernel).accesses := by
    decide
  exact interrupt_off_table
    (inside bootKernel .refl (.receive .interrupt) hddTask 0x1000 rfl msgSourceInterrupt off)

end WalOS
