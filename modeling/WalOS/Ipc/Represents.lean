/-
**The process table represents a message state.**

`Represents s b`: the flags, peers, links, buffers and pending interrupts in the table of `s` say
exactly what `b` says. The tests of the code on flags and peers are then tests on `b`
(`sending_iff`, `recving_iff`, `accepts_iff`, `interruptible_iff`).

`Fixed s t` collects what nothing changes: segment bases, priorities and the handler depth. `Kept s t` adds
what a call that returns leaves alone: the tick count, and that `process_ready` is unblocked and ticks stay
below priorities.
-/

import WalOS.Kernel.Interrupt
import WalOS.Ipc.Post
import WalOS.Ipc.Links

namespace WalOS

open Rendezvous

variable {n : ℕ}

/-- How the code writes a source: `P_ANY`, `MSG_SOURCE_INTERRUPT` or a process id. -/
def sourceCode : Source (Fin n) → Int
  | .any => pAny n
  | .only q => pid q
  | .interrupt => msgSourceInterrupt

/-- What the flags and the peer of an entry say. -/
def Shows (e : Process n) : Wait (Fin n) → Prop
  | .ready => e.flags = 0
  | .sending d => e.flags = msgSending ∧ e.sendTo = pid d
  | .receiving src => e.flags = msgRecving ∧ e.recvFrom = sourceCode src

/-- **The table of `s` represents `b`.** -/
structure Represents (s : Kernel n) (b : Post n) : Prop where
  id : ∀ p, ((s.proc p).id : Int) = pid p
  shows : ∀ p, Shows (s.proc p) (b.mail.wait p)
  queues : Queues s b.mail.queue
  buffer : ∀ p, (s.proc p).msg = b.buffer p
  mem : s.mem = b.mem
  pending : ∀ p, (s.proc p).haveIntMsg = b.pending p

/-- What nothing changes. -/
structure Fixed (s t : Kernel n) : Prop where
  segBase : ∀ p, (t.proc p).segBase = (s.proc p).segBase
  priority : ∀ p, (t.proc p).priority = (s.proc p).priority
  intReenter : t.intReenter = s.intReenter

/-- What a call leaves alone. -/
structure Kept (s t : Kernel n) : Prop where
  segBase : ∀ p, (t.proc p).segBase = (s.proc p).segBase
  priority : ∀ p, (t.proc p).priority = (s.proc p).priority
  intReenter : t.intReenter = s.intReenter
  ticks : t.ticks = s.ticks
  bounded : TicksBounded s → TicksBounded t
  ready : (s.proc s.processReady).flags = 0 → (t.proc t.processReady).flags = 0

theorem Kept.fixed {s t : Kernel n} (kept : Kept s t) : Fixed s t :=
  ⟨kept.segBase, kept.priority, kept.intReenter⟩

theorem Fixed.trans {s t u : Kernel n} (first : Fixed s t) (second : Fixed t u) : Fixed s u where
  segBase q := (second.segBase q).trans (first.segBase q)
  priority q := (second.priority q).trans (first.priority q)
  intReenter := second.intReenter.trans first.intReenter

theorem Rescheduled.fixed {s t : Kernel n} (moved : Rescheduled s t) : Fixed s t where
  segBase q := by rw [moved.proc q]
  priority q := by rw [moved.proc q]
  intReenter := moved.intReenter

/-! ### The flags -/

section Shows

variable {e : Process n} {w : Wait (Fin n)}

theorem ready_iff (shown : Shows e w) : e.flags = 0 ↔ w = .ready := by
  cases w with
  | ready => exact iff_of_true shown rfl
  | sending d => exact iff_of_false (by rw [shown.1]; decide) (by simp)
  | receiving src => exact iff_of_false (by rw [shown.1]; decide) (by simp)

theorem sending_iff (shown : Shows e w) : e.flags &&& msgSending ≠ 0 ↔ ∃ d, w = .sending d := by
  cases w with
  | ready =>
    have flags : e.flags = 0 := shown
    exact iff_of_false (by rw [flags]; decide) (by simp)
  | sending d => exact iff_of_true (by rw [shown.1]; decide) ⟨d, rfl⟩
  | receiving src => exact iff_of_false (by rw [shown.1]; decide) (by simp)

theorem recving_iff (shown : Shows e w) :
    e.flags &&& msgRecving ≠ 0 ↔ ∃ src, w = .receiving src := by
  cases w with
  | ready =>
    have flags : e.flags = 0 := shown
    exact iff_of_false (by rw [flags]; decide) (by simp)
  | sending d => exact iff_of_false (by rw [shown.1]; decide) (by simp)
  | receiving src => exact iff_of_true (by rw [shown.1]; decide) ⟨src, rfl⟩

end Shows

/-! ### The peers -/

theorem sourceCode_inj {src src' : Source (Fin n)} : sourceCode src = sourceCode src' ↔ src = src' := by
  refine ⟨fun same => ?_, fun same => same ▸ rfl⟩
  cases src <;> cases src' <;> simp only [sourceCode] at same
  · rfl
  · exact absurd same.symm (pid_ne_pAny _)
  · exact absurd same pAny_ne_interrupt
  · exact absurd same (pid_ne_pAny _)
  · rw [pid_inj.mp same]
  · exact absurd same (pid_ne_interrupt _)
  · exact absurd same.symm pAny_ne_interrupt
  · exact absurd same.symm (pid_ne_interrupt _)
  · rfl

/-- The test of `msg_send` on the waiting receiver. -/
theorem accepts_iff (src : Source (Fin n)) (p : Fin n) :
    sourceCode src = pid p ∨ sourceCode src = pAny n ↔ src.Accepts p := by
  cases src with
  | any => exact iff_of_true (Or.inr rfl) trivial
  | only q =>
    simp only [sourceCode, Source.Accepts, pid_inj, pid_ne_pAny, or_false]
    exact eq_comm
  | interrupt =>
    simp only [sourceCode, Source.Accepts, (pid_ne_interrupt p).symm, pAny_ne_interrupt.symm,
      or_false]

/-- The test of an interrupt on the waiting receiver. -/
theorem interruptible_iff (src : Source (Fin n)) :
    sourceCode src = msgSourceInterrupt ∨ sourceCode src = pAny n ↔ src.Interruptible := by
  cases src with
  | any => exact iff_of_true (Or.inr rfl) trivial
  | only q => exact iff_of_false (by simp [sourceCode, pid_ne_interrupt, pid_ne_pAny]) (fun h => h)
  | interrupt => exact iff_of_true (Or.inl rfl) trivial

/-! ### Rescheduling -/

theorem Shows.congr {e e' : Process n} {w : Wait (Fin n)} (shown : Shows e w)
    (flags : e'.flags = e.flags) (recvFrom : e'.recvFrom = e.recvFrom)
    (sendTo : e'.sendTo = e.sendTo) : Shows e' w := by
  cases w with
  | ready => exact flags.trans shown
  | sending d => exact ⟨flags.trans shown.1, sendTo.trans shown.2⟩
  | receiving src => exact ⟨flags.trans shown.1, recvFrom.trans shown.2⟩

/-- An entry that changes shows its new state, and the others show theirs. -/
theorem Shows.put {s : Kernel n} {m : Mail (Fin n)} {p : Fin n} {w : Wait (Fin n)}
    {f : Process n → Process n} (shown : ∀ r, Shows (s.proc r) (m.wait r))
    (own : Shows (s.proc p) (m.wait p) → Shows (f (s.proc p)) w) (q : Fin n) :
    Shows ((s.modify p f).proc q) ((m.put p w).wait q) := by
  rw [modify_proc, Mail.put_wait]
  by_cases same : q = p
  · subst same
    rw [if_pos rfl, if_pos rfl]
    exact own (shown q)
  · rw [if_neg same, if_neg same]
    exact shown q

/-- A receiver that is released is ready. -/
theorem Shows.released {e e' : Process n} {src : Source (Fin n)} (shown : Shows e (.receiving src))
    (flags : e'.flags = e.flags &&& ~~~msgRecving) : Shows e' .ready := by
  show e'.flags = 0
  rw [flags, shown.1]
  decide

/-- Other ticks and another `process_ready` do not change what is represented. -/
theorem Represents.rescheduled {s t : Kernel n} {b : Post n} (rep : Represents s b)
    (moved : Rescheduled s t) : Represents t b where
  id p := by rw [moved.proc p]; exact rep.id p
  shows p := by rw [moved.proc p]; exact (rep.shows p).congr rfl rfl rfl
  queues := rep.queues.congr (fun q => by rw [moved.proc q]) (fun q => by rw [moved.proc q])
  buffer p := by rw [moved.proc p]; exact rep.buffer p
  mem := moved.mem.trans rep.mem
  pending p := by rw [moved.proc p]; exact rep.pending p

/-! ### Addresses -/

theorem virToLinear_sat {outside : Int → Process n} {s : Kernel n} {p : Fin n} {a : Addr}
    {acc : Int → Prop} {err : Stop → Prop} (inside : acc (pid p))
    (segment : (s.proc p).segBase ≠ 0 → err (.assertFail .virToLinear)) :
    (virToLinear outside s (pid p) a).Sat acc (· = a) err := by
  refine (procTable_sat inside).bind fun e same => ?_
  subst same
  refine Traced.Sat.check_bind (fun moved => segment fun zero => moved fun _ => ?_) fun flat =>
    Traced.Sat.pure (flat (inTable_pid p).2)
  rw [zero]
  exact BitVec.zero_add a

end WalOS
