/-
**Interrupts inside a receive.**

`sys_call` enables interrupts before it dispatches, so a disk interrupt can fall between the three
parts of `msg_recv`. `Receiving n` is a table together with the place where a receive stands:
`look` after the check for a pending interrupt, `commit` after the search for a sender.

* `Window r d` — the receive that `d` is in has passed its check and is going to block waiting for
  an interrupt. An interrupt that comes now is only noted in `have_int_msg`, and `d` blocks on it.
* `wakeup_kept` — as long as no interrupt for a process falls into its window, no process is ever
  blocked on an interrupt that has already come; and one that does fall into the window is lost once
  the receive is carried out.
* `identify_misses_interrupt` — the interrupt that `handle_identify` waits for, arriving early.
-/

import WalOS.Ipc.Run

namespace WalOS

open Rendezvous

variable {n : ℕ} {s : Kernel n} {b : Post n} {p d : Fin n} {src : Source (Fin n)}

/-- The process waits for an interrupt that has already come. -/
def LostWakeup (s : Kernel n) (d : Fin n) : Prop :=
  (s.proc d).flags &&& msgRecving ≠ 0 ∧
    ((s.proc d).recvFrom = pAny n ∨ (s.proc d).recvFrom = msgSourceInterrupt) ∧
    (s.proc d).haveIntMsg = true

instance (s : Kernel n) (d : Fin n) : Decidable (LostWakeup s d) :=
  inferInstanceAs (Decidable (_ ∧ _ ∧ _))

/-! ### A receive in parts -/

/-- Where a receive stands. -/
inductive RecvPc (n : ℕ) where
  | idle
  | look (p : Fin n) (src : Source (Fin n)) (msg : Addr)
  | commit (p : Fin n) (src : Source (Fin n)) (msg : Addr) (found : Option (Fin n × Option (Fin n)))

/-- A table with a receive under way. -/
structure Receiving (n : ℕ) where
  kernel : Kernel n
  pc : RecvPc n

/-- **The receive goes on.** -/
inductive RecvStep : Receiving n → Receiving n → Prop where
  | look {outside : Int → Process n} {s : Kernel n} {p : Fin n} {src : Source (Fin n)} {msg : Addr}
      {found : Option (Fin n × Option (Fin n))} : (src = .interrupt → Quiet outside p) →
      (recvLook outside p (sourceCode src) s).outcome = .ok found →
      RecvStep ⟨s, .look p src msg⟩ ⟨s, .commit p src msg found⟩
  | commit {outside : Int → Process n} {s t : Kernel n} {p : Fin n} {src : Source (Fin n)}
      {msg : Addr} {found : Option (Fin n × Option (Fin n))} :
      (recvCommit outside p (sourceCode src) msg found s).outcome = .ok t →
      RecvStep ⟨s, .commit p src msg found⟩ ⟨t, .idle⟩

/-- **One step**: a send, a part of a receive, or an interrupt that is allowed to come now. -/
inductive WakeStep (allowed : Receiving n → Fin n → Prop) : Receiving n → Receiving n → Prop where
  | send {outside : Int → Process n} {s t : Kernel n} {p d : Fin n} {msg : Addr} :
      (s.proc p).flags = 0 → p ≠ d → (msgSend outside p (pid d) msg s).outcome = .ok t →
      WakeStep allowed ⟨s, .idle⟩ ⟨t, .idle⟩
  | answered {outside : Int → Process n} {s t : Kernel n} {p : Fin n} {src : Source (Fin n)}
      {msg : Addr} : (s.proc p).flags = 0 → src ≠ .only p →
      (recvCheck outside p (sourceCode src) msg s).outcome = .ok (some t) →
      WakeStep allowed ⟨s, .idle⟩ ⟨t, .idle⟩
  | check {outside : Int → Process n} {s : Kernel n} {p : Fin n} {src : Source (Fin n)}
      {msg : Addr} : (s.proc p).flags = 0 → src ≠ .only p →
      (recvCheck outside p (sourceCode src) msg s).outcome = .ok none →
      WakeStep allowed ⟨s, .idle⟩ ⟨s, .look p src msg⟩
  | recv {r r' : Receiving n} : RecvStep r r' → WakeStep allowed r r'
  | deliver {r : Receiving n} {d : Fin n} {t : Kernel n} : allowed r d →
      (deliverIntToProc d r.kernel).outcome = .ok t → WakeStep allowed r ⟨t, r.pc⟩

/-- Runs in which interrupts come when they are allowed to. -/
abbrev WakeRun (allowed : Receiving n → Fin n → Prop) : Receiving n → Receiving n → Prop :=
  Relation.ReflTransGen (WakeStep allowed)

/-- **The window.** The receive of `d` is past its check and is going to wait for an interrupt. -/
def Window (r : Receiving n) (d : Fin n) : Prop :=
  match r.pc with
  | .idle => False
  | .look p src _ =>
    p = d ∧ (src = .interrupt ∨ (src = .any ∧ (r.kernel.proc d).currentSend = none))
  | .commit p src _ found => p = d ∧ src.Interruptible ∧ found = none

/-! ### The invariant -/

/-- What holds at each place of a receive. -/
def AtPc (b : Post n) : RecvPc n → Prop
  | .idle => True
  | .look p src _ => b.mail.wait p = .ready ∧ src ≠ .only p ∧
      (src.Interruptible → b.pending p = true → src = .any ∧ b.mail.queue p ≠ [])
  | .commit p src _ found => b.mail.wait p = .ready ∧ FoundIn b p src found ∧
      (src.Interruptible → b.pending p = true → found ≠ none)

/-- Nobody waits for an interrupt that is pending. -/
def Awake (b : Post n) : Prop :=
  ∀ q src, b.mail.wait q = .receiving src → src.Interruptible → b.pending q = false

/-- The invariant of a receive under way. -/
structure WakeInv (r : Receiving n) (b : Post n) : Prop where
  rep : Represents r.kernel b
  well : b.mail.WellFormed
  awake : Awake b
  place : AtPc b r.pc

theorem Represents.lostWakeup_iff (rep : Represents s b) (d : Fin n) :
    LostWakeup s d ↔
      ∃ src, b.mail.wait d = .receiving src ∧ src.Interruptible ∧ b.pending d = true := by
  have shown := rep.shows d
  unfold LostWakeup
  rw [rep.pending d, recving_iff shown]
  constructor
  · rintro ⟨⟨src, receiving⟩, peer, early⟩
    rw [receiving] at shown
    rw [shown.2, or_comm] at peer
    exact ⟨src, receiving, (interruptible_iff src).mp peer, early⟩
  · rintro ⟨src, receiving, interruptible, early⟩
    rw [receiving] at shown
    rw [shown.2, or_comm]
    exact ⟨⟨src, receiving⟩, (interruptible_iff src).mpr interruptible, early⟩

/-- A state without a lost interrupt. -/
theorem WakeInv.kept {r : Receiving n} (inv : WakeInv r b) (d : Fin n) :
    ¬ LostWakeup r.kernel d := by
  rw [inv.rep.lostWakeup_iff]
  rintro ⟨src, receiving, interruptible, early⟩
  rw [inv.awake d src receiving interruptible] at early
  cases early

/-- Nobody else starts to wait, and no other interrupt comes. -/
theorem Awake.of_put (awake : Awake b) {c : Post n}
    (wait : ∀ q, q ≠ p → c.mail.wait q = b.mail.wait q)
    (pending : ∀ q, q ≠ p → c.pending q = b.pending q)
    (here : ∀ src, c.mail.wait p = .receiving src → src.Interruptible → c.pending p = false) :
    Awake c := by
  intro q src receiving interruptible
  by_cases same : q = p
  · exact same ▸ here src (same ▸ receiving) interruptible
  · rw [pending q same]
    exact awake q src (wait q same ▸ receiving) interruptible

theorem Awake.send {b' : Post n} {a : Addr} (awake : Awake b) (send : b.Send p d a b') :
    Awake b' := by
  cases send with
  | pass _ _ =>
    exact awake.of_put Post.put_wait_of_ne (fun _ _ => rfl) fun src receiving =>
      absurd (Post.put_wait_self.symm.trans receiving) (by simp)
  | queue _ _ =>
    exact awake.of_put Post.put_wait_of_ne (fun _ _ => rfl) fun src receiving =>
      absurd (Post.put_wait_self.symm.trans receiving) (by simp)

theorem Awake.take {q : Fin n} {a : Addr} {rest : List (Fin n)} (awake : Awake b) :
    Awake (b.take d q a rest) :=
  awake.of_put Post.put_wait_of_ne (fun _ _ => rfl) fun _ receiving =>
    absurd (Post.put_wait_self.symm.trans receiving) (by simp)

theorem Awake.deliver {b' : Post n} (awake : Awake b) (deliver : b.Deliver d b') : Awake b' := by
  cases deliver with
  | wake _ _ =>
    exact awake.of_put Post.put_wait_of_ne (fun q other => Function.update_of_ne other _ _)
      fun src receiving => absurd (Post.put_wait_self.symm.trans receiving) (by simp)
  | signal busy =>
    exact awake.of_put (fun _ _ => rfl) (fun q other => Function.update_of_ne other _ _)
      fun src receiving interruptible => absurd interruptible (busy src receiving)

/-! ### The parts of a receive keep it -/

theorem recvLook_value {outside : Int → Process n} {found : Option (Fin n × Option (Fin n))}
    (rep : Represents s b) (well : b.mail.WellFormed) (quiet : src = .interrupt → Quiet outside p)
    (returned : (recvLook outside p (sourceCode src) s).outcome = .ok found) :
    FoundIn b p src found := by
  have spec : (recvLook outside p (sourceCode src) s).Sat (fun _ => True) _ (fun _ => True) :=
    recvLook_sat rep well (fun _ => trivial) (fun _ => trivial) quiet
  exact spec.value found returned

theorem recvCommit_value {outside : Int → Process n} {a : Addr} {t : Kernel n}
    {found : Option (Fin n × Option (Fin n))} (rep : Represents s b) (well : b.mail.WellFormed)
    (ready : b.mail.wait p = .ready) (look : FoundIn b p src found)
    (returned : (recvCommit outside p (sourceCode src) a found s).outcome = .ok t) :
    ∃ b', Represents t b' ∧ CommitsTo b p src a b' found := by
  have spec : (recvCommit outside p (sourceCode src) a found s).Sat (fun _ => True) _ _ :=
    recvCommit_sat rep well ready (fun _ => trivial) look
  obtain ⟨b', rep', _, made⟩ := spec.value t returned
  exact ⟨b', rep', made⟩

theorem WakeInv.recv {r r' : Receiving n} (inv : WakeInv r b) (step : RecvStep r r') :
    ∃ b', WakeInv r' b' := by
  cases step with
  | @look outside s p src msg found quiet returned =>
    obtain ⟨ready, _, early⟩ := inv.place
    have look := recvLook_value inv.rep inv.well quiet returned
    refine ⟨b, inv.rep, inv.well, inv.awake, ready, look, fun interruptible pending missing => ?_⟩
    obtain ⟨rfl, queued⟩ := early interruptible pending
    subst missing
    obtain ⟨q, member⟩ := List.exists_mem_of_ne_nil _ queued
    exact look q member trivial
  | @commit outside s t p src msg found returned =>
    obtain ⟨ready, look, early⟩ := inv.place
    obtain ⟨b', rep', made⟩ := recvCommit_value inv.rep inv.well ready look returned
    cases found with
    | none =>
      obtain rfl := made
      refine ⟨_, rep', inv.well.await ready look, ?_, trivial⟩
      refine inv.awake.of_put Post.put_wait_of_ne (fun _ _ => rfl) fun src' receiving => ?_
      obtain rfl := Wait.receiving.inj (Post.put_wait_self.symm.trans receiving)
      exact fun interruptible => Bool.eq_false_iff.mpr fun pending =>
        early interruptible pending rfl
    | some cell =>
      obtain ⟨before, after, split, _, _, rfl⟩ := made
      exact ⟨_, rep', inv.well.take split, inv.awake.take, trivial⟩

/-- An interrupt outside the window keeps what holds at the place of the receive. -/
theorem AtPc.deliver {r : Receiving n} {b' : Post n} (place : AtPc b r.pc)
    (rep : Represents r.kernel b) (deliver : b.Deliver d b') (outside : ¬ Window r d) :
    AtPc b' r.pc := by
  have queue : b'.mail.queue = b.mail.queue := by cases deliver <;> rfl
  have ready : ∀ p, b.mail.wait p = .ready → b'.mail.wait p = .ready := by
    intro p free
    cases deliver with
    | wake _ _ =>
      show (b.mail.put d .ready).wait p = _
      rw [Mail.put_wait, free, ite_self]
    | signal _ => exact free
  have pending : ∀ p, p ≠ d → b'.pending p = b.pending p := by
    intro p other
    cases deliver <;> exact Function.update_of_ne other _ _
  unfold Window at outside
  cases pc : r.pc with
  | idle => trivial
  | look p src msg =>
    rw [pc] at place outside
    obtain ⟨free, names, early⟩ := place
    refine ⟨ready p free, names, fun interruptible late => ?_⟩
    rw [queue]
    by_cases same : p = d
    · subst same
      cases src with
      | any =>
        exact ⟨rfl, fun empty => outside
          ⟨rfl, Or.inr ⟨rfl, (rep.queues p).nil_iff_start.mp empty⟩⟩⟩
      | only _ => exact interruptible.elim
      | interrupt => exact absurd ⟨rfl, Or.inl rfl⟩ outside
    · exact early interruptible (pending p same ▸ late)
  | commit p src msg found =>
    rw [pc] at place outside
    obtain ⟨free, look, early⟩ := place
    refine ⟨ready p free, ?_, fun interruptible late missing => ?_⟩
    · cases found <;> simpa only [FoundIn, queue] using look
    · by_cases same : p = d
      · exact outside ⟨same, interruptible, missing⟩
      · exact early interruptible (pending p same ▸ late) missing

/-- **The step lemma.** -/
theorem WakeInv.step {r r' : Receiving n} (inv : WakeInv r b)
    (step : WakeStep (fun r d => ¬ Window r d) r r') : ∃ b', WakeInv r' b' := by
  cases step with
  | @send outside s t p d msg free ne returned =>
    have ready := (ready_iff (inv.rep.shows p)).mp free
    obtain ⟨b', send, rep, _⟩ := msgSend_value inv.rep inv.well ready ne returned
    obtain ⟨_, mailStep⟩ := send.move ready ne
    exact ⟨b', rep, mailStep.wellFormed inv.well, inv.awake.send send, trivial⟩
  | @answered outside s t p src msg free other returned =>
    have spec : (recvCheck outside p (sourceCode src) msg s).Sat (fun _ => True) _ (fun _ => True) :=
      recvCheck_sat inv.rep other (fun _ => trivial) (fun _ => trivial)
    obtain ⟨_, rep, _⟩ := spec.value _ returned
    refine ⟨_, rep, inv.well, ?_, trivial⟩
    exact inv.awake.of_put (fun _ _ => rfl) (fun q other => Function.update_of_ne other _ _)
      fun _ _ _ => Function.update_self ..
  | @check outside s p src msg free other returned =>
    have spec : (recvCheck outside p (sourceCode src) msg s).Sat (fun _ => True) _ (fun _ => True) :=
      recvCheck_sat inv.rep other (fun _ => trivial) (fun _ => trivial)
    have unanswered : ¬ b.Answers p src := spec.value _ returned
    exact ⟨b, inv.rep, inv.well, inv.awake, (ready_iff (inv.rep.shows p)).mp free, other,
      fun interruptible pending => absurd ⟨pending, interruptible⟩ unanswered⟩
  | recv step => exact inv.recv step
  | @deliver r d t outside returned =>
    obtain ⟨b', deliver, rep, _⟩ := deliverIntToProc_value inv.rep returned
    obtain ⟨_, mailStep⟩ := deliver.move
    exact ⟨b', rep, mailStep.wellFormed inv.well, inv.awake.deliver deliver,
      inv.place.deliver inv.rep deliver outside⟩

/-- **The run lemma.** -/
theorem wakeRun_inv {r : Receiving n} (boot : Boot s)
    (run : WakeRun (fun r d => ¬ Window r d) ⟨s, .idle⟩ r) : ∃ b, WakeInv r b := by
  induction run with
  | refl =>
    exact ⟨s.idle, boot.represents, Mail.rest_wellFormed, fun q src receiving => (nomatch receiving),
      trivial⟩
  | tail _ step ih =>
    obtain ⟨b, inv⟩ := ih
    exact inv.step step

/-! ### Inside the window -/

/-- A receive that has found nobody blocks, and an interrupt noted by then is lost. -/
theorem lost_of_commit {msg : Addr} {r : Receiving n} (rep : Represents s b) (well : b.mail.WellFormed)
    (ready : b.mail.wait d = .ready) (noted : b.pending d = true) (interruptible : src.Interruptible)
    (look : FoundIn b d src none) (step : RecvStep ⟨s, .commit d src msg none⟩ r) :
    LostWakeup r.kernel d := by
  cases step with
  | commit returned =>
    obtain ⟨_, rep', rfl⟩ := recvCommit_value rep well ready look returned
    exact (rep'.lostWakeup_iff d).mpr ⟨src, Post.put_wait_self, interruptible, noted⟩

/-- A finished receive stays finished. -/
theorem RecvStep.of_idle {r r' : Receiving n} (idle : r.pc = .idle)
    (steps : Relation.ReflTransGen RecvStep r r') : r' = r := by
  rcases Relation.ReflTransGen.cases_head steps with same | ⟨_, step, _⟩
  · exact same.symm
  · cases step <;> cases idle

theorem lost_of_commit_run {msg : Addr} {r : Receiving n} (rep : Represents s b)
    (well : b.mail.WellFormed) (ready : b.mail.wait d = .ready) (noted : b.pending d = true)
    (interruptible : src.Interruptible) (look : FoundIn b d src none)
    (steps : Relation.ReflTransGen RecvStep ⟨s, .commit d src msg none⟩ r) (done : r.pc = .idle) :
    LostWakeup r.kernel d := by
  rcases Relation.ReflTransGen.cases_head steps with rfl | ⟨r₁, step, rest⟩
  · cases done
  · have finished : r₁.pc = .idle := by cases step; rfl
    rw [RecvStep.of_idle finished rest]
    exact lost_of_commit rep well ready noted interruptible look step

/-- **An interrupt in the window is lost.** -/
theorem WakeInv.lost {r r' : Receiving n} {t : Kernel n} (inv : WakeInv r b) (window : Window r d)
    (returned : (deliverIntToProc d r.kernel).outcome = .ok t)
    (steps : Relation.ReflTransGen RecvStep ⟨t, r.pc⟩ r') (done : r'.pc = .idle) :
    LostWakeup r'.kernel d := by
  obtain ⟨b', deliver, rep, _⟩ := deliverIntToProc_value inv.rep returned
  have place := inv.place
  have signalled : b.mail.wait d = .ready → b' = b.signal d := by
    intro free
    cases deliver with
    | wake receiving _ => exact absurd (free.symm.trans receiving) (by simp)
    | signal _ => rfl
  unfold Window at window
  cases pc : r.pc with
  | idle => rw [pc] at window; exact window.elim
  | commit p src msg found =>
    rw [pc] at window place steps
    obtain ⟨rfl, interruptible, rfl⟩ := window
    obtain ⟨ready, look, _⟩ := place
    obtain rfl := signalled ready
    exact lost_of_commit_run (b := b.signal p) rep inv.well ready (Function.update_self ..)
      interruptible look steps done
  | look p src msg =>
    rw [pc] at window place steps
    obtain ⟨rfl, waits⟩ := window
    obtain ⟨ready, other, _⟩ := place
    obtain rfl := signalled ready
    have nobody : ∀ q, q ∈ b.mail.queue p → ¬ src.Accepts q := by
      intro q member accepts
      rcases waits with rfl | ⟨_, empty⟩
      · exact accepts
      · rw [(inv.rep.queues p).nil_iff_start.mpr empty] at member
        cases member
    have interruptible : src.Interruptible := by
      rcases waits with rfl | ⟨rfl, _⟩ <;> trivial
    rcases Relation.ReflTransGen.cases_head steps with rfl | ⟨r₁, step, rest⟩
    · cases done
    cases step with
    | @look outside _ _ _ _ found quiet answer =>
      have look := recvLook_value (b := b.signal p) rep inv.well quiet answer
      cases found with
      | none =>
        exact lost_of_commit_run (b := b.signal p) rep inv.well ready (Function.update_self ..)
          interruptible look rest done
      | some cell =>
        obtain ⟨before, after, split, accepts, _⟩ := look
        exact absurd accepts (nobody cell.1 (split ▸ by simp))

/-- **Wake-ups are kept outside the window, and only there.** In a run whose interrupts never fall
into the window of the process they are for, no process is ever blocked on an interrupt that has
already come. After such a run an interrupt for `d`, followed by the rest of the receive under way,
leaves `d` blocked on it exactly when it falls into the window. -/
theorem wakeup_kept {s₀ : Kernel n} (boot : Boot s₀) :
    (∀ r, WakeRun (fun r d => ¬ Window r d) ⟨s₀, .idle⟩ r → ∀ d, ¬ LostWakeup r.kernel d) ∧
      ∀ r, WakeRun (fun r d => ¬ Window r d) ⟨s₀, .idle⟩ r → ∀ d t r',
        (deliverIntToProc d r.kernel).outcome = .ok t →
        Relation.ReflTransGen RecvStep ⟨t, r.pc⟩ r' → r'.pc = .idle →
        (LostWakeup r'.kernel d ↔ Window r d) := by
  refine ⟨fun r run d => ?_, fun r run d t r' returned steps done => ⟨fun lost => ?_, fun window => ?_⟩⟩
  · obtain ⟨b, inv⟩ := wakeRun_inv boot run
    exact inv.kept d
  · by_contra outside
    have further : WakeRun (fun r d => ¬ Window r d) ⟨s₀, .idle⟩ r' :=
      (run.tail (.deliver outside returned)).trans
        (Relation.ReflTransGen.mono (fun _ _ => WakeStep.recv) _ _ steps)
    obtain ⟨b, inv⟩ := wakeRun_inv boot further
    exact inv.kept d lost
  · obtain ⟨b, inv⟩ := wakeRun_inv boot run
    exact inv.lost window returned steps done

/-- `FS_TASK` sends to `HDD_TASK`, whose interrupt comes while it receives from anyone. -/
def duringReceive (count : ℕ) : Kernel totalTaskCnt :=
  bootKernel.after [msgSend nowhere fsTask (pid hddTask) 0x1000, deliverIntToProc hddTask,
    recvCommit nowhere hddTask (sourceCode (.any : Source (Fin totalTaskCnt))) 0x2000
      (some (fsTask, none))] count

set_option maxRecDepth 10000 in
/-- The interrupt comes behind the check, but with a sender to take from: it is kept. -/
theorem wakeup_kept_during : ((duringReceive 3).proc hddTask).haveIntMsg = true ∧
    (∀ d, ¬ LostWakeup (duringReceive 3) d) ∧
    (LostWakeup (duringReceive 3) hddTask ↔
      Window ⟨duringReceive 1, .look hddTask .any 0x2000⟩ hddTask) := by
  have send : (msgSend nowhere fsTask (pid hddTask) 0x1000 bootKernel).outcome =
      .ok (duringReceive 1) := after_step (s := bootKernel) 0 rfl (by decide)
  have check : (recvCheck nowhere hddTask (sourceCode (.any : Source (Fin totalTaskCnt))) 0x2000
      (duringReceive 1)).outcome = .ok none := rfl
  have deliver : (deliverIntToProc hddTask (duringReceive 1)).outcome = .ok (duringReceive 2) :=
    after_step (s := bootKernel) 1 rfl (by decide)
  have look : (recvLook nowhere hddTask (sourceCode (.any : Source (Fin totalTaskCnt)))
      (duringReceive 2)).outcome = .ok (some (fsTask, none)) := by decide
  have commit : (recvCommit nowhere hddTask (sourceCode (.any : Source (Fin totalTaskCnt))) 0x2000
      (some (fsTask, none)) (duringReceive 2)).outcome = .ok (duringReceive 3) :=
    after_step (s := bootKernel) 2 rfl (by decide)
  have outside : ¬ Window ⟨duringReceive 1, .look hddTask .any 0x2000⟩ hddTask := by
    rintro ⟨_, same | ⟨_, empty⟩⟩
    · cases same
    · exact absurd empty (by decide)
  have checked : WakeRun (fun r d => ¬ Window r d) ⟨bootKernel, .idle⟩
      ⟨duringReceive 1, .look hddTask .any 0x2000⟩ :=
    (Relation.ReflTransGen.single (.send rfl (by decide) send)).tail (.check (by decide) (by decide) check)
  have rest : Relation.ReflTransGen RecvStep ⟨duringReceive 2, .look hddTask .any 0x2000⟩
      ⟨duringReceive 3, .idle⟩ :=
    (Relation.ReflTransGen.single (.look (fun same => by cases same) look)).tail (.commit commit)
  have done : WakeRun (fun r d => ¬ Window r d) ⟨bootKernel, .idle⟩ ⟨duringReceive 3, .idle⟩ :=
    (checked.tail (.deliver outside deliver)).trans
      (Relation.ReflTransGen.mono (fun _ _ => WakeStep.recv) _ _ rest)
  obtain ⟨kept, lost⟩ := wakeup_kept bootKernel_boot
  have early : ((duringReceive 3).proc hddTask).haveIntMsg = true := by decide
  exact ⟨early, kept ⟨duringReceive 3, .idle⟩ done, lost _ checked hddTask (duringReceive 2)
    ⟨duringReceive 3, .idle⟩ deliver rest rfl⟩

/-- The table after an interrupt for `HDD_TASK` was noted. -/
def hddSignalled : Kernel totalTaskCnt := (deliverIntToProc hddTask bootKernel).getD bootKernel

/-- The table after `HDD_TASK` then blocked for an interrupt. -/
def hddStuck : Kernel totalTaskCnt :=
  (recvCommit nowhere hddTask msgSourceInterrupt 0x1000 none hddSignalled).getD hddSignalled

set_option maxRecDepth 10000 in
/-- **A lost interrupt.** `HDD_TASK` finds nothing pending, its interrupt arrives, and it blocks. -/
theorem identify_misses_interrupt :
    ¬ ∀ r, WakeRun (fun _ _ => True) ⟨bootKernel, .idle⟩ r → r.pc = .idle →
      ∀ d : Fin totalTaskCnt, ¬ LostWakeup r.kernel d := by
  intro kept
  let src : Source (Fin totalTaskCnt) := .interrupt
  have check : (recvCheck nowhere hddTask (sourceCode src) 0x1000 bootKernel).outcome =
      .ok none := rfl
  have deliver : (deliverIntToProc hddTask bootKernel).outcome = .ok hddSignalled :=
    Traced.outcome_getD (by decide) bootKernel
  have look : (recvLook nowhere hddTask (sourceCode src) hddSignalled).outcome =
      .ok none := by decide
  have commit : (recvCommit nowhere hddTask (sourceCode src) 0x1000 none
      hddSignalled).outcome = .ok hddStuck := Traced.outcome_getD (by decide) hddSignalled
  have quiet : Quiet nowhere hddTask := by unfold Quiet; decide
  have run : WakeRun (fun _ _ => True) ⟨bootKernel, .idle⟩ ⟨hddStuck, .idle⟩ :=
    (((Relation.ReflTransGen.single (.check rfl (by simp) check)).tail
      (.deliver trivial deliver)).tail (.recv (.look (fun _ => quiet) look))).tail
      (.recv (.commit commit))
  exact kept ⟨hddStuck, .idle⟩ run rfl hddTask (by decide)

end WalOS
