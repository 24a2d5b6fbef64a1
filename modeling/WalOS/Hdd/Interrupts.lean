/-
**Disk interrupts and the requests that cause them.**

* `BenchInv` — an interrupt is due or pending exactly while the log of the request owes one;
  `BenchInv.step`, `BenchRun.inv` — every step and every run keeps it, as long as nothing is read or
  written.
* `interrupts_consumed` — **without reads and writes every interrupt is consumed**.
* `transfer_raises` — a read or a write of `n` sectors raises `n` interrupts and waits for none;
  `interrupts_left` — the interrupt of a read of one sector reaches the `CRITICAL` of `hdd_task`.
-/

import WalOS.Hdd.Bench
import WalOS.Hdd.Count

namespace WalOS

open Rendezvous

variable {env : HddEnv} {α : Type} {owed left middle : Bool}

/-! ### The invariant -/

section Invariant

variable {k : Premises} {wants : Message → Prop} {s t : Kernel totalTaskCnt} {b b' : Post totalTaskCnt}
  {p : Fin totalTaskCnt} {a : Addr} {x y : Bench} {v : Wiring} {pc : HddPc}
  {outside : Int → Process totalTaskCnt}

/-- The kernel with its message state: blocked processes left buffers of their own, and those blocked
sending to `HDD_TASK` left requests. -/
structure Orderly (k : Premises) (wants : Message → Prop) (s : Kernel totalTaskCnt)
    (b : Post totalTaskCnt) : Prop where
  reached : SysReached (· ≠ null) s b
  owned : Owned k.owner b
  asked : Asked wants hddTask b

/-- `HDD_TASK` does not wait for an interrupt. -/
def Busy (b : Post totalTaskCnt) : Prop :=
  ∀ src, b.mail.wait hddTask = .receiving src → ¬ src.Interruptible

/-- No interrupt is due or pending. -/
def Wiring.Calm (v : Wiring) (b : Post totalTaskCnt) : Prop :=
  v.due = 0 ∧ b.pending hddTask = false

/-- `HDD_TASK` is in its receive, or has got a request. -/
def Listens (k : Premises) (wants : Message → Prop) (b : Post totalTaskCnt) : Prop :=
  b.mail.wait hddTask = .receiving .any ∧ b.buffer hddTask = k.desk ∨
    b.mail.wait hddTask = .ready ∧
      ∃ q, q ≠ hddTask ∧ (b.mem k.desk).source = pid q ∧ wants (b.mem k.desk)

/-- **An interrupt is due or pending while one is owed**, or `HDD_TASK` waits for the one that is
due. -/
def Wiring.Owes (v : Wiring) (b : Post totalTaskCnt) (owed : Bool) : Prop :=
  Busy b ∧ v.due + (b.pending hddTask).toNat = owed.toNat ∨
    b.mail.wait hddTask = .receiving .interrupt ∧ v.due = 1 ∧ b.pending hddTask = false ∧ owed = false

/-- What holds where `HDD_TASK` stands. -/
def Stands (k : Premises) (wants : Message → Prop) (v : Wiring) (b : Post totalTaskCnt) : HddPc → Prop
  | .top => v.Calm b ∧ Busy b
  | .listening => v.Calm b ∧ Listens k wants b
  | .working rest src => (∃ q : Fin totalTaskCnt, q ≠ hddTask ∧ src = pid q) ∧
      ∃ owed, Settles owed false rest ∧ v.Owes b owed
  | .critical => False

/-- **The invariant.** -/
structure BenchInv (k : Premises) (wants : Message → Prop) (x : Bench) (b : Post totalTaskCnt) :
    Prop where
  orderly : Orderly k wants x.kernel b
  sectors : x.wiring.sectors = 0
  stands : Stands k wants x.wiring b x.pc

/-! ### Calls -/

/-- The buffer is cleared first. -/
def Post.wipe (b : Post totalTaskCnt) (a : Addr) : Post totalTaskCnt :=
  { b with mem := Function.update b.mem a Message.zero }

theorem Orderly.ready (orderly : Orderly k wants s b) (free : (s.proc p).flags = 0) :
    b.mail.wait p = .ready := (ready_iff (orderly.reached.rep.shows p)).mp free

theorem Orderly.write (orderly : Orderly k wants s b) (ready : b.mail.wait p = .ready)
    (own : k.owner a = p) (m : Message) :
    Orderly k wants (s.store a m) { b with mem := Function.update b.mem a m } :=
  ⟨orderly.reached.write a m, orderly.owned, orderly.asked.write orderly.owned ready own m⟩

theorem Orderly.call {call : Call totalTaskCnt} (orderly : Orderly k wants s b)
    (free : (s.proc p).flags = 0) (own : k.owner a = p) (good : a ≠ null)
    (request : call = .send hddTask → p ≠ hddTask → wants ((s.mem a).from p))
    (quiet : call.AsksInterrupt → (s.proc p).haveIntMsg = false → Quiet outside p)
    (returned : (sysSendRecv outside call.func call.srcDest a p s).outcome = .ok t) :
    ∃ b', ¬ call.Names p ∧ call.Does (b.stamp p a) p a b' ∧ Orderly k wants t b' := by
  obtain ⟨named, b', does, reached⟩ := orderly.reached.calls free good quiet returned
  have ready := orderly.ready free
  rw [orderly.reached.rep.mem] at request
  refine ⟨b', named, does, reached, orderly.owned.does does orderly.reached.well ready named own,
    orderly.asked.does does orderly.reached.well ready named orderly.owned own fun sends => ?_⟩
  refine request sends ?_
  rintro rfl
  exact named (sends ▸ rfl)

/-- A receive of `send_recv`. -/
theorem Orderly.receive {src : Source (Fin totalTaskCnt)} (orderly : Orderly k wants s b)
    (free : (s.proc p).flags = 0) (own : k.owner a = p) (good : a ≠ null)
    (quiet : src = .interrupt → Quiet outside p)
    (returned : (sendRecv outside (.receive src) a p s).outcome = .ok t) :
    ∃ b', ((b.wipe a).stamp p a).Recv p src a b' ∧ Orderly k wants t b' := by
  have wiped : Orderly k wants (s.store a Message.zero) (b.wipe a) :=
    orderly.write (orderly.ready free) own _
  obtain ⟨b', -, does, orderly'⟩ := wiped.call free own good
    (fun same : Call.receive src = .send hddTask => by cases same) (fun asks _ => quiet asks) returned
  exact ⟨b', does, orderly'⟩

/-- A call that no interrupt answers. -/
theorem Call.Does.pending {call : Call totalTaskCnt} (does : call.Does b p a b')
    (deaf : ∀ src, call = .receive src → ¬ src.Interruptible) : b'.pending = b.pending := by
  cases call with
  | send d => cases does <;> rfl
  | receive src =>
    cases does with
    | interrupt answers => exact absurd answers.2 (deaf src rfl)
    | take _ _ _ _ => rfl
    | await _ _ => rfl

theorem Orderly.interrupt (orderly : Orderly k wants s b)
    (returned : (deliverIntToProc p s).outcome = .ok t) :
    ∃ b', b.Deliver p b' ∧ Orderly k wants t b' := by
  obtain ⟨b', deliver, reached⟩ := orderly.reached.interrupt returned
  exact ⟨b', deliver, reached, orderly.owned.deliver deliver,
    orderly.asked.deliver deliver orderly.owned⟩

/-! ### Steps of the others -/

theorem busy_of_ready (ready : b.mail.wait hddTask = .ready) : Busy b := by
  intro src receiving
  rw [ready] at receiving
  cases receiving

/-- A call of another process. -/
theorem Stands.call {call : Call totalTaskCnt} (stands : Stands k wants v b pc)
    (does : call.Does (b.stamp p a) p a b') (orderly : Orderly k wants s b) (other : p ≠ hddTask)
    (own : k.owner a = p) (request : call = .send hddTask → wants ((b.mem a).from p)) :
    Stands k wants v b' pc := by
  obtain ⟨pending, moved⟩ := does.elsewhere orderly.reached.well orderly.owned own other.symm
  have calm : v.Calm b → v.Calm b' := fun calm => ⟨calm.1, pending.trans calm.2⟩
  have busy : Busy b → Busy b' := by
    intro busy
    rcases moved with kept | ⟨_, _, _, _, free, _⟩ | ⟨_, free⟩
    · intro src receiving
      exact busy src (kept.wait ▸ receiving)
    · exact busy_of_ready free
    · exact busy_of_ready free
  cases pc with
  | top => exact ⟨calm stands.1, busy stands.2⟩
  | listening =>
    refine ⟨calm stands.1, ?_⟩
    rcases stands.2 with ⟨receiving, buffer⟩ | ⟨ready, q, ne, source, wanted⟩
    · rcases moved with kept | ⟨_, _, _, sends, free, mem⟩ | ⟨⟨_, sending⟩, _⟩
      · exact .inl ⟨kept.wait.trans receiving, kept.buffer.trans buffer⟩
      · rw [buffer] at mem
        refine .inr ⟨free, p, other, ?_, ?_⟩
        · rw [mem]
          rfl
        · rw [mem]
          exact request sends
      · rw [receiving] at sending
        cases sending
    · rcases moved with kept | ⟨_, receiving, _⟩ | ⟨⟨_, sending⟩, _⟩
      · rw [← kept.mem k.desk k.owner_desk] at source wanted
        exact .inr ⟨kept.wait.trans ready, q, ne, source, wanted⟩
      · rw [ready] at receiving
        cases receiving
      · rw [ready] at sending
        cases sending
  | working rest src =>
    obtain ⟨caller, owed, settles, owes⟩ := stands
    refine ⟨caller, owed, settles, ?_⟩
    rcases owes with ⟨works, count⟩ | ⟨waits, due, empty, paid⟩
    · exact .inl ⟨busy works, by rw [pending, count]⟩
    · rcases moved with kept | ⟨_, receiving, accepts, _⟩ | ⟨⟨_, sending⟩, _⟩
      · exact .inr ⟨kept.wait.trans waits, due, pending.trans empty, paid⟩
      · obtain rfl := Wait.receiving.inj (waits.symm.trans receiving)
        exact accepts.elim
      · rw [waits] at sending
        cases sending
  | critical => exact stands

/-- A write of another process. -/
theorem Stands.write (stands : Stands k wants v b pc) (other : p ≠ hddTask) (own : k.owner a = p)
    (m : Message) : Stands k wants v { b with mem := Function.update b.mem a m } pc := by
  have apart : k.desk ≠ a := by
    rintro rfl
    exact other (own.symm.trans k.owner_desk)
  have desk : Function.update b.mem a m k.desk = b.mem k.desk := Function.update_of_ne apart _ _
  cases pc with
  | top => exact stands
  | listening =>
    refine ⟨stands.1, ?_⟩
    rcases stands.2 with receiving | ⟨ready, q, ne, source, wanted⟩
    · exact .inl receiving
    · rw [← desk] at source wanted
      exact .inr ⟨ready, q, ne, source, wanted⟩
  | working rest src => exact stands
  | critical => exact stands

/-- An interrupt of the drive. -/
theorem Stands.interrupt (stands : Stands k wants v b pc) (due : 0 < v.due)
    (deliver : b.Deliver hddTask b') : Stands k wants { v with due := v.due - 1 } b' pc := by
  cases pc with
  | top => exact absurd stands.1.1 due.ne'
  | listening => exact absurd stands.1.1 due.ne'
  | working rest src =>
    obtain ⟨caller, owed, settles, owes⟩ := stands
    refine ⟨caller, owed, settles, .inl ?_⟩
    rcases owes with ⟨works, count⟩ | ⟨waits, one, _, paid⟩
    · cases deliver with
      | wake receiving interruptible => exact absurd interruptible (works _ receiving)
      | signal _ =>
        refine ⟨works, ?_⟩
        have least := Bool.toNat_le owed
        show v.due - 1 + (Function.update b.pending hddTask true hddTask).toNat = owed.toNat
        rw [Function.update_self, Bool.toNat_true]
        omega
    · cases deliver with
      | wake _ _ =>
        refine ⟨busy_of_ready Post.put_wait_self, ?_⟩
        show v.due - 1 + (Function.update b.pending hddTask false hddTask).toNat = owed.toNat
        rw [Function.update_self, one, paid]
        rfl
      | signal deaf => exact absurd trivial (deaf _ waits)
  | critical => exact stands

/-! ### Steps of `HDD_TASK` -/

theorem settles_cons (event : HddEvent) (log : List HddEvent) (owed : Bool) :
    settles (event :: log) owed = event.settle owed >>= settles log := rfl

/-- The next event settles. -/
theorem Settles.tail {event : HddEvent} {log : List HddEvent} {outcome : Except HddStop α}
    (settles : Settles owed left ⟨event :: log, outcome⟩) :
    ∃ middle, event.settle owed = some middle ∧ Settles middle left ⟨log, outcome⟩ := by
  cases settle : event.settle owed with
  | none =>
    have lost : WalOS.settles (event :: log) owed = none := by
      rw [settles_cons, settle]
      rfl
    cases outcome with
    | ok a => exact absurd ((settles.returned a rfl).symm.trans lost) (by simp)
    | error reason =>
      have some := settles.stopped reason rfl
      rw [lost] at some
      cases some
  | some middle =>
    have rest : WalOS.settles (event :: log) owed = WalOS.settles log middle := by
      rw [settles_cons, settle]
      rfl
    exact ⟨middle, rfl, fun a same => rest ▸ settles.returned a same,
      fun reason same => rest ▸ settles.stopped reason same⟩

/-- What an event adds to the interrupts that are due. -/
theorem after_settle {event : HddEvent} (settle : event.settle owed = some middle)
    (other : event ≠ .receiveInterrupt) (sectors : v.sectors = 0) :
    (v.after event).sectors = 0 ∧ (v.after event).due + owed.toNat = v.due + middle.toNat := by
  have moved : v.transfer = v := if_pos sectors
  cases event with
  | command cmd =>
    rw [HddEvent.settle] at settle
    split at settle
    · rename_i asks
      obtain ⟨rfl, kind⟩ := asks
      obtain rfl := Option.some.inj settle
      show (v.execute cmd).sectors = 0 ∧ (v.execute cmd).due + 0 = v.due + 1
      unfold Wiring.execute
      split
      · exact ⟨rfl, rfl⟩
      · obtain ⟨read, one⟩ := kind.resolve_left ‹_›
        rw [if_pos read, one]
        exact ⟨rfl, rfl⟩
    · cases settle
  | receiveInterrupt => exact absurd rfl other
  | readPort _ =>
    obtain rfl := Option.some.inj settle
    exact ⟨(congrArg Wiring.sectors moved).trans sectors, by rw [Wiring.after, moved]⟩
  | writePort _ _ =>
    obtain rfl := Option.some.inj settle
    exact ⟨(congrArg Wiring.sectors moved).trans sectors, by rw [Wiring.after, moved]⟩
  | _ =>
    obtain rfl := Option.some.inj settle
    exact ⟨sectors, rfl⟩

/-- A ready `HDD_TASK` waits for nothing. -/
theorem Wiring.Owes.ready (owes : v.Owes b owed) (ready : b.mail.wait hddTask = .ready) :
    v.due + (b.pending hddTask).toNat = owed.toNat := by
  rcases owes with ⟨_, count⟩ | ⟨waits, _⟩
  · exact count
  · rw [ready] at waits
    cases waits

theorem Stands.listen (calm : v.Calm b) (orderly : Orderly k wants s b)
    (ready : b.mail.wait hddTask = .ready)
    (recv : ((b.wipe k.desk).stamp hddTask k.desk).Recv hddTask .any k.desk b') :
    Stands k wants v b' .listening := by
  cases recv with
  | interrupt answers => exact absurd (calm.2.symm.trans answers.1) (by decide)
  | @take q before after _ split _ _ =>
    have member : q ∈ b.mail.queue hddTask := by
      rw [show b.mail.queue hddTask = before ++ q :: after from split]
      exact List.mem_append_right _ List.mem_cons_self
    have sending := (orderly.reached.well.mem q hddTask).mp member
    have other := orderly.reached.well.ne sending
    have apart : b.buffer q ≠ k.desk := by
      intro same
      have mine : k.owner (b.buffer q) = q := orderly.owned q (by rw [sending]; simp)
      rw [same, k.owner_desk] at mine
      exact other mine.symm
    have mem : ((((b.wipe k.desk).stamp hddTask k.desk).take hddTask q k.desk (before ++ after)).mem
        k.desk) = b.mem (b.buffer q) :=
      (Function.update_self _ _ _).trans ((Function.update_of_ne apart _ _).trans
        (Function.update_of_ne apart _ _))
    refine ⟨calm, .inr ⟨?_, q, other, ?_⟩⟩
    · exact (Post.put_wait_of_ne hddTask other.symm).trans ready
    · rw [mem]
      exact orderly.asked q sending
  | await _ _ =>
    refine ⟨calm, .inl ⟨Post.put_wait_self, ?_⟩⟩
    show Function.update b.buffer hddTask k.desk hddTask = k.desk
    rw [Function.update_self]

theorem Stands.accept {msg : Message} {hdd : Hdd} (stands : Stands k wants v b .listening)
    (ready : b.mail.wait hddTask = .ready) (found : b.mem k.desk = msg)
    (still : ∀ m, wants m → ¬ m.Transfers) :
    Stands k wants v b (.working (serve env msg hdd) msg.source) := by
  rcases stands.2 with ⟨receiving, _⟩ | ⟨_, q, ne, source, wanted⟩
  · rw [ready] at receiving
    cases receiving
  · rw [found] at source wanted
    refine ⟨⟨q, ne, source⟩, false, serve_settles (still msg wanted) hdd,
      .inl ⟨busy_of_ready ready, ?_⟩⟩
    rw [stands.1.1, stands.1.2]
    rfl

theorem Call.Clock.deaf {call : Call totalTaskCnt} (clock : call.Clock) :
    ∀ src, call = .receive src → ¬ src.Interruptible := by
  rintro src rfl
  obtain ⟨d, same | same⟩ := clock
  · cases same
  · cases same
    exact id

theorem Call.Clock.not_asks {call : Call totalTaskCnt} (clock : call.Clock) : ¬ call.AsksInterrupt := by
  obtain ⟨d, rfl | rfl⟩ := clock
  · exact id
  · rintro ⟨⟩

theorem Stands.look {rest : HddRun Hdd} {src : Int} {call : Call totalTaskCnt}
    (stands : Stands k wants v b (.working rest src)) (ready : b.mail.wait hddTask = .ready)
    (does : call.Does (b.stamp hddTask a) hddTask a b') (named : ¬ call.Names hddTask)
    (clock : call.Clock) :
    Stands k wants v b' (.working rest src) := by
  obtain ⟨caller, owed, settles, owes⟩ := stands
  refine ⟨caller, owed, settles, .inl ⟨?_, ?_⟩⟩
  · rcases does.own ready named with free | ⟨_, _, sending, _⟩ | ⟨src, receives, receiving, _⟩
    · exact busy_of_ready free
    · intro src receiving
      rw [sending] at receiving
      cases receiving
    · intro src' receiving'
      obtain rfl := Wait.receiving.inj (receiving.symm.trans receiving')
      exact clock.deaf src receives
  · rw [does.pending clock.deaf]
    exact owes.ready ready

theorem Stands.await {log : List HddEvent} {outcome : Except HddStop Hdd} {src : Int}
    (stands : Stands k wants v b (.working ⟨.receiveInterrupt :: log, outcome⟩ src))
    (ready : b.mail.wait hddTask = .ready)
    (recv : ((b.wipe a).stamp hddTask a).Recv hddTask .interrupt a b') :
    Stands k wants v b' (.working ⟨log, outcome⟩ src) := by
  obtain ⟨caller, owed, settles, owes⟩ := stands
  obtain ⟨left, settle, rest⟩ := settles.tail
  have count := owes.ready ready
  have owing : owed = true ∧ left = false := by
    rw [HddEvent.settle] at settle
    split at settle
    · exact ⟨‹_›, (Option.some.inj settle).symm⟩
    · cases settle
  obtain ⟨rfl, rfl⟩ := owing
  refine ⟨caller, false, rest, ?_⟩
  cases recv with
  | interrupt answers =>
    have kept : b.pending hddTask = true := answers.1
    rw [kept] at count
    refine .inl ⟨busy_of_ready ready, ?_⟩
    show v.due + (Function.update b.pending hddTask false hddTask).toNat = 0
    rw [Function.update_self]
    exact Nat.succ.inj count
  | take _ _ accepts _ => exact accepts.elim
  | await silent _ =>
    have empty : b.pending hddTask = false := Bool.eq_false_iff.mpr fun kept => silent ⟨kept, trivial⟩
    rw [empty] at count
    exact .inr ⟨Post.put_wait_self, count, empty, rfl⟩

theorem Stands.act {event : HddEvent} {log : List HddEvent} {outcome : Except HddStop Hdd} {src : Int}
    (stands : Stands k wants v b (.working ⟨event :: log, outcome⟩ src))
    (ready : b.mail.wait hddTask = .ready) (other : event ≠ .receiveInterrupt)
    (sectors : v.sectors = 0) :
    (v.after event).sectors = 0 ∧ Stands k wants (v.after event) b (.working ⟨log, outcome⟩ src) := by
  obtain ⟨caller, owed, settles, owes⟩ := stands
  obtain ⟨left, settle, rest⟩ := settles.tail
  obtain ⟨sectors', due⟩ := after_settle settle other sectors
  have count := owes.ready ready
  refine ⟨sectors', caller, left, rest, .inl ⟨busy_of_ready ready, ?_⟩⟩
  omega

theorem Stands.reply {hdd : Hdd} {src : Int} {q : Fin totalTaskCnt}
    (stands : Stands k wants v b (.working ⟨[], .ok hdd⟩ src)) (ready : b.mail.wait hddTask = .ready)
    (does : (Call.send q).Does (b.stamp hddTask a) hddTask a b')
    (named : ¬ (Call.send q).Names hddTask) : Stands k wants v b' .top := by
  obtain ⟨_, owed, settles, owes⟩ := stands
  obtain rfl : owed = false := Option.some.inj (settles.returned hdd rfl)
  have count := owes.ready ready
  have kept : b'.pending = b.pending := does.pending fun _ same => by cases same
  have calm : v.due = 0 ∧ b.pending hddTask = false := by
    cases pending : b.pending hddTask with
    | false => exact ⟨by rw [pending] at count; exact count, rfl⟩
    | true =>
      rw [pending] at count
      exact absurd count (Nat.succ_ne_zero _)
  refine ⟨⟨calm.1, kept ▸ calm.2⟩, ?_⟩
  rcases does.own ready named with free | ⟨_, _, sending, _⟩ | ⟨_, same, _⟩
  · exact busy_of_ready free
  · intro src receiving
    rw [sending] at receiving
    cases receiving
  · cases same

/-! ### Runs -/

/-- **The step lemma.** -/
theorem BenchInv.step (inv : BenchInv k wants x b) (step : BenchStep env k wants x y)
    (requests : ∀ m, wants m → m.Requests ∧ ¬ m.Transfers) : ∃ b', BenchInv k wants y b' := by
  obtain ⟨orderly, sectors, stands⟩ := inv
  have mem := orderly.reached.rep.mem
  have desk := k.desk_ne_null
  cases step with
  | call other free buffer request quiet returned =>
    obtain ⟨b', _, does, orderly'⟩ := orderly.call free buffer.own buffer.ne_null
      (fun sends _ => request sends) quiet returned
    rw [mem] at request
    exact ⟨b', orderly', sectors, stands.call does orderly other buffer.own request⟩
  | write other free own =>
    exact ⟨_, orderly.write (orderly.ready free) own _, sectors, stands.write other own _⟩
  | tick returned =>
    exact ⟨b, ⟨orderly.reached.tick returned, orderly.owned, orderly.asked⟩, sectors, stands⟩
  | interrupt due returned =>
    obtain ⟨b', deliver, orderly'⟩ := orderly.interrupt returned
    exact ⟨b', orderly', sectors, stands.interrupt due deliver⟩
  | listen here free returned =>
    rw [here] at stands
    obtain ⟨b', recv, orderly'⟩ := orderly.receive free k.owner_desk desk
      (fun same => by cases same) returned
    exact ⟨b', orderly', sectors, Stands.listen stands.1 orderly (orderly.ready free) recv⟩
  | accept here free _ =>
    rw [here] at stands
    exact ⟨b, orderly, sectors, stands.accept (orderly.ready free) (congrFun mem.symm _)
      fun m wanted => (requests m wanted).2⟩
  | refuse here free unasked =>
    rw [here] at stands
    rcases stands.2 with ⟨receiving, _⟩ | ⟨_, _, _, _, wanted⟩
    · rw [orderly.ready free] at receiving
      cases receiving
    · rw [mem] at unasked
      exact absurd (requests _ wanted).1 unasked
  | look here free buffer clock returned =>
    rw [here] at stands
    obtain ⟨b', named, does, orderly'⟩ := orderly.call free buffer.own buffer.ne_null
      (fun _ other => absurd rfl other) (fun asks _ => absurd asks clock.not_asks) returned
    refine ⟨b', orderly', sectors, ?_⟩
    show Stands k wants x.wiring b' x.pc
    rw [here]
    exact stands.look (orderly.ready free) does named clock
  | await here free buffer quiet returned =>
    rw [here] at stands
    obtain ⟨b', recv, orderly'⟩ := orderly.receive free buffer.own buffer.ne_null (fun _ => quiet)
      returned
    exact ⟨b', orderly', sectors, stands.await (orderly.ready free) recv⟩
  | act here free other =>
    rw [here] at stands
    obtain ⟨sectors', stands'⟩ := stands.act (orderly.ready free) other sectors
    exact ⟨b, orderly, sectors', stands'⟩
  | reply here free returned =>
    rw [here] at stands
    obtain ⟨q, _, rfl⟩ := stands.1
    obtain ⟨b', named, does, orderly'⟩ := orderly.call free k.owner_desk desk
      (fun _ other => absurd rfl other) (fun asks : (Call.send q).AsksInterrupt => asks.elim) returned
    exact ⟨b', orderly', sectors, stands.reply (orderly.ready free) does named⟩

/-- **The run lemma.** -/
theorem BenchRun.inv (run : BenchRun env k wants x y) (inv : BenchInv k wants x b)
    (requests : ∀ m, wants m → m.Requests ∧ ¬ m.Transfers) : ∃ b', BenchInv k wants y b' := by
  induction run with
  | refl => exact ⟨b, inv⟩
  | tail _ step ih =>
    obtain ⟨b', inv'⟩ := ih
    exact inv'.step step requests

theorem benchInv_start (boot : Booted s) (hdd : Hdd) : BenchInv k wants (.start s hdd) s.idle where
  orderly := ⟨boot.reached, fun _ blocked => absurd rfl blocked, fun _ sending => by cases sending⟩
  sectors := rfl
  stands := ⟨⟨rfl, boot.haveIntMsg hddTask⟩, busy_of_ready rfl⟩

/-- No interrupt is pending once `HDD_TASK` has answered, and none reaches its `CRITICAL`. -/
def Bench.Consumed (x : Bench) : Prop :=
  (x.pc = .top → (x.kernel.proc hddTask).haveIntMsg = false) ∧ x.pc ≠ .critical

theorem BenchInv.consumed (inv : BenchInv k wants x b) : x.Consumed := by
  have stands := inv.stands
  constructor
  · intro here
    rw [here] at stands
    exact (inv.orderly.reached.rep.pending hddTask).trans stands.1.2
  · intro here
    rw [here] at stands
    exact stands

end Invariant

/-- A request as the callers of `HDD_TASK` make it. -/
def Message.Whole (msg : Message) : Prop :=
  msg.Requests ∧ (msg.Transfers → 0 < msg.cnt.toInt ∧ msg.cnt.toInt % 512 = 0)

/-- **Without reads and writes every interrupt is consumed**, in every state of every run. -/
theorem interrupts_consumed {s : Kernel totalTaskCnt} (env : HddEnv) (k : Premises) (boot : Booted s)
    (hdd : Hdd) {x : Bench}
    (run : BenchRun env k (fun m => m.Whole ∧ ¬ m.Transfers) (.start s hdd) x) : x.Consumed := by
  obtain ⟨b, inv⟩ := run.inv (benchInv_start boot hdd) fun m wanted => ⟨wanted.1.1, wanted.2⟩
  exact inv.consumed

/-- The `msg` of `HDD_TASK` at `0x1000`, and a buffer of `FS_TASK` at `0x2000`. -/
def plainPremises : Premises where
  owner a := if a = 0x2000 then fsTask else hddTask
  desk := 0x1000
  owner_desk := rfl
  desk_ne_null := by decide

/-- `HDD_TASK` listens, `FS_TASK` asks and waits; then the others. -/
def askCalls (rest : List (KernelCall totalTaskCnt)) : List (KernelCall totalTaskCnt) :=
  sendRecv nowhere (.receive .any) 0x1000 hddTask ::
    sysSendRecv nowhere funcSend (pid hddTask) 0x2000 fsTask ::
    sysSendRecv nowhere funcReceive (pid hddTask) 0x2000 fsTask :: rest

/-- What a log does to the interrupts of the drive. -/
def Wiring.run (v : Wiring) (log : List HddEvent) : Wiring := log.foldl (fun v event => v.after event) v

theorem run_cons (v : Wiring) (event : HddEvent) (log : List HddEvent) :
    v.run (event :: log) = (v.after event).run log := rfl

/-- `HDD_TASK` carries out events that wait for nothing. -/
theorem benchRun_acts {k : Premises} {wants : Message → Prop} (log : List HddEvent)
    {rest : List HddEvent} {outcome : Except HddStop Hdd} {src : Int} {x : Bench}
    (here : x.pc = .working ⟨log ++ rest, outcome⟩ src) (free : (x.kernel.proc hddTask).flags = 0)
    (others : .receiveInterrupt ∉ log) : BenchRun env k wants x
      { x with wiring := x.wiring.run log, pc := .working ⟨rest, outcome⟩ src } := by
  induction log generalizing x with
  | nil =>
    obtain ⟨kernel, hdd, wiring, pc⟩ := x
    obtain rfl : pc = _ := here
    exact .refl
  | cons event log ih =>
    have other : event ≠ .receiveInterrupt := fun same => others (same ▸ List.mem_cons_self)
    exact (ih (x := { x with
        wiring := x.wiring.after event, pc := .working ⟨log ++ rest, outcome⟩ src }) rfl
      free fun member => others (List.mem_cons_of_mem _ member)).head (.act here free other)

/-- `FS_TASK` asks, and `HDD_TASK` goes to work. -/
theorem benchRun_asks {wants : Message → Prop} {request : Message} {s t u v : Kernel totalTaskCnt}
    (idle : (bootKernel.proc fsTask).flags = 0) (begins : bootKernel.store 0x2000 request = s)
    (listens : (s.proc hddTask).flags = 0)
    (listened : (sendRecv nowhere (.receive .any) 0x1000 hddTask s).outcome = .ok t)
    (sends : (t.proc fsTask).flags = 0) (buffer : t.mem 0x2000 = request)
    (sent : (sysSendRecv nowhere funcSend (pid hddTask) 0x2000 fsTask t).outcome = .ok u)
    (waits : (u.proc fsTask).flags = 0)
    (waited : (sysSendRecv nowhere funcReceive (pid hddTask) 0x2000 fsTask u).outcome = .ok v)
    (works : (v.proc hddTask).flags = 0) (asked : v.mem plainPremises.desk = request.from fsTask)
    (wanted : wants (request.from fsTask)) (requests : (request.from fsTask).Requests) :
    BenchRun plainEnv plainPremises wants (.start bootKernel blankHdd)
      ⟨v, blankHdd, ⟨0, 0⟩,
        .working (serve plainEnv (request.from fsTask) blankHdd) (request.from fsTask).source⟩ := by
  have other : fsTask ≠ hddTask := by decide
  have own : plainPremises.Buffer fsTask 0x2000 := ⟨rfl, by decide, by decide⟩
  have writes : BenchRun plainEnv plainPremises wants (.start bootKernel blankHdd)
      (.start s blankHdd) := begins ▸ .single (.write other idle rfl)
  have asks : BenchStep plainEnv plainPremises wants ⟨t, blankHdd, ⟨0, 0⟩, .listening⟩
      ⟨u, blankHdd, ⟨0, 0⟩, .listening⟩ :=
    @BenchStep.call _ _ _ _ _ (.send hddTask) _ _ _ other sends own (fun _ => buffer.symm ▸ wanted)
      (fun asks => asks.elim) sent
  have awaits : BenchStep plainEnv plainPremises wants ⟨u, blankHdd, ⟨0, 0⟩, .listening⟩
      ⟨v, blankHdd, ⟨0, 0⟩, .listening⟩ :=
    @BenchStep.call _ _ _ _ _ (.receive (.only hddTask)) _ _ _ other waits own
      (fun same => by cases same)
      (fun asks => by cases asks) waited
  rw [← asked]
  exact (((writes.tail (.listen rfl listens listened)).tail asks).tail awaits).tail
    (.accept rfl works (asked ▸ requests))

/-- An open of the drive, whose two interrupts come while and before `HDD_TASK` waits for them. -/
def openRequest : Message := (diskRequest msgDevOpen 0 0).from fsTask

/-- The open is asked for, its first interrupt finds `HDD_TASK` waiting, its second is kept, and the
answer goes to `FS_TASK`. -/
def openCalls : List (KernelCall totalTaskCnt) := askCalls
  [sendRecv nowhere (.receive .interrupt) 0x3000 hddTask, deliverIntToProc hddTask,
    deliverIntToProc hddTask, sendRecv nowhere (.receive .interrupt) 0x3000 hddTask,
    sysSendRecv nowhere funcSend (pid fsTask) 0x1000 hddTask]

def openKernel (count : ℕ) : Kernel totalTaskCnt :=
  (bootKernel.store 0x2000 (diskRequest msgDevOpen 0 0)).after openCalls count

/-- The events of the open: up to its first wait, up to its second, and after it. -/
def openEvents : List HddEvent × List HddEvent × List HddEvent :=
  ([.command ⟨0, 0, 0, 0, 0, 0xA0, ataIdentify⟩],
    [.readPort 0x10000, .index .hddInfo 0, .index .primary 0, .index .hddInfo 0,
      .command (tableCmd 0 0)],
    [.readPort 0x10000])

set_option maxRecDepth 100000 in
theorem serve_openRequest : ∃ t, serve plainEnv openRequest blankHdd =
    ⟨openEvents.1 ++ (.receiveInterrupt :: (openEvents.2.1 ++ (.receiveInterrupt ::
      (openEvents.2.2 ++ [])))), .ok t⟩ := by
  have log : (serve plainEnv openRequest blankHdd).accesses = openEvents.1 ++ (.receiveInterrupt ::
      (openEvents.2.1 ++ (.receiveInterrupt :: (openEvents.2.2 ++ [])))) := by decide +kernel
  have returned : (serve plainEnv openRequest blankHdd).returns = true := by decide +kernel
  exact ⟨_, congrArg₂ Traced.mk log (Traced.outcome_getD returned blankHdd)⟩

set_option maxRecDepth 10000 in
/-- **An open is asked for, served and answered.** -/
theorem interrupts_consumed_open : ∃ t, openRequest.Whole ∧ ¬ openRequest.Transfers ∧
    BenchRun plainEnv plainPremises (fun m => m.Whole ∧ ¬ m.Transfers) (.start bootKernel blankHdd)
      ⟨openKernel 8, t, ⟨0, 0⟩, .top⟩ ∧
    (⟨openKernel 8, t, ⟨0, 0⟩, .top⟩ : Bench).Consumed := by
  have still : ¬ openRequest.Transfers := by
    rintro (same | same) <;> exact absurd same (by decide)
  have whole : openRequest.Whole := ⟨.inl rfl, fun moves => absurd moves still⟩
  have buffer : plainPremises.Buffer hddTask 0x3000 := ⟨rfl, by decide, by decide⟩
  have quiet : Quiet nowhere hddTask := by unfold Quiet; decide
  have ready : ∀ count ∈ [3, 5, 6, 7], ((openKernel count).proc hddTask).flags = 0 := by decide
  obtain ⟨t, served⟩ := serve_openRequest
  have asked : BenchRun plainEnv plainPremises (fun m => m.Whole ∧ ¬ m.Transfers)
      (.start bootKernel blankHdd)
      ⟨openKernel 3, blankHdd, ⟨0, 0⟩, .working (serve plainEnv openRequest blankHdd) 3⟩ :=
    benchRun_asks (s := openKernel 0) (by decide) rfl (by decide)
      (after_step 0 rfl (by decide)) (by decide) (by decide)
      (after_step 1 rfl (by decide)) (by decide) (after_step 2 rfl (by decide))
      (by decide) (by decide) ⟨whole, still⟩ whole.1
  rw [served] at asked
  have identifies := asked.trans (benchRun_acts openEvents.1 rfl (ready 3 (by decide)) (by decide))
  have wakes := (identifies.tail (.await rfl (ready 3 (by decide)) buffer quiet
      (after_step 3 rfl (by decide)))).tail
    (.interrupt Nat.one_pos (after_step 4 rfl (by decide)))
  have reads := wakes.trans (benchRun_acts openEvents.2.1 rfl (ready 5 (by decide)) (by decide))
  have keeps := (reads.tail (.interrupt Nat.one_pos (after_step 5 rfl (by decide)))).tail
    (.await rfl (ready 6 (by decide)) buffer quiet (after_step 6 rfl (by decide)))
  have serves := keeps.trans (benchRun_acts openEvents.2.2 rfl (ready 7 (by decide)) (by decide))
  have answers := serves.tail (.reply rfl (ready 7 (by decide)) (after_step 7 rfl (by decide)))
  exact ⟨t, whole, still, answers,
    interrupts_consumed plainEnv plainPremises bootKernel_booted blankHdd answers⟩

/-! ### Reads and writes -/

/-- Each sector moved is one interrupt, as long as the drive was asked for it. -/
theorem run_moves {log : List HddEvent} (moves : ∀ event ∈ log, event.Moves) (v : Wiring) :
    v.run log = ⟨v.due + min (sectorsMoved log) v.sectors, v.sectors - sectorsMoved log⟩ := by
  induction log generalizing v with
  | nil =>
    show v = ⟨v.due + min 0 v.sectors, v.sectors - 0⟩
    rw [Nat.zero_min]
    rfl
  | cons event log ih =>
    have rest := ih (fun event member => moves event (List.mem_cons_of_mem _ member)) (v.after event)
    rw [run_cons, rest]
    have sector : v.transfer.due + min (sectorsMoved log) v.transfer.sectors =
        v.due + min (sectorsMoved log + 1) v.sectors ∧
        v.transfer.sectors - sectorsMoved log = v.sectors - (sectorsMoved log + 1) := by
      unfold Wiring.transfer
      split
      · omega
      · dsimp only
        omega
    have first := moves event List.mem_cons_self
    cases event with
    | readPort dest =>
      have more : sectorsMoved (.readPort dest :: log) = sectorsMoved log + 1 :=
        List.countP_cons_of_pos rfl
      rw [more]
      exact congrArg₂ Wiring.mk sector.1 sector.2
    | writePort src bytes =>
      have more : sectorsMoved (.writePort src bytes :: log) = sectorsMoved log + 1 :=
        List.countP_cons_of_pos rfl
      rw [more]
      exact congrArg₂ Wiring.mk sector.1 sector.2
    | word _ _ => rfl
    | memcpy _ _ _ => rfl
    | _ => exact first.elim

/-- The command of a read makes its first sector ready. -/
theorem execute_transferCmd {msg : Message} (transfers : msg.Transfers) {n : ℕ} (positive : 0 < n)
    (most : n ≤ 256) (cnt : msg.cnt = sectorsLeft n) (drive : Int) (sectNum : BitVec 32) :
    (⟨0, 0⟩ : Wiring).execute (transferCmd msg drive sectNum) =
      if msg.type = msgDevRead then ⟨1, n - 1⟩ else ⟨0, n⟩ := by
  have sectors : (transferCmd msg drive sectNum).sectors = n := by
    rw [transferCmd_sectors drive sectNum (by omega) cnt]
    split <;> omega
  unfold Wiring.execute
  rw [sectors]
  rcases transfers with read | write
  · have command : (transferCmd msg drive sectNum).command = ataRead := if_pos read
    rw [command, if_pos read]
    rfl
  · have other : msg.type ≠ msgDevRead := write ▸ by decide
    have command : (transferCmd msg drive sectNum).command = ataWrite := if_neg other
    rw [command, if_neg other]
    rfl

/-- **A read or a write of `n` sectors leaves `n` interrupts.** -/
theorem transfer_raises {msg : Message} {s : Hdd} {p : Partition} {q : Fin totalTaskCnt}
    (ready : env.Ready) (device : msg.device = p.minor) (caller : msg.procNr = pid q)
    (transfers : msg.Transfers) {n : ℕ} (positive : 0 < n) (most : n ≤ 256)
    (cnt : msg.cnt = sectorsLeft n) : ∃ log t, (hddReadWrite env msg s).Gives log t ∧
      .receiveInterrupt ∉ log ∧ (⟨0, 0⟩ : Wiring).run log = ⟨n, 0⟩ := by
  let cmd := transferCmd msg 0 (s.sectNum p msg.position)
  have enough : n < transferFuel := by
    unfold transferFuel
    omega
  obtain ⟨log, t, loop, rounds⟩ := transferLoop_rounds msg ready n (by omega) enough msg.buf
    (s.issue cmd)
  have logs : (Traced.loop .endless (transferRound env msg) transferFuel
      ⟨sectorsLeft n, msg.buf, s.issue cmd⟩).Logs HddEvent.Moves :=
    Traced.Logs.loop (transferRound_logs fun _ moves => moves) _ _
  have moves : ∀ event ∈ log, event.Moves := loop.accesses ▸ logs.access
  rw [← cnt] at loop
  have gives : (hddReadWrite env msg s).Gives ([.index .hddInfo 0] ++ ([p.slot.event] ++
      ([.command cmd] ++ ([] ++ log)))) t := by
    unfold hddReadWrite
    dsimp only
    rw [device, devToDrv_minor, caller]
    exact hddInfoAt_gives.bind ((partitionAt_gives p).bind ((hddCmdOut_gives cmd (ready _)).bind
      ((virToLinear_gives q _).bind loop)))
  refine ⟨_, t, gives, ?_, ?_⟩
  · intro member
    rcases List.mem_cons.mp member with same | member
    · cases same
    rcases List.mem_cons.mp member with same | member
    · cases slot : p.slot <;> rw [slot] at same <;> cases same
    rcases List.mem_cons.mp member with same | member
    · cases same
    · exact moves _ member
  · have silent : (⟨0, 0⟩ : Wiring).after p.slot.event = ⟨0, 0⟩ := by cases p.slot <;> rfl
    show (((⟨0, 0⟩ : Wiring).after p.slot.event).execute cmd).run log = ⟨n, 0⟩
    rw [silent, execute_transferCmd transfers positive most cnt, run_moves moves, rounds.sectors]
    split <;> dsimp only <;> congr 1 <;> omega

/-! ### A read of one sector -/

def readRequest : Message := (diskRequest msgDevRead 0 512).from fsTask

/-- The runs with no other request. -/
abbrev ReadRun : Bench → Bench → Prop := BenchRun plainEnv plainPremises (· = readRequest)

theorem serve_readRequest : ∃ log t, serve plainEnv readRequest blankHdd = ⟨log, .ok t⟩ ∧
    .receiveInterrupt ∉ log ∧ (⟨0, 0⟩ : Wiring).run log = ⟨1, 0⟩ :=
  transfer_raises (p := .whole) (q := fsTask) (fun _ => rfl) (by decide) (by decide) (.inl rfl)
    Nat.one_pos (by decide) (by decide)

/-- The interrupt comes, `HDD_TASK` answers the read and listens again. -/
def readCalls : List (KernelCall totalTaskCnt) := askCalls
  [deliverIntToProc hddTask, sysSendRecv nowhere funcSend (pid fsTask) 0x1000 hddTask,
    sendRecv nowhere (.receive .any) 0x1000 hddTask]

def readKernel (count : ℕ) : Kernel totalTaskCnt :=
  (bootKernel.store 0x2000 (diskRequest msgDevRead 0 512)).after readCalls count

set_option maxRecDepth 10000 in
/-- **A read of one sector leaves its interrupt**, which is pending when `HDD_TASK` has answered and
then comes to its `CRITICAL`. -/
theorem interrupts_left : readRequest.Whole ∧ ∃ x y, ReadRun (.start bootKernel blankHdd) x ∧
    ¬ x.Consumed ∧ ReadRun x y ∧ y.pc = .critical ∧
      (y.kernel.mem plainPremises.desk).type = msgHwInterrupt := by
  have read : readRequest.Requests := .inr (.inr (.inl rfl))
  have refused : ((readKernel 6).mem plainPremises.desk).type = msgHwInterrupt := by decide
  have ready : ∀ count ∈ [3, 4, 5, 6], ((readKernel count).proc hddTask).flags = 0 := by decide
  obtain ⟨log, t, served, others, raises⟩ := serve_readRequest
  have asked : ReadRun (.start bootKernel blankHdd)
      ⟨readKernel 3, blankHdd, ⟨0, 0⟩, .working (serve plainEnv readRequest blankHdd) 3⟩ :=
    benchRun_asks (s := readKernel 0) (by decide) rfl (by decide)
      (after_step 0 rfl (by decide)) (by decide) (by decide)
      (after_step 1 rfl (by decide)) (by decide) (after_step 2 rfl (by decide))
      (by decide) (by decide) rfl read
  rw [served, ← List.append_nil log] at asked
  have serves : ReadRun (.start bootKernel blankHdd)
      ⟨readKernel 3, blankHdd, ⟨1, 0⟩, .working ⟨[], .ok t⟩ 3⟩ := by
    rw [← raises]
    exact asked.trans (benchRun_acts log rfl (ready 3 (by decide)) others)
  have answers : ReadRun (.start bootKernel blankHdd) ⟨readKernel 5, t, ⟨0, 0⟩, .top⟩ :=
    (serves.tail (.interrupt Nat.one_pos (after_step 3 rfl (by decide)))).tail
    (.reply rfl (ready 4 (by decide)) (after_step 4 rfl (by decide)))
  have again : ReadRun ⟨readKernel 5, t, ⟨0, 0⟩, .top⟩ ⟨readKernel 6, t, ⟨0, 0⟩, .listening⟩ :=
    .single (.listen rfl (ready 5 (by decide)) (after_step 5 rfl (by decide)))
  have stops : ReadRun ⟨readKernel 5, t, ⟨0, 0⟩, .top⟩ ⟨readKernel 6, t, ⟨0, 0⟩, .critical⟩ := by
    refine again.tail (.refuse rfl (ready 6 (by decide)) ?_)
    unfold Message.Requests Message.LooksUp
    rw [refused]
    decide
  refine ⟨⟨read, fun _ => ⟨by decide, by decide⟩⟩, _, _, answers, fun consumed => ?_, stops, rfl,
    refused⟩
  exact absurd (consumed.1 rfl) (show ¬ ((readKernel 5).proc hddTask).haveIntMsg = false by decide)

end WalOS
