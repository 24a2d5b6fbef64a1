/-
**The services of the kernel** (`system.c`, the loop of `hdd.c`, and `send_recv` of `message.c`).

An `Office n` is the table with the places of the programs: every process may be inside a
`send_recv(MSG_BOTH, ..)`, between its halves or behind them (`CallPc`), and the two server tasks are
at a place of their loops (`TaskPc`). The clients ask `SYSTEM_TASK` and `HDD_TASK`, and `HDD_TASK`
asks `SYSTEM_TASK` while it serves. Ledgers note which request was served with which reply, and which
calls completed with which message in the buffer.

* `Staffed` — the office stands where a state of the request/reply protocol `Service.State` does.
* `Staffed.step` — every step of the office is a step of the protocol.
* `ServedNow` — a request is served, with the tick count of this moment; `officeRun_served` — whatever is in
  the ledger was served so.
* `services` — no send that a program makes is a deadlock, and a call that completes has in its
  buffer the reply that its server made for this very request.
-/

import WalOS.Ipc.SysCall
import WalOS.Lib.Service

namespace WalOS

open Rendezvous

variable {n : ℕ}

/-! ### The programs -/

/-- The tasks, the `msg` of each loop, and who owns the memory. -/
structure Staff (n : ℕ) where
  system : Fin n
  hdd : Fin n
  different : system ≠ hdd
  desk : Fin n → Addr
  owner : Addr → Fin n
  owner_desk : ∀ v, owner (desk v) = v
  desk_ne_null : ∀ v, desk v ≠ null

/-- Inside `send_recv(MSG_BOTH, srv, msg)`: after its send, and after its receive. The request is the
message sent. -/
inductive CallPc (n : ℕ) where
  | idle
  | sending (srv : Fin n) (msg : Addr) (request : Message)
  | receiving (srv : Fin n) (msg : Addr) (request : Message)

/-- In the loop of a task: before the receive, after it, and with a request from `src`. -/
inductive TaskPc where
  | top
  | receiving
  | serving (src : Int)

/-- A request with the reply its server made. -/
abbrev Served (n : ℕ) : Type := Service.Record (Fin n) Message Message

structure Office (n : ℕ) where
  kernel : Kernel n
  call : Fin n → CallPc n
  task : Fin n → TaskPc
  served : Fin n → List (Served n)
  completed : Fin n → List (Served n)

def Office.start (s : Kernel n) : Office n :=
  ⟨s, fun _ => .idle, fun _ => .top, fun _ => [], fun _ => []⟩

namespace Staff

variable (k : Staff n)

def Serves (v : Fin n) : Prop := v = k.system ∨ v = k.hdd

/-- Clients ask both tasks, and `HDD_TASK` asks `SYSTEM_TASK`. -/
def Asks (p v : Fin n) : Prop := (¬ k.Serves p ∧ k.Serves v) ∨ (p = k.hdd ∧ v = k.system)

/-- The types that the `switch` of a task handles. -/
def Handles (v : Fin n) (type : Int) : Prop :=
  if v = k.system then type = msgGetTicks
  else type ∈ [msgDevOpen, msgDevClose, msgDevRead, msgDevWrite, msgDevIoControl]

/-- What the `switch` does to the message: `SYSTEM_TASK` puts `ticks` into `RETVAL`. -/
def answer (v : Fin n) (ticks : BitVec 32) (m : Message) : Message :=
  if v = k.system then { m with u := { m.u with m3i1 := ticks } } else m

/-- A buffer of `p` for its calls. -/
structure Buffer (p : Fin n) (msg : Addr) : Prop where
  owner : k.owner msg = p
  ne_desk : msg ≠ k.desk p
  ne_null : msg ≠ null

/-- `p` may start a call. -/
structure MayCall (m : Office n) (p : Fin n) : Prop where
  free : (m.kernel.proc p).flags = 0
  idle : m.call p = .idle
  serving : k.Serves p → ∃ src, m.task p = .serving src

end Staff

/-- The reply of `v`, as the kernel sends it. -/
def Staff.reply (k : Staff n) (v : Fin n) (ticks : BitVec 32) (m : Message) : Message :=
  { k.answer v ticks m with source := pid v }

/-- **One step of the office.** -/
inductive OfficeStep (k : Staff n) (m : Office n) : Office n → Prop where
  | ask {outside : Int → Process n} {p v : Fin n} {msg : Addr} {t : Kernel n} :
      k.MayCall m p → k.Asks p v → k.Buffer p msg → k.Handles v (m.kernel.mem msg).type →
      (sysSendRecv outside funcSend (pid v) msg p m.kernel).outcome = .ok t →
      OfficeStep k m
        { m with kernel := t, call := Function.update m.call p
                  (.sending v msg { m.kernel.mem msg with source := pid p }) }
  | collect {outside : Int → Process n} {p v : Fin n} {msg : Addr} {request : Message}
      {t : Kernel n} : (m.kernel.proc p).flags = 0 → m.call p = .sending v msg request →
      (sysSendRecv outside funcReceive (pid v) msg p m.kernel).outcome = .ok t →
      OfficeStep k m
        { m with kernel := t, call := Function.update m.call p (.receiving v msg request) }
  | finish {p v : Fin n} {msg : Addr} {request : Message} :
      (m.kernel.proc p).flags = 0 → m.call p = .receiving v msg request →
      OfficeStep k m
        { m with call := Function.update m.call p .idle
                 completed := Function.update m.completed p
                  (m.completed p ++ [⟨v, request, m.kernel.mem msg⟩]) }
  | listen {outside : Int → Process n} {v : Fin n} {t : Kernel n} :
      k.Serves v → (m.kernel.proc v).flags = 0 → m.task v = .top →
      (sysSendRecv outside funcReceive (pAny n) (k.desk v) v
        (m.kernel.store (k.desk v) Message.zero)).outcome = .ok t →
      OfficeStep k m { m with kernel := t, task := Function.update m.task v .receiving }
  | accept {v p : Fin n} : k.Serves v → (m.kernel.proc v).flags = 0 → m.task v = .receiving →
      (m.kernel.mem (k.desk v)).source = pid p → k.Handles v (m.kernel.mem (k.desk v)).type →
      OfficeStep k m
        { m with kernel := m.kernel.store (k.desk v)
                  (k.answer v m.kernel.ticks (m.kernel.mem (k.desk v)))
                 task := Function.update m.task v (.serving (pid p))
                 served := Function.update m.served p (m.served p ++
                  [⟨v, m.kernel.mem (k.desk v),
                    k.reply v m.kernel.ticks (m.kernel.mem (k.desk v))⟩]) }
  | reply {outside : Int → Process n} {v : Fin n} {src : Int} {t : Kernel n} :
      k.Serves v → k.MayCall m v → m.task v = .serving src →
      (sysSendRecv outside funcSend src (k.desk v) v m.kernel).outcome = .ok t →
      OfficeStep k m { m with kernel := t, task := Function.update m.task v .top }
  | tick {t : Kernel n} : (clockIntHandler m.kernel).outcome = .ok t →
      OfficeStep k m { m with kernel := t }
  | write {p : Fin n} {addr : Addr} {msg : Message} : m.call p = .idle → k.owner addr = p →
      addr ≠ k.desk p → OfficeStep k m { m with kernel := m.kernel.store addr msg }

abbrev OfficeRun (k : Staff n) : Office n → Office n → Prop :=
  Relation.ReflTransGen (OfficeStep k)

/-! ### The protocol -/

/-- The protocol of these services. -/
def Staff.rules (k : Staff n) : Service.Rules (Fin n) where
  asks := k.Asks
  serves := k.Serves
  rank p := if p = k.system then 0 else if p = k.hdd then 1 else 2
  lower p v asks := by
    have different := k.different
    rcases asks with ⟨client, rfl | rfl⟩ | ⟨rfl, rfl⟩
    · rw [if_pos rfl, if_neg fun same => client (Or.inl same)]
      split <;> decide
    · rw [if_neg different.symm, if_pos rfl, if_neg fun same => client (Or.inl same),
        if_neg fun same => client (Or.inr same)]
      decide
    · rw [if_pos rfl, if_neg different.symm, if_pos rfl]
      decide
  server p v asks := by
    rcases asks with ⟨_, serves⟩ | ⟨_, rfl⟩
    · exact serves
    · exact Or.inl rfl

/-- The state of the protocol. -/
abbrev Desk (n : ℕ) : Type := Service.State (Fin n) Message Message

/-- A request of `p` that `v` handles. -/
structure Staff.Fits (k : Staff n) (p v : Fin n) (request : Message) : Prop where
  source : request.source = pid p
  type : k.Handles v request.type

/-- Where a caller stands. -/
def CallerShows (k : Staff n) (m : Office n) (b : Post n) (p : Fin n) :
    Service.Caller (Fin n) Message Message → Prop
  | .idle => m.call p = .idle ∧
      ((k.Serves p → ∃ src, m.task p = .serving src) → b.mail.wait p = .ready)
  | .queued v q => ∃ msg, m.call p = .sending v msg q ∧ k.Buffer p msg ∧
      b.mail.wait p = .sending v ∧ b.buffer p = msg ∧ b.mem msg = q ∧ k.Fits p v q
  | .held v q false => ∃ msg, m.call p = .sending v msg q ∧ k.Buffer p msg ∧
      b.mail.wait p = .ready
  | .held v q true => ∃ msg, m.call p = .receiving v msg q ∧ k.Buffer p msg ∧
      b.mail.wait p = .receiving (.only v) ∧ b.buffer p = msg
  | .answered v q r => ∃ msg, m.call p = .receiving v msg q ∧ k.Buffer p msg ∧
      b.mail.wait p = .ready ∧ b.mem msg = r

/-- Where a server stands. -/
def ServerShows (k : Staff n) (m : Office n) (b : Post n) (v : Fin n) :
    Service.Server (Fin n) Message Message → Prop
  | .free => m.task v = .top ∧ b.mail.wait v = .ready
  | .listening => m.task v = .receiving ∧ b.mail.wait v = .receiving .any ∧ b.buffer v = k.desk v
  | .arrived p q => m.task v = .receiving ∧ b.mail.wait v = .ready ∧ b.mem (k.desk v) = q ∧
      k.Fits p v q
  | .serving p _ r => m.task v = .serving (pid p) ∧ { b.mem (k.desk v) with source := pid v } = r
  | .replying p _ r => m.task v = .top ∧ b.mail.wait v = .sending p ∧ b.buffer v = k.desk v ∧
      b.mem (k.desk v) = r

/-- **The office stands where the protocol does.** -/
structure Staffed (k : Staff n) (m : Office n) (b : Post n) (c : Desk n) : Prop where
  rep : Represents m.kernel b
  well : b.mail.WellFormed
  pending : ∀ p, b.pending p = false
  con : c.Consistent k.rules
  served : m.served = c.served
  completed : m.completed = c.completed
  signed : ∀ p, ∀ record ∈ m.served p, record.reply.source = pid record.server
  caller : ∀ p, CallerShows k m b p (c.caller p)
  server : ∀ v, k.Serves v → ServerShows k m b v (c.server v)

/-! ### What the invariant says about blocked processes -/

variable {k : Staff n} {m m' : Office n} {b b' : Post n} {c : Desk n} {p v x y : Fin n}

/-- **A blocked sender** waits with a request or with a reply. -/
theorem Staffed.sending (staffed : Staffed k m b c) (sending : b.mail.wait x = .sending y) :
    (∃ q, c.caller x = .queued y q) ∨
      (k.Serves x ∧ c.caller x = .idle ∧ ∃ q r, c.server x = .replying y q r) := by
  have caller := staffed.caller x
  cases stands : c.caller x with
  | idle =>
    rw [stands] at caller
    have serves : k.Serves x := by
      by_contra client
      exact absurd ((caller.2 fun serves => absurd serves client).symm.trans sending) (by simp)
    have server := staffed.server x serves
    cases desk : c.server x with
    | free => rw [desk] at server; exact absurd (server.2.symm.trans sending) (by simp)
    | listening => rw [desk] at server; exact absurd (server.2.1.symm.trans sending) (by simp)
    | arrived p q => rw [desk] at server; exact absurd (server.2.1.symm.trans sending) (by simp)
    | serving p q r =>
      rw [desk] at server
      exact absurd ((caller.2 fun _ => ⟨_, server.1⟩).symm.trans sending) (by simp)
    | replying p q r =>
      rw [desk] at server
      obtain rfl := Wait.sending.inj (server.2.1.symm.trans sending)
      exact Or.inr ⟨serves, rfl, q, r, rfl⟩
  | queued v q =>
    rw [stands] at caller
    obtain ⟨_, _, _, blocked, _⟩ := caller
    obtain rfl := Wait.sending.inj (blocked.symm.trans sending)
    exact Or.inl ⟨q, rfl⟩
  | held v q waiting =>
    rw [stands] at caller
    cases waiting with
    | false =>
      obtain ⟨_, _, _, ready⟩ := caller
      exact absurd (ready.symm.trans sending) (by simp)
    | true =>
      obtain ⟨_, _, _, receiving, _⟩ := caller
      exact absurd (receiving.symm.trans sending) (by simp)
  | answered v q r =>
    rw [stands] at caller
    obtain ⟨_, _, _, ready, _⟩ := caller
    exact absurd (ready.symm.trans sending) (by simp)

/-- **A blocked receiver** listens, or waits for its reply. -/
theorem Staffed.receiving (staffed : Staffed k m b c) {src : Source (Fin n)}
    (receiving : b.mail.wait x = .receiving src) :
    (k.Serves x ∧ c.server x = .listening ∧ src = .any ∧ b.buffer x = k.desk x) ∨
      ∃ v q, c.caller x = .held v q true ∧ src = .only v := by
  have caller := staffed.caller x
  cases stands : c.caller x with
  | idle =>
    rw [stands] at caller
    have serves : k.Serves x := by
      by_contra client
      exact absurd ((caller.2 fun serves => absurd serves client).symm.trans receiving) (by simp)
    have server := staffed.server x serves
    cases desk : c.server x with
    | free => rw [desk] at server; exact absurd (server.2.symm.trans receiving) (by simp)
    | listening =>
      rw [desk] at server
      obtain rfl := Wait.receiving.inj (server.2.1.symm.trans receiving)
      exact Or.inl ⟨serves, rfl, rfl, server.2.2⟩
    | arrived p q => rw [desk] at server; exact absurd (server.2.1.symm.trans receiving) (by simp)
    | serving p q r =>
      rw [desk] at server
      exact absurd ((caller.2 fun _ => ⟨_, server.1⟩).symm.trans receiving) (by simp)
    | replying p q r =>
      rw [desk] at server
      exact absurd (server.2.1.symm.trans receiving) (by simp)
  | queued v q =>
    rw [stands] at caller
    obtain ⟨_, _, _, blocked, _⟩ := caller
    exact absurd (blocked.symm.trans receiving) (by simp)
  | held v q waiting =>
    rw [stands] at caller
    cases waiting with
    | false =>
      obtain ⟨_, _, _, ready⟩ := caller
      exact absurd (ready.symm.trans receiving) (by simp)
    | true =>
      obtain ⟨_, _, _, blocked, _⟩ := caller
      obtain rfl := Wait.receiving.inj (blocked.symm.trans receiving)
      exact Or.inr ⟨v, q, rfl, rfl⟩
  | answered v q r =>
    rw [stands] at caller
    obtain ⟨_, _, _, ready, _⟩ := caller
    exact absurd (ready.symm.trans receiving) (by simp)

theorem Staffed.edge (staffed : Staffed k m b c) (edge : b.mail.Edge x y) : c.Edge x y := by
  rcases staffed.sending edge with queued | ⟨_, _, replying⟩
  · exact Or.inl queued
  · exact Or.inr replying

/-- The buffers that blocked processes left. -/
theorem Staffed.nonNull (staffed : Staffed k m b c) (blocked : b.mail.wait x ≠ .ready) :
    b.buffer x ≠ null := by
  cases wait : b.mail.wait x with
  | ready => exact absurd wait blocked
  | sending y =>
    rcases staffed.sending wait with ⟨q, queued⟩ | ⟨serves, _, q, r, replying⟩
    · have caller := staffed.caller x
      rw [queued] at caller
      obtain ⟨msg, _, buffer, _, rfl, _⟩ := caller
      exact buffer.ne_null
    · have server := staffed.server x serves
      rw [replying] at server
      rw [server.2.2.1]
      exact k.desk_ne_null x
  | receiving src =>
    rcases staffed.receiving wait with ⟨_, _, _, buffer⟩ | ⟨v, q, held, _⟩
    · rw [buffer]
      exact k.desk_ne_null x
    · have caller := staffed.caller x
      rw [held] at caller
      obtain ⟨msg, _, buffer, _, rfl⟩ := caller
      exact buffer.ne_null

/-! ### What a step leaves alone -/

/-- A process with its memory is left alone. -/
structure Same (k : Staff n) (m m' : Office n) (b b' : Post n) (x : Fin n) : Prop where
  call : m'.call x = m.call x
  task : m'.task x = m.task x
  wait : b'.mail.wait x = b.mail.wait x
  buffer : b.mail.wait x ≠ .ready → b'.buffer x = b.buffer x
  mem : ∀ a, k.owner a = x → b'.mem a = b.mem a

theorem CallerShows.same {st : Service.Caller (Fin n) Message Message}
    (shown : CallerShows k m b x st) (same : Same k m m' b b' x) : CallerShows k m' b' x st := by
  cases st with
  | idle =>
    refine ⟨same.call.trans shown.1, fun guard => same.wait.trans (shown.2 fun serves => ?_)⟩
    obtain ⟨src, serving⟩ := guard serves
    exact ⟨src, same.task ▸ serving⟩
  | queued v q =>
    obtain ⟨msg, call, buffer, sending, left, rfl, fits⟩ := shown
    refine ⟨msg, same.call.trans call, buffer, same.wait.trans sending, ?_,
      same.mem msg buffer.owner, fits⟩
    rw [same.buffer (by rw [sending]; simp), left]
  | held v q waiting =>
    cases waiting with
    | false =>
      obtain ⟨msg, call, buffer, ready⟩ := shown
      exact ⟨msg, same.call.trans call, buffer, same.wait.trans ready⟩
    | true =>
      obtain ⟨msg, call, buffer, receiving, left⟩ := shown
      refine ⟨msg, same.call.trans call, buffer, same.wait.trans receiving, ?_⟩
      rw [same.buffer (by rw [receiving]; simp), left]
  | answered v q r =>
    obtain ⟨msg, call, buffer, ready, rfl⟩ := shown
    exact ⟨msg, same.call.trans call, buffer, same.wait.trans ready, same.mem msg buffer.owner⟩

theorem ServerShows.frame {st : Service.Server (Fin n) Message Message}
    (shown : ServerShows k m b x st) (taskEq : m'.task x = m.task x)
    (wait : b'.mail.wait x = b.mail.wait x) (buffer : b.mail.wait x ≠ .ready → b'.buffer x = b.buffer x)
    (desk : b'.mem (k.desk x) = b.mem (k.desk x)) : ServerShows k m' b' x st := by
  cases st with
  | free => exact ⟨taskEq.trans shown.1, wait.trans shown.2⟩
  | listening =>
    obtain ⟨task, receiving, left⟩ := shown
    refine ⟨taskEq.trans task, wait.trans receiving, ?_⟩
    rw [buffer (by rw [receiving]; simp), left]
  | arrived p q =>
    obtain ⟨task, ready, rfl, fits⟩ := shown
    exact ⟨taskEq.trans task, wait.trans ready, desk, fits⟩
  | serving p q r =>
    obtain ⟨task, rfl⟩ := shown
    exact ⟨taskEq.trans task, by rw [desk]⟩
  | replying p q r =>
    obtain ⟨task, sending, left, rfl⟩ := shown
    refine ⟨taskEq.trans task, wait.trans sending, ?_, desk⟩
    rw [buffer (by rw [sending]; simp), left]

theorem ServerShows.same {st : Service.Server (Fin n) Message Message}
    (shown : ServerShows k m b x st) (same : Same k m m' b b' x) : ServerShows k m' b' x st :=
  shown.frame same.task same.wait same.buffer (same.mem (k.desk x) (k.owner_desk x))

/-- A serving task is left alone by what happens to its own calls. -/
theorem ServerShows.serving (staffed : Staffed k m b c) (serves : k.Serves p)
    (busy : ∃ x q r, c.server p = .serving x q r) (task : m'.task p = m.task p)
    (desk : b'.mem (k.desk p) = b.mem (k.desk p)) : ServerShows k m' b' p (c.server p) := by
  obtain ⟨x, q, r, serving⟩ := busy
  have server := staffed.server p serves
  rw [serving] at server ⊢
  exact ⟨task.trans server.1, by rw [desk]; exact server.2⟩

/-- A task that is not serving need not be ready. -/
theorem CallerShows.rests (call : m'.call v = .idle) (serves : k.Serves v)
    (task : ∀ src, m'.task v ≠ .serving src) : CallerShows k m' b' v .idle := by
  refine ⟨call, fun guard => ?_⟩
  obtain ⟨src, serving⟩ := guard serves
  exact absurd serving (task src)

/-- **One caller and one server move.** -/
theorem Staffed.meet (staffed : Staffed k m b c)
    {cc : Service.Caller (Fin n) Message Message} {w : Service.Server (Fin n) Message Message}
    {served completed : List (Served n)} (rep : Represents m'.kernel b')
    (well : b'.mail.WellFormed) (pending : b'.pending = b.pending)
    (step : Service.Step k.rules c (c.meet p cc v w served completed))
    (servedEq : m'.served = Function.update m.served p served)
    (completedEq : m'.completed = Function.update m.completed p completed)
    (signed : ∀ record ∈ served, record.reply.source = pid record.server)
    (others : ∀ x, x ≠ p → x ≠ v → Same k m m' b b' x) (callerP : CallerShows k m' b' p cc)
    (callerV : v ≠ p → CallerShows k m' b' v (c.caller v))
    (serverP : v ≠ p → k.Serves p → ServerShows k m' b' p (c.server p))
    (serverV : k.Serves v → ServerShows k m' b' v w) :
    Staffed k m' b' (c.meet p cc v w served completed) where
  rep := rep
  well := well
  pending := fun q => (congrFun pending q).trans (staffed.pending q)
  con := staffed.con.step step
  served := by rw [servedEq, staffed.served]; rfl
  completed := by rw [completedEq, staffed.completed]; rfl
  signed x record member := by
    rw [servedEq] at member
    by_cases same : x = p
    · subst same
      exact signed record (by simpa using member)
    · exact staffed.signed x record (by simpa [same] using member)
  caller x := by
    show CallerShows k m' b' x (Function.update c.caller p cc x)
    by_cases sameP : x = p
    · subst sameP
      rwa [Function.update_self]
    · rw [Function.update_of_ne sameP]
      by_cases sameV : x = v
      · subst sameV
        exact callerV sameP
      · exact (staffed.caller x).same (others x sameP sameV)
  server x serves := by
    show ServerShows k m' b' x (Function.update c.server v w x)
    by_cases sameV : x = v
    · subst sameV
      rw [Function.update_self]
      exact serverV serves
    · rw [Function.update_of_ne sameV]
      by_cases sameP : x = p
      · subst sameP
        exact serverP (Ne.symm sameV) serves
      · exact (staffed.server x serves).same (others x sameP sameV)

theorem Staffed.signed_self (staffed : Staffed k m b c) (p : Fin n) :
    ∀ record ∈ c.served p, record.reply.source = pid record.server :=
  fun record member => staffed.signed p record (staffed.served ▸ member)

/-- **One caller and one server move**, and no call begins to be served or ends. -/
theorem Staffed.turn (staffed : Staffed k m b c)
    {cc : Service.Caller (Fin n) Message Message} {w : Service.Server (Fin n) Message Message}
    (rep : Represents m'.kernel b') (well : b'.mail.WellFormed) (pending : b'.pending = b.pending)
    (step : Service.Step k.rules c (c.turn p cc v w)) (served : m'.served = m.served)
    (completed : m'.completed = m.completed)
    (others : ∀ x, x ≠ p → x ≠ v → Same k m m' b b' x) (callerP : CallerShows k m' b' p cc)
    (callerV : v ≠ p → CallerShows k m' b' v (c.caller v))
    (serverP : v ≠ p → k.Serves p → ServerShows k m' b' p (c.server p))
    (serverV : k.Serves v → ServerShows k m' b' v w) : Staffed k m' b' (c.turn p cc v w) := by
  refine staffed.meet rep well pending step ?_ ?_ (staffed.signed_self p) others callerP callerV
    serverP serverV
  · rw [served, staffed.served, Function.update_eq_self]
  · rw [completed, staffed.completed, Function.update_eq_self]

/-- Where the calls are made, `flags` is 0 for a ready process. -/
theorem Staffed.ready (staffed : Staffed k m b c) (free : (m.kernel.proc x).flags = 0) :
    b.mail.wait x = .ready := (ready_iff (staffed.rep.shows x)).mp free

/-- A caller that may call is idle, and if it is a task it serves. -/
theorem Staffed.mayCall (staffed : Staffed k m b c) (may : k.MayCall m p) :
    c.caller p = .idle ∧ (k.Serves p → ∃ x y r, c.server p = .serving x y r) := by
  have caller := staffed.caller p
  have idle : c.caller p = .idle := by
    cases stands : c.caller p with
    | idle => rfl
    | queued v q =>
      rw [stands] at caller
      obtain ⟨_, call, _⟩ := caller
      exact absurd (may.idle.symm.trans call) (by simp)
    | held v q waiting =>
      rw [stands] at caller
      cases waiting with
      | false =>
        obtain ⟨_, call, _⟩ := caller
        exact absurd (may.idle.symm.trans call) (by simp)
      | true =>
        obtain ⟨_, call, _⟩ := caller
        exact absurd (may.idle.symm.trans call) (by simp)
    | answered v q r =>
      rw [stands] at caller
      obtain ⟨_, call, _⟩ := caller
      exact absurd (may.idle.symm.trans call) (by simp)
  refine ⟨idle, fun serves => ?_⟩
  obtain ⟨src, task⟩ := may.serving serves
  have server := staffed.server p serves
  cases stands : c.server p with
  | serving x q r => exact ⟨x, q, r, rfl⟩
  | free => rw [stands] at server; exact absurd (task.symm.trans server.1) (by simp)
  | listening => rw [stands] at server; exact absurd (task.symm.trans server.1) (by simp)
  | arrived x q => rw [stands] at server; exact absurd (task.symm.trans server.1) (by simp)
  | replying x q r => rw [stands] at server; exact absurd (task.symm.trans server.1) (by simp)

theorem Staff.asks_ne (asks : k.Asks p v) : p ≠ v := fun same =>
  absurd (k.rules.lower p v asks) (by simp [same])

/-! ### The halves of a call -/

/-- Addresses with different owners are different. -/
theorem Staff.ne_of_owner {a a' : Addr} (owners : k.owner a ≠ k.owner a') : a ≠ a' :=
  fun same => owners (congrArg k.owner same)

/-- A write of `p` to its own memory is not seen by others. -/
theorem update_mem_of_owner {mem : Addr → Message} {a a' : Addr} {message : Message}
    (owner : k.owner a' = p) (other : k.owner a ≠ p) :
    Function.update mem a' message a = mem a :=
  Function.update_of_ne (Staff.ne_of_owner fun same => other (same.trans owner)) _ _

/-- The send of a call. -/
theorem Staffed.ask {msg : Addr} {t : Kernel n} (staffed : Staffed k m b c)
    (may : k.MayCall m p) (asks : k.Asks p v) (buffer : k.Buffer p msg)
    (handles : k.Handles v (m.kernel.mem msg).type) (rep : Represents t b')
    (send : (b.stamp p msg).Send p v msg b') :
    ∃ c', Staffed k
      { m with kernel := t, call := Function.update m.call p
                (.sending v msg { m.kernel.mem msg with source := pid p }) } b' c' := by
  have ready := staffed.ready may.free
  have ne := Staff.asks_ne asks
  obtain ⟨idle, busy⟩ := staffed.mayCall may
  obtain ⟨_, mailStep⟩ := send.move ready ne
  have well := mailStep.wellFormed staffed.well
  have deskOf : k.desk p ≠ msg := buffer.ne_desk.symm
  rw [staffed.rep.mem] at handles ⊢
  have fits : k.Fits p v { b.mem msg with source := pid p } := ⟨rfl, handles⟩
  cases send with
  | @pass src receiving accepts =>
    rcases staffed.receiving receiving with ⟨serves, listening, rfl, left⟩ | ⟨u, q, held, rfl⟩
    · have leftV : (b.stamp p msg).buffer v = k.desk v := left
      have passed : (b.stamp p msg).pass v msg = { (b.stamp p msg).pass v msg with
          mem := Function.update (b.stamp p msg).mem (k.desk v)
            { b.mem msg with source := pid p } } := by
        unfold Post.pass
        rw [leftV]
        congr 2
        exact Function.update_self ..
      refine ⟨_, staffed.turn rep well rfl
        (.askPass (q := { b.mem msg with source := pid p }) idle busy asks listening) rfl rfl
        (fun x notP notV => ?_) ?_ (fun _ => ?_) (fun _ serves' => ?_) fun _ => ?_⟩
      · refine ⟨Function.update_of_ne notP _ _, rfl, Post.put_wait_of_ne x notV,
          fun _ => Function.update_of_ne notV _ _, fun a owner => ?_⟩
        rw [passed]
        exact (update_mem_of_owner (k.owner_desk v) (owner ▸ notV)).trans
          (update_mem_of_owner buffer.owner (owner ▸ notP))
      · exact ⟨msg, Function.update_self .., buffer, (Post.put_wait_of_ne p ne).trans ready⟩
      · have rests := staffed.con.idle_of_not_serving serves fun x q r => by rw [listening]; simp
        have caller := staffed.caller v
        have server := staffed.server v serves
        rw [listening] at server
        rw [rests] at caller ⊢
        exact CallerShows.rests ((Function.update_of_ne ne.symm _ _).trans caller.1) serves
          fun src serving => absurd (server.1.symm.trans serving) (by simp)
      · refine ServerShows.serving staffed serves' (busy serves') rfl ?_
        rw [passed]
        exact (update_mem_of_owner (k.owner_desk v) (by rw [k.owner_desk]; exact ne)).trans
          (Function.update_of_ne deskOf _ _)
      · have server := staffed.server v serves
        rw [listening] at server
        refine ⟨server.1, Post.put_wait_self, ?_, fits⟩
        rw [passed]
        exact Function.update_self ..
    · -- nobody asks a process that waits for its own reply from it
      obtain rfl : p = u := accepts
      have back := staffed.con.asks v p (by rw [held]; rfl)
      exact absurd (lt_trans (k.rules.lower p v asks) (k.rules.lower v p back)) (lt_irrefl _)
  | queue _ _ =>
    have sending : ((b.stamp p msg).enqueue p v msg).mail.wait p = .sending v := Post.put_wait_self
    have same : ∀ x, x ≠ p → Same k m
        { m with kernel := t, call := Function.update m.call p
                  (.sending v msg { b.mem msg with source := pid p }) }
        b ((b.stamp p msg).enqueue p v msg) x := fun x notP =>
      ⟨Function.update_of_ne notP _ _, rfl, Post.put_wait_of_ne x notP,
        fun _ => Function.update_of_ne notP _ _,
        fun a owner => update_mem_of_owner buffer.owner (owner ▸ notP)⟩
    refine ⟨_, staffed.turn rep well rfl
      (.askQueue (q := { b.mem msg with source := pid p }) idle busy asks) rfl rfl
      (fun x notP _ => same x notP) ?_ (fun notP => (staffed.caller v).same (same v notP))
      (fun _ serves => ?_) fun serves => (staffed.server v serves).same (same v ne.symm)⟩
    · exact ⟨msg, Function.update_self .., buffer, sending, Function.update_self ..,
        Function.update_self .., fits⟩
    · exact ServerShows.serving staffed serves (busy serves) rfl (Function.update_of_ne deskOf _ _)

/-- Between its halves a call is held by its server. -/
theorem Staffed.between {msg : Addr} {request : Message} (staffed : Staffed k m b c)
    (ready : b.mail.wait p = .ready) (call : m.call p = .sending v msg request) :
    c.caller p = .held v request false ∧ k.Buffer p msg := by
  have caller := staffed.caller p
  cases stands : c.caller p with
  | idle => rw [stands] at caller; exact absurd (call.symm.trans caller.1) (by simp)
  | queued u q =>
    rw [stands] at caller
    obtain ⟨_, _, _, sending, _⟩ := caller
    exact absurd (ready.symm.trans sending) (by simp)
  | held u q waiting =>
    rw [stands] at caller
    cases waiting with
    | true =>
      obtain ⟨_, _, _, receiving, _⟩ := caller
      exact absurd (ready.symm.trans receiving) (by simp)
    | false =>
      obtain ⟨_, call', buffer, _⟩ := caller
      obtain ⟨rfl, rfl, rfl⟩ := CallPc.sending.inj (call.symm.trans call')
      exact ⟨rfl, buffer⟩
  | answered u q r =>
    rw [stands] at caller
    obtain ⟨_, call', _⟩ := caller
    exact absurd (call.symm.trans call') (by simp)

/-- Behind its halves a call is answered. -/
theorem Staffed.behind {msg : Addr} {request : Message} (staffed : Staffed k m b c)
    (ready : b.mail.wait p = .ready) (call : m.call p = .receiving v msg request) :
    c.caller p = .answered v request (b.mem msg) ∧ k.Buffer p msg := by
  have caller := staffed.caller p
  cases stands : c.caller p with
  | idle => rw [stands] at caller; exact absurd (call.symm.trans caller.1) (by simp)
  | queued u q =>
    rw [stands] at caller
    obtain ⟨_, call', _⟩ := caller
    exact absurd (call.symm.trans call') (by simp)
  | held u q waiting =>
    rw [stands] at caller
    cases waiting with
    | true =>
      obtain ⟨_, _, _, receiving, _⟩ := caller
      exact absurd (ready.symm.trans receiving) (by simp)
    | false =>
      obtain ⟨_, call', _⟩ := caller
      exact absurd (call.symm.trans call') (by simp)
  | answered u q r =>
    rw [stands] at caller
    obtain ⟨_, call', buffer, _, rfl⟩ := caller
    obtain ⟨rfl, rfl, rfl⟩ := CallPc.receiving.inj (call.symm.trans call')
    exact ⟨rfl, buffer⟩

/-- The receive of a call. -/
theorem Staffed.collect {msg : Addr} {request : Message} {t : Kernel n}
    (staffed : Staffed k m b c) (free : (m.kernel.proc p).flags = 0)
    (call : m.call p = .sending v msg request) (rep : Represents t b')
    (recv : (b.stamp p msg).Recv p (.only v) msg b') :
    ∃ c', Staffed k
      { m with kernel := t, call := Function.update m.call p (.receiving v msg request) } b' c' := by
  have ready := staffed.ready free
  obtain ⟨held, buffer⟩ := staffed.between ready call
  have asks : k.Asks p v := staffed.con.asks p v (by rw [held]; rfl)
  have ne := Staff.asks_ne asks
  have serves : k.Serves v := k.rules.server p v asks
  have busy := staffed.con.busy p (by rw [held]; simp)
  have deskOf : k.desk p ≠ msg := buffer.ne_desk.symm
  obtain ⟨_, mailStep⟩ := recv.move ready
  have well := mailStep.wellFormed staffed.well
  cases recv with
  | interrupt answers => exact answers.2.elim
  | @take u before after _ split accepts _ =>
    obtain rfl : u = v := accepts
    have queue : b.mail.queue p = before ++ u :: after := split
    have sending : b.mail.wait u = .sending p := (staffed.well.mem u p).mp (by simp [queue])
    rcases staffed.sending sending with ⟨q, queued⟩ | ⟨_, rests, q, r, replying⟩
    · have back := staffed.con.asks u p (by rw [queued]; rfl)
      exact absurd (lt_trans (k.rules.lower p u asks) (k.rules.lower u p back)) (lt_irrefl _)
    have same := held.symm.trans (staffed.con.still u p q r replying)
    obtain rfl : request = q := by simpa using same
    have server := staffed.server u serves
    rw [replying] at server
    obtain ⟨task, _, left, paper⟩ := server
    refine ⟨_, staffed.turn rep well rfl (.collectTake replying) rfl rfl
      (fun x notP notV => ?_) ?_ (fun _ => ?_) (fun _ serves' => ?_) fun _ => ?_⟩
    · exact ⟨Function.update_of_ne notP _ _, rfl, Post.put_wait_of_ne x notV,
        fun _ => Function.update_of_ne notV _ _, fun a owner =>
          (update_mem_of_owner buffer.owner (owner ▸ notP)).trans
            (update_mem_of_owner buffer.owner (owner ▸ notP))⟩
    · refine ⟨msg, Function.update_self .., buffer, (Post.put_wait_of_ne p ne).trans ready, ?_⟩
      refine (Function.update_self ..).trans ?_
      show (b.stamp p msg).mem (b.buffer u) = r
      rw [left]
      exact (update_mem_of_owner buffer.owner (by rw [k.owner_desk]; exact ne.symm)).trans paper
    · have caller := staffed.caller u
      rw [rests] at caller ⊢
      exact CallerShows.rests ((Function.update_of_ne ne.symm _ _).trans caller.1) serves
        fun src serving => absurd (task.symm.trans serving) (by simp)
    · exact ServerShows.serving staffed serves' (busy serves') rfl
        ((Function.update_of_ne deskOf _ _).trans (Function.update_of_ne deskOf _ _))
    · exact ⟨task, Post.put_wait_self⟩
  | await _ nobody =>
    have quiet : ∀ x y r, c.server v ≠ .replying x y r := by
      intro x y r replying
      have server := staffed.server v serves
      rw [replying] at server
      have same : x = p := by
        have holds := (staffed.con.held p v request).mp ⟨false, held⟩
        rw [replying] at holds
        exact holds.1
      subst same
      exact nobody v ((staffed.well.mem v x).mpr server.2.1) rfl
    have same : ∀ x, x ≠ p → Same k m
        { m with kernel := t, call := Function.update m.call p (.receiving v msg request) }
        b ((b.stamp p msg).await p (.only v) msg) x := fun x notP =>
      ⟨Function.update_of_ne notP _ _, rfl, Post.put_wait_of_ne x notP,
        fun _ => Function.update_of_ne notP _ _,
        fun a owner => update_mem_of_owner buffer.owner (owner ▸ notP)⟩
    refine ⟨_, staffed.turn rep well rfl (.collectWait held quiet) rfl rfl
      (fun x notP _ => same x notP) ?_ (fun notP => (staffed.caller v).same (same v notP))
      (fun _ serves' => ?_) fun serves => (staffed.server v serves).same (same v ne.symm)⟩
    · exact ⟨msg, Function.update_self .., buffer, Post.put_wait_self, Function.update_self ..⟩
    · exact ServerShows.serving staffed serves' (busy serves') rfl
        (Function.update_of_ne deskOf _ _)

/-- The end of a call. -/
theorem Staffed.finish {msg : Addr} {request : Message} (staffed : Staffed k m b c)
    (free : (m.kernel.proc p).flags = 0) (call : m.call p = .receiving v msg request) :
    ∃ c', Staffed k
      { m with call := Function.update m.call p .idle
               completed := Function.update m.completed p
                (m.completed p ++ [⟨v, request, m.kernel.mem msg⟩]) } b c' := by
  have ready := staffed.ready free
  obtain ⟨answered, buffer⟩ := staffed.behind ready call
  have asks : k.Asks p v := staffed.con.asks p v (by rw [answered]; rfl)
  have ne := Staff.asks_ne asks
  have same : ∀ x, x ≠ p → Same k m
      { m with call := Function.update m.call p .idle
               completed := Function.update m.completed p
                (m.completed p ++ [⟨v, request, m.kernel.mem msg⟩]) } b b x := fun x notP =>
    ⟨Function.update_of_ne notP _ _, rfl, rfl, fun _ => rfl, fun _ _ => rfl⟩
  refine ⟨_, staffed.meet staffed.rep staffed.well rfl (.finish answered)
    (by rw [staffed.served, Function.update_eq_self])
    (by rw [staffed.completed, staffed.rep.mem]) (staffed.signed_self p)
    (fun x notP _ => same x notP) ⟨Function.update_self .., fun _ => ready⟩
    (fun notP => (staffed.caller v).same (same v notP)) (fun _ serves => ?_)
    fun serves => (staffed.server v serves).same (same v ne.symm)⟩
  exact ServerShows.serving staffed serves
    (staffed.con.busy p (by rw [answered]; simp) serves) rfl rfl

/-! ### The loops of the tasks -/

/-- The task stands at the top of its loop. -/
theorem Staffed.atTop (staffed : Staffed k m b c) (serves : k.Serves v)
    (ready : b.mail.wait v = .ready) (task : m.task v = .top) : c.server v = .free := by
  have server := staffed.server v serves
  cases stands : c.server v with
  | free => rfl
  | listening => rw [stands] at server; exact absurd (task.symm.trans server.1) (by simp)
  | arrived x q => rw [stands] at server; exact absurd (task.symm.trans server.1) (by simp)
  | serving x q r => rw [stands] at server; exact absurd (task.symm.trans server.1) (by simp)
  | replying x q r => rw [stands] at server; exact absurd (ready.symm.trans server.2.1) (by simp)

/-- The task has received. -/
theorem Staffed.atSwitch (staffed : Staffed k m b c) (serves : k.Serves v)
    (ready : b.mail.wait v = .ready) (task : m.task v = .receiving) :
    ∃ p, c.server v = .arrived p (b.mem (k.desk v)) ∧ k.Fits p v (b.mem (k.desk v)) := by
  have server := staffed.server v serves
  cases stands : c.server v with
  | free => rw [stands] at server; exact absurd (task.symm.trans server.1) (by simp)
  | listening => rw [stands] at server; exact absurd (ready.symm.trans server.2.1) (by simp)
  | arrived x q =>
    rw [stands] at server
    obtain ⟨_, _, rfl, fits⟩ := server
    exact ⟨x, rfl, fits⟩
  | serving x q r => rw [stands] at server; exact absurd (task.symm.trans server.1) (by simp)
  | replying x q r => rw [stands] at server; exact absurd (ready.symm.trans server.2.1) (by simp)

/-- The task is serving. -/
theorem Staffed.atReply {src : Int} (staffed : Staffed k m b c) (serves : k.Serves v)
    (task : m.task v = .serving src) :
    ∃ p q, src = pid p ∧ c.server v = .serving p q { b.mem (k.desk v) with source := pid v } := by
  have server := staffed.server v serves
  cases stands : c.server v with
  | free => rw [stands] at server; exact absurd (task.symm.trans server.1) (by simp)
  | listening => rw [stands] at server; exact absurd (task.symm.trans server.1) (by simp)
  | arrived x q => rw [stands] at server; exact absurd (task.symm.trans server.1) (by simp)
  | serving x q r =>
    rw [stands] at server
    obtain ⟨task', rfl⟩ := server
    exact ⟨x, q, TaskPc.serving.inj (task.symm.trans task'), rfl⟩
  | replying x q r => rw [stands] at server; exact absurd (task.symm.trans server.1) (by simp)

/-- A write to memory that its owner's place does not depend on. -/
theorem Staffed.store {addr : Addr} {message : Message} (staffed : Staffed k m b c)
    (caller : CallerShows k { m with kernel := m.kernel.store addr message }
      { b with mem := Function.update b.mem addr message } (k.owner addr) (c.caller (k.owner addr)))
    (server : k.Serves (k.owner addr) →
      ServerShows k { m with kernel := m.kernel.store addr message }
        { b with mem := Function.update b.mem addr message } (k.owner addr)
        (c.server (k.owner addr))) :
    Staffed k { m with kernel := m.kernel.store addr message }
      { b with mem := Function.update b.mem addr message } c := by
  have same : ∀ x, x ≠ k.owner addr → Same k m { m with kernel := m.kernel.store addr message } b
      { b with mem := Function.update b.mem addr message } x := fun x other =>
    ⟨rfl, rfl, rfl, fun _ => rfl, fun a owner => update_mem_of_owner rfl (owner ▸ other)⟩
  refine ⟨staffed.rep.store addr message, staffed.well, staffed.pending, staffed.con,
    staffed.served, staffed.completed, staffed.signed, fun x => ?_, fun x serves => ?_⟩
  · by_cases here : x = k.owner addr
    · exact here ▸ caller
    · exact (staffed.caller x).same (same x here)
  · by_cases here : x = k.owner addr
    · subst here
      exact server serves
    · exact (staffed.server x serves).same (same x here)

/-- A process that is in no call writes to its own memory. -/
theorem Staffed.write {addr : Addr} {message : Message} (staffed : Staffed k m b c)
    (call : m.call p = .idle) (owner : k.owner addr = p) (other : addr ≠ k.desk p) :
    Staffed k { m with kernel := m.kernel.store addr message }
      { b with mem := Function.update b.mem addr message } c := by
  subst owner
  refine staffed.store ?_ fun serves => (staffed.server _ serves).frame rfl rfl (fun _ => rfl)
    (Function.update_of_ne other.symm _ _)
  have caller := staffed.caller (k.owner addr)
  cases stands : c.caller (k.owner addr) with
  | idle => rw [stands] at caller; exact caller
  | queued v q =>
    rw [stands] at caller
    obtain ⟨_, call', _⟩ := caller
    exact absurd (call.symm.trans call') (by simp)
  | held v q waiting =>
    rw [stands] at caller
    cases waiting with
    | false =>
      obtain ⟨_, call', _⟩ := caller
      exact absurd (call.symm.trans call') (by simp)
    | true =>
      obtain ⟨_, call', _⟩ := caller
      exact absurd (call.symm.trans call') (by simp)
  | answered v q r =>
    rw [stands] at caller
    obtain ⟨_, call', _⟩ := caller
    exact absurd (call.symm.trans call') (by simp)

/-- A task that is free makes no call. -/
theorem Staffed.free (staffed : Staffed k m b c) (serves : k.Serves v) (top : c.server v = .free) :
    c.caller v = .idle ∧ CallerShows k m b v .idle ∧ ServerShows k m b v .free := by
  have rests := staffed.con.idle_of_not_serving serves fun x q r => by rw [top]; simp
  exact ⟨rests, rests ▸ staffed.caller v, top ▸ staffed.server v serves⟩

/-- A task at the top of its loop clears its `msg`. -/
theorem Staffed.clear {message : Message} (staffed : Staffed k m b c) (serves : k.Serves v)
    (top : c.server v = .free) :
    Staffed k { m with kernel := m.kernel.store (k.desk v) message }
      { b with mem := Function.update b.mem (k.desk v) message } c := by
  obtain ⟨rests, caller, server⟩ := staffed.free serves top
  refine staffed.store ?_ fun _ => ?_
  · rw [k.owner_desk, rests]
    exact caller
  · rw [k.owner_desk, top]
    exact server

/-- The receive of a task. -/
theorem Staffed.listen {t : Kernel n} (staffed : Staffed k m b c) (serves : k.Serves v)
    (top : c.server v = .free) (rep : Represents t b')
    (recv : (b.stamp v (k.desk v)).Recv v .any (k.desk v) b') :
    ∃ c', Staffed k { m with kernel := t, task := Function.update m.task v .receiving } b' c' := by
  obtain ⟨rests, caller, server⟩ := staffed.free serves top
  have ready := server.2
  obtain ⟨_, mailStep⟩ := recv.move ready
  have well := mailStep.wellFormed staffed.well
  cases recv with
  | interrupt answers =>
    have pending : b.pending v = true := answers.1
    rw [staffed.pending v] at pending
    cases pending
  | @take p before after _ split _ _ =>
    have queue : b.mail.queue v = before ++ p :: after := split
    have sending : b.mail.wait p = .sending v := (staffed.well.mem p v).mp (by simp [queue])
    have stuck : b.mail.wait p ≠ .ready := by rw [sending]; simp
    rcases staffed.sending sending with ⟨q, queued⟩ | ⟨_, _, q, r, replying⟩
    · have asks : k.Asks p v := staffed.con.asks p v (by rw [queued]; rfl)
      have ne := Staff.asks_ne asks
      have callerP := staffed.caller p
      rw [queued] at callerP
      obtain ⟨msg, call, buffer, _, left, slip, fits⟩ := callerP
      refine ⟨_, staffed.turn rep well rfl (.listenTake top queued) rfl rfl
        (fun x notP notV => ?_) ?_ (fun _ => ?_) (fun _ servesP => ?_) fun _ => ?_⟩
      · exact ⟨rfl, Function.update_of_ne notV _ _, Post.put_wait_of_ne x notP,
          fun _ => Function.update_of_ne notP _ _, fun a owner =>
            (update_mem_of_owner (k.owner_desk v) (owner ▸ notV)).trans
              (update_mem_of_owner (k.owner_desk v) (owner ▸ notV))⟩
      · exact ⟨msg, call, buffer, Post.put_wait_self⟩
      · rw [rests]
        exact CallerShows.rests caller.1 serves fun src => by simp
      · refine ServerShows.serving staffed servesP
          (staffed.con.busy p (by rw [queued]; simp) servesP) (Function.update_of_ne ne _ _) ?_
        have other : k.owner (k.desk p) ≠ v := by rw [k.owner_desk]; exact ne
        exact (update_mem_of_owner (k.owner_desk v) other).trans
          (update_mem_of_owner (k.owner_desk v) other)
      · refine ⟨Function.update_self .., (Post.put_wait_of_ne v ne.symm).trans ready, ?_, fits⟩
        refine (Function.update_self ..).trans ?_
        show (b.stamp v (k.desk v)).mem (b.buffer p) = q
        rw [left]
        exact (update_mem_of_owner (k.owner_desk v) (by rw [buffer.owner]; exact ne)).trans slip
    · have held := staffed.con.still p v q r replying
      rw [rests] at held
      cases held
  | await _ _ =>
    refine ⟨_, staffed.turn rep well rfl (.listenWait serves top) rfl rfl
      (fun x notV _ => ?_) ?_ (fun other => absurd rfl other) (fun other => absurd rfl other)
      fun _ => ?_⟩
    · exact ⟨rfl, Function.update_of_ne notV _ _, Post.put_wait_of_ne x notV,
        fun _ => Function.update_of_ne notV _ _,
        fun a owner => update_mem_of_owner (k.owner_desk v) (owner ▸ notV)⟩
    · rw [rests]
      exact CallerShows.rests caller.1 serves fun src => by simp
    · exact ⟨Function.update_self .., Post.put_wait_self, Function.update_self ..⟩

/-- The `switch` of a task. -/
theorem Staffed.accept (staffed : Staffed k m b c) (serves : k.Serves v)
    (ready : b.mail.wait v = .ready) (task : m.task v = .receiving)
    (source : (m.kernel.mem (k.desk v)).source = pid p) :
    ∃ c', Staffed k
      { m with kernel := m.kernel.store (k.desk v)
                (k.answer v m.kernel.ticks (m.kernel.mem (k.desk v)))
               task := Function.update m.task v (.serving (pid p))
               served := Function.update m.served p (m.served p ++
                [⟨v, m.kernel.mem (k.desk v),
                  k.reply v m.kernel.ticks (m.kernel.mem (k.desk v))⟩]) }
      { b with mem := Function.update b.mem (k.desk v)
                (k.answer v m.kernel.ticks (m.kernel.mem (k.desk v))) } c' := by
  obtain ⟨p', arrived, fits⟩ := staffed.atSwitch serves ready task
  rw [staffed.rep.mem] at source ⊢
  obtain rfl : p' = p := pid_inj.mp (fits.source.symm.trans source)
  obtain ⟨w, held⟩ := (staffed.con.held p' v (b.mem (k.desk v))).mpr (by rw [arrived]; exact ⟨rfl, rfl⟩)
  have asks : k.Asks p' v := staffed.con.asks p' v (by rw [held]; rfl)
  have ne := Staff.asks_ne asks
  have rests := staffed.con.idle_of_not_serving serves fun x q r => by rw [arrived]; simp
  have stored := staffed.rep.store (k.desk v) (k.answer v m.kernel.ticks (b.mem (k.desk v)))
  have same : ∀ x, x ≠ v → Same k m
      { m with kernel := m.kernel.store (k.desk v)
                (k.answer v m.kernel.ticks (b.mem (k.desk v)))
               task := Function.update m.task v (.serving (pid p'))
               served := Function.update m.served p' (m.served p' ++
                [⟨v, b.mem (k.desk v), k.reply v m.kernel.ticks (b.mem (k.desk v))⟩]) } b
      { b with mem := Function.update b.mem (k.desk v)
                (k.answer v m.kernel.ticks (b.mem (k.desk v))) } x := fun x notV =>
    ⟨rfl, Function.update_of_ne notV _ _, rfl, fun _ => rfl,
      fun a owner => update_mem_of_owner (k.owner_desk v) (owner ▸ notV)⟩
  refine ⟨_, staffed.meet stored staffed.well rfl
    (.accept (r := k.reply v m.kernel.ticks (b.mem (k.desk v))) arrived)
    (by rw [staffed.served]) (by rw [staffed.completed, Function.update_eq_self])
    (fun record member => ?_) (fun x _ notV => same x notV) ((staffed.caller p').same (same p' ne))
    (fun _ => ?_) (fun _ servesP => (staffed.server p' servesP).same (same p' ne)) fun _ => ?_⟩
  · rcases List.mem_append.mp member with old | new
    · exact staffed.signed_self p' record old
    · rw [List.mem_singleton.mp new]
      rfl
  · have caller := staffed.caller v
    rw [rests] at caller ⊢
    exact ⟨caller.1, fun _ => ready⟩
  · refine ⟨Function.update_self .., ?_⟩
    show { Function.update b.mem (k.desk v) _ (k.desk v) with source := pid v } = _
    rw [Function.update_self]
    rfl

/-- The send of a task. -/
theorem Staffed.reply {q : Message} {t : Kernel n} (staffed : Staffed k m b c)
    (serves : k.Serves v) (ready : b.mail.wait v = .ready) (rests : c.caller v = .idle)
    (serving : c.server v = .serving p q { b.mem (k.desk v) with source := pid v })
    (rep : Represents t b') (send : (b.stamp v (k.desk v)).Send v p (k.desk v) b') :
    ∃ c', Staffed k { m with kernel := t, task := Function.update m.task v .top } b' c' := by
  obtain ⟨w, held⟩ := (staffed.con.held p v q).mpr (by rw [serving]; exact ⟨rfl, rfl⟩)
  have asks : k.Asks p v := staffed.con.asks p v (by rw [held]; rfl)
  have ne := Staff.asks_ne asks
  have busy := staffed.con.busy p (by rw [held]; simp)
  have callerV := staffed.caller v
  rw [rests] at callerV
  have otherDesk : k.owner (k.desk p) ≠ v := by rw [k.owner_desk]; exact ne
  obtain ⟨_, mailStep⟩ := send.move ready ne.symm
  have well := mailStep.wellFormed staffed.well
  have callerP := staffed.caller p
  rw [held] at callerP
  cases send with
  | @pass src receiving accepts =>
    rcases staffed.receiving receiving with ⟨servesP, listening, _⟩ | ⟨u, q', held', rfl⟩
    · obtain ⟨_, _, _, serving'⟩ := busy servesP
      rw [listening] at serving'
      cases serving'
    · rw [held] at held'
      obtain ⟨rfl, rfl, rfl⟩ := Service.Caller.held.inj held'
      obtain ⟨msg, call, buffer, _, left⟩ := callerP
      have leftP : (b.stamp v (k.desk v)).buffer p = msg := left
      refine ⟨_, staffed.turn rep well rfl (.replyPass serving rests held) rfl rfl
        (fun x notP notV => ?_) ?_ (fun _ => ?_) (fun _ servesP => ?_) fun _ => ?_⟩
      · refine ⟨rfl, Function.update_of_ne notV _ _, Post.put_wait_of_ne x notP,
          fun _ => Function.update_of_ne notP _ _, fun a owner => ?_⟩
        rw [Post.pass, leftP]
        exact (update_mem_of_owner buffer.owner (owner ▸ notP)).trans
          (update_mem_of_owner (k.owner_desk v) (owner ▸ notV))
      · refine ⟨msg, call, buffer, Post.put_wait_self, ?_⟩
        rw [Post.pass, leftP]
        exact (Function.update_self ..).trans (Function.update_self ..)
      · rw [rests]
        exact CallerShows.rests callerV.1 serves fun src => by simp
      · refine ServerShows.serving staffed servesP (busy servesP) (Function.update_of_ne ne _ _) ?_
        rw [Post.pass, leftP]
        exact (Function.update_of_ne buffer.ne_desk.symm _ _).trans
          (update_mem_of_owner (k.owner_desk v) otherDesk)
      · exact ⟨Function.update_self .., (Post.put_wait_of_ne v ne.symm).trans ready⟩
  | queue refuses _ =>
    cases w with
    | true =>
      obtain ⟨_, _, _, receiving, _⟩ := callerP
      exact absurd rfl (refuses (.only v) receiving)
    | false =>
      have same : ∀ x, x ≠ v → Same k m
          { m with kernel := t, task := Function.update m.task v .top } b
          ((b.stamp v (k.desk v)).enqueue v p (k.desk v)) x := fun x notV =>
        ⟨rfl, Function.update_of_ne notV _ _, Post.put_wait_of_ne x notV,
          fun _ => Function.update_of_ne notV _ _,
          fun a owner => update_mem_of_owner (k.owner_desk v) (owner ▸ notV)⟩
      refine ⟨_, staffed.turn rep well rfl (.replyQueue serving rests held) rfl rfl
        (fun x _ notV => same x notV) ((staffed.caller p).same (same p ne)) (fun _ => ?_)
        (fun _ servesP => (staffed.server p servesP).same (same p ne)) fun _ => ?_⟩
      · rw [rests]
        exact CallerShows.rests callerV.1 serves fun src => by simp
      · exact ⟨Function.update_self .., Post.put_wait_self, Function.update_self ..,
          Function.update_self ..⟩

/-! ### Runs -/

theorem Staffed.start {s₀ : Kernel n} (boot : Boot s₀) :
    Staffed k (.start s₀) s₀.idle Service.State.rest where
  rep := boot.represents
  well := Mail.rest_wellFormed
  pending := boot.haveIntMsg
  con := Service.State.rest_consistent
  served := rfl
  completed := rfl
  signed _ _ member := absurd member List.not_mem_nil
  caller _ := ⟨rfl, fun _ => rfl⟩
  server _ _ := ⟨rfl, rfl⟩

/-- **The step lemma.** -/
theorem Staffed.step (staffed : Staffed k m b c) (step : OfficeStep k m m') :
    ∃ b' c', Staffed k m' b' c' := by
  cases step with
  | @ask outside p v msg t may asks buffer handles returned =>
    have quiet : (Call.send v).AsksInterrupt → b.pending p = false → Quiet outside p := False.elim
    obtain ⟨_, b', send, rep, _⟩ :=
      sysSendRecv_value staffed.rep staffed.well (staffed.ready may.free) quiet returned
    exact ⟨b', staffed.ask may asks buffer handles rep send⟩
  | @collect outside p v msg request t free call returned =>
    have quiet : (Call.receive (.only v)).AsksInterrupt → b.pending p = false →
        Quiet outside p := fun asks => (nomatch asks)
    obtain ⟨_, b', recv, rep, _⟩ :=
      sysSendRecv_value staffed.rep staffed.well (staffed.ready free) quiet returned
    exact ⟨b', staffed.collect free call rep recv⟩
  | finish free call => exact ⟨b, staffed.finish free call⟩
  | @listen outside v t serves free task returned =>
    have ready := staffed.ready free
    have top := staffed.atTop serves ready task
    have cleared : Staffed k
        { m with kernel := m.kernel.store (k.desk v) Message.zero } _ c := staffed.clear serves top
    have quiet : (Call.receive (n := n) .any).AsksInterrupt → b.pending v = false →
        Quiet outside v := fun asks => (nomatch asks)
    obtain ⟨_, b', recv, rep, _⟩ :=
      sysSendRecv_value cleared.rep cleared.well ready quiet returned
    exact ⟨b', cleared.listen serves top rep recv⟩
  | accept serves free task source _ =>
    exact ⟨_, staffed.accept serves (staffed.ready free) task source⟩
  | @reply outside v src t serves may task returned =>
    obtain ⟨p, q, rfl, serving⟩ := staffed.atReply serves task
    obtain ⟨rests, _⟩ := staffed.mayCall may
    have ready := staffed.ready may.free
    have quiet : (Call.send p).AsksInterrupt → b.pending v = false → Quiet outside v := False.elim
    obtain ⟨_, b', send, rep, _⟩ :=
      sysSendRecv_value staffed.rep staffed.well ready quiet returned
    exact ⟨b', staffed.reply serves ready rests serving rep send⟩
  | @tick t returned =>
    have spec : (clockIntHandler m.kernel).Sat (fun _ => True) _ _ :=
      clockIntHandler_sat staffed.rep
    have same : ∀ x, Same k m { m with kernel := t } b b x := fun x =>
      ⟨rfl, rfl, rfl, fun _ => rfl, fun _ _ => rfl⟩
    exact ⟨b, c, (spec.value t returned).1, staffed.well, staffed.pending, staffed.con,
      staffed.served, staffed.completed, staffed.signed,
      fun x => (staffed.caller x).same (same x),
      fun x serves => (staffed.server x serves).same (same x)⟩
  | write call owner other => exact ⟨_, c, staffed.write call owner other⟩

/-- **The run lemma.** -/
theorem officeRun_staffed {s₀ : Kernel n} (boot : Boot s₀) (run : OfficeRun k (.start s₀) m) :
    ∃ b c, Staffed k m b c := by
  induction run with
  | refl => exact ⟨_, _, .start boot⟩
  | tail _ step ih =>
    obtain ⟨b, c, staffed⟩ := ih
    exact staffed.step step

/-- **A request of `p` is served** by the step from `m` to `m'`: it lies on the desk of its server, and
`SYSTEM_TASK` returns the tick count of `m`. -/
structure ServedNow (k : Staff n) (m m' : Office n) (p : Fin n) (record : Served n) : Prop where
  step : OfficeStep k m m'
  serves : k.Serves record.server
  request : m.kernel.mem (k.desk record.server) = record.request
  noted : m'.served p = m.served p ++ [record]
  ticks : record.server = k.system → record.reply.u.m3i1 = m.kernel.ticks

/-- A step serves a request of `p`, or it leaves what was served. -/
theorem OfficeStep.served (step : OfficeStep k m m') (p : Fin n) :
    m'.served p = m.served p ∨ ∃ record, ServedNow k m m' p record := by
  cases step with
  | @accept v q serves free task source handles =>
    by_cases same : p = q
    · subst same
      refine .inr ⟨⟨v, m.kernel.mem (k.desk v), k.reply v m.kernel.ticks (m.kernel.mem (k.desk v))⟩,
        .accept serves free task source handles, serves, rfl, Function.update_self .., ?_⟩
      rintro rfl
      unfold Staff.reply Staff.answer
      rw [if_pos rfl]
    · exact .inl (Function.update_of_ne same _ _)
  | _ => exact .inl rfl

/-- **Whatever is in the ledger was served at some moment of the run.** -/
theorem officeRun_served {s₀ : Kernel n} (run : OfficeRun k (.start s₀) m) {before : List (Served n)}
    {record : Served n} (last : m.served p = before ++ [record]) :
    ∃ m₁ m₂, OfficeRun k (.start s₀) m₁ ∧ ServedNow k m₁ m₂ p record ∧ OfficeRun k m₂ m ∧
      m₁.served p = before := by
  induction run with
  | refl => exact absurd last.symm (List.append_ne_nil_of_right_ne_nil _ (List.cons_ne_nil _ _))
  | tail run step ih =>
    rcases step.served p with same | ⟨record', now⟩
    · obtain ⟨m₁, m₂, first, now, rest, served⟩ := ih (same ▸ last)
      exact ⟨m₁, m₂, first, now, rest.tail step, served⟩
    · obtain ⟨same, single⟩ := List.append_inj' (now.noted.symm.trans last) rfl
      obtain rfl := List.singleton_inj.mp single
      exact ⟨_, _, run, now, .refl, same⟩

/-- A send towards a process that does not wait for the sender is not reported. -/
theorem Staffed.alive (staffed : Staffed k m b c) (free : (m.kernel.proc p).flags = 0) (ne : p ≠ v)
    (safe : ¬ Relation.ReflTransGen c.Edge v p) (outside : Int → Process n) {fuel : ℕ}
    (enough : n ≤ fuel) :
    (deadLock outside fuel m.kernel (pid p) (pid v)).outcome = .ok false := by
  have spec : (deadLock outside fuel m.kernel (pid p) (pid v)).Sat (fun _ => True) _
      (fun _ => False) :=
    deadLock_sat staffed.rep staffed.well ne enough (staffed.ready free) (fun _ => trivial)
      fun ⟨x, blocked, isNull⟩ => staffed.nonNull blocked isNull
  cases answer : (deadLock outside fuel m.kernel (pid p) (pid v)).outcome with
  | error reason => exact (spec.stopped reason answer).elim
  | ok dead =>
    cases dead with
    | false => rfl
    | true =>
      have walk := (spec.value true answer).mp rfl
      exact absurd (Relation.ReflTransGen.mono (fun x y => staffed.edge) _ _ walk) safe

/-- **The services are free of deadlocks and never mix replies.** In every reachable state: a request
that a program may make and the reply of a serving task are not reported by `dead_lock`; a task that
has received a message has one of a process, of a type that it handles; and a process whose
`send_recv(MSG_BOTH, v, msg)` is done has at `msg` the reply that `v` made for this request, with `v`
as its source, and from `SYSTEM_TASK` with the tick count at which it was made. -/
theorem services {s₀ : Kernel n} (boot : Boot s₀) (run : OfficeRun k (.start s₀) m) :
    (∀ p v : Fin n, k.MayCall m p → k.Asks p v → ∀ (outside : Int → Process n) (fuel : ℕ), n ≤ fuel →
        (deadLock outside fuel m.kernel (pid p) (pid v)).outcome = .ok false) ∧
      (∀ v p : Fin n, k.Serves v → k.MayCall m v → m.task v = .serving (pid p) →
        ∀ (outside : Int → Process n) (fuel : ℕ), n ≤ fuel →
        (deadLock outside fuel m.kernel (pid v) (pid p)).outcome = .ok false) ∧
      (∀ v, k.Serves v → (m.kernel.proc v).flags = 0 → m.task v = .receiving →
        ∃ p : Fin n, (m.kernel.mem (k.desk v)).source = pid p ∧
          k.Handles v (m.kernel.mem (k.desk v)).type) ∧
      ∀ (p v : Fin n) (msg : Addr) (request : Message), (m.kernel.proc p).flags = 0 →
        m.call p = .receiving v msg request →
        m.served p = m.completed p ++ [⟨v, request, m.kernel.mem msg⟩] ∧
          (m.kernel.mem msg).source = pid v ∧
          ∃ m₁ m₂, OfficeRun k (.start s₀) m₁ ∧
            ServedNow k m₁ m₂ p ⟨v, request, m.kernel.mem msg⟩ ∧ OfficeRun k m₂ m ∧
            m₁.served p = m.completed p := by
  obtain ⟨b, c, staffed⟩ := officeRun_staffed boot run
  refine ⟨fun p v may asks outside fuel enough => ?_, fun v p serves may task outside fuel enough => ?_,
    fun v serves free task => ?_, fun p v msg request free call => ?_⟩
  · exact staffed.alive may.free (Staff.asks_ne asks)
      (staffed.con.ask_safe (staffed.mayCall may).1 asks) outside enough
  · obtain ⟨p', q, same, serving⟩ := staffed.atReply serves task
    obtain rfl := pid_inj.mp same
    obtain ⟨w, held⟩ := (staffed.con.held p v q).mpr (by rw [serving]; exact ⟨rfl, rfl⟩)
    have asks : k.Asks p v := staffed.con.asks p v (by rw [held]; rfl)
    exact staffed.alive may.free (Staff.asks_ne asks).symm (staffed.con.reply_safe held) outside
      enough
  · obtain ⟨p, _, fits⟩ := staffed.atSwitch serves (staffed.ready free) task
    rw [← staffed.rep.mem] at fits
    exact ⟨p, fits.source, fits.type⟩
  · obtain ⟨answered, _⟩ := staffed.behind (staffed.ready free) call
    have ledger := staffed.con.ledger p
    simp only [Service.State.outstanding, answered] at ledger
    rw [← staffed.served, ← staffed.completed, ← staffed.rep.mem] at ledger
    exact ⟨ledger, staffed.signed p ⟨v, request, m.kernel.mem msg⟩ (ledger ▸ by simp),
      officeRun_served run ledger⟩

/-- Every process owns a page of its own. -/
def pages : Staff totalTaskCnt where
  system := systemTask
  hdd := hddTask
  different := by decide
  desk v := BitVec.ofNat 32 (0x1000 * (v + 1))
  owner a := ⟨(a.toNat / 0x1000 + 6) % totalTaskCnt, Nat.mod_lt _ (by decide)⟩
  owner_desk := by decide
  desk_ne_null := by decide

/-- The request of `get_ticks`. -/
def ticksRequest : Message := { Message.zero with type := msgGetTicks }

/-! The tables of one `get_ticks` of `FS_TASK`: the message is written and sent, `SYSTEM_TASK`
receives it, the clock ticks, `SYSTEM_TASK` serves, `FS_TASK` waits for the reply and gets it. -/

def ticksWritten : Kernel totalTaskCnt := bootKernel.store 0x4010 ticksRequest
def ticksAsked : Kernel totalTaskCnt :=
  (sysSendRecv nowhere funcSend (pid systemTask) 0x4010 fsTask ticksWritten).getD ticksWritten
def ticksGot : Kernel totalTaskCnt :=
  (sysSendRecv nowhere funcReceive (pAny totalTaskCnt) (pages.desk systemTask) systemTask
    (ticksAsked.store (pages.desk systemTask) Message.zero)).getD ticksAsked
def ticksTicked : Kernel totalTaskCnt := (clockIntHandler ticksGot).getD ticksGot
def ticksServed : Kernel totalTaskCnt :=
  ticksTicked.store (pages.desk systemTask)
    (pages.answer systemTask ticksTicked.ticks (ticksTicked.mem (pages.desk systemTask)))
def ticksAwaited : Kernel totalTaskCnt :=
  (sysSendRecv nowhere funcReceive (pid systemTask) 0x4010 fsTask ticksServed).getD ticksServed
def ticksReplied : Kernel totalTaskCnt :=
  (sysSendRecv nowhere funcSend (pid fsTask) (pages.desk systemTask) systemTask
    ticksAwaited).getD ticksAwaited

set_option maxRecDepth 20000 in
theorem services_getTicks : ∃ m : Office totalTaskCnt, OfficeRun pages (.start bootKernel) m ∧
    m.kernel = ticksReplied ∧ (m.kernel.mem 0x4010).u.m3i1 = 1 ∧
    m.served fsTask = m.completed fsTask ++
      [⟨systemTask, { ticksRequest with source := pid fsTask }, m.kernel.mem 0x4010⟩] ∧
    (m.kernel.mem 0x4010).source = pid systemTask ∧
    ∃ m₁ m₂, OfficeRun pages (.start bootKernel) m₁ ∧ ServedNow pages m₁ m₂ fsTask
        ⟨systemTask, { ticksRequest with source := pid fsTask }, m.kernel.mem 0x4010⟩ ∧
      OfficeRun pages m₂ m ∧ m₁.served fsTask = m.completed fsTask := by
  have serves : pages.Serves systemTask := Or.inl rfl
  have client : ¬ pages.Serves fsTask := by unfold Staff.Serves; decide
  have buffer : pages.Buffer fsTask 0x4010 := ⟨by decide, by decide, by decide⟩
  have asked : (sysSendRecv nowhere funcSend (pid systemTask) 0x4010 fsTask ticksWritten).outcome =
      .ok ticksAsked := Traced.outcome_getD (by decide) _
  have got : (sysSendRecv nowhere funcReceive (pAny totalTaskCnt) (pages.desk systemTask) systemTask
      (ticksAsked.store (pages.desk systemTask) Message.zero)).outcome = .ok ticksGot :=
    Traced.outcome_getD (by decide) _
  have ticked : (clockIntHandler ticksGot).outcome = .ok ticksTicked :=
    Traced.outcome_getD (by decide) _
  have awaited : (sysSendRecv nowhere funcReceive (pid systemTask) 0x4010 fsTask
      ticksServed).outcome = .ok ticksAwaited := Traced.outcome_getD (by decide) _
  have replied : (sysSendRecv nowhere funcSend (pid fsTask) (pages.desk systemTask) systemTask
      ticksAwaited).outcome = .ok ticksReplied := Traced.outcome_getD (by decide) _
  let request : Message := { ticksRequest with source := pid fsTask }
  let written : Office totalTaskCnt := { Office.start bootKernel with kernel := ticksWritten }
  let asking : Office totalTaskCnt :=
    { written with kernel := ticksAsked
                   call := Function.update written.call fsTask (.sending systemTask 0x4010 request) }
  let listening : Office totalTaskCnt :=
    { asking with kernel := ticksGot, task := Function.update asking.task systemTask .receiving }
  let counted : Office totalTaskCnt := { listening with kernel := ticksTicked }
  let serving : Office totalTaskCnt :=
    { counted with
      kernel := ticksServed
      task := Function.update counted.task systemTask (.serving (pid fsTask))
      served := Function.update counted.served fsTask (counted.served fsTask ++
        [⟨systemTask, ticksTicked.mem (pages.desk systemTask),
          pages.reply systemTask ticksTicked.ticks (ticksTicked.mem (pages.desk systemTask))⟩]) }
  let waiting : Office totalTaskCnt :=
    { serving with
      kernel := ticksAwaited
      call := Function.update serving.call fsTask (.receiving systemTask 0x4010 request) }
  let done : Office totalTaskCnt :=
    { waiting with kernel := ticksReplied, task := Function.update waiting.task systemTask .top }
  have toWritten : OfficeStep pages (.start bootKernel) written :=
    .write rfl (show pages.owner 0x4010 = fsTask by decide) (by decide)
  have toAsking : OfficeStep pages written asking :=
    .ask ⟨by decide, rfl, fun serves => absurd serves client⟩ (Or.inl ⟨client, serves⟩) buffer
      (show ticksRequest.type = msgGetTicks by decide) asked
  have toListening : OfficeStep pages asking listening := .listen serves (by decide) rfl got
  have toCounted : OfficeStep pages listening counted := .tick ticked
  have toServing : OfficeStep pages counted serving :=
    .accept serves (by decide) rfl (by decide)
      (show (ticksTicked.mem (pages.desk systemTask)).type = msgGetTicks by decide)
  have toWaiting : OfficeStep pages serving waiting := .collect (by decide) rfl awaited
  have toDone : OfficeStep pages waiting done :=
    .reply serves ⟨by decide, rfl, fun _ => ⟨pid fsTask, rfl⟩⟩ rfl replied
  have run : OfficeRun pages (.start bootKernel) done :=
    ((((((Relation.ReflTransGen.single toWritten).tail toAsking).tail toListening).tail
      toCounted).tail toServing).tail toWaiting).tail toDone
  exact ⟨done, run, rfl, by decide, (services bootKernel_boot run).2.2.2 fsTask systemTask 0x4010 request
    (by decide) rfl⟩

end WalOS
