/-
**The disk driver among the other processes.**

A `Bench` is the table with the driver, the drive and the place where `HDD_TASK` stands. What a
request does is the log of `serve`, carried out event by event between the steps of the others: calls,
writes and clock ticks, and the interrupts that the drive has to raise. The look at the clock in
`get_status` is a call of `HDD_TASK` to another process.

* `Settles owed left x` — along the log of `x` the driver asks the drive for one interrupt at a time,
  and waits for it before it asks again; `serve_settles` — opens, closes and ioctls do so.
* `BenchStep`, `BenchRun` — the steps of all of them.
-/

import WalOS.Hdd.Lookup
import WalOS.Ipc.Early
import WalOS.Ipc.Elsewhere

namespace WalOS

open Rendezvous

variable {env : HddEnv} {α β : Type} {owed left middle : Bool}

/-! ### Logs that settle what they owe -/

/-- Whether an interrupt is owed after the event, if the driver may come to it. -/
def HddEvent.settle (owed : Bool) : HddEvent → Option Bool
  | .command cmd =>
    if owed = false ∧ (cmd.command = ataIdentify ∨ cmd.command = ataRead ∧ cmd.sectors = 1) then
      some true
    else none
  | .receiveInterrupt => if owed = true then some false else none
  | _ => some owed

/-- Whether an interrupt is owed after the events. -/
def settles (log : List HddEvent) (owed : Bool) : Option Bool := log.foldlM HddEvent.settle owed

/-- **The run goes from `owed` to `left`.** -/
structure Settles (owed left : Bool) (x : HddRun α) : Prop where
  returned : ∀ a, x.outcome = .ok a → settles x.accesses owed = some left
  stopped : ∀ reason, x.outcome = .error reason → (settles x.accesses owed).isSome = true

/-- The event neither asks nor waits. -/
def HddEvent.Calm (event : HddEvent) : Prop := ∀ owed, event.settle owed = some owed

namespace Settles

theorem pure (a : α) : Settles owed owed (Pure.pure a : HddRun α) :=
  ⟨fun _ _ => rfl, fun _ _ => rfl⟩

theorem stop (reason : HddStop) : Settles owed left (Traced.stop reason : HddRun α) where
  returned _ same := by cases same
  stopped _ _ := rfl

theorem touch {event : HddEvent} (settle : event.settle owed = some left) :
    Settles owed left (Traced.touch event : HddRun Unit) := by
  have log : settles [event] owed = some left := by
    show (event.settle owed >>= fun s => Pure.pure s) = some left
    rw [settle]
    rfl
  exact ⟨fun _ _ => log, fun _ same => by cases same⟩

theorem check {condition : Prop} [Decidable condition] {reason : HddStop} :
    Settles owed owed (Traced.check condition reason : HddRun Unit) := by
  unfold Traced.check
  split
  · exact pure ()
  · exact stop reason

theorem bind {x : HddRun α} {next : α → HddRun β} (first : Settles owed middle x)
    (rest : ∀ a, Settles middle left (next a)) : Settles owed left (x >>= next) := by
  cases found : x.outcome with
  | ok a =>
    have log : settles (x.accesses ++ (next a).accesses) owed = settles (next a).accesses middle := by
      unfold settles
      rw [List.foldlM_append]
      show (settles x.accesses owed >>= _) = _
      rw [first.returned a found]
      rfl
    rw [Traced.bind_of_ok found]
    refine ⟨fun b same => ?_, fun reason same => ?_⟩
    · exact log.trans ((rest a).returned b same)
    · rw [log]
      exact (rest a).stopped reason same
  | error reason =>
    rw [Traced.bind_of_error found]
    exact ⟨fun b same => (by cases same), fun _ _ => first.stopped reason found⟩

theorem calm {event : HddEvent} (calm : event.Calm) :
    Settles owed owed (Traced.touch event : HddRun Unit) := touch (calm owed)

theorem foldlM {step : α → β → HddRun α} {l : List β}
    (each : ∀ a, ∀ b ∈ l, Settles owed owed (step a b)) (a : α) :
    Settles owed owed (l.foldlM step a) := by
  induction l generalizing a with
  | nil => exact pure a
  | cons b l ih =>
    rw [List.foldlM_cons]
    exact bind (each a b List.mem_cons_self) fun a' =>
      ih (fun a b member => each a b (List.mem_cons_of_mem _ member)) a'

end Settles

theorem hddInfoAt_settles (drive : Int) : Settles owed owed (hddInfoAt drive) :=
  .bind (.calm fun _ => rfl) fun _ => .check

theorem primaryAt_settles (i : Int) : Settles owed owed (primaryAt i) := by
  refine .bind (.calm fun _ => rfl) fun _ => ?_
  split
  · exact .pure _
  · exact .stop _

theorem logicalAt_settles (i : Int) : Settles owed owed (logicalAt i) := by
  refine .bind (.calm fun _ => rfl) fun _ => ?_
  split
  · exact .pure _
  · exact .stop _

theorem readPort_settles (buf : Addr) (length : BitVec 32) (s : Hdd) :
    Settles owed owed (readPort buf length s) :=
  .bind (.calm fun _ => rfl) fun _ => .pure _

/-- A command that the drive answers with one interrupt. -/
theorem hddCmdOut_settles {cmd : HddCmd} (s : Hdd)
    (one : cmd.command = ataIdentify ∨ cmd.command = ataRead ∧ cmd.sectors = 1) :
    Settles false true (hddCmdOut env cmd s) :=
  .bind (.bind .check fun _ => .pure _) fun _ => .bind (.touch (if_pos ⟨rfl, one⟩)) fun _ => .pure _

theorem receiveInterrupt_settles (s : Hdd) : Settles true false (receiveInterrupt env s) :=
  .bind (.touch rfl) fun _ => .check

theorem handleIdentify_settles (drive : Int) (s : Hdd) :
    Settles false false (handleIdentify env drive s) :=
  .bind (hddCmdOut_settles s (.inl rfl)) fun _ => .bind (receiveInterrupt_settles _) fun _ =>
    .bind (readPort_settles _ _ _) fun _ => .bind (hddInfoAt_settles _) fun _ =>
    .bind (primaryAt_settles _) fun _ => .pure _

theorem getPartitionTable_settles (drive : Int) (sector : BitVec 32) (s : Hdd) :
    Settles false false (getPartitionTable env drive sector s) :=
  .bind (hddCmdOut_settles s (.inr ⟨rfl, rfl⟩)) fun _ => .bind (receiveInterrupt_settles _) fun _ =>
    readPort_settles _ _ _

theorem extendedLoop_settles (drive : Int) (extendBase : BitVec 32) (subSignature : Int) (left i : ℕ)
    (sector : BitVec 32) (s : Hdd) :
    Settles false false (extendedLoop env drive extendBase subSignature left i sector s) := by
  induction left generalizing i sector s with
  | zero => exact .pure s
  | succ left ih =>
    refine .bind (getPartitionTable_settles _ _ _) fun _ => .bind (hddInfoAt_settles _) fun _ =>
      .bind (logicalAt_settles _) fun _ => ?_
    dsimp only
    split
    · exact .pure _
    · exact ih _ _ _

theorem handlePartition_settles (dev : Int) (s : Hdd) :
    Settles false false (handlePartition env dev s) := by
  refine .bind (getPartitionTable_settles _ _ _) fun _ => .foldlM (fun s i _ => ?_) _
  unfold primaryRound
  split
  · exact .pure s
  · refine .bind (hddInfoAt_settles _) fun _ => .bind (primaryAt_settles _) fun _ => ?_
    dsimp only
    split
    · exact .bind (hddInfoAt_settles _) fun _ => .bind (primaryAt_settles _) fun _ =>
        extendedLoop_settles _ _ _ _ _ _ _
    · exact .pure _

/-- The request moves sectors. -/
def Message.Transfers (msg : Message) : Prop := msg.type = msgDevRead ∨ msg.type = msgDevWrite

/-- **Opens, closes and ioctls settle what they owe.** -/
theorem serve_settles {msg : Message} (still : ¬ msg.Transfers) (s : Hdd) :
    Settles false false (serve env msg s) := by
  unfold serve
  split
  · refine .bind (handleIdentify_settles _ _) fun _ => .bind (hddInfoAt_settles _) fun _ => ?_
    dsimp only
    split
    · exact handlePartition_settles _ _
    · exact .pure _
  split
  · exact .bind (hddInfoAt_settles _) fun _ => .pure _
  split
  · exact absurd ‹_› still
  split
  · unfold hddIoControl
    split
    · refine .bind (.bind .check fun _ => .pure _) fun _ => .bind (hddInfoAt_settles _) fun _ =>
        .bind ?_ fun _ => .pure _
      unfold partitionAt
      split
      · exact primaryAt_settles _
      · exact logicalAt_settles _
    · exact .pure s
  · exact .stop _

/-! ### The bench -/

/-- The `msg` of `hdd_task`, and who owns the memory. -/
structure Premises where
  owner : Addr → Fin totalTaskCnt
  desk : Addr
  owner_desk : owner desk = hddTask
  desk_ne_null : desk ≠ null

/-- Where `HDD_TASK` stands: before its receive, in it, with what is left of a request of `src`, and in
the default branch. -/
inductive HddPc where
  | top
  | listening
  | working (rest : HddRun Hdd) (src : Int)
  | critical

structure Bench where
  kernel : Kernel totalTaskCnt
  hdd : Hdd
  wiring : Wiring
  pc : HddPc

/-- What an event does to the interrupts of the drive. -/
def Wiring.after (event : HddEvent) (v : Wiring) : Wiring :=
  match event with
  | .command cmd => v.execute cmd
  | .readPort _ => v.transfer
  | .writePort _ _ => v.transfer
  | _ => v

/-- A buffer of `p`, which for `HDD_TASK` is not its `msg`. -/
structure Premises.Buffer (k : Premises) (p : Fin totalTaskCnt) (a : Addr) : Prop where
  own : k.owner a = p
  ne_desk : a ≠ k.desk
  ne_null : a ≠ null

/-- A call of a look at the clock. -/
def Call.Clock (call : Call totalTaskCnt) : Prop := ∃ d, call = .send d ∨ call = .receive (.only d)

/-- **One step**: of another process, of the clock, of the drive, or of `HDD_TASK`. What the others send
to `HDD_TASK` are requests. -/
inductive BenchStep (env : HddEnv) (k : Premises) (wants : Message → Prop) (x : Bench) : Bench → Prop
  | call {outside : Int → Process totalTaskCnt} {call : Call totalTaskCnt} {p : Fin totalTaskCnt}
      {a : Addr} {t : Kernel totalTaskCnt} : p ≠ hddTask → (x.kernel.proc p).flags = 0 → k.Buffer p a →
      (call = .send hddTask → wants ((x.kernel.mem a).from p)) →
      (call.AsksInterrupt → (x.kernel.proc p).haveIntMsg = false → Quiet outside p) →
      (sysSendRecv outside call.func call.srcDest a p x.kernel).outcome = .ok t →
      BenchStep env k wants x { x with kernel := t }
  | write {p : Fin totalTaskCnt} {a : Addr} {m : Message} : p ≠ hddTask →
      (x.kernel.proc p).flags = 0 → k.owner a = p →
      BenchStep env k wants x { x with kernel := x.kernel.store a m }
  | tick {t : Kernel totalTaskCnt} : (clockIntHandler x.kernel).outcome = .ok t →
      BenchStep env k wants x { x with kernel := t }
  | interrupt {t : Kernel totalTaskCnt} : 0 < x.wiring.due →
      (deliverIntToProc hddTask x.kernel).outcome = .ok t →
      BenchStep env k wants x
        { x with kernel := t, wiring := { x.wiring with due := x.wiring.due - 1 } }
  | listen {outside : Int → Process totalTaskCnt} {t : Kernel totalTaskCnt} : x.pc = .top →
      (x.kernel.proc hddTask).flags = 0 →
      (sendRecv outside (.receive .any) k.desk hddTask x.kernel).outcome = .ok t →
      BenchStep env k wants x { x with kernel := t, pc := .listening }
  | accept : x.pc = .listening → (x.kernel.proc hddTask).flags = 0 →
      (x.kernel.mem k.desk).Requests →
      BenchStep env k wants x { x with
        pc := .working (serve env (x.kernel.mem k.desk) x.hdd) (x.kernel.mem k.desk).source }
  | refuse : x.pc = .listening → (x.kernel.proc hddTask).flags = 0 →
      ¬ (x.kernel.mem k.desk).Requests → BenchStep env k wants x { x with pc := .critical }
  | look {outside : Int → Process totalTaskCnt} {call : Call totalTaskCnt} {a : Addr}
      {t : Kernel totalTaskCnt} {rest : HddRun Hdd} {src : Int} :
      x.pc = .working rest src → (x.kernel.proc hddTask).flags = 0 → k.Buffer hddTask a →
      call.Clock →
      (sysSendRecv outside call.func call.srcDest a hddTask x.kernel).outcome = .ok t →
      BenchStep env k wants x { x with kernel := t }
  | await {outside : Int → Process totalTaskCnt} {a : Addr} {t : Kernel totalTaskCnt}
      {log : List HddEvent} {outcome : Except HddStop Hdd} {src : Int} :
      x.pc = .working ⟨.receiveInterrupt :: log, outcome⟩ src → (x.kernel.proc hddTask).flags = 0 →
      k.Buffer hddTask a → Quiet outside hddTask →
      (sendRecv outside (.receive .interrupt) a hddTask x.kernel).outcome = .ok t →
      BenchStep env k wants x { x with kernel := t, pc := .working ⟨log, outcome⟩ src }
  | act {event : HddEvent} {log : List HddEvent} {outcome : Except HddStop Hdd} {src : Int} :
      x.pc = .working ⟨event :: log, outcome⟩ src → (x.kernel.proc hddTask).flags = 0 →
      event ≠ .receiveInterrupt →
      BenchStep env k wants x
        { x with wiring := x.wiring.after event, pc := .working ⟨log, outcome⟩ src }
  | reply {outside : Int → Process totalTaskCnt} {t : Kernel totalTaskCnt} {s : Hdd} {src : Int} :
      x.pc = .working ⟨[], .ok s⟩ src → (x.kernel.proc hddTask).flags = 0 →
      (sysSendRecv outside funcSend src k.desk hddTask x.kernel).outcome = .ok t →
      BenchStep env k wants x { x with kernel := t, hdd := s, pc := .top }

abbrev BenchRun (env : HddEnv) (k : Premises) (wants : Message → Prop) : Bench → Bench → Prop :=
  Relation.ReflTransGen (BenchStep env k wants)

/-- The drive is idle, and `HDD_TASK` begins. -/
def Bench.start (s : Kernel totalTaskCnt) (hdd : Hdd) : Bench := ⟨s, hdd, ⟨0, 0⟩, .top⟩

end WalOS
