/-
**The kernel state that message passing and scheduling work on** (`process.h`, `global.c`).

`Kernel n` holds a process table of `n` entries (`TOTAL_TASK_CNT`), the memory as the message stored
at each buffer address, the scheduled process, the nesting depth of the handlers and the tick count.
Buffers at different addresses do not share bytes there; what depends on it asks for buffers apart.

* A pointer into `proc_table` is an index `Fin n`, and a null-able one an `Option (Fin n)`. The C
  code also indexes the table with integers that no check bounds: `procTable` reads such an entry,
  from the memory around the table (`outside`) when the index is off it, and `procPtr` is the address
  of an entry that the code writes through, which the model follows only on the table.
* Process ids, peers, ticks, priorities and the nesting depth are `int`s with their values in `ℤ`. Only the
  clock counts without a bound, and its `--` wraps (`decInt`). Flags, addresses and the global tick count
  are words.
* `Ipc` is code over the table: it logs every index it applies to `proc_table` and may stop at an
  `ASSERT`, at a `CRITICAL`, at a bad pointer or in a loop that never ends.

The registers, descriptors, name and console of a process are left out; of the descriptors only the
base of the data segment is used by this code (`segBase`).
-/

import WalOS.Lib.Traced
import Mathlib.Data.Fintype.Basic

namespace WalOS

/-- A 32-bit address. -/
abbrev Addr := BitVec 32

/-- `NULL`. -/
def null : Addr := 0

/-- The union `u` of a message, through its largest member `m3`. -/
structure Mess3 where
  m3i1 : BitVec 32
  m3i2 : BitVec 32
  m3i3 : BitVec 32
  m3i4 : BitVec 32
  m3l1 : BitVec 64
  m3l2 : BitVec 64
  m3p1 : Addr
  m3p2 : Addr
deriving DecidableEq

structure Message where
  source : Int
  type : Int
  u : Mess3
deriving DecidableEq

/-- A message cleared by `memset`. -/
def Message.zero : Message := ⟨0, 0, ⟨0, 0, 0, 0, 0, 0, 0, 0⟩⟩

/-! ### Constants -/

/-- `MSG_SEND` and `MSG_RECEIVE`, the functions of the system call. -/
def funcSend : Int := 0
def funcReceive : Int := 1

/-- The bits of `flags`. -/
def msgSending : BitVec 32 := 2
def msgRecving : BitVec 32 := 4

def msgSourceInterrupt : Int := -10

def msgHwInterrupt : Int := 1
def msgGetTicks : Int := 2
def msgDevOpen : Int := 1001
def msgDevClose : Int := 1002
def msgDevRead : Int := 1003
def msgDevWrite : Int := 1004
def msgDevIoControl : Int := 1005

/-- The number of entries of the table the kernel is built with. -/
abbrev totalTaskCnt : ℕ := 7

def pAny (n : ℕ) : Int := n + 100
def pNoTask (n : ℕ) : Int := n + 200

/-- The message of a hardware interrupt. -/
def Message.interrupt : Message :=
  { Message.zero with source := msgSourceInterrupt, type := msgHwInterrupt }

/-- A buffer patched in place by a hardware interrupt. -/
def Message.patched (m : Message) : Message :=
  { m with source := msgSourceInterrupt, type := msgHwInterrupt }

/-! ### The state -/

/-- An entry of the process table. -/
structure Process (n : ℕ) where
  segBase : BitVec 32
  ticks : Int
  priority : Int
  id : ℕ
  flags : BitVec 32
  msg : Addr
  recvFrom : Int
  sendTo : Int
  haveIntMsg : Bool
  currentSend : Option (Fin n)
  nextSend : Option (Fin n)

structure Kernel (n : ℕ) where
  proc : Fin n → Process n
  mem : Addr → Message
  processReady : Fin n
  intReenter : Int
  ticks : BitVec 32

/-- The `ASSERT`s of the code. -/
inductive Assertion where
  | block
  | unblock
  | sendId
  | sendDestMsg
  | sendMsg
  | recvId
  | recvQueue
  | deadLockId
  | deadLockMsg
  | virToLinear
  | sysReenter
  | sysSource
deriving DecidableEq

/-- Why the code stops short of returning. -/
inductive Stop where
  | assertFail (site : Assertion)
  | deadLock (src dest : Int)
  | notSupport
  | nullPointer
  | wild (index : Int)
  | forever
deriving DecidableEq

/-- Code over the process table. -/
abbrev Ipc (α : Type) : Type := Traced Int Stop α

/-- `ASSERT`. -/
def assertThat (site : Assertion) (condition : Prop) [Decidable condition] : Ipc Unit :=
  Traced.check condition (.assertFail site)

theorem assertThat_gives {site : Assertion} {condition : Prop} [Decidable condition]
    (holds : condition) : (assertThat site condition).Gives [] () := Traced.Gives.check holds _

/-- The tasks, and the first two of the other processes. -/
def consoleTask : Fin totalTaskCnt := 0
def systemTask : Fin totalTaskCnt := 1
def hddTask : Fin totalTaskCnt := 2
def fsTask : Fin totalTaskCnt := 3
def processA : Fin totalTaskCnt := 4
def processB : Fin totalTaskCnt := 5

/-- The table as `init_process_main` fills it, on cleared memory. -/
def bootKernel : Kernel totalTaskCnt where
  proc p :=
    { segBase := 0, ticks := if (p : ℕ) < 4 then 15 else 5,
      priority := if (p : ℕ) < 4 then 15 else 5, id := p, flags := 0, msg := null, recvFrom := 0,
      sendTo := 0, haveIntMsg := false, currentSend := none, nextSend := none }
  mem _ := Message.zero
  processReady := 0
  intReenter := 0
  ticks := 0

/-- Cleared memory around the table. -/
def nowhere (_ : Int) : Process totalTaskCnt :=
  { segBase := 0, ticks := 0, priority := 0, id := 0, flags := 0, msg := null, recvFrom := 0,
    sendTo := 0, haveIntMsg := false, currentSend := none, nextSend := none }

/-! ### Updates -/

variable {n : ℕ}

/-- Change one entry of the table. -/
def Kernel.modify (s : Kernel n) (p : Fin n) (f : Process n → Process n) : Kernel n :=
  { s with proc := Function.update s.proc p (f (s.proc p)) }

/-- Change the message stored at one address. -/
def Kernel.store (s : Kernel n) (a : Addr) (m : Message) : Kernel n :=
  { s with mem := Function.update s.mem a m }

/-- The index is on the table. -/
def InTable (n : ℕ) (index : Int) : Prop := 0 ≤ index ∧ index < n

instance (n : ℕ) (index : Int) : Decidable (InTable n index) := by
  unfold InTable
  infer_instance

/-- The id of an entry as the C code passes it around. -/
def pid (p : Fin n) : Int := (p : ℕ)

/-- The entry at an index, taken from the surrounding memory when the index is off the table. -/
def Kernel.entry (s : Kernel n) (outside : Int → Process n) (index : Int) : Process n :=
  if inside : InTable n index then
    s.proc ⟨index.toNat, by unfold InTable at inside; omega⟩
  else outside index

/-- Read `proc_table[index]`. -/
def procTable (outside : Int → Process n) (s : Kernel n) (index : Int) : Ipc (Process n) := do
  Traced.touch index
  pure (s.entry outside index)

/-- `&proc_table[index]`, to be written through. -/
def procPtr (n : ℕ) (index : Int) : Ipc (Fin n) := do
  Traced.touch index
  if inside : InTable n index then
    pure ⟨index.toNat, by unfold InTable at inside; omega⟩
  else Traced.stop (.wild index)

/-! ### How the updates read -/

@[simp] theorem modify_proc (s : Kernel n) (p : Fin n) (f : Process n → Process n) (q : Fin n) :
    (s.modify p f).proc q = if q = p then f (s.proc q) else s.proc q := by
  rw [show (s.modify p f).proc q = if q = p then f (s.proc p) else s.proc q from
    Function.update_apply s.proc p _ q]
  split
  · rename_i same
    rw [same]
  · rfl

@[simp] theorem modify_mem (s : Kernel n) (p : Fin n) (f : Process n → Process n) :
    (s.modify p f).mem = s.mem := rfl

@[simp] theorem modify_intReenter (s : Kernel n) (p : Fin n) (f : Process n → Process n) :
    (s.modify p f).intReenter = s.intReenter := rfl

@[simp] theorem modify_ticks (s : Kernel n) (p : Fin n) (f : Process n → Process n) :
    (s.modify p f).ticks = s.ticks := rfl

@[simp] theorem modify_processReady (s : Kernel n) (p : Fin n) (f : Process n → Process n) :
    (s.modify p f).processReady = s.processReady := rfl

@[simp] theorem store_proc (s : Kernel n) (a : Addr) (m : Message) : (s.store a m).proc = s.proc :=
  rfl

@[simp] theorem store_intReenter (s : Kernel n) (a : Addr) (m : Message) :
    (s.store a m).intReenter = s.intReenter := rfl

@[simp] theorem store_ticks (s : Kernel n) (a : Addr) (m : Message) :
    (s.store a m).ticks = s.ticks := rfl

@[simp] theorem store_processReady (s : Kernel n) (a : Addr) (m : Message) :
    (s.store a m).processReady = s.processReady := rfl

theorem store_mem (s : Kernel n) (a : Addr) (m : Message) (b : Addr) :
    (s.store a m).mem b = if b = a then m else s.mem b :=
  Function.update_apply s.mem a m b

section Fields

variable (c : Prop) [Decidable c] (x y : Process n)

@[simp] theorem segBase_ite : (if c then x else y).segBase = if c then x.segBase else y.segBase :=
  apply_ite _ _ _ _

@[simp] theorem ticks_ite : (if c then x else y).ticks = if c then x.ticks else y.ticks :=
  apply_ite _ _ _ _

@[simp] theorem priority_ite :
    (if c then x else y).priority = if c then x.priority else y.priority :=
  apply_ite _ _ _ _

@[simp] theorem id_ite : (if c then x else y).id = if c then x.id else y.id :=
  apply_ite _ _ _ _

@[simp] theorem flags_ite : (if c then x else y).flags = if c then x.flags else y.flags :=
  apply_ite _ _ _ _

@[simp] theorem msg_ite : (if c then x else y).msg = if c then x.msg else y.msg :=
  apply_ite _ _ _ _

@[simp] theorem recvFrom_ite :
    (if c then x else y).recvFrom = if c then x.recvFrom else y.recvFrom :=
  apply_ite _ _ _ _

@[simp] theorem sendTo_ite : (if c then x else y).sendTo = if c then x.sendTo else y.sendTo :=
  apply_ite _ _ _ _

@[simp] theorem haveIntMsg_ite :
    (if c then x else y).haveIntMsg = if c then x.haveIntMsg else y.haveIntMsg :=
  apply_ite _ _ _ _

@[simp] theorem currentSend_ite :
    (if c then x else y).currentSend = if c then x.currentSend else y.currentSend :=
  apply_ite _ _ _ _

@[simp] theorem nextSend_ite :
    (if c then x else y).nextSend = if c then x.nextSend else y.nextSend :=
  apply_ite _ _ _ _

end Fields

/-! ### Indices -/

theorem inTable_pid (p : Fin n) : InTable n (pid p) :=
  ⟨Int.natCast_nonneg _, Int.ofNat_lt.mpr p.isLt⟩

theorem pid_inj {p q : Fin n} : pid p = pid q ↔ p = q := by
  unfold pid
  rw [Int.natCast_inj, Fin.val_inj]

theorem pid_ne_pAny (p : Fin n) : pid p ≠ pAny n := by
  have := p.isLt
  unfold pid pAny
  omega

theorem pid_ne_interrupt (p : Fin n) : pid p ≠ msgSourceInterrupt := by
  unfold pid msgSourceInterrupt
  omega

theorem pAny_ne_interrupt : pAny n ≠ msgSourceInterrupt := by
  unfold pAny msgSourceInterrupt
  omega

theorem interrupt_off_table : ¬ InTable n msgSourceInterrupt := by
  unfold InTable msgSourceInterrupt
  omega

@[simp] theorem entry_pid (s : Kernel n) (outside : Int → Process n) (p : Fin n) :
    s.entry outside (pid p) = s.proc p := by
  unfold Kernel.entry
  rw [dif_pos (inTable_pid p)]
  congr 1

/-- Reading an entry of the table. -/
theorem procTable_sat {outside : Int → Process n} {s : Kernel n} {p : Fin n} {acc : Int → Prop}
    {err : Stop → Prop} (inside : acc (pid p)) :
    (procTable outside s (pid p)).Sat acc (· = s.proc p) err :=
  Traced.Sat.touch_bind inside (Traced.Sat.pure (entry_pid s outside p))

/-- The address of an entry of the table. -/
theorem procPtr_sat {p : Fin n} {acc : Int → Prop} {err : Stop → Prop} (inside : acc (pid p)) :
    (procPtr n (pid p)).Sat acc (· = p) err := by
  refine Traced.Sat.touch_bind inside ?_
  rw [dif_pos (inTable_pid p)]
  exact Traced.Sat.pure rfl

end WalOS
