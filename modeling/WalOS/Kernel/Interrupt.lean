/-
**The clock and the message system call** (`interrupt.c`).
-/

import WalOS.Kernel.Message

namespace WalOS

variable {n : ℕ} (outside : Int → Process n)

/-- `--` on an `int`: what comes below the least value is the greatest. -/
def decInt (i : Int) : Int := if i = -2147483648 then 2147483647 else i - 1

theorem decInt_of_lt {i : Int} (above : -2147483648 < i) : decInt i = i - 1 :=
  if_neg above.ne'

/-- `clock_int_handler`. -/
def clockIntHandler (s : Kernel n) : Ipc (Kernel n) :=
  let s := { s with ticks := s.ticks + 1 }
  let s := s.modify s.processReady fun p => { p with ticks := decInt p.ticks }
  if s.intReenter ≠ 0 then pure s
  else if (s.proc s.processReady).ticks > 0 then pure s
  else processSchedule scheduleFuel s

/-- `sys_send_recv`. -/
def sysSendRecv (func srcDest : Int) (msg : Addr) (proc : Fin n) (s : Kernel n) :
    Ipc (Kernel n) := do
  assertThat .sysReenter (s.intReenter = 0)
  let msgLa ← virToLinear outside s (s.proc proc).id msg
  let s := s.store msgLa { s.mem msgLa with source := (s.proc proc).id }
  assertThat .sysSource ((s.mem msgLa).source ≠ srcDest)
  if func = funcSend then
    msgSend outside proc srcDest msg s
  else if func = funcReceive then
    msgRecv outside proc srcDest msg s
  else Traced.stop .notSupport

end WalOS
