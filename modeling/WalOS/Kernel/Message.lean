/-
**Message passing** (`message.c`, and `deliver_int_to_proc` of `process.c`).

Each function of the source is one definition; its loops are loops on their loop variable, and
`msg_recv` is cut into the three stretches of code that an interrupt can fall between:
`recvCheck` (a pending interrupt), `recvLook` (a sender to take from) and `recvCommit` (copy its
message, or block).

`outside` is what memory off the process table reads as. The output of `dead_lock` is left out, the
entries that its printing loop visits and the `ASSERT` in it are kept.
-/

import WalOS.Kernel.Process

namespace WalOS

variable {n : ℕ} (outside : Int → Process n)

/-- The rounds given to a loop that follows links of the table. -/
def linkFuel (n : ℕ) : ℕ := n + 1

/-! ### `block` and `unblock` -/

def block (p : Fin n) (s : Kernel n) : Ipc (Kernel n) := do
  assertThat .block ((s.proc p).flags ≠ 0)
  processSchedule scheduleFuel s

def unblock (p : Fin n) (s : Kernel n) : Ipc Unit :=
  assertThat .unblock ((s.proc p).flags = 0)

/-! ### `dead_lock` -/

/-- The printing loop, at `&proc_table[proc]`. -/
def deadLockPrint (s : Kernel n) (src proc : Int) : Ipc (Int ⊕ Unit) := do
  let p ← procTable outside s proc
  if proc = src then
    pure (.inr ())
  else do
    assertThat .deadLockMsg (p.msg ≠ null)
    pure (.inl p.sendTo)

/-- The `while (true)`, at `&proc_table[proc]`. -/
def deadLockRound (fuel : ℕ) (s : Kernel n) (src dest proc : Int) : Ipc (Int ⊕ Bool) := do
  let p ← procTable outside s proc
  if p.flags &&& msgSending ≠ 0 then
    if p.sendTo = src then do
      Traced.loop .forever (deadLockPrint outside s src) fuel dest
      pure (.inr true)
    else pure (.inl p.sendTo)
  else pure (.inr false)

def deadLock (fuel : ℕ) (s : Kernel n) (src dest : Int) : Ipc Bool := do
  assertThat .deadLockId (src ≠ dest)
  Traced.loop .forever (deadLockRound outside fuel s src dest) fuel dest

/-! ### `msg_send` -/

/-- The search for the last sender of a queue, at `p`. -/
def tailRound (s : Kernel n) (p : Fin n) : Ipc (Fin n ⊕ Fin n) :=
  match (s.proc p).nextSend with
  | some next => pure (.inl next)
  | none => pure (.inr p)

/-- Append a sender to the queue of `pDest`. -/
def addToQueue (pSend pDest : Fin n) (s : Kernel n) : Ipc (Kernel n) :=
  match (s.proc pDest).currentSend with
  | some first => do
    let last ← Traced.loop .forever (tailRound s) (linkFuel n) first
    pure (s.modify last fun p => { p with nextSend := some pSend })
  | none => pure (s.modify pDest fun p => { p with currentSend := some pSend })

def msgSend (pSend : Fin n) (dest : Int) (msg : Addr) (s : Kernel n) : Ipc (Kernel n) := do
  assertThat .sendId ((s.proc pSend).id ≠ dest)
  let dead ← deadLock outside (linkFuel n) s (s.proc pSend).id dest
  let pDest ← procPtr n dest
  Traced.check (dead = false) (.deadLock (s.proc pSend).id dest)
  if (s.proc pDest).flags &&& msgRecving ≠ 0 ∧
      ((s.proc pDest).recvFrom = (s.proc pSend).id ∨ (s.proc pDest).recvFrom = pAny n) then do
    -- send message directly
    assertThat .sendDestMsg ((s.proc pDest).msg ≠ null)
    assertThat .sendMsg (msg ≠ null)
    let target ← virToLinear outside s dest (s.proc pDest).msg
    let source ← virToLinear outside s (s.proc pSend).id msg
    let s := s.store target (s.mem source)
    let s := s.modify pDest fun p =>
      { p with msg := null, flags := p.flags &&& ~~~msgRecving, recvFrom := pNoTask n }
    unblock pDest s
    pure s
  else do
    -- dest is not waiting for a message
    let s := s.modify pSend fun p =>
      { p with flags := p.flags ||| msgSending, sendTo := dest, msg := msg }
    let s ← addToQueue pSend pDest s
    let s := s.modify pSend fun p => { p with nextSend := none }
    block pSend s

/-! ### `msg_recv` -/

/-- Lines 79 to 94: a receive that finds a pending interrupt returns. -/
def recvCheck (pRecv : Fin n) (src : Int) (msg : Addr) (s : Kernel n) : Ipc (Option (Kernel n)) := do
  assertThat .recvId ((s.proc pRecv).id ≠ src)
  if (s.proc pRecv).haveIntMsg ∧ (src = pAny n ∨ src = msgSourceInterrupt) then do
    let target ← virToLinear outside s (s.proc pRecv).id msg
    let s := s.store target Message.interrupt
    pure (some (s.modify pRecv fun p => { p with haveIntMsg := false }))
  else pure none

/-- The search for the sender `src` in a queue, at `p` with `p_prev = prev`. It ends at the sender
with its predecessor, or behind the last one. -/
def findRound (s : Kernel n) (src : Int) (here : Option (Fin n) × Option (Fin n)) :
    Ipc ((Option (Fin n) × Option (Fin n)) ⊕ (Option (Fin n) × Option (Fin n))) :=
  match here.1 with
  | some p =>
    if (s.proc p).id = src then pure (.inr (some p, here.2))
    else pure (.inl ((s.proc p).nextSend, some p))
  | none => pure (.inr (none, here.2))

/-- Lines 96 to 123: the sender to take from and its predecessor, if `copy` becomes true. -/
def recvLook (pRecv : Fin n) (src : Int) (s : Kernel n) :
    Ipc (Option (Fin n × Option (Fin n))) := do
  if src = pAny n then
    pure ((s.proc pRecv).currentSend.map fun first => (first, none))
  else do
    let p ← procTable outside s src
    if p.flags &&& msgSending ≠ 0 ∧ p.sendTo = (s.proc pRecv).id then do
      assertThat .recvQueue ((s.proc pRecv).currentSend ≠ none)
      let found ← Traced.loop .forever (findRound s src) (linkFuel n)
        ((s.proc pRecv).currentSend, none)
      match found with
      | (some pSrc, prev) => pure (some (pSrc, prev))
      | (none, prev) => do
        let pSrc ← procPtr n src
        pure (some (pSrc, prev))
    else pure none

/-- Take a sender out of the queue of `pRecv`. -/
def takeFromQueue (pRecv pSrc : Fin n) (prev : Option (Fin n)) (s : Kernel n) : Ipc (Kernel n) :=
  if some pSrc = (s.proc pRecv).currentSend then
    pure (s.modify pRecv fun p => { p with currentSend := (s.proc pSrc).nextSend })
  else
    match prev with
    | some pPrev => pure (s.modify pPrev fun p => { p with nextSend := (s.proc pSrc).nextSend })
    | none => Traced.stop .nullPointer

/-- Lines 125 to 151: copy the message of the sender found, or block. -/
def recvCommit (pRecv : Fin n) (src : Int) (msg : Addr) (found : Option (Fin n × Option (Fin n)))
    (s : Kernel n) : Ipc (Kernel n) :=
  match found with
  | some (pSrc, prev) => do
    let s ← takeFromQueue pRecv pSrc prev s
    let s := s.modify pSrc fun p => { p with nextSend := none }
    let target ← virToLinear outside s (s.proc pRecv).id msg
    let source ← virToLinear outside s (s.proc pSrc).id (s.proc pSrc).msg
    let s := s.store target (s.mem source)
    let s := s.modify pSrc fun p =>
      { p with msg := null, sendTo := pNoTask n, flags := p.flags &&& ~~~msgSending }
    unblock pSrc s
    pure s
  | none => do
    let s := s.modify pRecv fun p =>
      { p with flags := p.flags ||| msgRecving, msg := msg, recvFrom := src }
    block pRecv s

def msgRecv (pRecv : Fin n) (src : Int) (msg : Addr) (s : Kernel n) : Ipc (Kernel n) := do
  match ← recvCheck outside pRecv src msg s with
  | some s => pure s
  | none => do
    let found ← recvLook outside pRecv src s
    recvCommit outside pRecv src msg found s

/-! ### `deliver_int_to_proc` -/

def deliverIntToProc (p : Fin n) (s : Kernel n) : Ipc (Kernel n) :=
  if (s.proc p).flags &&& msgRecving ≠ 0 ∧
      ((s.proc p).recvFrom = msgSourceInterrupt ∨ (s.proc p).recvFrom = pAny n) then do
    let s := s.store (s.proc p).msg
      (s.mem (s.proc p).msg).patched
    let s := s.modify p fun p =>
      { p with msg := null, haveIntMsg := false, flags := p.flags &&& ~~~msgRecving,
               recvFrom := pNoTask n }
    unblock p s
    pure s
  else pure (s.modify p fun p => { p with haveIntMsg := true })

end WalOS
