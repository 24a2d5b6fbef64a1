/-
**The disk driver** (`hdd.c`, and `read_port` and `write_port` of `common.c`).

Each function of the source is one definition. `Hdd` is what the code works on: `hdd_info`, the memory,
the drive, and two counters for what the environment answers. `HddRun` is code that logs its events and
may stop at a `CRITICAL`, at the `ASSERT` of `vir_to_linear`, or at an index off an array.

* The environment (`HddEnv`) says where `hd_buf` and the data segments are, whether the drive shows the
  status awaited in time (`get_status`), whether an interrupt that is waited for comes, and what `ESI` holds
  when `write_port` is called.
* `hdd_info` has one entry; its arrays `primary` and `logical` are one function of a `Slot`.
* What is printed is left out, with `hdd_status` and the fields of an entry that only printing reads.
-/

import WalOS.Hdd.Drive
import WalOS.Kernel.State

namespace WalOS

open Block

/-! ### Constants -/

def sectorSize : BitVec 32 := 512
def partitionTableOffset : ℕ := 0x1BE
abbrev nrPartPerDrive : ℕ := 4
abbrev nrSubPerPart : ℕ := 16
abbrev nrPrimPerDrive : ℕ := 5
abbrev nrSubPerDrive : ℕ := 64

/-- `MAX_PRIM`, for two drives, and `MINOR_hd1a`. -/
def maxPrim : Int := 9
def minorHd1a : Int := 0x10

def extPart : BitVec 8 := 0x05
def noPart : BitVec 8 := 0x00

/-- `DIOCTL_GET_GEO`. -/
def dioctlGetGeo : BitVec 32 := 1

/-- `DEV_TO_DRV`. -/
def devToDrv (dev : Int) : Int :=
  if dev ≤ maxPrim then dev.tdiv nrPrimPerDrive else (dev - minorHd1a).tdiv nrSubPerDrive

/-! ### Data -/

/-- `PARTITION_INFO`. -/
structure PartitionInfo where
  base : BitVec 32
  secCnt : BitVec 32
deriving DecidableEq

/-- An element of `primary` or of `logical`. -/
inductive Slot where
  | primary (i : Fin nrPrimPerDrive)
  | logical (i : Fin nrSubPerDrive)
deriving DecidableEq

/-- `HDD_INFO`. -/
structure HddInfo where
  openCnt : BitVec 32
  part : Slot → PartitionInfo

/-- Cleared by `memset`. -/
def HddInfo.zero : HddInfo := ⟨0, fun _ => ⟨0, 0⟩⟩

/-- `PARTITION_ENTRY`. -/
structure PartitionEntry where
  systemId : BitVec 8
  startingSector : BitVec 32
  sectorCnt : BitVec 32
deriving DecidableEq

/-- The fields of a request (`CNT`, `REQUEST`, `PROC_NR`, `DEVICE`, `POSITION` and `BUF`). -/
def Message.cnt (m : Message) : BitVec 32 := m.u.m3i2
def Message.request (m : Message) : BitVec 32 := m.u.m3i2
def Message.procNr (m : Message) : Int := m.u.m3i3.toInt
def Message.device (m : Message) : Int := m.u.m3i4.toInt
def Message.position (m : Message) : BitVec 64 := m.u.m3l1
def Message.buf (m : Message) : Addr := m.u.m3p2

structure Hdd where
  info : HddInfo
  mem : Space 32 (BitVec 8)
  drive : Drive
  polls : ℕ
  outs : ℕ

/-- The arrays. -/
inductive HddArray where
  | hddInfo
  | primary
  | logical
deriving DecidableEq

/-- What the code does that others see, and the elements it uses. -/
inductive HddEvent where
  | index (array : HddArray) (i : Int)
  | command (cmd : HddCmd)
  | receiveInterrupt
  | readPort (dest : Addr)
  | writePort (src : Addr) (bytes : BitVec 32)
  | word (src : Addr) (value : BitVec 16)
  | memcpy (dest src : Addr) (bytes : BitVec 32)
deriving DecidableEq

/-- Why the code stops. -/
inductive HddStop where
  | busy
  | noData
  | noInterrupt
  | unknownRequest
  | virToLinear
  | wild (array : HddArray) (i : Int)
  | endless
deriving DecidableEq

abbrev HddRun (α : Type) : Type := Traced HddEvent HddStop α

/-- What the driver finds around it. `init_process_main` lets the segments of the processes start
at 0. -/
structure HddEnv where
  hdBuf : Addr
  segBase : Int → Addr
  flat : ∀ p : Fin totalTaskCnt, segBase (pid p) = 0
  status : ℕ → Bool
  interrupt : ℕ → Bool
  esi : ℕ → Addr
  staleCmd : HddCmd

variable (env : HddEnv)

/-! ### Elements of the arrays -/

/-- `hdd_info[drive]`: the one entry. -/
def hddInfoAt (drive : Int) : HddRun Unit := do
  Traced.touch (.index .hddInfo drive)
  Traced.check (drive = 0) (.wild .hddInfo drive)

def primaryAt (i : Int) : HddRun Slot := do
  Traced.touch (.index .primary i)
  if inside : 0 ≤ i ∧ i < nrPrimPerDrive then pure (.primary ⟨i.toNat, by omega⟩)
  else Traced.stop (.wild .primary i)

def logicalAt (i : Int) : HddRun Slot := do
  Traced.touch (.index .logical i)
  if inside : 0 ≤ i ∧ i < nrSubPerDrive then pure (.logical ⟨i.toNat, by omega⟩)
  else Traced.stop (.wild .logical i)

/-- `primary[dev]` or `logical[(dev - MINOR_hd1a) % NR_SUB_PER_DRIVE]`. -/
def partitionAt (dev : Int) : HddRun Slot :=
  if dev < maxPrim then primaryAt dev else logicalAt ((dev - minorHd1a).tmod nrSubPerDrive)

def Hdd.setPart (slot : Slot) (part : PartitionInfo) (s : Hdd) : Hdd :=
  { s with info := { s.info with part := Function.update s.info.part slot part } }

/-! ### Memory and ports -/

/-- `vir_to_linear`. -/
def HddEnv.virToLinear (id : Int) (virAddr : Addr) : HddRun Addr := do
  let linearAddr := env.segBase id + virAddr
  Traced.check (id < totalTaskCnt → linearAddr = virAddr) .virToLinear
  pure linearAddr

/-- `memcpy`. -/
def memcpy (dest src : Addr) (bytes : BitVec 32) (s : Hdd) : HddRun Hdd := do
  Traced.touch (.memcpy dest src bytes)
  pure { s with mem := copy s.mem dest src bytes.toNat }

/-- `rep insw`: words from the data port to `edi`. -/
def repInsw : ℕ → Addr → Hdd → Hdd
  | 0, _, s => s
  | ecx + 1, edi, s => repInsw ecx (cell edi 2) { s with
      mem := Function.update (Function.update s.mem edi (s.drive.data s.drive.cursor)) (edi + 1)
        (s.drive.data (s.drive.cursor + 1))
      drive := s.drive.advance 2 }

/-- `rep outsw`: words from `esi` to the data port. -/
def repOutsw : ℕ → Addr → Hdd → HddRun Hdd
  | 0, _, s => pure s
  | ecx + 1, esi, s => do
    Traced.touch (.word esi (s.mem (esi + 1) ++ s.mem esi))
    repOutsw ecx (cell esi 2) { s with drive := s.drive.put (s.mem esi) (s.mem (esi + 1)) }

/-- `read_port`, which puts `buf` in `EDI`. -/
def readPort (buf : Addr) (length : BitVec 32) (s : Hdd) : HddRun Hdd := do
  Traced.touch (.readPort buf)
  pure (repInsw (length >>> 1).toNat buf s)

/-- `write_port`, which also puts `buf` in `EDI`; `rep outsw` reads from `ESI`. -/
def writePort (buf : Addr) (length : BitVec 32) (s : Hdd) : HddRun Hdd := do
  Traced.touch (.writePort buf length)
  repOutsw (length >>> 1).toNat (env.esi s.outs) { s with outs := s.outs + 1 }

/-- `get_status`, at a place that stops when the drive does not show the status in time. -/
def getStatus (otherwise : HddStop) (s : Hdd) : HddRun Hdd := do
  Traced.check (env.status s.polls = true) otherwise
  pure { s with polls := s.polls + 1 }

def hddCmdOut (cmd : HddCmd) (s : Hdd) : HddRun Hdd := do
  let s ← getStatus env .busy s
  Traced.touch (.command cmd)
  pure { s with drive := s.drive.execute cmd }

/-- The receive from `MSG_SOURCE_INTERRUPT` after a command: without an interrupt it waits for good. -/
def receiveInterrupt (s : Hdd) : HddRun Unit := do
  Traced.touch .receiveInterrupt
  Traced.check (env.interrupt s.polls = true) .noInterrupt

/-! ### Identification and partitions -/

/-- Word `i` of `hd_buf`. -/
def Hdd.infoWord (s : Hdd) (i : ℕ) : BitVec 16 :=
  s.mem (cell env.hdBuf (2 * i + 1)) ++ s.mem (cell env.hdBuf (2 * i))

def handleIdentify (drive : Int) (s : Hdd) : HddRun Hdd := do
  let cmd := { env.staleCmd with
    device := makeCmdDevice 0 (BitVec.ofInt 32 drive) 0, command := ataIdentify }
  let s ← hddCmdOut env cmd s
  receiveInterrupt env s
  let s ← readPort env.hdBuf sectorSize s
  hddInfoAt drive
  let whole ← primaryAt 0
  pure (s.setPart whole
    ⟨0, ((s.infoWord env 61).setWidth 32 <<< 16) + (s.infoWord env 60).setWidth 32⟩)

/-- The command block of `get_partition_table`. -/
def tableCmd (drive : Int) (sector : BitVec 32) : HddCmd where
  feature := 0
  nSector := 1
  lbaLow := (sector &&& 0xff).setWidth 8
  lbaMid := ((sector >>> 8) &&& 0xff).setWidth 8
  lbaHigh := ((sector >>> 16) &&& 0xff).setWidth 8
  device := makeCmdDevice 1 (BitVec.ofInt 32 drive) ((sector >>> 24) &&& 0xf)
  command := ataRead

/-- `get_partition_table` up to the copy out of `hd_buf`. -/
def getPartitionTable (drive : Int) (sector : BitVec 32) (s : Hdd) : HddRun Hdd := do
  let s ← hddCmdOut env (tableCmd drive sector) s
  receiveInterrupt env s
  readPort env.hdBuf sectorSize s

/-- Entry `i` of the table that is copied. -/
def Hdd.tableEntry (s : Hdd) (i : ℕ) : PartitionEntry :=
  let byte k := s.mem (cell env.hdBuf (partitionTableOffset + 16 * i + k))
  ⟨byte 4, byte 11 ++ byte 10 ++ byte 9 ++ byte 8, byte 15 ++ byte 14 ++ byte 13 ++ byte 12⟩

/-- The loop of `handle_partition` over an extended partition, at round `i` and `next_sub_sector`. -/
def extendedLoop (drive : Int) (extendBase : BitVec 32) (subSignature : Int) :
    ℕ → ℕ → BitVec 32 → Hdd → HddRun Hdd
  | 0, _, _, s => pure s
  | left + 1, i, sector, s => do
    let s ← getPartitionTable env drive sector s
    let first := s.tableEntry env 0
    let second := s.tableEntry env 1
    hddInfoAt drive
    let slot ← logicalAt (subSignature + i)
    let s := s.setPart slot ⟨sector + first.startingSector, first.sectorCnt⟩
    let sector := extendBase + second.startingSector
    if second.systemId = noPart then pure s
    else extendedLoop drive extendBase subSignature left (i + 1) sector s

/-- `handle_partition(dev, P_EXTENDED)`. -/
def handleExtended (dev : Int) (s : Hdd) : HddRun Hdd := do
  let drive := devToDrv dev
  let j := dev.tmod nrPrimPerDrive
  hddInfoAt drive
  let slot ← primaryAt j
  let extendBase := (s.info.part slot).base
  extendedLoop env drive extendBase ((j - 1) * nrSubPerPart) nrSubPerPart 0 extendBase s

/-- A round of `handle_partition` over the boot record, for an entry of its table. -/
def primaryRound (dev : Int) (i : ℕ) (entry : PartitionEntry) (s : Hdd) : HddRun Hdd :=
  if entry.systemId = noPart then pure s
  else do
    hddInfoAt (devToDrv dev)
    let slot ← primaryAt (i + 1)
    let s := s.setPart slot ⟨entry.startingSector, entry.sectorCnt⟩
    if entry.systemId = extPart then handleExtended env (dev + (i + 1)) s else pure s

/-- `handle_partition(dev, P_PRIMARY)`. The table is copied before the rounds. -/
def handlePartition (dev : Int) (s : Hdd) : HddRun Hdd := do
  let drive := devToDrv dev
  let s ← getPartitionTable env drive (BitVec.ofInt 32 drive) s
  let table := s.tableEntry env
  (List.range nrPartPerDrive).foldlM (fun s i => primaryRound env dev i (table i) s) s

/-! ### Requests -/

def hddOpen (dev : Int) (s : Hdd) : HddRun Hdd := do
  let drive := devToDrv dev
  let s ← handleIdentify env drive s
  hddInfoAt drive
  let first := s.info.openCnt = 0
  let s := { s with info := { s.info with openCnt := s.info.openCnt + 1 } }
  if first then handlePartition env (drive * nrPrimPerDrive) s else pure s

def hddClose (dev : Int) (s : Hdd) : HddRun Hdd := do
  hddInfoAt (devToDrv dev)
  pure { s with info := { s.info with openCnt := s.info.openCnt - 1 } }

/-- The command block of `hdd_read_write`, at the sector number `sectNum`. -/
def transferCmd (msg : Message) (drive : Int) (sectNum : BitVec 32) : HddCmd where
  feature := 0
  nSector := ((msg.cnt + sectorSize - 1).sdiv sectorSize).setWidth 8
  lbaLow := (sectNum &&& 0xff).setWidth 8
  lbaMid := ((sectNum >>> 8) &&& 0xff).setWidth 8
  lbaHigh := ((sectNum >>> 16) &&& 0xff).setWidth 8
  device := makeCmdDevice 1 (BitVec.ofInt 32 drive) ((sectNum >>> 24) &&& 0xff)
  command := if msg.type = msgDevRead then ataRead else ataWrite

/-- The loop state of `hdd_read_write`. -/
structure Transfer where
  left : BitVec 32
  linerAddr : Addr
  hdd : Hdd

/-- One round of a read: `hdd_interrupt_wait` does nothing. -/
def readRound (linerAddr : Addr) (bytes : BitVec 32) (s : Hdd) : HddRun Hdd := do
  let s ← readPort env.hdBuf sectorSize s
  let src ← env.virToLinear (pid hddTask) env.hdBuf
  memcpy linerAddr src bytes s

/-- One round of a write. -/
def writeRound (linerAddr : Addr) (bytes : BitVec 32) (s : Hdd) : HddRun Hdd := do
  let s ← getStatus env .noData s
  writePort env linerAddr bytes s

/-- The two branches of the loop. -/
def transferSector (msg : Message) (linerAddr : Addr) (bytes : BitVec 32) (s : Hdd) : HddRun Hdd :=
  if msg.type = msgDevRead then readRound env linerAddr bytes s
  else writeRound env linerAddr bytes s

/-- The `while (left)`. -/
def transferRound (msg : Message) (t : Transfer) : HddRun (Transfer ⊕ Hdd) :=
  if t.left = 0 then pure (.inr t.hdd)
  else do
    let bytes := if sectorSize.slt t.left then sectorSize else t.left
    let s ← transferSector env msg t.linerAddr bytes t.hdd
    pure (.inl ⟨t.left - sectorSize, t.linerAddr + sectorSize, s⟩)

/-- `left` comes back to its start after so many rounds: a loop that is not done then never ends. -/
def transferFuel : ℕ := 2 ^ 23 + 1

def hddReadWrite (msg : Message) (s : Hdd) : HddRun Hdd := do
  let drive := devToDrv msg.device
  hddInfoAt drive
  let slot ← partitionAt msg.device
  let sectNum := (msg.position >>> 9).setWidth 32 + (s.info.part slot).base
  let s ← hddCmdOut env (transferCmd msg drive sectNum) s
  let linerAddr ← env.virToLinear msg.procNr msg.buf
  Traced.loop .endless (transferRound env msg) transferFuel ⟨msg.cnt, linerAddr, s⟩

/-- The bytes of a `PARTITION_INFO`. -/
def PartitionInfo.bytes (part : PartitionInfo) (k : ℕ) : BitVec 8 :=
  if k < 4 then part.base.extractLsb' (8 * k) 8 else part.secCnt.extractLsb' (8 * (k - 4)) 8

/-- `hdd_io_control`: the copy is out of `hdd_info`. -/
def hddIoControl (msg : Message) (s : Hdd) : HddRun Hdd :=
  if msg.request = dioctlGetGeo then do
    let dest ← env.virToLinear msg.procNr msg.buf
    hddInfoAt (devToDrv msg.device)
    let slot ← partitionAt msg.device
    pure { s with mem := fill s.mem dest (s.info.part slot).bytes 8 }
  else pure s

/-- The `switch` of `hdd_task`. -/
def serve (msg : Message) (s : Hdd) : HddRun Hdd :=
  if msg.type = msgDevOpen then hddOpen env msg.device s
  else if msg.type = msgDevClose then hddClose msg.device s
  else if msg.type = msgDevRead ∨ msg.type = msgDevWrite then hddReadWrite env msg s
  else if msg.type = msgDevIoControl then hddIoControl env msg s
  else Traced.stop .unknownRequest

end WalOS
