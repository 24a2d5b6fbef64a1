/-
**What the ports of the drive carry.**

* `repInsw_eq`, `repOutsw_gives` — the string instructions move a block between memory and the data port.
* `lba_of_bytes` — a command block whose registers are the bytes of a sector number is for that sector.
* `hddCmdOut_gives`, `readPort_gives`, `getPartitionTable_gives` — the code over them.
* `tableEntry_read` — the table that is copied is the one on the disk.
-/

import WalOS.Hdd.Driver
import WalOS.Lib.Bytes

namespace WalOS

open Block

variable {env : HddEnv} {s : Hdd}

/-! ### String instructions -/

/-- Bytes from the data port are put in memory. -/
def Hdd.readBytes (s : Hdd) (buf : Addr) (bytes : ℕ) : Hdd :=
  { s with
    mem := fill s.mem buf (fun k => s.drive.data (cell s.drive.cursor k)) bytes
    drive := s.drive.advance bytes }

/-- Bytes of memory are given to the data port. -/
def Hdd.writeBytes (s : Hdd) (src : Addr) (bytes : ℕ) : Hdd :=
  { s with drive := { s.drive with
      disk := fill s.drive.disk s.drive.cursor (fun k => s.mem (cell src k)) bytes
      cursor := cell s.drive.cursor bytes } }

/-- The bytes read. -/
theorem readBytes_at {buf : Addr} {n k : ℕ} (inside : k < n) (small : k < 2 ^ 32) :
    (s.readBytes buf n).mem (cell buf k) = s.drive.data (cell s.drive.cursor k) := by
  show fill s.mem buf (fun k => s.drive.data (cell s.drive.cursor k)) n (cell buf k) = _
  rw [fill_at inside small]

theorem readBytes_off {buf x : Addr} {n : ℕ} (off : ∀ k < n, x ≠ cell buf k) :
    (s.readBytes buf n).mem x = s.mem x := by
  show fill s.mem buf (fun k => s.drive.data (cell s.drive.cursor k)) n x = _
  rw [fill_off off]

theorem readBytes_zero (s : Hdd) (buf : Addr) : s.readBytes buf 0 = s := by
  unfold Hdd.readBytes Drive.advance
  rw [fill_zero, cell_zero]

/-- Reading on. -/
theorem readBytes_readBytes {n n' : ℕ} (small : n + n' ≤ 2 ^ 32) (s : Hdd) (buf : Addr) :
    (s.readBytes buf n).readBytes (cell buf n) n' = s.readBytes buf (n + n') := by
  have whole : fill (fill s.mem buf (fun k => s.drive.data (cell s.drive.cursor k)) n) (cell buf n)
      (fun k => s.drive.data (cell s.drive.cursor (n + k))) n' =
        fill s.mem buf (fun k => s.drive.data (cell s.drive.cursor k)) (n + n') := fill_fill small
  have further : (fun k => (s.drive.advance n).data (cell (s.drive.advance n).cursor k)) =
      fun k => s.drive.data (cell s.drive.cursor (n + k)) := by
    funext k
    show s.drive.data (cell (cell s.drive.cursor n) k) = _
    rw [cell_cell]
  unfold Hdd.readBytes
  dsimp only
  rw [further, whole]
  unfold Drive.advance
  rw [cell_cell]

/-- **`rep insw`** reads a block. -/
theorem repInsw_eq {count : ℕ} (small : 2 * count ≤ 2 ^ 32) (edi : Addr) (s : Hdd) :
    repInsw count edi s = s.readBytes edi (2 * count) := by
  induction count generalizing edi s with
  | zero => exact (readBytes_zero s edi).symm
  | succ count ih =>
    have word : { s with
        mem := Function.update (Function.update s.mem edi (s.drive.data s.drive.cursor)) (edi + 1)
          (s.drive.data (s.drive.cursor + 1))
        drive := s.drive.advance 2 } = s.readBytes edi 2 := by
      unfold Hdd.readBytes
      rw [fill_succ (by decide), fill_succ (by decide), fill_zero, cell_zero, cell_zero]
      rfl
    rw [repInsw, word, ih (by omega), readBytes_readBytes (by omega), Nat.mul_succ, Nat.add_comm]

theorem writeBytes_zero (s : Hdd) (src : Addr) : s.writeBytes src 0 = s := by
  unfold Hdd.writeBytes
  rw [fill_zero, cell_zero]

/-- Writing on. -/
theorem writeBytes_writeBytes {n n' : ℕ} (small : n + n' ≤ 2 ^ 37) (s : Hdd) (src : Addr) :
    (s.writeBytes src n).writeBytes (cell src n) n' = s.writeBytes src (n + n') := by
  have whole : fill (fill s.drive.disk s.drive.cursor (fun k => s.mem (cell src k)) n)
      (cell s.drive.cursor n) (fun k => s.mem (cell src (n + k))) n' =
        fill s.drive.disk s.drive.cursor (fun k => s.mem (cell src k)) (n + n') := fill_fill small
  unfold Hdd.writeBytes
  simp only [cell_cell, whole]

/-- The words of a block, one behind the other. -/
def wordEvents (m : Space 32 (BitVec 8)) : ℕ → Addr → List HddEvent
  | 0, _ => []
  | count + 1, esi => .word esi (m (esi + 1) ++ m esi) :: wordEvents m count (cell esi 2)

/-- **`rep outsw`** gives the words at `esi`. -/
theorem repOutsw_gives {count : ℕ} (small : 2 * count ≤ 2 ^ 37) (esi : Addr) (s : Hdd) :
    (repOutsw count esi s).Gives (wordEvents s.mem count esi)
      (s.writeBytes esi (2 * count)) := by
  induction count generalizing esi s with
  | zero =>
    rw [Nat.mul_zero, writeBytes_zero]
    exact Traced.Gives.pure s
  | succ count ih =>
    have word : { s with drive := s.drive.put (s.mem esi) (s.mem (esi + 1)) } =
        s.writeBytes esi 2 := by
      unfold Hdd.writeBytes
      rw [fill_succ (by decide), fill_succ (by decide), fill_zero, cell_zero, cell_zero]
      rfl
    have size : 2 * (count + 1) = 2 + 2 * count := by omega
    rw [wordEvents, size, ← writeBytes_writeBytes (by omega), ← word]
    exact (ih (by omega) (cell esi 2) _).touch_bind

/-! ### Commands -/

/-- The command has been taken. -/
def Hdd.issue (cmd : HddCmd) (s : Hdd) : Hdd :=
  { s with polls := s.polls + 1, drive := s.drive.execute cmd }

theorem issue_transfer {cmd : HddCmd} (other : cmd.command ≠ ataIdentify) :
    (s.issue cmd).drive =
      { s.drive with identifying := false, cursor := sectorStart cmd.lba } := if_neg other

theorem issue_identify {cmd : HddCmd} (same : cmd.command = ataIdentify) :
    (s.issue cmd).drive = { s.drive with identifying := true, cursor := 0 } := if_pos same

/-- The data after a command for a sector. -/
theorem data_issue {cmd : HddCmd} (other : cmd.command ≠ ataIdentify) (k : ℕ) :
    (s.issue cmd).drive.data (cell (s.issue cmd).drive.cursor k) =
      s.drive.disk (cell (sectorStart cmd.lba) k) := by
  rw [issue_transfer other]
  rfl

theorem getStatus_gives (otherwise : HddStop) (ready : env.status s.polls = true) :
    (getStatus env otherwise s).Gives [] { s with polls := s.polls + 1 } :=
  .check_bind ready (.pure _)

theorem hddCmdOut_gives (cmd : HddCmd) (ready : env.status s.polls = true) :
    (hddCmdOut env cmd s).Gives [.command cmd] (s.issue cmd) :=
  (getStatus_gives .busy ready).bind (.touch_bind (.pure _))

/-- A drive that stays busy. -/
theorem hddCmdOut_busy (cmd : HddCmd) (busy : env.status s.polls ≠ true) :
    hddCmdOut env cmd s = ⟨[], .error .busy⟩ := by
  rw [hddCmdOut, getStatus, Traced.check, if_neg busy]
  rfl

theorem readPort_gives (buf : Addr) (s : Hdd) :
    (readPort buf sectorSize s).Gives [.readPort buf] (s.readBytes buf 512) := by
  rw [← repInsw_eq (show 2 * 256 ≤ 2 ^ 32 by decide)]
  exact .touch_bind (.pure _)

/-- **A command block whose registers are the bytes of a sector number** is for that sector. -/
theorem lba_of_bytes {c : HddCmd} {sector : BitVec 32} (low : c.lbaLow = sector.extractLsb' 0 8)
    (mid : c.lbaMid = sector.extractLsb' 8 8) (high : c.lbaHigh = sector.extractLsb' 16 8)
    (device : c.device.setWidth 4 = sector.extractLsb' 24 4) : c.lba = sector.setWidth 28 := by
  have top : sector.extractLsb' 24 4 ++ sector.extractLsb' 16 8 = sector.extractLsb' 16 12 :=
    BitVec.extractLsb'_append_extractLsb'_eq_extractLsb' rfl
  have upper : sector.extractLsb' 16 12 ++ sector.extractLsb' 8 8 = sector.extractLsb' 8 20 :=
    BitVec.extractLsb'_append_extractLsb'_eq_extractLsb' rfl
  have whole : sector.extractLsb' 8 20 ++ sector.extractLsb' 0 8 = sector.extractLsb' 0 28 :=
    BitVec.extractLsb'_append_extractLsb'_eq_extractLsb' rfl
  rw [HddCmd.lba, low, mid, high, device, top, upper, whole]
  exact (BitVec.setWidth_eq_extractLsb' (by decide)).symm

/-- The device register holds the top of the sector number, chooses LBA and the master drive. -/
theorem makeCmdDevice_master (highest : BitVec 32) :
    (makeCmdDevice 1 0 highest).setWidth 4 = highest.setWidth 4 ∧
      (makeCmdDevice 1 0 highest).getLsbD 6 = true ∧
      (makeCmdDevice 1 0 highest).getLsbD 4 = false := by
  refine ⟨?_, by simp [makeCmdDevice], by simp [makeCmdDevice]⟩
  have lba : ((1 : BitVec 32) <<< 6).setWidth 4 = 0#4 := by decide
  have drive : ((0 : BitVec 32) <<< 4).setWidth 4 = 0#4 := by decide
  have mask : (0xF : BitVec 32).setWidth 4 = BitVec.allOnes 4 := by decide
  have fixed : (0xA0 : BitVec 32).setWidth 4 = 0#4 := by decide
  rw [makeCmdDevice, BitVec.setWidth_setWidth_of_le _ (by decide), BitVec.setWidth_or,
    BitVec.setWidth_or, BitVec.setWidth_or, BitVec.setWidth_and, lba, drive, mask, fixed,
    BitVec.and_allOnes, BitVec.zero_or, BitVec.zero_or, BitVec.or_zero]

/-- The nibble of the device register in either of the two encodings. -/
theorem top_of_shift (sector mask : BitVec 32) (low : mask.setWidth 4 = BitVec.allOnes 4) :
    ((sector >>> 24) &&& mask).setWidth 4 = sector.extractLsb' 24 4 := by
  rw [BitVec.setWidth_and, low, BitVec.and_allOnes]
  exact BitVec.setWidth_ushiftRight_eq_extractLsb

/-- **`get_partition_table` asks for the sector**, up to 28 bits. -/
theorem tableCmd_lba (sector : BitVec 32) : (tableCmd 0 sector).lba = sector.setWidth 28 :=
  lba_of_bytes (Bytes.shifted_byte sector 0) (Bytes.shifted_byte sector 8) (Bytes.shifted_byte sector 16)
    ((makeCmdDevice_master _).1.trans (top_of_shift sector 0xf (by decide)))

/-- **`hdd_read_write` asks for the sector**, up to 28 bits. -/
theorem transferCmd_lba (msg : Message) (sector : BitVec 32) :
    (transferCmd msg 0 sector).lba = sector.setWidth 28 :=
  lba_of_bytes (Bytes.shifted_byte sector 0) (Bytes.shifted_byte sector 8) (Bytes.shifted_byte sector 16)
    ((makeCmdDevice_master _).1.trans (top_of_shift sector 0xff (by decide)))

/-! ### Partition tables -/

theorem receiveInterrupt_gives (raises : env.interrupt s.polls = true) :
    (receiveInterrupt env s).Gives [.receiveInterrupt] () :=
  .touch_bind (.check raises _)

theorem getPartitionTable_gives (sector : BitVec 32) (ready : env.status s.polls = true)
    (raises : env.interrupt (s.polls + 1) = true) :
    (getPartitionTable env 0 sector s).Gives
      [.command (tableCmd 0 sector), .receiveInterrupt, .readPort env.hdBuf]
      ((s.issue (tableCmd 0 sector)).readBytes env.hdBuf 512) :=
  (hddCmdOut_gives _ ready).bind ((receiveInterrupt_gives raises).bind (readPort_gives _ _))

/-- Entry `i` of the table in a sector of the disk. -/
def diskEntry (disk : Space 37 (BitVec 8)) (sector : BitVec 28) (i : ℕ) : PartitionEntry :=
  let byte k := disk (cell (sectorStart sector) (partitionTableOffset + 16 * i + k))
  ⟨byte 4, byte 11 ++ byte 10 ++ byte 9 ++ byte 8, byte 15 ++ byte 14 ++ byte 13 ++ byte 12⟩

/-- **The table that is copied is the one on the disk.** -/
theorem tableEntry_read (sector : BitVec 32) {i : ℕ} (inside : i < 4) :
    ((s.issue (tableCmd 0 sector)).readBytes env.hdBuf 512).tableEntry env i =
      diskEntry s.drive.disk (sector.setWidth 28) i := by
  have byte : ∀ k < 16,
      ((s.issue (tableCmd 0 sector)).readBytes env.hdBuf 512).mem
          (cell env.hdBuf (partitionTableOffset + 16 * i + k)) =
        s.drive.disk (cell (sectorStart (sector.setWidth 28)) (partitionTableOffset + 16 * i + k)) := by
    intro k small
    have within : partitionTableOffset + 16 * i + k < 512 := by
      unfold partitionTableOffset
      omega
    have read : (tableCmd 0 sector).command ≠ ataIdentify := show ataRead ≠ ataIdentify by decide
    rw [readBytes_at within (by omega), data_issue read, tableCmd_lba]
  unfold Hdd.tableEntry diskEntry
  simp only [byte 4 (by decide), byte 8 (by decide), byte 9 (by decide), byte 10 (by decide),
    byte 11 (by decide), byte 12 (by decide), byte 13 (by decide), byte 14 (by decide),
    byte 15 (by decide)]

/-! ### Interrupts that are waited for -/

/-- The command makes the drive raise one interrupt. -/
def HddCmd.Single (cmd : HddCmd) : Prop :=
  cmd.command = ataIdentify ∨ cmd.command = ataRead ∧ cmd.sectors = 1

/-- The event does not concern interrupts. -/
def HddEvent.Aside : HddEvent → Prop
  | .command _ => False
  | .receiveInterrupt => False
  | _ => True

/-- **Every command is followed by the receive of its interrupt.** -/
inductive Awaited : List HddEvent → Prop where
  | nil : Awaited []
  | command {cmd : HddCmd} {rest : List HddEvent} : cmd.Single → Awaited rest →
      Awaited (.command cmd :: .receiveInterrupt :: rest)
  | aside {event : HddEvent} {rest : List HddEvent} : event.Aside → Awaited rest →
      Awaited (event :: rest)

theorem Awaited.append {log log' : List HddEvent} (first : Awaited log) (rest : Awaited log') :
    Awaited (log ++ log') := by
  induction first with
  | nil => exact rest
  | command single _ ih => exact .command single ih
  | aside aside _ ih => exact .aside aside ih

theorem getPartitionTable_awaited (sector : BitVec 32) (buf : Addr) :
    Awaited [.command (tableCmd 0 sector), .receiveInterrupt, .readPort buf] :=
  .command (.inr ⟨rfl, rfl⟩) (.aside trivial .nil)

end WalOS
