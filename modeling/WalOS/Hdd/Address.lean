/-
**Sector addressing, from the minor number to the registers of the drive.**

* `partitionAt_gives` — a minor number of drive 0 is looked up at the slot of its partition.
* `transferRound_logs` — the loop of `hdd_read_write` only moves data.
* `sector_addressing` — **the command block of a request is for the sector that the partition's base
  and the position give**, with the base that `handle_partition` fills and `DIOCTL_GET_GEO` returns.
-/

import WalOS.Hdd.Partition
import WalOS.Lib.Bytes

namespace WalOS

open Block

variable {env : HddEnv} {s : Hdd} {p : Partition} {msg : Message}

/-! ### Minor numbers -/

theorem minor_logical (i : Fin nrPartPerDrive) (k : Fin nrSubPerPart) :
    (Partition.logical i k).minor = minorHd1a + ((16 * i + k : ℕ) : Int) := by
  show minorHd1a + 16 * (i : Int) + k = minorHd1a + ((16 * (i : ℕ) + k : ℕ) : Int)
  omega

/-- A logical partition is not among the first minor numbers. -/
theorem maxPrim_lt_logical (i : Fin nrPartPerDrive) (k : Fin nrSubPerPart) :
    maxPrim < (Partition.logical i k).minor := by
  rw [minor_logical]
  unfold maxPrim minorHd1a
  omega

theorem minor_logical_sub (i : Fin nrPartPerDrive) (k : Fin nrSubPerPart) :
    (Partition.logical i k).minor - minorHd1a = ((16 * i + k : ℕ) : Int) := by
  rw [minor_logical]
  omega

theorem devToDrv_minor (p : Partition) : devToDrv p.minor = 0 := by
  cases p with
  | whole => rfl
  | primary i =>
    have all : ∀ i : Fin nrPartPerDrive, devToDrv (Partition.primary i).minor = 0 := by decide
    exact all i
  | logical i k =>
    rw [devToDrv, if_neg (not_le.mpr (maxPrim_lt_logical i k)), minor_logical_sub]
    exact Int.tdiv_eq_zero_of_lt (Int.natCast_nonneg _) (Int.ofNat_lt.mpr (Partition.place_lt i k))

/-- The element of `primary` or `logical`. -/
def Slot.event : Slot → HddEvent
  | .primary i => .index .primary (i : ℕ)
  | .logical i => .index .logical (i : ℕ)

/-- **The slot that a minor number is looked up at.** -/
theorem partitionAt_gives (p : Partition) : (partitionAt p.minor).Gives [p.slot.event] p.slot := by
  cases p with
  | whole => exact primaryAt_gives ⟨0, by decide⟩
  | primary i =>
    have low : ∀ i : Fin nrPartPerDrive, (Partition.primary i).minor < maxPrim := by decide
    rw [partitionAt, if_pos (low i)]
    exact primaryAt_row i
  | logical i k =>
    rw [partitionAt, if_neg (not_lt.mpr (maxPrim_lt_logical i k).le), minor_logical_sub,
      Int.tmod_eq_of_lt (Int.natCast_nonneg _) (Int.ofNat_lt.mpr (Partition.place_lt i k))]
    exact logicalAt_gives ⟨_, Partition.place_lt i k⟩

/-! ### Commands of a run -/

def HddEvent.command? : HddEvent → Option HddCmd
  | .command cmd => some cmd
  | _ => none

/-- The command blocks that a run hands to the drive. -/
def commands (log : List HddEvent) : List HddCmd := log.filterMap HddEvent.command?

/-- The event is no command. -/
def HddEvent.Silent (event : HddEvent) : Prop := event.command? = none

theorem Slot.event_silent (slot : Slot) : slot.event.Silent := by
  cases slot <;> rfl

theorem commands_of_silent {α : Type} {x : HddRun α} (silent : x.Logs HddEvent.Silent) :
    commands x.accesses = [] := List.filterMap_eq_nil_iff.mpr silent.access

/-- The event is data on its way. -/
def HddEvent.Moves : HddEvent → Prop
  | .readPort _ => True
  | .writePort _ _ => True
  | .word _ _ => True
  | .memcpy _ _ _ => True
  | _ => False

variable {acc : HddEvent → Prop}

theorem repOutsw_logs (moves : ∀ event : HddEvent, event.Moves → acc event) (ecx : ℕ) (esi : Addr)
    (s : Hdd) : (repOutsw ecx esi s).Logs acc := by
  induction ecx generalizing esi s with
  | zero => exact .pure s
  | succ ecx ih => exact .bind (.touch (moves _ trivial)) fun _ => ih _ _

theorem virToLinear_logs (id : Int) (a : Addr) : (env.virToLinear id a).Logs acc :=
  .bind .check fun _ => .pure _

theorem readRound_logs (moves : ∀ event : HddEvent, event.Moves → acc event) (linerAddr : Addr)
    (bytes : BitVec 32) (s : Hdd) : (readRound env linerAddr bytes s).Logs acc :=
  .bind (.bind (.touch (moves _ trivial)) fun _ => .pure _) fun _ =>
    .bind (virToLinear_logs _ _) fun _ => .bind (.touch (moves _ trivial)) fun _ => .pure _

theorem writeRound_logs (moves : ∀ event : HddEvent, event.Moves → acc event) (linerAddr : Addr)
    (bytes : BitVec 32) (s : Hdd) : (writeRound env linerAddr bytes s).Logs acc :=
  .bind (.bind .check fun _ => .pure _) fun _ =>
    .bind (.touch (moves _ trivial)) fun _ => repOutsw_logs moves _ _ _

/-- A round of `hdd_read_write` only moves data. -/
theorem transferRound_logs (moves : ∀ event : HddEvent, event.Moves → acc event) (t : Transfer) :
    (transferRound env msg t).Logs acc :=
  Traced.Sat.ite (fun _ => Traced.Logs.pure _) fun _ => Traced.Logs.bind
    (Traced.Sat.ite (fun _ => readRound_logs moves _ _ _) fun _ => writeRound_logs moves _ _ _)
    fun _ => Traced.Logs.pure _

theorem HddEvent.Moves.silent {event : HddEvent} (moves : event.Moves) : event.Silent := by
  cases event with
  | command cmd => exact moves.elim
  | _ => rfl

/-- What is logged before goes by, when it is no command. -/
theorem commands_bind {α : Type} {x : HddRun α} {event : HddEvent} {a : α} (gives : x.Gives [event] a)
    (silent : event.Silent) (next : α → HddRun Hdd) :
    commands (x >>= next).accesses = commands (next a).accesses := by
  rw [gives.accesses_bind]
  exact List.filterMap_cons_none silent

theorem commands_hddCmdOut (cmd : HddCmd) (s : Hdd) {next : Hdd → HddRun Hdd}
    (silent : ∀ t, (next t).Logs HddEvent.Silent) : commands (hddCmdOut env cmd s >>= next).accesses =
      if env.status s.polls = true then [cmd] else [] := by
  by_cases ready : env.status s.polls = true
  · rw [if_pos ready, (hddCmdOut_gives cmd ready).accesses_bind]
    exact congrArg (cmd :: ·) (commands_of_silent (silent _))
  · rw [if_neg ready, hddCmdOut_busy cmd ready]
    rfl

/-- The command of a read or a write. -/
theorem hddReadWrite_commands (device : msg.device = p.minor) :
    commands (hddReadWrite env msg s).accesses = if env.status s.polls = true then
      [transferCmd msg 0 ((msg.position >>> 9).setWidth 32 + (s.info.part p.slot).base)] else [] := by
  unfold hddReadWrite
  dsimp only
  rw [device, devToDrv_minor, commands_bind hddInfoAt_gives rfl,
    commands_bind (partitionAt_gives p) (Slot.event_silent _)]
  exact commands_hddCmdOut _ s fun t => .bind (virToLinear_logs _ _) fun _ =>
    .loop (transferRound_logs fun _ moves => moves.silent) _ _

/-- The command of a table. -/
theorem getPartitionTable_commands (sector : BitVec 32) :
    commands (getPartitionTable env 0 sector s).accesses =
      if env.status s.polls = true then [tableCmd 0 sector] else [] :=
  commands_hddCmdOut _ s fun _ => .bind (.bind (.touch rfl) fun _ => .check) fun _ =>
    .bind (.touch rfl) fun _ => .pure _

/-! ### The base -/

/-- The sector number of a request fits. -/
theorem toNat_sectNum {position : BitVec 64} {base : BitVec 32}
    (inside : base.toNat + position.toNat / 512 < 2 ^ 28) :
    (((position >>> 9).setWidth 32 + base).setWidth 28).toNat = base.toNat + position.toNat / 512 := by
  rw [BitVec.toNat_setWidth, BitVec.toNat_add, BitVec.toNat_setWidth, BitVec.toNat_ushiftRight,
    Nat.shiftRight_eq_div_pow]
  omega

theorem virToLinear_gives (q : Fin totalTaskCnt) (a : Addr) :
    (env.virToLinear (pid q) a).Gives [] a := by
  have linear : env.segBase (pid q) + a = a := by
    rw [env.flat]
    exact BitVec.zero_add a
  refine .check_bind (fun _ => linear) ?_
  rw [linear]
  exact .pure a

/-- `DIOCTL_GET_GEO` puts the base in the buffer. -/
theorem hddIoControl_gives {q : Fin totalTaskCnt} (device : msg.device = p.minor)
    (caller : msg.procNr = pid q) (asks : msg.request = dioctlGetGeo) :
    ∃ log t, (hddIoControl env msg s).Gives log t ∧
      Bytes.word (t.mem (cell msg.buf 0)) (t.mem (cell msg.buf 1)) (t.mem (cell msg.buf 2))
        (t.mem (cell msg.buf 3)) = (s.info.part p.slot).base := by
  let part := s.info.part p.slot
  refine ⟨[.index .hddInfo 0, p.slot.event], { s with mem := fill s.mem msg.buf part.bytes 8 }, ?_, ?_⟩
  · unfold hddIoControl
    rw [if_pos asks, device, devToDrv_minor, caller]
    exact (virToLinear_gives q _).bind (hddInfoAt_gives.bind ((partitionAt_gives p).bind (.pure _)))
  · have stored : ∀ k < 8, fill s.mem msg.buf part.bytes 8 (cell msg.buf k) = part.bytes k :=
      fun k small => fill_at small (by omega)
    dsimp only
    rw [stored 0 (by decide), stored 1 (by decide), stored 2 (by decide), stored 3 (by decide)]
    exact Bytes.word_extract part.base

/-! ### End to end -/

/-- The registers of a command block name a sector of the master drive. -/
structure HddCmd.Addresses (cmd : HddCmd) (sector : ℕ) : Prop where
  lba : cmd.lba.toNat = sector
  lbaMode : cmd.lbaMode = true
  master : cmd.slave = false

theorem transferCmd_addresses (msg : Message) (sector : BitVec 32) :
    (transferCmd msg 0 sector).Addresses (sector.setWidth 28).toNat where
  lba := congrArg BitVec.toNat (transferCmd_lba msg sector)
  lbaMode := (makeCmdDevice_master ((sector >>> 24) &&& 0xff)).2.1
  master := (makeCmdDevice_master ((sector >>> 24) &&& 0xff)).2.2

theorem tableCmd_addresses (sector : BitVec 32) :
    (tableCmd 0 sector).Addresses (sector.setWidth 28).toNat where
  lba := congrArg BitVec.toNat (tableCmd_lba sector)
  lbaMode := (makeCmdDevice_master ((sector >>> 24) &&& 0xf)).2.1
  master := (makeCmdDevice_master ((sector >>> 24) &&& 0xf)).2.2

/-- **Sector addressing.** For every minor number of drive 0 and every position whose sector has 28
bits: the command block of a read or a write is for that sector of the partition; its base is what
`DIOCTL_GET_GEO` returns for the same minor number and what loading fills for the partition; and a
partition table is asked for by the same encoding. -/
theorem sector_addressing (env : HddEnv) (s : Hdd) (p : Partition) (msg : Message)
    (device : msg.device = p.minor)
    (inside : (s.info.part p.slot).base.toNat + msg.position.toNat / 512 < 2 ^ 28) :
    (∃ cmd : HddCmd, cmd.Addresses ((s.info.part p.slot).base.toNat + msg.position.toNat / 512) ∧
        commands (hddReadWrite env msg s).accesses = if env.status s.polls = true then [cmd] else []) ∧
      (∀ (ask : Message) (q : Fin totalTaskCnt), ask.device = p.minor → ask.procNr = pid q →
        ask.request = dioctlGetGeo → ∃ log t, (hddIoControl env ask s).Gives log t ∧
          Bytes.word (t.mem (cell ask.buf 0)) (t.mem (cell ask.buf 1)) (t.mem (cell ask.buf 2))
            (t.mem (cell ask.buf 3)) = (s.info.part p.slot).base) ∧
      (env.Responsive → ∀ u,
        (∀ info, found u.drive.disk p = some info →
          ∃ log t, (handlePartition env 0 u).Gives log t ∧ t.info.part p.slot = info) ∧
        (p = .whole → ∃ log t, (handleIdentify env 0 u).Gives log t ∧
          t.info.part p.slot = identInfo u.drive.ident)) ∧
      ∀ sector : BitVec 32, sector.toNat < 2 ^ 28 → ∃ cmd : HddCmd, cmd.Addresses sector.toNat ∧
        commands (getPartitionTable env 0 sector s).accesses =
          if env.status s.polls = true then [cmd] else [] := by
  refine ⟨?_, fun ask q same caller asks => hddIoControl_gives same caller asks,
    fun responds u => ⟨fun info reads => ?_, fun whole => ?_⟩, fun sector small => ?_⟩
  · have block := transferCmd_addresses msg
      ((msg.position >>> 9).setWidth 32 + (s.info.part p.slot).base)
    rw [toNat_sectNum inside] at block
    exact ⟨_, block, hddReadWrite_commands device⟩
  · obtain ⟨log, t, gives, -, fills⟩ := handlePartition_fills responds u
    refine ⟨log, t, gives, ?_⟩
    rw [fills.part, reads, Option.getD_some]
  · obtain ⟨log, t, gives, -, fills⟩ := handleIdentify_fills responds u
    refine ⟨log, t, gives, ?_⟩
    rw [fills.part, if_pos whole, Option.getD_some]
  · have block := tableCmd_addresses sector
    rw [BitVec.toNat_setWidth, Nat.mod_eq_of_lt small] at block
    exact ⟨_, block, getPartitionTable_commands sector⟩

/-- A request for a device. -/
def diskRequest (type : Int) (device cnt : BitVec 32) : Message :=
  ⟨0, type, { Message.zero.u with m3i4 := device, m3i2 := cnt, m3i3 := 3, m3l1 := 0x1400, m3p2 := 0x20000 }⟩

/-- The tenth sector of the third logical partition of the second primary one, at its base. -/
theorem sector_addressing_logical : ∃ cmd : HddCmd, cmd.Addresses 0x12345a ∧
    commands (hddReadWrite plainEnv (diskRequest msgDevRead 34 512)
      (blankHdd.setPart (Partition.logical 1 2).slot ⟨0x123450, 0x1000⟩)).accesses = [cmd] := by
  exact (sector_addressing plainEnv (blankHdd.setPart (Partition.logical 1 2).slot ⟨0x123450, 0x1000⟩)
    (.logical 1 2) (diskRequest msgDevRead 34 512) (by decide) (by decide)).1

end WalOS
