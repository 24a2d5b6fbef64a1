/-
**What `hdd_read_write` moves.**

`write_port` puts the buffer in `EDI`, but `rep outsw` reads from `ESI`: what goes out is the memory at
`ESI`, whatever is there.

* `transferLoop_gives` — the loop of `hdd_read_write` in terms of one round; `writeLoop_gives`,
  `readLoop_gives` — the words sent by a write, and what a read puts in the buffer.
* `written_iff` — **a write sends the caller's data exactly when the memory at `ESI` is the buffer**,
  sector by sector; and then a read of the same sectors gives it back.
-/

import WalOS.Hdd.Address

namespace WalOS

open Block

variable {env : HddEnv} {s : Hdd} {p : Partition} {msg : Message} {q : Fin totalTaskCnt}

/-! ### Words sent -/

def HddEvent.word? : HddEvent → Option (BitVec 16)
  | .word _ value => some value
  | _ => none

/-- The words that a run sends to the data port. -/
def sentWords (log : List HddEvent) : List (BitVec 16) := log.filterMap HddEvent.word?

/-- The bytes at `ESI`, one sector for each call of `write_port`. -/
def bytesAtEsi (env : HddEnv) (s : Hdd) (k : ℕ) : BitVec 8 :=
  s.mem (cell (env.esi (s.outs + k / 512)) (k % 512))

theorem sentWords_append (log log' : List HddEvent) :
    sentWords (log ++ log') = sentWords log ++ sentWords log' := List.filterMap_append

theorem sentWords_wordEvents (m : Space 32 (BitVec 8)) (count : ℕ) (esi : Addr) :
    sentWords (wordEvents m count esi) = wordsAt m esi count := by
  induction count generalizing esi with
  | zero => rfl
  | succ count ih =>
    rw [wordsAt_succ, ← ih]
    rfl

/-! ### The loop -/

/-- `left` when some sectors are left. -/
def sectorsLeft (n : ℕ) : BitVec 32 := BitVec.ofNat 32 (512 * n)

theorem toNat_sectorsLeft {n : ℕ} (small : n < 2 ^ 22) : (sectorsLeft n).toNat = 512 * n :=
  (BitVec.toNat_ofNat ..).trans (Nat.mod_eq_of_lt (by omega))

/-- A round transfers a sector and leaves one less. -/
theorem sectorsLeft_succ {n : ℕ} (small : n + 1 < 2 ^ 22) :
    sectorsLeft (n + 1) ≠ 0 ∧ sectorsLeft (n + 1) - sectorSize = sectorsLeft n ∧
      (if sectorSize.slt (sectorsLeft (n + 1)) then sectorSize else sectorsLeft (n + 1)) =
        sectorSize := by
  have now := toNat_sectorsLeft small
  have size : sectorSize.toNat = 512 := rfl
  refine ⟨fun same => ?_, BitVec.eq_of_toNat_eq ?_, ?_⟩
  · have zero : (sectorsLeft (n + 1)).toNat = 0 := congrArg BitVec.toNat same
    omega
  · rw [BitVec.toNat_sub, now, size, toNat_sectorsLeft (by omega)]
    omega
  · split
    · rfl
    · rename_i least
      rw [BitVec.slt_iff_toInt_lt, BitVec.toInt_eq_toNat_of_lt (by omega),
        BitVec.toInt_eq_toNat_of_lt (by omega), now, size] at least
      exact BitVec.eq_of_toNat_eq (by omega)

/-- **The loop of `hdd_read_write`**: what each round does on top of the rounds behind it. -/
theorem transferLoop_gives {P : Addr → ℕ → Hdd → Hdd → List HddEvent → Prop}
    (none : ∀ a s, P a 0 s s [])
    (round : ∀ a n s, n + 1 < 2 ^ 22 → ∃ log t, (transferSector env msg a sectorSize s).Gives log t ∧
      ∀ u log', P (cell a 512) n t u log' → P a (n + 1) s u (log ++ log'))
    (n : ℕ) (small : n < 2 ^ 22) {fuel : ℕ} (enough : n < fuel) (a : Addr) (s : Hdd) :
    ∃ log t, (Traced.loop .endless (transferRound env msg) fuel ⟨sectorsLeft n, a, s⟩).Gives log t ∧
      P a n s t log := by
  induction n generalizing fuel a s with
  | zero =>
    obtain ⟨fuel, rfl⟩ := Nat.exists_eq_add_one_of_ne_zero (Nat.ne_zero_of_lt enough)
    exact ⟨[], s, Traced.Gives.loop_inr (.pure _) fuel, none a s⟩
  | succ n ih =>
    obtain ⟨fuel, rfl⟩ := Nat.exists_eq_add_one_of_ne_zero (Nat.ne_zero_of_lt enough)
    obtain ⟨log, t, moves, done⟩ := round a n s small
    obtain ⟨log', u, rest, behind⟩ := ih (by omega) (Nat.lt_of_succ_lt_succ enough) (cell a 512) t
    obtain ⟨more, less, bytes⟩ := sectorsLeft_succ small
    have first : (transferRound env msg ⟨sectorsLeft (n + 1), a, s⟩).Gives log
        (.inl ⟨sectorsLeft n, cell a 512, t⟩) := by
      rw [transferRound, if_neg more]
      dsimp only
      rw [bytes, less, ← List.append_nil log]
      exact moves.bind (.pure _)
    exact ⟨log ++ log', u, first.loop_inl rest, done u log' behind⟩

/-! ### Writing -/

/-- Sectors go out from wherever `ESI` points. -/
def Hdd.sendSectors (env : HddEnv) (n : ℕ) (s : Hdd) : Hdd :=
  { s with
    polls := s.polls + n, outs := s.outs + n
    drive := { s.drive with
      disk := fill s.drive.disk s.drive.cursor (bytesAtEsi env s) (512 * n)
      cursor := cell s.drive.cursor (512 * n) } }

theorem sendSectors_zero (env : HddEnv) (s : Hdd) : s.sendSectors env 0 = s := by
  unfold Hdd.sendSectors
  rw [Nat.mul_zero, fill_zero, cell_zero]
  rfl

theorem bytesAtEsi_sendSectors (env : HddEnv) (n : ℕ) (s : Hdd) (k : ℕ) :
    bytesAtEsi env (s.sendSectors env n) k = bytesAtEsi env s (512 * n + k) := by
  have sector : (512 * n + k) / 512 = n + k / 512 := by omega
  have place : (512 * n + k) % 512 = k % 512 := by omega
  unfold bytesAtEsi
  rw [sector, place, ← Nat.add_assoc]
  rfl

/-- Sending on. -/
theorem sendSectors_sendSectors (env : HddEnv) {n n' : ℕ} (small : n + n' < 2 ^ 22) (s : Hdd) :
    (s.sendSectors env n).sendSectors env n' = s.sendSectors env (n + n') := by
  have whole : fill (fill s.drive.disk s.drive.cursor (bytesAtEsi env s) (512 * n))
      (cell s.drive.cursor (512 * n)) (fun k => bytesAtEsi env s (512 * n + k)) (512 * n') =
        fill s.drive.disk s.drive.cursor (bytesAtEsi env s) (512 * n + 512 * n') :=
    fill_fill (by omega)
  have further : bytesAtEsi env (s.sendSectors env n) = fun k => bytesAtEsi env s (512 * n + k) := by
    ext1 k
    exact bytesAtEsi_sendSectors env n s k
  rw [Hdd.sendSectors, further]
  dsimp only [Hdd.sendSectors]
  rw [whole, cell_cell, Nat.add_assoc, Nat.add_assoc, Nat.mul_add]

/-- One round of a write. -/
theorem writeRound_gives (ready : env.Ready) (linerAddr : Addr) (s : Hdd) :
    (writeRound env linerAddr sectorSize s).Gives
      (.writePort linerAddr sectorSize :: wordEvents s.mem 256 (env.esi s.outs))
      (s.sendSectors env 1) := by
  have sends := repOutsw_gives (show 2 * 256 ≤ 2 ^ 37 by decide) (env.esi s.outs)
    { s with polls := s.polls + 1, outs := s.outs + 1 }
  have bytes : ∀ k < 512, s.mem (cell (env.esi s.outs) k) = bytesAtEsi env s k := fun k inside => by
    rw [bytesAtEsi, Nat.div_eq_of_lt inside, Nat.mod_eq_of_lt inside, Nat.add_zero]
  have sector : ({ s with polls := s.polls + 1, outs := s.outs + 1 } : Hdd).writeBytes
      (env.esi s.outs) (2 * 256) = s.sendSectors env 1 := by
    unfold Hdd.writeBytes Hdd.sendSectors
    dsimp only
    rw [fill_congr bytes]
  rw [sector] at sends
  exact (getStatus_gives .noData (ready _)).bind (.touch_bind sends)

/-- The words of a sector. -/
theorem sentWords_sector (env : HddEnv) (s : Hdd) :
    sentWords (wordEvents s.mem 256 (env.esi s.outs)) = words (bytesAtEsi env s) 256 := by
  rw [sentWords_wordEvents]
  refine words_eq_iff.mpr fun k inside => ?_
  rw [bytesAtEsi, Nat.div_eq_of_lt inside, Nat.mod_eq_of_lt inside, Nat.add_zero]

/-- **The loop of a write** sends the bytes at `ESI`. -/
theorem writeLoop_gives (ready : env.Ready) (write : msg.type ≠ msgDevRead) (n : ℕ)
    (small : n < 2 ^ 22) {fuel : ℕ} (enough : n < fuel) (a : Addr) (s : Hdd) :
    ∃ log t, (Traced.loop .endless (transferRound env msg) fuel ⟨sectorsLeft n, a, s⟩).Gives log t ∧
      t = s.sendSectors env n ∧ sentWords log = words (bytesAtEsi env s) (256 * n) := by
  refine transferLoop_gives (P := fun _ n s t log => t = s.sendSectors env n ∧
    sentWords log = words (bytesAtEsi env s) (256 * n)) ?_ ?_ n small enough a s
  · intro _ s
    exact ⟨(sendSectors_zero env s).symm, rfl⟩
  · intro a n s small
    have sector : transferSector env msg a sectorSize s = writeRound env a sectorSize s := if_neg write
    refine ⟨_, s.sendSectors env 1, sector ▸ writeRound_gives ready a s, ?_⟩
    rintro u log' ⟨rfl, sent⟩
    have further : bytesAtEsi env (s.sendSectors env 1) = fun k => bytesAtEsi env s (512 * 1 + k) :=
      funext (bytesAtEsi_sendSectors env 1 s)
    have onward : (s.sendSectors env 1).sendSectors env n = s.sendSectors env (1 + n) :=
      sendSectors_sendSectors env (by omega) s
    refine ⟨onward.trans (Nat.add_comm 1 n ▸ rfl), ?_⟩
    have here : sentWords (.writePort a sectorSize :: wordEvents s.mem 256 (env.esi s.outs)) =
        words (bytesAtEsi env s) 256 := sentWords_sector env s
    rw [sentWords_append, here, sent, Nat.mul_add, Nat.add_comm (256 * n), words_append, further]

/-! ### Reading -/

/-- The block has no byte of `hd_buf`. -/
def HddEnv.Clear (env : HddEnv) (a : Addr) (bytes : ℕ) : Prop :=
  ∀ i < bytes, ∀ j < 512, cell a i ≠ cell env.hdBuf j

/-- **The block got the data of the drive**, and only `hd_buf` changed besides. -/
structure Reads (env : HddEnv) (a : Addr) (bytes : ℕ) (s t : Hdd) : Prop where
  data : ∀ k < bytes, t.mem (cell a k) = s.drive.data (cell s.drive.cursor k)
  kept : ∀ x, (∀ k < bytes, x ≠ cell a k) → (∀ k < 512, x ≠ cell env.hdBuf k) → t.mem x = s.mem x
  drive : t.drive = s.drive.advance bytes

theorem Reads.trans {a : Addr} {n n' : ℕ} {s t u : Hdd} (first : Reads env a n s t)
    (second : Reads env (cell a n) n' t u) (small : n + n' ≤ 2 ^ 32) (clear : env.Clear a n) :
    Reads env a (n + n') s u where
  data k inside := by
    by_cases early : k < n
    · have behind : ∀ j < n', cell a k ≠ cell (cell a n) j := by
        intro j within same
        rw [cell_cell, cell_inj (by omega) (by omega)] at same
        omega
      rw [second.kept _ behind (clear k early), first.data k early]
    · obtain ⟨j, rfl⟩ := Nat.exists_eq_add_of_le (Nat.le_of_not_lt early)
      rw [← cell_cell, second.data j (by omega), first.drive, ← cell_cell]
      rfl
  kept x off buffer := by
    have behind : ∀ k < n', x ≠ cell (cell a n) k := by
      intro k within
      rw [cell_cell]
      exact off (n + k) (Nat.add_lt_add_left within n)
    rw [second.kept x behind buffer, first.kept x (fun k within => off k (by omega)) buffer]
  drive := by
    rw [second.drive, first.drive]
    exact congrArg (fun place => { s.drive with cursor := place }) (cell_cell _ _ _)

/-- One round of a read. -/
theorem readRound_gives (env : HddEnv) (a : Addr) (s : Hdd) : ∃ t,
    (readRound env a sectorSize s).Gives [.readPort env.hdBuf, .memcpy a env.hdBuf sectorSize] t ∧
      (∀ x, (∀ k < 512, x ≠ cell a k) → (∀ k < 512, x ≠ cell env.hdBuf k) → t.mem x = s.mem x) ∧
      (env.Clear a 512 → Reads env a 512 s t) := by
  let read := s.readBytes env.hdBuf 512
  let copied := copy read.mem a env.hdBuf 512
  have copies : (memcpy a env.hdBuf sectorSize read).Gives [.memcpy a env.hdBuf sectorSize]
      { read with mem := copied } := .touch_bind (.pure _)
  have kept : ∀ x, (∀ k < 512, x ≠ cell a k) → (∀ k < 512, x ≠ cell env.hdBuf k) →
      copied x = s.mem x := fun x off buffer => (copy_off off).trans (readBytes_off buffer)
  refine ⟨{ read with mem := copied },
    (readPort_gives _ _).bind ((virToLinear_gives hddTask _).bind copies), ?_, ?_⟩
  · dsimp only
    exact kept
  · intro clear
    have fills : copied = fill read.mem a (fun k => read.mem (cell env.hdBuf k)) 512 :=
      copy_eq_fill (by decide) clear
    refine ⟨fun k inside => ?_, fun x off buffer => ?_, rfl⟩
    · dsimp only
      rw [fills, fill_at inside (by omega), readBytes_at inside (by omega)]
    · dsimp only
      exact kept x off buffer

/-- **The loop of a read** fills the buffer from the drive. -/
theorem readLoop_gives (read : msg.type = msgDevRead) (n : ℕ) (small : n < 2 ^ 22) {fuel : ℕ}
    (enough : n < fuel) (a : Addr) (s : Hdd) :
    ∃ log t, (Traced.loop .endless (transferRound env msg) fuel ⟨sectorsLeft n, a, s⟩).Gives log t ∧
      (env.Clear a (512 * n) → Reads env a (512 * n) s t) := by
  refine transferLoop_gives (P := fun a n s t _ => env.Clear a (512 * n) →
    Reads env a (512 * n) s t) ?_ ?_ n small enough a s
  · intro a s _
    refine ⟨fun k inside => absurd inside (Nat.not_lt_zero k), fun _ _ _ => rfl, ?_⟩
    exact congrArg (fun place => { s.drive with cursor := place }) (cell_zero _).symm
  · intro a n s small
    obtain ⟨t, moves, -, reads⟩ := readRound_gives env a s
    have sector : transferSector env msg a sectorSize s = readRound env a sectorSize s := if_pos read
    refine ⟨_, t, sector ▸ moves, fun u log' behind clear => ?_⟩
    have here : env.Clear a 512 := fun i inside => clear i (by omega)
    have further : env.Clear (cell a 512) (512 * n) := by
      intro i inside
      rw [cell_cell]
      exact clear (512 + i) (by omega)
    have both := (reads here).trans (behind further) (by omega) here
    rwa [Nat.mul_succ, Nat.add_comm]

/-! ### Requests -/

/-- The sector number of a request. -/
def Hdd.sectNum (s : Hdd) (p : Partition) (position : BitVec 64) : BitVec 32 :=
  (position >>> 9).setWidth 32 + (s.info.part p.slot).base

/-- `CNT` of whole sectors. -/
theorem cnt_sectors {cnt : BitVec 32} (nonneg : 0 ≤ cnt.toInt) (whole : cnt.toInt % 512 = 0) :
    ∃ n, n < 2 ^ 22 ∧ cnt = sectorsLeft n := by
  have signed := BitVec.toInt_eq_toNat_cond cnt
  have small := cnt.isLt
  refine ⟨cnt.toNat / 512, by omega, BitVec.eq_of_toNat_eq ?_⟩
  rw [toNat_sectorsLeft (by omega)]
  omega

/-- What comes before the loop sends nothing. -/
theorem hddReadWrite_gives {log : List HddEvent} {t : Hdd} (ready : env.Ready)
    (device : msg.device = p.minor) (caller : msg.procNr = pid q)
    (moves : (Traced.loop .endless (transferRound env msg) transferFuel
      ⟨msg.cnt, msg.buf, s.issue (transferCmd msg 0 (s.sectNum p msg.position))⟩).Gives log t) :
    ∃ before, (hddReadWrite env msg s).Gives (before ++ log) t ∧ sentWords before = [] := by
  let cmd := transferCmd msg 0 (s.sectNum p msg.position)
  have unsent : sentWords [p.slot.event] = [] := by cases p.slot <;> rfl
  refine ⟨[.index .hddInfo 0, p.slot.event, .command cmd], ?_, unsent⟩
  unfold hddReadWrite
  dsimp only
  rw [device, devToDrv_minor, caller]
  exact hddInfoAt_gives.bind ((partitionAt_gives p).bind ((hddCmdOut_gives cmd (ready _)).bind
    ((virToLinear_gives q _).bind moves)))

/-- What a write sends, and the disk after it. -/
theorem write_gives (ready : env.Ready) (device : msg.device = p.minor)
    (caller : msg.procNr = pid q) (write : msg.type = msgDevWrite) {n : ℕ} (small : n < 2 ^ 22)
    (cnt : msg.cnt = sectorsLeft n) :
    ∃ log t, (hddReadWrite env msg s).Gives log t ∧
      sentWords log = words (bytesAtEsi env s) (256 * n) ∧
      t.drive.disk = fill s.drive.disk (sectorStart ((s.sectNum p msg.position).setWidth 28))
        (bytesAtEsi env s) (512 * n) := by
  let cmd := transferCmd msg 0 (s.sectNum p msg.position)
  have other : msg.type ≠ msgDevRead := write ▸ by decide
  have enough : n < transferFuel := by
    unfold transferFuel
    omega
  obtain ⟨log, t, moves, rfl, sent⟩ := writeLoop_gives ready other n small enough msg.buf
    (s.issue cmd)
  rw [← cnt] at moves
  obtain ⟨before, gives, silent⟩ := hddReadWrite_gives ready device caller moves
  refine ⟨before ++ log, _, gives, ?_, ?_⟩
  · rw [sentWords_append, silent, sent]
    rfl
  · have command : cmd.command ≠ ataIdentify := by
      show (if msg.type = msgDevRead then ataRead else ataWrite) ≠ ataIdentify
      rw [if_neg other]
      decide
    show fill (s.issue cmd).drive.disk (s.issue cmd).drive.cursor (bytesAtEsi env s) (512 * n) = _
    rw [issue_transfer command, transferCmd_lba]

/-- What a read puts in the buffer. -/
theorem read_gives (ready : env.Ready) (device : msg.device = p.minor)
    (caller : msg.procNr = pid q) (read : msg.type = msgDevRead) {n : ℕ} (small : n < 2 ^ 22)
    (cnt : msg.cnt = sectorsLeft n) (clear : env.Clear msg.buf (512 * n)) :
    ∃ log t, (hddReadWrite env msg s).Gives log t ∧ ∀ k < 512 * n, t.mem (cell msg.buf k) =
      s.drive.disk (cell (sectorStart ((s.sectNum p msg.position).setWidth 28)) k) := by
  let cmd := transferCmd msg 0 (s.sectNum p msg.position)
  have enough : n < transferFuel := by
    unfold transferFuel
    omega
  obtain ⟨log, t, moves, reads⟩ := readLoop_gives read n small enough msg.buf (s.issue cmd)
  rw [← cnt] at moves
  obtain ⟨before, gives, -⟩ := hddReadWrite_gives ready device caller moves
  have command : cmd.command ≠ ataIdentify := by
    show (if msg.type = msgDevRead then ataRead else ataWrite) ≠ ataIdentify
    rw [if_pos read]
    decide
  refine ⟨before ++ log, t, gives, fun k inside => ?_⟩
  rw [(reads clear).data k inside, data_issue command, transferCmd_lba]

/-- The memory at `ESI` is the buffer, at each call of `write_port`. -/
def EsiAtBuffer (env : HddEnv) (s : Hdd) (msg : Message) : Prop :=
  ∀ i < msg.cnt.toNat / 512, ∀ k < 512,
    s.mem (cell (env.esi (s.outs + i)) k) = s.mem (cell msg.buf (512 * i + k))

theorem esiAtBuffer_iff {n : ℕ} (small : n < 2 ^ 22) (cnt : msg.cnt = sectorsLeft n) :
    EsiAtBuffer env s msg ↔ ∀ k < 512 * n, bytesAtEsi env s k = s.mem (cell msg.buf k) := by
  have sectors : msg.cnt.toNat / 512 = n := by
    rw [cnt, toNat_sectorsLeft small]
    omega
  unfold EsiAtBuffer bytesAtEsi
  rw [sectors]
  constructor
  · intro same k inside
    have here := same (k / 512) (by omega) (k % 512) (Nat.mod_lt k (by decide))
    rwa [Nat.div_add_mod] at here
  · intro same i inside k within
    have here := same (512 * i + k) (by omega)
    have sector : (512 * i + k) / 512 = i := by omega
    have place : (512 * i + k) % 512 = k := by omega
    rwa [sector, place] at here

/-- **The caller's data is written**: the words sent are the buffer, and a read of the same sectors
stores the same bytes. -/
def Written (env : HddEnv) (s : Hdd) (msg : Message) : Prop :=
  ∃ log t, (hddReadWrite env msg s).Gives log t ∧
    sentWords log = wordsAt s.mem msg.buf (msg.cnt.toNat / 2) ∧
    ∀ (u : Hdd) (back : Message) (q : Fin totalTaskCnt), u.drive.disk = t.drive.disk →
      u.info.part = s.info.part → back.type = msgDevRead → back.device = msg.device →
      back.position = msg.position → back.cnt = msg.cnt → back.procNr = pid q →
      env.Clear back.buf msg.cnt.toNat → ∃ log' v, (hddReadWrite env back u).Gives log' v ∧
        ∀ k < msg.cnt.toNat, v.mem (cell back.buf k) = s.mem (cell msg.buf k)

/-- **A write writes the caller's data if and only if the memory at `ESI` is the buffer.** -/
theorem written_iff (env : HddEnv) (s : Hdd) (p : Partition) (q : Fin totalTaskCnt) (msg : Message)
    (ready : env.Ready) (device : msg.device = p.minor) (caller : msg.procNr = pid q)
    (write : msg.type = msgDevWrite) (positive : 0 < msg.cnt.toInt)
    (whole : msg.cnt.toInt % 512 = 0) : Written env s msg ↔ EsiAtBuffer env s msg := by
  obtain ⟨n, small, cnt⟩ := cnt_sectors positive.le whole
  have size : msg.cnt.toNat = 512 * n := by rw [cnt, toNat_sectorsLeft small]
  have count : msg.cnt.toNat / 2 = 256 * n := by omega
  obtain ⟨log, t, gives, sent, disk⟩ := write_gives (s := s) ready device caller write small cnt
  rw [esiAtBuffer_iff small cnt]
  constructor
  · rintro ⟨log', t', gives', sent', -⟩
    have same : log = log' := gives.accesses.symm.trans gives'.accesses
    rw [← same, sent, count] at sent'
    intro k inside
    exact words_eq_iff.mp sent' k (by omega)
  · intro same
    refine ⟨log, t, gives, ?_, ?_⟩
    · rw [sent, count]
      exact words_eq_iff.mpr fun k inside => same k (by omega)
    · intro u back q' kept table read device' position' cnt' caller' clear
      have sector : u.sectNum p back.position = s.sectNum p msg.position := by
        rw [Hdd.sectNum, Hdd.sectNum, table, position']
      rw [size] at clear ⊢
      obtain ⟨log', v, gives', data⟩ := read_gives (s := u) ready (device'.trans device) caller'
        read small (cnt'.trans cnt) clear
      refine ⟨log', v, gives', fun k inside => ?_⟩
      rw [data k inside, kept, disk, sector, fill_at inside (by omega)]
      exact same k inside

/-- `ESI` at a block of its own. -/
def esiEnv (a : Addr) : HddEnv := { plainEnv with esi := fun _ => a }

/-- A buffer at `0x20000` with one byte set. -/
def filledHdd : Hdd := { blankHdd with mem := fun x => if x = 0x20000 then 1 else 0 }

theorem written_iff_buffer :
    Written (esiEnv 0x20000) filledHdd (diskRequest msgDevWrite 0 512) := by
  refine (written_iff (esiEnv 0x20000) filledHdd .whole 3 (diskRequest msgDevWrite 0 512)
    (fun _ => rfl) (by decide) (by decide) rfl (by decide) (by decide)).mpr fun i inside k _ => ?_
  have first : i = 0 := Nat.lt_one_iff.mp inside
  subst first
  rw [Nat.mul_zero, Nat.zero_add]
  rfl

/-- **Zeros are written instead of the buffer** when `ESI` points to zeros. -/
theorem written_not_zeros :
    ¬ Written (esiEnv 0) filledHdd (diskRequest msgDevWrite 0 512) := by
  rintro ⟨log', t', gives', sent', -⟩
  have ready : (esiEnv 0).Ready := fun _ => rfl
  have device : (diskRequest msgDevWrite 0 512).device = Partition.whole.minor := by decide
  have caller : (diskRequest msgDevWrite 0 512).procNr = pid (3 : Fin totalTaskCnt) := by
    decide
  have cnt : (diskRequest msgDevWrite 0 512).cnt = sectorsLeft 1 := by decide
  obtain ⟨log, t, gives, sent, -⟩ := write_gives (s := filledHdd) ready device caller rfl
    (by decide) cnt
  have same : log = log' := gives.accesses.symm.trans gives'.accesses
  rw [← same, sent] at sent'
  exact absurd (words_eq_iff.mp sent' 0 (by decide)) (by decide)

end WalOS
