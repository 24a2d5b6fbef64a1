/-
**Partitions on the disk, and the table that `handle_partition` fills.**

`Partition` names the whole disk, the primary partitions and the logical ones; each has a minor number
and a `Slot`. `found` is what the disk says of a partition: the boot record has an entry for each
primary partition, and an extended one starts a chain of records (`recordSector`).

* `extendedLoop_fills` — the loop over an extended partition fills the slots of its logical partitions
  from the records of its chain.
* `primaryRound_fills`, `handlePartition_fills` — **the table gets what the disk says**, and nothing
  else changes; `handleIdentify_fills` — the entry of the whole disk.
-/

import WalOS.Hdd.Ports

namespace WalOS

open Block

/-! ### Partitions -/

inductive Partition where
  | whole
  | primary (i : Fin nrPartPerDrive)
  | logical (i : Fin nrPartPerDrive) (k : Fin nrSubPerPart)
deriving DecidableEq

namespace Partition

/-- The minor number of a partition of drive 0. -/
def minor : Partition → Int
  | whole => 0
  | primary i => i + 1
  | logical i k => minorHd1a + 16 * i + k

theorem place_lt (i : Fin nrPartPerDrive) (k : Fin nrSubPerPart) :
    16 * (i : ℕ) + k < nrSubPerDrive := by
  have row : (i : ℕ) < 4 := i.isLt
  have column : (k : ℕ) < 16 := k.isLt
  show 16 * (i : ℕ) + k < 64
  omega

def slot : Partition → Slot
  | whole => .primary ⟨0, by decide⟩
  | primary i => .primary ⟨i + 1, Nat.succ_lt_succ i.isLt⟩
  | logical i k => .logical ⟨16 * i + k, place_lt i k⟩

/-- The entry of the boot record that a partition comes from. -/
def row : Partition → Option (Fin nrPartPerDrive)
  | whole => none
  | primary i => some i
  | logical i _ => some i

theorem slot_injective : Function.Injective slot := by
  intro p q same
  cases p <;> cases q
  case whole.whole => rfl
  case primary.primary i j =>
    have rows := congrArg Fin.val (Slot.primary.inj same)
    exact congrArg primary (Fin.ext (Nat.succ.inj rows))
  case logical.logical i k j l =>
    have place : 16 * (i : ℕ) + k = 16 * j + l := congrArg Fin.val (Slot.logical.inj same)
    have column : (k : ℕ) < 16 := k.isLt
    have column' : (l : ℕ) < 16 := l.isLt
    have rows : i = j := Fin.ext (by omega)
    have columns : k = l := Fin.ext (by omega)
    rw [rows, columns]
  case whole.primary i => exact absurd (congrArg Fin.val (Slot.primary.inj same)).symm (by simp)
  case primary.whole i => exact absurd (congrArg Fin.val (Slot.primary.inj same)) (by simp)
  all_goals cases same

/-- Every slot belongs to a partition. -/
theorem slot_surjective (target : Slot) : ∃ p : Partition, p.slot = target := by
  cases target with
  | primary i =>
    obtain ⟨_ | i, small⟩ := i
    · exact ⟨whole, rfl⟩
    · exact ⟨primary ⟨i, Nat.lt_of_succ_lt_succ small⟩, rfl⟩
  | logical i =>
    have small : (i : ℕ) < 64 := i.isLt
    have row : (i : ℕ) / 16 < 4 := by omega
    refine ⟨logical ⟨i / 16, row⟩ ⟨i % 16, Nat.mod_lt _ (by decide)⟩, ?_⟩
    exact congrArg Slot.logical (Fin.ext (Nat.div_add_mod _ _))

end Partition

/-! ### What the disk says -/

/-- Record `k` of the chain of an extended partition, if the chain has that many. -/
def recordSector (disk : Space 37 (BitVec 8)) (start : BitVec 32) : ℕ → Option (BitVec 32)
  | 0 => some start
  | k + 1 => (recordSector disk start k).bind fun sector =>
      let second := diskEntry disk (sector.setWidth 28) 1
      if second.systemId = noPart then none else some (start + second.startingSector)

/-- Logical partition `k` of an extended partition. -/
def recordInfo (disk : Space 37 (BitVec 8)) (start : BitVec 32) (k : ℕ) : Option PartitionInfo :=
  (recordSector disk start k).map fun sector =>
    let first := diskEntry disk (sector.setWidth 28) 0
    ⟨sector + first.startingSector, first.sectorCnt⟩

/-- **What the disk says of a partition.** -/
def found (disk : Space 37 (BitVec 8)) : Partition → Option PartitionInfo
  | .whole => none
  | .primary i =>
    let entry := diskEntry disk 0 i
    if entry.systemId = noPart then none else some ⟨entry.startingSector, entry.sectorCnt⟩
  | .logical i k =>
    let entry := diskEntry disk 0 i
    if entry.systemId = extPart then recordInfo disk entry.startingSector k else none

/-- A chain does not go on behind its end. -/
theorem recordInfo_end {disk : Space 37 (BitVec 8)} {start : BitVec 32} {i : ℕ}
    (ends : recordSector disk start i = none) {k : ℕ} (behind : i ≤ k) :
    recordInfo disk start k = none := by
  have stays : recordSector disk start k = none := by
    induction k, behind using Nat.le_induction with
    | base => exact ends
    | succ k _ ih => rw [recordSector, ih, Option.bind_none]
  rw [recordInfo, stays, Option.map_none]

/-! ### What loading changes -/

variable {env : HddEnv} {s t u : Hdd} {entries entries' : Partition → Option PartitionInfo}

/-- The drive shows every status awaited in time. -/
def HddEnv.Ready (env : HddEnv) : Prop := ∀ k, env.status k = true

/-- The drive is ready, and raises the interrupts that are waited for. -/
structure HddEnv.Responsive (env : HddEnv) : Prop where
  ready : env.Ready
  raises : ∀ k, env.interrupt k = true

/-- **The table got what `entries` has**, and nothing else changed in it; the counter and the disk are
the same. -/
structure Fills (entries : Partition → Option PartitionInfo) (s t : Hdd) : Prop where
  part : ∀ p : Partition, t.info.part p.slot = (entries p).getD (s.info.part p.slot)
  openCnt : t.info.openCnt = s.info.openCnt
  disk : t.drive.disk = s.drive.disk
  ident : t.drive.ident = s.drive.ident

theorem Fills.trans (first : Fills entries s t) (second : Fills entries' t u) :
    Fills (fun p => (entries' p).or (entries p)) s u where
  part p := by
    rw [second.part, first.part]
    cases entries' p <;> rfl
  openCnt := second.openCnt.trans first.openCnt
  disk := second.disk.trans first.disk
  ident := second.ident.trans first.ident

theorem Fills.congr (fills : Fills entries s t) (same : ∀ p, entries p = entries' p) :
    Fills entries' s t :=
  funext same ▸ fills

theorem fills_table (s : Hdd) (sector : BitVec 32) (buf : Addr) :
    Fills (fun _ => none) s ((s.issue (tableCmd 0 sector)).readBytes buf 512) :=
  ⟨fun _ => rfl, rfl, rfl, rfl⟩

theorem setPart_self (s : Hdd) (slot : Slot) (part : PartitionInfo) :
    (s.setPart slot part).info.part slot = part := Function.update_self _ _ _

theorem fills_setPart (s : Hdd) (q : Partition) (part : PartitionInfo) :
    Fills (fun p => if p = q then some part else none) s (s.setPart q.slot part) where
  part p := by
    show Function.update s.info.part q.slot part p.slot = _
    rw [Function.update_apply]
    by_cases same : p = q
    · rw [if_pos (congrArg Partition.slot same), if_pos same, Option.getD_some]
    · rw [if_neg fun slots => same (Partition.slot_injective slots), if_neg same, Option.getD_none]
  openCnt := rfl
  disk := rfl
  ident := rfl

/-- **The run returns with the table filled**, and every command waited for. -/
def RunFills (entries : Partition → Option PartitionInfo) (s : Hdd) (x : HddRun Hdd) : Prop :=
  ∃ log t, x.Gives log t ∧ Awaited log ∧ Fills entries s t

theorem RunFills.pure (s : Hdd) : RunFills (fun _ => none) s (Pure.pure s) :=
  ⟨[], s, .pure s, .nil, ⟨fun _ => rfl, rfl, rfl, rfl⟩⟩

theorem RunFills.bind {x : HddRun Hdd} {next : Hdd → HddRun Hdd} (first : RunFills entries s x)
    (rest : ∀ t, Fills entries s t → RunFills entries' t (next t)) :
    RunFills (fun p => (entries' p).or (entries p)) s (x >>= next) := by
  obtain ⟨log, t, gives, awaited, fills⟩ := first
  obtain ⟨log', u, gives', awaited', fills'⟩ := rest t fills
  exact ⟨_, u, gives.bind gives', awaited.append awaited', fills.trans fills'⟩

theorem RunFills.congr {x : HddRun Hdd} (filling : RunFills entries s x)
    (same : ∀ p, entries p = entries' p) : RunFills entries' s x :=
  funext same ▸ filling

/-- The run goes on with the table filled so far. -/
theorem RunFills.of_fills {x : HddRun Hdd} (filling : RunFills entries' t x) (fills : Fills entries s t) :
    RunFills (fun p => (entries' p).or (entries p)) s x := by
  obtain ⟨log, u, gives, awaited, fills'⟩ := filling
  exact ⟨log, u, gives, awaited, fills.trans fills'⟩

/-- An element is used first. -/
theorem RunFills.after {α : Type} {y : HddRun α} {event : HddEvent} {a : α} (gives : y.Gives [event] a)
    (aside : event.Aside) {next : α → HddRun Hdd} (rest : RunFills entries s (next a)) :
    RunFills entries s (y >>= next) := by
  obtain ⟨log, t, gives', awaited, fills⟩ := rest
  exact ⟨_, t, gives.bind gives', .aside aside awaited, fills⟩

/-! ### Elements of the arrays -/

theorem hddInfoAt_gives : (hddInfoAt 0).Gives [.index .hddInfo 0] () :=
  .touch_bind (.check rfl _)

theorem primaryAt_gives (i : Fin nrPrimPerDrive) :
    (primaryAt (i : ℕ)).Gives [.index .primary (i : ℕ)] (.primary i) := by
  refine .touch_bind ?_
  rw [dif_pos ⟨Int.natCast_nonneg _, Int.ofNat_lt.mpr i.isLt⟩]
  exact .pure _

theorem primaryAt_row (row : Fin nrPartPerDrive) :
    (primaryAt ((row : ℕ) + 1 : ℕ)).Gives [.index .primary ((row : ℕ) + 1 : ℕ)]
      (Partition.primary row).slot :=
  primaryAt_gives ⟨row + 1, Nat.succ_lt_succ row.isLt⟩

theorem logicalAt_gives (i : Fin nrSubPerDrive) :
    (logicalAt (i : ℕ)).Gives [.index .logical (i : ℕ)] (.logical i) := by
  refine .touch_bind ?_
  rw [dif_pos ⟨Int.natCast_nonneg _, Int.ofNat_lt.mpr i.isLt⟩]
  exact .pure _

theorem getPartitionTable_fills (responds : env.Responsive) (sector : BitVec 32) (s : Hdd)
    {next : Hdd → HddRun Hdd}
    (rest : RunFills entries ((s.issue (tableCmd 0 sector)).readBytes env.hdBuf 512)
      (next ((s.issue (tableCmd 0 sector)).readBytes env.hdBuf 512))) :
    RunFills entries s (getPartitionTable env 0 sector s >>= next) := by
  obtain ⟨log, t, gives, awaited, fills⟩ := rest
  refine ⟨_, t, (getPartitionTable_gives sector (responds.ready _) (responds.raises _)).bind gives,
    (getPartitionTable_awaited _ _).append awaited, ?_⟩
  exact ((fills_table s sector env.hdBuf).trans fills).congr fun p => Option.or_none

/-! ### The loops -/

/-- What the records from round `i` on say. -/
def foundFrom (disk : Space 37 (BitVec 8)) (row : Fin nrPartPerDrive) (start : BitVec 32) (i : ℕ) :
    Partition → Option PartitionInfo
  | .logical r k => if r = row ∧ i ≤ k then recordInfo disk start k else none
  | _ => none

/-- The round itself, and those behind it. -/
theorem foundFrom_succ {disk : Space 37 (BitVec 8)} {row : Fin nrPartPerDrive} {start : BitVec 32}
    {here : Fin nrSubPerPart} {info : PartitionInfo}
    (record : recordInfo disk start here = some info) (p : Partition) :
    (foundFrom disk row start (here + 1) p).or (if p = .logical row here then some info else none) =
      foundFrom disk row start here p := by
  by_cases same : p = .logical row here
  · subst same
    rw [if_pos rfl, foundFrom, if_neg fun later => absurd later.2 (Nat.not_succ_le_self _), foundFrom,
      if_pos ⟨rfl, le_refl _⟩, record, Option.none_or]
  · rw [if_neg same, Option.or_none]
    cases p with
    | whole => rfl
    | primary i => rfl
    | logical r k =>
      refine if_congr (and_congr_right fun rows => ?_) rfl rfl
      have other : (here : ℕ) ≠ k := fun places =>
        same (by rw [rows, Fin.ext places])
      omega

theorem foundFrom_end {disk : Space 37 (BitVec 8)} {start : BitVec 32} {i : ℕ}
    (row : Fin nrPartPerDrive) (ends : recordSector disk start i = none) (p : Partition) :
    foundFrom disk row start i p = none := by
  cases p with
  | logical r k => exact ite_eq_right_iff.mpr fun later => recordInfo_end ends later.2
  | _ => rfl

/-- **The loop over an extended partition** fills the slots of its logical partitions from round `i`
on. -/
theorem extendedLoop_fills (responds : env.Responsive) (row : Fin nrPartPerDrive)
    (start : BitVec 32) (left i : ℕ) (sector : BitVec 32) (s : Hdd) (rounds : i + left = nrSubPerPart)
    (reached : recordSector s.drive.disk start i = some sector) :
    RunFills (foundFrom s.drive.disk row start i) s
      (extendedLoop env 0 start ((16 * row : ℕ) : Int) left i sector s) := by
  induction left generalizing i sector s with
  | zero =>
    refine (RunFills.pure s).congr fun p => ?_
    cases p with
    | logical r k =>
      have last : ¬ i ≤ k := Nat.not_le.mpr (Nat.lt_of_lt_of_eq k.isLt rounds.symm)
      exact (if_neg fun later => last later.2).symm
    | _ => rfl
  | succ left ih =>
    let here : Fin nrSubPerPart := ⟨i, by omega⟩
    let first := diskEntry s.drive.disk (sector.setWidth 28) 0
    let second := diskEntry s.drive.disk (sector.setWidth 28) 1
    have record : recordInfo s.drive.disk start here =
        some ⟨sector + first.startingSector, first.sectorCnt⟩ := by
      rw [recordInfo, reached]
      rfl
    have next : recordSector s.drive.disk start (i + 1) =
        if second.systemId = noPart then none else some (start + second.startingSector) := by
      rw [recordSector, reached]
      rfl
    refine getPartitionTable_fills responds sector s ?_
    dsimp only
    rw [tableEntry_read sector (by decide), tableEntry_read sector (by decide)]
    refine .after hddInfoAt_gives trivial (.after (logicalAt_gives ⟨_, Partition.place_lt row here⟩)
      trivial ?_)
    refine (RunFills.of_fills ?_ (fills_setPart _ (.logical row here) _)).congr
      (foundFrom_succ record)
    by_cases last : second.systemId = noPart
    · rw [if_pos last] at next
      rw [if_pos last]
      exact (RunFills.pure _).congr fun p => (foundFrom_end row next p).symm
    · rw [if_neg last] at next
      rw [if_neg last]
      exact ih (i + 1) _ _ (by omega) next

/-- The device of an extended partition is its row, counted from 1. -/
theorem devToDrv_row : ∀ row : Fin nrPartPerDrive, devToDrv ((row : ℕ) + 1 : ℕ) = 0 := by decide

theorem tmod_row : ∀ row : Fin nrPartPerDrive,
    (((row : ℕ) + 1 : ℕ) : Int).tmod nrPrimPerDrive = ((row : ℕ) + 1 : ℕ) := by decide

theorem signature_row (row : Fin nrPartPerDrive) :
    ((((row : ℕ) + 1 : ℕ) : Int) - 1) * nrSubPerPart = ((16 * row : ℕ) : Int) := by
  show ((row : Int) + 1 - 1) * 16 = 16 * (row : Int)
  omega

/-- **`handle_partition(dev, P_EXTENDED)`** fills the slots of the logical partitions of the extended
partition. -/
theorem handleExtended_fills (responds : env.Responsive) (row : Fin nrPartPerDrive) (s : Hdd) :
    RunFills (foundFrom s.drive.disk row (s.info.part (Partition.primary row).slot).base 0) s
      (handleExtended env ((row : ℕ) + 1 : ℕ) s) := by
  unfold handleExtended
  dsimp only
  rw [devToDrv_row, tmod_row, signature_row]
  refine .after hddInfoAt_gives trivial (.after (primaryAt_row row) trivial ?_)
  exact extendedLoop_fills responds row _ nrSubPerPart 0 _ s rfl rfl

/-- What the entry of a row says. -/
def foundRow (disk : Space 37 (BitVec 8)) (row : Fin nrPartPerDrive) (p : Partition) :
    Option PartitionInfo :=
  if p.row = some row then found disk p else none

/-- A vacant entry, one that is not extended, and one that is. -/
theorem foundRow_vacant {disk : Space 37 (BitVec 8)} {row : Fin nrPartPerDrive}
    (vacant : (diskEntry disk 0 row).systemId = noPart) (p : Partition) :
    foundRow disk row p = none := by
  cases p with
  | whole => rfl
  | primary i =>
    refine ite_eq_right_iff.mpr fun same => ?_
    obtain rfl := Option.some.inj same
    exact if_pos vacant
  | logical i k =>
    refine ite_eq_right_iff.mpr fun same => ?_
    obtain rfl := Option.some.inj same
    exact if_neg (vacant ▸ by decide)

theorem foundRow_primary {disk : Space 37 (BitVec 8)} {row : Fin nrPartPerDrive}
    (used : (diskEntry disk 0 row).systemId ≠ noPart)
    (plain : (diskEntry disk 0 row).systemId ≠ extPart) (p : Partition) :
    foundRow disk row p = if p = .primary row then
      some ⟨(diskEntry disk 0 row).startingSector, (diskEntry disk 0 row).sectorCnt⟩ else none := by
  cases p with
  | whole => rfl
  | primary i =>
    refine ite_congr (by simp [Partition.row]) (fun same => ?_) fun _ => rfl
    obtain rfl := Partition.primary.inj same
    exact if_neg used
  | logical i k =>
    rw [if_neg (by simp)]
    refine ite_eq_right_iff.mpr fun same => ?_
    obtain rfl := Option.some.inj same
    exact if_neg plain

theorem foundRow_extended {disk : Space 37 (BitVec 8)} {row : Fin nrPartPerDrive}
    (extended : (diskEntry disk 0 row).systemId = extPart) (p : Partition) :
    foundRow disk row p = (foundFrom disk row (diskEntry disk 0 row).startingSector 0 p).or
      (if p = .primary row then
        some ⟨(diskEntry disk 0 row).startingSector, (diskEntry disk 0 row).sectorCnt⟩ else none) := by
  cases p with
  | whole => rfl
  | primary i =>
    refine ite_congr (by simp [Partition.row]) (fun same => ?_) fun _ => rfl
    obtain rfl := Partition.primary.inj same
    exact if_neg (extended ▸ by decide)
  | logical i k =>
    rw [if_neg (by simp), Option.or_none]
    refine ite_congr (by simp [Partition.row]) (fun same => ?_) fun _ => rfl
    obtain rfl := same.1
    exact if_pos extended

/-- **A round over the boot record** fills what its entry has: a primary partition, and the logical
ones of an extended partition. -/
theorem primaryRound_fills (responds : env.Responsive) (row : Fin nrPartPerDrive) (s : Hdd) :
    RunFills (foundRow s.drive.disk row) s
      (primaryRound env 0 row (diskEntry s.drive.disk 0 row) s) := by
  unfold primaryRound
  by_cases vacant : (diskEntry s.drive.disk 0 row).systemId = noPart
  · rw [if_pos vacant]
    exact (RunFills.pure s).congr fun p => (foundRow_vacant vacant p).symm
  · rw [if_neg vacant]
    refine .after hddInfoAt_gives trivial (.after (primaryAt_row row) trivial ?_)
    dsimp only
    by_cases extended : (diskEntry s.drive.disk 0 row).systemId = extPart
    · let entry := diskEntry s.drive.disk 0 row
      let filled := s.setPart (Partition.primary row).slot ⟨entry.startingSector, entry.sectorCnt⟩
      have base : (filled.info.part (Partition.primary row).slot).base = entry.startingSector :=
        congrArg PartitionInfo.base (setPart_self s _ _)
      have dev : (0 : Int) + ((row : ℕ) + 1) = ((row : ℕ) + 1 : ℕ) := Int.zero_add _
      have logical := handleExtended_fills responds row filled
      rw [base] at logical
      rw [if_pos extended, dev]
      exact (logical.of_fills (fills_setPart s _ _)).congr fun p => (foundRow_extended extended p).symm
    · rw [if_neg extended]
      refine ((RunFills.pure _).of_fills (fills_setPart s (.primary row) _)).congr fun p => ?_
      rw [foundRow_primary vacant extended, Option.none_or]

/-- What the first entries of the boot record say. -/
def foundBelow (disk : Space 37 (BitVec 8)) (n : ℕ) (p : Partition) : Option PartitionInfo :=
  p.row.bind fun row => if (row : ℕ) < n then found disk p else none

theorem foundBelow_zero (disk : Space 37 (BitVec 8)) (p : Partition) :
    foundBelow disk 0 p = none := by
  cases p <;> rfl

theorem foundBelow_succ (disk : Space 37 (BitVec 8)) (row : Fin nrPartPerDrive) (p : Partition) :
    (foundRow disk row p).or (foundBelow disk row p) = foundBelow disk (row + 1) p := by
  unfold foundRow foundBelow
  cases p.row with
  | none => rfl
  | some i =>
    rw [Option.bind_some, Option.bind_some]
    by_cases same : i = row
    · subst same
      rw [if_pos rfl, if_neg (Nat.lt_irrefl _), Option.or_none, if_pos (Nat.lt_succ_self _)]
    · have other : (i : ℕ) ≠ row := fun rows => same (Fin.ext rows)
      rw [if_neg fun rows => same (Option.some.inj rows), Option.none_or]
      exact if_congr (by omega) rfl rfl

theorem foundBelow_all (disk : Space 37 (BitVec 8)) (p : Partition) :
    foundBelow disk nrPartPerDrive p = found disk p := by
  cases p with
  | whole => rfl
  | primary i => exact if_pos i.isLt
  | logical i k => exact if_pos i.isLt

/-- The loop over the boot record, up to some entry. -/
theorem primaryLoop_fills (responds : env.Responsive) {table : ℕ → PartitionEntry}
    (entry : ∀ i < nrPartPerDrive, table i = diskEntry s.drive.disk 0 i) (n : ℕ)
    (few : n ≤ nrPartPerDrive) : RunFills (foundBelow s.drive.disk n) s
      ((List.range n).foldlM (fun t i => primaryRound env 0 i (table i) t) s) := by
  induction n with
  | zero => exact (RunFills.pure s).congr fun p => (foundBelow_zero _ p).symm
  | succ n ih =>
    rw [List.range_succ, List.foldlM_append]
    refine ((ih (by omega)).bind fun t fills => ?_).congr (foundBelow_succ _ ⟨n, few⟩)
    rw [List.foldlM_cons, entry n few, ← fills.disk]
    simp only [List.foldlM_nil, bind_pure]
    exact primaryRound_fills responds ⟨n, few⟩ t

/-- **`handle_partition(0, P_PRIMARY)` fills the table from the disk.** -/
theorem handlePartition_fills (responds : env.Responsive) (s : Hdd) :
    RunFills (found s.drive.disk) s (handlePartition env 0 s) := by
  refine getPartitionTable_fills responds 0 s ?_
  refine (primaryLoop_fills responds (fun i inside => ?_) nrPartPerDrive (le_refl _)).congr
    (foundBelow_all _)
  exact tableEntry_read 0 inside

/-! ### Discovery -/

/-- **Partition discovery equals the structure on the disk**, whatever the disk holds: the primary
partitions are the entries in use of the boot record, the logical ones are the records of the chains of
its extended entries, and no other element changes. -/
theorem partition_discovery (env : HddEnv) (responds : env.Responsive) (s : Hdd) :
    ∃ log t, (handlePartition env 0 s).Gives log t ∧
      (∀ i : Fin nrPartPerDrive, (diskEntry s.drive.disk 0 i).systemId ≠ noPart →
        t.info.part (Partition.primary i).slot =
          ⟨(diskEntry s.drive.disk 0 i).startingSector, (diskEntry s.drive.disk 0 i).sectorCnt⟩) ∧
      (∀ (i : Fin nrPartPerDrive) (k : Fin nrSubPerPart) (sector : BitVec 32),
        (diskEntry s.drive.disk 0 i).systemId = extPart →
        recordSector s.drive.disk (diskEntry s.drive.disk 0 i).startingSector k = some sector →
        t.info.part (Partition.logical i k).slot =
          ⟨sector + (diskEntry s.drive.disk (sector.setWidth 28) 0).startingSector,
            (diskEntry s.drive.disk (sector.setWidth 28) 0).sectorCnt⟩) ∧
      ∀ target : Slot,
        (∀ i : Fin nrPartPerDrive, (diskEntry s.drive.disk 0 i).systemId ≠ noPart →
          target ≠ (Partition.primary i).slot) →
        (∀ (i : Fin nrPartPerDrive) (k : Fin nrSubPerPart),
          (diskEntry s.drive.disk 0 i).systemId = extPart →
          recordSector s.drive.disk (diskEntry s.drive.disk 0 i).startingSector k ≠ none →
          target ≠ (Partition.logical i k).slot) →
        t.info.part target = s.info.part target := by
  obtain ⟨log, t, gives, -, fills⟩ := handlePartition_fills responds s
  refine ⟨log, t, gives, fun i used => ?_, fun i k sector extended reached => ?_,
    fun target unused unreached => ?_⟩
  · have entry : found s.drive.disk (.primary i) = some ⟨(diskEntry s.drive.disk 0 i).startingSector,
        (diskEntry s.drive.disk 0 i).sectorCnt⟩ := if_neg used
    rw [fills.part, entry, Option.getD_some]
  · have record : found s.drive.disk (.logical i k) =
        recordInfo s.drive.disk (diskEntry s.drive.disk 0 i).startingSector k := if_pos extended
    rw [fills.part, record, recordInfo, reached]
    rfl
  · obtain ⟨p, rfl⟩ := Partition.slot_surjective target
    have absent : found s.drive.disk p = none := by
      cases p with
      | whole => rfl
      | primary i => exact if_pos (by_contra fun used => unused i used rfl)
      | logical i k =>
        refine ite_eq_right_iff.mpr fun extended => ?_
        have ends : recordSector s.drive.disk (diskEntry s.drive.disk 0 i).startingSector k = none :=
          by_contra fun reached => unreached i k extended reached rfl
        rw [recordInfo, ends, Option.map_none]
    rw [fills.part, absent, Option.getD_none]

/-- An environment that always answers. -/
def plainEnv : HddEnv where
  hdBuf := 0x10000
  segBase _ := 0
  flat _ := rfl
  status _ := true
  interrupt _ := true
  esi _ := 0
  staleCmd := ⟨0, 0, 0, 0, 0, 0, 0⟩

theorem plainEnv_responsive : plainEnv.Responsive := ⟨fun _ => rfl, fun _ => rfl⟩

/-- The driver after `hdd_init`, with a blank disk. -/
def blankHdd : Hdd := ⟨.zero, fun _ => 0, ⟨fun _ => 0, fun _ => 0, false, 0⟩, 0, 0⟩

/-- The driver after `hdd_init`. The second entry of the boot record is an extended partition at sector
2, whose first record has a partition one sector on and a record behind it at the same place: the chain
comes back to its start. -/
def chainedHdd : Hdd :=
  { blankHdd with drive := { blankHdd.drive with
      disk := fun x => if x = 0x1D2 then 5 else if x = 0x1D6 then 2 else if x = 0x5C6 then 1
        else if x = 0x5D2 then 5 else 0 } }

theorem partition_discovery_cycle : ∃ log t, (handlePartition plainEnv 0 chainedHdd).Gives log t ∧
    t.info.part (.primary 2) = ⟨2, 0⟩ ∧ t.info.part (.logical 31) = ⟨3, 0⟩ := by
  have starts : (diskEntry chainedHdd.drive.disk 0 1).startingSector = 2 := by decide
  have round : ∀ k, recordSector chainedHdd.drive.disk 2 k = some 2 := by
    intro k
    induction k with
    | zero => rfl
    | succ k ih =>
      rw [recordSector, ih]
      decide
  obtain ⟨log, t, gives, primary, logical, -⟩ :=
    partition_discovery plainEnv plainEnv_responsive chainedHdd
  refine ⟨log, t, gives, ?_, ?_⟩
  · exact (primary 1 (by decide)).trans (by decide)
  · exact (logical 1 15 2 (by decide) (starts ▸ round 15)).trans (by decide)

/-! ### Identification -/

/-- The whole disk, by the identify data: it starts at sector 0, and words 60 and 61 count its
sectors. -/
def identInfo (ident : ℕ → BitVec 8) : PartitionInfo :=
  ⟨0, ((ident 123 ++ ident 122 : BitVec 16).setWidth 32 <<< 16) +
    (ident 121 ++ ident 120 : BitVec 16).setWidth 32⟩

/-- **`handle_identify(0)`** fills the entry of the whole disk. -/
theorem handleIdentify_fills (responds : env.Responsive) (s : Hdd) :
    RunFills (fun p => if p = .whole then some (identInfo s.drive.ident) else none) s
      (handleIdentify env 0 s) := by
  let cmd : HddCmd := { env.staleCmd with
    device := makeCmdDevice 0 (BitVec.ofInt 32 0) 0, command := ataIdentify }
  let read := (s.issue cmd).readBytes env.hdBuf 512
  have taken : (s.issue cmd).drive = { s.drive with identifying := true, cursor := 0 } :=
    issue_identify rfl
  have data : ∀ k < 512, read.mem (cell env.hdBuf k) = s.drive.ident k := by
    intro k small
    have place : (cell (0 : BitVec 37) k).toNat = k := by
      rw [← BitVec.sub_zero (cell 0 k)]
      exact cell_sub 0 k (by omega)
    rw [readBytes_at small (by omega), taken]
    exact congrArg s.drive.ident place
  have word : ∀ i < 256, read.infoWord env i =
      s.drive.ident (2 * i + 1) ++ s.drive.ident (2 * i) := fun i small => by
    rw [Hdd.infoWord, data _ (by omega), data _ (by omega)]
  have disk : (s.issue cmd).drive.disk = s.drive.disk := by rw [taken]
  have ident : (s.issue cmd).drive.ident = s.drive.ident := by rw [taken]
  have same : Fills (fun _ => none) s read := ⟨fun _ => rfl, rfl, disk, ident⟩
  refine ⟨_, _, (hddCmdOut_gives cmd (responds.ready _)).bind
    ((receiveInterrupt_gives (responds.raises _)).bind ((readPort_gives _ _).bind
    (hddInfoAt_gives.bind ((primaryAt_gives ⟨0, by decide⟩).bind (.pure _))))), ?_, ?_⟩
  · exact .command (.inl rfl) (.aside trivial (.aside trivial (.aside trivial .nil)))
  · refine (same.trans (fills_setPart read .whole _)).congr fun p => ?_
    rw [Option.or_none, word 61 (by decide), word 60 (by decide)]
    rfl

end WalOS
