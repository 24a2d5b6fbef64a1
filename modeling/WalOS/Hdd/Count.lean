/-
**How often the loop of `hdd_read_write` goes round.**

* `transferLoop_rounds` — on whole sectors: one round for each, on 512 bytes at the next place of the
  buffer, and no other memory changes. A write fetches its words at `ESI`.
* `transferLoop_endless` — on anything else `left` never becomes 0.
* `transfer_exact_iff` — **the loop moves exactly the bytes asked for when `CNT` is whole sectors** and `ESI`
  points into the buffer when a write sends them.
* `sector_count_iff` — **the drive is asked for as many sectors when there are at most 256**.
-/

import Mathlib.Algebra.Ring.Nat
import WalOS.Hdd.Transfer

namespace WalOS

open Block

variable {env : HddEnv} {s : Hdd} {msg : Message}

/-! ### Rounds -/

/-- The block that a round hands on: where `memcpy` writes, or what `write_port` is given. -/
def HddEvent.handed? : HddEvent → Option (Addr × BitVec 32)
  | .memcpy dest _ bytes => some (dest, bytes)
  | .writePort src bytes => some (src, bytes)
  | _ => none

/-- The blocks of a run, one for each round. -/
def handed (log : List HddEvent) : List (Addr × BitVec 32) := log.filterMap HddEvent.handed?

/-- A sector goes through the data port. -/
def HddEvent.isSector : HddEvent → Bool
  | .readPort _ => true
  | .writePort _ _ => true
  | _ => false

/-- The sectors that go through the data port. -/
def sectorsMoved (log : List HddEvent) : ℕ := log.countP HddEvent.isSector

theorem handed_append (log log' : List HddEvent) : handed (log ++ log') = handed log ++ handed log' :=
  List.filterMap_append

theorem sectorsMoved_append (log log' : List HddEvent) :
    sectorsMoved (log ++ log') = sectorsMoved log + sectorsMoved log' := List.countP_append

/-- The memory of the request that an event uses: what `memcpy` fills, or the word that `rep outsw`
fetches. -/
def HddEvent.Touches (x : Addr) : HddEvent → Prop
  | .memcpy dest _ bytes => ∃ k < bytes.toNat, x = cell dest k
  | .word src _ => ∃ k < 2, x = cell src k
  | _ => False

def Touches (log : List HddEvent) (x : Addr) : Prop := ∃ event ∈ log, event.Touches x

theorem touches_append {log log' : List HddEvent} {x : Addr} :
    Touches (log ++ log') x ↔ Touches log x ∨ Touches log' x := by
  simp only [Touches, List.mem_append, or_and_right, exists_or]

theorem touches_cons {event : HddEvent} {log : List HddEvent} {x : Addr} :
    Touches (event :: log) x ↔ event.Touches x ∨ Touches log x := by
  simp only [Touches, List.mem_cons, or_and_right, exists_or, exists_eq_left]

theorem not_touches_nil (x : Addr) : ¬ Touches [] x := fun ⟨_, member, _⟩ =>
  absurd member List.not_mem_nil

/-- The words of a block: they are no block handed on, no sector by themselves, and their bytes are the
block. -/
theorem wordEvents_touches (m : Space 32 (BitVec 8)) (count : ℕ) (esi : Addr) :
    handed (wordEvents m count esi) = [] ∧ sectorsMoved (wordEvents m count esi) = 0 ∧
      ∀ x, Touches (wordEvents m count esi) x ↔ ∃ k < 2 * count, x = cell esi k := by
  induction count generalizing esi with
  | zero =>
    exact ⟨rfl, rfl, fun x => iff_of_false (not_touches_nil x) fun ⟨k, inside, _⟩ =>
      absurd inside (Nat.not_lt_zero k)⟩
  | succ count ih =>
    obtain ⟨none, still, touches⟩ := ih (cell esi 2)
    refine ⟨none, still, fun x => ?_⟩
    rw [wordEvents, touches_cons, touches]
    constructor
    · rintro (⟨k, first, here⟩ | ⟨k, later, here⟩)
      · exact ⟨k, by omega, here⟩
      · exact ⟨2 + k, by omega, by rw [here, cell_cell]⟩
    · rintro ⟨k, inside, here⟩
      rcases Nat.lt_or_ge k 2 with first | later
      · exact .inl ⟨k, first, here⟩
      · obtain ⟨j, rfl⟩ := Nat.exists_eq_add_of_le later
        exact .inr ⟨j, by omega, by rw [here, cell_cell]⟩

/-- Where a round goes to the memory of the request, after `outs` calls of `write_port`. -/
def roundAddr (env : HddEnv) (msg : Message) (a : Addr) (outs i : ℕ) : Addr :=
  if msg.type = msgDevRead then cell a (512 * i) else env.esi (outs + i)

/-- Blocks of a sector, one behind the other. -/
def sectorBlocks (a : Addr) (n : ℕ) : List (Addr × BitVec 32) :=
  (List.range n).map fun i => (cell a (512 * i), sectorSize)

theorem sectorBlocks_succ (a : Addr) (n : ℕ) :
    sectorBlocks a (n + 1) = (a, sectorSize) :: sectorBlocks (cell a 512) n := by
  unfold sectorBlocks
  rw [List.range_succ_eq_map, List.map_cons, List.map_map, Nat.mul_zero, cell_zero]
  refine congrArg _ (List.map_congr_left fun i _ => ?_)
  show (cell a (512 * (i + 1)), sectorSize) = (cell (cell a 512) (512 * i), sectorSize)
  rw [cell_cell, Nat.mul_succ, Nat.add_comm]

/-- **What a transfer of whole sectors does**: the blocks handed on, the memory used, and what does not
change. -/
structure Rounds (env : HddEnv) (msg : Message) (a : Addr) (n : ℕ) (s t : Hdd) (log : List HddEvent) :
    Prop where
  blocks : handed log = sectorBlocks a n
  sectors : sectorsMoved log = n
  touches : ∀ x, Touches log x ↔ ∃ i < n, ∃ k < 512, x = cell (roundAddr env msg a s.outs i) k
  kept : ∀ x, (∀ k < 512 * n, x ≠ cell a k) → (∀ k < 512, x ≠ cell env.hdBuf k) → t.mem x = s.mem x

theorem Rounds.none (env : HddEnv) (msg : Message) (a : Addr) (s : Hdd) : Rounds env msg a 0 s s [] where
  blocks := rfl
  sectors := rfl
  touches x := iff_of_false (not_touches_nil x) fun ⟨i, inside, _⟩ => absurd inside (Nat.not_lt_zero i)
  kept _ _ _ := rfl

/-- One round. -/
theorem Rounds.one {t : Hdd} {log : List HddEvent} {a : Addr} (block : handed log = [(a, sectorSize)])
    (sector : sectorsMoved log = 1)
    (touches : ∀ x, Touches log x ↔ ∃ k < 512, x = cell (roundAddr env msg a s.outs 0) k)
    (kept : ∀ x, (∀ k < 512, x ≠ cell a k) → (∀ k < 512, x ≠ cell env.hdBuf k) → t.mem x = s.mem x) :
    Rounds env msg a 1 s t log where
  blocks := by rw [block, sectorBlocks_succ]; rfl
  sectors := sector
  touches x := by
    rw [touches]
    constructor
    · exact fun here => ⟨0, Nat.one_pos, here⟩
    · rintro ⟨i, first, here⟩
      obtain rfl := Nat.lt_one_iff.mp first
      exact here
  kept := kept

/-- A round, and the rounds behind it. -/
theorem Rounds.cons {t u : Hdd} {log log' : List HddEvent} {a : Addr} {n : ℕ}
    (first : Rounds env msg a 1 s t log) (rest : Rounds env msg (cell a 512) n t u log')
    (next : ∀ i, roundAddr env msg (cell a 512) t.outs i = roundAddr env msg a s.outs (i + 1)) :
    Rounds env msg a (n + 1) s u (log ++ log') where
  blocks := by
    rw [handed_append, first.blocks, rest.blocks, sectorBlocks_succ a n, sectorBlocks_succ a 0]
    rfl
  sectors := by rw [sectorsMoved_append, first.sectors, rest.sectors, Nat.add_comm]
  touches x := by
    rw [touches_append, first.touches, rest.touches]
    constructor
    · rintro (⟨i, less, here⟩ | ⟨i, less, here⟩)
      · exact ⟨i, by omega, here⟩
      · exact ⟨i + 1, by omega, next i ▸ here⟩
    · rintro ⟨i, less, here⟩
      cases i with
      | zero => exact .inl ⟨0, Nat.one_pos, here⟩
      | succ i => exact .inr ⟨i, by omega, (next i).symm ▸ here⟩
  kept x off buffer := by
    have behind : ∀ k < 512 * n, x ≠ cell (cell a 512) k := by
      intro k inside
      rw [cell_cell]
      exact off (512 + k) (by omega)
    rw [rest.kept x behind buffer]
    exact first.kept x (fun k inside => off k (by omega)) buffer

/-- What a round does, for a request of either kind. -/
theorem transferSector_round (msg : Message) (ready : env.Ready) (a : Addr) (s : Hdd) : ∃ log t,
    (transferSector env msg a sectorSize s).Gives log t ∧ Rounds env msg a 1 s t log ∧
      ∀ i, roundAddr env msg (cell a 512) t.outs i = roundAddr env msg a s.outs (i + 1) := by
  unfold roundAddr
  by_cases read : msg.type = msgDevRead
  · obtain ⟨t, moves, kept, -⟩ := readRound_gives env a s
    rw [transferSector, if_pos read]
    refine ⟨_, t, moves, .one rfl rfl (fun x => ?_) kept, fun i => ?_⟩
    · rw [roundAddr, if_pos read, Nat.mul_zero, cell_zero, touches_cons, touches_cons,
        or_iff_left (not_touches_nil x)]
      exact or_iff_right id
    · rw [if_pos read, if_pos read, cell_cell, Nat.mul_succ, Nat.add_comm]
  · obtain ⟨none, still, touches⟩ := wordEvents_touches s.mem 256 (env.esi s.outs)
    rw [transferSector, if_neg read]
    refine ⟨_, _, writeRound_gives ready a s, .one ?_ ?_ (fun x => ?_) (fun x _ _ => rfl), fun i => ?_⟩
    · exact congrArg ((a, sectorSize) :: ·) none
    · exact (List.countP_cons_of_pos rfl).trans (congrArg (· + 1) still)
    · rw [roundAddr, if_neg read, touches_cons, touches]
      exact or_iff_right id
    · rw [if_neg read, if_neg read]
      show env.esi (s.outs + 1 + i) = _
      rw [Nat.add_assoc, Nat.add_comm 1]

/-- **On whole sectors** there is a round for each. -/
theorem transferLoop_rounds (msg : Message) (ready : env.Ready) (n : ℕ) (small : n < 2 ^ 22)
    {fuel : ℕ} (enough : n < fuel) (a : Addr) (s : Hdd) : ∃ log t,
      (Traced.loop .endless (transferRound env msg) fuel ⟨sectorsLeft n, a, s⟩).Gives log t ∧
      Rounds env msg a n s t log := by
  refine transferLoop_gives (Rounds.none env msg) (fun a n s _ => ?_) n small enough a s
  obtain ⟨log, t, moves, first, next⟩ := transferSector_round msg ready a s
  exact ⟨log, t, moves, fun u log' rest => first.cons rest next⟩

/-- **On anything else the loop never ends**: `left` is never 0. -/
theorem transferLoop_endless {cnt : BitVec 32} (part : cnt.toNat % 512 ≠ 0) (fuel : ℕ) (a : Addr)
    (s t : Hdd) :
    (Traced.loop .endless (transferRound env msg) fuel ⟨cnt, a, s⟩).outcome ≠ .ok t := by
  have spec : (Traced.loop .endless (transferRound env msg) fuel ⟨cnt, a, s⟩).Sat (fun _ => True)
      (fun _ => False) fun _ => True := by
    refine Traced.Sat.loop_partial (fun u : Transfer => u.left.toNat % 512 ≠ 0) (fun u left => ?_)
      trivial fuel ⟨cnt, a, s⟩ part
    unfold transferRound
    refine Traced.Sat.ite (fun zero => absurd (congrArg (BitVec.toNat · % 512) zero) left) fun _ => ?_
    have moved : (transferSector env msg u.linerAddr
        (if sectorSize.slt u.left then sectorSize else u.left) u.hdd).Logs fun _ => True :=
      ⟨fun _ _ => trivial, fun _ _ => trivial, fun _ _ => trivial⟩
    refine Traced.Sat.bind moved fun v _ => Traced.Sat.pure ?_
    show (u.left - sectorSize).toNat % 512 ≠ 0
    have size : sectorSize.toNat = 512 := rfl
    have small := u.left.isLt
    rw [BitVec.toNat_sub, size]
    omega
  exact fun returned => spec.value t returned

/-! ### The requested bytes -/

/-- **The loop moves exactly the bytes asked for**: it ends after the rounds that `CNT` takes, every
block handed on has bytes and lies in the buffer, together they have `CNT` bytes, no memory outside the
buffer is filled by `memcpy` or fetched by `rep outsw`, and none but the buffer and `hd_buf` changes. -/
def TransfersExactly (env : HddEnv) (s : Hdd) (msg : Message) : Prop :=
  ∃ log t, (Traced.loop .endless (transferRound env msg) transferFuel
      ⟨msg.cnt, msg.buf, s⟩).Gives log t ∧
    (handed log).length = (msg.cnt.toNat + 511) / 512 ∧
    (∀ block ∈ handed log, 0 < block.2.toInt ∧ ∃ place, block.1 = cell msg.buf place ∧
      place + block.2.toNat ≤ msg.cnt.toNat) ∧
    ((handed log).map (BitVec.toNat ∘ Prod.snd)).sum = msg.cnt.toNat ∧
    (∀ x, Touches log x → ∃ k < msg.cnt.toNat, x = cell msg.buf k) ∧
    ∀ x, (∀ k < msg.cnt.toNat, x ≠ cell msg.buf k) → (∀ k < 512, x ≠ cell env.hdBuf k) →
      t.mem x = s.mem x

/-- At each call of `write_port` the sector at `ESI` lies in the buffer. -/
def EsiInBuffer (env : HddEnv) (s : Hdd) (msg : Message) : Prop :=
  ∀ i < msg.cnt.toNat / 512, ∀ k < 512, ∃ j < msg.cnt.toNat,
    cell (env.esi (s.outs + i)) k = cell msg.buf j

/-- The rounds use the buffer only: a read always, a write if `ESI` points into it. -/
theorem Rounds.in_buffer {t : Hdd} {log : List HddEvent} {n : ℕ}
    (rounds : Rounds env msg msg.buf n s t log) (size : msg.cnt.toNat = 512 * n) :
    (∀ x, Touches log x → ∃ k < msg.cnt.toNat, x = cell msg.buf k) ↔
      msg.type = msgDevRead ∨ EsiInBuffer env s msg := by
  have sectors : msg.cnt.toNat / 512 = n := by omega
  unfold EsiInBuffer
  rw [sectors]
  by_cases read : msg.type = msgDevRead
  · refine iff_of_true (fun x used => ?_) (.inl read)
    obtain ⟨i, inside, k, small, rfl⟩ := (rounds.touches x).mp used
    rw [roundAddr, if_pos read, cell_cell]
    exact ⟨512 * i + k, by omega, rfl⟩
  · rw [or_iff_right read]
    have here : ∀ i, roundAddr env msg msg.buf s.outs i = env.esi (s.outs + i) := fun i => if_neg read
    constructor
    · intro inside i early k small
      exact inside _ ((rounds.touches _).mpr ⟨i, early, k, small, by rw [here]⟩)
    · intro inside x used
      obtain ⟨i, early, k, small, rfl⟩ := (rounds.touches x).mp used
      rw [here]
      exact inside i early k small

/-- Blocks of a sector add up. -/
theorem sectorBlocks_sum (a : Addr) (n : ℕ) :
    ((sectorBlocks a n).map (BitVec.toNat ∘ Prod.snd)).sum = 512 * n := by
  have sizes : (sectorBlocks a n).map (BitVec.toNat ∘ Prod.snd) = List.replicate n 512 := by
    rw [sectorBlocks, List.map_map]
    refine List.eq_replicate_iff.mpr ⟨by rw [List.length_map, List.length_range], ?_⟩
    intro size member
    obtain ⟨i, -, rfl⟩ := List.mem_map.mp member
    rfl
  rw [sizes, List.sum_replicate_nat, Nat.mul_comm]

/-- **The loop moves exactly the bytes asked for if and only if `CNT` is whole sectors** and, for a write,
`ESI` points into the buffer. -/
theorem transfer_exact_iff (env : HddEnv) (ready : env.Ready) (s : Hdd) (msg : Message)
    (nonneg : 0 ≤ msg.cnt.toInt) :
    TransfersExactly env s msg ↔
      msg.cnt.toInt % 512 = 0 ∧ (msg.type = msgDevRead ∨ EsiInBuffer env s msg) := by
  have signed := BitVec.toInt_eq_toNat_cond msg.cnt
  have bounded := msg.cnt.isLt
  by_cases whole : msg.cnt.toInt % 512 = 0
  · obtain ⟨n, small, cnt⟩ := cnt_sectors nonneg whole
    have size : msg.cnt.toNat = 512 * n := by rw [cnt, toNat_sectorsLeft small]
    have enough : n < transferFuel := by
      unfold transferFuel
      omega
    obtain ⟨log, t, gives, rounds⟩ := transferLoop_rounds msg ready n small enough msg.buf s
    rw [← cnt] at gives
    rw [and_iff_right whole, ← rounds.in_buffer size]
    constructor
    · rintro ⟨log', t', gives', -, -, -, inside, -⟩
      obtain rfl : log = log' := gives.accesses.symm.trans gives'.accesses
      exact inside
    · intro inside
      refine ⟨log, t, gives, ?_, ?_, ?_, inside, size ▸ rounds.kept⟩
      · rw [rounds.blocks, sectorBlocks, List.length_map, List.length_range]
        omega
      · intro block member
        rw [rounds.blocks] at member
        obtain ⟨i, inside, rfl⟩ := List.mem_map.mp member
        have early := List.mem_range.mp inside
        refine ⟨show 0 < sectorSize.toInt by decide, 512 * i, rfl, ?_⟩
        show 512 * i + 512 ≤ _
        omega
      · rw [rounds.blocks, sectorBlocks_sum, size]
  · refine iff_of_false ?_ fun both => whole both.1
    rintro ⟨log, t, gives, -⟩
    exact transferLoop_endless (by omega) _ _ s t gives.outcome

theorem transfer_exact_two : TransfersExactly plainEnv blankHdd (diskRequest msgDevRead 0 1024) :=
  (transfer_exact_iff plainEnv plainEnv_responsive.ready blankHdd (diskRequest msgDevRead 0 1024)
    (by decide)).mpr ⟨by decide, .inl rfl⟩

/-- **A request for one byte never ends.** -/
theorem transfer_never_ends : ¬ TransfersExactly plainEnv blankHdd (diskRequest msgDevRead 0 1) := by
  rintro ⟨log, t, gives, -⟩
  exact transferLoop_endless (by decide) _ _ blankHdd t gives.outcome

/-! ### The sector count -/

/-- The count in the command block. -/
theorem toNat_nSector (drive : Int) (sectNum : BitVec 32) {n : ℕ} (small : n < 2 ^ 22)
    (cnt : msg.cnt = sectorsLeft n) : (transferCmd msg drive sectNum).nSector.toNat = n % 256 := by
  have sum : (msg.cnt + sectorSize - 1).toNat = 512 * n + 511 := by
    have size : sectorSize.toNat = 512 := rfl
    have one : (1 : BitVec 32).toNat = 1 := rfl
    rw [BitVec.toNat_sub, BitVec.toNat_add, cnt, toNat_sectorsLeft small, size, one]
    omega
  have positive : (msg.cnt + sectorSize - 1).msb = false := by
    rw [BitVec.msb_eq_false_iff_two_mul_lt, sum]
    omega
  have divisor : sectorSize.msb = false := by decide
  show (((msg.cnt + sectorSize - 1).sdiv sectorSize).setWidth 8).toNat = n % 256
  rw [BitVec.sdiv_eq, positive, divisor]
  show (((msg.cnt + sectorSize - 1).udiv sectorSize).setWidth 8).toNat = n % 256
  have size : sectorSize.toNat = 512 := rfl
  rw [BitVec.toNat_setWidth, BitVec.udiv_eq, BitVec.toNat_udiv, sum, size]
  omega

theorem transferCmd_sectors (drive : Int) (sectNum : BitVec 32) {n : ℕ} (small : n < 2 ^ 22)
    (cnt : msg.cnt = sectorsLeft n) :
    (transferCmd msg drive sectNum).sectors = if n % 256 = 0 then 256 else n % 256 := by
  have count := toNat_nSector drive sectNum small cnt
  rw [HddCmd.sectors, count]
  refine if_congr ?_ rfl rfl
  rw [BitVec.toNat_eq, count]
  rfl

/-- **The drive is asked for the sectors that the loop moves.** -/
def SectorsAgree (env : HddEnv) (s : Hdd) (msg : Message) (cmd : HddCmd) : Prop :=
  ∃ log t, (Traced.loop .endless (transferRound env msg) transferFuel
    ⟨msg.cnt, msg.buf, s⟩).Gives log t ∧ cmd.sectors = sectorsMoved log

/-- **The counts agree if and only if there are at most 256 sectors**, whatever the drive and the
sector number. -/
theorem sector_count_iff (env : HddEnv) (ready : env.Ready) (s : Hdd) (msg : Message)
    (drive : Int) (sectNum : BitVec 32) (positive : 0 < msg.cnt.toInt)
    (whole : msg.cnt.toInt % 512 = 0) :
    SectorsAgree env s msg (transferCmd msg drive sectNum) ↔ msg.cnt.toInt ≤ 256 * 512 := by
  have signed := BitVec.toInt_eq_toNat_cond msg.cnt
  obtain ⟨n, small, cnt⟩ := cnt_sectors positive.le whole
  have size : msg.cnt.toNat = 512 * n := by rw [cnt, toNat_sectorsLeft small]
  have enough : n < transferFuel := by
    unfold transferFuel
    omega
  obtain ⟨log, t, gives, rounds⟩ := transferLoop_rounds msg ready n small enough msg.buf s
  rw [← cnt] at gives
  have same : SectorsAgree env s msg (transferCmd msg drive sectNum) ↔
      (transferCmd msg drive sectNum).sectors = n := by
    constructor
    · rintro ⟨log', t', gives', agree⟩
      rw [agree, ← gives'.accesses, gives.accesses, rounds.sectors]
    · exact fun agree => ⟨log, t, gives, agree.trans rounds.sectors.symm⟩
  rw [same, transferCmd_sectors drive sectNum small cnt]
  split <;> omega

theorem sector_count_most : SectorsAgree plainEnv blankHdd (diskRequest msgDevRead 0 131072)
    (transferCmd (diskRequest msgDevRead 0 131072) 0 63) :=
  (sector_count_iff plainEnv plainEnv_responsive.ready blankHdd (diskRequest msgDevRead 0 131072) 0 63
    (by decide) (by decide)).mpr (by decide)

/-- **257 sectors are asked for as one.** -/
theorem sector_count_wraps : ¬ SectorsAgree plainEnv blankHdd (diskRequest msgDevRead 0 131584)
    (transferCmd (diskRequest msgDevRead 0 131584) 0 63) := by
  rintro ⟨log, t, gives, agree⟩
  have ready := plainEnv_responsive.ready
  have cnt : (diskRequest msgDevRead 0 131584).cnt = sectorsLeft 257 := by decide
  have enough : 257 < transferFuel := by decide
  obtain ⟨log', t', gives', rounds⟩ := transferLoop_rounds (diskRequest msgDevRead 0 131584)
    ready 257 (by decide) enough (diskRequest msgDevRead 0 131584).buf blankHdd
  rw [← cnt] at gives'
  rw [← gives.accesses, gives'.accesses, rounds.sectors] at agree
  exact absurd agree (by decide)

end WalOS
