/-
**Paging** (`SetupPageMechanism` of `loader.s`).

* `fillEntries_at`, `fillEntries_off` — a fill loop leaves consecutive entries, a page apart, and nothing
  else.
* `Entry` is an entry for a page with all flags set; `walk_entry` — the two-level walk over such entries.
* `paging_identity` — **for every size of the memory, every address below it maps to itself**, present,
  writable and for users.
-/

import WalOS.Boot.Loader

namespace WalOS

open Bytes

/-! ### The code -/

def pageDirBase : BitVec 32 := 0x100000
def pageTblBase : BitVec 32 := 0x101000

/-- `PG_P`, `PG_RWW` and `PG_USU`. -/
def pgP : BitVec 32 := 1
def pgRww : BitVec 32 := 2
def pgUsu : BitVec 32 := 4

/-- What `SetupPageMechanism` works on. The variables of the loader are apart from the tables. -/
structure Protected where
  memSize : BitVec 32
  pageTblCnt : BitVec 32
  cr0 : BitVec 32
  cr3 : BitVec 32
  mem : Mem

/-- The loops `init_dir` and `init_tbl`: `stosl`, and on to the next page. -/
def fillEntries : ℕ → BitVec 32 → BitVec 32 → Mem → Mem
  | 0, _, _, m => m
  | left + 1, edi, eax, m => fillEntries left (edi + 4) (eax + 4096) (store32 m edi.toNat eax)

/-- `PageTblCnt`: the quotient of `div`, one more if there is a remainder. -/
def tableCount (memSize : BitVec 32) : BitVec 32 :=
  if memSize % 0x400000 = 0 then memSize / 0x400000 else memSize / 0x400000 + 1

def setupPageMechanism (s : Protected) : Protected :=
  let ecx := tableCount s.memSize
  let mem := fillEntries (rounds ecx) pageDirBase (pageTblBase ||| pgP ||| pgUsu ||| pgRww) s.mem
  -- the low word of the product
  let mem := fillEntries (rounds (ecx * 1024)) pageTblBase (pgP ||| pgUsu ||| pgRww) mem
  { s with pageTblCnt := ecx, cr0 := s.cr0 ||| 0x80000000, cr3 := pageDirBase, mem := mem }

/-! ### The hardware -/

/-- The frame in an entry. -/
def frame (entry : BitVec 32) : BitVec 32 := entry &&& 0xfffff000

/-- **The two-level walk**: the physical address and the flags `PG_RWW` and `PG_USU` of both levels. -/
def walk (m : Mem) (cr3 linearAddr : BitVec 32) : Option (BitVec 32 × BitVec 32) :=
  let pde := load32 m (frame cr3 + (linearAddr >>> 22) <<< 2).toNat
  let pte := load32 m (frame pde + ((linearAddr >>> 12) &&& 0x3ff) <<< 2).toNat
  if pde &&& pte &&& pgP = 0 then none
  else some (frame pte ||| (linearAddr &&& 0xfff), pde &&& pte &&& (pgRww ||| pgUsu))

/-! ### Fill loops -/

variable {m : Mem} {edi eax : BitVec 32} {count x : ℕ}

theorem toNat_edi_next (room : edi.toNat + 4 * (count + 1) ≤ 2 ^ 32) (more : 0 < count) :
    (edi + 4).toNat = edi.toNat + 4 := by
  have four : (4 : BitVec 32).toNat = 4 := rfl
  rw [BitVec.toNat_add, four]
  omega

theorem fillEntries_off (room : edi.toNat + 4 * count ≤ 2 ^ 32)
    (off : x < edi.toNat ∨ edi.toNat + 4 * count ≤ x) : fillEntries count edi eax m x = m x := by
  induction count generalizing edi eax m with
  | zero => rfl
  | succ count ih =>
    have here : store32 m edi.toNat eax x = m x := store32_off (by omega)
    rcases Nat.eq_zero_or_pos count with rfl | more
    · exact here
    · have next := toNat_edi_next room more
      rw [fillEntries, ih (by omega) (by omega), here]

theorem load32_fillEntries_off (room : edi.toNat + 4 * count ≤ 2 ^ 32)
    (off : x + 4 ≤ edi.toNat ∨ edi.toNat + 4 * count ≤ x) :
    load32 (fillEntries count edi eax m) x = load32 m x :=
  load32_congr fun k small => fillEntries_off room (by omega)

/-- **The entries of a fill loop.** -/
theorem fillEntries_at (room : edi.toNat + 4 * count ≤ 2 ^ 32) {k : ℕ} (inside : k < count) :
    load32 (fillEntries count edi eax m) (edi.toNat + 4 * k) = eax + BitVec.ofNat 32 (4096 * k) := by
  induction count generalizing edi eax m k with
  | zero => exact absurd inside (Nat.not_lt_zero k)
  | succ count ih =>
    rw [fillEntries]
    rcases Nat.eq_zero_or_pos k with rfl | later
    · have kept : load32 (fillEntries count (edi + 4) (eax + 4096) (store32 m edi.toNat eax)) edi.toNat =
          load32 (store32 m edi.toNat eax) edi.toNat := by
        rcases Nat.eq_zero_or_pos count with rfl | more
        · rfl
        · have next := toNat_edi_next room more
          exact load32_fillEntries_off (by omega) (.inl (Nat.le_of_eq next.symm))
      exact (kept.trans (load32_store32 eax)).trans (BitVec.add_zero eax).symm
    · obtain ⟨k, rfl⟩ := Nat.exists_eq_add_one_of_ne_zero (Nat.ne_of_gt later)
      have next := toNat_edi_next room (by omega)
      have place : edi.toNat + 4 * (k + 1) = (edi + 4).toNat + 4 * k := by omega
      have step : (4096 : BitVec 32) + BitVec.ofNat 32 (4096 * k) = BitVec.ofNat 32 (4096 * (k + 1)) := by
        rw [Nat.mul_succ, Nat.add_comm, BitVec.ofNat_add]
        rfl
      rw [place, ih (by omega) (by omega), BitVec.add_assoc, step]

/-! ### Entries -/

/-- **An entry for a page**, with all flags set. -/
def Entry (entry : BitVec 32) (page : ℕ) : Prop := entry.toNat = 4096 * page + 7

theorem toNat_frame (entry : BitVec 32) : (frame entry).toNat = 4096 * (entry.toNat / 4096) := by
  have mask : ∀ i < 32, (0xfffff000 : BitVec 32).getLsbD i = decide (12 ≤ i) := by decide
  have shifts : frame entry = (entry >>> 12) <<< 12 := by
    refine BitVec.eq_of_getLsbD_eq fun i inside => ?_
    rw [frame, BitVec.getLsbD_and, mask i inside, BitVec.getLsbD_shiftLeft, BitVec.getLsbD_ushiftRight,
      decide_eq_true inside, Bool.true_and, Bool.and_comm]
    by_cases low : i < 12
    · rw [decide_eq_false (by omega), decide_eq_true low]
      rfl
    · rw [decide_eq_true (by omega), decide_eq_false low, Nat.add_sub_cancel' (by omega)]
      rfl
  have small := entry.isLt
  rw [shifts, BitVec.toNat_shiftLeft, BitVec.toNat_ushiftRight, Nat.shiftLeft_eq,
    Nat.shiftRight_eq_div_pow]
  omega

theorem Entry.frame {entry : BitVec 32} {page : ℕ} (holds : Entry entry page) :
    (frame entry).toNat = 4096 * page := by
  have value : entry.toNat = 4096 * page + 7 := holds
  rw [toNat_frame]
  omega

/-- All flags are set. -/
theorem Entry.flags {entry : BitVec 32} {page : ℕ} (holds : Entry entry page) : entry &&& 7 = 7 := by
  have value : entry.toNat = 4096 * page + 7 := holds
  refine BitVec.eq_of_toNat_eq ?_
  have mask : (7 : BitVec 32).toNat = 2 ^ 3 - 1 := rfl
  rw [BitVec.toNat_and, mask, Nat.and_two_pow_sub_one_eq_mod]
  omega

/-- **The walk over two entries.** -/
theorem walk_entry {cr3 linearAddr pde pte : BitVec 32} {page page' : ℕ}
    (dir : load32 m (WalOS.frame cr3 + (linearAddr >>> 22) <<< 2).toNat = pde)
    (tbl : load32 m (WalOS.frame pde + ((linearAddr >>> 12) &&& 0x3ff) <<< 2).toNat = pte)
    (upper : Entry pde page) (lower : Entry pte page') (same : page' = linearAddr.toNat / 4096) :
    walk m cr3 linearAddr = some (linearAddr, pgRww ||| pgUsu) := by
  have all : pde &&& pte &&& 7 = 7 := by rw [BitVec.and_assoc, lower.flags, upper.flags]
  have flags : ∀ mask : BitVec 32, 7 &&& mask = mask → pde &&& pte &&& mask = mask := by
    intro mask part
    rw [← part, ← BitVec.and_assoc, all]
  have address : WalOS.frame pte ||| (linearAddr &&& 0xfff) = linearAddr := by
    refine BitVec.eq_of_toNat_eq ?_
    have mask : (0xfff : BitVec 32).toNat = 2 ^ 12 - 1 := rfl
    have low : linearAddr.toNat % 2 ^ 12 < 2 ^ 12 := Nat.mod_lt _ (by decide)
    have join := Nat.two_pow_add_eq_or_of_lt low (linearAddr.toNat / 2 ^ 12)
    rw [BitVec.toNat_or, BitVec.toNat_and, mask, Nat.and_two_pow_sub_one_eq_mod, lower.frame, same]
    exact join.symm.trans (Nat.div_add_mod _ _)
  unfold walk
  dsimp only
  rw [dir, tbl, flags pgP (by decide), flags (pgRww ||| pgUsu) (by decide), address]
  exact if_neg (by decide)

/-! ### The tables -/

/-- The number of tables is the memory in units of 4 MiB, rounded up. -/
theorem toNat_tableCount (memSize : BitVec 32) :
    (tableCount memSize).toNat = (memSize.toNat + (2 ^ 22 - 1)) / 2 ^ 22 := by
  have unit : (0x400000 : BitVec 32).toNat = 2 ^ 22 := rfl
  have one : (1 : BitVec 32).toNat = 1 := rfl
  have small := memSize.isLt
  unfold tableCount
  split
  · rename_i whole
    have none : memSize.toNat % 2 ^ 22 = 0 := congrArg BitVec.toNat whole
    rw [BitVec.toNat_udiv, unit]
    omega
  · rename_i part
    have some : memSize.toNat % 2 ^ 22 ≠ 0 := fun none => part (BitVec.eq_of_toNat_eq none)
    rw [BitVec.toNat_add, BitVec.toNat_udiv, unit, one]
    omega

theorem rounds_eq {ecx : BitVec 32} (positive : 0 < ecx.toNat) : rounds ecx = ecx.toNat := by
  have one : (1 : BitVec 32).toNat = 1 := rfl
  have small := ecx.isLt
  rw [rounds, BitVec.toNat_sub, one]
  omega

variable {s : Protected}

/-- The tables fit in the address space. -/
theorem tableCount_bounds (nonzero : s.memSize ≠ 0) : 0 < (tableCount s.memSize).toNat ∧
    (tableCount s.memSize).toNat ≤ 1024 ∧
    s.memSize.toNat ≤ (tableCount s.memSize).toNat * 2 ^ 22 := by
  have positive : s.memSize.toNat ≠ 0 := fun zero => nonzero (BitVec.eq_of_toNat_eq zero)
  have small := s.memSize.isLt
  rw [toNat_tableCount]
  omega

/-- The memory that is left. -/
theorem setupPageMechanism_mem (nonzero : s.memSize ≠ 0) : (setupPageMechanism s).mem =
    fillEntries (1024 * (tableCount s.memSize).toNat) pageTblBase 7
      (fillEntries (tableCount s.memSize).toNat pageDirBase 0x101007 s.mem) := by
  obtain ⟨positive, most, -⟩ := tableCount_bounds nonzero
  have entries : (tableCount s.memSize * 1024).toNat = 1024 * (tableCount s.memSize).toNat := by
    have factor : (1024 : BitVec 32).toNat = 1024 := rfl
    rw [BitVec.toNat_mul, factor]
    omega
  have tables : rounds (tableCount s.memSize * 1024) = 1024 * (tableCount s.memSize).toNat :=
    (rounds_eq (by omega)).trans entries
  show fillEntries (rounds (tableCount s.memSize * 1024)) pageTblBase _
    (fillEntries (rounds (tableCount s.memSize)) pageDirBase _ s.mem) = _
  rw [tables, rounds_eq positive]
  rfl

/-- **The page directory.** -/
theorem setup_dir (nonzero : s.memSize ≠ 0) {i : ℕ} (inside : i < (tableCount s.memSize).toNat) :
    Entry (load32 (setupPageMechanism s).mem (pageDirBase.toNat + 4 * i)) (0x101 + i) := by
  obtain ⟨-, most, -⟩ := tableCount_bounds nonzero
  have dir : pageDirBase.toNat = 0x100000 := rfl
  have tbl : pageTblBase.toNat = 0x101000 := rfl
  rw [setupPageMechanism_mem nonzero, load32_fillEntries_off (by omega) (.inl (by omega)),
    fillEntries_at (by omega) inside]
  show (0x101007 + BitVec.ofNat 32 (4096 * i)).toNat = _
  have start : (0x101007 : BitVec 32).toNat = 0x101007 := rfl
  rw [BitVec.toNat_add, BitVec.toNat_ofNat, start]
  omega

/-- **The page tables.** -/
theorem setup_tbl (nonzero : s.memSize ≠ 0) {k : ℕ} (inside : k < 1024 * (tableCount s.memSize).toNat) :
    Entry (load32 (setupPageMechanism s).mem (pageTblBase.toNat + 4 * k)) k := by
  obtain ⟨-, most, -⟩ := tableCount_bounds nonzero
  have tbl : pageTblBase.toNat = 0x101000 := rfl
  rw [setupPageMechanism_mem nonzero, fillEntries_at (by omega) inside]
  show (7 + BitVec.ofNat 32 (4096 * k)).toNat = _
  have start : (7 : BitVec 32).toNat = 7 := rfl
  rw [BitVec.toNat_add, BitVec.toNat_ofNat, start]
  omega

/-- **Every address that the tables reach maps to itself.** -/
theorem setup_walk (nonzero : s.memSize ≠ 0) {linearAddr : BitVec 32}
    (reached : linearAddr.toNat < (tableCount s.memSize).toNat * 2 ^ 22) :
    walk (setupPageMechanism s).mem (setupPageMechanism s).cr3 linearAddr =
      some (linearAddr, pgRww ||| pgUsu) := by
  have bounded := linearAddr.isLt
  have row : linearAddr.toNat / 2 ^ 22 < (tableCount s.memSize).toNat :=
    Nat.div_lt_of_lt_mul (by rwa [Nat.mul_comm])
  have column : linearAddr.toNat / 4096 < 1024 * (tableCount s.memSize).toNat := by omega
  have upper := setup_dir nonzero row
  have lower := setup_tbl nonzero column
  have dirAt : (frame pageDirBase + (linearAddr >>> 22) <<< 2).toNat =
      pageDirBase.toNat + 4 * (linearAddr.toNat / 2 ^ 22) := by
    have base : frame pageDirBase = pageDirBase := by decide
    have dir : pageDirBase.toNat = 0x100000 := rfl
    rw [base, BitVec.toNat_add, BitVec.toNat_shiftLeft, BitVec.toNat_ushiftRight, Nat.shiftLeft_eq,
      Nat.shiftRight_eq_div_pow, dir]
    omega
  have tblAt : (frame (load32 (setupPageMechanism s).mem
      (pageDirBase.toNat + 4 * (linearAddr.toNat / 2 ^ 22))) +
      ((linearAddr >>> 12) &&& 0x3ff) <<< 2).toNat =
        pageTblBase.toNat + 4 * (linearAddr.toNat / 4096) := by
    have mask : (0x3ff : BitVec 32).toNat = 2 ^ 10 - 1 := rfl
    have tbl : pageTblBase.toNat = 0x101000 := rfl
    rw [BitVec.toNat_add, upper.frame, BitVec.toNat_shiftLeft, BitVec.toNat_and,
      BitVec.toNat_ushiftRight, mask, Nat.and_two_pow_sub_one_eq_mod, Nat.shiftLeft_eq,
      Nat.shiftRight_eq_div_pow, tbl]
    omega
  exact walk_entry (by rw [← dirAt]; rfl) (by rw [tblAt]) upper lower rfl

/-- **Paging is an identity map of the memory.** For every size of the memory but 0: the directory gets
as many entries as the memory has units of 4 MiB, rounded up and at most 1024, the tables 1024 for each;
nothing else in memory changes; and the walk maps every address below them, so every address of the
memory, to itself, present, writable and for users. -/
theorem paging_identity (s : Protected) (nonzero : s.memSize ≠ 0) :
    ∃ n, (setupPageMechanism s).pageTblCnt.toNat = n ∧ n = (s.memSize.toNat + (2 ^ 22 - 1)) / 2 ^ 22 ∧
      n ≤ 1024 ∧ s.memSize.toNat ≤ n * 2 ^ 22 ∧
      (∀ i < n, Entry (load32 (setupPageMechanism s).mem (pageDirBase.toNat + 4 * i)) (0x101 + i)) ∧
      (∀ k < 1024 * n, Entry (load32 (setupPageMechanism s).mem (pageTblBase.toNat + 4 * k)) k) ∧
      (∀ x, (x < pageDirBase.toNat ∨ pageDirBase.toNat + 4 * n ≤ x) →
        (x < pageTblBase.toNat ∨ pageTblBase.toNat + 4096 * n ≤ x) →
        (setupPageMechanism s).mem x = s.mem x) ∧
      ∀ linearAddr : BitVec 32, linearAddr.toNat < n * 2 ^ 22 →
        walk (setupPageMechanism s).mem (setupPageMechanism s).cr3 linearAddr =
          some (linearAddr, pgRww ||| pgUsu) := by
  obtain ⟨-, most, covers⟩ := tableCount_bounds nonzero
  refine ⟨(tableCount s.memSize).toNat, rfl, toNat_tableCount _, most, covers,
    fun i inside => setup_dir nonzero inside, fun k inside => setup_tbl nonzero inside, fun x dir tbl => ?_,
    fun linearAddr reached => setup_walk nonzero reached⟩
  have dirBase : pageDirBase.toNat = 0x100000 := rfl
  have tblBase : pageTblBase.toNat = 0x101000 := rfl
  have upper : x < pageTblBase.toNat ∨
      pageTblBase.toNat + 4 * (1024 * (tableCount s.memSize).toNat) ≤ x := by omega
  rw [setupPageMechanism_mem nonzero, fillEntries_off (by omega) upper, fillEntries_off (by omega) dir]

/-- A machine with 32 MiB and one byte more. -/
theorem paging_identity_odd : walk (setupPageMechanism ⟨0x2000001, 0, 0, 0, fun _ => 0⟩).mem
    (setupPageMechanism ⟨0x2000001, 0, 0, 0, fun _ => 0⟩).cr3 0x2000000 =
      some (0x2000000, pgRww ||| pgUsu) := by
  obtain ⟨n, count, size, -, -, -, -, -, maps⟩ :=
    paging_identity ⟨0x2000001, 0, 0, 0, fun _ => 0⟩ (by decide)
  refine maps 0x2000000 ?_
  rw [size]
  decide

end WalOS
