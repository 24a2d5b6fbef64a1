/-
**The search of the root directory** (`search_loader_in_root_dir` of `boot.s`, `search_kernel_in_root_dir`
of `loader.s`).

Three loops: over the sectors of the directory, with a counter in memory; over the 16 entries of a
sector, with a counter in `dx`; and over the characters of the name, with a counter in `cx`. `di` is
moved along the name and brought back to its entry by a mask.

* `RootSearch` — the registers, the pointer `si` into the name, and the two variables.
* `compare_searches` — the name is compared up to the first character that differs.
* `entry_searches` — the entries of a sector are looked at up to the first that has the name.
* `sector_searches` — a sector is read for each round, up to the first that has such an entry.
* `root_search_exact` — **the search finds the first entry that has the name**, or reads each of the 14
  sectors once and finds none.
-/

import WalOS.Boot.Chain
import WalOS.Lib.Search

namespace WalOS

open Bytes Fat12

/-! ### The code -/

/-- `SecNoOfRootDir`. -/
def secNoOfRootDir : BitVec 16 := 19

def ascii (c : Char) : BitVec 8 := BitVec.ofNat 8 c.toNat

/-- `LoaderName` and `KernelName`. -/
def Loader.fileName : Loader → List (BitVec 8)
  | boot => ['L', 'O', 'A', 'D', 'E', 'R', ' ', ' ', 'B', 'I', 'N'].map ascii
  | loader => ['K', 'E', 'R', 'N', 'E', 'L', ' ', ' ', 'B', 'I', 'N'].map ascii

/-- What the search works on. `si` counts from the name, and the name ends in a NUL. -/
structure RootSearch extends Real where
  si : BitVec 16
  gSectorNo : BitVec 16
  gRootDirSizeForLoop : BitVec 16

/-- The rounds given to each loop. -/
def searchRounds : ℕ := 17

/-- One round of `compare_file_name`: whether the name is the entry's, once that is known. -/
def compareRound (l : Loader) (s : RootSearch) : Floppy (RootSearch ⊕ (Bool × RootSearch)) :=
  if s.cx = 0 then pure (.inr (true, s))
  else
    -- `lodsb`
    let al := l.fileName[s.si.toNat]?.getD 0
    let s := { s with
      cx := s.cx - 1, ax := (s.ax &&& 0xff00) ||| al.setWidth 16, si := s.si + 1 }
    if al = s.mem (linear s.es s.di) then pure (.inl { s with di := s.di + 1 })
    else pure (.inr (false, s))

/-- One round of `search_for_loader_bin`, with `file_name_not_match` at its end. -/
def entryRound (l : Loader) (s : RootSearch) : Floppy (RootSearch ⊕ (Bool × RootSearch)) :=
  if s.dx = 0 then pure (.inr (false, s))
  else do
    let s := { s with dx := s.dx - 1, cx := 11 }
    let (same, s) ← Traced.loop .endless (compareRound l) searchRounds s
    if same then pure (.inr (true, s))
    else pure (.inl { s with di := (s.di &&& 0xffe0) + 0x20, si := 0 })

/-- One round of `search_loader_in_root_dir`, with `next_sector_in_root_dir` at its end. -/
def sectorRound (l : Loader) (disk : Disk) (s : RootSearch) :
    Floppy (RootSearch ⊕ (Bool × RootSearch)) :=
  if s.gRootDirSizeForLoop = 0 then pure (.inr (false, s))
  else do
    let s := { s with
      gRootDirSizeForLoop := s.gRootDirSizeForLoop - 1, es := l.base, bx := l.offset
      ax := s.gSectorNo, cx := (s.cx &&& 0xff00) ||| 1 }
    let read ← readSector disk s.toReal
    let s := { s with toReal := { read with di := l.offset, dx := 0x10 }, si := 0 }
    let (found, s) ← Traced.loop .endless (entryRound l) searchRounds s
    if found then pure (.inr (true, s))
    else pure (.inl { s with gSectorNo := s.gSectorNo + 1 })

/-- The search: whether it goes to `file_name_found`. -/
def searchRootDir (l : Loader) (disk : Disk) (s : Real) : Floppy (Bool × RootSearch) :=
  Traced.loop .endless (sectorRound l disk) searchRounds
    { s with si := 0, gSectorNo := secNoOfRootDir, gRootDirSizeForLoop := rootDirSectors }

/-! ### The directory -/

/-- The entries of the directory. -/
def rootEntCnt : ℕ := 224

/-- A byte of an entry. -/
def dirEntry (disk : Disk) (i b : ℕ) : BitVec 8 := disk (19 + i / 16) (32 * (i % 16) + b)

/-- **The entry has the name.** -/
def Named (l : Loader) (disk : Disk) (i : ℕ) : Prop :=
  ∀ b < 11, dirEntry disk i b = l.fileName[b]?.getD 0

/-- The word at offset `0x1a` of an entry: its first cluster. -/
def dirFstClus (disk : Disk) (i : ℕ) : BitVec 16 := dirEntry disk i 0x1b ++ dirEntry disk i 0x1a

variable {l : Loader} {disk : Disk} {s : RootSearch}

/-! ### Offsets -/

/-- The offset of a byte of the sector in memory. -/
def Loader.at (l : Loader) (n : ℕ) : BitVec 16 := l.offset + BitVec.ofNat 16 n

theorem toNat_at (l : Loader) {n : ℕ} (inside : n ≤ 0x400) :
    (l.at n).toNat = l.offset.toNat + n := by
  have offset : l.offset.toNat ≤ 0x100 := by cases l <;> decide
  rw [Loader.at, BitVec.toNat_add, BitVec.toNat_ofNat, Nat.mod_eq_of_lt (a := n) (by omega)]
  exact Nat.mod_eq_of_lt (by omega)

theorem at_add (l : Loader) (n k : ℕ) : l.at n + BitVec.ofNat 16 k = l.at (n + k) := by
  rw [Loader.at, Loader.at, BitVec.ofNat_add, BitVec.add_assoc]

theorem linear_at (l : Loader) {n : ℕ} (inside : n ≤ 0x400) :
    linear l.base (l.at n) = linear l.base l.offset + n := by
  rw [linear, toNat_at l inside, linear, Nat.add_assoc]

/-- The mask takes an offset back to its entry. -/
theorem at_mask (l : Loader) {e k : ℕ} (entry : e < 16) (inside : k < 32) :
    l.at (32 * e + k) &&& 0xffe0 = l.at (32 * e) := by
  have mask : ∀ w : BitVec 16, w &&& (0xffe0 : BitVec 16) = (w >>> 5) <<< 5 := by
    have bits : ∀ i < 16, (0xffe0 : BitVec 16).getLsbD i = decide (5 ≤ i) := by decide
    intro w
    refine BitVec.eq_of_getLsbD_eq fun i inside => ?_
    rw [BitVec.getLsbD_and, bits i inside, BitVec.getLsbD_shiftLeft, BitVec.getLsbD_ushiftRight,
      decide_eq_true inside, Bool.true_and, Bool.and_comm]
    by_cases low : i < 5
    · rw [decide_eq_false (by omega), decide_eq_true low]
      rfl
    · rw [decide_eq_true (by omega), decide_eq_false low, Nat.add_sub_cancel' (by omega)]
      rfl
  have aligned : l.offset.toNat % 32 = 0 := by cases l <;> decide
  have offset : l.offset.toNat ≤ 0x100 := by cases l <;> decide
  refine BitVec.eq_of_toNat_eq ?_
  rw [mask, BitVec.toNat_shiftLeft, BitVec.toNat_ushiftRight, toNat_at l (by omega),
    toNat_at l (by omega), Nat.shiftLeft_eq, Nat.shiftRight_eq_div_pow]
  omega

/-! ### Comparing a name -/

/-- The top of `compare_file_name`: the characters before `j` are the entry's. -/
def AtCharacter (s₀ : RootSearch) (j : ℕ) (s : RootSearch) : Prop :=
  ∃ ax, s = { s₀ with
    ax := ax, cx := BitVec.ofNat 16 (11 - j)
    si := BitVec.ofNat 16 j, di := s₀.di + BitVec.ofNat 16 j }

/-- What the comparison leaves: `di` in the entry. -/
def Compared (s₀ : RootSearch) (same : Bool) (r : Bool × RootSearch) : Prop :=
  ∃ ax cx si, ∃ k ≤ 11, r = (same, { s₀ with
    ax := ax, cx := cx, si := si, di := s₀.di + BitVec.ofNat 16 k })

/-- The character of the name is not the entry's. -/
def Differs (l : Loader) (s₀ : RootSearch) (j : ℕ) : Prop :=
  l.fileName[j]?.getD 0 ≠ s₀.mem (linear s₀.es (s₀.di + BitVec.ofNat 16 j))

theorem compare_searches (l : Loader) (s₀ : RootSearch) :
    Traced.Searches (compareRound l) 11 (Differs l s₀) (fun _ => []) (AtCharacter s₀)
      (fun _ => Compared s₀ false) (Compared s₀ true) := by
  have index : ∀ j < 11, (BitVec.ofNat 16 j).toNat = j := fun j inside => by
    rw [BitVec.toNat_ofNat]
    omega
  have further : ∀ j, BitVec.ofNat 16 j + 1 = BitVec.ofNat 16 (j + 1) := fun j =>
    (BitVec.ofNat_add j 1).symm
  refine ⟨?_, ?_, ?_⟩
  · rintro j inside same _ ⟨ax, rfl⟩
    have equal := not_not.mp same
    refine ⟨_, ?_, (ax &&& 0xff00) ||| (l.fileName[j]?.getD 0).setWidth 16, rfl⟩
    unfold compareRound
    dsimp only
    rw [if_neg (count_ne_zero inside (by decide)), index j inside, if_pos equal, count_down inside, further, BitVec.add_assoc,
      further]
    exact .pure _
  · rintro j inside differs _ ⟨ax, rfl⟩
    refine ⟨_, ?_, (ax &&& 0xff00) ||| (l.fileName[j]?.getD 0).setWidth 16,
      BitVec.ofNat 16 (11 - j) - 1, BitVec.ofNat 16 j + 1, j, inside.le, rfl⟩
    unfold compareRound
    dsimp only
    rw [if_neg (count_ne_zero inside (by decide)), index j inside, if_neg differs]
    exact .pure _
  · rintro _ ⟨ax, rfl⟩
    exact ⟨_, .pure _, _, _, _, 11, le_rfl, rfl⟩

/-- **`compare_file_name` compares the name**, up to the first character that differs. -/
theorem compareLoop_eq (l : Loader) {s₀ : RootSearch} (top : AtCharacter s₀ 0 s₀) :
    ∃ same r, (Traced.loop .endless (compareRound l) searchRounds s₀).Gives [] r ∧
      Compared s₀ same r ∧ (same = true ↔ ∀ j < 11, ¬ Differs l s₀ j) := by
  have enough : 11 - 0 < searchRounds := by decide
  rcases (compare_searches l s₀).loop .endless 0 (Nat.zero_le 11) enough top with
    ⟨j, r, first, runs, compared⟩ | ⟨none, r, runs, compared⟩
  · rw [Traced.searchLog_nil] at runs
    exact ⟨false, r, runs, compared, fun same => absurd same (by decide),
      fun all => absurd first.here (all j first.lt)⟩
  · rw [Traced.searchLog_nil] at runs
    exact ⟨true, r, runs, compared, fun _ j inside => none j (Nat.zero_le j) inside, fun _ => rfl⟩

/-! ### The entries of a sector -/

/-- The entry has the name, in the sector in memory. -/
def EntryNamed (l : Loader) (m : Mem) (e : ℕ) : Prop :=
  ∀ b < 11, m (linear l.base l.offset + (32 * e + b)) = l.fileName[b]?.getD 0

/-- The top of `search_for_loader_bin`. -/
structure AtEntry (l : Loader) (s₀ : RootSearch) (e : ℕ) (s : RootSearch) : Prop where
  memory : s.mem = s₀.mem
  segment : s.es = l.base
  offset : s.di = l.at (32 * e)
  name : s.si = 0
  entries : s.dx = BitVec.ofNat 16 (16 - e)
  sector : s.gSectorNo = s₀.gSectorNo
  sectors : s.gRootDirSizeForLoop = s₀.gRootDirSizeForLoop

/-- The search goes to `file_name_found` with `es:di` in an entry. -/
structure FoundEntry (l : Loader) (s₀ : RootSearch) (e : ℕ) (r : Bool × RootSearch) : Prop where
  found : r.1 = true
  memory : r.2.mem = s₀.mem
  segment : r.2.es = l.base
  offset : r.2.di &&& 0xffe0 = l.at (32 * e)

/-- The search goes to the next sector. -/
structure MissedEntries (s₀ : RootSearch) (r : Bool × RootSearch) : Prop where
  missed : r.1 = false
  sector : r.2.gSectorNo = s₀.gSectorNo
  sectors : r.2.gRootDirSizeForLoop = s₀.gRootDirSizeForLoop

theorem differs_iff {s₀ : RootSearch} {e : ℕ} (here : AtEntry l s₀ e s) (inside : e < 16) {j : ℕ}
    (name : j < 11) : Differs l s j ↔
      s₀.mem (linear l.base l.offset + (32 * e + j)) ≠ l.fileName[j]?.getD 0 := by
  rw [Differs, here.memory, here.segment, here.offset, at_add, linear_at l (by omega)]
  exact ne_comm

/-- A round, from its comparison. -/
theorem entryRound_gives {same : Bool} {s' : RootSearch} (more : s.dx ≠ 0)
    (runs : (Traced.loop .endless (compareRound l) searchRounds
      { s with dx := s.dx - 1, cx := 11 }).Gives [] (same, s')) :
    (entryRound l s).Gives [] (if same then .inr (true, s') else
      .inl { s' with di := (s'.di &&& 0xffe0) + 0x20, si := 0 }) := by
  unfold entryRound
  rw [if_neg more]
  cases same <;> exact runs.bind_nil rfl

/-- A round at an entry. -/
theorem entryRound_eq {s₀ : RootSearch} {e : ℕ} (inside : e < 16) (here : AtEntry l s₀ e s) :
    (EntryNamed l s₀.mem e ∧ ∃ r, (entryRound l s).Gives [] (.inr r) ∧ FoundEntry l s₀ e r) ∨
    (¬ EntryNamed l s₀.mem e ∧ ∃ s', (entryRound l s).Gives [] (.inl s') ∧ AtEntry l s₀ (e + 1) s') := by
  let s₁ : RootSearch := { s with dx := s.dx - 1, cx := 11 }
  have first : AtCharacter s₁ 0 s₁ := by
    have si : BitVec.ofNat 16 0 = s₁.si := here.name.symm
    have di : s₁.di + BitVec.ofNat 16 0 = s₁.di := BitVec.add_zero _
    refine ⟨s₁.ax, ?_⟩
    rw [di, si]
    rfl
  obtain ⟨same, r, runs, ⟨ax, cx, si, k, few, rfl⟩, equal⟩ := compareLoop_eq l first
  have named : same = true ↔ EntryNamed l s₀.mem e :=
    equal.trans (forall_congr' fun j => forall_congr' fun name =>
      (not_congr (differs_iff here inside name)).trans not_not)
  have mask : s₁.di + BitVec.ofNat 16 k &&& 0xffe0 = l.at (32 * e) := by
    show s.di + BitVec.ofNat 16 k &&& 0xffe0 = _
    rw [here.offset, at_add, at_mask l inside (by omega)]
  have entries : s.dx ≠ 0 := here.entries ▸ count_ne_zero inside (by decide)
  cases same with
  | true =>
    exact .inl ⟨named.mp rfl, _, entryRound_gives entries runs, rfl, here.memory, here.segment, mask⟩
  | false =>
    refine .inr ⟨fun has => absurd (named.mpr has) (by decide), _, entryRound_gives entries runs,
      here.memory, here.segment, ?_, rfl, ?_, here.sector, here.sectors⟩
    · show (s₁.di + BitVec.ofNat 16 k &&& 0xffe0) + 0x20 = _
      rw [mask, Nat.mul_succ]
      exact at_add l (32 * e) 32
    · show s.dx - 1 = _
      rw [here.entries, count_down inside]

theorem entry_searches (l : Loader) (s₀ : RootSearch) :
    Traced.Searches (entryRound l) 16 (EntryNamed l s₀.mem) (fun _ => []) (AtEntry l s₀)
      (FoundEntry l s₀) (MissedEntries s₀) := by
  refine ⟨fun e inside other s here => ?_, fun e inside named s here => ?_, fun s here => ?_⟩
  · rcases entryRound_eq inside here with ⟨named, -⟩ | ⟨-, round⟩
    · exact absurd named other
    · exact round
  · rcases entryRound_eq inside here with ⟨-, round⟩ | ⟨other, -⟩
    · exact round
    · exact absurd named other
  · exact ⟨_, if_pos here.entries, rfl, here.sector, here.sectors⟩

/-! ### The sectors -/

/-- An entry of the sector has the name. -/
def SectorNamed (l : Loader) (disk : Disk) (k : ℕ) : Prop := ∃ e < 16, Named l disk (16 * k + e)

/-- The top of `search_loader_in_root_dir`. -/
structure AtSector (k : ℕ) (s : RootSearch) : Prop where
  sector : s.gSectorNo = BitVec.ofNat 16 (19 + k)
  sectors : s.gRootDirSizeForLoop = BitVec.ofNat 16 (14 - k)

/-- The first entry of the sector that has the name is at `es:di`. -/
def FoundInSector (l : Loader) (disk : Disk) (k : ℕ) (r : Bool × RootSearch) : Prop :=
  r.1 = true ∧ ∃ e, FirstFrom (fun e => Named l disk (16 * k + e)) 0 16 e ∧ r.2.es = l.base ∧
    r.2.di &&& 0xffe0 = l.at (32 * e) ∧
    ∀ b < 512, r.2.mem (linear l.base l.offset + b) = disk (19 + k) b

theorem entryNamed_iff {m : Mem} {k e : ℕ} (inside : e < 16)
    (read : ∀ b < 512, m (linear l.base l.offset + b) = disk (19 + k) b) :
    EntryNamed l m e ↔ Named l disk (16 * k + e) := by
  refine forall_congr' fun b => forall_congr' fun name => ?_
  have sector : (16 * k + e) / 16 = k := by omega
  have entry : (16 * k + e) % 16 = e := by omega
  rw [read _ (by omega), dirEntry, sector, entry]

/-- A round, from its read and its entries. -/
theorem sectorRound_gives {read : Real} {log : List ℕ} {found : Bool} {s' : RootSearch}
    (more : s.gRootDirSizeForLoop ≠ 0)
    (reads : (readSector disk { s.toReal with
      es := l.base, bx := l.offset, ax := s.gSectorNo, cx := (s.cx &&& 0xff00) ||| 1 }).Gives log read)
    (runs : (Traced.loop .endless (entryRound l) searchRounds { s with
      toReal := { read with di := l.offset, dx := 0x10 }, si := 0
      gRootDirSizeForLoop := s.gRootDirSizeForLoop - 1 }).Gives [] (found, s')) :
    (sectorRound l disk s).Gives log
      (if found then .inr (true, s') else .inl { s' with gSectorNo := s'.gSectorNo + 1 }) := by
  unfold sectorRound
  rw [if_neg more]
  cases found <;> exact reads.bind_nil (runs.bind_nil rfl)

/-- **A round reads one sector** and looks at its entries. -/
theorem sectorRound_eq (disk : Disk) {k : ℕ} (inside : k < 14) (here : AtSector k s) :
    (SectorNamed l disk k ∧
      ∃ r, (sectorRound l disk s).Gives [19 + k] (.inr r) ∧ FoundInSector l disk k r) ∨
    (¬ SectorNamed l disk k ∧
      ∃ s', (sectorRound l disk s).Gives [19 + k] (.inl s') ∧ AtSector (k + 1) s') := by
  let s₁ : RootSearch := { s with
    gRootDirSizeForLoop := s.gRootDirSizeForLoop - 1, es := l.base, bx := l.offset
    ax := s.gSectorNo, cx := (s.cx &&& 0xff00) ||| 1 }
  have sector : s₁.ax.toNat = 19 + k := by
    show s.gSectorNo.toNat = _
    rw [here.sector, BitVec.toNat_ofNat]
    omega
  obtain ⟨ax, cx, dx, reads⟩ := readSector_eq (s := s₁.toReal) disk sector
    (congrArg BitVec.toNat (lowByte_cl s.cx 1)) (by show (19 + k) % 18 + 1 ≤ 18; omega)
    (by show 19 + k + 1 ≤ 2880; omega)
  let m := transfer disk (19 + k) 1 (linear l.base l.offset) s.mem
  let s₂ : RootSearch := { s₁ with ax := ax, cx := cx, dx := 0x10, mem := m, di := l.offset, si := 0 }
  have read : ∀ b < 512, m (linear l.base l.offset + b) = disk (19 + k) b := by
    intro b inside
    show transfer disk (19 + k) 1 _ s.mem _ = _
    rw [transfer_at (by omega), Nat.div_eq_of_lt inside, Nat.mod_eq_of_lt inside, Nat.add_zero]
  have sectors : s.gRootDirSizeForLoop ≠ 0 := here.sectors ▸ count_ne_zero inside (by decide)
  have top : AtEntry l s₂ 0 s₂ := ⟨rfl, rfl, (BitVec.add_zero _).symm, rfl, rfl, rfl, rfl⟩
  have named : ∀ e < 16, EntryNamed l m e ↔ Named l disk (16 * k + e) := fun e inside =>
    entryNamed_iff inside read
  have enough : 16 - 0 < searchRounds := by decide
  rcases (entry_searches l s₂).loop .endless 0 (Nat.zero_le 16) enough top with
    ⟨e, r, first, runs, found⟩ | ⟨none, r, runs, missed⟩
  · rw [Traced.searchLog_nil] at runs
    obtain ⟨_, s'⟩ := r
    obtain rfl := found.found
    refine .inl ⟨⟨e, first.lt, (named e first.lt).mp first.here⟩, (true, s'),
      sectorRound_gives sectors reads runs, rfl, e, ?_, found.segment, found.offset,
      fun b inside => (congrFun found.memory _).trans (read b inside)⟩
    exact ⟨first.le, first.lt, (named e first.lt).mp first.here, fun e' from_ before has =>
      first.before e' from_ before ((named e' (before.trans first.lt)).mpr has)⟩
  · rw [Traced.searchLog_nil] at runs
    obtain ⟨_, s'⟩ := r
    obtain rfl := missed.missed
    refine .inr ⟨?_, _, sectorRound_gives sectors reads runs, ?_, ?_⟩
    · rintro ⟨e, inside, has⟩
      exact none e (Nat.zero_le e) inside ((named e inside).mpr has)
    · show s'.gSectorNo + 1 = _
      have kept : s'.gSectorNo = s.gSectorNo := missed.sector
      rw [kept, here.sector]
      exact (BitVec.ofNat_add (19 + k) 1).symm
    · show s'.gRootDirSizeForLoop = _
      have kept : s'.gRootDirSizeForLoop = s.gRootDirSizeForLoop - 1 := missed.sectors
      rw [kept, here.sectors, count_down inside]

theorem sector_searches (l : Loader) (disk : Disk) :
    Traced.Searches (sectorRound l disk) 14 (SectorNamed l disk) (fun k => [19 + k]) AtSector
      (FoundInSector l disk) (fun r => r.1 = false) := by
  refine ⟨fun k inside other s here => ?_, fun k inside named s here => ?_, fun s here => ?_⟩
  · rcases sectorRound_eq disk inside here with ⟨named, -⟩ | ⟨-, round⟩
    · exact absurd named other
    · exact round
  · rcases sectorRound_eq disk inside here with ⟨-, round⟩ | ⟨other, -⟩
    · exact round
    · exact absurd named other
  · exact ⟨_, if_pos here.sectors, rfl⟩

/-! ### The search -/

/-- **The search of the root directory is exact.** It ends; it goes to `file_name_found` if and only if
one of the entries has the name, with `es:di` in the first of them and its first cluster at offset
`0x1a`, after the sectors up to it; otherwise each of the 14 sectors has been read once. -/
theorem root_search_exact (l : Loader) (disk : Disk) (s : Real) :
    ∃ log found s', searchRootDir l disk s = ⟨log, .ok (found, s')⟩ ∧
      (found = true ↔ ∃ i < rootEntCnt, Named l disk i) ∧
      (∀ i, FirstFrom (Named l disk) 0 rootEntCnt i →
        log = (List.range (i / 16 + 1)).map (19 + ·) ∧ s'.es = l.base ∧
        s'.di &&& 0xffe0 = l.at (32 * (i % 16)) ∧
        (∀ b < 32, s'.mem (linear s'.es (s'.di &&& 0xffe0) + b) = dirEntry disk i b) ∧
        s'.word ((s'.di &&& 0xffe0) + 0x1a) = dirFstClus disk i) ∧
      (found = false → log = (List.range 14).map (19 + ·)) := by
  let s₀ : RootSearch :=
    { s with si := 0, gSectorNo := secNoOfRootDir, gRootDirSizeForLoop := rootDirSectors }
  have top : AtSector 0 s₀ := ⟨rfl, rfl⟩
  have enough : 14 - 0 < searchRounds := by decide
  rcases (sector_searches l disk).loop .endless 0 (Nat.zero_le 14) enough top with
    ⟨k, ⟨found, s'⟩, sector, runs, yes, e, entry, segment, offset, read⟩ | ⟨none, ⟨found, s'⟩, runs, no⟩
  · have first := sector.block entry
    obtain rfl : found = true := yes
    refine ⟨_, true, s', runs, iff_of_true rfl ⟨_, first.lt, first.here⟩, fun i first' => ?_,
      fun no => absurd no (by decide)⟩
    obtain rfl := first'.unique first
    have inside := entry.lt
    have sectorOf : (16 * k + e) / 16 = k := by omega
    have entryOf : (16 * k + e) % 16 = e := by omega
    have bytes : ∀ b < 32, s'.mem (linear s'.es (l.at (32 * e + b))) = dirEntry disk (16 * k + e) b := by
      intro b small
      rw [segment, linear_at l (by omega), read _ (by omega), dirEntry, sectorOf, entryOf]
    rw [Traced.searchLog_zero, sectorOf, entryOf, offset]
    refine ⟨rfl, segment, rfl, fun b small => ?_, ?_⟩
    · rw [← bytes b small, segment, linear_at l (by omega), linear_at l (by omega), Nat.add_assoc]
    · have low : l.at (32 * e) + 0x1a = l.at (32 * e + 0x1a) := at_add l (32 * e) 0x1a
      have high : l.at (32 * e) + 0x1a + 1 = l.at (32 * e + 0x1b) := by
        rw [low]
        exact at_add l (32 * e + 0x1a) 1
      rw [Real.word, high, low, bytes 0x1b (by decide), bytes 0x1a (by decide)]
      rfl
  · have nowhere : ¬ ∃ i < rootEntCnt, Named l disk i := by
      rintro ⟨i, inside, has⟩
      refine none (i / 16) (Nat.zero_le _) (Nat.div_lt_of_lt_mul inside)
        ⟨i % 16, Nat.mod_lt i (by decide), ?_⟩
      exact (Nat.div_add_mod i 16).symm ▸ has
    obtain rfl : found = false := no
    refine ⟨_, false, s', runs, iff_of_false (by decide) nowhere, fun i first => ?_, fun _ => ?_⟩
    · exact absurd ⟨i, first.lt, first.here⟩ nowhere
    · exact Traced.searchLog_zero (19 + ·) 14

/-- The name in the second entry of the second sector. -/
theorem root_search_second : ∃ log s',
    searchRootDir .boot
      (fun lba b => if lba = 20 ∧ 32 ≤ b then Loader.boot.fileName[b - 32]?.getD 0 else 0)
      ⟨0, 0, 0, 0, 0, 0, [], 0, fun _ => 0⟩ = ⟨log, .ok (true, s')⟩ ∧
    log = [19, 20] ∧ s'.di &&& 0xffe0 = 0x120 := by
  let disk : Disk := fun lba b =>
    if lba = 20 ∧ 32 ≤ b then Loader.boot.fileName[b - 32]?.getD 0 else 0
  have named : ∀ b < 11, dirEntry disk 17 b = Loader.boot.fileName[b]?.getD 0 := by decide +kernel
  have others : ∀ i < 17, ¬ ∀ b < 11, dirEntry disk i b = Loader.boot.fileName[b]?.getD 0 := by
    decide +kernel
  have first : FirstFrom (Named .boot disk) 0 rootEntCnt 17 :=
    ⟨by decide, by decide, named, fun i _ before => others i before⟩
  obtain ⟨log, found, s', runs, finds, at_, -⟩ :=
    root_search_exact .boot disk ⟨0, 0, 0, 0, 0, 0, [], 0, fun _ => 0⟩
  obtain rfl := finds.mpr ⟨17, by decide, first.here⟩
  obtain ⟨sectors, -, offset, -⟩ := at_ 17 first
  exact ⟨log, s', runs, sectors, offset⟩

end WalOS
