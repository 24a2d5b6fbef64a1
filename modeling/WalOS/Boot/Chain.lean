/-
**The loaders load exactly the file.**

* `readSector_eq` — `ReadSector` reads the sectors it is asked for: cylinder, head and sector are those
  of the sector number.
* `getFatEntry_eq` — `GetFATEntry` gives the entry of the cluster, even or odd, in one sector or in two.
* `loadingRound_eq` — a round loads the sector of its cluster and goes to the next.
* `loadingFile_chain` — by induction on the chain of clusters; `loads_file` — **the loaders**.
-/

import WalOS.Boot.Floppy

namespace WalOS

open Bytes Fat12

/-- The bytes of FAT1. -/
def fat1 (disk : Disk) (i : ℕ) : BitVec 8 := disk (1 + i / 512) (i % 512)

/-- The sector of a cluster. -/
def clusterSector (c : ℕ) : ℕ := c + 31

/-- The first sector that is read for an entry of the FAT. -/
def entrySector (n : ℕ) : ℕ := 1 + 3 * n / 2 / 512

/-- Where the FAT is read to. -/
def fatBuffer (l : Loader) : ℕ := linear (l.base - 0x0100) 0

variable {disk : Disk} {l : Loader} {s : Real}

/-! ### Reading sectors -/

theorem toNat_append_bytes (high low : BitVec 8) :
    (high ++ low : BitVec 16).toNat = low.toNat + 256 * high.toNat := by
  rw [BitVec.toNat_append, ← Nat.shiftLeft_add_eq_or_of_lt low.isLt, Nat.shiftLeft_eq]
  omega

theorem lowByte_append (high low : BitVec 8) : lowByte (high ++ low) = low := by
  apply BitVec.eq_of_toNat_eq
  rw [lowByte, BitVec.toNat_setWidth, toNat_append_bytes]
  have small := low.isLt
  omega

theorem highByte_append (high low : BitVec 8) : highByte (high ++ low) = high := by
  apply BitVec.eq_of_toNat_eq
  rw [highByte, BitVec.toNat_setWidth, BitVec.toNat_ushiftRight, toNat_append_bytes,
    Nat.shiftRight_eq_div_pow]
  have small := low.isLt
  have small' := high.isLt
  omega

theorem divByte_eq {x : BitVec 8} {a b : ℕ} (dividend : s.ax.toNat = a) (divisor : x.toNat = b)
    (small : a < 2 ^ 8 * b) :
    s.divByte x = pure { s with ax := BitVec.ofNat 8 (a % b) ++ BitVec.ofNat 8 (a / b) } := by
  subst dividend divisor
  refine if_neg fun large => ?_
  have high : x.toNat ≤ (highByte s.ax).toNat := large
  rw [highByte, BitVec.toNat_setWidth, BitVec.toNat_ushiftRight, Nat.shiftRight_eq_div_pow] at high
  omega

/-- `div` of a dividend in `dx` and `ax` by a word. -/
theorem divWord_eq {x : BitVec 16} {a b : ℕ} (dividend : s.dx.toNat * 2 ^ 16 + s.ax.toNat = a)
    (divisor : x.toNat = b) (small : a < 2 ^ 16 * b) :
    s.divWord x = pure { s with ax := BitVec.ofNat 16 (a / b), dx := BitVec.ofNat 16 (a % b) } := by
  subst dividend divisor
  refine if_neg fun large => ?_
  have high : x.toNat ≤ s.dx.toNat := large
  omega

/-- INT 13h for a cylinder, head and sector that the floppy has. -/
theorem int13_eq (disk : Disk) (al ch cl dh : BitVec 8) (lba : ℕ) (head : dh.toNat < 2)
    (first : 1 ≤ cl.toNat % 64) (track : cl.toNat % 64 + al.toNat ≤ 19) (inside : lba + al.toNat ≤ 2880)
    (place : ((ch.toNat + 256 * (cl.toNat / 64)) * 2 + dh.toNat) * 18 + (cl.toNat % 64 - 1) = lba) :
    int13 disk al ch cl dh bsDrvNum s = ⟨[lba], .ok { s with
      ax := al.setWidth 16, cx := ch ++ cl, dx := dh ++ bsDrvNum
      mem := transfer disk lba al.toNat (linear s.es s.bx) s.mem }⟩ := by
  have valid : bsDrvNum = bsDrvNum ∧ dh.toNat < bpbNumHeads ∧ 1 ≤ cl.toNat % 64 ∧
      cl.toNat % 64 + al.toNat ≤ bpbSecPerTrk.toNat + 1 := ⟨rfl, head, first, track⟩
  unfold int13
  dsimp only
  rw [Traced.check, if_pos valid, Traced.check, if_pos (place ▸ inside), ← place]
  rfl

/-- **`ReadSector` reads the sectors asked for**, if they are on one track. -/
theorem readSector_eq (disk : Disk) {lba count : ℕ} (sector : s.ax.toNat = lba)
    (sectors : (lowByte s.cx).toNat = count) (track : lba % 18 + count ≤ 18)
    (inside : lba + count ≤ 2880) :
    ∃ ax cx dx, readSector disk s = ⟨[lba], .ok { s with
      ax := ax, cx := cx, dx := dx, mem := transfer disk lba count (linear s.es s.bx) s.mem }⟩ := by
  have spt : bpbSecPerTrk.toNat = 18 := by decide
  have al : (BitVec.ofNat 8 (lba / 18)).toNat = lba / 18 := by
    rw [BitVec.toNat_ofNat]
    omega
  have cl : (BitVec.ofNat 8 (lba % 18) + 1).toNat = lba % 18 + 1 := by
    rw [BitVec.toNat_add, BitVec.toNat_ofNat]
    show (lba % 18 % 2 ^ 8 + 1) % 2 ^ 8 = _
    omega
  have ch : (BitVec.ofNat 8 (lba / 18) >>> 1).toNat = lba / 36 := by
    rw [BitVec.toNat_ushiftRight, al, Nat.shiftRight_eq_div_pow]
    omega
  have dh : (BitVec.ofNat 8 (lba / 18) &&& 1).toNat = lba / 18 % 2 := by
    rw [BitVec.toNat_and, al]
    exact Nat.and_one_is_mod _
  have code : readSector disk s = int13 disk (lowByte s.cx) (BitVec.ofNat 8 (lba / 18) >>> 1)
      (BitVec.ofNat 8 (lba % 18) + 1) (BitVec.ofNat 8 (lba / 18) &&& 1) bsDrvNum s := by
    rw [readSector, divByte_eq sector spt (by omega), pure_bind]
    dsimp only
    rw [lowByte_append, highByte_append]
    rfl
  have reads := int13_eq (s := s) disk (lowByte s.cx) (BitVec.ofNat 8 (lba / 18) >>> 1)
    (BitVec.ofNat 8 (lba % 18) + 1) (BitVec.ofNat 8 (lba / 18) &&& 1) lba (by omega) (by omega)
    (by omega) (by omega) (by rw [ch, cl, dh]; omega)
  rw [sectors] at reads
  exact ⟨_, _, _, code.trans reads⟩

/-! ### The memory after a transfer -/

theorem transfer_off {lba count dest : ℕ} {m : Mem} {x : ℕ}
    (off : x < dest ∨ dest + 512 * count ≤ x) : transfer disk lba count dest m x = m x :=
  if_neg (by omega)

theorem transfer_at {lba count dest : ℕ} {m : Mem} {k : ℕ} (inside : k < 512 * count) :
    transfer disk lba count dest m (dest + k) = disk (lba + k / 512) (k % 512) := by
  rw [transfer, if_pos ⟨Nat.le_add_right _ _, Nat.add_lt_add_left inside _⟩, Nat.add_sub_cancel_left]

/-! ### The FAT -/

/-- The word at the entry, once the FAT's sectors are in the buffer: the second byte may be in the
second sector. -/
theorem fat_word {n : ℕ} {m : Mem} (segment : s.es = l.base - 0x0100)
    (read : s.mem = transfer disk (entrySector n) 2 (fatBuffer l) m) :
    (s.word (BitVec.ofNat 16 (3 * n / 2 % 512))).toNat = wordAt (fat1 disk) (3 * n / 2) := by
  have place : ∀ (off : BitVec 16) (k : ℕ), off.toNat = k → k < 1024 →
      s.mem (linear s.es off) = disk (entrySector n + k / 512) (k % 512) := by
    intro off k here inside
    have addr : linear s.es off = fatBuffer l + k := by
      rw [segment, linear, here]
      rfl
    rw [addr, read, transfer_at (by omega)]
  have first : (BitVec.ofNat 16 (3 * n / 2 % 512)).toNat = 3 * n / 2 % 512 := by
    rw [BitVec.toNat_ofNat]
    omega
  have second : (BitVec.ofNat 16 (3 * n / 2 % 512) + 1).toNat = 3 * n / 2 % 512 + 1 := by
    have one : (1 : BitVec 16).toNat = 1 := rfl
    rw [BitVec.toNat_add, first, one]
    exact Nat.mod_eq_of_lt (by omega)
  rw [Real.word, toNat_append_bytes, place _ _ first (by omega), place _ _ second (by omega)]
  have sector : entrySector n + (3 * n / 2 % 512 + 1) / 512 = 1 + (3 * n / 2 + 1) / 512 := by
    unfold entrySector
    omega
  have byte : (3 * n / 2 % 512 + 1) % 512 = (3 * n / 2 + 1) % 512 := by omega
  rw [sector, byte, Nat.mod_mod, Nat.div_eq_of_lt (Nat.mod_lt _ (by decide))]
  rfl

/-- `mov` to `cl`. -/
theorem lowByte_cl (cx : BitVec 16) (count : BitVec 16) :
    lowByte ((cx &&& 0xff00) ||| count) = lowByte count := by
  have high : (0xff00 : BitVec 16).setWidth 8 = 0#8 := by decide
  rw [lowByte, BitVec.setWidth_or, BitVec.setWidth_and, high, BitVec.and_zero, BitVec.zero_or]
  rfl

/-- `mul` gives the whole product. -/
theorem mul_toNat (x : BitVec 16) (s : Real) :
    (s.mul x).dx.toNat * 2 ^ 16 + (s.mul x).ax.toNat = s.ax.toNat * x.toNat := by
  have high : s.ax.toNat * x.toNat / 2 ^ 16 < 2 ^ 16 :=
    Nat.div_lt_of_lt_mul (Nat.mul_lt_mul'' s.ax.isLt x.isLt)
  show (BitVec.ofNat 16 (s.ax.toNat * x.toNat / 2 ^ 16)).toNat * 2 ^ 16 + (s.ax * x).toNat = _
  rw [BitVec.toNat_ofNat, BitVec.toNat_mul, Nat.mod_eq_of_lt high, Nat.mul_comm _ (2 ^ 16)]
  exact Nat.div_add_mod _ _

/-- The word at an entry, shifted and masked as its parity asks. -/
theorem entry_of_word {n : ℕ} {w : BitVec 16} (word : w.toNat = wordAt (fat1 disk) (3 * n / 2)) :
    ((if lowByte (BitVec.ofNat 16 (3 * n % 2)) = 0 then w else w >>> 4) &&& 0x0fff).toNat =
      entry (fat1 disk) n := by
  have mask : ∀ w : BitVec 16, (w &&& 0x0fff).toNat = w.toNat % 0x1000 := fun w =>
    (BitVec.toNat_and _ _).trans (Nat.and_two_pow_sub_one_eq_mod w.toNat 12)
  rw [mask]
  obtain ⟨k, rfl | rfl⟩ : ∃ k, n = 2 * k ∨ n = 2 * k + 1 := ⟨n / 2, by omega⟩
  · have even : 3 * (2 * k) % 2 = 0 := by omega
    have half : 3 * (2 * k) / 2 = 3 * k := by omega
    rw [even, if_pos (by decide), word, half, entry_even]
  · have odd : 3 * (2 * k + 1) % 2 = 1 := by omega
    have half : 3 * (2 * k + 1) / 2 = 3 * k + 1 := by omega
    have small := w.isLt
    rw [odd, if_neg (by decide), BitVec.toNat_ushiftRight, Nat.shiftRight_eq_div_pow, word, half,
      entry_odd, Nat.mod_eq_of_lt]
    rw [half] at word
    rw [← word]
    omega

/-- Where the entry is: the sector of the FAT, and the byte in it on the stack. -/
theorem findFatEntry_eq {n : ℕ} (cluster : s.ax.toNat = n) (small : n < 3072) :
    findFatEntry l s = pure { s with
      ax := BitVec.ofNat 16 (3 * n / 2 / 512) + secNoOfFat1, bx := 0, cx := (s.cx &&& 0xff00) ||| 2
      dx := BitVec.ofNat 16 (3 * n / 2 % 512), es := l.base - 0x0100
      gOdd := lowByte (BitVec.ofNat 16 (3 * n % 2))
      stack := BitVec.ofNat 16 (3 * n / 2 % 512) :: s.bx :: s.es :: s.stack } := by
  let saved : Real := { (s.push s.es).push s.bx with es := l.base - 0x0100 }
  let halved : Real := { saved.mul 3 with
    ax := BitVec.ofNat 16 (3 * n / 2), dx := BitVec.ofNat 16 (3 * n % 2) }
  let cleared : Real := { halved with gOdd := lowByte halved.dx, dx := 0 }
  have triple : (saved.mul 3).dx.toNat * 2 ^ 16 + (saved.mul 3).ax.toNat = 3 * n := by
    rw [mul_toNat, Nat.mul_comm]
    exact congrArg (3 * ·) cluster
  have byte : cleared.dx.toNat * 2 ^ 16 + cleared.ax.toNat = 3 * n / 2 := by
    show (0 : BitVec 16).toNat * 2 ^ 16 + (BitVec.ofNat 16 (3 * n / 2)).toNat = _
    rw [BitVec.toNat_ofNat, Nat.mod_eq_of_lt (by omega)]
    exact Nat.zero_add _
  have half : (saved.mul 3).divWord 2 = pure halved :=
    divWord_eq (b := 2) triple rfl (by omega)
  have sector : cleared.divWord bpbBytsPerSec = _ :=
    divWord_eq (b := 512) byte rfl (by omega)
  rw [findFatEntry, half, pure_bind]
  show (cleared.divWord bpbBytsPerSec >>= _) = _
  rw [sector, pure_bind]
  rfl

theorem pop_eq {word : BitVec 16} {below : List (BitVec 16)} (stack : s.stack = word :: below)
    (put : BitVec 16 → Real → Real) : s.pop put = pure (put word { s with stack := below }) := by
  rw [Real.pop, stack]

/-- The entry is taken from the word on the stack, and `bx` and `es` come back. -/
theorem takeFatEntry_eq {off bx es : BitVec 16} {below : List (BitVec 16)}
    (stack : s.stack = off :: bx :: es :: below) :
    takeFatEntry s = pure { s with
      ax := (if s.gOdd = 0 then s.word (s.bx + off) else s.word (s.bx + off) >>> 4) &&& 0x0fff
      dx := off, bx := bx, es := es, stack := below } := by
  simp only [takeFatEntry, Real.pop, stack, pure_bind]
  rfl

/-- **`GetFATEntry` gives the entry of the cluster.** -/
theorem getFatEntry_eq (l : Loader) (disk : Disk) {n : ℕ} (cluster : s.ax.toNat = n)
    (small : n < 3072) : ∃ ax cx dx gOdd, getFatEntry l disk s = ⟨[entrySector n], .ok { s with
      ax := ax, cx := cx, dx := dx, gOdd := gOdd
      mem := transfer disk (entrySector n) 2 (fatBuffer l) s.mem }⟩ ∧
      ax.toNat = entry (fat1 disk) n := by
  let off := BitVec.ofNat 16 (3 * n / 2 % 512)
  let ready : Real := { s with
    ax := BitVec.ofNat 16 (3 * n / 2 / 512) + secNoOfFat1, bx := 0, cx := (s.cx &&& 0xff00) ||| 2
    dx := off, es := l.base - 0x0100, gOdd := lowByte (BitVec.ofNat 16 (3 * n % 2))
    stack := off :: s.bx :: s.es :: s.stack }
  have lba : ready.ax.toNat = entrySector n := by
    show (BitVec.ofNat 16 (3 * n / 2 / 512) + secNoOfFat1).toNat = 1 + 3 * n / 2 / 512
    have one : secNoOfFat1.toNat = 1 := rfl
    rw [BitVec.toNat_add, BitVec.toNat_ofNat, one]
    omega
  have count : (lowByte ready.cx).toNat = 2 := congrArg BitVec.toNat (lowByte_cl s.cx 2)
  have few : entrySector n ≤ 9 := by
    unfold entrySector
    omega
  obtain ⟨ax, cx, dx, reads⟩ := readSector_eq disk lba count (by omega) (by omega)
  let read : Real := { ready with
    ax := ax, cx := cx, dx := dx, mem := transfer disk (entrySector n) 2 (fatBuffer l) s.mem }
  have word : (read.word (0 + off)).toNat = _ :=
    (congrArg (fun o => (read.word o).toNat) (BitVec.zero_add off)).trans (fat_word rfl rfl)
  have takes := takeFatEntry_eq (s := read) rfl
  refine ⟨_, cx, off, ready.gOdd, ?_, entry_of_word word⟩
  rw [getFatEntry, findFatEntry_eq cluster small, pure_bind, reads, Traced.bind_of_ok rfl]
  show Traced.mk ([entrySector n] ++ (takeFatEntry read).accesses) (takeFatEntry read).outcome = _
  rw [takes]
  rfl

/-! ### Rounds -/

/-- What the top of the loop finds: the cluster on the stack, and its sector in `ax`. -/
structure AtCluster (l : Loader) (c : ℕ) (below : List (BitVec 16)) (s : Real) : Prop where
  sector : s.ax.toNat = clusterSector c
  stack : ∃ word : BitVec 16, word.toNat = c ∧ s.stack = word :: below
  segment : s.es = l.base

/-- What a round changes in memory: the sector at `es:bx`, and the buffer of the FAT. -/
def roundMem (l : Loader) (disk : Disk) (c : ℕ) (s : Real) : Mem :=
  transfer disk (entrySector c) 2 (fatBuffer l)
    (transfer disk (clusterSector c) 1 (linear s.es s.bx) s.mem)

/-- **A round loads a sector**, and then stops at the end mark or goes on to the next cluster. -/
theorem loadingRound_eq (disk : Disk) {c : ℕ} {below : List (BitVec 16)}
    (top : AtCluster l c below s) (inside : clusterSector c < 2880) :
    ∃ answer, loadingRound l disk s = ⟨[clusterSector c, entrySector c], .ok answer⟩ ∧
      if entry (fat1 disk) c = endMark then
        ∃ s', answer = .inr s' ∧ s'.mem = roundMem l disk c s ∧ s'.stack = below
      else
        ∃ s', answer = .inl s' ∧ s'.mem = roundMem l disk c s ∧ s'.bx = s.bx + 512 ∧
          AtCluster l (entry (fat1 disk) c) below s' := by
  obtain ⟨word, cluster, stack⟩ := top.stack
  let ready : Real := { s with cx := (s.cx &&& 0xff00) ||| 1 }
  have count : (lowByte ready.cx).toNat = 1 := congrArg BitVec.toNat (lowByte_cl s.cx 1)
  obtain ⟨ax, cx, dx, reads⟩ :=
    readSector_eq disk (s := ready) top.sector count (by omega) (by omega)
  let loaded : Real := { ready with
    ax := ax, cx := cx, dx := dx
    mem := transfer disk (clusterSector c) 1 (linear s.es s.bx) s.mem }
  obtain ⟨next, cx₂, dx₂, gOdd, entries, value⟩ := getFatEntry_eq l disk
    (s := { loaded with ax := word, stack := below }) cluster
    (by unfold clusterSector at inside; omega)
  let done : Real := { loaded with
    ax := next, cx := cx₂, dx := dx₂, gOdd := gOdd, stack := below, mem := roundMem l disk c s }
  have code : loadingRound l disk s =
      ⟨[clusterSector c, entrySector c], .ok (nextCluster done)⟩ := by
    have popped : loaded.pop (fun word s => { s with ax := word }) = _ :=
      pop_eq (s := loaded) stack _
    rw [loadingRound, reads, Traced.bind_of_ok rfl]
    dsimp only
    rw [popped, pure_bind, entries]
    rfl
  have ends : next = 0x0fff ↔ entry (fat1 disk) c = endMark := by
    rw [← value]
    exact ⟨fun same => same ▸ rfl, fun same => BitVec.eq_of_toNat_eq same⟩
  refine ⟨_, code, ?_⟩
  by_cases last : entry (fat1 disk) c = endMark
  · rw [if_pos last]
    exact ⟨done, if_pos (ends.mpr last), rfl, rfl⟩
  · rw [if_neg last]
    refine ⟨_, if_neg fun same => last (ends.mp same), rfl, rfl, ?_, ⟨next, value, rfl⟩, top.segment⟩
    show (next + rootDirSectors + deltaSecNo).toNat = entry (fat1 disk) c + 31
    have small := entry_lt (fat1 disk) c
    have root : rootDirSectors.toNat = 14 := rfl
    have delta : deltaSecNo.toNat = 17 := rfl
    rw [BitVec.toNat_add, BitVec.toNat_add, value, root, delta]
    omega

/-! ### The whole file -/

/-- The sectors that are read for a file: the sector of each cluster, and the entry of the cluster. -/
def chainSectors (clusters : List ℕ) : List ℕ :=
  clusters.flatMap fun c => [clusterSector c, entrySector c]

/-- **The file is in memory from `dest` on**: its sectors are in the order of the clusters, and nothing
else is changed but the buffer of the FAT. -/
structure Loaded (l : Loader) (disk : Disk) (clusters : List ℕ) (dest : ℕ) (m m' : Mem) : Prop where
  sectors : ∀ i c, clusters[i]? = some c → ∀ b < 512,
    m' (dest + 512 * i + b) = disk (clusterSector c) b
  rest : ∀ x, (x < dest ∨ dest + 512 * clusters.length ≤ x) →
    (x < fatBuffer l ∨ fatBuffer l + 1024 ≤ x) → m' x = m x

/-- The buffer of the FAT is below the segment. -/
theorem fatBuffer_below (l : Loader) (offset : BitVec 16) :
    fatBuffer l + 1024 ≤ linear l.base offset := by
  have below : fatBuffer l + 1024 ≤ l.base.toNat * 16 := by
    cases l <;> decide
  exact Nat.le_add_right_of_le below

/-- A round loads the sector of its cluster. -/
theorem loaded_one (l : Loader) (disk : Disk) (c : ℕ) {offset : BitVec 16} (segment : s.es = l.base)
    (destination : s.bx = offset) :
    Loaded l disk [c] (linear l.base offset) s.mem (roundMem l disk c s) := by
  have below := fatBuffer_below l offset
  unfold roundMem
  rw [segment, destination]
  refine ⟨fun i c' here b inside => ?_, fun x off away => ?_⟩
  · obtain rfl : i = 0 := by
      have short := (List.getElem?_eq_some_iff.mp here).1
      exact Nat.lt_one_iff.mp short
    obtain rfl : c = c' := Option.some.inj here
    rw [transfer_off (.inr (by omega)), Nat.mul_zero, Nat.add_zero, transfer_at (by omega),
      Nat.div_eq_of_lt inside, Nat.mod_eq_of_lt inside, Nat.add_zero]
  · rw [transfer_off (by omega)]
    exact transfer_off off

/-- Then the other sectors are loaded after it. -/
theorem Loaded.cons {c : ℕ} {rest : List ℕ} {dest : ℕ} {m m' m'' : Mem}
    (first : Loaded l disk [c] dest m m') (others : Loaded l disk rest (dest + 512) m' m'')
    (above : fatBuffer l + 1024 ≤ dest) : Loaded l disk (c :: rest) dest m m'' := by
  refine ⟨fun i c' here b inside => ?_, fun x off away => ?_⟩
  · cases i with
    | zero =>
      have kept := others.rest (dest + 512 * 0 + b) (.inl (by omega)) (.inr (by omega))
      exact kept.trans (first.sectors 0 c' here b inside)
    | succ i =>
      rw [show dest + 512 * (i + 1) + b = dest + 512 + 512 * i + b by omega]
      exact others.sectors i c' here b inside
  · rw [List.length_cons] at off
    rw [others.rest x (by omega) away]
    have one : 512 * [c].length ≤ 512 * (rest.length + 1) :=
      Nat.mul_le_mul_left 512 (Nat.le_add_left 1 _)
    exact first.rest x (off.imp_right (Nat.le_trans (Nat.add_le_add_left one dest))) away

/-- **The loop loads the file**, in as many rounds as the file has clusters. -/
theorem loadingFile_chain {clusters : List ℕ} (chained : Chain (fat1 disk) clusters)
    (inside : ∀ c ∈ clusters, clusterSector c < 2880) (below : List (BitVec 16)) :
    ∀ s : Real, AtCluster l (clusters.headD 0) below s →
      s.bx.toNat + 512 * clusters.length ≤ 0x10000 →
      (∀ rounds < clusters.length, (loadingFile l disk rounds s).outcome = .error .endless) ∧
      ∃ s', (∀ rounds ≥ clusters.length,
          loadingFile l disk rounds s = ⟨chainSectors clusters, .ok s'⟩) ∧
        Loaded l disk clusters (linear l.base s.bx) s.mem s'.mem ∧ s'.stack = below := by
  induction chained with
  | @last c ends =>
    intro s (top : AtCluster l c below s) _
    obtain ⟨answer, runs, stops⟩ := loadingRound_eq disk top (inside c (List.mem_cons_self ..))
    rw [if_pos ends] at stops
    obtain ⟨s', rfl, mem, stack⟩ := stops
    refine ⟨fun rounds few => ?_, s', fun rounds enough => ?_, ?_, stack⟩
    · obtain rfl : rounds = 0 := Nat.lt_one_iff.mp few
      rfl
    · obtain ⟨fuel, rfl⟩ := Nat.exists_eq_add_of_le' enough
      exact Traced.loop_inr runs fuel
    · rw [mem]
      exact loaded_one l disk c top.segment rfl
  | @cons c next rest links chain ih =>
    intro s (top : AtCluster l c below s) fits
    have members := inside next (List.mem_cons_of_mem _ (List.mem_cons_self ..))
    obtain ⟨answer, runs, goes⟩ := loadingRound_eq disk top (inside c (List.mem_cons_self ..))
    have more : entry (fat1 disk) c ≠ endMark := by
      rw [links]
      intro same
      rw [same] at members
      exact absurd members (by decide)
    rw [if_neg more, links] at goes
    obtain ⟨s', rfl, mem, bx, top'⟩ := goes
    have whole : (c :: next :: rest).length = (next :: rest).length + 1 := List.length_cons
    have tail : (next :: rest).length = rest.length + 1 := List.length_cons
    have advanced : s'.bx.toNat = s.bx.toNat + 512 := by
      have step : (512 : BitVec 16).toNat = 512 := rfl
      rw [bx, BitVec.toNat_add, step]
      exact Nat.mod_eq_of_lt (by omega)
    rw [whole, Nat.mul_succ, Nat.add_comm (512 * _), ← Nat.add_assoc, ← advanced] at fits
    obtain ⟨short, s'', long, loaded, stack⟩ := ih
      (fun c' member => inside c' (List.mem_cons_of_mem _ member)) s' top' fits
    refine ⟨fun rounds few => ?_, s'', fun rounds enough => ?_, ?_, stack⟩
    · cases rounds with
      | zero => rfl
      | succ fuel =>
        rw [loadingFile, Traced.loop_inl runs fuel]
        exact short fuel (Nat.lt_of_succ_lt_succ few)
    · obtain ⟨fuel, rfl⟩ : ∃ fuel, rounds = fuel + 1 := ⟨rounds - 1, by omega⟩
      have others := long fuel (by omega)
      rw [loadingFile] at others ⊢
      rw [Traced.loop_inl runs fuel, others]
      rfl
    · rw [mem] at loaded
      have dest : linear l.base s'.bx = linear l.base s.bx + 512 := by
        unfold linear
        omega
      exact (loaded_one l disk c top.segment rfl).cons (dest ▸ loaded) (fatBuffer_below l s.bx)

/-- **The boot loaders load exactly the file**, and `GetFATEntry` gives every entry of the FAT.

`es:di` is in the entry of the file in the root directory, which names the first cluster. -/
theorem loads_file (l : Loader) (disk : Disk) (s : Real) (first : ℕ) (rest : List ℕ)
    (names : (s.word ((s.di &&& 0xffe0) + 0x1a)).toNat = first)
    (chained : Chain (fat1 disk) (first :: rest))
    (inside : ∀ c ∈ first :: rest, clusterSector c < bpbTotSec16)
    (fits : l.offset.toNat + 512 * (first :: rest).length ≤ 0x10000) :
    (∃ s', (∀ rounds ≥ (first :: rest).length, fileNameFound l disk rounds s =
          ⟨chainSectors (first :: rest), .ok s'⟩) ∧
        (∀ i c, (first :: rest)[i]? = some c → ∀ b < 512,
          s'.mem (l.base.toNat * 16 + (l.offset.toNat + 512 * i + b)) = disk (clusterSector c) b) ∧
        ∀ offset < 0x10000,
          (offset < l.offset.toNat ∨ l.offset.toNat + 512 * (first :: rest).length ≤ offset) →
          s'.mem (l.base.toNat * 16 + offset) = s.mem (l.base.toNat * 16 + offset)) ∧
      (∀ rounds < (first :: rest).length,
        (fileNameFound l disk rounds s).outcome = .error .endless) ∧
      ∀ (n : ℕ) (s : Real), n < 3072 → s.ax.toNat = n →
        ∃ s', getFatEntry l disk s = ⟨[entrySector n], .ok s'⟩ ∧ s'.ax.toNat = entry (fat1 disk) n ∧
          s'.bx = s.bx ∧ s'.es = s.es ∧ s'.stack = s.stack := by
  let di := (s.di &&& 0xffe0) + 0x1a
  let cx := s.word di + rootDirSectors + deltaSecNo
  let ready : Real := { s.push (s.word di) with
    di := di, cx := cx, es := l.base, bx := l.offset, ax := cx }
  have sector : cx.toNat = clusterSector first := by
    have small : first + 31 < 2880 := inside first (List.mem_cons_self ..)
    have root : rootDirSectors.toNat = 14 := rfl
    have delta : deltaSecNo.toNat = 17 := rfl
    show (s.word di + rootDirSectors + deltaSecNo).toNat = first + 31
    rw [BitVec.toNat_add, BitVec.toNat_add, names, root, delta]
    omega
  have top : AtCluster l first s.stack ready := ⟨sector, ⟨s.word di, names, rfl⟩, rfl⟩
  obtain ⟨short, s', long, loaded, -⟩ := loadingFile_chain chained inside s.stack ready top fits
  refine ⟨⟨s', long, fun i c here b within => ?_, fun offset _ off => ?_⟩, short,
    fun n s small cluster => ?_⟩
  · rw [← loaded.sectors i c here b within, ← Nat.add_assoc, ← Nat.add_assoc]
    rfl
  · refine loaded.rest _ ?_ (.inr ?_)
    · exact off.imp (Nat.add_lt_add_left · _) fun beyond =>
        (Nat.add_assoc ..).trans_le (Nat.add_le_add_left beyond _)
    · have below := fatBuffer_below l 0
      exact Nat.le_add_right_of_le below
  · obtain ⟨_, _, _, _, runs, value⟩ := getFatEntry_eq l disk cluster small
    exact ⟨_, runs, value, rfl, rfl, rfl⟩

/-- A file of the clusters 2 and 3. -/
def twoClusters : Disk := fun sector byte =>
  if sector = 1 then [0xf0, 0xff, 0xff, 0x03, 0xf0, 0xff].getD byte 0 else BitVec.ofNat 8 sector

theorem loads_file_two : ∃ s', fileNameFound .boot twoClusters 2
      ⟨0, 0, 0, 0, 0, 0, [], 0, fun x => if x = 0x1a then 2 else 0⟩ =
        ⟨[33, 1, 34, 1], .ok s'⟩ ∧ s'.mem 0x90100 = 33 ∧ s'.mem 0x90300 = 34 := by
  have chained : Chain (fat1 twoClusters) [2, 3] :=
    .cons (by decide +kernel) (.last (by decide +kernel))
  obtain ⟨⟨s', runs, sectors, -⟩, -, -⟩ := loads_file .boot twoClusters
    ⟨0, 0, 0, 0, 0, 0, [], 0, fun x => if x = 0x1a then 2 else 0⟩ 2 [3] (by decide +kernel) chained
    (by decide) (by decide)
  exact ⟨s', runs 2 (by decide), sectors 0 2 rfl 0 (by decide), sectors 1 3 rfl 0 (by decide)⟩

end WalOS
