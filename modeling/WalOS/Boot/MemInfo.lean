/-
**The size of the memory** (`loader.s`: `get_mem_info_loop`, `ShowMemInfo`, `SetMemData` and
`CalculateMemSize`).

In real mode INT 15h puts one descriptor after the other at `es:di`, and `_MCRNumber` counts them; after an
error the count is 0. In protected mode `ShowMemInfo` takes as many descriptors from `_MemChkBuf`, prints
each, and keeps the greatest end of a range of type 1.

* `getMemInfo_gives` — the descriptors lie one behind the other; only twelve fit in the buffer.
* `memInfoRound_gives` — a round of `ShowMemInfo` reads the five words of a descriptor.
* `showMemInfo_gives` — a count that is not 0 is the number of rounds.
* `memory_sized_iff` — **which answers of the firmware the loader gets right**.
-/

import Mathlib.Order.Bounds.Lattice
import WalOS.Boot.Loader
import WalOS.Boot.RootDir

namespace WalOS

open Bytes

/-! ### Collecting the descriptors -/

/-- `BaseOfLoader`. -/
def baseOfLoader : BitVec 16 := 0x9000

/-- The offset of `_MemChkBuf`. The loader lies from `0x100` on: a jump, the FAT12 header, the GDT and its
pointer, the variables and texts of real mode, `_MemSize`, `_MCRNumber` and `_ARDStruct`. -/
def memChkBuf : BitVec 16 := 0x100 + 3 + 59 + 38 + 65 + 28

/-- A descriptor (`_ARDStruct`). -/
structure Ard where
  baseAddrLow : BitVec 32
  baseAddrHigh : BitVec 32
  lengthLow : BitVec 32
  lengthHigh : BitVec 32
  type : BitVec 32
deriving DecidableEq

/-- The five words of a descriptor. -/
def Ard.word (d : Ard) : ℕ → BitVec 32
  | 0 => d.baseAddrLow
  | 1 => d.baseAddrHigh
  | 2 => d.lengthLow
  | 3 => d.lengthHigh
  | _ => d.type

/-- The 20 bytes of a descriptor. -/
def Ard.byte (d : Ard) (k : ℕ) : BitVec 8 := (d.word (k / 4)).extractLsb' (8 * (k % 4)) 8
def Ard.bytes (d : Ard) : List (BitVec 8) := (List.range 20).map d.byte

/-- What INT 15h answers to a call: the carry flag, or a descriptor and `ebx`. -/
inductive Answer where
  | carry
  | range (ebx : BitVec 32) (ard : Ard)
deriving DecidableEq

structure Collect where
  ebx : BitVec 32
  di : BitVec 16
  mcrNumber : BitVec 32
  mem : Mem

/-- Bytes put at `es` and an offset, which wraps around. -/
def putBytes (m : Mem) (offset : BitVec 16) : List (BitVec 8) → Mem
  | [] => m
  | byte :: bytes => putBytes (Function.update m (linear baseOfLoader offset) byte) (offset + 1) bytes

/-- INT 15h puts a descriptor at `es:di`: the addresses it writes, and the memory. -/
def Ard.put (d : Ard) (c : Collect) : Floppy Mem :=
  ⟨(List.range 20).map fun k => linear baseOfLoader (c.di + BitVec.ofNat 16 k),
    .ok (putBytes c.mem c.di d.bytes)⟩

/-- The registers and `_MCRNumber` after a descriptor. -/
def Collect.next (c : Collect) (ebx : BitVec 32) (mem : Mem) : Collect :=
  { ebx := ebx, di := c.di + 20, mcrNumber := c.mcrNumber + 1, mem := mem }

/-- One round of `get_mem_info_loop`, with `mem_chk_fail`. -/
def getMemInfoRound (answer : Answer) (c : Collect) : Floppy (Collect ⊕ Collect) :=
  match answer with
  | .carry => pure (.inr { c with mcrNumber := 0 })
  | .range ebx ard => do
      let mem ← ard.put c
      let c := c.next ebx mem
      if c.ebx = 0 then pure (.inr c) else pure (.inl c)

/-- `get_mem_info_loop`, with the answers to its calls. -/
def getMemInfoLoop : List Answer → Collect → Floppy Collect
  | [], _ => Traced.stop .endless
  | answer :: answers, c => do
      match ← getMemInfoRound answer c with
      | .inl c => getMemInfoLoop answers c
      | .inr c => pure c

/-- The collecting of the descriptors; `_MCRNumber` is assembled as 0. -/
def getMemInfo (answers : List Answer) (m : Mem) : Floppy Collect :=
  getMemInfoLoop answers { ebx := 0, di := memChkBuf, mcrNumber := 0, mem := m }

/-! ### Taking them -/

/-- `MemChkBuf`. -/
def memChkBufPhy : BitVec 32 := BitVec.ofNat 32 (linear baseOfLoader memChkBuf)

/-- What `ShowMemInfo` works on. `edi` counts from `MemDataMsg`; the variables and texts of the loader, and
the screen, are apart from the memory that is read. -/
structure MemInfo where
  eax : BitVec 32
  ecx : BitVec 32
  edx : BitVec 32
  esi : BitVec 32
  edi : BitVec 32
  memSize : BitVec 32
  mcrNumber : BitVec 32
  baseAddrLow : BitVec 32
  lengthLow : BitVec 32
  type : BitVec 32
  colCount : BitVec 8
  memDataMsg : List (BitVec 8)
  video : Mem
  mem : Mem

/-- `.asciz`; the NUL is the end of the list. -/
def asciz (text : String) : List (BitVec 8) := text.toList.map ascii

/-- `ShowMsgInProtectedMode` up to `msg_end`: the message of `al`. -/
def MemInfo.message (s : MemInfo) : List (BitVec 8) :=
  let al : BitVec 8 := s.eax.setWidth 8
  if al = 0 then asciz "Switch to Protected mode success."
  else if al = 1 then asciz "Jump to LDT segment success."
  else if al = 2 then asciz "BaseAddrL   BaseAddrH   LengthLow   LengthHigh  Type"
  else if al = 3 then s.memDataMsg
  else if al = 4 then asciz "RAM size:   00000000"
  else if al = 5 then asciz "Open 8295A interrupt."
  else if al = 6 then asciz "Enable Page Mechanic."
  else asciz "ERROR Message."

/-- `show_msg`: the characters up to a NUL, in white. -/
def showChars : List (BitVec 8) → BitVec 32 → Mem → Mem
  | [], _, video => video
  | al :: message, edi, video =>
      if al = 0 then video
      else showChars message (edi + 2) (store16 video edi.toNat ((0x07 : BitVec 8) ++ al))

/-- `ShowMsgInProtectedMode`: the message of `al`, in a line of its own. -/
def showMsgInProtectedMode (s : MemInfo) : MemInfo :=
  { s with
    video := showChars s.message (s.colCount.setWidth 32 * 160) s.video, colCount := s.colCount + 1 }

/-- `mov` to `al`. -/
def MemInfo.setAl (al : BitVec 8) (s : MemInfo) : MemInfo :=
  { s with eax := (s.eax &&& 0xffffff00) ||| al.setWidth 32 }

/-- `loop`: `ecx` is decremented before it is compared with 0. -/
def MemInfo.loop (s : MemInfo) : MemInfo ⊕ MemInfo :=
  let s := { s with ecx := s.ecx - 1 }
  if s.ecx = 0 then .inr s else .inl s

/-- The rounds given to each loop. -/
def loopRounds : ℕ := 2 ^ 32

def asciiDigit (al : BitVec 8) : BitVec 8 := if al < 0xa then al + 0x30 else al + 0x37

/-- `ALtoAscii`: the two digits of `al` in `ax`. -/
def alToAscii (eax : BitVec 32) : BitVec 32 :=
  let al : BitVec 8 := eax.setWidth 8
  let bh := asciiDigit ((al >>> 4) &&& 0xf)
  let bl := asciiDigit (al &&& 0xf)
  (eax &&& 0xffff0000) ||| (bh ++ bl).setWidth 32

/-- `SetMemData`. -/
def setMemData (s : MemInfo) : MemInfo :=
  if s.edx = 5 then { s with baseAddrLow := s.eax }
  else if s.edx = 3 then { s with lengthLow := s.eax }
  else if s.edx = 1 then { s with type := s.eax }
  else s

/-- `CalculateMemSize`. -/
def calculateMemSize (s : MemInfo) : MemInfo :=
  if s.type ≠ 1 then s
  else
    let eax := s.baseAddrLow + s.lengthLow
    if eax < s.memSize then { s with eax := eax } else { s with eax := eax, memSize := eax }

/-- One round of `x_2`, with the word on the stack: a byte of it, the highest first. -/
def x2Round (word : BitVec 32) (s : MemInfo) : Traced (BitVec 32) Fault (MemInfo ⊕ MemInfo) :=
  let eax := word
  let eax :=
    if s.ecx = 1 then eax
    else
      let eax := eax >>> 8
      if s.ecx = 2 then eax
      else
        let eax := eax >>> 8
        if s.ecx = 3 then eax else eax >>> 8
  let eax := alToAscii eax
  let text := s.memDataMsg.set s.edi.toNat (eax.extractLsb' 8 8)
  let text := text.set (s.edi + 1).toNat (eax.setWidth 8)
  pure (MemInfo.loop { s with eax := eax, edi := s.edi + 2, memDataMsg := text })

/-- One round of `x_1`: a word of the descriptor. -/
def x1Round (s : MemInfo) : Traced (BitVec 32) Fault (MemInfo ⊕ MemInfo) := do
  -- `lodsl`
  Traced.touch s.esi
  let s := setMemData { s with eax := fetch32 s.mem s.esi, esi := s.esi + 4 }
  let s ← Traced.loop .endless (x2Round s.eax) loopRounds { s with ecx := 4 }
  let s := { s with edi := s.edi + 4, edx := s.edx - 1 }
  if s.edx = 0 then pure (.inr s) else pure (.inl s)

/-- One round of `mem_info`: a descriptor. `edi` and `ecx` are pushed and popped. -/
def memInfoRound (s : MemInfo) : Traced (BitVec 32) Fault (MemInfo ⊕ MemInfo) := do
  let edi := s.edi
  let ecx := s.ecx
  let s ← Traced.loop .endless x1Round loopRounds { s with edi := 0, edx := 5 }
  let s := { s with ecx := ecx, edi := edi }
  let s := showMsgInProtectedMode (s.setAl 3)
  pure (calculateMemSize s).loop

/-- `ShowMemInfo`. -/
def showMemInfo (s : MemInfo) : Traced (BitVec 32) Fault MemInfo := do
  let edi := s.edi
  let ecx := s.ecx
  let esi := s.esi
  let s := showMsgInProtectedMode (s.setAl 2)
  let s ← Traced.loop .endless memInfoRound loopRounds
    { s with esi := memChkBufPhy, ecx := s.mcrNumber }
  pure { s with ecx := ecx, edi := edi, esi := esi }

/-- The loader in protected mode: nothing has written the buffer since, and `_MemSize` is assembled as
0. -/
def Collect.handOver (c : Collect) (s : MemInfo) : MemInfo :=
  { s with
    memSize := 0, mcrNumber := c.mcrNumber
    mem := fun x => if memChkBufPhy.toNat ≤ x ∧ x < memChkBufPhy.toNat + 256 then c.mem x else s.mem x }

/-! ### The answers -/

/-- **The answers end** with `ebx` 0 or with the carry flag. -/
inductive Ended : List Answer → Prop
  | carry : Ended [.carry]
  | last (ard : Ard) : Ended [.range 0 ard]
  | more {ebx : BitVec 32} (goesOn : ebx ≠ 0) (ard : Ard) {rest : List Answer} (ended : Ended rest) :
      Ended (.range ebx ard :: rest)

def Answer.ard? : Answer → Option Ard
  | carry => none
  | range _ ard => some ard

/-- The descriptors answered. -/
def ards (answers : List Answer) : List Ard := answers.filterMap Answer.ard?

variable {answers : List Answer} {c c' : Collect} {m : Mem} {d : Ard}

/-! ### Descriptors in memory -/

theorem toNat_di_add {di : BitVec 16} {n : ℕ} (room : di.toNat + n < 2 ^ 16) :
    (di + BitVec.ofNat 16 n).toNat = di.toNat + n := by
  rw [BitVec.toNat_add, BitVec.toNat_ofNat]
  omega

theorem linear_add {di : BitVec 16} {n : ℕ} (room : di.toNat + n < 2 ^ 16) :
    linear baseOfLoader (di + BitVec.ofNat 16 n) = linear baseOfLoader di + n := by
  rw [linear, toNat_di_add room, linear, Nat.add_assoc]

theorem putBytes_eq {di : BitVec 16} {bytes : List (BitVec 8)}
    (room : di.toNat + bytes.length ≤ 2 ^ 16) :
    putBytes m di bytes = storeBytes m (linear baseOfLoader di) bytes := by
  induction bytes generalizing m di with
  | nil => rfl
  | cons byte bytes ih =>
    rw [List.length_cons] at room
    cases bytes with
    | nil => rfl
    | cons byte' bytes =>
      rw [List.length_cons] at room ih
      have offset : (di + 1).toNat = di.toNat + 1 := toNat_di_add (n := 1) (by omega)
      have next : linear baseOfLoader (di + 1) = linear baseOfLoader di + 1 :=
        linear_add (n := 1) (by omega)
      rw [putBytes, ih (by omega), next]
      rfl

/-- A word of a descriptor in memory. -/
theorem Ard.fetch {addr : BitVec 32} {j : ℕ} (inside : j < 5) (room : addr.toNat + 20 ≤ 2 ^ 32)
    (there : ∀ k < 20, m (addr.toNat + k) = d.byte k) :
    fetch32 m (addr + BitVec.ofNat 32 (4 * j)) = d.word j := by
  have place : (addr + BitVec.ofNat 32 (4 * j)).toNat = addr.toNat + 4 * j := by
    rw [BitVec.toNat_add, BitVec.toNat_ofNat]
    omega
  have byte : ∀ r < 4, m (addr.toNat + 4 * j + r) = (d.word j).extractLsb' (8 * r) 8 := by
    intro r small
    rw [Nat.add_assoc, there (4 * j + r) (by omega), Ard.byte, Nat.mul_add_div (by decide),
      Nat.div_eq_of_lt small, Nat.add_zero, Nat.mul_add_mod, Nat.mod_eq_of_lt small]
  rw [fetch32_eq (by omega), place, load32, ← Nat.add_zero (addr.toNat + 4 * j), byte 0 (by decide)]
  rw [Nat.add_zero, byte 1 (by decide), byte 2 (by decide), byte 3 (by decide)]
  exact word_extract (d.word j)

/-! ### The loop that collects -/

/-- **What the loop leaves** of descriptors `ds`: the addresses it wrote, and the descriptors. -/
structure Collected (ds : List Ard) (c : Collect) (log : List ℕ) (c' : Collect) : Prop where
  addresses : ∀ x, x ∈ log ↔ ∃ i < ds.length, ∃ k < 20,
    x = linear baseOfLoader (c.di + BitVec.ofNat 16 (20 * i + k))
  stored : c.di.toNat + 20 * ds.length < 2 ^ 16 → ∀ i d, ds[i]? = some d →
    ∀ k < 20, c'.mem (linear baseOfLoader c.di + (20 * i + k)) = d.byte k
  kept : c.di.toNat + 20 * ds.length < 2 ^ 16 → ∀ x < linear baseOfLoader c.di, c'.mem x = c.mem x

theorem Collected.nil (c : Collect) (mcrNumber : BitVec 32) :
    Collected [] c [] { c with mcrNumber := mcrNumber } := by
  refine ⟨fun x => iff_of_false List.not_mem_nil ?_, fun _ i d here => ?_, fun _ _ _ => rfl⟩
  · rintro ⟨i, inside, -⟩
    exact Nat.not_lt_zero i inside
  · cases here

/-- One descriptor more. -/
theorem Collected.cons {ebx : BitVec 32} {ard : Ard} {ds : List Ard} {log : List ℕ}
    (collected : Collected ds (c.next ebx (putBytes c.mem c.di ard.bytes)) log c') :
    Collected (ard :: ds) c
      ((List.range 20).map (fun k => linear baseOfLoader (c.di + BitVec.ofNat 16 k)) ++ log) c' := by
  have same : ∀ n, c.di + 20 + BitVec.ofNat 16 n = c.di + BitVec.ofNat 16 (20 + n) := fun n => by
    rw [BitVec.ofNat_add, ← BitVec.add_assoc]
    rfl
  have offset : c.di.toNat + 20 * (ds.length + 1) < 2 ^ 16 →
      (c.di + 20).toNat + 20 * ds.length < 2 ^ 16 ∧
        linear baseOfLoader (c.di + 20) = linear baseOfLoader c.di + 20 := by
    intro room
    have next : (c.di + 20).toNat = c.di.toNat + 20 := toNat_di_add (n := 20) (by omega)
    exact ⟨by omega, linear_add (n := 20) (by omega)⟩
  have wrote : c.di.toNat + 20 * (ds.length + 1) < 2 ^ 16 →
      putBytes c.mem c.di ard.bytes = storeBytes c.mem (linear baseOfLoader c.di) ard.bytes :=
    fun room => putBytes_eq (by rw [Ard.bytes, List.length_map, List.length_range]; omega)
  obtain ⟨addresses, stored, kept⟩ := collected
  unfold Collect.next at addresses stored kept
  dsimp only at addresses stored kept
  refine ⟨fun x => ?_, fun room => ?_, fun room x below => ?_⟩
  · rw [List.mem_append, addresses, List.mem_map]
    constructor
    · rintro (⟨k, small, rfl⟩ | ⟨i, inside, k, small, rfl⟩)
      · exact ⟨0, Nat.succ_pos _, k, List.mem_range.mp small, by rw [Nat.mul_zero, Nat.zero_add]⟩
      · refine ⟨i + 1, Nat.succ_lt_succ inside, k, small, congrArg _ ?_⟩
        rw [Nat.mul_succ, Nat.add_comm _ 20, Nat.add_assoc]
        exact same (20 * i + k)
    · rintro ⟨i, inside, k, small, rfl⟩
      rcases Nat.eq_zero_or_pos i with rfl | later
      · exact .inl ⟨k, List.mem_range.mpr small, by rw [Nat.mul_zero, Nat.zero_add]⟩
      · obtain ⟨i, rfl⟩ := Nat.exists_eq_add_one_of_ne_zero (Nat.ne_of_gt later)
        refine .inr ⟨i, Nat.lt_of_succ_lt_succ inside, k, small, congrArg _ ?_⟩
        rw [Nat.mul_succ, Nat.add_comm _ 20, Nat.add_assoc]
        exact (same (20 * i + k)).symm
  · obtain ⟨room', line⟩ := offset room
    intro i d here k small
    cases i with
    | zero =>
      obtain rfl : ard = d := Option.some.inj (List.getElem?_cons_zero.symm.trans here)
      have inside : k < ard.bytes.length := by
        rw [Ard.bytes, List.length_map, List.length_range]
        exact small
      have first : linear baseOfLoader c.di + (20 * 0 + k) < linear baseOfLoader (c.di + 20) := by omega
      rw [kept room' _ first, Nat.mul_zero, Nat.zero_add, wrote room, storeBytes_at inside]
      exact (List.getElem_map _).trans (congrArg ard.byte (List.getElem_range _))
    | succ i =>
      have place : linear baseOfLoader c.di + (20 * (i + 1) + k) =
          linear baseOfLoader (c.di + 20) + (20 * i + k) := by omega
      rw [List.getElem?_cons_succ] at here
      rw [place, stored room' i d here k small]
  · obtain ⟨room', line⟩ := offset room
    have off : x < linear baseOfLoader (c.di + 20) := by omega
    rw [kept room' x off, wrote room]
    exact storeBytes_off (.inl below)

/-- **The loop collects the descriptors**, and counts them unless there was an error. -/
theorem getMemInfoLoop_gives (ended : Ended answers) (c : Collect) :
    ∃ log c', (getMemInfoLoop answers c).Gives log c' ∧ Collected (ards answers) c log c' ∧
      c'.mcrNumber = if Answer.carry ∈ answers then 0
        else c.mcrNumber + BitVec.ofNat 32 (ards answers).length := by
  have another : ∀ {ebx ard}, Answer.carry ≠ .range ebx ard := by
    intro ebx ard same
    cases same
  induction ended generalizing c with
  | carry => exact ⟨[], _, rfl, .nil c 0, (if_pos (List.mem_singleton.mpr rfl)).symm⟩
  | last ard =>
    exact ⟨_, _, rfl, .cons (.nil _ _), (if_neg fun member => another (List.mem_singleton.mp member)).symm⟩
  | more goesOn ard ended ih =>
    rename_i ebx rest
    let c₁ := c.next ebx (putBytes c.mem c.di ard.bytes)
    obtain ⟨log, c', runs, collected, count⟩ := ih c₁
    have round : (getMemInfoRound (.range ebx ard) c).Gives _ (.inl c₁) :=
      Traced.Gives.bind_nil (x := ard.put c) rfl (if_neg goesOn)
    refine ⟨_, c', round.bind runs, .cons collected, ?_⟩
    have members : Answer.carry ∈ Answer.range ebx ard :: rest ↔ Answer.carry ∈ rest :=
      List.mem_cons.trans (or_iff_right another)
    have more : (ards (.range ebx ard :: rest)).length = (ards rest).length + 1 := rfl
    have sum : c.mcrNumber + 1 + BitVec.ofNat 32 (ards rest).length =
        c.mcrNumber + BitVec.ofNat 32 ((ards rest).length + 1) := by
      rw [BitVec.add_assoc, Nat.add_comm, BitVec.ofNat_add]
      rfl
    have here : c₁.mcrNumber = c.mcrNumber + 1 := rfl
    simp only [count, members, more, here, sum]

/-! ### Counters -/

variable {s s₀ : MemInfo} {n i : ℕ}

/-- `loop` in round `i` of `n`. -/
theorem loop_eq (inside : i < n) (small : n < 2 ^ 32) (count : s.ecx = BitVec.ofNat 32 (n - i)) :
    s.loop = if i + 1 = n then .inr { s with ecx := BitVec.ofNat 32 (n - (i + 1)) }
      else .inl { s with ecx := BitVec.ofNat 32 (n - (i + 1)) } := by
  unfold MemInfo.loop
  dsimp only
  rw [count, count_down inside]
  simp only [count_zero inside small]

/-! ### Taking a descriptor -/

/-- The top of `x_2`. -/
def AtByte (s₀ : MemInfo) (i : ℕ) (s : MemInfo) : Prop := ∃ eax edi text,
  s = { s₀ with eax := eax, ecx := BitVec.ofNat 32 (4 - i), edi := edi, memDataMsg := text }

/-- `x_2` prints a word. -/
theorem x2_gives (word : BitVec 32) (s₀ : MemInfo) : ∃ eax edi text,
    (Traced.loop .endless (x2Round word) loopRounds { s₀ with ecx := 4 }).Gives []
      { s₀ with eax := eax, ecx := 0, edi := edi, memDataMsg := text } := by
  have round : ∀ i < 4, ∀ s, AtByte s₀ i s → ∃ s',
      (x2Round word s).Gives [] (if i + 1 = 4 then .inr s' else .inl s') ∧ AtByte s₀ (i + 1) s' := by
    rintro i inside _ ⟨eax, edi, text, rfl⟩
    exact ⟨_, congrArg Pure.pure (loop_eq inside (by decide) rfl), _, _, _, rfl⟩
  have enough : 4 < loopRounds := by decide
  obtain ⟨s', runs, eax, edi, text, rfl⟩ :=
    Traced.loop_counts .endless round (by decide) enough ⟨_, _, _, rfl⟩
  exact ⟨eax, edi, text, runs⟩

theorem setMemData_eq (s : MemInfo) : setMemData s = { s with
    baseAddrLow := if s.edx = 5 then s.eax else s.baseAddrLow
    lengthLow := if s.edx = 3 then s.eax else s.lengthLow
    type := if s.edx = 1 then s.eax else s.type } := by
  unfold setMemData
  by_cases base : s.edx = 5
  · rw [base]
    rfl
  by_cases length : s.edx = 3
  · rw [length]
    rfl
  by_cases type : s.edx = 1
  · rw [type]
    rfl
  rw [if_neg base, if_neg base, if_neg length, if_neg length, if_neg type, if_neg type]

/-- What a round of `x_1` leaves. -/
def MemInfo.took (s : MemInfo) (eax edi : BitVec 32) (text : List (BitVec 8)) : MemInfo :=
  { s with
    eax := eax, ecx := 0, edx := s.edx - 1, esi := s.esi + 4, edi := edi, memDataMsg := text
    baseAddrLow := if s.edx = 5 then fetch32 s.mem s.esi else s.baseAddrLow
    lengthLow := if s.edx = 3 then fetch32 s.mem s.esi else s.lengthLow
    type := if s.edx = 1 then fetch32 s.mem s.esi else s.type }

theorem x1Round_eq (s : MemInfo) : ∃ eax edi text, (x1Round s).Gives [s.esi]
    (if s.edx - 1 = 0 then .inr (s.took eax edi text) else .inl (s.took eax edi text)) := by
  obtain ⟨eax, edi, text, runs⟩ := x2_gives (fetch32 s.mem s.esi)
    { s.took (fetch32 s.mem s.esi) s.edi s.memDataMsg with edx := s.edx, ecx := s.ecx }
  refine ⟨eax, edi + 4, text, ?_⟩
  unfold x1Round
  rw [setMemData_eq]
  exact .touch_bind (.bind runs (apply_ite pure _ _ _).symm)

/-- The top of `x_1`: `i` words have been taken. -/
structure AtWord (s₀ : MemInfo) (i : ℕ) (s : MemInfo) : Prop where
  source : s.esi = s₀.esi + BitVec.ofNat 32 (4 * i)
  count : s.edx = BitVec.ofNat 32 (5 - i)
  memory : s.mem = s₀.mem
  size : s.memSize = s₀.memSize
  base : 1 ≤ i → s.baseAddrLow = fetch32 s₀.mem s₀.esi
  length : 3 ≤ i → s.lengthLow = fetch32 s₀.mem (s₀.esi + 8)
  type : 5 ≤ i → s.type = fetch32 s₀.mem (s₀.esi + 16)

theorem x1Round_gives (inside : i < 5) (here : AtWord s₀ i s) : ∃ s',
    (x1Round s).Gives [s₀.esi + BitVec.ofNat 32 (4 * i)] (if i + 1 = 5 then .inr s' else .inl s') ∧
      AtWord s₀ (i + 1) s' := by
  obtain ⟨source, count, memory, size, base, length, type⟩ := here
  obtain ⟨eax, edi, text, round⟩ := x1Round_eq s
  have left : s.edx - 1 = BitVec.ofNat 32 (5 - (i + 1)) := count ▸ count_down inside
  simp only [source, left, count_zero inside (show 5 < 2 ^ 32 by decide)] at round
  have fifth : s.edx = 5 ↔ i = 0 := by
    have all : ∀ i < 5, BitVec.ofNat 32 (5 - i) = 5 ↔ i = 0 := by decide
    exact count ▸ all i inside
  have third : s.edx = 3 ↔ i = 2 := by
    have all : ∀ i < 5, BitVec.ofNat 32 (5 - i) = 3 ↔ i = 2 := by decide
    exact count ▸ all i inside
  have first : s.edx = 1 ↔ i = 4 := by
    have all : ∀ i < 5, BitVec.ofNat 32 (5 - i) = 1 ↔ i = 4 := by decide
    exact count ▸ all i inside
  refine ⟨_, round, ?_, left, memory, size, fun _ => ?_, fun _ => ?_, fun _ => ?_⟩
  · show s.esi + 4 = _
    rw [source, BitVec.add_assoc, Nat.mul_succ, BitVec.ofNat_add]
    rfl
  · show (if s.edx = 5 then _ else _) = _
    by_cases now : i = 0
    · rw [if_pos (fifth.mpr now), memory, source, now]
      exact congrArg _ (BitVec.add_zero _)
    · rw [if_neg fun five => now (fifth.mp five), base (by omega)]
  · show (if s.edx = 3 then _ else _) = _
    by_cases now : i = 2
    · rw [if_pos (third.mpr now), memory, source, now]
      rfl
    · rw [if_neg fun three => now (third.mp three), length (by omega)]
  · show (if s.edx = 1 then _ else _) = _
    have now : i = 4 := by omega
    rw [if_pos (first.mpr now), memory, source, now]
    rfl

/-- The end of a range as `CalculateMemSize` computes it. -/
def Ard.lowEnd (d : Ard) : BitVec 32 := d.baseAddrLow + d.lengthLow

/-- `MemSize` after a descriptor. -/
def Ard.sized (d : Ard) (memSize : BitVec 32) : BitVec 32 :=
  if d.type = 1 ∧ ¬ d.lowEnd < memSize then d.lowEnd else memSize

/-- `MemSize` after descriptors. -/
def sizedBy (ds : List Ard) : BitVec 32 := ds.foldl (fun memSize d => Ard.sized d memSize) 0

theorem sizedBy_concat (ds : List Ard) (d : Ard) : sizedBy (ds ++ [d]) = d.sized (sizedBy ds) :=
  List.foldl_append

theorem calculateMemSize_eq {s : MemInfo} (base : s.baseAddrLow = d.baseAddrLow)
    (length : s.lengthLow = d.lengthLow) (type : s.type = d.type) :
    ∃ eax, calculateMemSize s = { s with eax := eax, memSize := d.sized s.memSize } := by
  unfold calculateMemSize Ard.sized Ard.lowEnd
  rw [base, length, type]
  by_cases usable : d.type = 1
  · refine ⟨d.baseAddrLow + d.lengthLow, ?_⟩
    rw [if_neg (not_not.mpr usable)]
    by_cases less : d.baseAddrLow + d.lengthLow < s.memSize
    · rw [if_pos less, if_neg fun both => both.2 less, ← base, ← length, ← type]
    · rw [if_neg less, if_pos ⟨usable, less⟩, ← base, ← length, ← type]
  · refine ⟨s.eax, ?_⟩
    rw [if_pos usable, if_neg fun both => usable both.1, ← base, ← length, ← type]

/-- **A round of `mem_info`** reads the five words of a descriptor. -/
theorem memInfoRound_gives {s : MemInfo} (d : Ard)
    (there : ∀ j < 5, fetch32 s.mem (s.esi + BitVec.ofNat 32 (4 * j)) = d.word j) : ∃ s' : MemInfo,
    (memInfoRound s).Gives ((List.range 5).map fun j => s.esi + BitVec.ofNat 32 (4 * j)) s'.loop ∧
      s'.ecx = s.ecx ∧ s'.esi = s.esi + 20 ∧ s'.mem = s.mem ∧ s'.memSize = d.sized s.memSize := by
  let s₀ : MemInfo := { s with edi := 0, edx := 5 }
  have top : AtWord s₀ 0 s₀ := by
    refine ⟨(BitVec.add_zero _).symm, rfl, rfl, rfl, fun late => ?_, fun late => ?_, fun late => ?_⟩ <;>
      exact absurd late (by decide)
  have enough : 5 < loopRounds := by decide
  obtain ⟨s₁, runs, source, -, memory, size, base, length, type⟩ :=
    Traced.loop_counts .endless (fun i inside s here => x1Round_gives inside here) (by decide) enough top
  let s₂ := showMsgInProtectedMode (MemInfo.setAl 3 { s₁ with ecx := s.ecx, edi := s.edi })
  have word : ∀ j < 5, fetch32 s₀.mem (s₀.esi + BitVec.ofNat 32 (4 * j)) = d.word j := there
  have baseWord : s₁.baseAddrLow = d.baseAddrLow :=
    (base (by decide)).trans ((congrArg _ (BitVec.add_zero _).symm).trans (word 0 (by decide)))
  obtain ⟨eax, computed⟩ : ∃ eax, calculateMemSize s₂ = _ :=
    calculateMemSize_eq baseWord ((length (by decide)).trans (word 2 (by decide)))
      ((type (by decide)).trans (word 4 (by decide)))
  refine ⟨calculateMemSize s₂, ?_, ?_⟩
  · rw [← List.map_eq_flatMap] at runs
    exact runs.bind_nil rfl
  · rw [computed]
    exact ⟨rfl, source, memory, congrArg d.sized size⟩

/-- The addresses of the words of `n` descriptors. -/
def descriptorReads (n : ℕ) : List (BitVec 32) :=
  (List.range n).flatMap fun i => (List.range 5).map fun j =>
    memChkBufPhy + BitVec.ofNat 32 (20 * i) + BitVec.ofNat 32 (4 * j)

/-- The descriptors lie in the buffer. -/
def InBuffer (ds : List Ard) (m : Mem) : Prop :=
  ∀ i d, ds[i]? = some d → ∀ k < 20, m (memChkBufPhy.toNat + (20 * i + k)) = d.byte k

/-- The top of `mem_info`: `i` descriptors have been taken. -/
structure AtDescriptor (ds : List Ard) (m : Mem) (i : ℕ) (s : MemInfo) : Prop where
  source : s.esi = memChkBufPhy + BitVec.ofNat 32 (20 * i)
  count : s.ecx = BitVec.ofNat 32 (ds.length - i)
  memory : s.mem = m
  size : s.memSize = sizedBy (ds.take i)

/-- **`ShowMemInfo` takes the descriptors** in turn. -/
theorem showMemInfo_gives {ds : List Ard} {s : MemInfo} (buffer : InBuffer ds s.mem)
    (some : 0 < ds.length) (few : ds.length ≤ 12) (count : s.mcrNumber = BitVec.ofNat 32 ds.length)
    (zero : s.memSize = 0) : ∃ s' : MemInfo, (showMemInfo s).Gives (descriptorReads ds.length) s' ∧
      s'.memSize = sizedBy ds := by
  have round : ∀ i < ds.length, ∀ s', AtDescriptor ds s.mem i s' → ∃ s'' : MemInfo,
      (memInfoRound s').Gives ((List.range 5).map fun j =>
        memChkBufPhy + BitVec.ofNat 32 (20 * i) + BitVec.ofNat 32 (4 * j))
        (if i + 1 = ds.length then .inr s'' else .inl s'') ∧ AtDescriptor ds s.mem (i + 1) s'' := by
    rintro i inside s' ⟨source, left, memory, size⟩
    have here : ds[i]? = Option.some ds[i] := List.getElem?_eq_getElem inside
    have address : (memChkBufPhy + BitVec.ofNat 32 (20 * i)).toNat = memChkBufPhy.toNat + 20 * i := by
      have buf : memChkBufPhy.toNat = 0x901c1 := by decide
      rw [BitVec.toNat_add, BitVec.toNat_ofNat, buf]
      omega
    have there : ∀ j < 5, fetch32 s'.mem (s'.esi + BitVec.ofNat 32 (4 * j)) = ds[i].word j := by
      intro j small
      rw [memory, source]
      refine Ard.fetch small ?_ fun k inside => ?_
      · have buf : memChkBufPhy.toNat = 0x901c1 := by decide
        omega
      · rw [address, Nat.add_assoc]
        exact buffer i _ here k inside
    obtain ⟨s'', runs, ecx, esi, mem, memSize⟩ := memInfoRound_gives ds[i] there
    rw [source, loop_eq inside (by omega) (ecx.trans left)] at runs
    refine ⟨_, runs, ?_, rfl, mem.trans memory, ?_⟩
    · show s''.esi = _
      rw [esi, source, BitVec.add_assoc, Nat.mul_succ, BitVec.ofNat_add]
      rfl
    · show s''.memSize = _
      rw [memSize, size, List.take_add_one, here]
      exact (sizedBy_concat (ds.take i) ds[i]).symm
  have enough : ds.length < loopRounds := Nat.lt_of_le_of_lt few (by decide)
  let s₀ : MemInfo :=
    { showMsgInProtectedMode (s.setAl 2) with esi := memChkBufPhy, ecx := s.mcrNumber }
  have top : AtDescriptor ds s.mem 0 s₀ := ⟨(BitVec.add_zero _).symm, count, rfl, zero⟩
  obtain ⟨s', runs, -, -, -, size⟩ := Traced.loop_counts .endless round some enough top
  refine ⟨{ s' with ecx := s.ecx, edi := s.edi, esi := s.esi }, runs.bind_nil rfl, ?_⟩
  rw [List.take_length] at size
  exact size

/-- `ShowMemInfo` reads at least one word, whatever the count. -/
theorem showMemInfo_reads (s : MemInfo) : memChkBufPhy ∈ (showMemInfo s).accesses := by
  have some : 0 < loopRounds := by decide
  refine Traced.mem_bind_left (Traced.mem_loop some (Traced.mem_bind_left (Traced.mem_loop some ?_)))
  exact Traced.mem_bind_left (List.mem_singleton.mpr rfl)

/-! ### The size -/

/-- The range of a descriptor: where it begins and ends. -/
def Ard.rangeBase (d : Ard) : ℕ := d.baseAddrHigh.toNat * 2 ^ 32 + d.baseAddrLow.toNat
def Ard.rangeEnd (d : Ard) : ℕ :=
  d.rangeBase + (d.lengthHigh.toNat * 2 ^ 32 + d.lengthLow.toNat)

/-- The range lies below 4 GiB. -/
def Ard.Below (d : Ard) : Prop := d.rangeBase < 2 ^ 32 ∧ d.rangeEnd ≤ 2 ^ 32

instance (d : Ard) : Decidable d.Below := inferInstanceAs (Decidable (_ ∧ _))

/-- The ends of the usable ranges below 4 GiB. -/
def usableEnds (ds : List Ard) : Set ℕ := {x | ∃ d ∈ ds, d.type = 1 ∧ d.Below ∧ d.rangeEnd = x}

/-- The ends as `CalculateMemSize` computes them. -/
def lowEnds (ds : List Ard) : Set ℕ := {x | ∃ d ∈ ds, d.type = 1 ∧ d.lowEnd.toNat = x}

/-- The low words have the end of a range that ends before 4 GiB. -/
theorem lowEnd_toNat (before : d.rangeEnd < 2 ^ 32) : d.lowEnd.toNat = d.rangeEnd := by
  have base : d.baseAddrHigh.toNat = 0 := by
    unfold Ard.rangeEnd Ard.rangeBase at before
    omega
  have length : d.lengthHigh.toNat = 0 := by
    unfold Ard.rangeEnd Ard.rangeBase at before
    omega
  rw [Ard.rangeEnd, Ard.rangeBase, base, length] at before ⊢
  rw [Ard.lowEnd, BitVec.toNat_add]
  omega

/-- `MemSize` is the greatest of the ends. -/
theorem sizedBy_isGreatest (ds : List Ard) :
    IsGreatest (insert 0 (lowEnds ds)) (sizedBy ds).toNat := by
  induction ds using List.reverseRecOn with
  | nil =>
    refine ⟨Set.mem_insert _ _, ?_⟩
    rintro x (rfl | ⟨d, member, -⟩)
    · exact Nat.le_refl 0
    · exact absurd member List.not_mem_nil
  | append_singleton ds d ih =>
    have members : ∀ x, x ∈ lowEnds (ds ++ [d]) ↔
        x ∈ lowEnds ds ∨ (d.type = 1 ∧ d.lowEnd.toNat = x) := by
      intro x
      constructor
      · rintro ⟨d', member, here⟩
        rcases List.mem_append.mp member with early | last
        · exact .inl ⟨d', early, here⟩
        · obtain rfl := List.mem_singleton.mp last
          exact .inr here
      · rintro (⟨d', member, here⟩ | here)
        · exact ⟨d', List.mem_append_left _ member, here⟩
        · exact ⟨d, List.mem_append_right _ (List.mem_singleton.mpr rfl), here⟩
    rw [sizedBy_concat, Ard.sized]
    by_cases greater : d.type = 1 ∧ ¬ d.lowEnd < sizedBy ds
    · rw [if_pos greater]
      refine ⟨.inr ((members _).mpr (.inr ⟨greater.1, rfl⟩)), ?_⟩
      have less : (sizedBy ds).toNat ≤ d.lowEnd.toNat := Nat.le_of_not_lt greater.2
      rintro x (zero | here)
      · exact zero ▸ Nat.zero_le _
      · rcases (members x).mp here with early | ⟨-, rfl⟩
        · exact (ih.2 (.inr early)).trans less
        · exact Nat.le_refl _
    · rw [if_neg greater]
      refine ⟨ih.1.imp id fun early => (members _).mpr (.inl early), ?_⟩
      rintro x (zero | here)
      · exact zero ▸ Nat.zero_le _
      · rcases (members x).mp here with early | ⟨usable, rfl⟩
        · exact ih.2 (.inr early)
        · exact Nat.le_of_lt (not_not.mp fun more => greater ⟨usable, more⟩)

/-- **When the greatest of the low ends is the greatest end below 4 GiB.** -/
theorem sizedBy_iff (ds : List Ard) : IsGreatest (insert 0 (usableEnds ds)) (sizedBy ds).toNat ↔
    (∀ d ∈ ds, d.type = 1 → d.Below → d.rangeEnd < 2 ^ 32) ∧
    ∀ d ∈ ds, d.type = 1 → ¬ d.Below → d.lowEnd = 0 ∨
      ∃ d' ∈ ds, d'.type = 1 ∧ d'.Below ∧ d.lowEnd.toNat ≤ d'.rangeEnd := by
  have low := sizedBy_isGreatest ds
  have bound := (sizedBy ds).isLt
  constructor
  · intro greatest
    refine ⟨fun d member usable below => ?_, fun d member usable above => ?_⟩
    · exact (greatest.2 (.inr ⟨d, member, usable, below, rfl⟩)).trans_lt bound
    · have less : d.lowEnd.toNat ≤ (sizedBy ds).toNat := low.2 (.inr ⟨d, member, usable, rfl⟩)
      rcases greatest.1 with zero | ⟨d', member', usable', below', same⟩
      · refine .inl (BitVec.eq_of_toNat_eq (Nat.eq_zero_of_le_zero ?_))
        exact zero ▸ less
      · exact .inr ⟨d', member', usable', below', same ▸ less⟩
  · rintro ⟨fits, covered⟩
    have ends : ∀ d ∈ ds, d.type = 1 → d.Below → d.rangeEnd ≤ (sizedBy ds).toNat := by
      intro d member usable below
      rw [← lowEnd_toNat (fits d member usable below)]
      exact low.2 (.inr ⟨d, member, usable, rfl⟩)
    refine ⟨?_, ?_⟩
    · rcases low.1 with zero | ⟨d, member, usable, same⟩
      · exact .inl zero
      by_cases below : d.Below
      · refine .inr ⟨d, member, usable, below, ?_⟩
        rw [← same, lowEnd_toNat (fits d member usable below)]
      rcases covered d member usable below with zero | ⟨d', member', usable', below', more⟩
      · refine .inl ?_
        rw [← same, zero]
        rfl
      · exact .inr ⟨d', member', usable', below',
          Nat.le_antisymm (ends d' member' usable' below') (same ▸ more)⟩
    · rintro x (zero | ⟨d, member, usable, below, rfl⟩)
      · exact zero ▸ Nat.zero_le _
      · exact ends d member usable below

/-- **The memory is sized**: the descriptors are put in the buffer, as many are taken as have been
counted, and `MemSize` is the greatest end of a usable range below 4 GiB, or 0. -/
def MemorySized (answers : List Answer) (m : Mem) (s : MemInfo) : Prop :=
  ∃ log c s', (getMemInfo answers m).Gives log c ∧
    (∀ x ∈ log, memChkBufPhy.toNat ≤ x ∧ x < memChkBufPhy.toNat + 256) ∧
    (showMemInfo (c.handOver s)).Gives (descriptorReads c.mcrNumber.toNat) s' ∧
    IsGreatest (insert 0 (usableEnds ((ards answers).take c.mcrNumber.toNat))) s'.memSize.toNat

theorem ards_pos (ended : Ended answers) (good : Answer.carry ∉ answers) :
    0 < (ards answers).length := by
  cases ended with
  | carry => exact absurd (List.mem_singleton.mpr rfl) good
  | last ard => exact Nat.one_pos
  | more goesOn ard ended => exact Nat.succ_pos _

theorem linear_memChkBuf : linear baseOfLoader memChkBuf = memChkBufPhy.toNat := by decide

/-- Twelve descriptors fit in the buffer. -/
theorem inside_iff {ds : List Ard} {log : List ℕ} (start : c.di = memChkBuf)
    (collected : Collected ds c log c') :
    (∀ x ∈ log, memChkBufPhy.toNat ≤ x ∧ x < memChkBufPhy.toNat + 256) ↔ ds.length ≤ 12 := by
  have offset : memChkBuf.toNat = 0x1c1 := by decide
  constructor
  · intro inside
    refine Nat.le_of_not_lt fun many => ?_
    have wrote := (collected.addresses _).mpr ⟨12, many, 16, by decide, rfl⟩
    have outside : ¬ linear baseOfLoader (memChkBuf + BitVec.ofNat 16 (20 * 12 + 16)) <
      memChkBufPhy.toNat + 256 := by decide
    exact outside (start ▸ (inside _ wrote).2)
  · intro few x wrote
    obtain ⟨i, inside, k, small, rfl⟩ := (collected.addresses x).mp wrote
    rw [start, linear_add (by omega), linear_memChkBuf]
    omega

/-- What has been collected is in the buffer when it is taken. -/
theorem inBuffer_handOver {ds : List Ard} {log : List ℕ} (start : c.di = memChkBuf)
    (collected : Collected ds c log c') (few : ds.length ≤ 12) (s : MemInfo) :
    InBuffer ds (c'.handOver s).mem := by
  have offset : memChkBuf.toNat = 0x1c1 := by decide
  intro i d here k small
  obtain ⟨inside, -⟩ := List.getElem?_eq_some_iff.mp here
  have room : c.di.toNat + 20 * ds.length < 2 ^ 16 := by
    rw [start]
    omega
  have there := collected.stored room i d here k small
  rw [start, linear_memChkBuf] at there
  refine (if_pos ⟨Nat.le_add_right _ _, ?_⟩).trans there
  omega

/-- After an error the count is 0, and `ShowMemInfo` reads what is not counted. -/
theorem not_sized_of_carry (ended : Ended answers) (bad : Answer.carry ∈ answers) (m : Mem)
    (s : MemInfo) : ¬ MemorySized answers m s := by
  rintro ⟨log, c, s', runs, -, shown, -⟩
  obtain ⟨log', c', runs', -, count⟩ := getMemInfoLoop_gives ended
    { ebx := 0, di := memChkBuf, mcrNumber := 0, mem := m }
  obtain ⟨rfl, rfl⟩ := Traced.Gives.unique runs runs'
  rw [if_pos bad] at count
  rw [count] at shown
  have reads := showMemInfo_reads (c.handOver s)
  rw [shown.accesses] at reads
  cases reads

/-- **When the loader sizes the memory**: for answers without an error, for at most twelve descriptors, no
usable range that ends at 4 GiB, and usable ranges above that are not greater by their low words. -/
theorem memory_sized_iff (ended : Ended answers) (m : Mem) (s : MemInfo) :
    MemorySized answers m s ↔ Answer.carry ∉ answers ∧ (ards answers).length ≤ 12 ∧
      (∀ d ∈ ards answers, d.type = 1 → d.Below → d.rangeEnd < 2 ^ 32) ∧
      ∀ d ∈ ards answers, d.type = 1 → ¬ d.Below → d.lowEnd = 0 ∨
        ∃ d' ∈ ards answers, d'.type = 1 ∧ d'.Below ∧ d.lowEnd.toNat ≤ d'.rangeEnd := by
  obtain ⟨log, c, runs, collected, count⟩ := getMemInfoLoop_gives ended
    { ebx := 0, di := memChkBuf, mcrNumber := 0, mem := m }
  have taken : Answer.carry ∉ answers → (ards answers).length ≤ 12 →
      c.mcrNumber.toNat = (ards answers).length ∧ ∃ s' : MemInfo,
        (showMemInfo (c.handOver s)).Gives (descriptorReads (ards answers).length) s' ∧
          s'.memSize = sizedBy (ards answers) := by
    intro good few
    have number : c.mcrNumber = BitVec.ofNat 32 (ards answers).length :=
      (count.trans (if_neg good)).trans (BitVec.zero_add _)
    refine ⟨?_, showMemInfo_gives (inBuffer_handOver rfl collected few s) (ards_pos ended good) few
      number rfl⟩
    rw [number, BitVec.toNat_ofNat]
    omega
  constructor
  · rintro ⟨log', c', s', runs', inside, shown, greatest⟩
    obtain ⟨rfl, rfl⟩ := Traced.Gives.unique runs' runs
    have few := (inside_iff rfl collected).mp inside
    have good : Answer.carry ∉ answers := fun bad => not_sized_of_carry ended bad m s
      ⟨log', c', s', runs', inside, shown, greatest⟩
    obtain ⟨number, s'', shown', size⟩ := taken good few
    obtain ⟨-, rfl⟩ := shown.unique shown'
    rw [number, List.take_length, size] at greatest
    exact ⟨good, few, (sizedBy_iff _).mp greatest⟩
  · rintro ⟨good, few, ranges⟩
    obtain ⟨number, s', shown, size⟩ := taken good few
    refine ⟨log, c, s', runs, (inside_iff rfl collected).mpr few, number.symm ▸ shown, ?_⟩
    rw [number, List.take_length, size]
    exact (sizedBy_iff _).mpr ranges

/-- A usable range up to 640 KiB and one up to 128 MiB, and a reserved one below 4 GiB. -/
theorem memory_sized_twice :
    MemorySized [.range 1 ⟨0, 0, 0x9fc00, 0, 1⟩, .range 2 ⟨0x100000, 0, 0x7f00000, 0, 1⟩,
        .range 0 ⟨0xfffc0000, 0, 0x40000, 0, 2⟩]
      (fun _ => 0) ⟨0, 0, 0, 0, 0, 0, 0, 0, 0, 0, 2, [], fun _ => 0, fun _ => 0⟩ :=
  (memory_sized_iff (.more (by decide) _ (.more (by decide) _ (.last _))) _ _).mpr
    ⟨by decide, by decide, by decide +kernel, by decide +kernel⟩

/-- The same usable ranges, and then the carry flag. -/
theorem memory_unsized :
    ¬ MemorySized [.range 1 ⟨0, 0, 0x9fc00, 0, 1⟩, .range 2 ⟨0x100000, 0, 0x7f00000, 0, 1⟩, .carry]
      (fun _ => 0) ⟨0, 0, 0, 0, 0, 0, 0, 0, 0, 0, 2, [], fun _ => 0, fun _ => 0⟩ :=
  not_sized_of_carry (.more (by decide) _ (.more (by decide) _ .carry)) (by decide) _ _

end WalOS
