/-
**Reading the floppy in real mode** (`ReadSector` and `GetFATEntry` of `boot.s` and `loader.s`).

The two loaders have the same code, each with its own segment and offset. `Real` is what that code
works on: the 16-bit registers it uses, the words it pushes, `gOdd`, and the memory.

* `Floppy` is code that logs every sector it reads, and may stop at a division error, at a sector that
  INT 13h does not have, or at a `pop` of nothing.
* INT 13h reads what it is asked for: `jc reading` is never taken.
* The stack, `gOdd` and the parameters in the boot sector are apart from the memory that is loaded.
-/

import WalOS.Lib.Bytes
import WalOS.Lib.Fat12
import WalOS.Lib.Traced

namespace WalOS

open Bytes

/-! ### The floppy -/

/-- A floppy: the bytes of each sector. -/
abbrev Disk := ℕ → ℕ → BitVec 8

/-- The parameters in the boot sector (`fat12.s`). -/
def bpbBytsPerSec : BitVec 16 := 512
def bpbSecPerTrk : BitVec 8 := 18
def bsDrvNum : BitVec 8 := 0
def bpbNumHeads : ℕ := 2
def bpbTotSec16 : ℕ := 2880

/-- `RootDirSectors`, `SecNoOfFAT1` and `DeltaSecNo`. -/
def rootDirSectors : BitVec 16 := 14
def secNoOfFat1 : BitVec 16 := 1
def deltaSecNo : BitVec 16 := 17

/-- The two programs that load a file. -/
inductive Loader where
  | boot
  | loader
deriving DecidableEq

/-- `BaseOfLoader` and `BaseOfKernel`. -/
def Loader.base : Loader → BitVec 16
  | boot => 0x9000
  | loader => 0x8000

/-- `OffsetOfLoader` and `OffsetOfKernel`. -/
def Loader.offset : Loader → BitVec 16
  | boot => 0x0100
  | loader => 0

/-! ### Real mode -/

structure Real where
  ax : BitVec 16
  bx : BitVec 16
  cx : BitVec 16
  dx : BitVec 16
  es : BitVec 16
  di : BitVec 16
  stack : List (BitVec 16)
  gOdd : BitVec 8
  mem : Mem

/-- Why the code stops. -/
inductive Fault where
  | divide
  | noSector
  | noStack
  | endless
deriving DecidableEq

abbrev Floppy (α : Type) : Type := Traced ℕ Fault α

/-- The address of an offset in a segment. -/
def linear (segment offset : BitVec 16) : ℕ := segment.toNat * 16 + offset.toNat

/-- The word at `es` and an offset. -/
def Real.word (s : Real) (offset : BitVec 16) : BitVec 16 :=
  s.mem (linear s.es (offset + 1)) ++ s.mem (linear s.es offset)

def lowByte (w : BitVec 16) : BitVec 8 := w.setWidth 8
def highByte (w : BitVec 16) : BitVec 8 := (w >>> 8).setWidth 8

/-- `mul` of a word: the product in `dx` and `ax`. -/
def Real.mul (x : BitVec 16) (s : Real) : Real :=
  { s with dx := BitVec.ofNat 16 (s.ax.toNat * x.toNat / 2 ^ 16), ax := s.ax * x }

/-- `div` by a byte: the quotient in `al` and the remainder in `ah`. The quotient fits in a byte if the
high byte is less than the divisor. -/
def Real.divByte (x : BitVec 8) (s : Real) : Floppy Real :=
  if x ≤ highByte s.ax then Traced.stop .divide
  else pure { s with
    ax := BitVec.ofNat 8 (s.ax.toNat % x.toNat) ++ BitVec.ofNat 8 (s.ax.toNat / x.toNat) }

/-- `div` of `dx` and `ax` by a word: the quotient in `ax` and the remainder in `dx`. -/
def Real.divWord (x : BitVec 16) (s : Real) : Floppy Real :=
  let dividend := s.dx.toNat * 2 ^ 16 + s.ax.toNat
  if x ≤ s.dx then Traced.stop .divide
  else pure { s with
    ax := BitVec.ofNat 16 (dividend / x.toNat), dx := BitVec.ofNat 16 (dividend % x.toNat) }

def Real.push (word : BitVec 16) (s : Real) : Real := { s with stack := word :: s.stack }

/-- `pop` of a word, which `put` stores. -/
def Real.pop (put : BitVec 16 → Real → Real) (s : Real) : Floppy Real :=
  match s.stack with
  | word :: stack => pure (put word { s with stack := stack })
  | [] => Traced.stop .noStack

/-- The sectors from `lba` on, put in memory from `dest` on. -/
def transfer (disk : Disk) (lba count dest : ℕ) (m : Mem) : Mem := fun x =>
  if dest ≤ x ∧ x < dest + 512 * count then disk (lba + (x - dest) / 512) ((x - dest) % 512) else m x

/-- INT 13h with `ah = 2`: `al` sectors of a track, from cylinder `ch`, sector `cl` and head `dh`, to
`es:bx`. -/
def int13 (disk : Disk) (al ch cl dh dl : BitVec 8) (s : Real) : Floppy Real := do
  let cylinder := ch.toNat + 256 * (cl.toNat / 64)
  let sector := cl.toNat % 64
  Traced.check (dl = bsDrvNum ∧ dh.toNat < bpbNumHeads ∧ 1 ≤ sector ∧
    sector + al.toNat ≤ bpbSecPerTrk.toNat + 1) .noSector
  let lba := (cylinder * bpbNumHeads + dh.toNat) * bpbSecPerTrk.toNat + (sector - 1)
  Traced.check (lba + al.toNat ≤ bpbTotSec16) .noSector
  Traced.touch lba
  pure { s with
    ax := al.setWidth 16, cx := ch ++ cl, dx := dh ++ dl
    mem := transfer disk lba al.toNat (linear s.es s.bx) s.mem }

/-! ### The code -/

/-- `ReadSector`: `cl` sectors, from sector `ax`, to `es:bx`. -/
def readSector (disk : Disk) (s : Real) : Floppy Real := do
  let sectors := lowByte s.cx
  let s ← s.divByte bpbSecPerTrk
  let ah := highByte s.ax + 1
  let cl := ah
  let dh := lowByte s.ax
  let al := lowByte s.ax >>> 1
  let ch := al
  let dh := dh &&& 1
  int13 disk sectors ch cl dh bsDrvNum s

/-- `GetFATEntry` up to its `call ReadSector`: where the entry of cluster `ax` is. -/
def findFatEntry (l : Loader) (s : Real) : Floppy Real := do
  let s := (s.push s.es).push s.bx
  let s := { s with es := l.base - 0x0100 }
  let s ← (s.mul 3).divWord 2
  let s := { s with gOdd := lowByte s.dx, dx := 0 }
  let s ← s.divWord bpbBytsPerSec
  let s := s.push s.dx
  pure { s with bx := 0, ax := s.ax + secNoOfFat1, cx := (s.cx &&& 0xff00) ||| 2 }

/-- `GetFATEntry` from then on: the entry is in one word, whose offset in the sector was pushed. -/
def takeFatEntry (s : Real) : Floppy Real := do
  let s ← s.pop fun word s => { s with dx := word }
  let s : Real := { s with bx := s.bx + s.dx }
  let ax := s.word s.bx
  let ax := if s.gOdd = 0 then ax else ax >>> 4
  let s := { s with ax := ax &&& 0x0fff }
  let s ← s.pop fun word s => { s with bx := word }
  s.pop fun word s => { s with es := word }

/-- `GetFATEntry`: the entry of cluster `ax` in `ax`. -/
def getFatEntry (l : Loader) (disk : Disk) (s : Real) : Floppy Real := do
  let s ← findFatEntry l s
  let s ← readSector disk s
  takeFatEntry s

/-- The end of a round of `loading_file`: stop, or go to the next cluster. -/
def nextCluster (s : Real) : Real ⊕ Real :=
  if s.ax = 0x0fff then .inr s
  else .inl { s.push s.ax with
    dx := rootDirSectors, ax := s.ax + rootDirSectors + deltaSecNo, bx := s.bx + bpbBytsPerSec }

/-- One round of `loading_file`, with the cluster of the sector on the stack. -/
def loadingRound (l : Loader) (disk : Disk) (s : Real) : Floppy (Real ⊕ Real) := do
  let s ← readSector disk { s with cx := (s.cx &&& 0xff00) ||| 1 }
  let s ← s.pop fun word s => { s with ax := word }
  let s ← getFatEntry l disk s
  pure (nextCluster s)

/-- `loading_file`, for a number of rounds at most. -/
def loadingFile (l : Loader) (disk : Disk) (rounds : ℕ) (s : Real) : Floppy Real :=
  Traced.loop .endless (loadingRound l disk) rounds s

/-- `file_name_found`: `es:di` is in the entry of the file. -/
def fileNameFound (l : Loader) (disk : Disk) (rounds : ℕ) (s : Real) : Floppy Real :=
  let di := (s.di &&& 0xffe0) + 0x1a
  let cx := s.word di
  let s := s.push cx
  let cx := cx + rootDirSectors + deltaSecNo
  loadingFile l disk rounds
    { s with di := di, cx := cx, es := l.base, bx := l.offset, ax := cx }

end WalOS
