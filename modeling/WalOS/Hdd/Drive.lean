/-
**The disk drive, seen from its ports** (`hdd.h`).

`HddCmd` is the command block that the driver writes to the registers. The drive reads in it the sector
number of 28 bits (`HddCmd.lba`), goes to that sector, and from then on gives or takes the bytes of the
disk at its data port, two at a time. `ATA_IDENTIFY` makes it give the identify data instead.

`Wiring` is how many interrupts the drive has still to raise: one for an identification, one for each
sector to be read when it is ready, one for each sector written when it has been taken.
-/

import WalOS.Lib.Block

namespace WalOS

open Block

/-! ### Commands -/

def ataIdentify : BitVec 8 := 0xEC
def ataRead : BitVec 8 := 0x20
def ataWrite : BitVec 8 := 0x30

/-- `HDD_CMD`. -/
structure HddCmd where
  feature : BitVec 8
  nSector : BitVec 8
  lbaLow : BitVec 8
  lbaMid : BitVec 8
  lbaHigh : BitVec 8
  device : BitVec 8
  command : BitVec 8
deriving DecidableEq

/-- `MAKE_CMD_DEVICE`, as it is stored to a byte. -/
def makeCmdDevice (lba drv lbaHighest : BitVec 32) : BitVec 8 :=
  ((lba <<< 6) ||| (drv <<< 4) ||| (lbaHighest &&& 0xF) ||| 0xA0).setWidth 8

/-- The sector number in a command block: the low nibble of the device register is its top. -/
def HddCmd.lba (c : HddCmd) : BitVec 28 := c.device.setWidth 4 ++ c.lbaHigh ++ c.lbaMid ++ c.lbaLow

/-- The bits of the device register that choose LBA and the slave drive. -/
def HddCmd.lbaMode (c : HddCmd) : Bool := c.device.getLsbD 6
def HddCmd.slave (c : HddCmd) : Bool := c.device.getLsbD 4

/-- The sectors asked for: 0 means 256. -/
def HddCmd.sectors (c : HddCmd) : ℕ := if c.nSector = 0 then 256 else c.nSector.toNat

/-! ### The drive -/

structure Drive where
  disk : Space 37 (BitVec 8)
  ident : ℕ → BitVec 8
  identifying : Bool
  cursor : BitVec 37

/-- The first byte of a sector. -/
def sectorStart (lba : BitVec 28) : BitVec 37 := lba ++ (0 : BitVec 9)

/-- The byte that the drive gives at a place. -/
def Drive.data (d : Drive) (x : BitVec 37) : BitVec 8 :=
  if d.identifying then d.ident x.toNat else d.disk x

/-- A command is taken. -/
def Drive.execute (c : HddCmd) (d : Drive) : Drive :=
  if c.command = ataIdentify then { d with identifying := true, cursor := 0 }
  else { d with identifying := false, cursor := sectorStart c.lba }

/-- Bytes were read from the data port. -/
def Drive.advance (bytes : ℕ) (d : Drive) : Drive := { d with cursor := cell d.cursor bytes }

/-- A word is written to the data port. -/
def Drive.put (low high : BitVec 8) (d : Drive) : Drive :=
  { d with
    disk := Function.update (Function.update d.disk d.cursor low) (d.cursor + 1) high
    cursor := cell d.cursor 2 }

/-! ### Its interrupts -/

/-- The interrupts that the drive is about to raise, and the sectors it has not been asked for yet. -/
structure Wiring where
  due : ℕ
  sectors : ℕ
deriving DecidableEq

/-- A command is taken: the first sector of a read gets ready. -/
def Wiring.execute (c : HddCmd) (v : Wiring) : Wiring :=
  if c.command = ataIdentify then ⟨v.due + 1, 0⟩
  else if c.command = ataRead then ⟨v.due + 1, c.sectors - 1⟩
  else if c.command = ataWrite then ⟨v.due, c.sectors⟩
  else v

/-- A sector went through the data port: the drive gets the next ready, or has taken it. -/
def Wiring.transfer (v : Wiring) : Wiring :=
  if v.sectors = 0 then v else ⟨v.due + 1, v.sectors - 1⟩

end WalOS
