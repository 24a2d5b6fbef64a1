/-
**Keys** (`keyboard.h`, and `key_map` of `global.c`).

A key is a word: the code of a character, or the number of a special key with `FLAG_EXT`, and above
them the bits of the modifiers. `keyMap` has a row for each scan code: the key without Shift, with
Shift, and behind the prefix `0xe0`.
-/

import WalOS.Kernel.State

namespace WalOS

abbrev Key := BitVec 32

/-- `FLAG_BREAK`, of a scan code. -/
def flagBreak : BitVec 8 := 0x80

def flagExt : Key := 0x0100
def flagShiftL : Key := 0x0200
def flagShiftR : Key := 0x0400
def flagCtrlL : Key := 0x0800
def flagCtrlR : Key := 0x1000
def flagAltL : Key := 0x2000
def flagAltR : Key := 0x4000
def flagPad : Key := 0x8000
def maskRaw : Key := 0x01ff

/-- A character. -/
def chr (c : Char) : Key := BitVec.ofNat 32 c.toNat

/-! ### Special keys -/

namespace Key

def esc : Key := 0x01 + flagExt
def tab : Key := 0x02 + flagExt
def enter : Key := 0x03 + flagExt
def backspace : Key := 0x04 + flagExt
def guiL : Key := 0x05 + flagExt
def guiR : Key := 0x06 + flagExt
def apps : Key := 0x07 + flagExt
def shiftL : Key := 0x08 + flagExt
def shiftR : Key := 0x09 + flagExt
def ctrlL : Key := 0x0a + flagExt
def ctrlR : Key := 0x0b + flagExt
def altL : Key := 0x0c + flagExt
def altR : Key := 0x0d + flagExt
def capsLock : Key := 0x0e + flagExt
def numLock : Key := 0x0f + flagExt
def scrollLock : Key := 0x10 + flagExt
def f1 : Key := 0x11 + flagExt
def f2 : Key := 0x12 + flagExt
def f3 : Key := 0x13 + flagExt
def f4 : Key := 0x14 + flagExt
def f5 : Key := 0x15 + flagExt
def f6 : Key := 0x16 + flagExt
def f7 : Key := 0x17 + flagExt
def f8 : Key := 0x18 + flagExt
def f9 : Key := 0x19 + flagExt
def f10 : Key := 0x1a + flagExt
def f11 : Key := 0x1b + flagExt
def f12 : Key := 0x1c + flagExt
def printScreen : Key := 0x1d + flagExt
def pauseBreak : Key := 0x1e + flagExt
def insert : Key := 0x1f + flagExt
def delete : Key := 0x20 + flagExt
def home : Key := 0x21 + flagExt
def endKey : Key := 0x22 + flagExt
def pageUp : Key := 0x23 + flagExt
def pageDown : Key := 0x24 + flagExt
def up : Key := 0x25 + flagExt
def down : Key := 0x26 + flagExt
def left : Key := 0x27 + flagExt
def right : Key := 0x28 + flagExt
def padSlash : Key := 0x2c + flagExt
def padStar : Key := 0x2d + flagExt
def padMinus : Key := 0x2e + flagExt
def padPlus : Key := 0x2f + flagExt
def padEnter : Key := 0x30 + flagExt
def padDot : Key := 0x31 + flagExt
def pad0 : Key := 0x32 + flagExt
def pad1 : Key := 0x33 + flagExt
def pad2 : Key := 0x34 + flagExt
def pad3 : Key := 0x35 + flagExt
def pad4 : Key := 0x36 + flagExt
def pad5 : Key := 0x37 + flagExt
def pad6 : Key := 0x38 + flagExt
def pad7 : Key := 0x39 + flagExt
def pad8 : Key := 0x3a + flagExt
def pad9 : Key := 0x3b + flagExt
def padUp : Key := pad8
def padDown : Key := pad2
def padLeft : Key := pad4
def padRight : Key := pad6
def padHome : Key := pad7
def padEnd : Key := pad1
def padPageUp : Key := pad9
def padPageDown : Key := pad3
def padIns : Key := pad0
def padMid : Key := pad5

end Key

/-! ### The map -/

open Key

/-- `key_map`, a row for each scan code. -/
def keyMap : List (Key × Key × Key) := [
  (0, 0, 0), (esc, esc, 0), (chr '1', chr '!', 0), (chr '2', chr '@', 0), (chr '3', chr '#', 0),
  (chr '4', chr '$', 0), (chr '5', chr '%', 0), (chr '6', chr '^', 0), (chr '7', chr '&', 0),
  (chr '8', chr '*', 0), (chr '9', chr '(', 0), (chr '0', chr ')', 0), (chr '-', chr '_', 0),
  (chr '=', chr '+', 0), (backspace, backspace, 0), (tab, tab, 0), (chr 'q', chr 'Q', 0),
  (chr 'w', chr 'W', 0), (chr 'e', chr 'E', 0), (chr 'r', chr 'R', 0), (chr 't', chr 'T', 0),
  (chr 'y', chr 'Y', 0), (chr 'u', chr 'U', 0), (chr 'i', chr 'I', 0), (chr 'o', chr 'O', 0),
  (chr 'p', chr 'P', 0), (chr '[', 0x7b, 0), (chr ']', 0x7d, 0), (enter, enter, padEnter),
  (ctrlL, ctrlL, ctrlR), (chr 'a', chr 'A', 0), (chr 's', chr 'S', 0), (chr 'd', chr 'D', 0),
  (chr 'f', chr 'F', 0), (chr 'g', chr 'G', 0), (chr 'h', chr 'H', 0), (chr 'j', chr 'J', 0),
  (chr 'k', chr 'K', 0), (chr 'l', chr 'L', 0), (chr ';', chr ':', 0), (0x27, 0x22, 0),
  (0x60, chr '~', 0), (shiftL, shiftL, 0), (0x5c, chr '|', 0), (chr 'z', chr 'Z', 0),
  (chr 'x', chr 'X', 0), (chr 'c', chr 'C', 0), (chr 'v', chr 'V', 0), (chr 'b', chr 'B', 0),
  (chr 'n', chr 'N', 0), (chr 'm', chr 'M', 0), (chr ',', chr '<', 0), (chr '.', chr '>', 0),
  (chr '/', chr '?', padSlash), (shiftR, shiftR, 0), (chr '*', chr '*', 0), (altL, altL, altR),
  (chr ' ', chr ' ', 0), (capsLock, capsLock, 0), (f1, f1, 0), (f2, f2, 0), (f3, f3, 0),
  (f4, f4, 0), (f5, f5, 0), (f6, f6, 0), (f7, f7, 0), (f8, f8, 0), (f9, f9, 0), (f10, f10, 0),
  (numLock, numLock, 0), (scrollLock, scrollLock, 0), (padHome, chr '7', home),
  (padUp, chr '8', up), (padPageUp, chr '9', pageUp), (padMinus, chr '-', 0),
  (padLeft, chr '4', left), (padMid, chr '5', 0), (padRight, chr '6', right),
  (padPlus, chr '+', 0), (padEnd, chr '1', endKey), (padDown, chr '2', down),
  (padPageDown, chr '3', pageDown), (padIns, chr '0', insert), (padDot, chr '.', delete),
  (0, 0, 0), (0, 0, 0), (0, 0, 0), (f11, f11, 0), (f12, f12, 0), (0, 0, 0), (0, 0, 0),
  (0, 0, guiL), (0, 0, guiR), (0, 0, apps), (0, 0, 0), (0, 0, 0), (0, 0, 0), (0, 0, 0), (0, 0, 0),
  (0, 0, 0), (0, 0, 0), (0, 0, 0), (0, 0, 0), (0, 0, 0), (0, 0, 0), (0, 0, 0), (0, 0, 0),
  (0, 0, 0), (0, 0, 0), (0, 0, 0), (0, 0, 0), (0, 0, 0), (0, 0, 0), (0, 0, 0), (0, 0, 0),
  (0, 0, 0), (0, 0, 0), (0, 0, 0), (0, 0, 0), (0, 0, 0), (0, 0, 0), (0, 0, 0), (0, 0, 0),
  (0, 0, 0), (0, 0, 0), (0, 0, 0), (0, 0, 0), (0, 0, 0)
]

/-- The row of a scan code; bit 7 does not matter. -/
def keyRow (scanCode : BitVec 8) : Key × Key × Key :=
  keyMap[(scanCode &&& 0x7f).toNat]?.getD (0, 0, 0)

end WalOS
