/-
**The consoles** (`console.c`).

Three consoles share the VGA memory. Each has a region of it, a cursor, a window that starts at
`vga_start_addr`, and a buffer of typed characters.

* Positions are cells, in unsigned words. `Vga` is code that logs the address of every cell it writes;
  it may loop forever.
* The CRT controller is what its registers hold; the index register between two `outb` is left out.
* The loop of `console_task` is not here: a run is any sequence of the functions below.
-/

import WalOS.Console.Keys
import WalOS.Lib.RingBuffer

namespace WalOS

/-! ### The state -/

/-- `CONSOLE_CNT` and `CONSOLE_BUF_LENGTH`. -/
abbrev consoleCnt : ℕ := 3
abbrev consoleBufLength : ℕ := 128

def vgaMemBase : Addr := 0xb8000
def vgaMemSize : BitVec 32 := 0x8000

/-- `TEXT_MODE_WIDTH` and `TEXT_MODE_SIZE`. -/
def textModeWidth : BitVec 32 := 80
def textModeSize : BitVec 32 := 80 * 25

/-- A `CONSOLE`; `input` is `in_buf` with its pointers and `buf_count`. -/
structure Console where
  input : RingBuffer (BitVec 8) consoleBufLength
  cursorPos : BitVec 32
  vgaStartAddr : BitVec 32
  vgaMemStart : BitVec 32
  vgaMemEnd : BitVec 32

/-- The registers that give the start address and the cursor. -/
structure Crtc where
  startHigh : BitVec 8
  startLow : BitVec 8
  cursorHigh : BitVec 8
  cursorLow : BitVec 8

/-- The static variables, `position`, the VGA memory by addresses and the CRT controller. -/
structure Screen where
  console : Fin consoleCnt → Console
  currentConsole : Fin consoleCnt
  position : BitVec 32
  vga : Addr → BitVec 16
  crtc : Crtc

/-- The code never leaves a loop. -/
inductive Hang where
  | forever
deriving DecidableEq

abbrev Vga (α : Type) : Type := Traced Addr Hang α

/-- Change one console. -/
def Screen.modify (s : Screen) (c : Fin consoleCnt) (f : Console → Console) : Screen :=
  { s with console := Function.update s.console c (f (s.console c)) }

/-- Write the cell at an address. -/
def putCell (addr : Addr) (cell : BitVec 16) (s : Screen) : Vga Screen := do
  Traced.touch addr
  pure { s with vga := Function.update s.vga addr cell }

/-! ### The code -/

/-- The low byte of a word, as `outb` writes it. -/
def byteOf (w : BitVec 32) : BitVec 8 := w.setWidth 8

def setCursor (pos : BitVec 32) (s : Screen) : Screen :=
  { s with crtc := { s.crtc with
      cursorHigh := byteOf ((pos >>> 8) &&& 0xff), cursorLow := byteOf (pos &&& 0xff) } }

def setStartAddress (addr : BitVec 32) (s : Screen) : Screen :=
  { s with crtc := { s.crtc with
      startHigh := byteOf ((addr >>> 8) &&& 0xff), startLow := byteOf (addr &&& 0xff) } }

/-- Both registers, for the current console only. -/
def showConsole (c : Fin consoleCnt) (s : Screen) : Screen :=
  if s.currentConsole = c then
    setCursor (s.console c).cursorPos (setStartAddress (s.console c).vgaStartAddr s)
  else s

/-- What `scroll_console` does to the console. -/
def Console.scroll (direction : Int) (con : Console) : Console :=
  if direction > 0 then
    if con.vgaStartAddr > con.vgaMemStart then
      { con with vgaStartAddr := con.vgaStartAddr - BitVec.ofInt 32 direction * textModeWidth }
    else con
  else if direction < 0 then
    if con.vgaStartAddr + textModeSize < con.vgaMemEnd then
      { con with vgaStartAddr := con.vgaStartAddr - BitVec.ofInt 32 direction * textModeWidth }
    else con
  else con

def scrollConsole (c : Fin consoleCnt) (direction : Int) (s : Screen) : Screen :=
  showConsole c (s.modify c (Console.scroll direction))

/-- A character in white, as the `int` that `c | (0x0f << 8)` makes of a `char` fills the cell. -/
def whiteCell (ch : BitVec 8) : BitVec 16 := ch.signExtend 16 ||| 0x0f00

/-- The `switch` of `print_character`. -/
def printSwitch (c : Fin consoleCnt) (ch : BitVec 8) (s : Screen) : Vga Screen :=
  let con := s.console c
  let vmemPtr := vgaMemBase + con.cursorPos * 2
  if ch = 0x0a then
    if con.cursorPos < con.vgaMemEnd - textModeWidth then
      pure (s.modify c fun con => { con with cursorPos :=
        con.vgaMemStart + textModeWidth * ((con.cursorPos - con.vgaMemStart) / textModeWidth + 1) })
    else pure s
  else if ch = 0x08 then
    if con.cursorPos > con.vgaMemStart then
      putCell (vmemPtr - 2) (whiteCell 0x20)
        (s.modify c fun con => { con with cursorPos := con.cursorPos - 1 })
    else pure s
  else if con.cursorPos < con.vgaMemEnd - 1 then do
    let s ← putCell vmemPtr (whiteCell ch) s
    pure (s.modify c fun con => { con with cursorPos := con.cursorPos + 1 })
  else pure s

/-- The rounds given to the loop of `print_character`. A round that scrolls moves the window by
`TEXT_MODE_WIDTH`, which is back where it was after `2 ^ 28` rounds. -/
def scrollFuel : ℕ := 2 ^ 28 + 1

/-- The loop of `print_character`. -/
def scrollRound (c : Fin consoleCnt) (s : Screen) : Vga (Screen ⊕ Screen) :=
  if (s.console c).cursorPos ≥ (s.console c).vgaStartAddr + textModeSize then
    pure (.inl (scrollConsole c (-1) s))
  else pure (.inr s)

def printCharacter (c : Fin consoleCnt) (ch : BitVec 8) (s : Screen) : Vga Screen := do
  let s ← printSwitch c ch s
  let s ← Traced.loop .forever (scrollRound c) scrollFuel s
  pure (showConsole c s)

/-- `console_write`. -/
def consoleWrite (c : Fin consoleCnt) : List (BitVec 8) → Screen → Vga Screen
  | [], s => pure s
  | ch :: buf, s => do
    let s ← printCharacter c ch s
    consoleWrite c buf s

/-- One round of `init_consoles`. -/
def initConsole (i : Fin consoleCnt) (s : Screen) : Vga Screen :=
  let vmemSize := vgaMemSize >>> 1
  let offset := vmemSize / consoleCnt
  let start := BitVec.ofNat 32 i * offset
  let s := s.modify i fun con =>
    { input := .empty con.input.buf, vgaMemStart := start, vgaMemEnd := start + offset
      vgaStartAddr := start, cursorPos := start }
  if i = 0 then
    pure { s.modify i fun con => { con with cursorPos := s.position / 2 } with position := 0 }
  else do
    let s ← printCharacter i (BitVec.ofNat 8 i + 0x30) s
    let s ← printCharacter i 0x23 s
    printCharacter i 0x20 s

def initConsoles (s : Screen) : Vga Screen := do
  let s ← initConsole 0 s
  let s ← initConsole 1 s
  initConsole 2 s

def changeCurrentConsole (i : BitVec 8) (s : Screen) : Screen :=
  if inside : i.toNat < consoleCnt then
    let c : Fin consoleCnt := ⟨i.toNat, inside⟩
    setStartAddress (s.console c).vgaStartAddr (setCursor (s.console c).cursorPos
      { s with currentConsole := c })
  else s

/-- `console_write_key`. -/
def consoleWriteKey (c : Fin consoleCnt) (s : Screen) : Vga Screen :=
  if (s.console c).input.count ≠ 0 then
    printCharacter c (s.console c).input.next
      (s.modify c fun con => { con with input := con.input.drop })
  else pure s

/-- `store_key`: whether there was room. -/
def storeKey (c : Fin consoleCnt) (key : Key) (s : Screen) : Bool × Screen :=
  (decide ((s.console c).input.count < consoleBufLength),
    s.modify c fun con => { con with input := con.input.put (key.setWidth 8) })

/-- `store_key_into_console`. -/
def storeKeyIntoConsole (c : Fin consoleCnt) (key : Key) (s : Screen) : Screen :=
  if key &&& flagExt = 0 then (storeKey c key s).2
  else
    let rawCode := key &&& maskRaw
    let shift := key &&& flagShiftL ≠ 0 ∨ key &&& flagShiftR ≠ 0
    let ctrl := key &&& flagCtrlL ≠ 0 ∨ key &&& flagCtrlR ≠ 0
    if rawCode = Key.enter then (storeKey c 0x0a s).2
    else if rawCode = Key.backspace then (storeKey c 0x08 s).2
    else if rawCode = Key.up then if shift then scrollConsole c 1 s else s
    else if rawCode = Key.down then if shift then scrollConsole c (-1) s else s
    else if rawCode = Key.f1 ∨ rawCode = Key.f2 ∨ rawCode = Key.f3 then
      if ctrl then changeCurrentConsole ((rawCode - Key.f1).setWidth 8) s else s
    else s

end WalOS
