/-
**The keyboard** (`interrupt.c`).

The interrupt handler stores scan codes in a ring; `read_keyboard` takes them out and makes keys of
them.

* `Pending` is code that takes scan codes out: the codes that `get_byte_from_kb_buf` is going to
  return, oldest first. Those are the codes the ring accepts, in order; `none` waits for one that never
  comes.
* The waits for the keyboard controller in `set_kb_led` end, and are left out.
-/

import WalOS.Console.Screen

namespace WalOS

/-! ### The ring -/

/-- `KB_IN_BUF_LENGTH`. -/
abbrev kbInBufLength : ℕ := 32

abbrev KbInput := RingBuffer (BitVec 8) kbInBufLength

/-- `keyboard_int_handler`, for the scan code in the port. -/
def keyboardIntHandler (scanCode : BitVec 8) (kbIn : KbInput) : KbInput := kbIn.put scanCode

/-- `get_byte_from_kb_buf`, once there is one. -/
def getByteFromKbBuf (kbIn : KbInput) : BitVec 8 × KbInput := (kbIn.next, kbIn.drop)

abbrev Pending (α : Type) : Type := StateT (List (BitVec 8)) Option α

/-- The next call of `get_byte_from_kb_buf`. -/
def getByte : Pending (BitVec 8)
  | [] => none
  | scanCode :: rest => some (scanCode, rest)

/-! ### The state -/

/-- The static flags of `read_keyboard`, the locks, and the byte last sent to the LEDs. -/
structure Keyboard where
  lShift : Bool
  rShift : Bool
  lAlt : Bool
  rAlt : Bool
  lCtrl : Bool
  rCtrl : Bool
  numLock : Bool
  capsLock : Bool
  scrollLock : Bool
  led : BitVec 8

def setKbLed (k : Keyboard) : Keyboard :=
  { k with led := (BitVec.ofNat 8 k.capsLock.toNat <<< 2) ||| (BitVec.ofNat 8 k.numLock.toNat <<< 1) |||
      BitVec.ofNat 8 k.scrollLock.toNat }

/-- The keyboard as `init_keyboard` leaves it. -/
def initKeyboard : Keyboard :=
  setKbLed ⟨false, false, false, false, false, false, true, false, false, 0⟩

/-! ### `read_keyboard` -/

def pauseKeyCode : List (BitVec 8) := [0xe1, 0x1d, 0x45, 0xe1, 0x9d, 0xc5]

/-- The next codes are the given ones; the first that differs is taken out as well. -/
def expect : List (BitVec 8) → Pending Bool
  | [] => pure true
  | code :: codes => do
    let scanCode ← getByte
    if code ≠ scanCode then pure false else expect codes

/-- What the first part of `read_keyboard` leaves in its variables. -/
structure Scanned where
  key : Key
  isMake : Bool
  scanCode : BitVec 8
  codeE0 : Bool

/-- The special codes. -/
def scanSpecial : Pending Scanned := do
  let scanCode ← getByte
  if scanCode = 0xe1 then
    let pause ← expect pauseKeyCode.tail
    pure ⟨if pause then Key.pauseBreak else 0, false, scanCode, false⟩
  else if scanCode = 0xe0 then
    let scanCode ← getByte
    if scanCode = 0x2a then
      let pressed ← expect [0xe0, 0x37]
      pure (if pressed then ⟨Key.printScreen, true, scanCode, false⟩ else ⟨0, false, scanCode, true⟩)
    else if scanCode = 0xb7 then
      let released ← expect [0xe0, 0xaa]
      pure (if released then ⟨Key.printScreen, false, scanCode, false⟩ else ⟨0, false, scanCode, true⟩)
    else pure ⟨0, false, scanCode, true⟩
  else pure ⟨0, false, scanCode, false⟩

/-- A small letter. -/
def isLetter (key : Key) : Bool := chr 'a' ≤ key ∧ key ≤ chr 'z'

/-- The column of the map. -/
def Keyboard.column (k : Keyboard) (row : Key × Key × Key) (codeE0 : Bool) : Key :=
  let caps := k.lShift || k.rShift
  let caps := if k.capsLock && isLetter row.1 then !caps else caps
  if codeE0 then row.2.2 else if caps then row.2.1 else row.1

/-- The `switch` over the modifiers and the locks. -/
def Keyboard.switch (k : Keyboard) (key : Key) (isMake : Bool) : Keyboard :=
  if key = Key.shiftL then { k with lShift := isMake }
  else if key = Key.shiftR then { k with rShift := isMake }
  else if key = Key.ctrlL then { k with lCtrl := isMake }
  else if key = Key.ctrlR then { k with rCtrl := isMake }
  else if key = Key.altL then { k with lAlt := isMake }
  else if key = Key.altR then { k with rAlt := isMake }
  else if key = Key.numLock then
    if isMake then setKbLed { k with numLock := !k.numLock } else k
  else if key = Key.capsLock then
    if isMake then setKbLed { k with capsLock := !k.capsLock } else k
  else if key = Key.scrollLock then
    if isMake then setKbLed { k with scrollLock := !k.scrollLock } else k
  else k

/-- A key of the number pad. -/
def isPad (key : Key) : Bool := Key.padSlash ≤ key ∧ key ≤ Key.pad9

/-- What a key of the number pad stands for. -/
def padKey (numLock : Bool) (key : Key) : Key :=
  if key = Key.padSlash then chr '/'
  else if key = Key.padStar then chr '*'
  else if key = Key.padMinus then chr '-'
  else if key = Key.padPlus then chr '+'
  else if key = Key.padEnter then Key.enter
  else if numLock then
    if Key.pad0 ≤ key ∧ key ≤ Key.pad9 then key - Key.pad0 + chr '0'
    else if key = Key.padDot then chr '.'
    else key
  else if key = Key.padHome then Key.home
  else if key = Key.padEnd then Key.endKey
  else if key = Key.padPageUp then Key.pageUp
  else if key = Key.padPageDown then Key.pageDown
  else if key = Key.padIns then Key.insert
  else if key = Key.padUp then Key.up
  else if key = Key.padDown then Key.down
  else if key = Key.padLeft then Key.left
  else if key = Key.padRight then Key.right
  else if key = Key.padDot then Key.delete
  else key

/-- The key without its bits. -/
def plainKey (numLock : Bool) (key : Key) : Key := if isPad key then padKey numLock key else key

/-- The bits of the modifiers that are held. -/
def Keyboard.modifiers (k : Keyboard) : Key :=
  (if k.lShift then flagShiftL else 0) ||| (if k.rShift then flagShiftR else 0) |||
    (if k.lCtrl then flagCtrlL else 0) ||| (if k.rCtrl then flagCtrlR else 0) |||
    (if k.lAlt then flagAltL else 0) ||| (if k.rAlt then flagAltR else 0)

/-- The key given to `store_key_into_console`. -/
def Keyboard.makeKey (k : Keyboard) (key : Key) : Key :=
  plainKey k.numLock key ||| k.modifiers ||| (if isPad key then flagPad else 0)

/-- The second part of `read_keyboard`: the flags, and the key to store. -/
def Keyboard.normalKey (k : Keyboard) (scanCode : BitVec 8) (codeE0 : Bool) :
    Keyboard × Option Key :=
  let isMake := decide (scanCode &&& flagBreak = 0)
  let key := k.column (keyRow scanCode) codeE0
  let k := k.switch key isMake
  (k, if isMake then some (k.makeKey key) else none)

/-- One call of `read_keyboard`: the flags, and the key stored, if any. -/
def readKeyboard (k : Keyboard) : Pending (Keyboard × Option Key) := do
  if (← get) = [] then pure (k, none)
  else
    let scanned ← scanSpecial
    if scanned.key = 0 then pure (k.normalKey scanned.scanCode scanned.codeE0)
    else pure (k, none)

/-- `console_read_key`. -/
def consoleReadKey (c : Fin consoleCnt) (k : Keyboard) (s : Screen) : Pending (Keyboard × Screen) := do
  let (k, stored) ← readKeyboard k
  match stored with
  | some key => pure (k, storeKeyIntoConsole c key s)
  | none => pure (k, s)

end WalOS
