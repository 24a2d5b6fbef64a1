/-
**Keyboard decoding tracks the held keys and loses no event.**

A `KeyEvent` is what the keyboard sends for one press or release of a key.

* `scan_single`, `scan_extended` and the rest of that section — one call of `read_keyboard` takes out
  the codes of one event.
* `switch_held`, `switch_locked`, `column_flag` — a flag changes with its own key only:
  no other row of the map has that key.
* `makeKey_modifiers`, `makeKey_raw` — the bits of the key that is stored.
* `keyboard_decodes` — **the decoder**, after any stream of events.
-/

import WalOS.Console.Keyboard
import Mathlib.Logic.Function.Iterate

namespace WalOS

/-! ### Events -/

/-- A key: is it behind the prefix `0xe0`, and its make code. -/
abbrev KeyCode := Bool × BitVec 8

/-- **What the keyboard sends** for one press or release. -/
inductive KeyEvent where
  | single (code : BitVec 8) (plain : code ≠ 0xe0 ∧ code ≠ 0xe1)
  | extended (code : BitVec 8) (plain : code ≠ 0x2a ∧ code ≠ 0xb7)
  | printScreen (make : Bool)
  | pause

namespace KeyEvent

def bytes : KeyEvent → List (BitVec 8)
  | single code _ => [code]
  | extended code _ => [0xe0, code]
  | printScreen true => [0xe0, 0x2a, 0xe0, 0x37]
  | printScreen false => [0xe0, 0xb7, 0xe0, 0xaa]
  | pause => [0xe1, 0x1d, 0x45, 0xe1, 0x9d, 0xc5]

/-- The code of an event other than PrintScreen and Pause, and whether it is behind `0xe0`. -/
def code? : KeyEvent → Option KeyCode
  | single code _ => some (false, code)
  | extended code _ => some (true, code)
  | printScreen _ => none
  | pause => none

/-- A press, of a key other than PrintScreen and Pause. -/
def presses (e : KeyEvent) : Bool :=
  match e.code? with
  | some (_, code) => code &&& flagBreak = 0
  | none => false

/-- What an event says about a key: pressed or released. -/
def reports (key : KeyCode) (e : KeyEvent) : Option Bool :=
  match e.code? with
  | some (codeE0, code) =>
    if (codeE0, code &&& 0x7f) = key then some (code &&& flagBreak = 0) else none
  | none => none

/-- The row of the key, and whether it is a letter. -/
def row (e : KeyEvent) : Key × Key × Key :=
  match e.code? with
  | some (_, code) => keyRow code
  | none => (0, 0, 0)

def letter (e : KeyEvent) : Bool :=
  match e.code? with
  | some (codeE0, _) => !codeE0 && isLetter e.row.1
  | none => false

/-- The key of the map, in capitals or not, and what it stands for on the number pad. -/
def rawKey (upper numLock : Bool) (e : KeyEvent) : Key :=
  match e.code? with
  | some (codeE0, _) =>
    plainKey numLock (if codeE0 then e.row.2.2 else if upper then e.row.2.1 else e.row.1)
  | none => 0

end KeyEvent

/-! ### Flags -/

inductive Modifier where
  | lShift
  | rShift
  | lCtrl
  | rCtrl
  | lAlt
  | rAlt
deriving DecidableEq

inductive Lock where
  | num
  | caps
  | scroll
deriving DecidableEq

namespace Modifier

/-- The key on the keyboard, its key word, and its bit in other key words. -/
def code : Modifier → KeyCode
  | lShift => (false, 0x2a)
  | rShift => (false, 0x36)
  | lCtrl => (false, 0x1d)
  | rCtrl => (true, 0x1d)
  | lAlt => (false, 0x38)
  | rAlt => (true, 0x38)

def key : Modifier → Key
  | lShift => Key.shiftL
  | rShift => Key.shiftR
  | lCtrl => Key.ctrlL
  | rCtrl => Key.ctrlR
  | lAlt => Key.altL
  | rAlt => Key.altR

def flag : Modifier → Key
  | lShift => flagShiftL
  | rShift => flagShiftR
  | lCtrl => flagCtrlL
  | rCtrl => flagCtrlR
  | lAlt => flagAltL
  | rAlt => flagAltR

end Modifier

namespace Lock

def code : Lock → KeyCode
  | num => (false, 0x45)
  | caps => (false, 0x3a)
  | scroll => (false, 0x46)

def key : Lock → Key
  | num => Key.numLock
  | caps => Key.capsLock
  | scroll => Key.scrollLock

end Lock

namespace Keyboard

def held (k : Keyboard) : Modifier → Bool
  | .lShift => k.lShift
  | .rShift => k.rShift
  | .lCtrl => k.lCtrl
  | .rCtrl => k.rCtrl
  | .lAlt => k.lAlt
  | .rAlt => k.rAlt

def locked (k : Keyboard) : Lock → Bool
  | .num => k.numLock
  | .caps => k.capsLock
  | .scroll => k.scrollLock

/-- Capitals, for a letter or for another key. -/
def upper (k : Keyboard) (letter : Bool) : Bool := xor (k.lShift || k.rShift) (k.capsLock && letter)

end Keyboard

/-- **What the flags should be**: the last event of the key was a press; before any, as at the start. -/
def heldAfter (m : Modifier) (initially : Bool) (events : List KeyEvent) : Bool :=
  ((events.filterMap (KeyEvent.reports m.code)).getLast?).getD initially

/-- Toggled once for each press of the key. -/
def lockedAfter (l : Lock) (initially : Bool) (events : List KeyEvent) : Bool :=
  Nat.iterate not (events.countP fun e => e.reports l.code = some true) initially

/-- **What the key stored should be**, for the flags after the event. -/
structure StoredKey (e : KeyEvent) (k : Keyboard) (key : Key) : Prop where
  modifiers : ∀ m : Modifier, key &&& m.flag ≠ 0 ↔ k.held m = true
  raw : key &&& maskRaw = e.rawKey (k.upper e.letter) k.numLock
  letter : e.letter = true →
    key &&& maskRaw = if k.upper true then e.row.1 - 0x20 else e.row.1

/-! ### One call takes out one event -/

variable {k : Keyboard}

theorem read_single {code : BitVec 8} (plain : code ≠ 0xe0 ∧ code ≠ 0xe1) (rest : List (BitVec 8)) :
    readKeyboard k (code :: rest) = some (k.normalKey code false, rest) := by
  have scanned : scanSpecial (code :: rest) = some (⟨0, false, code, false⟩, rest) := by
    show (if code = 0xe1 then _ else if code = 0xe0 then _ else _ : Pending Scanned) rest = _
    rw [if_neg plain.2, if_neg plain.1]
    rfl
  show (scanSpecial (code :: rest)).bind _ = _
  rw [scanned]
  rfl

theorem read_extended {code : BitVec 8} (plain : code ≠ 0x2a ∧ code ≠ 0xb7)
    (rest : List (BitVec 8)) :
    readKeyboard k (0xe0 :: code :: rest) = some (k.normalKey code true, rest) := by
  have scanned : scanSpecial (0xe0 :: code :: rest) = some (⟨0, false, code, true⟩, rest) := by
    show (if code = 0x2a then _ else if code = 0xb7 then _ else _ : Pending Scanned) rest = _
    rw [if_neg plain.1, if_neg plain.2]
    rfl
  show (scanSpecial (0xe0 :: code :: rest)).bind _ = _
  rw [scanned]
  rfl

/-- PrintScreen and Pause change no flag and store no key. -/
theorem read_special {e : KeyEvent} (special : e.code? = none) (rest : List (BitVec 8)) :
    readKeyboard k (e.bytes ++ rest) = some ((k, none), rest) := by
  cases e with
  | single code plain => exact absurd special (by simp [KeyEvent.code?])
  | extended code plain => exact absurd special (by simp [KeyEvent.code?])
  | printScreen make => cases make <;> rfl
  | pause => rfl

/-! ### The flags -/

theorem switch_held (k : Keyboard) (key : Key) (isMake : Bool) (m : Modifier) :
    (k.switch key isMake).held m = if key = m.key then isMake else k.held m := by
  by_cases same : key = m.key
  · subst same
    rw [if_pos rfl]
    cases m <;> rfl
  · rw [if_neg same]
    unfold Keyboard.switch
    let kept := fun k' : Keyboard => k'.held m = k.held m
    repeat' refine iteInduction (motive := kept) (fun _ => ?_) fun _ => ?_
    all_goals cases m <;> first | rfl | exact absurd ‹key = _› same

theorem switch_locked (k : Keyboard) (key : Key) (isMake : Bool) (l : Lock) :
    (k.switch key isMake).locked l =
      if key = l.key ∧ isMake = true then !k.locked l else k.locked l := by
  by_cases same : key = l.key
  · subst same
    cases l <;> cases isMake <;> rfl
  · rw [if_neg fun both => same both.1]
    unfold Keyboard.switch
    let kept := fun k' : Keyboard => k'.locked l = k.locked l
    repeat' refine iteInduction (motive := kept) (fun _ => ?_) fun _ => ?_
    all_goals cases l <;> first | rfl | exact absurd ‹key = _› same

/-! ### The map -/

/-- The keys that change a flag, and their codes. -/
def flagKeys : List (Key × KeyCode) :=
  [Modifier.lShift, .rShift, .lCtrl, .rCtrl, .lAlt, .rAlt].map (fun m => (m.key, m.code)) ++
    [Lock.num, .caps, .scroll].map fun l => (l.key, l.code)

theorem modifier_mem (m : Modifier) : (m.key, m.code) ∈ flagKeys := by cases m <;> decide

theorem lock_mem (l : Lock) : (l.key, l.code) ∈ flagKeys := by cases l <;> decide

/-- Each of them is in the rows and columns of its own code only. -/
theorem row_flag (code : BitVec 8) {f : Key × KeyCode} (member : f ∈ flagKeys) :
    ((keyRow code).1 = f.1 ↔ (false, code &&& 0x7f) = f.2) ∧
    ((keyRow code).2.1 = f.1 ↔ (false, code &&& 0x7f) = f.2) ∧
    ((keyRow code).2.2 = f.1 ↔ (true, code &&& 0x7f) = f.2) := by
  have all : ∀ code : BitVec 8, flagKeys.all (fun f => decide
      (((keyRow code).1 = f.1 ↔ (false, code &&& 0x7f) = f.2) ∧
      ((keyRow code).2.1 = f.1 ↔ (false, code &&& 0x7f) = f.2) ∧
      ((keyRow code).2.2 = f.1 ↔ (true, code &&& 0x7f) = f.2))) = true := by
    decide +kernel
  exact of_decide_eq_true (List.all_eq_true.mp (all code) f member)

/-- A letter has its capital in the second column. -/
theorem row_letter : ∀ code : BitVec 8, isLetter (keyRow code).1 = true →
    (keyRow code).2.1 = (keyRow code).1 - 0x20 ∧ isPad (keyRow code).1 = false ∧
      isPad (keyRow code).2.1 = false := by
  decide +kernel

/-- The keys of the map are below the bits of the modifiers. -/
theorem row_raw : ∀ code : BitVec 8,
    (keyRow code).1 &&& maskRaw = (keyRow code).1 ∧
    (keyRow code).2.1 &&& maskRaw = (keyRow code).2.1 ∧
    (keyRow code).2.2 &&& maskRaw = (keyRow code).2.2 := by
  decide +kernel

theorem column_eq (k : Keyboard) (row : Key × Key × Key) (codeE0 : Bool) :
    k.column row codeE0 =
      if codeE0 then row.2.2 else if k.upper (isLetter row.1) then row.2.1 else row.1 := by
  unfold Keyboard.column Keyboard.upper
  cases k.capsLock <;> cases isLetter row.1 <;> cases k.lShift <;> cases k.rShift <;> rfl

/-- **The key read is one of them exactly when the code is.** -/
theorem column_flag (k : Keyboard) (code : BitVec 8) (codeE0 : Bool) {f : Key × KeyCode}
    (member : f ∈ flagKeys) : k.column (keyRow code) codeE0 = f.1 ↔ (codeE0, code &&& 0x7f) = f.2 := by
  obtain ⟨first, second, third⟩ := row_flag code member
  rw [column_eq]
  cases codeE0 with
  | true => exact third
  | false => cases k.upper (isLetter (keyRow code).1) <;> assumption

/-! ### The key stored -/

theorem plainKey_raw (numLock : Bool) {key : Key} (small : key &&& maskRaw = key) :
    plainKey numLock key &&& maskRaw = plainKey numLock key := by
  have all : ∀ raw : BitVec 9, plainKey numLock (raw.setWidth 32) &&& maskRaw =
      plainKey numLock (raw.setWidth 32) := by
    cases numLock <;> decide +kernel
  have low : (key.setWidth 9).setWidth 32 = key := by
    refine BitVec.eq_of_toNat_eq ?_
    have masked : key.toNat = key.toNat % 2 ^ 9 := by
      rw [← Nat.and_two_pow_sub_one_eq_mod]
      exact congrArg BitVec.toNat small.symm
    rw [BitVec.toNat_setWidth, BitVec.toNat_setWidth, ← masked]
    exact Nat.mod_eq_of_lt key.isLt
  rw [← low]
  exact all _

/-- The bits of the modifiers in a key word. -/
theorem modifiers_flag (k : Keyboard) (m : Modifier) :
    k.modifiers &&& m.flag ≠ 0 ↔ k.held m = true := by
  have bits : ∀ a b c d e f : Bool,
      let held := (if a then flagShiftL else 0) ||| (if b then flagShiftR else 0) |||
        (if c then flagCtrlL else 0) ||| (if d then flagCtrlR else 0) |||
        (if e then flagAltL else 0) ||| (if f then flagAltR else 0)
      (held &&& flagShiftL ≠ 0 ↔ a = true) ∧ (held &&& flagShiftR ≠ 0 ↔ b = true) ∧
      (held &&& flagCtrlL ≠ 0 ↔ c = true) ∧ (held &&& flagCtrlR ≠ 0 ↔ d = true) ∧
      (held &&& flagAltL ≠ 0 ↔ e = true) ∧ (held &&& flagAltR ≠ 0 ↔ f = true) := by
    decide +kernel
  obtain ⟨shiftL, shiftR, ctrlL, ctrlR, altL, altR⟩ :=
    bits k.lShift k.rShift k.lCtrl k.rCtrl k.lAlt k.rAlt
  cases m <;> assumption

theorem modifiers_raw (k : Keyboard) : k.modifiers &&& maskRaw = 0#32 := by
  have bits : ∀ a b c d e f : Bool, ((if a then flagShiftL else 0) ||| (if b then flagShiftR else 0) |||
      (if c then flagCtrlL else 0) ||| (if d then flagCtrlR else 0) |||
      (if e then flagAltL else 0) ||| (if f then flagAltR else 0)) &&& maskRaw = 0#32 := by
    decide +kernel
  exact bits _ _ _ _ _ _

theorem makeKey_raw (k : Keyboard) {key : Key} (small : key &&& maskRaw = key) :
    k.makeKey key &&& maskRaw = plainKey k.numLock key := by
  have pad : (if isPad key then flagPad else 0) &&& maskRaw = 0#32 := by split <;> decide
  rw [Keyboard.makeKey, BitVec.and_or_distrib_right, BitVec.and_or_distrib_right, modifiers_raw, pad,
    plainKey_raw _ small, BitVec.or_zero, BitVec.or_zero]

theorem makeKey_modifiers (k : Keyboard) {key : Key} (small : key &&& maskRaw = key)
    (m : Modifier) : k.makeKey key &&& m.flag ≠ 0 ↔ k.held m = true := by
  have pad : (if isPad key then flagPad else 0) &&& m.flag = 0#32 := by
    cases m <;> split <;> decide
  have mask : maskRaw &&& m.flag = 0#32 := by cases m <;> decide
  have plain : plainKey k.numLock key &&& m.flag = 0#32 := by
    rw [← plainKey_raw k.numLock small, BitVec.and_assoc, mask, BitVec.and_zero]
  rw [Keyboard.makeKey, BitVec.and_or_distrib_right, BitVec.and_or_distrib_right, plain, pad,
    BitVec.zero_or, BitVec.or_zero]
  exact modifiers_flag k m

/-! ### One event -/

/-- **What one event does to the flags**, and the key it stores. -/
structure Decoded (k : Keyboard) (e : KeyEvent) (k' : Keyboard) (stored : Option Key) : Prop where
  held : ∀ m : Modifier, k'.held m = (e.reports m.code).getD (k.held m)
  locked : ∀ l : Lock,
    k'.locked l = if e.reports l.code = some true then !k.locked l else k.locked l
  stores : e.presses = true → ∃ key, stored = some key ∧ StoredKey e k' key
  quiet : e.presses = false → stored = none

/-- The flags after a code. -/
theorem normalKey_held (k : Keyboard) (code : BitVec 8) (codeE0 : Bool) (m : Modifier) :
    (k.normalKey code codeE0).1.held m =
      if (codeE0, code &&& 0x7f) = m.code then decide (code &&& flagBreak = 0) else k.held m := by
  show (k.switch _ _).held m = _
  rw [switch_held]
  exact if_congr (column_flag k code codeE0 (modifier_mem m)) rfl rfl

theorem normalKey_locked (k : Keyboard) (code : BitVec 8) (codeE0 : Bool) (l : Lock) :
    (k.normalKey code codeE0).1.locked l =
      if (codeE0, code &&& 0x7f) = l.code ∧ decide (code &&& flagBreak = 0) = true then !k.locked l
      else k.locked l := by
  show (k.switch _ _).locked l = _
  rw [switch_locked]
  exact if_congr (and_congr_left' (column_flag k code codeE0 (lock_mem l))) rfl rfl

/-- In a row whose columns differ, the code changes no flag that chooses the column. -/
theorem normalKey_upper (k : Keyboard) (code : BitVec 8) (letter : Bool)
    (differ : (keyRow code).1 ≠ (keyRow code).2.1) :
    (k.normalKey code false).1.upper letter = k.upper letter := by
  have none : ∀ f ∈ flagKeys, (false, code &&& 0x7f) ≠ f.2 := by
    intro f member here
    obtain ⟨first, second, -⟩ := row_flag code member
    exact differ ((first.mpr here).trans (second.mpr here).symm)
  have lShift : (k.normalKey code false).1.lShift = k.lShift :=
    (normalKey_held k code false .lShift).trans (if_neg (none _ (modifier_mem .lShift)))
  have rShift : (k.normalKey code false).1.rShift = k.rShift :=
    (normalKey_held k code false .rShift).trans (if_neg (none _ (modifier_mem .rShift)))
  have capsLock : (k.normalKey code false).1.capsLock = k.capsLock :=
    (normalKey_locked k code false .caps).trans (if_neg fun both => none _ (lock_mem .caps) both.1)
  unfold Keyboard.upper
  rw [lShift, rShift, capsLock]

/-- The column, by the flags after the code. -/
theorem column_after (k : Keyboard) (code : BitVec 8) (codeE0 : Bool) :
    k.column (keyRow code) codeE0 = if codeE0 then (keyRow code).2.2
      else if (k.normalKey code codeE0).1.upper (isLetter (keyRow code).1) then (keyRow code).2.1
      else (keyRow code).1 := by
  rw [column_eq]
  cases codeE0 with
  | true => rfl
  | false =>
    by_cases same : (keyRow code).1 = (keyRow code).2.1
    · rw [same, ite_self, ite_self]
    · rw [normalKey_upper k code _ same]

/-- The key of the map that a code reads has no bit of a modifier. -/
theorem column_raw (k : Keyboard) (code : BitVec 8) (codeE0 : Bool) :
    k.column (keyRow code) codeE0 &&& maskRaw = k.column (keyRow code) codeE0 := by
  obtain ⟨first, second, third⟩ := row_raw code
  rw [column_eq]
  cases codeE0 with
  | true => exact third
  | false => cases k.upper (isLetter (keyRow code).1) <;> assumption

theorem reports_eq {e : KeyEvent} {code : BitVec 8} {codeE0 : Bool}
    (here : e.code? = some (codeE0, code)) (key : KeyCode) :
    e.reports key =
      if (codeE0, code &&& 0x7f) = key then some (decide (code &&& flagBreak = 0)) else none := by
  unfold KeyEvent.reports
  rw [here]

/-- The key that a code stores, when it is a press. -/
theorem normalKey_stored (k : Keyboard) {e : KeyEvent} {code : BitVec 8} {codeE0 : Bool}
    (here : e.code? = some (codeE0, code)) :
    StoredKey e (k.normalKey code codeE0).1
      ((k.normalKey code codeE0).1.makeKey (k.column (keyRow code) codeE0)) := by
  have row : e.row = keyRow code := by
    unfold KeyEvent.row
    rw [here]
  have letter_eq : e.letter = (!codeE0 && isLetter (keyRow code).1) := by
    unfold KeyEvent.letter
    rw [here, row]
  have small := column_raw k code codeE0
  have raw := makeKey_raw (k.normalKey code codeE0).1 small
  have after := column_after k code codeE0
  refine ⟨makeKey_modifiers _ small, ?_, fun letter => ?_⟩
  · rw [raw, after, KeyEvent.rawKey, here, row, letter_eq]
    cases codeE0 <;> rfl
  · rw [letter_eq, Bool.and_eq_true, Bool.not_eq_true'] at letter
    obtain ⟨noPrefix, letter⟩ := letter
    obtain ⟨capital, plain, plainCapital⟩ := row_letter code letter
    subst noPrefix
    rw [raw, after, letter, row, plainKey]
    cases (k.normalKey code false).1.upper true with
    | true =>
      show (if isPad (keyRow code).2.1 then _ else _) = _
      rw [plainCapital, capital]
      rfl
    | false =>
      show (if isPad (keyRow code).1 then _ else _) = _
      rw [plain]
      rfl

/-- **A code, with its prefix or without, is decoded.** -/
theorem normalKey_decoded (k : Keyboard) {e : KeyEvent} {code : BitVec 8} {codeE0 : Bool}
    (here : e.code? = some (codeE0, code)) :
    Decoded k e (k.normalKey code codeE0).1 (k.normalKey code codeE0).2 := by
  have presses : e.presses = decide (code &&& flagBreak = 0) := by
    unfold KeyEvent.presses
    rw [here]
  refine ⟨fun m => ?_, fun l => ?_, fun pressed => ?_, fun released => ?_⟩
  · rw [normalKey_held, reports_eq here]
    split <;> rfl
  · rw [normalKey_locked, reports_eq here]
    by_cases own : (codeE0, code &&& 0x7f) = l.code
    · rw [if_pos own]
      exact if_congr ⟨fun both => congrArg some both.2, fun same => ⟨own, Option.some.inj same⟩⟩ rfl rfl
    · rw [if_neg own, if_neg fun both => own both.1]
      rfl
  · rw [presses] at pressed
    exact ⟨_, if_pos pressed, normalKey_stored k here⟩
  · rw [presses] at released
    exact if_neg (Bool.eq_false_iff.mp released)

/-- **One call of `read_keyboard` decodes one event.** -/
theorem readKeyboard_decodes (k : Keyboard) (e : KeyEvent) (rest : List (BitVec 8)) :
    ∃ k' stored, readKeyboard k (e.bytes ++ rest) = some ((k', stored), rest) ∧
      Decoded k e k' stored := by
  cases e with
  | single code plain =>
    exact ⟨_, _, read_single plain rest, normalKey_decoded k rfl⟩
  | extended code plain =>
    exact ⟨_, _, read_extended plain rest, normalKey_decoded k rfl⟩
  | printScreen make =>
    exact ⟨k, none, read_special rfl rest, ⟨fun _ => rfl, fun _ => rfl,
      fun presses => absurd presses Bool.false_ne_true, fun _ => rfl⟩⟩
  | pause =>
    exact ⟨k, none, read_special rfl rest, ⟨fun _ => rfl, fun _ => rfl,
      fun presses => absurd presses Bool.false_ne_true, fun _ => rfl⟩⟩

/-! ### The stream -/

/-- Calls of `read_keyboard`, one after the other. -/
def readKeyboards : ℕ → Keyboard → Pending (Keyboard × List (Option Key))
  | 0, k => pure (k, [])
  | n + 1, k => do
    let (k, stored) ← readKeyboard k
    let (k, rest) ← readKeyboards n k
    pure (k, stored :: rest)

theorem heldAfter_cons (m : Modifier) (initially : Bool) (e : KeyEvent) (events : List KeyEvent) :
    heldAfter m initially (e :: events) = heldAfter m ((e.reports m.code).getD initially) events := by
  unfold heldAfter
  cases reported : e.reports m.code with
  | none =>
    rw [List.filterMap_cons_none reported]
    rfl
  | some pressed =>
    rw [List.filterMap_cons_some reported, List.getLast?_cons]
    rfl

theorem lockedAfter_cons (l : Lock) (initially : Bool) (e : KeyEvent) (events : List KeyEvent) :
    lockedAfter l initially (e :: events) =
      lockedAfter l (if e.reports l.code = some true then !initially else initially) events := by
  unfold lockedAfter
  rw [List.countP_cons]
  by_cases pressed : e.reports l.code = some true
  · rw [if_pos (decide_eq_true pressed), if_pos pressed]
    rfl
  · rw [if_neg fun same => pressed (of_decide_eq_true same), if_neg pressed]
    rfl

theorem heldAfter_concat (m : Modifier) (initially : Bool) (events : List KeyEvent) (e : KeyEvent) :
    heldAfter m initially (events ++ [e]) =
      (e.reports m.code).getD (heldAfter m initially events) := by
  induction events generalizing initially with
  | nil => exact heldAfter_cons m initially e []
  | cons first events ih => rw [List.cons_append, heldAfter_cons, ih, ← heldAfter_cons]

theorem lockedAfter_concat (l : Lock) (initially : Bool) (events : List KeyEvent) (e : KeyEvent) :
    lockedAfter l initially (events ++ [e]) =
      if e.reports l.code = some true then !lockedAfter l initially events
      else lockedAfter l initially events := by
  induction events generalizing initially with
  | nil => exact lockedAfter_cons l initially e []
  | cons first events ih => rw [List.cons_append, lockedAfter_cons, ih, ← lockedAfter_cons]

/-- The flags after a stream. -/
structure Tracks (k : Keyboard) (events : List KeyEvent) (k' : Keyboard) : Prop where
  held : ∀ m : Modifier, k'.held m = heldAfter m (k.held m) events
  locked : ∀ l : Lock, k'.locked l = lockedAfter l (k.locked l) events

theorem readKeyboards_tracks (k : Keyboard) (events : List KeyEvent) (rest : List (BitVec 8)) :
    ∃ k' stored, readKeyboards events.length k (events.flatMap KeyEvent.bytes ++ rest) =
      some ((k', stored), rest) ∧ Tracks k events k' := by
  induction events generalizing k with
  | nil => exact ⟨k, [], rfl, fun _ => rfl, fun _ => rfl⟩
  | cons e events ih =>
    obtain ⟨k₁, stored₁, first, decoded⟩ :=
      readKeyboard_decodes k e (events.flatMap KeyEvent.bytes ++ rest)
    obtain ⟨k', stored, later, tracks⟩ := ih k₁
    refine ⟨k', stored₁ :: stored, ?_, fun m => ?_, fun l => ?_⟩
    · rw [List.flatMap_cons, List.append_assoc]
      show (readKeyboard k _).bind _ = _
      rw [first]
      show (readKeyboards events.length k₁ _).bind _ = _
      rw [later]
      rfl
    · rw [tracks.held, decoded.held, ← heldAfter_cons]
    · rw [tracks.locked, decoded.locked, ← lockedAfter_cons]

/-- **The decoder.** After any stream of events the next call takes out the codes of the next event and
no more; then each modifier is held iff its last event was a press, each lock is toggled once for each
press of its key, and the call has stored a key exactly when the event is a press other than
PrintScreen's and Pause's: with the bits of the modifiers held, and in the case of Shift and Caps Lock. -/
theorem keyboard_decodes (k : Keyboard) (events : List KeyEvent) (e : KeyEvent)
    (rest : List (BitVec 8)) :
    ∃ k₁ stored₁ k₂ stored,
      readKeyboards events.length k (events.flatMap KeyEvent.bytes ++ (e.bytes ++ rest)) =
        some ((k₁, stored₁), e.bytes ++ rest) ∧
      readKeyboard k₁ (e.bytes ++ rest) = some ((k₂, stored), rest) ∧
      (∀ m : Modifier, k₂.held m = heldAfter m (k.held m) (events ++ [e])) ∧
      (∀ l : Lock, k₂.locked l = lockedAfter l (k.locked l) (events ++ [e])) ∧
      (e.presses = true → ∃ key, stored = some key ∧ StoredKey e k₂ key) ∧
      (e.presses = false → stored = none) := by
  obtain ⟨k₁, stored₁, before, tracks⟩ := readKeyboards_tracks k events (e.bytes ++ rest)
  obtain ⟨k₂, stored, next, decoded⟩ := readKeyboard_decodes k₁ e rest
  refine ⟨k₁, stored₁, k₂, stored, before, next, fun m => ?_, fun l => ?_, decoded.stores,
    decoded.quiet⟩
  · rw [decoded.held, tracks.held, heldAfter_concat]
  · rw [decoded.locked, tracks.locked, lockedAfter_concat]

end WalOS
