/-
**Byte memory**: stores of byte lists and words, and what they leave alone.

A memory gives the byte at every address. `storeBytes` writes consecutive bytes, the lowest first;
`store8`, `store16` and `store32` write little-endian words through it, `load32` reads one.

* `storeBytes_off`, `store32_off`, `copyBytes_off`, … — a store leaves every address outside its range
  alone.
* `storeBytes_at` — it leaves its bytes in the range.
* `load32_store32`, `load32_store32_off` — a word reads back as stored, and a store elsewhere does not
  change it.
* `pushWords_off`, `load32_pushWords` — the same for words pushed on a stack that grows downwards.
-/

import Mathlib.Logic.Function.Basic
import Mathlib.Order.Basic

namespace Bytes

abbrev Mem := ℕ → BitVec 8

/-- Store bytes at consecutive addresses. -/
def storeBytes (m : Mem) (addr : ℕ) : List (BitVec 8) → Mem
  | [] => m
  | byte :: bytes => storeBytes (Function.update m addr byte) (addr + 1) bytes

def store8 (m : Mem) (addr : ℕ) (value : BitVec 8) : Mem := storeBytes m addr [value]

def store16 (m : Mem) (addr : ℕ) (value : BitVec 16) : Mem :=
  storeBytes m addr [value.extractLsb' 0 8, value.extractLsb' 8 8]

def store32 (m : Mem) (addr : ℕ) (value : BitVec 32) : Mem :=
  storeBytes m addr [value.extractLsb' 0 8, value.extractLsb' 8 8, value.extractLsb' 16 8,
    value.extractLsb' 24 8]

/-- Copy bytes one by one, the lowest first. -/
def copyBytes (m : Mem) (dest src : ℕ) : ℕ → Mem
  | 0 => m
  | size + 1 => copyBytes (Function.update m dest (m src)) (dest + 1) (src + 1) size

/-- A word from its bytes, the lowest first. -/
def word (b₀ b₁ b₂ b₃ : BitVec 8) : BitVec 32 := b₃ ++ b₂ ++ b₁ ++ b₀

def load16 (m : Mem) (addr : ℕ) : BitVec 16 := m (addr + 1) ++ m addr

def load32 (m : Mem) (addr : ℕ) : BitVec 32 :=
  word (m addr) (m (addr + 1)) (m (addr + 2)) (m (addr + 3))

variable {m m' : Mem} {addr x : ℕ}

theorem storeBytes_off {bytes : List (BitVec 8)} (off : x < addr ∨ addr + bytes.length ≤ x) :
    storeBytes m addr bytes x = m x := by
  induction bytes generalizing m addr with
  | nil => rfl
  | cons byte bytes ih =>
    rw [List.length_cons] at off
    rw [storeBytes, ih (by omega)]
    exact Function.update_of_ne (by omega) _ _

theorem storeBytes_at {bytes : List (BitVec 8)} {k : ℕ} (inside : k < bytes.length) :
    storeBytes m addr bytes (addr + k) = bytes[k] := by
  induction bytes generalizing m addr k with
  | nil => exact absurd inside (Nat.not_lt_zero k)
  | cons byte bytes ih =>
    rw [storeBytes]
    cases k with
    | zero =>
      rw [storeBytes_off (by omega)]
      exact Function.update_self _ _ _
    | succ k =>
      rw [show addr + (k + 1) = addr + 1 + k by omega]
      exact ih (Nat.lt_of_succ_lt_succ inside)

theorem store8_off {value : BitVec 8} (off : x < addr ∨ addr + 1 ≤ x) :
    store8 m addr value x = m x :=
  storeBytes_off off

theorem store16_off {value : BitVec 16} (off : x < addr ∨ addr + 2 ≤ x) :
    store16 m addr value x = m x :=
  storeBytes_off off

theorem store32_off {value : BitVec 32} (off : x < addr ∨ addr + 4 ≤ x) :
    store32 m addr value x = m x :=
  storeBytes_off off

theorem copyBytes_off {dest src size : ℕ} (off : x < dest ∨ dest + size ≤ x) :
    copyBytes m dest src size x = m x := by
  induction size generalizing m dest src with
  | zero => rfl
  | succ size ih =>
    rw [copyBytes, ih (by omega)]
    exact Function.update_of_ne (by omega) _ _

/-- The bytes of a word make the word. -/
theorem word_extract (value : BitVec 32) :
    word (value.extractLsb' 0 8) (value.extractLsb' 8 8) (value.extractLsb' 16 8)
      (value.extractLsb' 24 8) = value := by
  have high : value.extractLsb' 24 8 ++ value.extractLsb' 16 8 = value.extractLsb' 16 16 :=
    BitVec.extractLsb'_append_extractLsb'_eq_extractLsb' rfl
  have upper : value.extractLsb' 16 16 ++ value.extractLsb' 8 8 = value.extractLsb' 8 24 :=
    BitVec.extractLsb'_append_extractLsb'_eq_extractLsb' rfl
  have whole : value.extractLsb' 8 24 ++ value.extractLsb' 0 8 = value.extractLsb' 0 32 :=
    BitVec.extractLsb'_append_extractLsb'_eq_extractLsb' rfl
  rw [word, high, upper, whole]
  exact BitVec.extractLsb'_eq_self

/-- A byte shifted down and masked. -/
theorem shifted_byte (value : BitVec 32) (place : ℕ) :
    ((value >>> place) &&& 0xff).setWidth 8 = value.extractLsb' place 8 := by
  have mask : (0xff : BitVec 32).setWidth 8 = BitVec.allOnes 8 := by decide
  rw [BitVec.setWidth_and, mask, BitVec.and_allOnes]
  exact BitVec.setWidth_ushiftRight_eq_extractLsb

/-- A word reads the same where its bytes are the same. -/
theorem load32_congr (same : ∀ k < 4, m' (addr + k) = m (addr + k)) :
    load32 m' addr = load32 m addr := by
  unfold load32
  rw [same 1 (by omega), same 2 (by omega), same 3 (by omega),
    show m' addr = m addr from same 0 (by omega)]

@[simp] theorem load32_store32 (value : BitVec 32) : load32 (store32 m addr value) addr = value := by
  have stored : ∀ k (inside : k < 4), store32 m addr value (addr + k) = _ := fun k inside =>
    storeBytes_at inside
  unfold load32
  rw [show store32 m addr value addr = _ from stored 0 (by omega), stored 1 (by omega),
    stored 2 (by omega), stored 3 (by omega)]
  exact word_extract value

/-! ### A store elsewhere does not change a word -/

theorem load32_store8_off {other : ℕ} {value : BitVec 8}
    (off : addr + 4 ≤ other ∨ other + 1 ≤ addr) :
    load32 (store8 m other value) addr = load32 m addr :=
  load32_congr fun _ _ => store8_off (by omega)

theorem load32_store16_off {other : ℕ} {value : BitVec 16}
    (off : addr + 4 ≤ other ∨ other + 2 ≤ addr) :
    load32 (store16 m other value) addr = load32 m addr :=
  load32_congr fun _ _ => store16_off (by omega)

theorem load32_store32_off {other : ℕ} {value : BitVec 32}
    (off : addr + 4 ≤ other ∨ other + 4 ≤ addr) :
    load32 (store32 m other value) addr = load32 m addr :=
  load32_congr fun k _ => store32_off (by omega)

theorem load32_copyBytes_off {dest src size : ℕ} (off : addr + 4 ≤ dest ∨ dest + size ≤ addr) :
    load32 (copyBytes m dest src size) addr = load32 m addr :=
  load32_congr fun _ _ => copyBytes_off (by omega)

/-! ### Stacks -/

/-- Push words below `sp`. -/
def pushWords (m : Mem) (sp : ℕ) : List (BitVec 32) → Mem
  | [] => m
  | value :: values => pushWords (store32 m (sp - 4) value) (sp - 4) values

variable {sp : ℕ} {values : List (BitVec 32)}

theorem pushWords_append (more : List (BitVec 32)) :
    pushWords m sp (values ++ more) =
      pushWords (pushWords m sp values) (sp - 4 * values.length) more := by
  induction values generalizing m sp with
  | nil => rfl
  | cons value values ih =>
    rw [List.cons_append, pushWords, ih, pushWords, List.length_cons, Nat.sub_sub,
      show 4 + 4 * values.length = 4 * (values.length + 1) by omega]

theorem pushWords_off (room : 4 * values.length ≤ sp)
    (off : x < sp - 4 * values.length ∨ sp ≤ x) : pushWords m sp values x = m x := by
  induction values generalizing m sp with
  | nil => rfl
  | cons value values ih =>
    rw [List.length_cons] at room off
    rw [pushWords, ih (by omega) (by omega)]
    exact store32_off (by omega)

/-- The pushed words, the first the highest. -/
theorem load32_pushWords {k : ℕ} (room : 4 * values.length ≤ sp) (inside : k < values.length) :
    load32 (pushWords m sp values) (sp - 4 * (k + 1)) = values[k] := by
  induction values generalizing m sp k with
  | nil => exact absurd inside (Nat.not_lt_zero k)
  | cons value values ih =>
    rw [List.length_cons] at room inside
    rw [pushWords]
    cases k with
    | zero =>
      have kept : load32 (pushWords (store32 m (sp - 4) value) (sp - 4) values) (sp - 4) =
          load32 (store32 m (sp - 4) value) (sp - 4) :=
        load32_congr fun k _ => pushWords_off (by omega) (by omega)
      exact kept.trans (load32_store32 value)
    | succ k =>
      rw [show sp - 4 * (k + 1 + 1) = sp - 4 - 4 * (k + 1) by omega]
      exact ih (by omega) (by omega)

end Bytes
