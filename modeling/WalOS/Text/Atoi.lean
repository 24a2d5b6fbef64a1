/-
**Text as integers** (`atoi` of `common.c`).

`atoi` reads an optional sign and the characters up to the NUL. For a minus sign it sets the sign bit of what
it has read, where `itoa` negates: of the negative values only `-2^30` reads back.

* `Decimal` — an optional sign and a decimal numeral.
* `atoi_eq` — **what `atoi` gives for a decimal**, with or without a sign.
* `signBit_toInt` — a number with the sign bit set is the number less `2^31`.
* `word_toInt_iff` — that is the value exactly without a minus sign, for `-2^30` and for `-2^31`.
* `atoi_gives_iff` — **exactly when `atoi` gives the value**, of a decimal and of what `itoa` writes.
-/

import WalOS.Text.Canonical
import WalOS.Text.Vsprintf

namespace WalOS.Text

open Bytes Numeral

/-! ### The code -/

/-- The loop of `atoi`, for a number of characters at most. -/
def atoiLoop (m : Mem) : ℕ → ℕ → BitVec 32 → Option (BitVec 32)
  | 0, _, _ => none
  | limit + 1, s, num =>
      if m s = 0 then some num
      else atoiLoop m limit (s + 1) (num * 10 + ((m s).signExtend 32 - 48))

def atoi (limit : ℕ) (m : Mem) (s : ℕ) : Option (BitVec 32) := do
  let (positive, s) := if m s = 45 then (false, s + 1) else if m s = 43 then (true, s + 1) else (true, s)
  let num ← atoiLoop m limit s 0
  some (if positive then num else num ||| 0x80000000)

/-! ### Decimals -/

/-- A sign in front of a numeral, or none. -/
inductive Sign where
  | bare
  | plus
  | minus
deriving DecidableEq

def Sign.chars : Sign → Chars
  | bare => []
  | plus => [43]
  | minus => [45]

/-- **An optional sign and a decimal numeral**, with or without leading zeros. -/
structure Decimal where
  sign : Sign
  digits : List ℕ
  nonempty : digits ≠ []
  small : ∀ d ∈ digits, d < 10

namespace Decimal

variable (number : Decimal)

def text : Chars := number.sign.chars ++ number.digits.map digitLetter

/-- The value without the sign. -/
def absolute : ℕ := value 10 number.digits

def toInt : ℤ := if number.sign = .minus then -(number.absolute : ℤ) else number.absolute

/-- The word that `atoi` makes of a decimal. -/
def word : BitVec 32 :=
  if number.sign = .minus then BitVec.ofNat 32 number.absolute ||| 0x80000000
  else BitVec.ofNat 32 number.absolute

end Decimal

/-! ### Reading -/

variable {m dest : Mem} {p s limit n : ℕ} {num value : BitVec 32} {digits : List ℕ}

theorem digit_signed : ∀ d < 10,
    (digitLetter d).signExtend 32 - (48 : BitVec 32) = BitVec.ofNat 32 d := by
  decide

theorem digit_unsigned : ∀ d < 10, digitLetter d ≠ 45 ∧ digitLetter d ≠ 43 := by decide

/-- The loop reads the digits of a numeral. -/
theorem atoiLoop_eq (small : ∀ d ∈ digits, d < 10) (string : StringAt m s (digits.map digitLetter))
    (room : digits.length < limit) : atoiLoop m limit s num = some (alignOf num digits) := by
  obtain ⟨limit, rfl⟩ := Nat.exists_eq_add_one_of_ne_zero (Nat.ne_zero_of_lt room)
  induction digits generalizing s num limit with
  | nil => exact if_pos string.nul
  | cons d digits ih =>
    obtain ⟨here, some, rest⟩ := stringAt_cons.mp string
    have room' := Nat.lt_of_succ_lt_succ room
    obtain ⟨limit, rfl⟩ := Nat.exists_eq_add_one_of_ne_zero (Nat.ne_zero_of_lt room')
    rw [atoiLoop, here, if_neg some, digit_signed d (small d List.mem_cons_self),
      ih (fun d' member => small d' (List.mem_cons_of_mem d member)) rest limit room']
    rfl

/-- **What `atoi` gives** for a decimal. -/
theorem atoi_eq (number : Decimal) (string : StringAt m p number.text)
    (room : number.text.length < limit) : atoi limit m p = some number.word := by
  have short : number.digits.length < limit := by
    rw [Decimal.text, List.length_append, List.length_map] at room
    omega
  obtain ⟨sign, digits, nonempty, small⟩ := number
  have loop : ∀ s, StringAt m s (digits.map digitLetter) →
      atoiLoop m limit s 0 = some (BitVec.ofNat 32 (Numeral.value 10 digits)) := by
    intro s string
    rw [atoiLoop_eq small string short, alignOf_zero]
  unfold atoi
  cases sign with
  | bare =>
    obtain ⟨d, rest, rfl⟩ := List.exists_cons_of_ne_nil nonempty
    obtain ⟨first, -, -⟩ := stringAt_cons.mp string
    obtain ⟨noMinus, noPlus⟩ := digit_unsigned d (small d List.mem_cons_self)
    rw [first, if_neg noMinus, if_neg noPlus]
    dsimp only
    rw [loop p string]
    rfl
  | plus =>
    obtain ⟨first, -, rest⟩ := stringAt_cons.mp string
    rw [first, if_neg (by decide), if_pos rfl]
    dsimp only
    rw [loop (p + 1) rest]
    rfl
  | minus =>
    obtain ⟨first, -, rest⟩ := stringAt_cons.mp string
    rw [first, if_pos rfl]
    dsimp only
    rw [loop (p + 1) rest]
    rfl

/-! ### The sign bit -/

/-- A number with the sign bit set is the number less `2^31`. -/
theorem signBit_toInt (small : n < 2 ^ 31) :
    (BitVec.ofNat 32 n ||| 0x80000000).toInt = (n : ℤ) - 2 ^ 31 := by
  have added : n ||| 2 ^ 31 = 2 ^ 31 + n := by
    have joined := Nat.two_pow_add_eq_or_of_lt small 1
    rw [Nat.mul_one] at joined
    rw [joined, Nat.or_comm]
  have word : (BitVec.ofNat 32 n ||| 0x80000000).toNat = 2 ^ 31 + n := by
    rw [BitVec.toNat_or, BitVec.toNat_ofNat, Nat.mod_eq_of_lt (by omega)]
    exact added
  rw [BitVec.toInt_eq_toNat_cond, word]
  omega

/-- The sign bit negates only `2^30` and `2^31`. -/
theorem signBit_neg_iff (fits : n ≤ 2 ^ 31) :
    (BitVec.ofNat 32 n ||| 0x80000000).toInt = -(n : ℤ) ↔ n = 2 ^ 30 ∨ n = 2 ^ 31 := by
  rcases Nat.lt_or_eq_of_le fits with small | rfl
  · rw [signBit_toInt small]
    omega
  · exact iff_of_true (by decide) (.inr rfl)

/-! ### The value -/

/-- **The word is the value** exactly without a minus sign, for `-2^30` and for `-2^31`. -/
theorem word_toInt_iff (number : Decimal) (least : -2 ^ 31 ≤ number.toInt) (most : number.toInt < 2 ^ 31) :
    number.word.toInt = number.toInt ↔
      number.sign ≠ .minus ∨ number.absolute = 2 ^ 30 ∨ number.absolute = 2 ^ 31 := by
  unfold Decimal.word
  unfold Decimal.toInt at least most ⊢
  by_cases minus : number.sign = .minus
  · rw [if_pos minus] at least most
    rw [if_pos minus, if_pos minus, signBit_neg_iff (by omega)]
    exact ⟨.inr, fun either => either.resolve_left (not_not_intro minus)⟩
  · rw [if_neg minus] at least most
    rw [if_neg minus, if_neg minus]
    refine iff_of_true ?_ (.inl minus)
    rw [BitVec.toInt_ofNat', Int.bmod_eq_of_le (by omega) (by omega)]

theorem atoi_value_iff (number : Decimal) (least : -2 ^ 31 ≤ number.toInt) (most : number.toInt < 2 ^ 31)
    (string : StringAt m p number.text) (room : number.text.length < limit) :
    (atoi limit m p).map BitVec.toInt = some number.toInt ↔
      number.sign ≠ .minus ∨ number.absolute = 2 ^ 30 ∨ number.absolute = 2 ^ 31 := by
  rw [atoi_eq number string room, Option.map_some, Option.some_inj]
  exact word_toInt_iff number least most

/-! ### Round trips -/

/-- The decimal that `itoa` writes for an integer. -/
def Decimal.ofInt (z : ℤ) : Decimal where
  sign := if z < 0 then .minus else .bare
  digits := numeral 10 z.natAbs
  nonempty := numeral_ne_nil 10 z.natAbs
  small _ := numeral_lt (by decide)

theorem Decimal.ofInt_text (z : ℤ) :
    (Decimal.ofInt z).text = (alphabet (show 10 ≤ 36 by decide)).spellInt z := by
  unfold Decimal.text Decimal.ofInt Alphabet.spellInt
  by_cases negative : z < 0
  · rw [if_pos negative, if_pos negative]
    rfl
  · rw [if_neg negative, if_neg negative]
    rfl

theorem Decimal.ofInt_absolute (z : ℤ) : (Decimal.ofInt z).absolute = z.natAbs :=
  value_numeral (by decide) _

theorem Decimal.ofInt_minus (z : ℤ) : (Decimal.ofInt z).sign = .minus ↔ z < 0 := by
  show (if z < 0 then Sign.minus else Sign.bare) = .minus ↔ z < 0
  split
  · exact iff_of_true rfl ‹_›
  · exact iff_of_false (by decide) ‹_›

theorem Decimal.ofInt_toInt (z : ℤ) : (Decimal.ofInt z).toInt = z := by
  rw [Decimal.toInt, Decimal.ofInt_absolute, if_congr (Decimal.ofInt_minus z) rfl rfl]
  split <;> omega

/-- `itoa` leaves a decimal and a NUL. -/
theorem itoa_decimal (ordinary : value ≠ BitVec.intMin 32) (dest : Mem) : ∃ m,
    itoa value dest = some m ∧ StringAt m 0 (Decimal.ofInt value.toInt).text ∧
      (Decimal.ofInt value.toInt).text.length < textLimit := by
  obtain ⟨-, -, -, stores, whole, short⟩ :=
    itoaBase_gives (show 1 < 10 by decide) (show 10 ≤ 36 by decide) value dest
  rw [itoaText_eq (by decide) (by decide) ordinary, ← Decimal.ofInt_text] at stores whole short
  exact ⟨_, stores, stringAt_storeBytes whole, short⟩

/-- **`atoi` reads back** exactly the values that are not negative, and `-2^30`. -/
theorem atoi_itoa_iff (ordinary : value ≠ BitVec.intMin 32) (dest : Mem) :
    ((itoa value dest).bind fun dest => atoi textLimit dest 0) = some value ↔
      0 ≤ value.toInt ∨ value.toInt = -2 ^ 30 := by
  obtain ⟨m, written, string, short⟩ := itoa_decimal ordinary dest
  have least : -2 ^ 31 ≤ value.toInt := BitVec.le_toInt value
  have most : value.toInt < 2 ^ 31 := BitVec.toInt_lt
  have other : value.toInt ≠ -2 ^ 31 := fun extreme => ordinary (BitVec.eq_of_toInt_eq extreme)
  have reads := word_toInt_iff (Decimal.ofInt value.toInt)
  rw [Decimal.ofInt_toInt, Decimal.ofInt_absolute, ne_eq, Decimal.ofInt_minus] at reads
  rw [written, Option.bind_some, atoi_eq _ string short, Option.some_inj, ← BitVec.toInt_inj,
    reads least most]
  omega

/-- **Exactly when `atoi` gives the value**: for what `itoa` writes of every value other than `-2^31`, and
for every decimal that fits in 32 bits. -/
theorem atoi_gives_iff (ordinary : value ≠ BitVec.intMin 32) (dest : Mem) (number : Decimal)
    (least : -2 ^ 31 ≤ number.toInt) (most : number.toInt < 2 ^ 31) (string : StringAt m p number.text)
    (room : number.text.length < limit) :
    (((itoa value dest).bind fun dest => atoi textLimit dest 0) = some value ↔
      0 ≤ value.toInt ∨ value.toInt = -2 ^ 30) ∧
    ((atoi limit m p).map BitVec.toInt = some number.toInt ↔
      number.sign ≠ .minus ∨ number.absolute = 2 ^ 30 ∨ number.absolute = 2 ^ 31) :=
  ⟨atoi_itoa_iff ordinary dest, atoi_value_iff number least most string room⟩

/-- `7` reads back, and `+042` is 42. -/
theorem atoi_gives_seven :
    ((itoa 7 fun _ => 0).bind fun dest => atoi textLimit dest 0) = some 7 ∧
      (atoi 5 (storeBytes (fun _ => 0) 3 [43, 48, 52, 50]) 3).map BitVec.toInt = some 42 := by
  have string : StringAt (storeBytes (fun _ => 0) 3 [43, 48, 52, 50]) 3 [43, 48, 52, 50] :=
    stringAt_zeroed (by decide)
  have gives := @atoi_gives_iff _ 3 5 7 (by decide) (fun _ => 0) ⟨.plus, [0, 4, 2], by decide, by decide⟩
    (by decide) (by decide) string (by decide)
  exact ⟨gives.1.mpr (.inl (by decide)), gives.2.mpr (.inl (by decide))⟩

/-- What `itoa` writes for `-5` reads back as `-2147483643`. -/
theorem atoi_minus_five :
    ((itoa (-5) fun _ => 0).bind fun dest => atoi textLimit dest 0) = some (-2147483643) ∧
      ((itoa (-5) fun _ => 0).bind fun dest => atoi textLimit dest 0) ≠ some (-5) := by
  decide

end WalOS.Text
