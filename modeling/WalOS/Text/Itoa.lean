/-
**Integers as text** (`reverse`, `itoa` and `itoa_base` of `common.c`).

`itoa_base` negates a negative value, writes the digits from the last one on, then the sign, and reverses
the text in place. An `int` is a word of 32 bits, and its arithmetic wraps around: the negation of `-2^31`
is `-2^31`.

* `digitChars` — the digits in the order in which they are written.
* `reverse_eq` — `reverse` reverses a string.
* `itoaBase_eq` — `itoa_base` stores the reversed digits.
* `digitChars_eq` — **the digits of a value that is not negative are those of its numeral**.
-/

import WalOS.Lib.Numeral
import WalOS.Text.Cstr

namespace WalOS.Text

open Bytes

/-! ### The code -/

/-- The loop of `reverse`, for a number of rounds at most. -/
def reverseLoop : ℕ → ℕ → ℕ → Mem → Mem
  | 0, _, _, s => s
  | rounds + 1, i, j, s =>
      if i < j then
        let t := s i
        let s := Function.update s i (s j)
        reverseLoop rounds (i + 1) (j - 1) (Function.update s j t)
      else s

def reverse (limit : ℕ) (s : Mem) : Option Mem :=
  (strlen s limit 0).map fun length => reverseLoop length 0 (length - 1) s

/-- The character of a digit. -/
def digitChar (c : BitVec 32) : BitVec 8 := (if c.slt 10 then c + 48 else c + 97 - 10).setWidth 8

/-- The loop of `itoa_base`, for a number of rounds at most. -/
def digitLoop (radix : BitVec 32) : ℕ → BitVec 32 → ℕ → Mem → Option (ℕ × Mem)
  | 0, _, _, _ => none
  | rounds + 1, value, i, dest =>
      if value = 0 then some (i, dest)
      else if radix = 0 then none
      else
        let c := value.srem radix
        digitLoop radix rounds (value.sdiv radix) (i + 1) (Function.update dest i (digitChar c))

/-- The rounds of that loop: a digit for each bit, and the last test. -/
def digitRounds : ℕ := 33

/-- The characters of a text, with a sign and a NUL. -/
def textLimit : ℕ := 34

def itoaBase (value : BitVec 32) (dest : Mem) (radix : BitVec 32) : Option Mem := do
  let positive := !value.slt 0
  let value := if value.slt 0 then -value else value
  let (i, dest) ← digitLoop radix digitRounds value 0 dest
  let (i, dest) := if positive then (i, dest) else (i + 1, Function.update dest i 45)
  -- handle 0
  let (i, dest) := if i = 0 then (i + 1, Function.update dest i 48) else (i, dest)
  reverse textLimit (Function.update dest i 0)

def itoa (value : BitVec 32) (dest : Mem) : Option Mem := itoaBase value dest 10

/-! ### Reversing -/

variable {m dest : Mem} {text : Chars} {limit n i rounds : ℕ} {value : BitVec 32} {radix : ℕ}

/-- The characters that have been swapped after `i` rounds. -/
theorem reverseLoop_at {s s₀ : Mem} {j : ℕ} (ends : i + j + 1 = n) (enough : j ≤ i + rounds)
    (swapped : ∀ x < n, s x = if x < i ∨ j < x then s₀ (n - 1 - x) else s₀ x) :
    ∀ x < n, reverseLoop rounds i j s x = s₀ (n - 1 - x) := by
  induction rounds generalizing i j s with
  | zero =>
    intro x inside
    rw [reverseLoop, swapped x inside]
    by_cases done : x < i ∨ j < x
    · exact if_pos done
    · rw [if_neg done, show n - 1 - x = x by omega]
  | succ rounds ih =>
    intro x inside
    rw [reverseLoop]
    by_cases more : i < j
    · rw [if_pos more]
      refine ih (by omega) (by omega) (fun x inside => ?_) x inside
      by_cases last : x = j
      · rw [last, Function.update_self, swapped i (by omega), if_neg (by omega), if_pos (by omega),
          show n - 1 - j = i by omega]
      by_cases first : x = i
      · rw [first, Function.update_of_ne (by omega), Function.update_self, swapped j (by omega),
          if_neg (by omega), if_pos (by omega), show n - 1 - i = j by omega]
      · rw [Function.update_of_ne last, Function.update_of_ne first, swapped x inside]
        exact if_congr (by omega) rfl rfl
    · rw [if_neg more, swapped x inside]
      by_cases done : x < i ∨ j < x
      · exact if_pos done
      · rw [if_neg done, show n - 1 - x = x by omega]

theorem reverseLoop_off {s : Mem} {j x : ℕ} (inside : j < n) (off : n ≤ x) :
    reverseLoop rounds i j s x = s x := by
  induction rounds generalizing i j s with
  | zero => rfl
  | succ rounds ih =>
    rw [reverseLoop]
    by_cases more : i < j
    · rw [if_pos more, ih (by omega), Function.update_of_ne (by omega), Function.update_of_ne (by omega)]
    · rw [if_neg more]

/-- **`reverse` reverses a string.** -/
theorem reverse_eq (whole : 0 ∉ text) (room : text.length < limit) :
    reverse limit (storeBytes m 0 (text ++ [0])) = some (storeBytes m 0 (text.reverse ++ [0])) := by
  rw [reverse, strlen_eq (stringAt_storeBytes whole) room, Option.map_some]
  have read : ∀ (t : Chars) (k) (inside : k < t.length), storeBytes m 0 (t ++ [0]) k = t[k] := by
    intro t k inside
    have here := storeBytes_chars (m := m) (p := 0) t [0] k inside
    rwa [Nat.zero_add] at here
  congr 1
  funext x
  rcases Nat.lt_or_ge x text.length with inside | behind
  · have swapped : reverseLoop text.length 0 (text.length - 1) (storeBytes m 0 (text ++ [0])) x =
        storeBytes m 0 (text ++ [0]) (text.length - 1 - x) :=
      reverseLoop_at (by omega) (by omega) (fun x inside => (if_neg (by omega)).symm) x inside
    have inside' : x < text.reverse.length := List.length_reverse.symm ▸ inside
    rw [swapped, read text _ (by omega), read text.reverse x inside', List.getElem_reverse]
  · have same : text.length = text.reverse.length := List.length_reverse.symm
    have kept : reverseLoop text.length 0 (text.length - 1) (storeBytes m 0 (text ++ [0])) x =
        storeBytes m 0 (text ++ [0]) x := by
      rcases Nat.eq_zero_or_pos text.length with none | some
      · rw [none]
        rfl
      · exact reverseLoop_off (Nat.sub_lt some Nat.one_pos) behind
    rw [kept, storeBytes_behind same (by omega)]

/-! ### The digits -/

/-- The digits in the order in which they are written. -/
def digitChars (radix : BitVec 32) : ℕ → BitVec 32 → Option Chars
  | 0, _ => none
  | rounds + 1, value =>
      if value = 0 then some []
      else if radix = 0 then none
      else (digitChars radix rounds (value.sdiv radix)).map (digitChar (value.srem radix) :: ·)

theorem digitLoop_eq (radix : BitVec 32) (rounds : ℕ) (value : BitVec 32) (i : ℕ) (dest : Mem) :
    digitLoop radix rounds value i dest =
      (digitChars radix rounds value).map fun text => (i + text.length, storeBytes dest i text) := by
  induction rounds generalizing value i dest with
  | zero => rfl
  | succ rounds ih =>
    rw [digitLoop, digitChars]
    by_cases none : value = 0
    · rw [if_pos none, if_pos none]
      rfl
    by_cases zero : radix = 0
    · rw [if_neg none, if_neg none, if_pos zero, if_pos zero]
      rfl
    · rw [if_neg none, if_neg none, if_neg zero, if_neg zero, ih, Option.map_map]
      refine congrArg (Option.map · _) (funext fun text => ?_)
      show (i + 1 + text.length, _) = (i + (text.length + 1), _)
      rw [Nat.add_assoc, Nat.add_comm 1]
      rfl

/-- The text of a value, from its digits. -/
def signed (value : BitVec 32) (digits : Chars) : Chars :=
  if value.slt 0 then 45 :: digits.reverse else if digits = [] then [48] else digits.reverse

/-- **`itoa_base` stores the text** and a NUL. -/
theorem itoaBase_eq {radix : BitVec 32} {digits : Chars}
    (written : digitChars radix digitRounds (if value.slt 0 then -value else value) = some digits)
    (whole : 0 ∉ digits) (few : digits.length ≤ 32) (dest : Mem) :
    itoaBase value dest radix = some (storeBytes dest 0 (signed value digits ++ [0])) := by
  have stored : ∀ (text : Chars) (c : BitVec 8),
      Function.update (storeBytes dest 0 text) text.length c = storeBytes dest 0 (text ++ [c]) := by
    intro text c
    rw [← storeBytes_append, Nat.zero_add]
    rfl
  have loop : digitLoop radix digitRounds (if value.slt 0 then -value else value) 0 dest =
      some (digits.length, storeBytes dest 0 digits) := by
    rw [digitLoop_eq, written, Option.map_some, Nat.zero_add]
  unfold itoaBase signed
  dsimp only
  rw [loop]
  cases negative : value.slt 0 with
  | true =>
    have whole' : 0 ∉ digits ++ [45] := fun member => (List.mem_append.mp member).elim whole (by decide)
    have length : (digits ++ [45]).length = digits.length + 1 := List.length_append
    show reverse textLimit
      (Function.update (Function.update (storeBytes dest 0 digits) digits.length 45) (digits.length + 1) 0) =
        some (storeBytes dest 0 (45 :: digits.reverse ++ [0]))
    rw [stored, ← length, stored, reverse_eq whole' (by rw [length, textLimit]; omega),
      List.reverse_concat]
  | false =>
    cases digits with
    | nil =>
      show reverse textLimit (storeBytes dest 0 ([48] ++ [0])) = some (storeBytes dest 0 ([48].reverse ++ [0]))
      exact reverse_eq (by decide) (by decide)
    | cons d digits =>
      show reverse textLimit
        (Function.update (storeBytes dest 0 (d :: digits)) (d :: digits).length 0) =
          some (storeBytes dest 0 ((d :: digits).reverse ++ [0]))
      rw [stored, reverse_eq whole (by rw [textLimit]; omega)]

/-! ### The alphabet -/

/-- The letter of a digit, and the digit of a letter; 36 for no letter. -/
def digitLetter (d : ℕ) : BitVec 8 := BitVec.ofNat 8 (if d < 10 then 48 + d else 87 + d)
def letterDigit (c : BitVec 8) : ℕ :=
  if 48 ≤ c.toNat ∧ c.toNat < 58 then c.toNat - 48
  else if 97 ≤ c.toNat ∧ c.toNat < 123 then c.toNat - 87
  else 36

theorem letterDigit_digitLetter : ∀ d < 36, letterDigit (digitLetter d) = d := by decide

/-- **The digits `0`–`9` and `a`–`z`**, and `-`. -/
def alphabet {radix : ℕ} (most : radix ≤ 36) : Numeral.Alphabet (BitVec 8) radix where
  letter := digitLetter
  digit c := if letterDigit c < radix then some (letterDigit c) else none
  minus := 45
  digit_letter d small := by
    rw [letterDigit_digitLetter d (small.trans_le most), if_pos small]
  digit_minus := by
    have outside : letterDigit 45 = 36 := by decide
    rw [outside, if_neg (Nat.not_lt.mpr most)]

/-! ### Values that are not negative -/

theorem digitChar_ofNat : ∀ d < 36, digitChar (BitVec.ofNat 32 d) = digitLetter d := by decide

/-- Signed division of values that are not negative. -/
theorem sdiv_srem_toNat {x y : BitVec 32} (dividend : x.toNat < 2 ^ 31) (divisor : y.toNat < 2 ^ 31) :
    (x.sdiv y).toNat = x.toNat / y.toNat ∧ (x.srem y).toNat = x.toNat % y.toNat := by
  have xPositive : x.msb = false := BitVec.msb_eq_false_iff_two_mul_lt.mpr (by omega)
  have yPositive : y.msb = false := BitVec.msb_eq_false_iff_two_mul_lt.mpr (by omega)
  constructor
  · rw [BitVec.sdiv, xPositive, yPositive]
    exact BitVec.toNat_udiv
  · rw [BitVec.srem, xPositive, yPositive]
    exact BitVec.toNat_umod

/-- **The digits of the numeral**, the last one first. -/
theorem digitChars_eq (two : 1 < radix) (most : radix ≤ 36) (positive : value.toNat < 2 ^ 31)
    (small : value.toNat < 2 ^ rounds) : digitChars (BitVec.ofNat 32 radix) (rounds + 1) value =
      some ((Nat.digits radix value.toNat).map digitLetter) := by
  have number : (BitVec.ofNat 32 radix).toNat = radix := by
    rw [BitVec.toNat_ofNat]
    omega
  have nonzero : BitVec.ofNat 32 radix ≠ 0 := by
    intro zero
    rw [zero] at number
    exact absurd number.symm (Nat.ne_zero_of_lt two)
  induction rounds generalizing value with
  | zero =>
    have zero : value = 0 := BitVec.eq_of_toNat_eq (Nat.lt_one_iff.mp small)
    subst zero
    rw [digitChars, if_pos rfl]
    exact congrArg some (congrArg (List.map digitLetter) (Nat.digits_zero radix).symm)
  | succ rounds ih =>
    rw [digitChars]
    by_cases zero : value = 0
    · subst zero
      rw [if_pos rfl]
      exact congrArg some (congrArg (List.map digitLetter) (Nat.digits_zero radix).symm)
    have some : 0 < value.toNat := Nat.pos_of_ne_zero fun none => zero (BitVec.eq_of_toNat_eq none)
    obtain ⟨quotient, remainder⟩ :=
      sdiv_srem_toNat (x := value) (y := BitVec.ofNat 32 radix) positive (by omega)
    rw [number] at quotient remainder
    have positive' : value.toNat / radix < 2 ^ 31 := (Nat.div_le_self _ _).trans_lt positive
    have half : value.toNat / radix < 2 ^ rounds := by
      rw [Nat.div_lt_iff_lt_mul (by omega)]
      calc value.toNat < 2 ^ rounds * 2 := small
        _ ≤ 2 ^ rounds * radix := Nat.mul_le_mul_left _ two
    have digit : value.srem (BitVec.ofNat 32 radix) = BitVec.ofNat 32 (value.toNat % radix) :=
      BitVec.eq_of_toNat_eq (by rw [remainder, BitVec.toNat_ofNat]; omega)
    have less : value.toNat % radix < 36 := (Nat.mod_lt _ (by omega)).trans_le most
    rw [if_neg zero, if_neg nonzero, ih (quotient ▸ positive') (quotient ▸ half), Option.map_some, quotient, digit,
      digitChar_ofNat _ less, Nat.digits_def' two some, List.map_cons]

/-! ### The text -/

/-- The text that `itoa_base` leaves. -/
def itoaText (value radix : BitVec 32) : Chars :=
  ((itoaBase value (fun _ => 0) radix).map fun dest => charsAt dest textLimit 0).getD []

theorem digitChars_length {radix : BitVec 32} {digits : Chars}
    (written : digitChars radix rounds value = some digits) : digits.length < rounds := by
  induction rounds generalizing value digits with
  | zero => cases written
  | succ rounds ih =>
    rw [digitChars] at written
    by_cases none : value = 0
    · rw [if_pos none] at written
      obtain rfl := Option.some.inj written
      exact Nat.succ_pos _
    by_cases zero : radix = 0
    · rw [if_neg none, if_pos zero] at written
      cases written
    · rw [if_neg none, if_neg zero] at written
      obtain ⟨rest, later, rfl⟩ := Option.map_eq_some_iff.mp written
      exact Nat.succ_lt_succ (ih later)

/-- The absolute value, as `itoa_base` computes it. -/
def magnitude (value : BitVec 32) : BitVec 32 := if value.slt 0 then -value else value

/-- The negation of `-2^31` is negative, and so are its digits: their characters come before `0`. -/
theorem digitChars_intMin (two : 1 < radix) (most : radix ≤ 36) : ∃ digits,
    digitChars (BitVec.ofNat 32 radix) digitRounds (magnitude (BitVec.intMin 32)) = some digits ∧
      0 ∉ digits ∧ ∃ c ∈ digits, letterDigit c = 36 := by
  have all : ∀ radix < 37, 1 < radix →
      ((digitChars (BitVec.ofNat 32 radix) digitRounds (magnitude (BitVec.intMin 32))).any fun digits =>
        decide (0 ∉ digits) && digits.any fun c => decide (letterDigit c = 36)) = true := by
    decide +kernel
  obtain ⟨digits, written, found⟩ := (Option.any_eq_true _ _).mp (all radix (by omega) two)
  obtain ⟨whole, early⟩ := (Bool.and_eq_true _ _).mp found
  obtain ⟨c, member, other⟩ := List.any_eq_true.mp early
  exact ⟨digits, written, of_decide_eq_true whole, c, member, of_decide_eq_true other⟩

theorem magnitude_toNat (ordinary : value ≠ BitVec.intMin 32) :
    (magnitude value).toNat = value.toInt.natAbs ∧ (magnitude value).toNat < 2 ^ 31 := by
  have extreme : value.toNat ≠ 2 ^ 31 := fun same => ordinary (BitVec.eq_of_toNat_eq same)
  have bound := value.isLt
  have sign : value.slt 0 = value.msb := BitVec.slt_zero_eq_msb
  unfold magnitude
  rw [sign]
  cases negative : value.msb with
  | true =>
    have high := BitVec.msb_eq_true_iff_two_mul_ge.mp negative
    rw [if_pos rfl, BitVec.toNat_neg, BitVec.toInt_eq_msb_cond, if_pos negative]
    omega
  | false =>
    have low := BitVec.msb_eq_false_iff_two_mul_lt.mp negative
    rw [if_neg Bool.false_ne_true, BitVec.toInt_eq_toNat_of_msb negative]
    omega

theorem digitLetter_ne_zero : ∀ d < 36, digitLetter d ≠ 0 := by decide

theorem zero_not_mem_letters (two : 1 < radix) (most : radix ≤ 36) (n : ℕ) :
    0 ∉ (Nat.digits radix n).map digitLetter := by
  intro member
  obtain ⟨d, there, zero⟩ := List.mem_map.mp member
  exact digitLetter_ne_zero d ((Nat.digits_lt_base two there).trans_le most) zero

/-- The digits of a value other than `-2^31`. -/
theorem digitChars_ordinary (two : 1 < radix) (most : radix ≤ 36)
    (ordinary : value ≠ BitVec.intMin 32) :
    digitChars (BitVec.ofNat 32 radix) digitRounds (magnitude value) =
      some ((Nat.digits radix value.toInt.natAbs).map digitLetter) := by
  obtain ⟨absolute, small⟩ := magnitude_toNat ordinary
  have more : (magnitude value).toNat < 2 ^ 32 := (magnitude value).isLt
  rw [← absolute]
  exact digitChars_eq two most small more

theorem signed_whole {digits : Chars} (whole : 0 ∉ digits) : 0 ∉ signed value digits := by
  have reversed : 0 ∉ digits.reverse := fun member => whole (List.mem_reverse.mp member)
  unfold signed
  split
  · exact fun member => (List.mem_cons.mp member).elim (by decide) reversed
  split
  · decide
  · exact reversed

theorem signed_length {digits : Chars} (few : digits.length ≤ 32) :
    (signed value digits).length < textLimit := by
  unfold signed textLimit
  split
  · rw [List.length_cons, List.length_reverse]
    omega
  split
  · decide
  · rw [List.length_reverse]
    omega

/-- **Every value has a text.** -/
theorem itoaBase_gives (two : 1 < radix) (most : radix ≤ 36) (value : BitVec 32) (dest : Mem) :
    ∃ digits, digitChars (BitVec.ofNat 32 radix) digitRounds (magnitude value) = some digits ∧
      itoaText value (BitVec.ofNat 32 radix) = signed value digits ∧
      itoaBase value dest (BitVec.ofNat 32 radix) =
        some (storeBytes dest 0 (itoaText value (BitVec.ofNat 32 radix) ++ [0])) ∧
      0 ∉ itoaText value (BitVec.ofNat 32 radix) ∧
      (itoaText value (BitVec.ofNat 32 radix)).length < textLimit := by
  obtain ⟨digits, written, whole⟩ : ∃ digits,
      digitChars (BitVec.ofNat 32 radix) digitRounds (magnitude value) = some digits ∧ 0 ∉ digits := by
    by_cases extreme : value = BitVec.intMin 32
    · obtain ⟨digits, written, whole, -⟩ := digitChars_intMin two most
      exact ⟨digits, extreme ▸ written, whole⟩
    · exact ⟨_, digitChars_ordinary two most extreme, zero_not_mem_letters two most _⟩
  have few : digits.length ≤ 32 := Nat.lt_succ_iff.mp (digitChars_length written)
  have signedWhole : 0 ∉ signed value digits := signed_whole whole
  have short : (signed value digits).length < textLimit := signed_length few
  have text : itoaText value (BitVec.ofNat 32 radix) = signed value digits := by
    rw [itoaText, itoaBase_eq written whole few, Option.map_some, Option.getD_some]
    exact charsAt_eq (stringAt_storeBytes signedWhole) short
  rw [text]
  exact ⟨digits, written, rfl, itoaBase_eq written whole few dest, signedWhole, short⟩

end WalOS.Text
