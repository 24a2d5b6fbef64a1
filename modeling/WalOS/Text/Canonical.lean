/-
**The text of an integer is its numeral** (`itoa_base` of `common.c`).

* `itoaText_eq` — a value other than `-2^31` has a minus sign exactly if it is negative, and the numeral of
  its absolute value.
* `readInt_intMin` — the text of `-2^31` is no numeral.
* `itoa_base_canonical_iff` — **the text is canonical exactly for the values other than `-2^31`**.
-/

import WalOS.Text.Itoa

namespace WalOS.Text

open Bytes Numeral

variable {value : BitVec 32} {radix : ℕ}

theorem slt_zero_iff : value.slt 0 = true ↔ value.toInt < 0 := by
  rw [BitVec.slt_iff_toInt_lt]
  exact Iff.rfl

/-- The reversed digits are the numeral. -/
theorem signed_eq_spellInt (most : radix ≤ 36) :
    signed value ((Nat.digits radix value.toInt.natAbs).map digitLetter) =
      (alphabet most).spellInt value.toInt := by
  have numeral : value.toInt.natAbs ≠ 0 →
      ((Nat.digits radix value.toInt.natAbs).map digitLetter).reverse =
        (alphabet most).spell value.toInt.natAbs := by
    intro some
    rw [Alphabet.spell, numeral_pos some, List.map_reverse]
    rfl
  unfold signed Alphabet.spellInt
  by_cases negative : value.toInt < 0
  · rw [if_pos (slt_zero_iff.mpr negative), if_pos negative, numeral (by omega)]
    rfl
  rw [if_neg fun less => negative (slt_zero_iff.mp less), if_neg negative]
  by_cases zero : value.toInt.natAbs = 0
  · rw [zero, Nat.digits_zero, Alphabet.spell, numeral_zero]
    rfl
  · rw [if_neg, numeral zero]
    intro none
    exact Nat.digits_ne_nil_iff_ne_zero.mpr zero (List.map_eq_nil_iff.mp none)

/-- **The text of a value** other than `-2^31`. -/
theorem itoaText_eq (two : 1 < radix) (most : radix ≤ 36) (ordinary : value ≠ BitVec.intMin 32) :
    itoaText value (BitVec.ofNat 32 radix) = (alphabet most).spellInt value.toInt := by
  obtain ⟨digits, written, text, -⟩ := itoaBase_gives two most value fun _ => 0
  rw [digitChars_ordinary two most ordinary] at written
  obtain rfl := Option.some.inj written
  rw [text, signed_eq_spellInt most]

/-- The digits of an integer begin with `0` only if that is all of them. -/
theorem spellInt_leading (two : 1 < radix) (most : radix ≤ 36) {z : ℤ} {digits : Chars}
    (text : (alphabet most).spellInt z = digits ∨ (alphabet most).spellInt z = 45 :: digits)
    (zero : digits.head? = some 48) : digits = [48] := by
  have spelled : ∀ n, (alphabet most).spell n = digits → digits = [48] := by
    rintro n rfl
    rw [Alphabet.spell_leading two zero, Alphabet.spell, numeral_zero]
    rfl
  have first : ∀ n, (alphabet most).spell n ≠ 45 :: digits := by
    intro n same
    obtain ⟨d, -, digit⟩ := Alphabet.spell_digit two (same ▸ List.mem_cons_self :
      (45 : BitVec 8) ∈ (alphabet most).spell n)
    exact absurd (digit.symm.trans (alphabet most).digit_minus) (Option.some_ne_none d)
  unfold Alphabet.spellInt at text
  by_cases negative : z < 0
  · rw [if_pos negative] at text
    rcases text with rfl | same
    · cases zero
    · exact spelled _ (List.tail_eq_of_cons_eq same)
  · rw [if_neg negative] at text
    rcases text with same | same
    · exact spelled _ same
    · exact absurd same (first _)

/-- The text of `-2^31` is no numeral. -/
theorem readInt_intMin (two : 1 < radix) (most : radix ≤ 36) :
    (alphabet most).readInt (itoaText (BitVec.intMin 32) (BitVec.ofNat 32 radix)) = none := by
  obtain ⟨digits, written, text, -⟩ := itoaBase_gives two most (BitVec.intMin 32) fun _ => 0
  obtain ⟨digits', written', -, c, member, other⟩ := digitChars_intMin two most
  rw [written] at written'
  obtain rfl := Option.some.inj written'
  have negative : (BitVec.intMin 32).slt 0 = true := by decide
  rw [text, signed, if_pos negative]
  refine Alphabet.readInt_minus_none (List.mem_reverse.mpr member) ?_
  show (if letterDigit c < radix then some (letterDigit c) else none) = none
  rw [other, if_neg (Nat.not_lt.mpr most)]

/-- **The text of a value is canonical**: what is written is the numeral and a NUL, its digits begin with
`0` only if that is all of them, it reads back, and no other value has it. -/
structure Canonical {radix : ℕ} (most : radix ≤ 36) (value : BitVec 32) (dest : Mem) : Prop where
  written : itoaBase value dest (BitVec.ofNat 32 radix) =
    some (storeBytes dest 0 ((alphabet most).spellInt value.toInt ++ [0]))
  leading : ∀ digits, (itoaText value (BitVec.ofNat 32 radix) = digits ∨
    itoaText value (BitVec.ofNat 32 radix) = 45 :: digits) → digits.head? = some 48 → digits = [48]
  readBack : (alphabet most).readInt (itoaText value (BitVec.ofNat 32 radix)) = some value.toInt
  distinct : ∀ value', itoaText value' (BitVec.ofNat 32 radix) = itoaText value (BitVec.ofNat 32 radix) →
    value' = value

/-- **Exactly the values other than `-2^31` have a canonical text**, in every radix. -/
theorem itoa_base_canonical_iff (two : 2 ≤ radix) (most : radix ≤ 36) (value : BitVec 32) (dest : Mem) :
    Canonical most value dest ↔ value ≠ BitVec.intMin 32 := by
  constructor
  · rintro ⟨-, -, readBack, -⟩ rfl
    rw [readInt_intMin two most] at readBack
    cases readBack
  · intro ordinary
    have text := itoaText_eq two most ordinary
    have readBack : (alphabet most).readInt (itoaText value (BitVec.ofNat 32 radix)) =
        some value.toInt := text ▸ Alphabet.readInt_spellInt two value.toInt
    obtain ⟨-, -, -, stores, -⟩ := itoaBase_gives two most value dest
    refine ⟨text ▸ stores, ?_, readBack, fun value' same => ?_⟩
    · rw [text]
      exact fun digits => spellInt_leading two most
    by_cases extreme : value' = BitVec.intMin 32
    · rw [← same, extreme, readInt_intMin two most] at readBack
      cases readBack
    · rw [text, itoaText_eq two most extreme] at same
      exact BitVec.eq_of_toInt_eq (Alphabet.spellInt_injective two same)

/-- `-255` in radix 16 is `-ff`. -/
theorem itoa_base_canonical_ff : Canonical (show 16 ≤ 36 by decide) (-255) (fun _ => 0) :=
  (itoa_base_canonical_iff (by decide) _ _ _).mpr (by decide)

/-- The text of `-2^31` in radix 10 reads back as nothing. -/
theorem itoa_base_intMin : ¬ Canonical (show 10 ≤ 36 by decide) (BitVec.intMin 32) (fun _ => 0) := by
  rintro ⟨-, -, readBack, -⟩
  rw [readInt_intMin (by decide) _] at readBack
  cases readBack

end WalOS.Text
