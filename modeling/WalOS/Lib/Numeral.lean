/-
**Numerals.**

The numeral of a number in a radix is the list of its digits, the most significant first, without leading
zeros; that of 0 is one zero. An `Alphabet` writes digits as characters, and has a minus sign that is none
of them.

* `value_numeral`, `numeral_canonical` — a numeral has the value it is for, and no leading zero.
* `Alphabet.read_spell` — **a number that is written reads back**; `spell_injective`.
* `Alphabet.readInt_spellInt`, `spellInt_injective` — the same with a sign.
-/

import Mathlib.Data.Nat.Digits.Lemmas

namespace Numeral

/-- The value of digits, the most significant first. -/
def value (radix : ℕ) (digits : List ℕ) : ℕ := digits.foldl (fun n d => n * radix + d) 0

/-- The numeral of a number. -/
def numeral (radix n : ℕ) : List ℕ := if n = 0 then [0] else (Nat.digits radix n).reverse

variable {radix n d : ℕ}

theorem value_concat (radix : ℕ) (digits : List ℕ) (d : ℕ) :
    value radix (digits ++ [d]) = value radix digits * radix + d :=
  List.foldl_append

theorem numeral_zero (radix : ℕ) : numeral radix 0 = [0] := if_pos rfl

theorem numeral_pos (some : n ≠ 0) : numeral radix n = (Nat.digits radix n).reverse := if_neg some

/-- The last digit. -/
theorem numeral_succ (two : 1 < radix) (more : radix ≤ n) :
    numeral radix n = numeral radix (n / radix) ++ [n % radix] := by
  have some : n ≠ 0 := by omega
  have left : n / radix ≠ 0 := Nat.div_ne_zero_iff.mpr ⟨by omega, more⟩
  rw [numeral_pos some, numeral_pos left, Nat.digits_eq_cons_digits_div two some, List.reverse_cons]

theorem numeral_digit (small : d < radix) : numeral radix d = [d] := by
  rcases Nat.eq_zero_or_pos d with rfl | some
  · exact numeral_zero radix
  · rw [numeral_pos (Nat.ne_of_gt some), Nat.digits_of_lt radix d (Nat.ne_of_gt some) small]
    rfl

/-- A numeral has the value it is for. -/
theorem value_numeral (two : 1 < radix) (n : ℕ) : value radix (numeral radix n) = n := by
  induction n using Nat.strong_induction_on with
  | _ n ih =>
    rcases Nat.lt_or_ge n radix with small | more
    · rw [numeral_digit small]
      show 0 * radix + n = n
      rw [Nat.zero_mul, Nat.zero_add]
    · rw [numeral_succ two more, value_concat, ih _ (Nat.div_lt_self (by omega) two)]
      exact Nat.div_add_mod' n radix

theorem numeral_lt (two : 1 < radix) (member : d ∈ numeral radix n) : d < radix := by
  rcases Nat.eq_zero_or_pos n with rfl | some
  · rw [numeral_zero, List.mem_singleton] at member
    omega
  · rw [numeral_pos (Nat.ne_of_gt some), List.mem_reverse] at member
    exact Nat.digits_lt_base two member

theorem numeral_ne_nil (radix n : ℕ) : numeral radix n ≠ [] := by
  rcases Nat.eq_zero_or_pos n with rfl | some
  · rw [numeral_zero]
    exact List.cons_ne_nil _ _
  · rw [numeral_pos (Nat.ne_of_gt some)]
    exact fun none => Nat.digits_ne_nil_iff_ne_zero.mpr (Nat.ne_of_gt some)
      (List.reverse_eq_nil_iff.mp none)

/-- There are no leading zeros. -/
theorem numeral_canonical (radix : ℕ) (some : n ≠ 0) : (numeral radix n).head? ≠ Option.some 0 := by
  have digits := Nat.digits_ne_nil_iff_ne_zero (b := radix).mpr some
  rw [numeral_pos some, List.head?_reverse, List.getLast?_eq_some_getLast digits]
  exact fun zero => Nat.getLast_digit_ne_zero radix some (Option.some.inj zero)

/-! ### Alphabets -/

/-- **Characters for the digits of a radix**, and a minus sign. -/
structure Alphabet (α : Type) (radix : ℕ) where
  letter : ℕ → α
  digit : α → Option ℕ
  minus : α
  digit_letter : ∀ d < radix, digit (letter d) = some d
  digit_minus : digit minus = none

namespace Alphabet

variable {α : Type} (alphabet : Alphabet α radix)

/-- The number in characters. -/
def spell (n : ℕ) : List α := (numeral radix n).map alphabet.letter

/-- The digits that characters are. -/
def digits : List α → Option (List ℕ)
  | [] => some []
  | c :: text => do
      let d ← alphabet.digit c
      let ds ← digits text
      some (d :: ds)

/-- The number that a text of at least one digit is. -/
def read (text : List α) : Option ℕ :=
  if text.isEmpty then none else (alphabet.digits text).map (value radix)

/-- The integer in characters. -/
def spellInt (z : ℤ) : List α :=
  if z < 0 then alphabet.minus :: alphabet.spell z.natAbs else alphabet.spell z.natAbs

/-- The integer that a text is. -/
def readInt : List α → Option ℤ
  | [] => none
  | c :: text =>
      match alphabet.digit c with
      | none => (alphabet.read text).map fun (n : ℕ) => -(n : ℤ)
      | some _ => (alphabet.read (c :: text)).map fun (n : ℕ) => (n : ℤ)

variable {alphabet}

theorem digits_map_letter {ds : List ℕ} (small : ∀ d ∈ ds, d < radix) :
    alphabet.digits (ds.map alphabet.letter) = some ds := by
  induction ds with
  | nil => rfl
  | cons d ds ih =>
    rw [List.map_cons, digits, alphabet.digit_letter d (small d List.mem_cons_self),
      ih fun d' member => small d' (List.mem_cons_of_mem d member)]
    rfl

/-- A text with a character that is no digit is no number. -/
theorem digits_none {text : List α} {c : α} (member : c ∈ text) (other : alphabet.digit c = none) :
    alphabet.digits text = none := by
  induction text with
  | nil => cases member
  | cons c' text ih =>
    rw [digits]
    rcases List.mem_cons.mp member with rfl | later
    · rw [other]
      rfl
    · rw [ih later]
      cases alphabet.digit c' <;> rfl

theorem read_none {text : List α} {c : α} (member : c ∈ text) (other : alphabet.digit c = none) :
    alphabet.read text = none := by
  rw [read, digits_none member other]
  cases text <;> rfl

theorem readInt_minus_none {text : List α} {c : α} (member : c ∈ text)
    (other : alphabet.digit c = none) : alphabet.readInt (alphabet.minus :: text) = none := by
  rw [readInt, alphabet.digit_minus]
  dsimp only
  rw [read_none member other]
  rfl

/-- **A number that is written reads back.** -/
theorem read_spell (two : 1 < radix) (n : ℕ) : alphabet.read (alphabet.spell n) = some n := by
  have some : (alphabet.spell n).isEmpty = false := by
    rw [List.isEmpty_eq_false_iff]
    exact fun none => numeral_ne_nil radix n (List.map_eq_nil_iff.mp none)
  rw [read, some, if_neg (by decide), spell, digits_map_letter fun d => numeral_lt two, Option.map_some,
    value_numeral two]

theorem spell_injective (two : 1 < radix) : Function.Injective alphabet.spell := by
  intro n n' same
  have reads : alphabet.read (alphabet.spell n) = some n := read_spell two n
  rw [same, read_spell two n'] at reads
  exact (Option.some.inj reads).symm

/-- Every character is a digit. -/
theorem spell_digit (two : 1 < radix) {c : α} (member : c ∈ alphabet.spell n) :
    ∃ d < radix, alphabet.digit c = some d := by
  obtain ⟨d, there, rfl⟩ := List.mem_map.mp member
  exact ⟨d, numeral_lt two there, alphabet.digit_letter d (numeral_lt two there)⟩

/-- Only 0 begins with the letter of 0. -/
theorem spell_leading (two : 1 < radix) (leading : (alphabet.spell n).head? = some (alphabet.letter 0)) :
    n = 0 := by
  by_contra some
  obtain ⟨d, ds, digits⟩ := List.exists_cons_of_ne_nil (numeral_ne_nil radix n)
  have small : d < radix := numeral_lt two (digits ▸ List.mem_cons_self : d ∈ numeral radix n)
  rw [spell, digits, List.map_cons, List.head?_cons] at leading
  have same := congrArg alphabet.digit (Option.some.inj leading)
  rw [alphabet.digit_letter d small, alphabet.digit_letter 0 (by omega)] at same
  refine numeral_canonical radix some ?_
  rw [digits, Option.some.inj same]
  rfl

/-- **An integer that is written reads back.** -/
theorem readInt_spellInt (two : 1 < radix) (z : ℤ) : alphabet.readInt (alphabet.spellInt z) = some z := by
  unfold spellInt
  by_cases negative : z < 0
  · rw [if_pos negative, readInt, alphabet.digit_minus]
    dsimp only
    rw [read_spell two, Option.map_some, Int.ofNat_natAbs_of_nonpos negative.le, Int.neg_neg]
  · rw [if_neg negative]
    cases text : alphabet.spell z.natAbs with
    | nil => exact absurd (List.map_eq_nil_iff.mp text) (numeral_ne_nil radix z.natAbs)
    | cons c rest =>
      obtain ⟨d, -, digit⟩ := spell_digit two (text ▸ List.mem_cons_self : c ∈ alphabet.spell z.natAbs)
      rw [readInt, digit]
      dsimp only
      rw [← text, read_spell two, Option.map_some, Int.natAbs_of_nonneg (Int.not_lt.mp negative)]

theorem spellInt_injective (two : 1 < radix) : Function.Injective alphabet.spellInt := by
  intro z z' same
  have reads : alphabet.readInt (alphabet.spellInt z) = some z := readInt_spellInt two z
  rw [same, readInt_spellInt two z'] at reads
  exact (Option.some.inj reads).symm

end Alphabet

end Numeral
