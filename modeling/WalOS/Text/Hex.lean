/-
**Words in hexadecimal** (`itoa_base` and `vsprintf` of `common.c`).

Addresses, sector numbers and error codes are words without a sign. They are passed to `itoa_base` with
radix 16, or for a directive `x`, and both take them for signed integers.

* `hexText_eq`, `readHex_negative` — the text of a word below `2^31`, and that of any other.
* `vsprintf_hex` — what a directive `x` prints, wherever it stands in a format.
* `hex_shown_iff` — **exactly the words below `2^31` are shown**.
-/

import WalOS.Text.Canonical
import WalOS.Text.Render

namespace WalOS.Text

open Bytes Numeral

variable {w : BitVec 32} {args : Args} {before after : List Item} {d : Directive}

/-- The alphabet of hexadecimal numerals. -/
abbrev hex : Alphabet (BitVec 8) 16 := alphabet (show 16 ≤ 36 by decide)

/-- **The text of a word below `2^31`** is its numeral. -/
theorem hexText_eq (low : w.toNat < 2 ^ 31) : itoaText w 16 = hex.spell w.toNat := by
  have ordinary : w ≠ BitVec.intMin 32 := by
    rintro rfl
    exact absurd low (by decide)
  have value : w.toInt = w.toNat := BitVec.toInt_eq_toNat_of_lt (by omega)
  have text : itoaText w 16 = hex.spellInt w.toInt := itoaText_eq (by decide) (by decide) ordinary
  rw [text, value, Alphabet.spellInt, if_neg (by omega), Int.natAbs_natCast]

/-- The text of any other word begins with a sign, and is no numeral. -/
theorem readHex_negative (high : 2 ^ 31 ≤ w.toNat) : hex.read (itoaText w 16) = none := by
  obtain ⟨digits, -, text, -⟩ := itoaBase_gives (show 1 < 16 by decide) (by decide) w fun _ => 0
  have text : itoaText w 16 = signed w digits := text
  have sign : w.slt 0 = w.msb := BitVec.slt_zero_eq_msb
  have negative : w.msb = true := BitVec.msb_eq_true_iff_two_mul_ge.mpr (by omega)
  rw [text, signed, sign, if_pos negative]
  exact Alphabet.read_none List.mem_cons_self hex.digit_minus

/-- **What a directive `x` prints**, wherever it stands in a format. -/
theorem vsprintf_hex (letter : d.letter = 120) (small : value 10 d.width < 2 ^ 31)
    (fits : FitsAll args (before ++ .directive d :: after) 0) (buf : Mem) (rest : Chars) :
    ∃ s length, (vsprintf buf (formatText (before ++ .directive d :: after) ++ 0 :: rest) args).outcome =
        .ok (s, length) ∧
      StringAt s.buf 0 (outs args before 0 ++
        (List.replicate (value 10 d.width - (itoaText (args.word (takenAll before)) 16).length)
          (fillOf d.zero) ++ itoaText (args.word (takenAll before)) 16) ++
        outs args after (takenAll before + 1)) := by
  obtain ⟨log, gives, -⟩ := vsprintf_items fits buf rest
  refine ⟨_, _, gives.outcome, ?_⟩
  have short := args.text_short (takenAll before) (show d.letter ≠ 115 by rw [letter]; decide)
  have text : args.text d.letter (takenAll before) = itoaText (args.word (takenAll before)) 16 := if_pos letter
  have one : (Item.directive d).taken = 1 := by
    show takes d.letter = 1
    rw [letter]
    rfl
  have printed : outs args (before ++ .directive d :: after) 0 = outs args before 0 ++
      (List.replicate (value 10 d.width - (itoaText (args.word (takenAll before)) 16).length)
        (fillOf d.zero) ++ itoaText (args.word (takenAll before)) 16) ++
      outs args after (takenAll before + 1) := by
    rw [outs_append, outs, Nat.zero_add, one, Item.out, Args.field_eq small short, text]
    exact (List.append_assoc _ _ _).symm
  rw [← printed]
  exact stringAt_storeBytes (outs_whole fits)

/-- **A word is shown**: `itoa_base` writes its numeral and a NUL, so does a directive `x` behind the fill
characters that the width asks for, the text reads back, and no other word has it. -/
structure HexShown (w : BitVec 32) : Prop where
  written : ∀ dest, itoaBase w dest 16 = some (storeBytes dest 0 (hex.spell w.toNat ++ [0]))
  printed : ∀ (before after : List Item) (d : Directive) (args : Args) (buf : Mem) (rest : Chars),
    d.letter = 120 → value 10 d.width < 2 ^ 31 → FitsAll args (before ++ .directive d :: after) 0 →
    args.word (takenAll before) = w →
    ∃ s length, (vsprintf buf (formatText (before ++ .directive d :: after) ++ 0 :: rest) args).outcome =
        .ok (s, length) ∧
      StringAt s.buf 0 (outs args before 0 ++
        (List.replicate (value 10 d.width - (hex.spell w.toNat).length) (fillOf d.zero) ++
          hex.spell w.toNat) ++ outs args after (takenAll before + 1))
  readBack : hex.read (itoaText w 16) = some w.toNat
  distinct : ∀ w', itoaText w' 16 = itoaText w 16 → w' = w

/-- **Exactly the words below `2^31` are shown in hexadecimal.** -/
theorem hex_shown_iff (w : BitVec 32) : HexShown w ↔ w.toNat < 2 ^ 31 := by
  constructor
  · rintro ⟨-, -, readBack, -⟩
    by_contra high
    rw [readHex_negative (Nat.not_lt.mp high)] at readBack
    cases readBack
  · intro low
    have text := hexText_eq low
    have readBack : hex.read (itoaText w 16) = some w.toNat := by
      rw [text]
      exact Alphabet.read_spell (by decide) _
    refine ⟨fun dest => ?_, fun before after d args buf rest letter small fits passed => ?_, readBack,
      fun w' same => ?_⟩
    · obtain ⟨-, -, -, stores, -⟩ := itoaBase_gives (show 1 < 16 by decide) (by decide) w dest
      rw [← text]
      exact stores
    · have shown := vsprintf_hex letter small fits buf rest
      rwa [passed, text] at shown
    · by_cases low' : w'.toNat < 2 ^ 31
      · rw [text, hexText_eq low'] at same
        exact BitVec.eq_of_toNat_eq (Alphabet.spell_injective (by decide) same)
      · rw [← same, readHex_negative (Nat.not_lt.mp low')] at readBack
        cases readBack

/-- The word of 32 ones, the mark of an exception without an error code, is shown as `-1`. -/
theorem hex_ones_unshown : itoaText 0xFFFFFFFF 16 = [45, 49] ∧ ¬ HexShown 0xFFFFFFFF := by
  refine ⟨by decide, ?_⟩
  rintro ⟨-, -, readBack, -⟩
  rw [readHex_negative (by decide)] at readBack
  cases readBack

end WalOS.Text
