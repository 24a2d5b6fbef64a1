/-
**Formatted text** (`vsprintf` of `common.c`).

The format is read as long as there is memory behind it, and each read is logged; the arguments are words of
4 bytes, and a string argument is an address. `buf` is large enough. `strcpy` stores no NUL: a string of 256
characters fills `tmp`, and what stands behind `tmp` on the stack is printed with it. A longer one is stored
over what stands there, which stops the run.

* `widthLoop_gives` — the digits of a width are read.
* `Args.convert_gives`, `Args.convert_overflow` — what a letter puts in `tmp`.
* `fieldText` — a directive: an optional `0`, the digits of a width, and any character that is no digit.
* `round_end`, `round_char`, `round_percent`, `round_field_gives`, `round_field_overflow` — **a round for
  each thing that the format can go on with**.
-/

import WalOS.Lib.Traced
import WalOS.Text.Itoa

namespace WalOS.Text

open Bytes

/-! ### The code -/

/-- Why a run stops. -/
inductive Stray where
  | outside
  | overflow
  | endless
deriving DecidableEq

abbrev Scan := Traced ℕ Stray

def Scan.some {α : Type} (reason : Stray) : Option α → Scan α
  | .some a => pure a
  | .none => Traced.stop reason

/-- The arguments, the memory that they point into, and what stands behind `tmp` when it is read for an
argument. -/
structure Args where
  word : ℕ → BitVec 32
  mem : Mem
  behind : ℕ → Chars

/-- The variables of `vsprintf`. Pointers count from what they point into, `next_arg` in words. -/
structure Printing where
  buf : Mem
  p : ℕ
  fmt : ℕ
  nextArg : ℕ

def Printing.start (buf : Mem) : Printing := { buf := buf, p := 0, fmt := 0, nextArg := 0 }

/-- `*fmt`. -/
def readFmt (format : Chars) (fmt : ℕ) : Scan (BitVec 8) := do
  Traced.touch fmt
  Scan.some .outside format[fmt]?

def IsDigit (c : BitVec 8) : Prop := 48 ≤ c ∧ c ≤ 57

instance (c : BitVec 8) : Decidable (IsDigit c) := inferInstanceAs (Decidable (_ ∧ _))

/-- One round of the loop over the width: `fmt` and `align`. -/
def widthRound (format : Chars) (at_ : ℕ × BitVec 32) :
    Scan ((ℕ × BitVec 32) ⊕ (ℕ × BitVec 32 × BitVec 8)) := do
  let c ← readFmt format at_.1
  if IsDigit c then pure (.inl (at_.1 + 1, at_.2 * 10 + (c.setWidth 32 - 48)))
  else pure (.inr (at_.1, at_.2, c))

/-- `sizeof(tmp)`. -/
def tmpSize : ℕ := 256

/-- What is read behind `tmp`, up to a NUL. -/
def Args.tail (args : Args) (nextArg : ℕ) : Chars := (args.behind nextArg).takeWhile (· ≠ 0)

/-- `tmp`, cleared. -/
def Args.tmp (args : Args) (nextArg : ℕ) : Mem := storeBytes (fun _ => 0) tmpSize (args.tail nextArg)

/-- The characters that `strlen` looks at from `tmp`. -/
def Args.tmpLimit (args : Args) (nextArg : ℕ) : ℕ := tmpSize + (args.tail nextArg).length + 1

/-- The `switch`: `tmp` and `next_arg`. -/
def Args.convert (args : Args) (c : BitVec 8) (nextArg : ℕ) : Scan (Mem × ℕ) :=
  let tmp := args.tmp nextArg
  let word := args.word nextArg
  if c = 120 then do
    let tmp ← Scan.some .endless (itoaBase word tmp 16)
    pure (tmp, nextArg + 1)
  else if c = 100 then do
    let tmp ← Scan.some .endless (itoa word tmp)
    pure (tmp, nextArg + 1)
  else if c = 99 then pure (Function.update tmp 0 (word.setWidth 8), nextArg + 1)
  else if c = 115 then do
    let tmp ← Scan.some .overflow (strcpy (tmpSize + 1) tmp 0 args.mem word.toNat)
    pure (tmp, nextArg + 1)
  else pure (tmp, nextArg)

/-- The rounds of the loop that pads: an `int` counts them. -/
def padding (align length : BitVec 32) : ℕ := if length.slt align then (align - length).toNat else 0

/-- `*p++ = c`. -/
def Printing.put (s : Printing) (c : BitVec 8) : Printing :=
  { s with buf := Function.update s.buf s.p c, p := s.p + 1 }

def Printing.pad (c : BitVec 8) : ℕ → Printing → Printing
  | 0, s => s
  | rounds + 1, s => Printing.pad c rounds (s.put c)

/-- The directive behind `%` and its flag. -/
def fieldRound (format : Chars) (args : Args) (fillCh : BitVec 8) (s : Printing) : Scan Printing := do
  let (fmt, align, c) ← Traced.loop .endless (widthRound format) (format.length + 1) (s.fmt, 0)
  let (tmp, nextArg) ← args.convert c s.nextArg
  let limit := args.tmpLimit s.nextArg
  let length ← Scan.some .endless (strlen tmp limit 0)
  let s := Printing.pad fillCh (padding align (BitVec.ofNat 32 length)) s
  let buf ← Scan.some .endless (strcpy limit s.buf s.p tmp 0)
  pure { buf := buf, p := s.p + length, fmt := fmt + 1, nextArg := nextArg }

/-- One round of `vsprintf`. -/
def vsprintfRound (format : Chars) (args : Args) (s : Printing) : Scan (Printing ⊕ Printing) := do
  let c ← readFmt format s.fmt
  if c = 0 then pure (.inr s)
  else if c ≠ 37 then pure (.inl { s.put c with fmt := s.fmt + 1 })
  else do
    let s := { s with fmt := s.fmt + 1 }
    let c ← readFmt format s.fmt
    -- handle %%
    if c = 37 then pure (.inl { s.put c with fmt := s.fmt + 1 })
    else if c = 48 then do
      let s ← fieldRound format args 48 { s with fmt := s.fmt + 1 }
      pure (.inl s)
    else do
      let s ← fieldRound format args 32 s
      pure (.inl s)

/-- `vsprintf`: the variables at the end, and what it returns. -/
def vsprintf (buf : Mem) (format : Chars) (args : Args) : Scan (Printing × BitVec 32) := do
  let s ← Traced.loop .endless (vsprintfRound format args) (format.length + 1) (.start buf)
  pure ({ s with buf := Function.update s.buf s.p 0 }, BitVec.ofNat 32 s.p)

/-! ### Reading -/

variable {format rest : Chars} {args : Args} {c fillCh : BitVec 8} {s : Printing} {fmt n fuel : ℕ}
  {width : List ℕ}

theorem readFmt_gives (here : format.drop fmt = c :: rest) : (readFmt format fmt).Gives [fmt] c := by
  have there : format[fmt]? = some c := by
    rw [← List.head?_drop, here]
    rfl
  unfold readFmt
  rw [there]
  rfl

theorem drop_next (here : format.drop fmt = c :: rest) : format.drop (fmt + 1) = rest := by
  rw [← List.drop_drop, here]
  rfl

theorem isDigit_digitLetter : ∀ d < 10, IsDigit (digitLetter d) := by decide

theorem digit_value : ∀ d < 10, (digitLetter d).setWidth 32 - (48 : BitVec 32) = BitVec.ofNat 32 d := by
  decide

/-- `align` after the digits of a width. -/
def alignOf (align : BitVec 32) (width : List ℕ) : BitVec 32 :=
  width.foldl (fun align d => align * 10 + BitVec.ofNat 32 d) align

theorem alignOf_zero (width : List ℕ) :
    alignOf 0 width = BitVec.ofNat 32 (Numeral.value 10 width) := by
  induction width using List.reverseRecOn with
  | nil => rfl
  | append_singleton width d ih =>
    have more : alignOf 0 (width ++ [d]) = alignOf 0 width * 10 + BitVec.ofNat 32 d := List.foldl_append
    rw [more, ih, Numeral.value_concat, BitVec.ofNat_add, BitVec.ofNat_mul]
    rfl

/-- The loop over the width stops at a character that is no digit. -/
theorem widthLoop_gives (digits : ∀ d ∈ width, d < 10) (ends : ¬ IsDigit c)
    (here : format.drop fmt = width.map digitLetter ++ c :: rest) (enough : width.length < fuel)
    (align : BitVec 32) : (Traced.loop .endless (widthRound format) fuel (fmt, align)).Gives
      (List.range' fmt (width.length + 1)) (fmt + width.length, alignOf align width, c) := by
  obtain ⟨fuel, rfl⟩ := Nat.exists_eq_add_one_of_ne_zero (Nat.ne_zero_of_lt enough)
  induction width generalizing fmt align fuel with
  | nil =>
    have round : (widthRound format (fmt, align)).Gives [fmt] (.inr (fmt, align, c)) :=
      (readFmt_gives here).bind_nil (if_neg ends)
    exact .loop_inr round fuel
  | cons d width ih =>
    have small := digits d List.mem_cons_self
    have round : (widthRound format (fmt, align)).Gives [fmt]
        (.inl (fmt + 1, align * 10 + BitVec.ofNat 32 d)) := by
      rw [← digit_value d small]
      exact (readFmt_gives here).bind_nil (if_pos (isDigit_digitLetter d small))
    rw [List.length_cons] at enough
    obtain ⟨fuel, rfl⟩ := Nat.exists_eq_add_one_of_ne_zero (show fuel ≠ 0 by omega)
    have later := ih (fun d' member => digits d' (List.mem_cons_of_mem d member)) (drop_next here)
      (align * 10 + BitVec.ofNat 32 d) fuel (by omega)
    have place : fmt + 1 + width.length = fmt + (width.length + 1) := by omega
    rw [place] at later
    exact .loop_inl round later

/-- There are rounds for all of the width. -/
theorem width_enough (here : format.drop fmt = width.map digitLetter ++ rest) :
    width.length < format.length + 1 := by
  have length := congrArg List.length here
  rw [List.length_drop, List.length_append, List.length_map] at length
  omega

/-! ### Converting -/

/-- What is printed for a string: one that fills `tmp` goes on behind it. -/
def Args.string (args : Args) (n : ℕ) : Chars :=
  let text := charsAt args.mem (tmpSize + 1) (args.word n).toNat
  if text.length < tmpSize then text else text ++ args.tail n

/-- The text of an argument. -/
def Args.text (args : Args) (c : BitVec 8) (n : ℕ) : Chars :=
  if c = 120 then itoaText (args.word n) 16
  else if c = 100 then itoaText (args.word n) 10
  else if c = 99 then (if (args.word n).setWidth 8 = 0#8 then [] else [(args.word n).setWidth 8])
  else if c = 115 then args.string n
  else []

/-- The arguments that a letter takes. -/
def takes (c : BitVec 8) : ℕ := if c = 120 ∨ c = 100 ∨ c = 99 ∨ c = 115 then 1 else 0

/-- The characters of a string argument fit in `tmp`. -/
def Args.Fits (args : Args) (c : BitVec 8) (n : ℕ) : Prop :=
  c = 115 → (strlen args.mem (tmpSize + 1) (args.word n).toNat).isSome

/-- What a conversion leaves in `tmp`. -/
structure Converted (args : Args) (c : BitVec 8) (n : ℕ) (tmp : Mem) : Prop where
  string : StringAt tmp 0 (args.text c n)
  inside : (args.text c n).length < args.tmpLimit n
  short : c ≠ 115 → (args.text c n).length < tmpSize

theorem tmpSize_lt_tmpLimit (args : Args) (n : ℕ) : tmpSize < args.tmpLimit n :=
  Nat.lt_succ_of_le (Nat.le_add_right _ _)

/-- A text that is shorter than `tmp`. -/
theorem Converted.of_short {tmp : Mem} (string : StringAt tmp 0 (args.text c n))
    (short : (args.text c n).length < tmpSize) : Converted args c n tmp :=
  ⟨string, short.trans (tmpSize_lt_tmpLimit args n), fun _ => short⟩

theorem tmp_zero (args : Args) (n : ℕ) {i : ℕ} (inside : i < tmpSize) : args.tmp n i = 0 :=
  storeBytes_off (.inl inside)

/-- A text in `tmp`, which was cleared. -/
theorem stringAt_tmp {text : Chars} (whole : 0 ∉ text) (short : text.length < tmpSize) :
    StringAt (storeBytes (args.tmp n) 0 text) 0 text :=
  stringAt_stored whole (tmp_zero args n (by omega))

theorem tail_whole (args : Args) (n : ℕ) : 0 ∉ args.tail n := fun member =>
  absurd (List.all_eq_true.mp List.all_takeWhile 0 member) (by decide)

/-- **A text that fills `tmp`** goes on with what stands behind it. -/
theorem stringAt_full {text : Chars} (whole : 0 ∉ text) (full : text.length = tmpSize) :
    StringAt (storeBytes (args.tmp n) 0 text) 0 (text ++ args.tail n) := by
  have split : ∀ i, i < tmpSize → storeBytes (args.tmp n) 0 text i =
      storeBytes (fun _ => 0) 0 (text ++ args.tail n) i := by
    intro i inside
    have at_ : i = 0 + i := (Nat.zero_add i).symm
    rw [at_, storeBytes_at (full ▸ inside), storeBytes_chars text (args.tail n) i (full ▸ inside)]
  have behind : ∀ i, tmpSize ≤ i → storeBytes (args.tmp n) 0 text i =
      storeBytes (fun _ => 0) 0 (text ++ args.tail n) i := by
    intro i past
    rw [← storeBytes_append, Nat.zero_add, full, storeBytes_off (.inr (by omega)), Args.tmp]
    rcases Nat.lt_or_ge i (tmpSize + (args.tail n).length) with less | far
    · obtain ⟨k, rfl⟩ := Nat.exists_eq_add_of_le past
      have small : k < (args.tail n).length := by omega
      rw [storeBytes_at small, storeBytes_at small]
    · rw [storeBytes_off (.inr far), storeBytes_off (.inr far), storeBytes_off (.inr (by omega))]
  have same : storeBytes (args.tmp n) 0 text = storeBytes (fun _ => 0) 0 (text ++ args.tail n) :=
    funext fun i => (Nat.lt_or_ge i tmpSize).elim (split i) (behind i)
  rw [same]
  exact stringAt_zeroed fun member => (List.mem_append.mp member).elim whole (tail_whole args n)

theorem converted_itoa {radix : ℕ} (two : 1 < radix) (most : radix ≤ 36) (value : BitVec 32) (dest : Mem) :
    ∃ tmp, itoaBase value dest (BitVec.ofNat 32 radix) = some tmp ∧
      StringAt tmp 0 (itoaText value (BitVec.ofNat 32 radix)) ∧
      (itoaText value (BitVec.ofNat 32 radix)).length < tmpSize := by
  obtain ⟨-, -, -, stores, whole, short⟩ := itoaBase_gives two most value dest
  exact ⟨_, stores, stringAt_storeBytes whole, short.trans (by decide)⟩

/-- A letter has its argument's text put in `tmp`. -/
def Args.Converts (args : Args) (c : BitVec 8) (n : ℕ) : Prop :=
  ∃ tmp, (args.convert c n).Gives [] (tmp, n + takes c) ∧ Converted args c n tmp

theorem Args.converts_hex (args : Args) (n : ℕ) : args.Converts 120 n := by
  obtain ⟨tmp, stores, string, short⟩ :=
    converted_itoa (show 1 < 16 by decide) (by decide) (args.word n) (args.tmp n)
  have stores : itoaBase (args.word n) (args.tmp n) 16 = some tmp := stores
  refine ⟨tmp, ?_, .of_short string short⟩
  unfold Args.convert
  rw [if_pos rfl, stores]
  rfl

theorem Args.converts_decimal (args : Args) (n : ℕ) : args.Converts 100 n := by
  obtain ⟨tmp, stores, string, short⟩ :=
    converted_itoa (show 1 < 10 by decide) (by decide) (args.word n) (args.tmp n)
  have stores : itoa (args.word n) (args.tmp n) = some tmp := stores
  refine ⟨tmp, ?_, .of_short string short⟩
  unfold Args.convert
  rw [if_neg (by decide), if_pos rfl, stores]
  rfl

theorem Args.converts_char (args : Args) (n : ℕ) : args.Converts 99 n := by
  refine ⟨Function.update (args.tmp n) 0 ((args.word n).setWidth 8), rfl, ?_⟩
  have text : args.text 99 n =
      if (args.word n).setWidth 8 = 0#8 then [] else [(args.word n).setWidth 8] := by
    rw [Args.text, if_neg (by decide), if_neg (by decide), if_pos rfl]
  by_cases nul : (args.word n).setWidth 8 = 0#8
  · rw [if_pos nul] at text
    rw [nul]
    refine .of_short ?_ ?_ <;> rw [text]
    · exact .nil (Function.update_self _ _ _)
    · decide
  · rw [if_neg nul] at text
    refine .of_short ?_ ?_ <;> rw [text]
    · exact stringAt_tmp (fun member => nul (List.mem_singleton.mp member).symm)
        (show 1 < tmpSize by decide)
    · exact (show 1 < tmpSize by decide)

theorem Args.text_string {text : Chars} (there : StringAt args.mem (args.word n).toNat text)
    (fits : text.length ≤ tmpSize) :
    args.text 115 n = if text.length < tmpSize then text else text ++ args.tail n := by
  rw [Args.text, if_neg (by decide), if_neg (by decide), if_neg (by decide), if_pos rfl, Args.string,
    charsAt_eq there (Nat.lt_succ_of_le fits)]

theorem Args.converts_string (fits : args.Fits 115 n) : args.Converts 115 n := by
  obtain ⟨length, counted⟩ := Option.isSome_iff_exists.mp (fits rfl)
  obtain ⟨most, text, rfl, there⟩ := exists_stringAt counted
  refine ⟨storeBytes (args.tmp n) 0 text, ?_, ?_⟩
  · unfold Args.convert
    rw [if_neg (by decide), if_neg (by decide), if_neg (by decide), if_pos rfl, strcpy_eq there most]
    rfl
  have same := Args.text_string there (Nat.le_of_lt_succ most)
  by_cases short : text.length < tmpSize
  · rw [if_pos short] at same
    refine .of_short ?_ ?_ <;> rw [same]
    · exact stringAt_tmp there.whole short
    · exact short
  · have full : text.length = tmpSize := by omega
    rw [if_neg short] at same
    refine ⟨?_, ?_, fun other => absurd rfl other⟩ <;> rw [same]
    · exact stringAt_full there.whole full
    · rw [List.length_append, full]
      exact Nat.lt_succ_self _

theorem Args.converts_other (args : Args) (n : ℕ) (hex : c ≠ 120) (decimal : c ≠ 100) (char : c ≠ 99)
    (string : c ≠ 115) : args.Converts c n := by
  refine ⟨args.tmp n, ?_, ?_⟩
  · unfold Args.convert takes
    rw [if_neg hex, if_neg decimal, if_neg char, if_neg string,
      if_neg (not_or.mpr ⟨hex, not_or.mpr ⟨decimal, not_or.mpr ⟨char, string⟩⟩⟩)]
    rfl
  · have none : args.text c n = [] := by
      rw [Args.text, if_neg hex, if_neg decimal, if_neg char, if_neg string]
    refine .of_short ?_ ?_ <;> rw [none]
    · exact .nil (tmp_zero args n (by decide))
    · decide

/-- **Every letter** has its text put in `tmp`. -/
theorem Args.convert_gives (fits : args.Fits c n) : args.Converts c n := by
  by_cases hex : c = 120
  · exact hex ▸ args.converts_hex n
  by_cases decimal : c = 100
  · exact decimal ▸ args.converts_decimal n
  by_cases char : c = 99
  · exact char ▸ args.converts_char n
  by_cases string : c = 115
  · subst string
    exact Args.converts_string fits
  · exact args.converts_other n hex decimal char string

/-- Only a string is as long as `tmp` or longer. -/
theorem Args.text_short (args : Args) (n : ℕ) (other : c ≠ 115) : (args.text c n).length < tmpSize := by
  obtain ⟨tmp, -, converted⟩ := args.convert_gives (c := c) (n := n) fun string => absurd string other
  exact converted.short other

/-- A string that does not fit in `tmp` stops the run. -/
theorem Args.convert_overflow (long : ¬ args.Fits c n) :
    (args.convert c n).outcome = .error .overflow := by
  obtain ⟨rfl, none⟩ := Classical.not_imp.mp long
  have none := Option.not_isSome_iff_eq_none.mp none
  unfold Args.convert
  dsimp only
  rw [if_neg (by decide), if_neg (by decide), if_neg (by decide), if_pos rfl, strcpy, none]
  rfl

/-! ### Printing -/

/-- The variables after `out` for `length` characters of the format and `taken` arguments. -/
def Printing.after (s : Printing) (out : Chars) (length taken : ℕ) : Printing :=
  { buf := storeBytes s.buf s.p out, p := s.p + out.length, fmt := s.fmt + length
    nextArg := s.nextArg + taken }

theorem Printing.after_after (s : Printing) (out out' : Chars) (length length' taken taken' : ℕ) :
    (s.after out length taken).after out' length' taken' =
      s.after (out ++ out') (length + length') (taken + taken') := by
  unfold Printing.after
  rw [storeBytes_append, List.length_append, Nat.add_assoc, Nat.add_assoc, Nat.add_assoc]

theorem Printing.pad_eq (c : BitVec 8) (rounds : ℕ) (s : Printing) :
    Printing.pad c rounds s = s.after (List.replicate rounds c) 0 0 := by
  induction rounds generalizing s with
  | zero => rfl
  | succ rounds ih =>
    have first : s.put c = s.after [c] 0 0 := rfl
    rw [Printing.pad, ih, first, Printing.after_after]
    rfl

/-- What a directive prints: its argument's text, padded. -/
def Args.field (args : Args) (fillCh : BitVec 8) (width : List ℕ) (c : BitVec 8) (n : ℕ) : Chars :=
  List.replicate (padding (alignOf 0 width) (BitVec.ofNat 32 (args.text c n).length)) fillCh ++
    args.text c n

/-- **The directive behind `%` and its flag.** -/
theorem fieldRound_gives (digits : ∀ d ∈ width, d < 10) (ends : ¬ IsDigit c)
    (here : format.drop s.fmt = width.map digitLetter ++ c :: rest) (fits : args.Fits c s.nextArg) :
    (fieldRound format args fillCh s).Gives (List.range' s.fmt (width.length + 1))
      (s.after (args.field fillCh width c s.nextArg) (width.length + 1) (takes c)) := by
  obtain ⟨tmp, converts, string, inside, -⟩ := args.convert_gives fits
  have reads := widthLoop_gives digits ends here (width_enough here) 0
  have counted : (Scan.some .endless (strlen tmp (args.tmpLimit s.nextArg) 0)).Gives []
      (args.text c s.nextArg).length := by
    rw [strlen_eq string inside]
    exact .pure _
  have copied : ∀ buf p, (Scan.some .endless (strcpy (args.tmpLimit s.nextArg) buf p tmp 0)).Gives []
      (storeBytes buf p (args.text c s.nextArg)) := by
    intro buf p
    rw [strcpy_eq string inside]
    exact .pure _
  let padded := List.replicate (padding (alignOf 0 width)
    (BitVec.ofNat 32 (args.text c s.nextArg).length)) fillCh
  have whole := s.after_after padded (args.text c s.nextArg) 0 (width.length + 1) 0 (takes c)
  rw [Nat.zero_add, Nat.zero_add] at whole
  unfold fieldRound
  refine reads.bind_nil (converts.bind_nil (counted.bind_nil ?_))
  rw [Printing.pad_eq]
  refine (copied _ _).bind_nil (Eq.trans ?_ (congrArg (Traced.mk [] ∘ Except.ok) whole))
  rfl

theorem fieldRound_overflow (digits : ∀ d ∈ width, d < 10) (ends : ¬ IsDigit c)
    (here : format.drop s.fmt = width.map digitLetter ++ c :: rest) (long : ¬ args.Fits c s.nextArg) :
    (fieldRound format args fillCh s).outcome = .error .overflow := by
  have reads := widthLoop_gives digits ends here (width_enough here) 0
  unfold fieldRound
  rw [reads.outcome_bind, Traced.outcome_bind, args.convert_overflow long]
  rfl

/-! ### The rounds -/

/-- **The end of the format.** -/
theorem round_end (here : format.drop s.fmt = 0 :: rest) :
    (vsprintfRound format args s).Gives [s.fmt] (.inr s) :=
  (readFmt_gives here).bind_nil (if_pos rfl)

/-- **A character.** -/
theorem round_char (some : c ≠ 0) (literal : c ≠ 37) (here : format.drop s.fmt = c :: rest) :
    (vsprintfRound format args s).Gives [s.fmt] (.inl (s.after [c] 1 0)) :=
  (readFmt_gives here).bind_nil ((if_neg some).trans (if_pos literal))

/-- **Two percent signs.** -/
theorem round_percent (here : format.drop s.fmt = 37 :: 37 :: rest) :
    (vsprintfRound format args s).Gives [s.fmt, s.fmt + 1] (.inl (s.after [37] 2 0)) := by
  have second := readFmt_gives (drop_next here)
  have first := readFmt_gives here
  exact first.bind (second.bind_nil (if_pos rfl))

/-- The flag of a directive, and what fills it. -/
def flag (zero : Bool) : Chars := if zero then [48] else []
def fillOf (zero : Bool) : BitVec 8 := if zero then 48 else 32

/-- A width without the flag does not begin with the flag, and a directive is not two percent signs. -/
def Apart (zero : Bool) (width : List ℕ) (c : BitVec 8) : Prop :=
  zero = false → width.head? ≠ some 0 ∧ (width = [] → c ≠ 37)

/-- A directive. -/
def fieldText (zero : Bool) (width : List ℕ) (c : BitVec 8) : Chars :=
  37 :: (flag zero ++ (width.map digitLetter ++ [c]))

theorem fieldText_length (zero : Bool) (width : List ℕ) (c : BitVec 8) :
    (fieldText zero width c).length = 1 + (flag zero).length + (width.length + 1) := by
  rw [fieldText, List.length_cons, List.length_append, List.length_append, List.length_map]
  exact Nat.add_comm _ 1 |>.trans (Nat.add_assoc 1 _ _).symm

/-- The variables behind `%` and its flag. -/
def Printing.behind (s : Printing) (zero : Bool) : Printing :=
  { s with fmt := s.fmt + 1 + (flag zero).length }

/-- Behind `%` and the flag there is the width. -/
theorem drop_field {zero : Bool} (here : format.drop s.fmt = fieldText zero width c ++ rest) :
    format.drop (s.behind zero).fmt = width.map digitLetter ++ c :: rest := by
  have next : format.drop (s.fmt + 1) = flag zero ++ (width.map digitLetter ++ [c]) ++ rest :=
    drop_next here
  rw [Printing.behind, ← List.drop_drop, next, List.append_assoc, List.drop_left, List.append_assoc]
  rfl

theorem digitLetter_other : ∀ d < 10, d ≠ 0 → digitLetter d ≠ 37 ∧ digitLetter d ≠ 48 := by decide

/-- Without the flag `%` is followed by neither `%` nor `0`. -/
theorem apart_head (digits : ∀ d ∈ width, d < 10) (ends : ¬ IsDigit c) (apart : Apart false width c) :
    ∃ x behind, width.map digitLetter ++ [c] = x :: behind ∧ x ≠ 37 ∧ x ≠ 48 := by
  obtain ⟨nonzero, percent⟩ := apart rfl
  cases width with
  | nil =>
    refine ⟨c, [], rfl, percent rfl, ?_⟩
    rintro rfl
    exact ends (by decide)
  | cons d width =>
    have some : d ≠ 0 := fun zero => nonzero (congrArg _ zero)
    exact ⟨digitLetter d, _, rfl, digitLetter_other d (digits d List.mem_cons_self) some⟩

/-- The two reads of a directive, before its width. -/
theorem round_field {zero : Bool} (digits : ∀ d ∈ width, d < 10) (ends : ¬ IsDigit c)
    (apart : Apart zero width c) (here : format.drop s.fmt = fieldText zero width c ++ rest)
    {x : Scan (Printing ⊕ Printing)} (goes : x = do
      let s ← fieldRound format args (fillOf zero) (s.behind zero)
      pure (.inl s)) :
    vsprintfRound format args s = ⟨[s.fmt] ++ ([s.fmt + 1] ++ x.accesses), x.outcome⟩ := by
  have percent := readFmt_gives (show format.drop s.fmt = 37 :: _ from here)
  have next : format.drop (s.fmt + 1) = flag zero ++ (width.map digitLetter ++ [c]) ++ rest :=
    drop_next here
  subst goes
  unfold vsprintfRound
  rw [percent.bind_eq, if_neg (by decide), if_neg (not_not.mpr rfl)]
  cases zero with
  | true =>
    have zero := readFmt_gives (show format.drop (s.fmt + 1) = 48 :: _ from next)
    rw [zero.bind_eq, if_neg (by decide), if_pos rfl]
    rfl
  | false =>
    obtain ⟨x, behind, first, notPercent, notZero⟩ := apart_head digits ends apart
    have next' : format.drop (s.fmt + 1) = x :: (behind ++ rest) := by
      rw [next, flag, if_neg Bool.false_ne_true, List.nil_append, first]
      rfl
    rw [(readFmt_gives next').bind_eq, if_neg notPercent, if_neg notZero]
    rfl

/-- **A directive.** -/
theorem round_field_gives {zero : Bool} (digits : ∀ d ∈ width, d < 10) (ends : ¬ IsDigit c)
    (apart : Apart zero width c) (here : format.drop s.fmt = fieldText zero width c ++ rest)
    (fits : args.Fits c s.nextArg) : ∃ log, (vsprintfRound format args s).Gives log
      (.inl (s.after (args.field (fillOf zero) width c s.nextArg) (fieldText zero width c).length
        (takes c))) ∧ ∀ i ∈ log, i < s.fmt + (fieldText zero width c).length := by
  have field : (fieldRound format args (fillOf zero) (s.behind zero)).Gives _ _ :=
    fieldRound_gives digits ends (drop_field here) fits
  have goes : (fieldRound format args (fillOf zero) (s.behind zero) >>= fun s => pure (.inl s) :
      Scan (Printing ⊕ Printing)).Gives _ (.inl _) := field.bind_nil rfl
  refine ⟨[s.fmt] ++ ([s.fmt + 1] ++ List.range' (s.fmt + 1 + (flag zero).length) (width.length + 1)),
    ?_, fun i member => ?_⟩
  · have length : (s.behind zero).fmt + (width.length + 1) = s.fmt + (fieldText zero width c).length := by
      rw [fieldText_length]
      show s.fmt + 1 + (flag zero).length + _ = _
      omega
    rw [Traced.Gives, round_field digits ends apart here rfl, goes.accesses, goes.outcome, Printing.after,
      Printing.after, length]
    rfl
  · rw [fieldText_length]
    rcases List.mem_append.mp member with first | member
    · rw [List.mem_singleton.mp first]
      omega
    rcases List.mem_append.mp member with second | later
    · rw [List.mem_singleton.mp second]
      omega
    · have inside := (List.mem_range'_1.mp later).2
      omega

/-- A directive whose string is too long. -/
theorem round_field_overflow {zero : Bool} (digits : ∀ d ∈ width, d < 10) (ends : ¬ IsDigit c)
    (apart : Apart zero width c) (here : format.drop s.fmt = fieldText zero width c ++ rest)
    (long : ¬ args.Fits c s.nextArg) :
    (vsprintfRound format args s).outcome = .error .overflow := by
  have stops : (fieldRound format args (fillOf zero) (s.behind zero)).outcome = .error .overflow :=
    fieldRound_overflow digits ends (drop_field here) long
  rw [round_field digits ends apart here rfl]
  show (fieldRound format args (fillOf zero) _ >>= _).outcome = _
  rw [Traced.outcome_bind, stops]
  rfl

end WalOS.Text
