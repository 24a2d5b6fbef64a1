/-
**Segment descriptors** (`core.c`, and the macro `Descriptor` of `pm.s`).

* `bytes_initDescriptor`, `descriptorMacro_eq` — the bytes of the two encoders: they differ in the high
  nibble of the limit, which `init_descriptor` masks away.
* `base_initDescriptor`, `limit_initDescriptor`, `attr_initDescriptor` — what the CPU and the kernel
  read back.
* `descriptor_iff` — **the encoders agree, and decoding gives the arguments back, exactly when the limit
  has 16 bits**.
-/

import Mathlib.Tactic.IntervalCases
import WalOS.Lib.Bytes

namespace WalOS

/-! ### The encoders -/

/-- `DESCRIPTOR`. -/
structure Descriptor where
  limitLow : BitVec 16
  baseLow : BitVec 16
  baseMid : BitVec 8
  attr1 : BitVec 8
  limitHighAttr2 : BitVec 8
  baseHigh : BitVec 8
deriving DecidableEq

/-- `init_descriptor`. -/
def initDescriptor (base limit : BitVec 32) (attr : BitVec 16) : Descriptor where
  limitLow := (limit &&& 0x0FFFF).setWidth 16
  baseLow := (base &&& 0x0FFFF).setWidth 16
  baseMid := ((base >>> 16) &&& 0x0FF).setWidth 8
  attr1 := (attr &&& 0xFF).setWidth 8
  limitHighAttr2 := ((((limit >>> 16) &&& 0x0F) ||| (attr.setWidth 32 >>> 8)) &&& 0xF0).setWidth 8
  baseHigh := ((base >>> 24) &&& 0x0FF).setWidth 8

/-- The bytes of a `.2byte`. -/
def twoBytes (value : BitVec 32) : List (BitVec 8) := [value.extractLsb' 0 8, value.extractLsb' 8 8]

/-- A descriptor in memory. -/
def Descriptor.bytes (d : Descriptor) : List (BitVec 8) :=
  twoBytes (d.limitLow.setWidth 32) ++ twoBytes (d.baseLow.setWidth 32) ++
    [d.baseMid, d.attr1, d.limitHighAttr2, d.baseHigh]

/-- What the macro `Descriptor` emits. -/
def descriptorMacro (base limit : BitVec 32) (attr : BitVec 16) : List (BitVec 8) :=
  twoBytes (limit &&& 0xffff) ++ twoBytes (base &&& 0xffff) ++ [((base >>> 16) &&& 0xff).setWidth 8] ++
    twoBytes (((limit >>> 8) &&& 0xf00) ||| (attr.setWidth 32 &&& 0xf0ff)) ++
    [((base >>> 24) &&& 0xff).setWidth 8]

/-! ### The decoders -/

/-- `seg2phys`. -/
def seg2phys (gdt : ℕ → Descriptor) (seg : BitVec 16) : BitVec 32 :=
  let dest := gdt (seg >>> 3).toNat
  (dest.baseHigh.setWidth 32 <<< 24) ||| (dest.baseMid.setWidth 32 <<< 16) ||| dest.baseLow.setWidth 32

/-- `ldt_linear_addr`, on the descriptors of a process. -/
def ldtLinearAddr (ldt : ℕ → Descriptor) (index : ℕ) : BitVec 32 :=
  ((ldt index).baseHigh.setWidth 32 <<< 24) ||| ((ldt index).baseMid.setWidth 32 <<< 16) |||
    (ldt index).baseLow.setWidth 32

/-- The limit that the CPU reads. -/
def Descriptor.limit (d : Descriptor) : BitVec 32 :=
  ((d.limitHighAttr2 &&& 0x0F).setWidth 32 <<< 16) ||| d.limitLow.setWidth 32

/-- The attributes that the CPU reads. -/
def Descriptor.attr (d : Descriptor) : BitVec 16 :=
  ((d.limitHighAttr2 &&& 0xF0).setWidth 16 <<< 8) ||| d.attr1.setWidth 16

/-! ### Fields -/

variable (base limit : BitVec 32) (attr : BitVec 16)

theorem low_half (value : BitVec 32) : (value &&& 0x0FFFF).setWidth 16 = value.extractLsb' 0 16 := by
  have mask : (0x0FFFF : BitVec 32).setWidth 16 = BitVec.allOnes 16 := by decide
  rw [BitVec.setWidth_and, mask, BitVec.and_allOnes]
  exact BitVec.setWidth_eq_extractLsb' (by decide)

theorem low_byte : (attr &&& 0xFF).setWidth 8 = attr.extractLsb' 0 8 := by
  have mask : (0xFF : BitVec 16).setWidth 8 = BitVec.allOnes 8 := by decide
  rw [BitVec.setWidth_and, mask, BitVec.and_allOnes]
  exact BitVec.setWidth_eq_extractLsb' (by decide)

/-- **The shared byte of `init_descriptor`** has nothing of the limit. -/
theorem initDescriptor_shared :
    (initDescriptor base limit attr).limitHighAttr2 = attr.extractLsb' 12 4 ++ 0#4 := by
  unfold initDescriptor
  refine BitVec.eq_of_getLsbD_eq fun i inside => ?_
  rw [BitVec.getLsbD_append]
  interval_cases i <;> simp

/-- **The shared byte of the macro** has the high nibble of the limit. -/
theorem macro_shared : (((limit >>> 8) &&& 0xf00) ||| (attr.setWidth 32 &&& 0xf0ff)).extractLsb' 8 8 =
    attr.extractLsb' 12 4 ++ limit.extractLsb' 16 4 := by
  refine BitVec.eq_of_getLsbD_eq fun i inside => ?_
  rw [BitVec.getLsbD_append]
  interval_cases i <;> simp

theorem macro_attr1 : (((limit >>> 8) &&& 0xf00) ||| (attr.setWidth 32 &&& 0xf0ff)).extractLsb' 0 8 =
    attr.extractLsb' 0 8 := by
  refine BitVec.eq_of_getLsbD_eq fun i inside => ?_
  interval_cases i <;> simp

/-- Words with the same low half have the same two bytes. -/
theorem twoBytes_congr {value value' : BitVec 32}
    (same : ∀ i < 16, value.getLsbD i = value'.getLsbD i) : twoBytes value = twoBytes value' := by
  have byte : ∀ place ≤ 8, value.extractLsb' place 8 = value'.extractLsb' place 8 := by
    intro place low
    refine BitVec.eq_of_getLsbD_eq fun i inside => ?_
    rw [BitVec.getLsbD_extractLsb', BitVec.getLsbD_extractLsb', same _ (by omega)]
  unfold twoBytes
  rw [byte 0 (by decide), byte 8 (by decide)]

theorem twoBytes_masked (value : BitVec 32) : twoBytes (value &&& 0xffff) = twoBytes value := by
  refine twoBytes_congr fun i inside => ?_
  interval_cases i <;> simp

theorem twoBytes_half (value : BitVec 32) :
    twoBytes ((value.extractLsb' 0 16).setWidth 32) = twoBytes value := by
  refine twoBytes_congr fun i inside => ?_
  rw [BitVec.getLsbD_setWidth, BitVec.getLsbD_extractLsb', decide_eq_true inside,
    decide_eq_true (Nat.lt_trans inside (by decide)), Bool.true_and, Bool.true_and, Nat.zero_add]

/-- **The bytes of the two encoders.** -/
theorem bytes_initDescriptor : (initDescriptor base limit attr).bytes =
    twoBytes limit ++ twoBytes base ++ [base.extractLsb' 16 8, attr.extractLsb' 0 8,
      attr.extractLsb' 12 4 ++ 0#4, base.extractLsb' 24 8] := by
  rw [Descriptor.bytes, initDescriptor_shared]
  unfold initDescriptor
  dsimp only
  rw [low_half, low_half, low_byte, Bytes.shifted_byte, Bytes.shifted_byte, twoBytes_half, twoBytes_half]

theorem descriptorMacro_eq : descriptorMacro base limit attr =
    twoBytes limit ++ twoBytes base ++ [base.extractLsb' 16 8, attr.extractLsb' 0 8,
      attr.extractLsb' 12 4 ++ limit.extractLsb' 16 4, base.extractLsb' 24 8] := by
  rw [descriptorMacro, twoBytes_masked, twoBytes_masked, Bytes.shifted_byte, Bytes.shifted_byte]
  have both : twoBytes (((limit >>> 8) &&& 0xf00) ||| (attr.setWidth 32 &&& 0xf0ff)) =
      [attr.extractLsb' 0 8, attr.extractLsb' 12 4 ++ limit.extractLsb' 16 4] := by
    rw [twoBytes, macro_attr1, macro_shared]
  rw [both, List.append_assoc, List.append_assoc, List.append_assoc]
  rfl

/-! ### What is read back -/

/-- The address is put together from its fields. -/
theorem base_fields (high mid : BitVec 8) (low : BitVec 16) :
    (high.setWidth 32 <<< 24) ||| (mid.setWidth 32 <<< 16) ||| low.setWidth 32 = high ++ mid ++ low := by
  have joined : (high ++ mid ++ low).setWidth 32 =
      (high.setWidth 32 <<< 24) ||| (mid.setWidth 32 <<< 16) ||| low.setWidth 32 :=
    BitVec.setWidth_append_append_eq_shiftLeft_setWidth_or
  rw [← joined, BitVec.setWidth_eq]

/-- **The base reads back.** -/
theorem base_initDescriptor :
    ((initDescriptor base limit attr).baseHigh.setWidth 32 <<< 24) |||
      ((initDescriptor base limit attr).baseMid.setWidth 32 <<< 16) |||
      (initDescriptor base limit attr).baseLow.setWidth 32 = base := by
  have upper : base.extractLsb' 24 8 ++ base.extractLsb' 16 8 = base.extractLsb' 16 16 :=
    BitVec.extractLsb'_append_extractLsb'_eq_extractLsb' rfl
  have whole : base.extractLsb' 16 16 ++ base.extractLsb' 0 16 = base.extractLsb' 0 32 :=
    BitVec.extractLsb'_append_extractLsb'_eq_extractLsb' rfl
  unfold initDescriptor
  dsimp only
  rw [base_fields, low_half, Bytes.shifted_byte, Bytes.shifted_byte, upper, whole]
  exact BitVec.extractLsb'_eq_self

theorem seg2phys_eq {gdt : ℕ → Descriptor} {seg : BitVec 16}
    (here : gdt (seg >>> 3).toNat = initDescriptor base limit attr) : seg2phys gdt seg = base := by
  rw [seg2phys, here]
  exact base_initDescriptor base limit attr

theorem ldtLinearAddr_eq {ldt : ℕ → Descriptor} {index : ℕ}
    (here : ldt index = initDescriptor base limit attr) : ldtLinearAddr ldt index = base := by
  rw [ldtLinearAddr, here]
  exact base_initDescriptor base limit attr

/-- **The limit reads back as its low half.** -/
theorem limit_initDescriptor : (initDescriptor base limit attr).limit =
    (limit.extractLsb' 0 16).setWidth 32 := by
  have low : (attr.extractLsb' 12 4 ++ 0#4 : BitVec 8) &&& 0x0F = 0#8 := by
    refine BitVec.eq_of_getLsbD_eq fun i inside => ?_
    rw [BitVec.getLsbD_and, BitVec.getLsbD_append]
    interval_cases i <;> simp
  rw [Descriptor.limit, initDescriptor_shared]
  unfold initDescriptor
  dsimp only
  rw [low, low_half]
  simp

theorem attr_initDescriptor : (initDescriptor base limit attr).attr =
    attr.extractLsb' 12 4 ++ 0#4 ++ attr.extractLsb' 0 8 := by
  have high : (attr.extractLsb' 12 4 ++ 0#4 : BitVec 8) &&& 0xF0 = attr.extractLsb' 12 4 ++ 0#4 := by
    refine BitVec.eq_of_getLsbD_eq fun i inside => ?_
    rw [BitVec.getLsbD_and, BitVec.getLsbD_append]
    interval_cases i <;> simp
  have join : ∀ a b : BitVec 8, (a.setWidth 16 <<< 8) ||| b.setWidth 16 = a ++ b := by
    intro a b
    rw [← BitVec.setWidth_append_eq_shiftLeft_setWidth_or, BitVec.setWidth_eq]
  rw [Descriptor.attr, initDescriptor_shared, high]
  unfold initDescriptor
  dsimp only
  rw [low_byte, join]

/-! ### Agreement -/

/-- **The encoders agree and can be decoded**: `init_descriptor` writes what the macro emits, and the
CPU and the kernel read the arguments back. -/
structure EncodersAgree (base limit : BitVec 32) (attr : BitVec 16) : Prop where
  sameBytes : (initDescriptor base limit attr).bytes = descriptorMacro base limit attr
  gdtBase : ∀ (gdt : ℕ → Descriptor) (seg : BitVec 16),
    gdt (seg >>> 3).toNat = initDescriptor base limit attr → seg2phys gdt seg = base
  ldtBase : ∀ (ldt : ℕ → Descriptor) (index : ℕ),
    ldt index = initDescriptor base limit attr → ldtLinearAddr ldt index = base
  readLimit : (initDescriptor base limit attr).limit = limit
  readAttr : (initDescriptor base limit attr).attr = attr

/-- Attributes with bits 8 to 11 clear. -/
theorem attr_fields {attr : BitVec 16} (clear : attr &&& 0x0F00 = 0) :
    attr.extractLsb' 12 4 ++ 0#4 ++ attr.extractLsb' 0 8 = attr := by
  have middle : attr.extractLsb' 8 4 = 0#4 := by
    have masked := congrArg (BitVec.extractLsb' 8 4) clear
    have mask : (0x0F00 : BitVec 16).extractLsb' 8 4 = BitVec.allOnes 4 := by decide
    rw [BitVec.extractLsb'_and, mask, BitVec.and_allOnes] at masked
    exact masked
  have upper : attr.extractLsb' 12 4 ++ attr.extractLsb' 8 4 = attr.extractLsb' 8 8 :=
    BitVec.extractLsb'_append_extractLsb'_eq_extractLsb' rfl
  have whole : attr.extractLsb' 8 8 ++ attr.extractLsb' 0 8 = attr.extractLsb' 0 16 :=
    BitVec.extractLsb'_append_extractLsb'_eq_extractLsb' rfl
  rw [← middle, upper, whole]
  exact BitVec.extractLsb'_eq_self

/-- A limit of 16 bits. -/
theorem limit_fields {limit : BitVec 32} :
    (limit.extractLsb' 0 16).setWidth 32 = limit ↔ limit.toNat < 2 ^ 16 := by
  rw [BitVec.toNat_eq, BitVec.toNat_setWidth, BitVec.extractLsb'_toNat]
  omega

/-- **The two encoders agree and can be decoded if and only if the limit has 16 bits**, for every base,
every limit of 20 bits and all attributes with bits 8 to 11 clear. -/
theorem descriptor_iff (base limit : BitVec 32) (attr : BitVec 16) (clear : attr &&& 0x0F00 = 0) :
    EncodersAgree base limit attr ↔ limit.toNat < 2 ^ 16 := by
  constructor
  · intro agree
    exact limit_fields.mp ((limit_initDescriptor base limit attr).symm.trans agree.readLimit)
  · intro small
    have none : limit.extractLsb' 16 4 = 0#4 := by
      refine BitVec.eq_of_toNat_eq ?_
      rw [BitVec.extractLsb'_toNat, Nat.shiftRight_eq_div_pow, Nat.div_eq_of_lt small]
      rfl
    refine ⟨?_, fun _ _ here => seg2phys_eq base limit attr here,
      fun _ _ here => ldtLinearAddr_eq base limit attr here, ?_, ?_⟩
    · rw [bytes_initDescriptor, descriptorMacro_eq, none]
    · rw [limit_initDescriptor]
      exact limit_fields.mpr small
    · rw [attr_initDescriptor]
      exact attr_fields clear

/-- The LDT of a process. -/
theorem descriptor_iff_ldt : EncodersAgree 0x32000 15 0x82 :=
  (descriptor_iff 0x32000 15 0x82 (by decide)).mpr (by decide)

/-- **The flat segment of the loader** loses the top of its limit. -/
theorem flat_segment_lost : ¬ EncodersAgree 0 0xfffff 0xc09a := by
  intro agree
  exact absurd agree.readLimit (by decide)

end WalOS
