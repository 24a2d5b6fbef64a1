/-
**The tables that boot builds** (`_start`, `init_pm_env` of `core.c`, `init_hw_exception_idt`,
`init_hw_interrupt_idt` and `init_sw_interrupt_idt`).

The kernel copies the GDT of the loader, fills the IDT with interrupt gates, and adds a descriptor of
the TSS and of the LDT of each process. It clears neither table first: the other entries keep what
memory held.

* `initIdtDesc`, `initLdtDescs`, `initTss`, `initPmEnv` — the code, on byte memory. What it prints and
  what it programs in the 8259A are left out.
* `Placed`, `LoaderTable` — where the objects and the GDT of the loader lie.
* `foldl_off`, `foldl_at` — stores to slots that lie apart.
* `startKernel_copied`, `startKernel_ldt`, `startKernel_tss`, `startKernel_exception`, … — every entry
  after `_start`.
-/

import WalOS.Boot.ProcTable
import WalOS.Kernel.Descriptor
import WalOS.Lib.Privilege

namespace WalOS

open Bytes Privilege

/-! ### The code -/

/-- `GDT_SIZE`, `IDT_SIZE`, and the sizes of a descriptor or gate and of the TSS. -/
def gdtSize : ℕ := 128
def idtSize : ℕ := 256
def descriptorSize : ℕ := 8
def tssSize : ℕ := 108

/-- `INDEX_TSS` and `INDEX_LDT_FIRST`. -/
def indexTss : ℕ := 4
def indexLdtFirst : ℕ := 5

/-- `DA_LDT`, `DA_386TSS`, `DA_386IGate`, and the privileges. -/
def daLdt : BitVec 16 := 0x82
def da386Tss : BitVec 16 := 0x89
def da386IGate : BitVec 8 := 0x8e
def priKrnl : BitVec 8 := 0
def priUser : BitVec 8 := 3

/-- `INT_VECTOR_IRQ0`, behind which `INT_VECTOR_IRQ8` is the eighth, and `INT_VECTOR_SYS_CALL`. -/
def vectorIrq0 : ℕ := 0x20
def vectorSysCall : ℕ := 0x90

/-- **The addresses of the tables and of the code that the gates lead to.** -/
structure PmSymbols extends Symbols where
  idt : ℕ
  tss : ℕ
  gdtPtr : ℕ
  idtPtr : ℕ
  exception : Fin 20 → BitVec 32
  hwInt : Fin 16 → BitVec 32
  sysCall : BitVec 32
  dummyIrqHandler : BitVec 32

/-- The objects that boot writes. -/
inductive PmObject where
  | gdt | idt | tss | gdtPtr | idtPtr | procTable | processReady | intReenter | ticks | irqTable
deriving DecidableEq

def PmObject.size : PmObject → ℕ
  | .gdt => gdtSize * descriptorSize
  | .idt => idtSize * descriptorSize
  | .tss => tssSize
  | .gdtPtr => 6
  | .idtPtr => 6
  | .procTable => procTableSize
  | .processReady => 4
  | .intReenter => 4
  | .ticks => 4
  | .irqTable => 64

def PmSymbols.start (sym : PmSymbols) : PmObject → ℕ
  | .gdt => sym.gdt
  | .idt => sym.idt
  | .tss => sym.tss
  | .gdtPtr => sym.gdtPtr
  | .idtPtr => sym.idtPtr
  | .procTable => sym.procTable
  | .processReady => sym.processReady
  | .intReenter => sym.intReenter
  | .ticks => sym.ticks
  | .irqTable => sym.irqTable

/-- An address is in an object, or off it. -/
def PmSymbols.On (sym : PmSymbols) (o : PmObject) (x : ℕ) : Prop :=
  sym.start o ≤ x ∧ x < sym.start o + o.size
def PmSymbols.Off (sym : PmSymbols) (o : PmObject) (x : ℕ) : Prop :=
  x < sym.start o ∨ sym.start o + o.size ≤ x

/-- **The objects lie apart**, in the first 16 MB: `sgdtw` and `lgdtw` know 24 bits of an address. -/
structure PmSymbols.Placed (sym : PmSymbols) : Prop where
  apart : ∀ a b, a ≠ b → sym.start a + a.size ≤ sym.start b ∨ sym.start b + b.size ≤ sym.start a
  low : ∀ o, sym.start o + o.size ≤ 2 ^ 24

/-- A `DESCRIPTOR` in memory. -/
def descriptorAt (m : Mem) (addr : ℕ) : Descriptor where
  limitLow := load16 m addr
  baseLow := load16 m (addr + 2)
  baseMid := m (addr + 4)
  attr1 := m (addr + 5)
  limitHighAttr2 := m (addr + 6)
  baseHigh := m (addr + 7)

/-- `seg2phys`, on the GDT in memory. -/
def segBase (sym : PmSymbols) (m : Mem) (seg : BitVec 16) : BitVec 32 :=
  seg2phys (fun index => descriptorAt m (sym.gdt + index * descriptorSize)) seg

/-- `init_idt_desc`. -/
def initIdtDesc (sym : PmSymbols) (vector : ℕ) (type : BitVec 8) (handler : BitVec 32)
    (privilege : BitVec 8) (m : Mem) : Mem :=
  let gate := sym.idt + vector * descriptorSize
  let m := store16 m gate ((handler &&& 0xffff).setWidth 16)
  let m := store16 m (gate + 2) (BitVec.ofNat 16 selectorKernelCs)
  let m := store8 m (gate + 4) 0
  let m := store8 m (gate + 5) (type ||| privilege <<< 5)
  store16 m (gate + 6) (((handler >>> 16) &&& 0xffff).setWidth 16)

/-- `init_descriptor`, of an entry of the GDT. -/
def initGdtDesc (sym : PmSymbols) (index : ℕ) (base limit : BitVec 32) (attr : BitVec 16) (m : Mem) : Mem :=
  storeBytes m (sym.gdt + index * descriptorSize) (initDescriptor base limit attr).bytes

/-- The privilege of the gate of an exception: breakpoint and overflow are for users. -/
def exceptionPrivilege (vector : Fin 20) : BitVec 8 :=
  if vector.val = 3 ∨ vector.val = 4 then priUser else priKrnl

/-- `init_hw_exception_idt`: the exceptions are in the order of their vectors. -/
def initHwExceptionIdt (sym : PmSymbols) (m : Mem) : Mem :=
  (List.finRange 20).foldl
    (fun m (v : Fin 20) => initIdtDesc sym v da386IGate (sym.exception v) (exceptionPrivilege v) m) m

/-- `init_hw_interrupt_idt`. -/
def initHwInterruptIdt (sym : PmSymbols) (m : Mem) : Mem :=
  (List.finRange 16).foldl
    (fun m (irq : Fin 16) => initIdtDesc sym (vectorIrq0 + irq) da386IGate (sym.hwInt irq) priKrnl m) m

/-- `init_sw_interrupt_idt`. -/
def initSwInterruptIdt (sym : PmSymbols) (m : Mem) : Mem :=
  initIdtDesc sym vectorSysCall da386IGate sym.sysCall priUser m

/-- One round of `init_ldt_descs`. -/
def initLdtDesc (sym : PmSymbols) (m : Mem) (i : Fin totalTaskCnt) : Mem :=
  initGdtDesc sym (indexLdtFirst + i)
    (segBase sym m (BitVec.ofNat 16 selectorKernelDs) + BitVec.ofNat 32 (sym.field i .ldt)) (2 * 8 - 1)
    daLdt m

def initLdtDescs (sym : PmSymbols) (m : Mem) : Mem := (List.finRange totalTaskCnt).foldl (initLdtDesc sym) m

/-- `init_tss`. -/
def initTss (sym : PmSymbols) (m : Mem) : Mem :=
  let m := storeBytes m sym.tss (List.replicate tssSize 0)
  let m := store32 m (sym.tss + 8) (BitVec.ofNat 32 selectorKernelDs)
  let m := initGdtDesc sym indexTss
    (segBase sym m (BitVec.ofNat 16 selectorKernelDs) + BitVec.ofNat 32 sym.tss)
    (BitVec.ofNat 32 tssSize - 1) da386Tss m
  store32 m (sym.tss + 104) (BitVec.ofNat 32 tssSize)

/-- The last loop of `init_8259a`. -/
def resetIrqTable (sym : PmSymbols) (m : Mem) : Mem :=
  (List.range 16).foldl (fun m irq => store32 m (sym.irqTable + irq * 4) sym.dummyIrqHandler) m

/-- The first half of `init_pm_env`: the GDT is copied, and the two pointers set. -/
def prepareTables (sym : PmSymbols) (m : Mem) : Mem :=
  let m := copyBytes m sym.gdt (load32 m (sym.gdtPtr + 2)).toNat ((load16 m sym.gdtPtr).toNat + 1)
  let m := store16 m sym.gdtPtr (BitVec.ofNat 16 (gdtSize * descriptorSize - 1))
  let m := store32 m (sym.gdtPtr + 2) (BitVec.ofNat 32 sym.gdt)
  let m := store16 m sym.idtPtr (BitVec.ofNat 16 (idtSize * descriptorSize - 1))
  store32 m (sym.idtPtr + 2) (BitVec.ofNat 32 sym.idt)

/-- `init_pm_env`. -/
def initPmEnv (sym : PmSymbols) (m : Mem) : Mem :=
  let m := prepareTables sym m
  let m := resetIrqTable sym m
  let m := initHwExceptionIdt sym m
  let m := initHwInterruptIdt sym m
  let m := initSwInterruptIdt sym m
  let m := initLdtDescs sym m
  initTss sym m

/-- `sgdtw`: the limit, and 24 bits of the base. -/
def sgdtw (table : Table) (addr : ℕ) (m : Mem) : Mem :=
  let base := BitVec.ofNat 32 table.base
  storeBytes (store16 m addr (BitVec.ofNat 16 table.limit)) (addr + 2)
    [base.extractLsb' 0 8, base.extractLsb' 8 8, base.extractLsb' 16 8, 0]

/-- `lgdtw`, and `lidtw`. -/
def lgdtw (m : Mem) (addr : ℕ) : Table := ⟨(load32 m (addr + 2)).toNat % 2 ^ 24, (load16 m addr).toNat⟩

/-- What `ltr` writes: the descriptor of the TSS is busy from then on. -/
def ltr (sym : PmSymbols) (m : Mem) : Mem :=
  let access := sym.gdt + indexTss * descriptorSize + 5
  store8 m access (m access ||| 2)

/-- `_start`, called with the GDT of the loader. -/
def startKernel (sym : PmSymbols) (loader : Table) (m : Mem) : Mem :=
  ltr sym (initPmEnv sym (sgdtw loader sym.gdtPtr m))

/-- The GDT of the loader, as its macros put it there. -/
def loaderGdt : List (BitVec 8) :=
  descriptorMacro 0 0 0 ++ descriptorMacro 0 0xfffff (0x9a + 0x4000 + 0x8000) ++
    descriptorMacro 0 0xfffff (0x92 + 0x4000 + 0x8000) ++ descriptorMacro 0xb8000 0xffff (0x92 + 0x60)

/-- The loader's GDT is in memory, and the kernel's own tables are elsewhere. -/
structure LoaderTable (sym : PmSymbols) (loader : Table) (m : Mem) : Prop where
  limit : loader.limit = 31
  low : loader.base + 32 ≤ 2 ^ 24
  apart : ∀ o, loader.base + 32 ≤ sym.start o ∨ sym.start o + o.size ≤ loader.base
  bytes : ∀ k (inside : k < loaderGdt.length), m (loader.base + k) = loaderGdt[k]

/-- **Memory when the first process starts.** -/
def bootKernelMem (sym : PmSymbols) (loader : Table) (m : Mem) : Mem :=
  initProcessMain sym.toSymbols (startKernel sym loader m)

/-! ### Slots -/

section Slots

variable {ι : Type} (write : Mem → ι → Mem) (slot : ι → ℕ) (size : ℕ)

/-- Stores to slots leave the rest alone. -/
theorem foldl_off (keeps : ∀ m i x, x < slot i ∨ slot i + size ≤ x → write m i x = m x) (l : List ι)
    {m : Mem} {x : ℕ} (off : ∀ i ∈ l, x < slot i ∨ slot i + size ≤ x) : l.foldl write m x = m x := by
  induction l generalizing m with
  | nil => rfl
  | cons i l ih =>
    rw [List.foldl_cons, ih fun j member => off j (List.mem_cons_of_mem _ member)]
    exact keeps m i x (off i List.mem_cons_self)

/-- A slot ends as its own store leaves it; what that store found off the slots was as before. -/
theorem foldl_at (keeps : ∀ m i x, x < slot i ∨ slot i + size ≤ x → write m i x = m x)
    (apart : ∀ i j, i ≠ j → slot i + size ≤ slot j ∨ slot j + size ≤ slot i) {l : List ι}
    (nodup : l.Nodup) {i : ι} (member : i ∈ l) (m : Mem) :
    ∃ m₀ : Mem, (∀ x, (∀ j, x < slot j ∨ slot j + size ≤ x) → m₀ x = m x) ∧
      ∀ k < size, l.foldl write m (slot i + k) = write m₀ i (slot i + k) := by
  induction l generalizing m with
  | nil => exact absurd member List.not_mem_nil
  | cons j l ih =>
    obtain ⟨fresh, nodup⟩ := List.nodup_cons.mp nodup
    rcases List.mem_cons.mp member with rfl | member
    · refine ⟨m, fun _ _ => rfl, fun k inside => ?_⟩
      rw [List.foldl_cons]
      refine foldl_off write slot size keeps l fun j member => ?_
      have := apart i j fun same => fresh (same ▸ member)
      omega
    · obtain ⟨m₀, before, here⟩ := ih nodup member (write m j)
      exact ⟨m₀, fun x off => (before x off).trans (keeps m j x (off j)), here⟩

end Slots

/-! ### Bytes -/

/-- Copied bytes, when the two places lie apart. -/
theorem copyBytes_at {m : Mem} {dest src size k : ℕ} (apart : dest + size ≤ src ∨ src + size ≤ dest)
    (inside : k < size) : copyBytes m dest src size (dest + k) = m (src + k) := by
  induction size generalizing m dest src k with
  | zero => exact absurd inside (Nat.not_lt_zero k)
  | succ size ih =>
    rw [copyBytes]
    cases k with
    | zero =>
      rw [copyBytes_off (by omega)]
      exact Function.update_self _ _ _
    | succ k =>
      rw [show dest + (k + 1) = dest + 1 + k by omega, show src + (k + 1) = src + 1 + k by omega,
        ih (by omega) (by omega)]
      exact Function.update_of_ne (by omega) _ _

theorem read_storeBytes (m : Mem) (addr : ℕ) (b0 b1 b2 b3 b4 b5 b6 b7 : BitVec 8) :
    TableEntry.read (storeBytes m addr [b0, b1, b2, b3, b4, b5, b6, b7]) addr =
      ⟨b0, b1, b2, b3, b4, b5, b6, b7⟩ := by
  have stored : ∀ k (inside : k < 8), storeBytes m addr [b0, b1, b2, b3, b4, b5, b6, b7] (addr + k) = _ :=
    fun k inside => storeBytes_at inside
  unfold TableEntry.read
  rw [show storeBytes m addr _ addr = _ from stored 0 (by omega), stored 1 (by omega), stored 2 (by omega),
    stored 3 (by omega), stored 4 (by omega), stored 5 (by omega), stored 6 (by omega), stored 7 (by omega)]
  rfl

/-- A byte of a stored word. -/
theorem store32_byte (m : Mem) (addr : ℕ) (value : BitVec 32) {j : ℕ} (small : j < 4) :
    store32 m addr value (addr + j) = value.extractLsb' (8 * j) 8 := by
  refine (storeBytes_at small).trans ?_
  interval_cases j <;> rfl

/-- The gate that `init_idt_desc` makes. -/
def gateEntry (handler : BitVec 32) (privilege : BitVec 8) : TableEntry :=
  ⟨handler.extractLsb' 0 8, handler.extractLsb' 8 8, 0x08, 0, 0, da386IGate ||| privilege <<< 5,
    handler.extractLsb' 16 8, handler.extractLsb' 24 8⟩

/-- The descriptor that `init_descriptor` makes. -/
def descriptorEntry (base limit : BitVec 32) (attr : BitVec 16) : TableEntry :=
  ⟨limit.extractLsb' 0 8, limit.extractLsb' 8 8, base.extractLsb' 0 8, base.extractLsb' 8 8,
    base.extractLsb' 16 8, attr.extractLsb' 0 8, attr.extractLsb' 12 4 ++ 0#4, base.extractLsb' 24 8⟩

variable {sym : PmSymbols} {m : Mem} {x : ℕ}

theorem initIdtDesc_eq (vector : ℕ) (handler : BitVec 32) (privilege : BitVec 8) :
    initIdtDesc sym vector da386IGate handler privilege m =
      storeBytes m (sym.idt + vector * descriptorSize) [handler.extractLsb' 0 8, handler.extractLsb' 8 8,
        0x08, 0, 0, da386IGate ||| privilege <<< 5, handler.extractLsb' 16 8, handler.extractLsb' 24 8] := by
  have shifted : ∀ place, (handler >>> 16).extractLsb' place 8 = handler.extractLsb' (16 + place) 8 := by
    intro place
    ext i inside
    simp [Nat.add_assoc]
  unfold initIdtDesc
  dsimp only
  rw [low_half, low_half]
  unfold store16
  rw [BitVec.extractLsb'_extractLsb'_of_le (by omega), BitVec.extractLsb'_extractLsb'_of_le (by omega),
    BitVec.extractLsb'_extractLsb'_of_le (by omega), BitVec.extractLsb'_extractLsb'_of_le (by omega),
    shifted, shifted]
  rfl

theorem initIdtDesc_off {vector : ℕ} {type privilege : BitVec 8} {handler : BitVec 32}
    (off : x < sym.idt + vector * 8 ∨ sym.idt + vector * 8 + 8 ≤ x) :
    initIdtDesc sym vector type handler privilege m x = m x := by
  unfold initIdtDesc descriptorSize
  simp (disch := omega) only [store16_off, store8_off]

theorem initIdtDesc_read (vector : ℕ) (handler : BitVec 32) (privilege : BitVec 8) :
    TableEntry.read (initIdtDesc sym vector da386IGate handler privilege m) (sym.idt + vector * 8) =
      gateEntry handler privilege := by
  rw [initIdtDesc_eq]
  exact read_storeBytes _ _ _ _ _ _ _ _ _ _

theorem initGdtDesc_off {i : ℕ} {base limit : BitVec 32} {attr : BitVec 16}
    (off : x < sym.gdt + i * 8 ∨ sym.gdt + i * 8 + 8 ≤ x) :
    initGdtDesc sym i base limit attr m x = m x := storeBytes_off off

theorem initGdtDesc_read (i : ℕ) (base limit : BitVec 32) (attr : BitVec 16) :
    TableEntry.read (initGdtDesc sym i base limit attr m) (sym.gdt + i * 8) =
      descriptorEntry base limit attr := by
  rw [initGdtDesc, bytes_initDescriptor]
  exact read_storeBytes _ _ _ _ _ _ _ _ _ _

/-! ### What each part leaves alone -/

theorem initHwExceptionIdt_off (off : x < sym.idt ∨ sym.idt + 160 ≤ x) :
    initHwExceptionIdt sym m x = m x := by
  refine foldl_off _ (fun v : Fin 20 => sym.idt + v * 8) 8
    (fun _ _ _ => initIdtDesc_off) _ fun v _ => ?_
  have := v.isLt
  omega

theorem initHwInterruptIdt_off (off : x < sym.idt + 256 ∨ sym.idt + 384 ≤ x) :
    initHwInterruptIdt sym m x = m x := by
  refine foldl_off _ (fun v : Fin 16 => sym.idt + (vectorIrq0 + v) * 8) 8
    (fun _ _ _ => initIdtDesc_off) _ fun v _ => ?_
  have := v.isLt
  simp only [vectorIrq0]
  omega

theorem initSwInterruptIdt_off (off : x < sym.idt + 1152 ∨ sym.idt + 1160 ≤ x) :
    initSwInterruptIdt sym m x = m x := by
  refine initIdtDesc_off ?_
  simp only [vectorSysCall]
  omega

theorem resetIrqTable_off (off : x < sym.irqTable ∨ sym.irqTable + 64 ≤ x) :
    resetIrqTable sym m x = m x := by
  refine foldl_off _ (fun irq : ℕ => sym.irqTable + irq * 4) 4
    (fun _ _ _ => store32_off) _ fun irq member => ?_
  have := List.mem_range.mp member
  omega

theorem initLdtDescs_off (off : x < sym.gdt + 40 ∨ sym.gdt + 96 ≤ x) : initLdtDescs sym m x = m x := by
  refine foldl_off _ (fun i : Fin totalTaskCnt => sym.gdt + (indexLdtFirst + i) * 8) 8
    (fun _ _ _ => initGdtDesc_off) _ fun i _ => ?_
  have := i.isLt
  simp only [indexLdtFirst, totalTaskCnt] at this ⊢
  omega

theorem initTss_off (offTss : x < sym.tss ∨ sym.tss + 108 ≤ x)
    (offGdt : x < sym.gdt + 32 ∨ sym.gdt + 40 ≤ x) : initTss sym m x = m x := by
  unfold initTss
  rw [store32_off (by omega), initGdtDesc_off (by simp only [indexTss]; omega), store32_off (by omega)]
  refine storeBytes_off ?_
  rw [List.length_replicate]
  exact offTss

theorem sgdtw_off {loader : Table} (off : x < sym.gdtPtr ∨ sym.gdtPtr + 6 ≤ x) :
    sgdtw loader sym.gdtPtr m x = m x := by
  unfold sgdtw
  rw [storeBytes_off (by simp only [List.length_cons, List.length_nil]; omega), store16_off (by omega)]

/-! ### The first half -/

variable {loader : Table} {i : Fin totalTaskCnt}

theorem store16_bytes (m : Mem) (addr : ℕ) (value : BitVec 16) :
    load16 (store16 m addr value) addr = value := by
  have stored : ∀ k (inside : k < 2), store16 m addr value (addr + k) = _ := fun k inside =>
    storeBytes_at inside
  have whole : value.extractLsb' 8 8 ++ value.extractLsb' 0 8 = value.extractLsb' 0 16 :=
    BitVec.extractLsb'_append_extractLsb'_eq_extractLsb' rfl
  unfold load16
  rw [stored 1 (by omega), show store16 m addr value addr = _ from stored 0 (by omega)]
  exact whole.trans BitVec.extractLsb'_eq_self

theorem load16_congr {m m' : Mem} {addr : ℕ} (low : m' addr = m addr) (high : m' (addr + 1) = m (addr + 1)) :
    load16 m' addr = load16 m addr := by
  rw [load16, load16, low, high]

/-- What `sgdtw` stores reads back. -/
theorem sgdtw_read (low : loader.base + 32 ≤ 2 ^ 24) (limit : loader.limit = 31) :
    (load32 (sgdtw loader sym.gdtPtr m) (sym.gdtPtr + 2)).toNat = loader.base ∧
      (load16 (sgdtw loader sym.gdtPtr m) sym.gdtPtr).toNat = 31 := by
  have small : (BitVec.ofNat 32 loader.base).extractLsb' 24 8 = 0 := by
    refine BitVec.eq_of_toNat_eq ?_
    rw [BitVec.extractLsb'_toNat, BitVec.toNat_ofNat, Nat.shiftRight_eq_div_pow]
    show loader.base % 2 ^ 32 / 2 ^ 24 % 2 ^ 8 = 0
    omega
  constructor
  · have same := @load32_store32 (store16 m sym.gdtPtr (BitVec.ofNat 16 loader.limit)) (sym.gdtPtr + 2)
      (BitVec.ofNat 32 loader.base)
    unfold store32 at same
    rw [small] at same
    unfold sgdtw
    rw [same, BitVec.toNat_ofNat]
    omega
  · have kept : load16 (sgdtw loader sym.gdtPtr m) sym.gdtPtr =
        load16 (store16 m sym.gdtPtr (BitVec.ofNat 16 loader.limit)) sym.gdtPtr :=
      load16_congr (storeBytes_off (by omega)) (storeBytes_off (by omega))
    rw [kept, store16_bytes, limit]
    rfl

/-- The two pointers are all that the first half stores outside the copy. -/
theorem prepareTables_off (limit : (load16 m sym.gdtPtr).toNat = 31)
    (offGdt : x < sym.gdt ∨ sym.gdt + 32 ≤ x) (offPtr : x < sym.gdtPtr ∨ sym.gdtPtr + 6 ≤ x)
    (offIdtPtr : x < sym.idtPtr ∨ sym.idtPtr + 6 ≤ x) : prepareTables sym m x = m x := by
  unfold prepareTables
  rw [limit]
  simp (disch := omega) only [store32_off, store16_off, copyBytes_off]

/-- An address in an object is off the others. -/
theorem PmSymbols.Placed.off {a b : PmObject} (placed : sym.Placed) (other : a ≠ b) (on : sym.On a x) :
    sym.Off b x := by
  obtain ⟨low, high⟩ := on
  rcases placed.apart a b other with before | after
  · exact Or.inl (by omega)
  · exact Or.inr (by omega)

theorem on_gdt {k : ℕ} (inside : k < 1024) : sym.On .gdt (sym.gdt + k) :=
  ⟨Nat.le_add_right _ _, Nat.add_lt_add_left inside _⟩

theorem on_idt {k : ℕ} (inside : k < 2048) : sym.On .idt (sym.idt + k) :=
  ⟨Nat.le_add_right _ _, Nat.add_lt_add_left inside _⟩

theorem on_tss {k : ℕ} (inside : k < 108) : sym.On .tss (sym.tss + k) :=
  ⟨Nat.le_add_right _ _, Nat.add_lt_add_left inside _⟩

theorem loaderGdt_length : loaderGdt.length = 32 := by decide

/-- The GDT of the loader is copied. -/
theorem prepareTables_gdt (placed : sym.Placed) (there : LoaderTable sym loader m) {k : ℕ}
    (inside : k < loaderGdt.length) :
    prepareTables sym (sgdtw loader sym.gdtPtr m) (sym.gdt + k) = loaderGdt[k] := by
  obtain ⟨base, limit⟩ := @sgdtw_read sym m loader there.low there.limit
  have short : k < 32 := loaderGdt_length ▸ inside
  have gdtPtr : sym.Off .gdtPtr (sym.gdt + k) := placed.off (by decide) (on_gdt (by omega))
  have idtPtr : sym.Off .idtPtr (sym.gdt + k) := placed.off (by decide) (on_gdt (by omega))
  simp only [PmSymbols.Off, PmSymbols.start, PmObject.size] at gdtPtr idtPtr
  have apart := there.apart .gdt
  have apartPtr := there.apart .gdtPtr
  simp only [PmSymbols.start, PmObject.size, gdtSize, descriptorSize] at apart apartPtr
  unfold prepareTables
  rw [base, limit, store32_off (by omega), store16_off (by omega), store32_off (by omega),
    store16_off (by omega), copyBytes_at (by omega) short, sgdtw_off (by omega)]
  exact there.bytes k inside

/-- A pointer that `lgdtw` reads. -/
theorem lgdtw_stored (addr : ℕ) (limit : BitVec 16) (base : ℕ) (low : base < 2 ^ 24) :
    lgdtw (store32 (store16 m addr limit) (addr + 2) (BitVec.ofNat 32 base)) addr = ⟨base, limit.toNat⟩ := by
  have kept : load16 (store32 (store16 m addr limit) (addr + 2) (BitVec.ofNat 32 base)) addr =
      load16 (store16 m addr limit) addr :=
    load16_congr (store32_off (by omega)) (store32_off (by omega))
  rw [lgdtw, load32_store32, kept, store16_bytes, BitVec.toNat_ofNat]
  congr 1
  omega

theorem lgdtw_congr {m m' : Mem} {addr : ℕ} (same : ∀ k < 6, m' (addr + k) = m (addr + k)) :
    lgdtw m' addr = lgdtw m addr := by
  have word : load32 m' (addr + 2) = load32 m (addr + 2) := load32_congr fun k bound => by
    rw [Nat.add_assoc]
    exact same _ (by omega)
  have limit : load16 m' addr = load16 m addr := load16_congr (same 0 (by omega)) (same 1 (by omega))
  rw [lgdtw, lgdtw, word, limit]

/-- The two pointers. -/
theorem prepareTables_pointers (placed : sym.Placed) (m : Mem) :
    lgdtw (prepareTables sym m) sym.gdtPtr = ⟨sym.gdt, 1023⟩ ∧
      lgdtw (prepareTables sym m) sym.idtPtr = ⟨sym.idt, 2047⟩ := by
  have gdt := placed.low .gdt
  have idt := placed.low .idt
  have apart := placed.apart .gdtPtr .idtPtr (by decide)
  simp only [PmSymbols.start, PmObject.size, gdtSize, idtSize, descriptorSize] at gdt idt apart
  constructor
  · unfold prepareTables
    rw [lgdtw_congr fun k inside => (store32_off (by omega)).trans (store16_off (by omega)),
      lgdtw_stored _ _ _ (by omega)]
    rfl
  · unfold prepareTables
    rw [lgdtw_stored _ _ _ (by omega)]
    rfl

/-! ### The tables -/

/-- The IDT is filled, and the table of the handlers. -/
theorem idts_off (offIdt : sym.Off .idt x) (offIrq : sym.Off .irqTable x) :
    initSwInterruptIdt sym (initHwInterruptIdt sym (initHwExceptionIdt sym (resetIrqTable sym m))) x =
      m x := by
  simp only [PmSymbols.Off, PmSymbols.start, PmObject.size, idtSize, descriptorSize] at offIdt offIrq
  rw [initSwInterruptIdt_off (by omega), initHwInterruptIdt_off (by omega),
    initHwExceptionIdt_off (by omega), resetIrqTable_off (by omega)]

/-- Memory in front of `init_ldt_descs`. -/
def filledIdt (sym : PmSymbols) (loader : Table) (m : Mem) : Mem :=
  initSwInterruptIdt sym (initHwInterruptIdt sym (initHwExceptionIdt sym (resetIrqTable sym
    (prepareTables sym (sgdtw loader sym.gdtPtr m)))))

theorem startKernel_eq :
    startKernel sym loader m = ltr sym (initTss sym (initLdtDescs sym (filledIdt sym loader m))) := rfl

theorem ltr_off (off : x < sym.gdt + 32 ∨ sym.gdt + 40 ≤ x) : ltr sym m x = m x :=
  Function.update_of_ne (by simp only [indexTss, descriptorSize]; omega) _ _

theorem filledIdt_gdt (placed : sym.Placed) (there : LoaderTable sym loader m) {k : ℕ}
    (inside : k < loaderGdt.length) : filledIdt sym loader m (sym.gdt + k) = loaderGdt[k] := by
  have short : k < 32 := loaderGdt_length ▸ inside
  have on : sym.On .gdt (sym.gdt + k) := on_gdt (by omega)
  rw [filledIdt, idts_off (placed.off (by decide) on) (placed.off (by decide) on)]
  exact prepareTables_gdt placed there inside

/-- Behind the copied entries memory is as it was. -/
theorem filledIdt_rest (placed : sym.Placed) (there : LoaderTable sym loader m) {k : ℕ} (behind : 32 ≤ k)
    (inside : k < 1024) : filledIdt sym loader m (sym.gdt + k) = m (sym.gdt + k) := by
  have on : sym.On .gdt (sym.gdt + k) := on_gdt inside
  have offPtr := placed.off (b := .gdtPtr) (by decide) on
  have offIdtPtr := placed.off (b := .idtPtr) (by decide) on
  rw [filledIdt, idts_off (placed.off (by decide) on) (placed.off (by decide) on),
    prepareTables_off (sgdtw_read there.low there.limit).2 (Or.inr (by omega)) offPtr offIdtPtr,
    sgdtw_off offPtr]

/-- The data segment of the kernel starts at 0. -/
theorem segBase_zero (flat : ∀ k ∈ [18, 19, 20, 23], m (sym.gdt + k) = 0) :
    segBase sym m (BitVec.ofNat 16 selectorKernelDs) = 0#32 := by
  have b2 := flat 18 (by decide)
  have b3 := flat 19 (by decide)
  have b4 := flat 20 (by decide)
  have b7 := flat 23 (by decide)
  have third : (BitVec.ofNat 16 selectorKernelDs >>> 3).toNat = 2 := by decide
  rw [segBase, seg2phys]
  simp only [third, descriptorAt, descriptorSize, load16, Nat.add_assoc]
  show (m (sym.gdt + 23)).setWidth 32 <<< 24 ||| (m (sym.gdt + 20)).setWidth 32 <<< 16 |||
    (m (sym.gdt + 19) ++ m (sym.gdt + 18)).setWidth 32 = 0
  rw [b2, b3, b4, b7]
  rfl

/-- A descriptor of an LDT, once `init_ldt_descs` is done. -/
theorem initLdtDescs_read (flat : ∀ k ∈ [18, 19, 20, 23], m (sym.gdt + k) = 0) (i : Fin totalTaskCnt) :
    TableEntry.read (initLdtDescs sym m) (sym.gdt + (indexLdtFirst + i) * 8) =
      descriptorEntry (BitVec.ofNat 32 (sym.field i .ldt)) 15 daLdt := by
  obtain ⟨m₀, before, here⟩ := foldl_at (initLdtDesc sym)
    (fun i : Fin totalTaskCnt => sym.gdt + (indexLdtFirst + i) * 8) 8
    (fun _ _ _ => initGdtDesc_off) (fun i j other => by
      have := Fin.val_ne_of_ne other
      omega) (List.nodup_finRange totalTaskCnt) (List.mem_finRange i) m
  have base : segBase sym m₀ (BitVec.ofNat 16 selectorKernelDs) = 0#32 := by
    refine segBase_zero fun k member => ?_
    rw [before _ fun j => ?_]
    · exact flat k member
    · have : k < 24 := by
        simp only [List.mem_cons, List.not_mem_nil, or_false] at member
        omega
      simp only [indexLdtFirst]
      omega
  rw [initLdtDescs, TableEntry.read_congr here, initLdtDesc, initGdtDesc_read, base, BitVec.zero_add]
  rfl

/-- The descriptor of the TSS. -/
theorem initTss_read (placed : sym.Placed) (flat : ∀ k ∈ [18, 19, 20, 23], m (sym.gdt + k) = 0) :
    TableEntry.read (initTss sym m) (sym.gdt + indexTss * 8) =
      descriptorEntry (BitVec.ofNat 32 sym.tss) 107 da386Tss := by
  have apart := placed.apart .gdt .tss (by decide)
  simp only [PmSymbols.start, PmObject.size, gdtSize, descriptorSize, tssSize] at apart
  have base : segBase sym (store32 (storeBytes m sym.tss (List.replicate tssSize 0)) (sym.tss + 8)
      (BitVec.ofNat 32 selectorKernelDs)) (BitVec.ofNat 16 selectorKernelDs) = 0#32 := by
    refine segBase_zero fun k member => ?_
    have : k < 24 := by
      simp only [List.mem_cons, List.not_mem_nil, or_false] at member
      omega
    rw [store32_off (by omega), storeBytes_off (by rw [List.length_replicate, tssSize]; omega)]
    exact flat k member
  unfold initTss
  dsimp only
  rw [TableEntry.read_congr fun k inside => store32_off (by simp only [indexTss]; omega),
    initGdtDesc_read, base, BitVec.zero_add]
  rfl

/-- The bytes of the TSS: all but two of them are 0. -/
theorem initTss_byte (placed : sym.Placed) (m : Mem) {k : ℕ} (inside : k < 108) :
    initTss sym m (sym.tss + k) = if k = 8 then 0x10 else if k = 104 then 0x6c else 0 := by
  have apart := placed.apart .gdt .tss (by decide)
  simp only [PmSymbols.start, PmObject.size, gdtSize, descriptorSize, tssSize] at apart
  have off : sym.tss + k < sym.gdt + indexTss * 8 ∨ sym.gdt + indexTss * 8 + 8 ≤ sym.tss + k := by
    simp only [indexTss]
    omega
  unfold initTss
  rcases Nat.lt_or_ge k 104 with low | last
  · rw [store32_off (by omega), initGdtDesc_off off]
    by_cases stack : 8 ≤ k ∧ k < 12
    · obtain ⟨j, rfl⟩ := Nat.exists_eq_add_of_le stack.1
      rw [← Nat.add_assoc, store32_byte _ _ _ (by omega)]
      exact (by decide : ∀ j < 4, (BitVec.ofNat 32 selectorKernelDs).extractLsb' (8 * j) 8 =
        if 8 + j = 8 then 0x10 else if 8 + j = 104 then 0x6c else 0) j (by omega)
    · rw [store32_off (by omega), storeBytes_at (by rw [List.length_replicate, tssSize]; omega),
        List.getElem_replicate, if_neg (by omega), if_neg (by omega)]
  · obtain ⟨j, rfl⟩ := Nat.exists_eq_add_of_le last
    rw [← Nat.add_assoc, store32_byte _ _ _ (by omega)]
    exact (by decide : ∀ j < 4, (BitVec.ofNat 32 tssSize).extractLsb' (8 * j) 8 =
      if 104 + j = 8 then 0x10 else if 104 + j = 104 then 0x6c else 0) j (by omega)

/-! ### After `_start` -/

theorem loaderGdt_flat : ∀ k ∈ [18, 19, 20, 23], ∀ inside : k < loaderGdt.length, loaderGdt[k] = 0 := by
  decide

theorem filledIdt_flat (placed : sym.Placed) (there : LoaderTable sym loader m) :
    ∀ k ∈ [18, 19, 20, 23], filledIdt sym loader m (sym.gdt + k) = 0 := by
  intro k member
  have inside : k < loaderGdt.length := by
    rw [loaderGdt_length]
    simp only [List.mem_cons, List.not_mem_nil, or_false] at member
    omega
  rw [filledIdt_gdt placed there inside]
  exact loaderGdt_flat k member inside

/-- The first entries are the loader's. -/
theorem startKernel_copied (placed : sym.Placed) (there : LoaderTable sym loader m) {k : ℕ}
    (inside : k < loaderGdt.length) : startKernel sym loader m (sym.gdt + k) = loaderGdt[k] := by
  have short : k < 32 := loaderGdt_length ▸ inside
  have offTss := placed.off (b := .tss) (by decide) (on_gdt (k := k) (by omega))
  rw [startKernel_eq, ltr_off (Or.inl (by omega)), initTss_off offTss (Or.inl (by omega)),
    initLdtDescs_off (Or.inl (by omega))]
  exact filledIdt_gdt placed there inside

theorem startKernel_rest (placed : sym.Placed) (there : LoaderTable sym loader m) {k : ℕ} (behind : 96 ≤ k)
    (inside : k < 1024) : startKernel sym loader m (sym.gdt + k) = m (sym.gdt + k) := by
  have offTss := placed.off (b := .tss) (by decide) (on_gdt inside)
  rw [startKernel_eq, ltr_off (Or.inr (by omega)), initTss_off offTss (Or.inr (by omega)),
    initLdtDescs_off (Or.inr (by omega))]
  exact filledIdt_rest placed there (by omega) inside

theorem startKernel_ldt (placed : sym.Placed) (there : LoaderTable sym loader m) (i : Fin totalTaskCnt) :
    TableEntry.read (startKernel sym loader m) (sym.gdt + (indexLdtFirst + i) * 8) =
      descriptorEntry (BitVec.ofNat 32 (sym.field i .ldt)) 15 daLdt := by
  have last := i.isLt
  simp only [totalTaskCnt] at last
  have kept : ∀ k < 8, startKernel sym loader m (sym.gdt + (indexLdtFirst + i) * 8 + k) =
      initLdtDescs sym (filledIdt sym loader m) (sym.gdt + (indexLdtFirst + i) * 8 + k) := by
    intro k inside
    rw [Nat.add_assoc, startKernel_eq]
    simp only [indexLdtFirst]
    rw [ltr_off (Or.inr (by omega))]
    exact initTss_off (placed.off (b := .tss) (by decide) (on_gdt (by omega))) (Or.inr (by omega))
  rw [TableEntry.read_congr kept]
  exact initLdtDescs_read (filledIdt_flat placed there) i

theorem startKernel_tss (placed : sym.Placed) (there : LoaderTable sym loader m) :
    TableEntry.read (startKernel sym loader m) (sym.gdt + indexTss * 8) =
      (descriptorEntry (BitVec.ofNat 32 sym.tss) 107 da386Tss).withAccess 0x8b := by
  have made : TableEntry.read (initTss sym (initLdtDescs sym (filledIdt sym loader m)))
      (sym.gdt + indexTss * 8) = descriptorEntry (BitVec.ofNat 32 sym.tss) 107 da386Tss := ?_
  · have access : initTss sym (initLdtDescs sym (filledIdt sym loader m)) (sym.gdt + indexTss * 8 + 5) =
        0x89 := congrArg TableEntry.b5 made
    rw [← made, startKernel_eq]
    refine TableEntry.read_withAccess (fun k inside other => Function.update_of_ne ?_ _ _) ?_
    · simp only [descriptorSize]
      omega
    · refine (Function.update_self _ _ _).trans ?_
      rw [show indexTss * descriptorSize = indexTss * 8 from rfl, access]
      rfl
  refine initTss_read placed fun k member => ?_
  have inside : k < 24 := by
    simp only [List.mem_cons, List.not_mem_nil, or_false] at member
    omega
  rw [initLdtDescs_off (Or.inl (by omega))]
  exact filledIdt_flat placed there k member

/-- The IDT is complete before the descriptors are made. -/
theorem startKernel_idt (placed : sym.Placed) {k : ℕ} (inside : k < 2048) :
    startKernel sym loader m (sym.idt + k) = filledIdt sym loader m (sym.idt + k) := by
  have on : sym.On .idt (sym.idt + k) := on_idt inside
  have offTss := placed.off (b := .tss) (by decide) on
  have offGdt := placed.off (b := .gdt) (by decide) on
  simp only [PmSymbols.Off, PmSymbols.start, PmObject.size, gdtSize, descriptorSize] at offGdt
  rw [startKernel_eq, ltr_off (by omega), initTss_off offTss (by omega), initLdtDescs_off (by omega)]

theorem startKernel_exception (placed : sym.Placed) (v : Fin 20) :
    TableEntry.read (startKernel sym loader m) (sym.idt + v * 8) =
      gateEntry (sym.exception v) (exceptionPrivilege v) := by
  have small := v.isLt
  obtain ⟨m₀, -, here⟩ := foldl_at
    (fun m (v : Fin 20) => initIdtDesc sym v da386IGate (sym.exception v) (exceptionPrivilege v) m)
    (fun v : Fin 20 => sym.idt + v * 8) 8 (fun _ _ _ => initIdtDesc_off) (fun i j other => by
      have := Fin.val_ne_of_ne other
      omega) (List.nodup_finRange 20) (List.mem_finRange v)
    (resetIrqTable sym (prepareTables sym (sgdtw loader sym.gdtPtr m)))
  refine (TableEntry.read_congr fun k inside => ?_).trans (initIdtDesc_read (m := m₀) v _ _)
  rw [Nat.add_assoc, startKernel_idt placed (by omega), filledIdt, initSwInterruptIdt_off (by omega),
    initHwInterruptIdt_off (by omega), ← Nat.add_assoc]
  exact here k inside

theorem startKernel_hwInt (placed : sym.Placed) (irq : Fin 16) :
    TableEntry.read (startKernel sym loader m) (sym.idt + (vectorIrq0 + irq) * 8) =
      gateEntry (sym.hwInt irq) priKrnl := by
  have small := irq.isLt
  obtain ⟨m₀, -, here⟩ := foldl_at
    (fun m (irq : Fin 16) =>
      initIdtDesc sym (vectorIrq0 + irq) da386IGate (sym.hwInt irq) priKrnl m)
    (fun irq : Fin 16 => sym.idt + (vectorIrq0 + irq) * 8) 8
    (fun _ _ _ => initIdtDesc_off) (fun i j other => by
      have := Fin.val_ne_of_ne other
      omega) (List.nodup_finRange 16) (List.mem_finRange irq)
    (initHwExceptionIdt sym (resetIrqTable sym (prepareTables sym (sgdtw loader sym.gdtPtr m))))
  refine (TableEntry.read_congr fun k inside => ?_).trans (initIdtDesc_read (m := m₀) (vectorIrq0 + irq) _ _)
  have := here k inside
  simp only [vectorIrq0] at this ⊢
  rw [Nat.add_assoc, startKernel_idt placed (by omega), filledIdt, initSwInterruptIdt_off (by omega),
    ← Nat.add_assoc]
  exact this

theorem startKernel_sysCall (placed : sym.Placed) :
    TableEntry.read (startKernel sym loader m) (sym.idt + vectorSysCall * 8) =
      gateEntry sym.sysCall priUser := by
  have kept : ∀ k < 8, startKernel sym loader m (sym.idt + vectorSysCall * 8 + k) =
      filledIdt sym loader m (sym.idt + vectorSysCall * 8 + k) := by
    intro k inside
    simp only [vectorSysCall]
    rw [Nat.add_assoc, startKernel_idt placed (by omega)]
  rw [TableEntry.read_congr kept]
  exact initIdtDesc_read vectorSysCall sym.sysCall priUser

/-- The other gates are what memory held. -/
theorem startKernel_otherGate (placed : sym.Placed) (there : LoaderTable sym loader m) {v : ℕ}
    (inside : v < 256) (noException : 20 ≤ v) (noIrq : v < vectorIrq0 ∨ vectorIrq0 + 16 ≤ v)
    (noCall : v ≠ vectorSysCall) :
    TableEntry.read (startKernel sym loader m) (sym.idt + v * 8) = TableEntry.read m (sym.idt + v * 8) := by
  refine TableEntry.read_congr fun k small => ?_
  simp only [vectorIrq0, vectorSysCall] at noIrq noCall
  have on : sym.On .idt (sym.idt + (v * 8 + k)) := on_idt (by omega)
  have offGdt := placed.off (b := .gdt) (by decide) on
  have offPtr := placed.off (b := .gdtPtr) (by decide) on
  have offIdtPtr := placed.off (b := .idtPtr) (by decide) on
  have offIrq := placed.off (b := .irqTable) (by decide) on
  simp only [PmSymbols.Off, PmSymbols.start, PmObject.size, gdtSize, descriptorSize] at offGdt
  rw [Nat.add_assoc, startKernel_idt placed (by omega), filledIdt, initSwInterruptIdt_off (by omega),
    initHwInterruptIdt_off (by omega), initHwExceptionIdt_off (by omega), resetIrqTable_off offIrq,
    prepareTables_off (sgdtw_read there.low there.limit).2 (by omega) offPtr offIdtPtr, sgdtw_off offPtr]

end WalOS
