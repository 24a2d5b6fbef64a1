/-
**The tables when the first process starts**: `_start` and then `init_process_main`.

* `fillTable_round` — the round of `init_process_main` for an entry, with its variables.
* `bootKernelMem_fields`, `bootKernelMem_ldt` — where a process starts, and its descriptors.
* `Protects`, `boot_protects` — **every entry of the tables**.
* `TableByte`, `Protects.congr` — the bytes that this rests on.
-/

import WalOS.Boot.Tables

namespace WalOS

open Bytes Privilege

variable {sym : PmSymbols} {loader : Table} {m : Mem} {x : ℕ} {i j : Fin totalTaskCnt}

/-! ### `init_process_main` -/

theorem fillTable_outside {s : Symbols} (off : x < s.procTable ∨ s.procTable + procTableSize ≤ x)
    (entries : List (Fin totalTaskCnt)) (f : Filling) : (entries.foldl (initEntry s) f).mem x = f.mem x := by
  refine foldl_initEntry_off f fun i _ => ?_
  have first : s.procTable ≤ s.entry i := Nat.le_add_right _ _
  have last := s.entry_le i
  simp only [Spared, Symbols.field, Field.offset, processSize] at last ⊢
  omega

/-- Outside the table only four words are stored. -/
theorem initProcessMain_outside
    (off : ∀ o ∈ [PmObject.procTable, .processReady, .intReenter, .ticks, .irqTable], sym.Off o x) :
    initProcessMain sym.toSymbols m x = m x := by
  have table := off .procTable (by decide)
  have ready := off .processReady (by decide)
  have reenter := off .intReenter (by decide)
  have ticks := off .ticks (by decide)
  have irq := off .irqTable (by decide)
  simp only [PmSymbols.Off, PmSymbols.start, PmObject.size] at table ready reenter ticks irq
  rw [initProcessMain, store32_off (by omega), store32_off (by omega), store32_off (by omega),
    store32_off (by omega)]
  exact fillTable_outside table _ _

/-- The variables after some rounds. -/
theorem foldl_initEntry_variables (s : Symbols) (entries : List (Fin totalTaskCnt)) (f : Filling) :
    (entries.foldl (initEntry s) f).selectorLdt = f.selectorLdt + BitVec.ofNat 16 (entries.length * 8) ∧
      (entries.foldl (initEntry s) f).topStack =
        f.topStack - BitVec.ofNat 32 (entries.length * 0x8000) := by
  induction entries generalizing f with
  | nil =>
    rw [List.length_nil, Nat.zero_mul]
    exact ⟨(BitVec.add_zero _).symm, (BitVec.sub_zero _).symm⟩
  | cons i entries ih =>
    obtain ⟨selector, stack⟩ := ih (initEntry s f i)
    have selectorLdt : (initEntry s f i).selectorLdt = f.selectorLdt + 8#16 := rfl
    have topStack : (initEntry s f i).topStack = f.topStack - 0x8000#32 := rfl
    rw [List.foldl_cons, List.length_cons, selector, stack, selectorLdt, topStack, Nat.succ_mul,
      Nat.succ_mul, Nat.add_comm, BitVec.ofNat_add, BitVec.add_assoc, Nat.add_comm, BitVec.ofNat_add,
      BitVec.sub_sub]
    exact ⟨rfl, rfl⟩

theorem finRange_split {n : ℕ} (i : Fin n) : ∃ before behind : List (Fin n),
    List.finRange n = before ++ i :: behind ∧ before.length = i ∧ i ∉ behind := by
  have inside : (i : ℕ) < (List.finRange n).length := by
    rw [List.length_finRange]
    exact i.isLt
  have split : List.finRange n = (List.finRange n).take i ++ i :: (List.finRange n).drop (i + 1) := by
    conv_lhs => rw [← List.take_append_drop i (List.finRange n), List.drop_eq_getElem_cons inside]
    rw [List.getElem_finRange]
    rfl
  refine ⟨_, _, split, List.length_take_of_le inside.le, fun later => ?_⟩
  have nodup := List.nodup_finRange n
  rw [split] at nodup
  exact (List.nodup_cons.mp (List.nodup_append.mp nodup).2.1).1 later

/-- **The round of an entry.** -/
theorem fillTable_round (s : Symbols) (m : Mem) (i : Fin totalTaskCnt) :
    ∃ f : Filling, f.selectorLdt = selectorLdtFirst + BitVec.ofNat 16 (i * 8) ∧
      f.topStack = s.taskStack + stackSize - BitVec.ofNat 32 (i * 0x8000) ∧
      (∀ x, x < s.procTable ∨ s.procTable + procTableSize ≤ x → f.mem x = m x) ∧
      ∀ offset < processSize,
        fillTable s m (s.entry i + offset) = (initEntry s f i).mem (s.entry i + offset) := by
  obtain ⟨before, behind, split, length, fresh⟩ := finRange_split i
  obtain ⟨selector, stack⟩ :=
    foldl_initEntry_variables s before ⟨m, s.taskStack + stackSize, selectorLdtFirst⟩
  rw [length] at selector stack
  refine ⟨_, selector, stack, fun x off => fillTable_outside off before _, fun offset inside => ?_⟩
  rw [fillTable, split, List.foldl_append, List.foldl_cons]
  refine foldl_initEntry_off _ fun k later => ?_
  have other : k ≠ i := fun same => fresh (same ▸ later)
  exact spared_of_ne other inside

/-! ### The fields of an entry -/

/-- The words that tell where a process starts. -/
theorem initEntry_start (s : Symbols) (f : Filling) (i : Fin totalTaskCnt) :
    load32 (initEntry s f i).mem (s.field i .esp) = f.topStack ∧
      load32 (initEntry s f i).mem (s.field i .eip) = s.initEip i ∧
      load32 (initEntry s f i).mem (s.field i .eflags) = (ringOf i).eflags ∧
      load16 (initEntry s f i).mem (s.field i .ldtSel) = f.selectorLdt := by
  have short := strlen_taskName_lt i
  simp only [initEntry, Symbols.task, Symbols.ldt, Symbols.field, Field.offset, attr1]
  refine ⟨?_, ?_, ?_, ?_⟩
  · simp (disch := omega) only [load32_store32_off, load32_store32]
  · simp (disch := omega) only [load32_store32_off, load32_store32]
  · simp (disch := omega) only [load32_store32_off, load32_store32]
  · unfold load16
    simp (disch := omega) only [store32_off, store8_off, copyBytes_off]
    exact store16_bytes _ _ _

/-- The descriptors of a process are those of the kernel, at the level of its ring. -/
theorem initEntry_ldt (s : Symbols) (f : Filling) (i : Fin totalTaskCnt)
    (apart : s.gdt + 24 ≤ s.procTable ∨ s.procTable + procTableSize ≤ s.gdt) :
    TableEntry.read (initEntry s f i).mem (s.ldt i 0) =
        (TableEntry.read f.mem (s.gdt + 8)).withAccess (daC ||| (ringOf i).privilege <<< 5) ∧
      TableEntry.read (initEntry s f i).mem (s.ldt i 1) =
        (TableEntry.read f.mem (s.gdt + 16)).withAccess (daDrw ||| (ringOf i).privilege <<< 5) := by
  have short := strlen_taskName_lt i
  have last := s.entry_le i
  have first : s.procTable ≤ s.entry i := Nat.le_add_right _ _
  have code : selectorKernelCs >>> 3 * 8 = 8 := rfl
  have data : selectorKernelDs >>> 3 * 8 = 16 := rfl
  simp only [processSize] at last
  have bytes : ∀ k < 8, k ≠ 5 →
      (initEntry s f i).mem (s.ldt i 0 + k) = f.mem (s.gdt + 8 + k) ∧
        (initEntry s f i).mem (s.ldt i 1 + k) = f.mem (s.gdt + 16 + k) := by
    intro k inside other
    simp only [initEntry, Symbols.task, Symbols.ldt, Symbols.field, Field.offset, attr1, code, data]
    constructor
    · simp (disch := omega) only [store32_off, store8_off, copyBytes_off]
      rw [copyBytes_at (by omega) inside]
      simp (disch := omega) only [store32_off, store16_off, strcpy_off]
    · simp (disch := omega) only [store32_off, store8_off]
      rw [copyBytes_at (by omega) inside]
      simp (disch := omega) only [store32_off, store16_off, store8_off, copyBytes_off, strcpy_off]
  have access : (initEntry s f i).mem (s.ldt i 0 + 5) = daC ||| (ringOf i).privilege <<< 5 ∧
      (initEntry s f i).mem (s.ldt i 1 + 5) = daDrw ||| (ringOf i).privilege <<< 5 := by
    have stored : ∀ (m : Mem) (addr : ℕ) (value : BitVec 8), store8 m addr value addr = value := by
      intro m addr value
      exact Function.update_self _ _ _
    simp only [initEntry, Symbols.task, Symbols.ldt, Symbols.field, Field.offset, attr1, code, data]
    constructor
    · simp (disch := omega) only [store32_off, store8_off, copyBytes_off]
      exact stored _ _ _
    · simp (disch := omega) only [store32_off]
      exact stored _ _ _
  exact ⟨TableEntry.read_withAccess (fun k inside other => (bytes k inside other).1) access.1,
    TableEntry.read_withAccess (fun k inside other => (bytes k inside other).2) access.2⟩

/-! ### The state of boot -/

/-- A segment of 4 GB from address 0. -/
def flatEntry (access : BitVec 8) : TableEntry := ⟨0xff, 0xff, 0, 0, 0, access, 0xcf, 0⟩

/-- The video memory, for everybody. -/
def videoEntry : TableEntry := ⟨0xff, 0xff, 0, 0x80, 0x0b, 0xf2, 0, 0⟩

/-- The copied entries. -/
def copiedEntry : ℕ → TableEntry
  | 0 => ⟨0, 0, 0, 0, 0, 0, 0, 0⟩
  | 1 => flatEntry 0x9a
  | 2 => flatEntry 0x92
  | _ => videoEntry

/-- The descriptors of a process. -/
def ldtEntry (i : Fin totalTaskCnt) : ℕ → TableEntry
  | 0 => flatEntry (daC ||| (ringOf i).privilege <<< 5)
  | _ => flatEntry (daDrw ||| (ringOf i).privilege <<< 5)

/-- **The tables when the first process starts**, in memory that was `m` when the kernel started. -/
structure Protects (sym : PmSymbols) (m m' : Mem) : Prop where
  gdtr : lgdtw m' sym.gdtPtr = ⟨sym.gdt, 1023⟩
  idtr : lgdtw m' sym.idtPtr = ⟨sym.idt, 2047⟩
  copied : ∀ k < 4, TableEntry.read m' (sym.gdt + k * 8) = copiedEntry k
  tss : TableEntry.read m' (sym.gdt + indexTss * 8) =
    (descriptorEntry (BitVec.ofNat 32 sym.tss) 107 da386Tss).withAccess 0x8b
  ldts : ∀ i : Fin totalTaskCnt, TableEntry.read m' (sym.gdt + (indexLdtFirst + i) * 8) =
    descriptorEntry (BitVec.ofNat 32 (sym.field i .ldt)) 15 daLdt
  rest : ∀ k, 12 ≤ k → k < gdtSize →
    TableEntry.read m' (sym.gdt + k * 8) = TableEntry.read m (sym.gdt + k * 8)
  exceptions : ∀ v : Fin 20, TableEntry.read m' (sym.idt + v * 8) =
    gateEntry (sym.exception v) (exceptionPrivilege v)
  hwInts : ∀ irq : Fin 16, TableEntry.read m' (sym.idt + (vectorIrq0 + irq) * 8) =
    gateEntry (sym.hwInt irq) priKrnl
  sysCall : TableEntry.read m' (sym.idt + vectorSysCall * 8) = gateEntry sym.sysCall priUser
  otherGates : ∀ v < idtSize, 20 ≤ v → (v < vectorIrq0 ∨ vectorIrq0 + 16 ≤ v) → v ≠ vectorSysCall →
    TableEntry.read m' (sym.idt + v * 8) = TableEntry.read m (sym.idt + v * 8)
  ldtSel : ∀ i, load16 m' (sym.field i .ldtSel) = selectorLdtFirst + BitVec.ofNat 16 (i * 8)
  ldt : ∀ i, ∀ k < 2, TableEntry.read m' (sym.ldt i k) = ldtEntry i k

/-- Entries that are in memory as a list of bytes. -/
theorem read_loaderGdt {addr : ℕ} (same : ∀ k (inside : k < loaderGdt.length), m (addr + k) = loaderGdt[k])
    {k : ℕ} (inside : k < 4) : TableEntry.read m (addr + k * 8) = copiedEntry k := by
  have length := loaderGdt_length
  have at_ : ∀ b < 8, m (addr + k * 8 + b) = loaderGdt[k * 8 + b]?.getD 0 := by
    intro b small
    rw [Nat.add_assoc, same (k * 8 + b) (by omega), List.getElem?_eq_getElem (by omega)]
    rfl
  unfold TableEntry.read
  rw [show m (addr + k * 8) = _ from at_ 0 (by omega), at_ 1 (by omega), at_ 2 (by omega),
    at_ 3 (by omega), at_ 4 (by omega), at_ 5 (by omega), at_ 6 (by omega), at_ 7 (by omega)]
  have table : ∀ k < 4, TableEntry.mk (loaderGdt[k * 8 + 0]?.getD 0) (loaderGdt[k * 8 + 1]?.getD 0)
      (loaderGdt[k * 8 + 2]?.getD 0) (loaderGdt[k * 8 + 3]?.getD 0) (loaderGdt[k * 8 + 4]?.getD 0)
      (loaderGdt[k * 8 + 5]?.getD 0) (loaderGdt[k * 8 + 6]?.getD 0) (loaderGdt[k * 8 + 7]?.getD 0) =
        copiedEntry k := by decide
  exact table k inside

/-- The addresses of a table entry of boot are off what `init_process_main` stores. -/
theorem initProcessMain_object (placed : sym.Placed) {o : PmObject} (on : sym.On o x)
    (table : o = .gdt ∨ o = .idt ∨ o = .tss ∨ o = .gdtPtr ∨ o = .idtPtr) :
    initProcessMain sym.toSymbols m x = m x := by
  refine initProcessMain_outside fun b member => placed.off (fun same => ?_) on
  subst same
  rcases table with rfl | rfl | rfl | rfl | rfl <;> simp at member

theorem bootKernelMem_entry (placed : sym.Placed) {o : PmObject} (table : o = .gdt ∨ o = .idt) {k : ℕ}
    (inside : k * 8 + 8 ≤ o.size) : TableEntry.read (bootKernelMem sym loader m) (sym.start o + k * 8) =
      TableEntry.read (startKernel sym loader m) (sym.start o + k * 8) := by
  refine TableEntry.read_congr fun b small => ?_
  have on : sym.On o (sym.start o + k * 8 + b) := ⟨by omega, by omega⟩
  exact initProcessMain_object placed on (by rcases table with rfl | rfl <;> simp)

/-- The pointers stay as the first half of `init_pm_env` sets them. -/
theorem bootKernelMem_pointer (placed : sym.Placed) {o : PmObject} (pointer : o = .gdtPtr ∨ o = .idtPtr) :
    lgdtw (bootKernelMem sym loader m) (sym.start o) =
      lgdtw (prepareTables sym (sgdtw loader sym.gdtPtr m)) (sym.start o) := by
  refine lgdtw_congr fun k small => ?_
  have size : o.size = 6 := by rcases pointer with rfl | rfl <;> rfl
  have on : sym.On o (sym.start o + k) := ⟨by omega, by omega⟩
  have apart : ∀ b ∈ [PmObject.gdt, .idt, .tss, .irqTable], sym.Off b (sym.start o + k) := by
    refine fun b member => placed.off (fun same => ?_) on
    subst same
    rcases pointer with rfl | rfl <;> simp at member
  have gdt : sym.start o + k < sym.gdt ∨ sym.gdt + 1024 ≤ sym.start o + k := apart .gdt (by decide)
  have tss := apart .tss (by decide)
  rw [bootKernelMem, initProcessMain_object placed on (by rcases pointer with rfl | rfl <;> simp),
    startKernel_eq, ltr_off (by omega), initTss_off tss (by omega), initLdtDescs_off (by omega), filledIdt,
    idts_off (apart .idt (by decide)) (apart .irqTable (by decide))]

/-- The fields of an entry of `proc_table`. -/
theorem bootKernelMem_process (sym : PmSymbols) (loader : Table) (m : Mem) (i : Fin totalTaskCnt) :
    ∃ f : Filling, f.selectorLdt = selectorLdtFirst + BitVec.ofNat 16 (i * 8) ∧
      f.topStack = sym.taskStack + stackSize - BitVec.ofNat 32 (i * 0x8000) ∧
      (∀ x, sym.Off .procTable x → f.mem x = startKernel sym loader m x) ∧
      ∀ offset < processSize, bootKernelMem sym loader m (sym.entry i + offset) =
        (initEntry sym.toSymbols f i).mem (sym.entry i + offset) := by
  obtain ⟨f, selector, stack, outside, here⟩ := fillTable_round sym.toSymbols (startKernel sym loader m) i
  refine ⟨f, selector, stack, outside, fun offset inside => ?_⟩
  rw [bootKernelMem, initProcessMain_onTable (onTable_entry sym.toSymbols i inside), here offset inside]

/-- Where a process starts. -/
theorem bootKernelMem_fields (sym : PmSymbols) (loader : Table) (m : Mem) (i : Fin totalTaskCnt) :
    load16 (bootKernelMem sym loader m) (sym.field i .ldtSel) =
        selectorLdtFirst + BitVec.ofNat 16 (i * 8) ∧
      load32 (bootKernelMem sym loader m) (sym.field i .esp) =
        sym.taskStack + stackSize - BitVec.ofNat 32 (i * 0x8000) ∧
      load32 (bootKernelMem sym loader m) (sym.field i .eip) = sym.initEip i ∧
      load32 (bootKernelMem sym loader m) (sym.field i .eflags) = (ringOf i).eflags := by
  obtain ⟨f, selector, stack, -, here⟩ := bootKernelMem_process sym loader m i
  obtain ⟨esp, eip, eflags, ldtSel⟩ := initEntry_start sym.toSymbols f i
  have word : ∀ field : Field, field.offset + 4 ≤ processSize →
      load32 (bootKernelMem sym loader m) (sym.field i field) =
        load32 (initEntry sym.toSymbols f i).mem (sym.field i field) := by
    refine fun field room => load32_congr fun k bound => ?_
    rw [Symbols.field, Nat.add_assoc]
    exact here _ (by omega)
  refine ⟨?_, (word .esp (by decide)).trans (esp.trans stack), (word .eip (by decide)).trans eip,
    (word .eflags (by decide)).trans eflags⟩
  rw [← selector, ← ldtSel]
  refine load16_congr (here _ (by decide)) ?_
  rw [Symbols.field, Nat.add_assoc]
  exact here _ (by decide)

theorem bootKernelMem_ldt (placed : sym.Placed) (there : LoaderTable sym loader m) (i : Fin totalTaskCnt) :
    ∀ k < 2, TableEntry.read (bootKernelMem sym loader m) (sym.ldt i k) = ldtEntry i k := by
  obtain ⟨f, -, -, outside, here⟩ := bootKernelMem_process sym loader m i
  have apart := placed.apart .gdt .procTable (by decide)
  simp only [PmSymbols.start, PmObject.size, gdtSize, descriptorSize] at apart
  obtain ⟨code, data⟩ := initEntry_ldt sym.toSymbols f i (by omega)
  have copied : ∀ k < 4, TableEntry.read f.mem (sym.gdt + k * 8) = copiedEntry k := by
    refine fun k small => read_loaderGdt (fun b inside => ?_) small
    have short : b < 32 := loaderGdt_length ▸ inside
    rw [outside _ (placed.off (by decide) (on_gdt (by omega)))]
    exact startKernel_copied placed there inside
  have stored : ∀ k < 2, TableEntry.read (bootKernelMem sym loader m) (sym.ldt i k) =
      TableEntry.read (initEntry sym.toSymbols f i).mem (sym.ldt i k) := by
    intro k small
    refine TableEntry.read_congr fun b inside => ?_
    simp only [Symbols.ldt, Symbols.field, Nat.add_assoc]
    refine here _ ?_
    simp only [Field.offset, processSize]
    omega
  intro k small
  rw [stored k small]
  obtain rfl | rfl : k = 0 ∨ k = 1 := by omega
  · rw [code, show TableEntry.read f.mem (sym.gdt + 8) = _ from copied 1 (by omega)]
    rfl
  · rw [data, show TableEntry.read f.mem (sym.gdt + 16) = _ from copied 2 (by omega)]
    rfl

/-- **The tables that boot leaves.** -/
theorem boot_protects (placed : sym.Placed) (there : LoaderTable sym loader m) :
    Protects sym m (bootKernelMem sym loader m) := by
  obtain ⟨gdtr, idtr⟩ := prepareTables_pointers placed (sgdtw loader sym.gdtPtr m)
  have gdt : ∀ k < 128, TableEntry.read (bootKernelMem sym loader m) (sym.gdt + k * 8) =
      TableEntry.read (startKernel sym loader m) (sym.gdt + k * 8) := fun k inside =>
    bootKernelMem_entry placed (o := .gdt) (Or.inl rfl)
      (by simp only [PmObject.size, gdtSize, descriptorSize]; omega)
  have idt : ∀ v < 256, TableEntry.read (bootKernelMem sym loader m) (sym.idt + v * 8) =
      TableEntry.read (startKernel sym loader m) (sym.idt + v * 8) := fun v inside =>
    bootKernelMem_entry placed (o := .idt) (Or.inr rfl)
      (by simp only [PmObject.size, idtSize, descriptorSize]; omega)
  constructor
  case gdtr => exact (bootKernelMem_pointer placed (o := .gdtPtr) (Or.inl rfl)).trans gdtr
  case idtr => exact (bootKernelMem_pointer placed (o := .idtPtr) (Or.inr rfl)).trans idtr
  case copied =>
    intro k small
    rw [gdt k (by omega)]
    exact read_loaderGdt (fun b inside => startKernel_copied placed there inside) small
  case tss => exact (gdt 4 (by decide)).trans (startKernel_tss placed there)
  case ldts =>
    intro i
    have last := i.isLt
    simp only [totalTaskCnt] at last
    exact (gdt _ (by simp only [indexLdtFirst]; omega)).trans (startKernel_ldt placed there i)
  case rest =>
    intro k behind inside
    simp only [gdtSize] at inside
    rw [gdt k inside]
    refine TableEntry.read_congr fun b small => ?_
    rw [Nat.add_assoc]
    exact startKernel_rest placed there (by omega) (by omega)
  case exceptions => exact fun v => (idt v (by omega)).trans (startKernel_exception placed v)
  case hwInts =>
    exact fun irq => (idt _ (by simp only [vectorIrq0]; omega)).trans (startKernel_hwInt placed irq)
  case sysCall => exact (idt _ (by decide)).trans (startKernel_sysCall placed)
  case otherGates =>
    intro v inside noException noIrq noCall
    exact (idt v inside).trans (startKernel_otherGate placed there inside noException noIrq noCall)
  case ldtSel => exact fun i => (bootKernelMem_fields sym loader m i).1
  case ldt => exact bootKernelMem_ldt placed there

/-! ### Later -/

/-- The bytes of the tables: the GDT and the IDT, the pointers to them, and in each process the selector
and the descriptors of its LDT. -/
def PmSymbols.TableByte (sym : PmSymbols) (x : ℕ) : Prop :=
  (∃ o ∈ [PmObject.gdt, .idt, .gdtPtr, .idtPtr], sym.On o x) ∨
    ∃ i : Fin totalTaskCnt, sym.field i .ldtSel ≤ x ∧ x < sym.field i .ldt + 16

theorem tableByte_entry {o : PmObject} (table : o = .gdt ∨ o = .idt) {k b : ℕ}
    (inside : k * 8 + 8 ≤ o.size) (small : b < 8) : sym.TableByte (sym.start o + k * 8 + b) := by
  refine Or.inl ⟨o, ?_, by omega, by omega⟩
  rcases table with rfl | rfl <;> decide

theorem tableByte_pointer {o : PmObject} (pointer : o = .gdtPtr ∨ o = .idtPtr) {b : ℕ} (small : b < 6) :
    sym.TableByte (sym.start o + b) := by
  refine Or.inl ⟨o, ?_, by omega, ?_⟩
  · rcases pointer with rfl | rfl <;> decide
  · rcases pointer with rfl | rfl <;> simp only [PmObject.size] <;> omega

/-- Whoever leaves these bytes alone leaves the tables. -/
theorem Protects.congr {m' later : Mem} (protects : Protects sym m m')
    (kept : ∀ x, sym.TableByte x → later x = m' x) : Protects sym m later := by
  have gdt : ∀ k < 128, TableEntry.read later (sym.gdt + k * 8) = TableEntry.read m' (sym.gdt + k * 8) := by
    refine fun k inside => TableEntry.read_congr fun b small => kept _ ?_
    exact tableByte_entry (o := .gdt) (Or.inl rfl)
      (by simp only [PmObject.size, gdtSize, descriptorSize]; omega) small
  have idt : ∀ v < 256, TableEntry.read later (sym.idt + v * 8) = TableEntry.read m' (sym.idt + v * 8) := by
    refine fun v inside => TableEntry.read_congr fun b small => kept _ ?_
    exact tableByte_entry (o := .idt) (Or.inr rfl)
      (by simp only [PmObject.size, idtSize, descriptorSize]; omega) small
  constructor
  case gdtr =>
    exact (lgdtw_congr fun b small => kept _ (tableByte_pointer (o := .gdtPtr) (Or.inl rfl) small)).trans
      protects.gdtr
  case idtr =>
    exact (lgdtw_congr fun b small => kept _ (tableByte_pointer (o := .idtPtr) (Or.inr rfl) small)).trans
      protects.idtr
  case copied => exact fun k small => (gdt k (by omega)).trans (protects.copied k small)
  case tss => exact (gdt 4 (by decide)).trans protects.tss
  case ldts =>
    intro i
    have last := i.isLt
    simp only [totalTaskCnt] at last
    exact (gdt _ (by simp only [indexLdtFirst]; omega)).trans (protects.ldts i)
  case rest => exact fun k behind inside => (gdt k inside).trans (protects.rest k behind inside)
  case exceptions => exact fun v => (idt v (by omega)).trans (protects.exceptions v)
  case hwInts =>
    exact fun irq => (idt _ (by simp only [vectorIrq0]; omega)).trans (protects.hwInts irq)
  case sysCall => exact (idt _ (by decide)).trans protects.sysCall
  case otherGates =>
    intro v inside noException noIrq noCall
    exact (idt v inside).trans (protects.otherGates v inside noException noIrq noCall)
  case ldtSel =>
    intro i
    have first : sym.field i .ldtSel + 2 = sym.field i .ldt := rfl
    refine (load16_congr (kept _ ?_) (kept _ ?_)).trans (protects.ldtSel i)
    · exact Or.inr ⟨i, by omega, by omega⟩
    · exact Or.inr ⟨i, by omega, by omega⟩
  case ldt =>
    intro i k small
    have first : sym.field i .ldtSel + 2 = sym.field i .ldt := rfl
    refine (TableEntry.read_congr fun b inside => kept _ ?_).trans (protects.ldt i k small)
    refine Or.inr ⟨i, ?_, ?_⟩ <;> simp only [Symbols.ldt] <;> omega

end WalOS
