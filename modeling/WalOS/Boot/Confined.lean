/-
**What the processes can reach** through the tables of boot.

The processes share all memory: a process has flat segments. What keeps it out of the kernel are its
level and the gates, as long as nobody writes the tables.

* `processTables`, `Runs` — what the processor has while a process runs.
* `Runs.find_cases`, `Runs.gate` — what a selector finds, and where an interrupt leads.
* `processes_start` — **the processor takes all that boot leaves for a process**, at the level of its ring.
* `process_interrupts`, `processes_confined` — **a process enters the kernel through three gates only**.
* `user_ports` — **the ports of a user process**: the processor finds a bitmap where the kernel put none.
* `kernel_exposed` — **a process that writes a gate enters the kernel where it likes**.
-/

import WalOS.Boot.Paging
import WalOS.Boot.Protected
import WalOS.Boot.Start

namespace WalOS

open Bytes Privilege

variable {sym : PmSymbols} {loader : Table} {m m' : Mem} {x : ℕ} {i : Fin totalTaskCnt} {t : Tables}

/-! ### The processor -/

/-- `TSS_ESP0`, and `PROC_STACK_TOP`. -/
def tssEsp0 : ℕ := 4
def procStackTop : ℕ := 72

/-- What `restart_process` stores. -/
def storeEsp0 (sym : PmSymbols) (i : Fin totalTaskCnt) (m : Mem) : Mem :=
  store32 m (sym.tss + tssEsp0) (BitVec.ofNat 32 (sym.entry i + procStackTop))

/-- **The tables of the processor** while a process runs: `_start` loads GDTR and IDTR,
`restart_process` LDTR. -/
def processTables (sym : PmSymbols) (m : Mem) (i : Fin totalTaskCnt) : Tables :=
  let m := storeEsp0 sym i m
  let t : Tables := ⟨m, lgdtw m sym.gdtPtr, ⟨0, 0⟩, lgdtw m sym.idtPtr⟩
  { t with ldt := (t.localTable (load16 m (sym.field i .ldtSel))).getD ⟨0, 0⟩ }

/-- The level of a process. -/
def levelOf (i : Fin totalTaskCnt) : ℕ := (ringOf i).rpl.toNat

/-- **A process runs** on the tables of boot. -/
structure Runs (sym : PmSymbols) (m : Mem) (i : Fin totalTaskCnt) (t : Tables) : Prop where
  gdt : t.gdt = ⟨sym.gdt, 1023⟩
  ldt : t.ldt = ⟨sym.field i .ldt, 15⟩
  idt : t.idt = ⟨sym.idt, 2047⟩
  tables : Protects sym m t.mem

/-- What boot does not set is not present. -/
structure Unused (sym : PmSymbols) (m : Mem) : Prop where
  gdt : ∀ k, 12 ≤ k → k < gdtSize → (TableEntry.read m (sym.gdt + k * 8)).present = false
  idt : ∀ v < idtSize, 20 ≤ v → (v < vectorIrq0 ∨ vectorIrq0 + 16 ≤ v) → v ≠ vectorSysCall →
    (TableEntry.read m (sym.idt + v * 8)).present = false

/-! ### A kernel -/

/-- A kernel with its tables in front of `proc_table`. -/
def kernelTables : PmSymbols where
  toSymbols := kernelSymbols
  idt := 0x3c000
  tss := 0x3d000
  gdtPtr := 0x3e000
  idtPtr := 0x3e008
  exception v := BitVec.ofNat 32 (0x33000 + v * 16)
  hwInt irq := BitVec.ofNat 32 (0x34000 + irq * 16)
  sysCall := 0x35000
  dummyIrqHandler := 0x36000

/-- The GDT of the loader, and memory that is 0 but for it. -/
def loaderTable : Table := ⟨0x90100, 31⟩
def loaderMem : Mem := fun x => loaderGdt[x - 0x90100]?.getD 0

theorem kernelTables_placed : kernelTables.Placed where
  apart a b other := by
    revert other
    cases a <;> cases b <;> decide
  low o := by cases o <;> decide

theorem loaderMem_there : LoaderTable kernelTables loaderTable loaderMem where
  limit := rfl
  low := by decide
  apart o := by cases o <;> decide
  bytes k inside := by
    rw [loaderMem, loaderTable, Nat.add_sub_cancel_left, List.getElem?_eq_getElem inside]
    rfl

theorem loaderMem_low (low : x ≤ 0x90100) : loaderMem x = 0 := by
  rw [loaderMem, Nat.sub_eq_zero_of_le low]
  decide

theorem loaderMem_unused : Unused kernelTables loaderMem where
  gdt k _ inside := by
    have low : kernelTables.gdt + k * 8 + 5 ≤ 0x90100 := by
      have start : kernelTables.gdt = 0x3b000 := rfl
      simp only [gdtSize] at inside
      omega
    rw [TableEntry.present, TableEntry.read, loaderMem_low low]
    exact BitVec.getLsbD_zero
  idt v inside _ _ _ := by
    have low : kernelTables.idt + v * 8 + 5 ≤ 0x90100 := by
      have start : kernelTables.idt = 0x3c000 := rfl
      simp only [idtSize] at inside
      omega
    rw [TableEntry.present, TableEntry.read, loaderMem_low low]
    exact BitVec.getLsbD_zero

/-! ### Loading LDTR -/

theorem tableByte_offTss (placed : sym.Placed) (byte : sym.TableByte x) : sym.Off .tss x := by
  rcases byte with ⟨o, member, on⟩ | ⟨i, low, high⟩
  · refine placed.off (fun same => ?_) on
    subst same
    simp at member
  · refine placed.off (a := .procTable) (by decide) ?_
    have last := sym.entry_le i
    have first : sym.procTable ≤ sym.entry i := Nat.le_add_right _ _
    simp only [Symbols.field, Field.offset, processSize] at low high last
    exact ⟨by simp only [PmSymbols.start]; omega, by simp only [PmSymbols.start, PmObject.size]; omega⟩

theorem storeEsp0_tables (placed : sym.Placed) (protects : Protects sym m m') :
    Protects sym m (storeEsp0 sym i m') := by
  refine protects.congr fun x byte => store32_off ?_
  have off := tableByte_offTss placed byte
  simp only [PmSymbols.Off, PmSymbols.start, PmObject.size, tssSize] at off
  simp only [tssEsp0]
  omega

theorem descriptorEntry_base (base limit : BitVec 32) (attr : BitVec 16) :
    (descriptorEntry base limit attr).base = base := word_extract base

theorem ldtDescriptor (base : BitVec 32) :
    (descriptorEntry base 15 daLdt).present = true ∧ (descriptorEntry base 15 daLdt).kind = .ldt ∧
      (descriptorEntry base 15 daLdt).limit = 15 := by
  obtain ⟨present, -, kind⟩ := TableEntry.access_congr
    (show (descriptorEntry base 15 daLdt).b5 = (descriptorEntry 0 15 daLdt).b5 from rfl)
  have limit : (descriptorEntry base 15 daLdt).limit = (descriptorEntry 0 15 daLdt).limit :=
    TableEntry.limit_congr rfl rfl rfl
  rw [present, kind, limit]
  decide

theorem tssDescriptor {base : BitVec 32} :
    ((descriptorEntry base 107 da386Tss).withAccess 0x8b).kind = .tss true ∧
      ((descriptorEntry base 107 da386Tss).withAccess 0x8b).limit = 107 := by
  obtain ⟨-, -, kind⟩ := TableEntry.access_congr
    (show ((descriptorEntry base 107 da386Tss).withAccess 0x8b).b5 =
      ((descriptorEntry 0 107 da386Tss).withAccess 0x8b).b5 from rfl)
  have limit : ((descriptorEntry base 107 da386Tss).withAccess 0x8b).limit =
      ((descriptorEntry 0 107 da386Tss).withAccess 0x8b).limit := TableEntry.limit_congr rfl rfl rfl
  rw [kind, limit]
  decide

/-- The selectors of the LDTs. -/
theorem ldtSelector : ∀ i : Fin totalTaskCnt,
    let selector := selectorLdtFirst + BitVec.ofNat 16 (i * 8)
    4 ≤ selector.toNat ∧ isLocal selector = false ∧ index selector = indexLdtFirst + i := by
  decide

theorem processTables_runs (placed : sym.Placed) (protects : Protects sym m m') :
    Runs sym m i (processTables sym m' i) := by
  have tables : Protects sym m (storeEsp0 sym i m') := storeEsp0_tables placed protects
  refine ⟨tables.gdtr, ?_, tables.idtr, tables⟩
  obtain ⟨someEntry, global, place⟩ := ldtSelector i
  have last := i.isLt
  have low := placed.low .procTable
  have inTable := sym.entry_le i
  simp only [totalTaskCnt, PmSymbols.start, PmObject.size, processSize] at last low inTable
  have base : (BitVec.ofNat 32 (sym.field i .ldt)).toNat = sym.field i .ldt := by
    rw [BitVec.toNat_ofNat]
    simp only [Symbols.field, Field.offset]
    omega
  have found : Tables.find ⟨storeEsp0 sym i m', ⟨sym.gdt, 1023⟩, ⟨0, 0⟩, ⟨sym.idt, 2047⟩⟩
      (selectorLdtFirst + BitVec.ofNat 16 (i * 8)) =
        some (descriptorEntry (BitVec.ofNat 32 (sym.field i .ldt)) 15 daLdt) := by
    rw [Tables.find, if_neg (by omega), global, place, if_neg Bool.false_ne_true]
    refine (Tables.entry_eq (by simp only [indexLdtFirst]; omega)).trans ?_
    exact congrArg some (tables.ldts i)
  unfold processTables
  dsimp only
  rw [tables.gdtr, tables.idtr, tables.ldtSel, Tables.localTable, found, global]
  obtain ⟨present, kind, limit⟩ := ldtDescriptor (BitVec.ofNat 32 (sym.field i .ldt))
  rw [Option.filter_some, present, kind, if_pos (by decide), Option.map_some, Option.getD_some,
    TableEntry.table, descriptorEntry_base, base, limit]

/-! ### Selectors -/

/-- The entries of the GDT. -/
theorem Protects.gdt_cases (protects : Protects sym m m') {k : ℕ} (inside : k < gdtSize) :
    (∃ j < 4, TableEntry.read m' (sym.gdt + k * 8) = copiedEntry j) ∨
      (TableEntry.read m' (sym.gdt + k * 8) =
        (descriptorEntry (BitVec.ofNat 32 sym.tss) 107 da386Tss).withAccess 0x8b) ∨
      (∃ j : Fin totalTaskCnt, TableEntry.read m' (sym.gdt + k * 8) =
        descriptorEntry (BitVec.ofNat 32 (sym.field j .ldt)) 15 daLdt) ∨
      12 ≤ k ∧ TableEntry.read m' (sym.gdt + k * 8) = TableEntry.read m (sym.gdt + k * 8) := by
  rcases Nat.lt_or_ge k 4 with copied | more
  · exact Or.inl ⟨k, copied, protects.copied k copied⟩
  · rcases Nat.lt_or_ge k 5 with isTss | more
    · obtain rfl : k = indexTss := by simp only [indexTss]; omega
      exact Or.inr (Or.inl protects.tss)
    · rcases Nat.lt_or_ge k 12 with isLdt | rest
      · have place : k - 5 < totalTaskCnt := by simp only [totalTaskCnt]; omega
        have same : k = indexLdtFirst + (⟨k - 5, place⟩ : Fin totalTaskCnt) := by
          simp only [indexLdtFirst]
          omega
        rw [same]
        exact Or.inr (Or.inr (Or.inl ⟨_, protects.ldts _⟩))
      · exact Or.inr (Or.inr (Or.inr ⟨rest, protects.rest k rest inside⟩))

/-- What a selector finds. -/
theorem Runs.find_cases (runs : Runs sym m i t) {selector : BitVec 16} {e : TableEntry}
    (found : t.find selector = some e) :
    (∃ k < 2, e = ldtEntry i k) ∨ (∃ k < 4, e = copiedEntry k) ∨
      (e = (descriptorEntry (BitVec.ofNat 32 sym.tss) 107 da386Tss).withAccess 0x8b) ∨
      (∃ j : Fin totalTaskCnt, e = descriptorEntry (BitVec.ofNat 32 (sym.field j .ldt)) 15 daLdt) ∨
      ∃ k, 12 ≤ k ∧ k < gdtSize ∧ e = TableEntry.read m (sym.gdt + k * 8) := by
  rw [Tables.find] at found
  split at found
  · cases found
  · cases side : isLocal selector
    · rw [side, if_neg (by decide), runs.gdt] at found
      rcases Nat.lt_or_ge 127 (index selector) with outside | inside
      · rw [Tables.entry_none (by dsimp only; omega)] at found
        cases found
      · rw [Tables.entry_eq (by dsimp only; omega)] at found
        obtain rfl := Option.some.inj found
        have small : index selector < gdtSize := by simp only [gdtSize]; omega
        refine Or.inr ?_
        rcases runs.tables.gdt_cases small with copied | tss | ldt | ⟨rest, same⟩
        · exact Or.inl copied
        · exact Or.inr (Or.inl tss)
        · exact Or.inr (Or.inr (Or.inl ldt))
        · exact Or.inr (Or.inr (Or.inr ⟨_, rest, small, same⟩))
    · rw [side, if_pos rfl, runs.ldt] at found
      rcases Nat.lt_or_ge 1 (index selector) with outside | inside
      · rw [Tables.entry_none (by dsimp only; omega)] at found
        cases found
      · rw [Tables.entry_eq (by dsimp only; omega)] at found
        obtain rfl := Option.some.inj found
        exact Or.inl ⟨_, by omega, runs.tables.ldt i _ (by omega)⟩

/-- The code segment of the kernel. -/
theorem find_kernelCs (gdt : t.gdt = ⟨sym.gdt, 1023⟩)
    (code : TableEntry.read t.mem (sym.gdt + 1 * 8) = copiedEntry 1) :
    t.find (BitVec.ofNat 16 selectorKernelCs) = some (copiedEntry 1) := by
  have place : index (BitVec.ofNat 16 selectorKernelCs) = 1 := by decide
  have global : isLocal (BitVec.ofNat 16 selectorKernelCs) = false := by decide
  rw [Tables.find, if_neg (by decide), global, if_neg (by decide), gdt, place]
  exact (Tables.entry_eq (by dsimp only; omega)).trans (congrArg some code)

theorem Runs.find_kernelCs (runs : Runs sym m i t) :
    t.find (BitVec.ofNat 16 selectorKernelCs) = some (copiedEntry 1) :=
  WalOS.find_kernelCs runs.gdt (runs.tables.copied 1 (by decide))

/-! ### Gates -/

theorem gateEntry_offset (handler : BitVec 32) (privilege : BitVec 8) :
    (gateEntry handler privilege).offset = handler := word_extract handler

/-- The gates of boot are interrupt gates into the kernel. -/
theorem gateEntry_access (handler : BitVec 32) :
    ((gateEntry handler priKrnl).present = true ∧ (gateEntry handler priKrnl).kind = .interruptGate ∧
      (gateEntry handler priKrnl).level = 0) ∧
    (gateEntry handler priUser).present = true ∧ (gateEntry handler priUser).kind = .interruptGate ∧
      (gateEntry handler priUser).level = 3 := by
  obtain ⟨present, level, kind⟩ := TableEntry.access_congr
    (show (gateEntry handler priKrnl).b5 = (gateEntry 0 priKrnl).b5 from rfl)
  obtain ⟨present', level', kind'⟩ := TableEntry.access_congr
    (show (gateEntry handler priUser).b5 = (gateEntry 0 priUser).b5 from rfl)
  rw [present, level, kind, present', level', kind']
  decide

/-- Through a gate of boot. -/
theorem through_gate (kernelCs : t.find (BitVec.ofNat 16 selectorKernelCs) = some (copiedEntry 1))
    (cpl : ℕ) (handler : BitVec 32) (privilege : BitVec 8) :
    t.through cpl (gateEntry handler privilege) = .enters handler 0 := by
  have kernel : (gateEntry handler privilege).target = BitVec.ofNat 16 selectorKernelCs := by
    show (0x00 ++ 0x08 : BitVec 16) = BitVec.ofNat 16 selectorKernelCs
    decide
  have code : (copiedEntry 1).present = true ∧ (copiedEntry 1).level = 0 ∧
      (copiedEntry 1).kind = .code false true := by decide
  obtain ⟨present, level, kind⟩ := code
  rw [Tables.through, kernel, kernelCs]
  dsimp only
  rw [present, level, kind, if_neg (by simp), gateEntry_offset]

/-- **An interrupt through a gate of boot** enters the kernel at its handler, from every level; code asks
for it if the gate is for its level. -/
theorem interrupt_gate (kernelCs : t.find (BitVec.ofNat 16 selectorKernelCs) = some (copiedEntry 1))
    {v : ℕ} {handler : BitVec 32} {privilege : BitVec 8} (known : privilege = priKrnl ∨ privilege = priUser)
    (found : t.entry t.idt v = some (gateEntry handler privilege)) (cpl : ℕ) :
    t.interrupt cpl v = .enters handler 0 ∧
      t.softInt cpl v = if (gateEntry handler privilege).level < cpl then .fault else .enters handler 0 := by
  have access : (gateEntry handler privilege).present = true ∧
      (gateEntry handler privilege).kind = .interruptGate := by
    obtain ⟨⟨present, kind, -⟩, present', kind', -⟩ := gateEntry_access handler
    rcases known with rfl | rfl
    · exact ⟨present, kind⟩
    · exact ⟨present', kind'⟩
  have entered : t.interrupt cpl v = .enters handler 0 := by
    rw [Tables.interrupt, found]
    dsimp only
    rw [access.1, access.2, if_neg (by simp)]
    exact through_gate kernelCs cpl handler privilege
  refine ⟨entered, ?_⟩
  rw [Tables.softInt, found, entered]

theorem Runs.gate (runs : Runs sym m i t) {v : ℕ} (inside : v < 256) {handler : BitVec 32}
    {privilege : BitVec 8} (known : privilege = priKrnl ∨ privilege = priUser)
    (made : TableEntry.read t.mem (sym.idt + v * 8) = gateEntry handler privilege) (cpl : ℕ) :
    t.interrupt cpl v = .enters handler 0 ∧
      t.softInt cpl v = if (gateEntry handler privilege).level < cpl then .fault else .enters handler 0 := by
  refine interrupt_gate runs.find_kernelCs known ?_ cpl
  rw [runs.idt]
  exact (Tables.entry_eq (by dsimp only; omega)).trans (congrArg some made)

/-- There is no gate. -/
theorem Runs.noGate (runs : Runs sym m i t) {v : ℕ}
    (absent : 256 ≤ v ∨ (TableEntry.read t.mem (sym.idt + v * 8)).present = false) (cpl : ℕ) :
    t.interrupt cpl v = .fault ∧ t.softInt cpl v = .fault := by
  have none : t.interrupt cpl v = .fault := by
    rw [Tables.interrupt, runs.idt]
    rcases Nat.lt_or_ge v 256 with inside | outside
    · rw [Tables.entry_eq (by dsimp only; omega)]
      dsimp only
      rw [(absent.resolve_left (by omega) : _), if_pos (by simp)]
    · rw [Tables.entry_none (by dsimp only; omega)]
  refine ⟨none, ?_⟩
  rw [Tables.softInt, none]
  split
  · rfl
  · exact ite_self _

/-! ### Interrupts -/

theorem levelOf_known : ∀ i, 0 < levelOf i ∧ levelOf i ≤ 3 := by decide

/-- The vectors that a process may ask for. -/
def doorOf (sym : PmSymbols) (v : ℕ) : Option (BitVec 32) :=
  if v = 3 then some (sym.exception 3)
  else if v = 4 then some (sym.exception 4)
  else if v = vectorSysCall then some sym.sysCall
  else none

theorem doorOf_some {v : ℕ} {handler : BitVec 32} (door : doorOf sym v = some handler) :
    handler = sym.exception 3 ∨ handler = sym.exception 4 ∨ handler = sym.sysCall := by
  unfold doorOf at door
  split at door
  · exact Or.inl (Option.some.inj door).symm
  · split at door
    · exact Or.inr (Or.inl (Option.some.inj door).symm)
    · split at door
      · exact Or.inr (Or.inr (Option.some.inj door).symm)
      · cases door

/-- An exception, asked for. -/
theorem Runs.softException (runs : Runs sym m i t) (v : Fin 20) {cpl : ℕ} (user : 0 < cpl)
    (known : cpl ≤ 3) : t.softInt cpl v =
      if v.val = 3 ∨ v.val = 4 then .enters (sym.exception v) 0 else .fault := by
  have made := runs.tables.exceptions v
  obtain ⟨⟨-, -, kernel⟩, -, -, open3⟩ := gateEntry_access (sym.exception v)
  by_cases allowed : v.val = 3 ∨ v.val = 4
  · rw [exceptionPrivilege, if_pos allowed] at made
    rw [(runs.gate (by omega) (Or.inr rfl) made cpl).2, open3, if_neg (by omega), if_pos allowed]
  · rw [exceptionPrivilege, if_neg allowed] at made
    rw [(runs.gate (by omega) (Or.inl rfl) made cpl).2, kernel, if_pos user, if_neg allowed]

/-- An interrupt of a device, asked for. -/
theorem Runs.softHwInt (runs : Runs sym m i t) (irq : Fin 16) {cpl : ℕ} (user : 0 < cpl) :
    t.softInt cpl (vectorIrq0 + irq) = .fault := by
  obtain ⟨⟨-, -, kernel⟩, -⟩ := gateEntry_access (sym.hwInt irq)
  rw [(runs.gate (by simp only [vectorIrq0]; omega) (Or.inl rfl) (runs.tables.hwInts irq) cpl).2, kernel,
    if_pos user]

/-- **What a process may ask for.** -/
theorem Runs.softInt (runs : Runs sym m i t) (unused : Unused sym m) (v : ℕ) {cpl : ℕ} (user : 0 < cpl)
    (known : cpl ≤ 3) : t.softInt cpl v = match doorOf sym v with
      | some handler => .enters handler 0
      | none => .fault := by
  have sysCall : vectorSysCall = 144 := rfl
  have irq0 : vectorIrq0 = 32 := rfl
  rcases Nat.lt_or_ge v 20 with exception | above
  · have asked := runs.softException ⟨v, exception⟩ user known
    dsimp only at asked
    rw [asked, doorOf]
    by_cases three : v = 3
    · subst three
      rfl
    · by_cases four : v = 4
      · subst four
        rfl
      · rw [if_neg (by omega), if_neg three, if_neg four, if_neg (by omega)]
  · have noException : v ≠ 3 ∧ v ≠ 4 := by omega
    rw [doorOf, if_neg noException.1, if_neg noException.2]
    by_cases call : v = vectorSysCall
    · obtain ⟨-, -, -, open3⟩ := gateEntry_access sym.sysCall
      rw [if_pos call, call, (runs.gate (by decide) (Or.inr rfl) runs.tables.sysCall cpl).2, open3,
        if_neg (by omega)]
    · rw [if_neg call]
      by_cases irq : vectorIrq0 ≤ v ∧ v < vectorIrq0 + 16
      · have asked := runs.softHwInt ⟨v - vectorIrq0, by omega⟩ user
        rwa [show vectorIrq0 + (⟨v - vectorIrq0, by omega⟩ : Fin 16).val = v from
          Nat.add_sub_cancel' irq.1] at asked
      · refine (runs.noGate ?_ cpl).2
        rcases Nat.lt_or_ge v 256 with inside | outside
        · have noIrq : v < vectorIrq0 ∨ vectorIrq0 + 16 ≤ v := by omega
          refine Or.inr ?_
          rw [runs.tables.otherGates v inside above noIrq call]
          exact unused.idt v inside above noIrq call
        · exact Or.inl outside

/-- The tables of boot, later. -/
theorem runs_later (placed : sym.Placed) (there : LoaderTable sym loader m)
    (kept : ∀ x, sym.TableByte x → m' x = bootKernelMem sym loader m x) (i : Fin totalTaskCnt) :
    Runs sym m i (processTables sym m' i) :=
  processTables_runs placed ((boot_protects placed there).congr kept)

/-- **Where interrupts lead** while a process runs, as long as nobody writes the tables: each exception and
each IRQ enters the kernel at its handler from every level, and a process may ask for breakpoint, overflow
and the system call, and for nothing else. -/
theorem process_interrupts (placed : sym.Placed) (there : LoaderTable sym loader m) (unused : Unused sym m)
    (kept : ∀ x, sym.TableByte x → m' x = bootKernelMem sym loader m x) (i : Fin totalTaskCnt) :
    (∀ cpl, ∀ v : Fin 20, (processTables sym m' i).interrupt cpl v = .enters (sym.exception v) 0) ∧
      (∀ cpl, ∀ irq : Fin 16,
        (processTables sym m' i).interrupt cpl (vectorIrq0 + irq) = .enters (sym.hwInt irq) 0) ∧
      ∀ v, (processTables sym m' i).softInt (levelOf i) v = match doorOf sym v with
        | some handler => .enters handler 0
        | none => .fault := by
  have runs := runs_later placed there kept i
  have level := levelOf_known i
  refine ⟨fun cpl v => ?_, fun cpl irq => ?_, fun v => runs.softInt unused v level.1 level.2⟩
  · have privilege : exceptionPrivilege v = priKrnl ∨ exceptionPrivilege v = priUser := by
      unfold exceptionPrivilege
      split
      · exact Or.inr rfl
      · exact Or.inl rfl
    exact (runs.gate (by omega) privilege (runs.tables.exceptions v) cpl).1
  · exact (runs.gate (by simp only [vectorIrq0]; omega) (Or.inl rfl) (runs.tables.hwInts irq) cpl).1

theorem process_interrupts_call :
    (processTables kernelTables (bootKernelMem kernelTables loaderTable loaderMem) 4).softInt 3 0x90 =
      .enters 0x35000 0 :=
  (process_interrupts kernelTables_placed loaderMem_there loaderMem_unused (fun _ _ => rfl) 4).2.2 0x90

/-! ### Confinement -/

theorem ldtEntry_access : ∀ i, ((ldtEntry i 0).present = true ∧ (ldtEntry i 0).level = levelOf i ∧
      (ldtEntry i 0).kind = .code false false) ∧ (ldtEntry i 1).present = true ∧
      (ldtEntry i 1).level = levelOf i ∧ (ldtEntry i 1).kind = .data true ∧
      (ldtEntry i 1).base = 0 ∧ (ldtEntry i 1).limit = 2 ^ 32 - 1 := by
  decide

/-- The entries lead a process to no other level. -/
theorem Runs.tight (runs : Runs sym m i t) (unused : Unused sym m) {selector : BitVec 16} {e : TableEntry}
    (found : t.find selector = some e) : e.Tight (levelOf i) := by
  intro present
  have user := (levelOf_known i).1
  rcases runs.find_cases found with ⟨k, small, rfl⟩ | ⟨k, small, rfl⟩ | rfl | ⟨j, rfl⟩ |
    ⟨k, above, small, rfl⟩
  · obtain ⟨⟨-, level, code⟩, -, -, data, -⟩ := ldtEntry_access i
    obtain rfl | rfl : k = 0 ∨ k = 1 := by omega
    · rw [code]
      exact ⟨rfl, level.le⟩
    · rw [data]
      trivial
  · have copied : (copiedEntry 0).present = false ∧ (copiedEntry 1).kind = .code false true ∧
        (copiedEntry 1).level = 0 ∧ (copiedEntry 2).kind = .data true ∧
        (copiedEntry 3).kind = .data true := by
      decide
    obtain ⟨null, code, level, data, video⟩ := copied
    obtain rfl | rfl | rfl | rfl : k = 0 ∨ k = 1 ∨ k = 2 ∨ k = 3 := by omega
    · rw [null] at present
      cases present
    · rw [code]
      exact ⟨rfl, by omega⟩
    · rw [data]
      trivial
    · rw [video]
      trivial
  · rw [tssDescriptor.1]
    trivial
  · rw [(ldtDescriptor _).2.1]
    trivial
  · rw [unused.gdt k above small] at present
    cases present

/-- **A process is confined** to its level, as long as nobody writes the tables: whatever it tries, one
thing after the other, it goes on at its level, faults, or enters the kernel at one of three handlers. -/
theorem processes_confined (placed : sym.Placed) (there : LoaderTable sym loader m) (unused : Unused sym m)
    (kept : ∀ x, sym.TableByte x → m' x = bootKernelMem sym loader m x) (i : Fin totalTaskCnt)
    (actions : List Action) :
    ((processTables sym m' i).run actions (levelOf i)).Kept (levelOf i) fun offset level =>
      level = 0 ∧ (offset = sym.exception 3 ∨ offset = sym.exception 4 ∨ offset = sym.sysCall) := by
  have runs := runs_later placed there kept i
  have level := levelOf_known i
  refine Tables.Confines.run ⟨fun selector e found => runs.tight unused found, fun v => ?_⟩ actions
  have asked := runs.softInt unused v level.1 level.2
  cases door : doorOf sym v with
  | none =>
    rw [door] at asked
    exact Or.inl asked
  | some handler =>
    rw [door] at asked
    exact Or.inr ⟨handler, 0, asked, rfl, doorOf_some door⟩

theorem processes_confined_user :
    (processTables kernelTables (bootKernelMem kernelTables loaderTable loaderMem) 4).run
      [.loadData 0x10, .far 0x08, .softInt 0x20] (levelOf 4) ≠ .goesOn 0 := by
  have confined : ∀ i actions, (processTables kernelTables
      (bootKernelMem kernelTables loaderTable loaderMem) i).run actions (levelOf i) ≠ .goesOn 0 := by
    intro i actions free
    have kept := @processes_confined kernelTables loaderTable loaderMem _ kernelTables_placed
      loaderMem_there loaderMem_unused (fun _ _ => rfl) i actions
    rw [free] at kept
    have level : 0 = levelOf i := kept
    exact absurd level (levelOf_known i).1.ne
  exact confined 4 _

/-! ### Where a process starts -/

/-- The selector in a word of the frame of a process. -/
def frameSelector (sym : PmSymbols) (m : Mem) (i : Fin totalTaskCnt) (field : Field) : BitVec 16 :=
  (load32 m (sym.field i field)).setWidth 16

/-- The selectors that boot leaves: the two of the LDT, and the video segment. -/
def selCode (i : Fin totalTaskCnt) : BitVec 16 := BitVec.ofNat 16 (4 + levelOf i)
def selData (i : Fin totalTaskCnt) : BitVec 16 := BitVec.ofNat 16 (12 + levelOf i)
def selVideo (i : Fin totalTaskCnt) : BitVec 16 := BitVec.ofNat 16 (24 + levelOf i)

theorem frame_selectors : ∀ i : Fin totalTaskCnt,
    ((0 &&& saRplMask &&& saTiMask) ||| saTil ||| (ringOf i).rpl).setWidth 16 = selCode i ∧
      ((8 &&& saRplMask &&& saTiMask) ||| saTil ||| (ringOf i).rpl).setWidth 16 = selData i ∧
      ((selectorKernelGs &&& saRplMask) ||| (ringOf i).rpl).setWidth 16 = selVideo i := by
  decide

theorem bootKernelMem_selectors (sym : PmSymbols) (loader : Table) (m : Mem) (i : Fin totalTaskCnt) :
    frameSelector sym (bootKernelMem sym loader m) i .cs = selCode i ∧
      (∀ field ∈ [Field.ds, .es, .fs, .ss],
        frameSelector sym (bootKernelMem sym loader m) i field = selData i) ∧
      frameSelector sym (bootKernelMem sym loader m) i .gs = selVideo i := by
  obtain ⟨f, same⟩ := initProcessMain_words sym.toSymbols (startKernel sym loader m) i
  obtain ⟨-, cs, data, gs⟩ := @initEntry_words sym.toSymbols i f
  obtain ⟨code, flat, video⟩ := frame_selectors i
  refine ⟨?_, fun field member => ?_, ?_⟩
  · exact (congrArg (BitVec.setWidth 16) ((same .cs (by decide)).trans cs)).trans code
  · have room : field.offset + 4 ≤ processSize :=
      (by decide : ∀ field ∈ [Field.ds, .es, .fs, .ss], field.offset + 4 ≤ processSize) field member
    exact (congrArg (BitVec.setWidth 16) ((same field room).trans (data field member))).trans flat
  · exact (congrArg (BitVec.setWidth 16) ((same .gs (by decide)).trans gs)).trans video

/-- What these selectors find. -/
theorem Runs.find_own (runs : Runs sym m i t) : t.find (selCode i) = some (ldtEntry i 0) ∧
    t.find (selData i) = some (ldtEntry i 1) ∧ t.find (selVideo i) = some videoEntry := by
  have shape : ∀ i, (¬ (selCode i).toNat < 4 ∧ isLocal (selCode i) = true ∧ index (selCode i) = 0) ∧
      (¬ (selData i).toNat < 4 ∧ isLocal (selData i) = true ∧ index (selData i) = 1) ∧
      (¬ (selVideo i).toNat < 4 ∧ isLocal (selVideo i) = false ∧ index (selVideo i) = 3) := by
    decide
  obtain ⟨⟨code, codeSide, codeAt⟩, ⟨data, dataSide, dataAt⟩, video, videoSide, videoAt⟩ := shape i
  refine ⟨?_, ?_, ?_⟩
  · rw [Tables.find, if_neg code, codeSide, if_pos rfl, codeAt, runs.ldt]
    exact (Tables.entry_eq (by dsimp only; omega)).trans (congrArg some (runs.tables.ldt i 0 (by decide)))
  · rw [Tables.find, if_neg data, dataSide, if_pos rfl, dataAt, runs.ldt]
    exact (Tables.entry_eq (by dsimp only; omega)).trans (congrArg some (runs.tables.ldt i 1 (by decide)))
  · rw [Tables.find, if_neg video, videoSide, if_neg Bool.false_ne_true, videoAt, runs.gdt]
    exact (Tables.entry_eq (by dsimp only; omega)).trans (congrArg some (runs.tables.copied 3 (by decide)))

/-- The processor takes them. -/
theorem Runs.takes (runs : Runs sym m i t) : t.farReturn 0 (selCode i) = .goesOn (levelOf i) ∧
    t.loadStack (levelOf i) (selData i) = some (ldtEntry i 1) ∧
    t.loadData 0 (selData i) = some (ldtEntry i 1) ∧ t.loadData 0 (selVideo i) = some videoEntry := by
  obtain ⟨code, data, video⟩ := runs.find_own
  obtain ⟨⟨present, level, kind⟩, present', level', kind', -⟩ := ldtEntry_access i
  have asked : ∀ i, rpl (selCode i) = levelOf i ∧ rpl (selData i) = levelOf i ∧ rpl (selVideo i) ≤ 3 := by
    decide
  have shown : videoEntry.present = true ∧ videoEntry.kind = .data true ∧ videoEntry.level = 3 := by decide
  obtain ⟨ofCode, ofData, ofVideo⟩ := asked i
  refine ⟨?_, ?_, ?_, ?_⟩
  · rw [Tables.farReturn, code]
    dsimp only
    rw [if_neg (by simp [present]), kind, level, ofCode, if_pos rfl]
  · rw [Tables.loadStack, data, Option.filter_some, present', kind', level', ofData, if_pos (by simp)]
  · rw [Tables.loadData, data, Option.filter_some, present', kind', level', ofData, if_pos (by simp)]
  · rw [Tables.loadData, video, Option.filter_some, shown.1, shown.2.1, shown.2.2, if_pos (by simp [ofVideo])]

/-- **The only data segments** that a process can load are its own and the video memory. -/
theorem Runs.data_segments (runs : Runs sym m i t) (unused : Unused sym m) {selector : BitVec 16}
    {e : TableEntry} (loaded : t.loadData (levelOf i) selector = some e) :
    e = ldtEntry i 1 ∨ e = videoEntry := by
  obtain ⟨found, allowed⟩ := Option.filter_eq_some_iff.mp loaded
  have user := (levelOf_known i).1
  have present : e.present = true := (Bool.and_eq_true_iff.mp allowed).1
  have allowed := (Bool.and_eq_true_iff.mp allowed).2
  rcases runs.find_cases found with ⟨k, small, rfl⟩ | ⟨k, small, rfl⟩ | rfl | ⟨j, rfl⟩ |
    ⟨k, above, small, rfl⟩
  · obtain rfl | rfl : k = 0 ∨ k = 1 := by omega
    · rw [(ldtEntry_access i).1.2.2] at allowed
      cases allowed
    · exact Or.inl rfl
  · have copied : (copiedEntry 0).present = false ∧ (copiedEntry 1).kind = .code false true ∧
        (copiedEntry 1).level = 0 ∧ (copiedEntry 2).kind = .data true ∧ (copiedEntry 2).level = 0 := by
      decide
    obtain ⟨null, code, codeLevel, data, dataLevel⟩ := copied
    obtain rfl | rfl | rfl | rfl : k = 0 ∨ k = 1 ∨ k = 2 ∨ k = 3 := by omega
    · rw [null] at present
      cases present
    · rw [code, codeLevel] at allowed
      have := of_decide_eq_true allowed
      omega
    · rw [data, dataLevel] at allowed
      have := of_decide_eq_true allowed
      omega
    · exact Or.inr rfl
  · rw [tssDescriptor.1] at allowed
    cases allowed
  · rw [(ldtDescriptor _).2.1] at allowed
    cases allowed
  · rw [unused.gdt k above small] at present
    cases present

/-- **Every process starts** at its function, at the level of its ring, with flat segments and its own part
of the stack: the processor takes the frame that boot leaves for it. It can load no data segment but its own
and the video memory. -/
theorem processes_start (placed : sym.Placed) (there : LoaderTable sym loader m) (unused : Unused sym m)
    (kept : ∀ x, (sym.TableByte x ∨ (sym.entry i ≤ x ∧ x < sym.entry i + 72)) →
      m' x = bootKernelMem sym loader m x) :
    (processTables sym m' i).farReturn 0 (frameSelector sym m' i .cs) = .goesOn (levelOf i) ∧
      (processTables sym m' i).loadStack (levelOf i) (frameSelector sym m' i .ss) = some (ldtEntry i 1) ∧
      (∀ field ∈ [Field.ds, .es, .fs],
        (processTables sym m' i).loadData 0 (frameSelector sym m' i field) = some (ldtEntry i 1)) ∧
      (processTables sym m' i).loadData 0 (frameSelector sym m' i .gs) = some videoEntry ∧
      ((ldtEntry i 1).level = levelOf i ∧ (ldtEntry i 1).base = 0 ∧ (ldtEntry i 1).limit = 2 ^ 32 - 1) ∧
      (load32 m' (sym.field i .eip) = sym.initEip i ∧
        load32 m' (sym.field i .esp) = sym.taskStack + BitVec.ofNat 32 (0x8000 * (totalTaskCnt - i)) ∧
        load32 m' (sym.field i .eflags) = (ringOf i).eflags) ∧
      ∀ selector e, (processTables sym m' i).loadData (levelOf i) selector = some e →
        e = ldtEntry i 1 ∨ e = videoEntry := by
  have runs := runs_later placed there (fun x byte => kept x (Or.inl byte)) i
  obtain ⟨iret, stack, data, video⟩ := runs.takes
  obtain ⟨cs, flat, gs⟩ := bootKernelMem_selectors sym loader m i
  obtain ⟨-, esp, eip, eflags⟩ := bootKernelMem_fields sym loader m i
  obtain ⟨-, -, level, -, base, limit⟩ := ldtEntry_access i
  have word : ∀ field : Field, field.offset + 4 ≤ 72 →
      load32 m' (sym.field i field) = load32 (bootKernelMem sym loader m) (sym.field i field) := by
    refine fun field room => load32_congr fun k bound => kept _ (Or.inr ?_)
    rw [Symbols.field]
    exact ⟨by omega, by omega⟩
  have selector : ∀ field : Field, field.offset + 4 ≤ 72 →
      frameSelector sym m' i field = frameSelector sym (bootKernelMem sym loader m) i field :=
    fun field room => congrArg (BitVec.setWidth 16) (word field room)
  have top : sym.taskStack + stackSize - BitVec.ofNat 32 (i * 0x8000) =
      sym.taskStack + BitVec.ofNat 32 (0x8000 * (totalTaskCnt - i)) := by
    have part : ∀ i : Fin totalTaskCnt, stackSize - BitVec.ofNat 32 (i * 0x8000) =
        BitVec.ofNat 32 (0x8000 * (totalTaskCnt - i)) := by decide
    rw [BitVec.sub_eq_add_neg, BitVec.add_assoc, ← BitVec.sub_eq_add_neg, part]
  refine ⟨?_, ?_, fun field member => ?_, ?_, ⟨level, base, limit⟩,
    ⟨(word .eip (by decide)).trans eip, ?_, (word .eflags (by decide)).trans eflags⟩,
    fun _ _ loaded => runs.data_segments unused loaded⟩
  · rw [selector .cs (by decide), cs, iret]
  · rw [selector .ss (by decide), flat .ss (by decide), stack]
  · have known : field.offset + 4 ≤ 72 ∧ field ∈ [Field.ds, .es, .fs, .ss] :=
      (by decide : ∀ field ∈ [Field.ds, .es, .fs],
        field.offset + 4 ≤ 72 ∧ field ∈ [Field.ds, .es, .fs, .ss]) field member
    rw [selector field known.1, flat field known.2, data]
  · rw [selector .gs (by decide), gs, video]
  · rw [word .esp (by decide), esp, top]

theorem processes_start_user :
    (processTables kernelTables (bootKernelMem kernelTables loaderTable loaderMem) 4).farReturn 0
        (frameSelector kernelTables (bootKernelMem kernelTables loaderTable loaderMem) 4 .cs) = .goesOn 3 :=
  (processes_start (i := 4) kernelTables_placed loaderMem_there loaderMem_unused fun _ _ => rfl).1

/-! ### Ports -/

/-- A byte of the TSS while a process runs. -/
def tssByte (esp0 : BitVec 32) (k : ℕ) : BitVec 8 :=
  if 4 ≤ k ∧ k < 8 then esp0.extractLsb' (8 * (k - 4)) 8
  else if k = 8 then 0x10
  else if k = 104 then 0x6c
  else 0

/-- The I/O level in EFLAGS. -/
def iopl (eflags : BitVec 32) : ℕ := (eflags.extractLsb' 12 2).toNat

theorem bootKernelMem_tss (placed : sym.Placed) (loader : Table) (m : Mem) {k : ℕ} (inside : k < 108) :
    bootKernelMem sym loader m (sym.tss + k) = if k = 8 then 0x10 else if k = 104 then 0x6c else 0 := by
  have on : sym.On .tss (sym.tss + k) := on_tss inside
  have gdt : sym.tss + k < sym.gdt ∨ sym.gdt + 1024 ≤ sym.tss + k :=
    placed.off (b := .gdt) (by decide) on
  rw [bootKernelMem, initProcessMain_object placed on (by decide), startKernel_eq, ltr_off (by omega),
    initTss_byte placed _ inside]

theorem storeEsp0_byte (placed : sym.Placed)
    (kept : ∀ k < 108, k < 4 ∨ 8 ≤ k → m' (sym.tss + k) = bootKernelMem sym loader m (sym.tss + k))
    (i : Fin totalTaskCnt) {k : ℕ} (inside : k < 108) : storeEsp0 sym i m' (sym.tss + k) =
      tssByte (BitVec.ofNat 32 (sym.entry i + procStackTop)) k := by
  rw [tssByte, storeEsp0]
  by_cases stored : 4 ≤ k ∧ k < 8
  · obtain ⟨j, rfl⟩ := Nat.exists_eq_add_of_le stored.1
    rw [if_pos stored, ← Nat.add_assoc, Nat.add_sub_cancel_left]
    exact store32_byte _ _ _ (by omega)
  · rw [if_neg stored, store32_off (by simp only [tssEsp0]; omega), kept k inside (by omega),
      bootKernelMem_tss placed loader m inside]

/-- **The ports of a process**, as long as nobody writes the tables or the rest of the TSS. The tasks of ring
1 have all of them. For a user process the processor finds the offset of a bitmap at 102 of the TSS, which is
0: the bitmap is the TSS itself, and its limit is all that ends it. -/
theorem user_ports (placed : sym.Placed) (there : LoaderTable sym loader m)
    (kept : ∀ x, sym.TableByte x → m' x = bootKernelMem sym loader m x)
    (keptTss : ∀ k < 108, k < 4 ∨ 8 ≤ k → m' (sym.tss + k) = bootKernelMem sym loader m (sym.tss + k))
    (i : Fin totalTaskCnt) (port : BitVec 16) :
    portAllowed (processTables sym m' i).mem
        (TableEntry.read (processTables sym m' i).mem (sym.gdt + indexTss * 8)).table (levelOf i)
        (iopl (load32 (bootKernelMem sym loader m) (sym.field i .eflags))) port ↔
      i < ring1TaskCnt ∨ (port.toNat / 8 < 107 ∧
        (tssByte (BitVec.ofNat 32 (sym.entry i + procStackTop)) (port.toNat / 8)).getLsbD
          (port.toNat % 8) = false) := by
  have runs := runs_later placed there kept i
  have low := placed.low .tss
  simp only [PmSymbols.start, PmObject.size, tssSize] at low
  obtain ⟨-, -, -, eflags⟩ := bootKernelMem_fields sym loader m i
  have tr : (TableEntry.read (processTables sym m' i).mem (sym.gdt + indexTss * 8)).table =
      ⟨sym.tss, 107⟩ := by
    have base : ((descriptorEntry (BitVec.ofNat 32 sym.tss) 107 da386Tss).withAccess 0x8b).base =
        BitVec.ofNat 32 sym.tss := descriptorEntry_base (BitVec.ofNat 32 sym.tss) 107 da386Tss
    rw [runs.tables.tss, TableEntry.table, tssDescriptor.2, base, BitVec.toNat_ofNat,
      Nat.mod_eq_of_lt (by omega)]
  have byte : ∀ k < 108, (processTables sym m' i).mem (sym.tss + k) =
      tssByte (BitVec.ofNat 32 (sym.entry i + procStackTop)) k :=
    fun k inside => storeEsp0_byte placed keptTss i inside
  have bitmap : load16 (processTables sym m' i).mem (sym.tss + 102) = 0 := by
    have zero : ∀ esp0, tssByte esp0 102 = 0 ∧ tssByte esp0 103 = 0 := fun _ => ⟨rfl, rfl⟩
    rw [load16, Nat.add_assoc, byte 102 (by decide), byte 103 (by decide), (zero _).1, (zero _).2]
    decide
  have ring : levelOf i ≤ iopl (ringOf i).eflags ↔ i < ring1TaskCnt :=
    (by decide : ∀ i, levelOf i ≤ iopl (ringOf i).eflags ↔ i < ring1TaskCnt) i
  rw [portAllowed, tr, bitmap, eflags, ring]
  dsimp only
  show _ ∨ 0 + port.toNat / 8 + 1 ≤ 107 ∧ _ ↔ _
  rw [Nat.zero_add, Nat.add_one_le_iff]
  refine or_congr_right (and_congr_right fun inside => ?_)
  rw [Nat.add_assoc, show (0 : BitVec 16).toNat + port.toNat / 8 = port.toNat / 8 from Nat.zero_add _,
    byte _ (by omega)]

theorem user_ports_keyboard :
    portAllowed (processTables kernelTables (bootKernelMem kernelTables loaderTable loaderMem) 4).mem
      (TableEntry.read (processTables kernelTables (bootKernelMem kernelTables loaderTable loaderMem) 4).mem
        (kernelTables.gdt + indexTss * 8)).table 3
      (iopl (load32 (bootKernelMem kernelTables loaderTable loaderMem) (kernelTables.field 4 .eflags)))
      0x60 :=
  (user_ports kernelTables_placed loaderMem_there (fun _ _ => rfl) (fun _ _ _ => rfl) 4 0x60).mpr
    (.inr ⟨by decide, by decide⟩)

/-! ### Writing the tables -/

/-- The tables of a process after a store in the IDT. -/
theorem processTables_forged (placed : sym.Placed) (protects : Protects sym m m') {v : ℕ}
    (inside : v < 256) (target : BitVec 32) :
    let t := processTables sym (initIdtDesc sym v da386IGate target priUser m') i
    t.gdt = ⟨sym.gdt, 1023⟩ ∧ TableEntry.read t.mem (sym.gdt + 1 * 8) = copiedEntry 1 ∧
      t.entry t.idt v = some (gateEntry target priUser) := by
  have apartTss := placed.apart .idt .tss (by decide)
  have gdtTss := placed.apart .gdt .tss (by decide)
  have gdtIdt := placed.apart .gdt .idt (by decide)
  have gdtPtrTss := placed.apart .gdtPtr .tss (by decide)
  have gdtPtrIdt := placed.apart .gdtPtr .idt (by decide)
  have idtPtrTss := placed.apart .idtPtr .tss (by decide)
  have idtPtrIdt := placed.apart .idtPtr .idt (by decide)
  simp only [PmSymbols.start, PmObject.size, gdtSize, idtSize, descriptorSize, tssSize] at *
  have kept : ∀ x, (x < sym.tss ∨ sym.tss + 108 ≤ x) → (x < sym.idt ∨ sym.idt + 2048 ≤ x) →
      storeEsp0 sym i (initIdtDesc sym v da386IGate target priUser m') x = m' x := by
    intro x offTss offIdt
    rw [storeEsp0, store32_off (by simp only [tssEsp0]; omega), initIdtDesc_off (by omega)]
  have gate : TableEntry.read (storeEsp0 sym i (initIdtDesc sym v da386IGate target priUser m'))
      (sym.idt + v * 8) = gateEntry target priUser := by
    refine (TableEntry.read_congr fun k small => ?_).trans (initIdtDesc_read (m := m') v target priUser)
    exact store32_off (by simp only [tssEsp0]; omega)
  refine ⟨?_, ?_, ?_⟩
  · exact (lgdtw_congr fun k small => kept _ (by omega) (by omega)).trans protects.gdtr
  · exact (TableEntry.read_congr fun k small => kept _ (by omega) (by omega)).trans
      (protects.copied 1 (by decide))
  · have idtr : (processTables sym (initIdtDesc sym v da386IGate target priUser m') i).idt =
        ⟨sym.idt, 2047⟩ :=
      (lgdtw_congr fun k small => kept _ (by omega) (by omega)).trans protects.idtr
    rw [idtr]
    exact (Tables.entry_eq (by dsimp only; omega)).trans (congrArg some gate)

/-- The tables are in the first 16 MB. -/
theorem tableByte_low (placed : sym.Placed) (byte : sym.TableByte x) : x < 2 ^ 24 := by
  rcases byte with ⟨o, -, -, high⟩ | ⟨i, -, high⟩
  · exact Nat.lt_of_lt_of_le high (placed.low o)
  · have low := placed.low .procTable
    have last := sym.entry_le i
    simp only [Symbols.field, Field.offset, processSize, PmSymbols.start, PmObject.size] at high last low
    omega

/-- **Nothing keeps a process from writing the tables.** Its data segment reaches them, for writing; the
pages of the loader are writable for users; and once it has stored eight bytes in the IDT, an interrupt
takes it to level 0, wherever it likes. -/
theorem kernel_exposed (placed : sym.Placed) (there : LoaderTable sym loader m)
    (kept : ∀ x, sym.TableByte x → m' x = bootKernelMem sym loader m x) (i : Fin totalTaskCnt)
    {v : ℕ} (inside : v < idtSize) (target : BitVec 32) :
    (∃ e, (processTables sym m' i).loadData (levelOf i) (selData i) = some e ∧ e.kind = .data true ∧
      e.base = 0 ∧ ∀ x, sym.TableByte x → x ≤ e.limit) ∧
    (∀ s : Protected, s.memSize ≠ 0 → ∀ x, sym.TableByte x → x < s.memSize.toNat →
      walk (setupPageMechanism s).mem (setupPageMechanism s).cr3 (BitVec.ofNat 32 x) =
        some (BitVec.ofNat 32 x, pgRww ||| pgUsu)) ∧
    ∃ bytes : List (BitVec 8), bytes.length = 8 ∧
      (processTables sym (storeBytes m' (sym.idt + v * 8) bytes) i).softInt (levelOf i) v =
        .enters target 0 := by
  have runs := runs_later placed there kept i
  obtain ⟨-, present, level, kind, base, limit⟩ := ldtEntry_access i
  refine ⟨⟨ldtEntry i 1, ?_, kind, base, fun x byte => ?_⟩, fun s nonzero x byte small => ?_, ?_⟩
  · have asked : rpl (selData i) = levelOf i :=
      (by decide : ∀ i, rpl (selData i) = levelOf i) i
    rw [Tables.loadData, runs.find_own.2.1, Option.filter_some, present, kind, level, asked,
      if_pos (by simp)]
  · have := tableByte_low placed byte
    omega
  · obtain ⟨-, -, covers⟩ := tableCount_bounds nonzero
    have low := tableByte_low placed byte
    refine setup_walk nonzero ?_
    rw [BitVec.toNat_ofNat, Nat.mod_eq_of_lt (by omega)]
    omega
  · obtain ⟨gdt, code, gate⟩ :=
      processTables_forged (i := i) placed ((boot_protects placed there).congr kept) inside target
    have forged := interrupt_gate (find_kernelCs gdt code) (Or.inr rfl) gate (levelOf i)
    rw [(gateEntry_access target).2.2.2, if_neg (by have := (levelOf_known i).2; omega),
      initIdtDesc_eq] at forged
    exact ⟨_, rfl, forged.2⟩

theorem kernel_exposed_gate : ∃ bytes : List (BitVec 8), bytes.length = 8 ∧
    (processTables kernelTables (storeBytes (bootKernelMem kernelTables loaderTable loaderMem)
      (kernelTables.idt + 0x80 * 8) bytes) 4).softInt 3 0x80 = .enters 0x8048000 0 :=
  (kernel_exposed kernelTables_placed loaderMem_there (fun _ _ => rfl) 4 (by decide) 0x8048000).2.2

end WalOS
