/-
**From the loader to the first process.**

`InitKernel` copies the kernel, `_start` and `init_pm_env` set up protected mode, `init_process_main`
fills `proc_table`. None of them clears `.bss`, where the linker puts `proc_table`.

* `boot_fresh` — the table ends `Fresh` exactly when the loader left it `Clear`; for an image with
  `proc_table` in `.bss` this is exactly when RAM was `Clear` before boot.
* `boot_stale` — with other bytes in RAM it does not.
* `boot_rests` — a fresh table is the table at rest that message passing starts from.
-/

import WalOS.Boot.Loader
import WalOS.Boot.ProcTable
import WalOS.Ipc.Run

namespace WalOS

open Bytes

/-- A store of `_start` or `init_pm_env`. They store to the descriptor tables and their pointers, the
TSS, `irq_table`, the screen and the stack. What they store is not followed, only that none of it is
on `proc_table`. -/
structure StartStore (sym : Symbols) where
  addr : ℕ
  bytes : List (BitVec 8)
  apart : addr + bytes.length ≤ sym.procTable ∨ sym.procTable + procTableSize ≤ addr

/-- `_start` with `init_pm_env`. -/
def start {sym : Symbols} (stores : List (StartStore sym)) (m : Mem) : Mem :=
  stores.foldl (fun m store => storeBytes m store.addr store.bytes) m

/-- **Boot**, from the moment the loader has read the kernel file. -/
def boot (sym : Symbols) (stores : List (StartStore sym)) (m : Mem) : Mem :=
  initProcessMain sym (start stores (initKernel m))

/-- The program header with index `k`, and its `p_type`, `p_vaddr`, `p_filesz` and `p_memsz`. -/
def programHeader (m : Mem) (k : ℕ) : BitVec 32 :=
  phoff m + baseOfKernelPhyAddr + BitVec.ofNat 32 (32 * k)
def pType (m : Mem) (k : ℕ) : BitVec 32 := fetch32 m (programHeader m k)
def pVaddr (m : Mem) (k : ℕ) : ℕ := (fetch32 m (programHeader m k + 8)).toNat
def pFilesz (m : Mem) (k : ℕ) : ℕ := (fetch32 m (programHeader m k + 0x10)).toNat
def pMemsz (m : Mem) (k : ℕ) : ℕ := (fetch32 m (programHeader m k + 0x14)).toNat

/-- **An image with `proc_table` in `.bss`**: a loadable segment has the table behind its `p_filesz`
and within its `p_memsz`, and nothing of the file is copied there. -/
structure InBss (sym : Symbols) (m : Mem) : Prop where
  segment : ∃ k < (phnum m).toNat, pType m k = 1 ∧ pVaddr m k + pFilesz m k ≤ sym.procTable ∧
    sym.procTable + procTableSize ≤ pVaddr m k + pMemsz m k
  spares : Spares sym.OnTable m

variable {sym : Symbols} {m : Mem} {x : ℕ}

theorem start_onTable (stores : List (StartStore sym)) (inside : sym.OnTable x) :
    start stores m x = m x := by
  unfold start
  induction stores generalizing m with
  | nil => rfl
  | cons store stores ih =>
    rw [List.foldl_cons, ih]
    obtain ⟨low, high⟩ := inside
    rcases store.apart with below | above
    · exact storeBytes_off (Or.inr (by omega))
    · exact storeBytes_off (Or.inl (by omega))

/-- The table ends fresh exactly when the loader leaves it clear. -/
theorem boot_iff_loaded (stores : List (StartStore sym)) :
    Fresh sym (boot sym stores m) ↔ Clear sym (initKernel m) :=
  fresh_iff_clear.trans (clear_congr fun _ inside => start_onTable stores inside)

/-- With `proc_table` in `.bss` the loader leaves the table as it was. -/
theorem InBss.clear_iff (bss : InBss sym m) : Clear sym (initKernel m) ↔ Clear sym m :=
  clear_congr fun _ inside => initKernel_off bss.spares inside

/-- **When boot establishes the initial state**: the fields that nothing assigns, and the byte behind
each name, must be zero when the loader is done, which for an image with `proc_table` in `.bss` means
that RAM held zeros there before boot. -/
theorem boot_fresh (sym : Symbols) (stores : List (StartStore sym)) (m : Mem) :
    (Fresh sym (boot sym stores m) ↔ Clear sym (initKernel m)) ∧
      (InBss sym m → (Fresh sym (boot sym stores m) ↔ Clear sym m)) :=
  ⟨boot_iff_loaded stores, fun bss => (boot_iff_loaded stores).trans bss.clear_iff⟩

/-! ### An image -/

/-- RAM filled with one byte, with a kernel file: one program header, for a segment at `0x30400` of
`0x9000` bytes in the file and `0x48100` bytes in memory. -/
def kernelFile (fill : BitVec 8) : Mem :=
  let m : Mem := fun _ => fill
  let m := store16 m 0x8002c 1
  let m := store32 m 0x8001c 0x34
  let m := store32 m 0x80034 1
  let m := store32 m 0x80038 0x1000
  let m := store32 m 0x8003c 0x30400
  let m := store32 m 0x80044 0x9000
  store32 m 0x80048 0x48100

/-- The addresses of that kernel. -/
def kernelSymbols : Symbols where
  procTable := 0x40000
  gdt := 0x3b000
  taskStack := 0x40440
  processReady := 0x3a000
  intReenter := 0x3a004
  ticks := 0x3a008
  irqTable := 0x3a010
  clockIntHandler := 0x31000
  initEip _ := 0x32000
  nonNull := by decide
  fits := by decide
  apart := by decide

theorem kernelFile_onTable (fill : BitVec 8) (inside : kernelSymbols.OnTable x) :
    kernelFile fill x = fill := by
  obtain ⟨low, high⟩ : 0x40000 ≤ x ∧ x < 0x40000 + 7 * 152 := inside
  unfold kernelFile
  simp (disch := omega) only [store32_off, store16_off]

theorem kernelFile_phnum (fill : BitVec 8) : phnum (kernelFile fill) = 1 := by
  have low : kernelFile fill 0x8002c = 1 := by
    unfold kernelFile
    simp (disch := omega) only [store32_off]
    rfl
  have high : kernelFile fill 0x8002d = 0 := by
    unfold kernelFile
    simp (disch := omega) only [store32_off]
    rfl
  have both : fetch16 (kernelFile fill) (baseOfKernelPhyAddr + 0x2c) = 1 := by
    show (kernelFile fill 0x8002d ++ kernelFile fill 0x8002c : BitVec 16) = 1
    rw [low, high]
    rfl
  rw [phnum, both]
  rfl

theorem kernelFile_phoff (fill : BitVec 8) : phoff (kernelFile fill) = 0x34 := by
  rw [phoff, fetch32_eq (by decide)]
  show load32 (kernelFile fill) 0x8001c = _
  unfold kernelFile
  simp (disch := omega) only [load32_store32_off, load32_store32]

/-- The fields of its program header. -/
theorem kernelFile_header (fill : BitVec 8) :
    fetch32 (kernelFile fill) 0x80034 = 1 ∧ fetch32 (kernelFile fill) 0x8003c = 0x30400 ∧
      fetch32 (kernelFile fill) 0x80044 = 0x9000 ∧ fetch32 (kernelFile fill) 0x80048 = 0x48100 := by
  rw [fetch32_eq (by decide), fetch32_eq (by decide), fetch32_eq (by decide), fetch32_eq (by decide)]
  show load32 (kernelFile fill) 0x80034 = _ ∧ load32 (kernelFile fill) 0x8003c = _ ∧
    load32 (kernelFile fill) 0x80044 = _ ∧ load32 (kernelFile fill) 0x80048 = _
  unfold kernelFile
  simp (disch := omega) only [load32_store32_off, load32_store32]
  exact ⟨trivial, trivial, trivial, trivial⟩

theorem kernelFile_inBss (fill : BitVec 8) : InBss kernelSymbols (kernelFile fill) := by
  obtain ⟨type, vaddr, filesz, memsz⟩ := kernelFile_header fill
  have first : phoff (kernelFile fill) + baseOfKernelPhyAddr = 0x80034 := by
    rw [kernelFile_phoff]
    rfl
  have header : programHeader (kernelFile fill) 0 = 0x80034 := by
    rw [programHeader, first]
    rfl
  refine ⟨⟨0, by rw [kernelFile_phnum]; decide, ?_, ?_, ?_⟩, ?_⟩
  · rw [pType, header, type]
  · rw [pVaddr, pFilesz, header, show (0x80034 + 8 : BitVec 32) = 0x8003c from rfl, vaddr,
      show (0x80034 + 0x10 : BitVec 32) = 0x80044 from rfl, filesz]
    decide
  · rw [pVaddr, pMemsz, header, show (0x80034 + 8 : BitVec 32) = 0x8003c from rfl, vaddr,
      show (0x80034 + 0x14 : BitVec 32) = 0x80048 from rfl, memsz]
    decide
  · rw [Spares, kernelFile_phnum, first]
    refine ⟨fun _ k bound inside => ?_, trivial⟩
    rw [show (0x80034 + 0x10 : BitVec 32) = 0x80044 from rfl, filesz] at bound
    rw [show (0x80034 + 8 : BitVec 32) = 0x8003c from rfl, vaddr] at inside
    obtain ⟨low, high⟩ := inside
    rw [BitVec.toNat_add, BitVec.toNat_ofNat] at low
    simp only [kernelSymbols, BitVec.reduceToNat] at low bound
    omega

/-- On zeroed RAM boot leaves a fresh table. -/
theorem boot_fresh_zeroed : Fresh kernelSymbols (boot kernelSymbols [] (kernelFile 0)) := by
  have zero : ∀ addr, load32 (fun _ => 0) addr = 0 := fun _ => show word 0 0 0 0 = 0 by decide
  have clear : Clear kernelSymbols (kernelFile 0) :=
    (clear_congr (m := fun _ => 0) fun _ inside => kernelFile_onTable 0 inside).mpr
      fun _ => ⟨zero _, rfl, zero _, zero _, rfl⟩
  exact ((boot_fresh kernelSymbols [] (kernelFile 0)).2 (kernelFile_inBss 0)).mpr clear

/-- **On other RAM it does not**: the processes start blocked. -/
theorem boot_stale : ¬ ∀ (sym : Symbols) (stores : List (StartStore sym)) (m : Mem),
    InBss sym m → Fresh sym (boot sym stores m) := by
  intro claimed
  have fresh := claimed kernelSymbols [] (kernelFile 0xff) (kernelFile_inBss 0xff)
  have clear := (kernelFile_inBss 0xff).clear_iff.mp ((boot_iff_loaded []).mp fresh)
  have filled : Clear kernelSymbols fun _ => 0xff :=
    (clear_congr fun _ inside => kernelFile_onTable 0xff inside).mp clear
  exact absurd (filled 0).flags (by decide)

/-! ### The table of message passing -/

/-- The state that memory holds, as far as message passing starts from it. -/
structure Holds (sym : Symbols) (m : Mem) (s : Kernel totalTaskCnt) : Prop where
  id : ∀ p, (s.proc p).id = (load32 m (sym.field p .id)).toNat
  flags : ∀ p, (s.proc p).flags = load32 m (sym.field p .flags)
  haveIntMsg : ∀ p, (s.proc p).haveIntMsg = decide (m (sym.field p .haveIntMsg) ≠ 0)
  currentSend : ∀ p, sym.pointer (s.proc p).currentSend = load32 m (sym.field p .currentSend)
  nextSend : ∀ p, sym.pointer (s.proc p).nextSend = load32 m (sym.field p .nextSend)

/-- **Boot on clear RAM leaves the table at rest.** -/
theorem boot_rests {s : Kernel totalTaskCnt} {stores : List (StartStore sym)} (bss : InBss sym m)
    (clear : Clear sym m) (holds : Holds sym (boot sym stores m) s) : Boot s := by
  have fresh : Fresh sym (boot sym stores m) := (boot_iff_loaded stores).mpr (bss.clear_iff.mpr clear)
  refine ⟨fun p => ?_, fun p => (holds.flags p).trans (fresh p).flags, fun p => ?_, fun p => ?_,
    fun p => ?_⟩
  · have small : (p : ℕ) < 2 ^ 32 := p.isLt.trans (by decide)
    rw [holds.id, boot, initProcessMain_id, BitVec.toNat_ofNat, Nat.mod_eq_of_lt small]
  · exact Symbols.pointer_eq_zero.mp ((holds.currentSend p).trans (fresh p).currentSend)
  · exact Symbols.pointer_eq_zero.mp ((holds.nextSend p).trans (fresh p).nextSend)
  · rw [holds.haveIntMsg, (fresh p).haveIntMsg]
    rfl

end WalOS
