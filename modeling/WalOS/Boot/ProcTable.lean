/-
**What boot leaves in `proc_table`** (`init_process_main` of `process.c`).

`init_process_main` fills the table entry by entry, assigning some of the fields and copying the name
with `strcpy`, which copies no terminating NUL. What it does not assign keeps what memory held.

* `initEntry_off`, `initEntry_name` — what filling one entry leaves alone, and the name it writes.
* `fresh_iff_clear` — the table ends `Fresh` exactly when memory was `Clear` before.
-/

import WalOS.Lib.Bytes
import WalOS.Kernel.Layout

namespace WalOS

open Bytes

/-! ### The code -/

/-- An entry of a task table. -/
structure Task where
  initEip : BitVec 32
  stackSize : BitVec 32
  name : List (BitVec 8)

/-- The initialiser of a `char` array of 32 bytes, the rest of it 0. -/
def charArray (chars : List Char) : List (BitVec 8) :=
  chars.map (fun c => BitVec.ofNat 8 c.toNat) ++ List.replicate (32 - chars.length) 0

/-- `STACK_SIZE_CONSOLE`, …, all the same, and `STACK_SIZE`, their sum. -/
def taskStackSize : BitVec 32 := 0x8000
def stackSize : BitVec 32 := totalTaskCnt * taskStackSize

/-- `RING1_TASK_CNT`. There are no tasks in ring 0 or ring 2. -/
def ring1TaskCnt : ℕ := 4

/-- The names in `r1_task_table` and `r3_task_table`, one table behind the other. -/
def taskName (i : Fin totalTaskCnt) : List (BitVec 8) :=
  charArray <| match i with
    | 0 => ['c', 'o', 'n', 's', 'o', 'l', 'e']
    | 1 => ['s', 'y', 's', 't', 'e', 'm']
    | 2 => ['h', 'd', 'd']
    | 3 => ['f', 's']
    | 4 => ['P', '_', 'A']
    | 5 => ['P', '_', 'B']
    | 6 => ['P', '_', 'C']

/-- The entries of these tables. -/
def Symbols.task (sym : Symbols) (i : Fin totalTaskCnt) : Task :=
  ⟨sym.initEip i, taskStackSize, taskName i⟩

/-- What depends on the ring of a task. -/
structure Ring where
  privilege : BitVec 8
  rpl : BitVec 32
  eflags : BitVec 32
  priority : BitVec 32
  consoleId : BitVec 32

/-- Ring 1 for the system tasks, ring 3 for the user processes. -/
def ringOf (i : Fin totalTaskCnt) : Ring :=
  if i < ring1TaskCnt then ⟨1, 1, 0x1202, 15, 0⟩ else ⟨3, 3, 0x202, 5, 1⟩

/-- `strlen` and `strcpy` of `string.c`. -/
def strlen (src : List (BitVec 8)) : ℕ := (src.takeWhile (· ≠ 0)).length

def strcpy (m : Mem) (dest : ℕ) (src : List (BitVec 8)) : Mem :=
  storeBytes m dest (src.take (strlen src))

/-- The selectors: `SELECTOR_KERNEL_CS`, `SELECTOR_KERNEL_DS`, `SELECTOR_KERNEL_GS`,
`SELECTOR_LDT_FIRST`, and the parts of a selector. -/
def selectorKernelCs : ℕ := 0x08
def selectorKernelDs : ℕ := 0x10
def selectorKernelGs : BitVec 32 := 0x18 + 3
def selectorLdtFirst : BitVec 16 := 0x28
def saRplMask : BitVec 32 := 0xfffc
def saTiMask : BitVec 32 := 0xfffb
def saTil : BitVec 32 := 4

/-- `DA_C` and `DA_DRW`. -/
def daC : BitVec 8 := 0x98
def daDrw : BitVec 8 := 0x92

/-- A descriptor of the LDT of an entry, and the place of `attr1` in it. -/
def Symbols.ldt (sym : Symbols) (i : Fin totalTaskCnt) (index : ℕ) : ℕ := sym.field i .ldt + index * 8
def attr1 : ℕ := 5

/-- The variables of the loop. -/
structure Filling where
  mem : Mem
  topStack : BitVec 32
  selectorLdt : BitVec 16

/-- **One round of the loop of `init_process_main`.** -/
def initEntry (sym : Symbols) (f : Filling) (i : Fin totalTaskCnt) : Filling :=
  let task := sym.task i
  let ring := ringOf i
  let code := (0 &&& saRplMask &&& saTiMask) ||| saTil ||| ring.rpl
  let data := (8 &&& saRplMask &&& saTiMask) ||| saTil ||| ring.rpl
  let m := f.mem
  let m := store32 m (sym.field i .consoleId) ring.consoleId
  let m := store32 m (sym.field i .id) (BitVec.ofNat 32 i)
  let m := strcpy m (sym.field i .name) task.name
  let m := store16 m (sym.field i .ldtSel) f.selectorLdt
  let m := copyBytes m (sym.ldt i 0) (sym.gdt + (selectorKernelCs >>> 3) * 8) 8
  let m := store8 m (sym.ldt i 0 + attr1) (daC ||| ring.privilege <<< 5)
  let m := copyBytes m (sym.ldt i 1) (sym.gdt + (selectorKernelDs >>> 3) * 8) 8
  let m := store8 m (sym.ldt i 1 + attr1) (daDrw ||| ring.privilege <<< 5)
  let m := store32 m (sym.field i .cs) code
  let m := store32 m (sym.field i .ds) data
  let m := store32 m (sym.field i .es) data
  let m := store32 m (sym.field i .fs) data
  let m := store32 m (sym.field i .ss) data
  let m := store32 m (sym.field i .gs) ((selectorKernelGs &&& saRplMask) ||| ring.rpl)
  let m := store32 m (sym.field i .eip) task.initEip
  let m := store32 m (sym.field i .esp) f.topStack
  let m := store32 m (sym.field i .eflags) ring.eflags
  let m := store32 m (sym.field i .priority) ring.priority
  let m := store32 m (sym.field i .ticks) ring.priority
  { mem := m, topStack := f.topStack - task.stackSize, selectorLdt := f.selectorLdt + (1 <<< 3) }

/-- The loop over the table. -/
def fillTable (sym : Symbols) (m : Mem) : Mem :=
  ((List.finRange totalTaskCnt).foldl (initEntry sym)
    ⟨m, sym.taskStack + stackSize, selectorLdtFirst⟩).mem

/-- **`init_process_main`** up to `restart_process`; `init_clock` stores the handler of `IRQ_CLOCK`. -/
def initProcessMain (sym : Symbols) (m : Mem) : Mem :=
  let m := fillTable sym m
  let m := store32 m sym.processReady (BitVec.ofNat 32 sym.procTable)
  let m := store32 m sym.intReenter 0
  let m := store32 m sym.ticks 0
  store32 m sym.irqTable sym.clockIntHandler

/-! ### What the table should hold -/

/-- The bytes of the name of an entry. -/
def nameField (sym : Symbols) (m : Mem) (i : Fin totalTaskCnt) : List (BitVec 8) :=
  (List.range 16).map fun k => m (sym.field i .name + k)

/-- The array holds the string, terminated by NUL. -/
def IsString (array string : List (BitVec 8)) : Prop :=
  ∃ rest, array = string.take (strlen string) ++ 0 :: rest

/-- **An entry is fresh**: not blocked, no interrupt pending, on no queue, under the name of its
task. -/
structure FreshEntry (sym : Symbols) (m : Mem) (i : Fin totalTaskCnt) : Prop where
  flags : load32 m (sym.field i .flags) = 0
  haveIntMsg : m (sym.field i .haveIntMsg) = 0
  currentSend : load32 m (sym.field i .currentSend) = 0
  nextSend : load32 m (sym.field i .nextSend) = 0
  name : IsString (nameField sym m i) (taskName i)

def Fresh (sym : Symbols) (m : Mem) : Prop := ∀ i, FreshEntry sym m i

/-- **An entry is clear** before it is filled: zero in the fields of message passing that are not
assigned, and in the byte behind the name. -/
structure ClearEntry (sym : Symbols) (m : Mem) (i : Fin totalTaskCnt) : Prop where
  flags : load32 m (sym.field i .flags) = 0
  haveIntMsg : m (sym.field i .haveIntMsg) = 0
  currentSend : load32 m (sym.field i .currentSend) = 0
  nextSend : load32 m (sym.field i .nextSend) = 0
  terminator : m (sym.field i .name + strlen (taskName i)) = 0

def Clear (sym : Symbols) (m : Mem) : Prop := ∀ i, ClearEntry sym m i

/-! ### Filling the table -/

variable {sym : Symbols} {m m' : Mem} {i j : Fin totalTaskCnt} {x : ℕ}

theorem strlen_le (src : List (BitVec 8)) : strlen src ≤ src.length :=
  (List.takeWhile_prefix _).length_le

theorem strcpy_off {dest : ℕ} {src : List (BitVec 8)} (off : x < dest ∨ dest + strlen src ≤ x) :
    strcpy m dest src x = m x := by
  refine storeBytes_off ?_
  rwa [List.length_take_of_le (strlen_le src)]

/-- Every name is shorter than its array. -/
theorem strlen_taskName_lt : ∀ i, strlen (taskName i) < 16 := by decide

/-- An address that filling entry `i` leaves alone: off the entry, behind its name or behind
`console_id`. -/
def Spared (sym : Symbols) (i : Fin totalTaskCnt) (x : ℕ) : Prop :=
  x < sym.entry i ∨ sym.field i .flags ≤ x ∨
    (sym.field i .name + strlen (taskName i) ≤ x ∧ x < sym.field i .consoleId)

theorem initEntry_off (f : Filling) (spared : Spared sym i x) :
    (initEntry sym f i).mem x = f.mem x := by
  have short := strlen_taskName_lt i
  simp only [Spared, Symbols.field, Field.offset] at spared
  simp only [initEntry, Symbols.task, Symbols.ldt, Symbols.field, Field.offset, attr1]
  simp (disch := omega) only [store32_off, store16_off, store8_off, copyBytes_off, strcpy_off]

/-- Filling an entry writes the name of its task. -/
theorem initEntry_name (f : Filling) {k : ℕ} (inside : k < strlen (taskName i)) :
    (initEntry sym f i).mem (sym.field i .name + k) = (taskName i)[k]?.getD 0 := by
  have short := strlen_taskName_lt i
  have long := strlen_le (taskName i)
  simp only [initEntry, Symbols.task, Symbols.ldt, Symbols.field, Field.offset, attr1]
  simp (disch := omega) only [store32_off, store16_off, store8_off, copyBytes_off]
  have bound : k < ((taskName i).take (strlen (taskName i))).length := by
    rwa [List.length_take_of_le long]
  show storeBytes _ _ ((taskName i).take (strlen (taskName i))) _ = _
  rw [storeBytes_at bound, List.getElem_take, List.getElem?_eq_getElem (by omega)]
  rfl

/-- An address of entry `j` that message passing reads, or of its name. -/
theorem spared_of_ne (other : i ≠ j) {offset : ℕ} (inside : offset < processSize) :
    Spared sym i (sym.entry j + offset) := by
  have apart : (i : ℕ) < j ∨ (j : ℕ) < i := Nat.lt_or_gt_of_ne (Fin.val_ne_of_ne other)
  unfold processSize at inside
  simp only [Spared, Symbols.field, Symbols.entry, Field.offset, processSize]
  omega

/-- What every round leaves alone, the loop leaves alone. -/
theorem foldl_initEntry_off {entries : List (Fin totalTaskCnt)} (f : Filling)
    (spared : ∀ i ∈ entries, Spared sym i x) : (entries.foldl (initEntry sym) f).mem x = f.mem x := by
  induction entries generalizing f with
  | nil => rfl
  | cons i entries ih =>
    rw [List.foldl_cons, ih _ fun j member => spared j (List.mem_cons_of_mem _ member),
      initEntry_off f (spared i List.mem_cons_self)]

/-- The loop leaves the unassigned fields and the end of the name array alone. -/
theorem fillTable_off {offset : ℕ} (inside : offset < processSize)
    (spared : Spared sym j (sym.entry j + offset)) :
    fillTable sym m (sym.entry j + offset) = m (sym.entry j + offset) := by
  refine foldl_initEntry_off _ fun i _ => ?_
  by_cases same : i = j
  · exact same ▸ spared
  · exact spared_of_ne same inside

/-- What its round leaves in an entry stays. -/
theorem fillTable_entry (sym : Symbols) (m : Mem) (j : Fin totalTaskCnt) :
    ∃ f, ∀ offset < processSize,
      fillTable sym m (sym.entry j + offset) = (initEntry sym f j).mem (sym.entry j + offset) := by
  have loop : ∀ (entries : List (Fin totalTaskCnt)) (f : Filling), entries.Nodup → j ∈ entries →
      ∃ f', ∀ offset < processSize, (entries.foldl (initEntry sym) f).mem (sym.entry j + offset) =
        (initEntry sym f' j).mem (sym.entry j + offset) := by
    intro entries
    induction entries with
    | nil => exact fun _ _ member => absurd member List.not_mem_nil
    | cons i entries ih =>
      intro f nodup member
      obtain ⟨fresh, nodup⟩ := List.nodup_cons.mp nodup
      rcases List.mem_cons.mp member with rfl | member
      · refine ⟨f, fun offset inside => ?_⟩
        rw [List.foldl_cons]
        refine foldl_initEntry_off _ fun i member => ?_
        have other : i ≠ j := fun same => fresh (same ▸ member)
        exact spared_of_ne other inside
      · exact ih _ nodup member
  exact loop _ _ (List.nodup_finRange _) (List.mem_finRange j)

/-- The assignments behind the loop are off the table. -/
theorem initProcessMain_onTable (inside : sym.OnTable x) :
    initProcessMain sym m x = fillTable sym m x := by
  have apart : ∀ global ∈ [sym.processReady, sym.intReenter, sym.ticks, sym.irqTable],
      x < global ∨ global + 4 ≤ x := by
    intro global member
    obtain ⟨low, high⟩ := inside
    rcases sym.apart global member with below | above
    · right; omega
    · left; omega
  simp only [List.mem_cons, List.not_mem_nil, or_false, forall_eq_or_imp, forall_eq] at apart
  obtain ⟨ready, reenter, ticks, irq⟩ := apart
  rw [initProcessMain, store32_off irq, store32_off ticks, store32_off reenter, store32_off ready]

theorem onTable_entry (sym : Symbols) (i : Fin totalTaskCnt) {offset : ℕ}
    (inside : offset < processSize) : sym.OnTable (sym.entry i + offset) := by
  have last := sym.entry_le i
  have first : sym.procTable ≤ sym.entry i := Nat.le_add_right _ _
  exact ⟨by omega, by omega⟩

/-! ### `init_process_main` on the entries -/

/-- An unassigned byte keeps what memory held. -/
theorem initProcessMain_off {offset : ℕ} (inside : offset < processSize)
    (spared : Spared sym i (sym.entry i + offset)) :
    initProcessMain sym m (sym.entry i + offset) = m (sym.entry i + offset) := by
  rw [initProcessMain_onTable (onTable_entry sym i inside), fillTable_off inside spared]

/-- An entry ends as its round leaves it. -/
theorem initProcessMain_entry (sym : Symbols) (m : Mem) (i : Fin totalTaskCnt) :
    ∃ f, ∀ offset < processSize,
      initProcessMain sym m (sym.entry i + offset) =
        (initEntry sym f i).mem (sym.entry i + offset) := by
  obtain ⟨f, same⟩ := fillTable_entry sym m i
  refine ⟨f, fun offset inside => ?_⟩
  rw [initProcessMain_onTable (onTable_entry sym i inside), same offset inside]

/-- The words of an entry end as its round leaves them. -/
theorem initProcessMain_words (sym : Symbols) (m : Mem) (i : Fin totalTaskCnt) :
    ∃ f, ∀ field : Field, field.offset + 4 ≤ processSize →
      load32 (initProcessMain sym m) (sym.field i field) =
        load32 (initEntry sym f i).mem (sym.field i field) := by
  obtain ⟨f, same⟩ := initProcessMain_entry sym m i
  refine ⟨f, fun field room => load32_congr fun k bound => ?_⟩
  rw [Symbols.field, Nat.add_assoc]
  exact same _ (by omega)

/-- The name that ends up in the entry, without the byte behind it. -/
theorem initProcessMain_name {k : ℕ} (inside : k < strlen (taskName i)) :
    initProcessMain sym m (sym.field i .name + k) = (taskName i)[k]?.getD 0 := by
  have short := strlen_taskName_lt i
  have bound : Field.name.offset + k < processSize := by
    simp only [Field.offset, processSize]
    omega
  obtain ⟨f, same⟩ := initProcessMain_entry sym m i
  rw [Symbols.field, Nat.add_assoc, same _ bound, ← Nat.add_assoc]
  exact initEntry_name f inside

/-- A word of message passing keeps what memory held. -/
theorem initProcessMain_word {field : Field} (unassigned : Field.flags.offset ≤ field.offset) :
    load32 (initProcessMain sym m) (sym.field i field) = load32 m (sym.field i field) := by
  refine load32_congr fun k bound => ?_
  have inside : field.offset + k < processSize := by
    cases field <;> simp only [Field.offset, processSize] at * <;> omega
  rw [Symbols.field, Nat.add_assoc]
  refine initProcessMain_off inside (Or.inr (Or.inl ?_))
  rw [Symbols.field]
  omega

/-- A string in an array is settled by the byte behind it. -/
theorem isString_iff {array string : List (BitVec 8)} (room : strlen string < array.length)
    (written : ∀ k < strlen string, array[k]? = string[k]?) :
    IsString array string ↔ array[strlen string]? = some 0 := by
  have length : (string.take (strlen string)).length = strlen string :=
    List.length_take_of_le (strlen_le string)
  constructor
  · rintro ⟨rest, rfl⟩
    rw [List.getElem?_append_right length.le, length, Nat.sub_self]
    rfl
  · intro terminated
    refine ⟨array.drop (strlen string + 1), ?_⟩
    have front : array.take (strlen string) = string.take (strlen string) := by
      refine List.ext_getElem? fun k => ?_
      rcases Nat.lt_or_ge k (strlen string) with inside | outside
      · rw [List.getElem?_take_of_lt inside, List.getElem?_take_of_lt inside, written k inside]
      · rw [List.getElem?_take_eq_none outside, List.getElem?_take_eq_none outside]
    obtain ⟨_, last⟩ := List.getElem?_eq_some_iff.mp terminated
    calc array = array.take (strlen string) ++ array.drop (strlen string) :=
          (List.take_append_drop _ _).symm
      _ = string.take (strlen string) ++ 0 :: array.drop (strlen string + 1) := by
          rw [front, List.drop_eq_getElem_cons room, last]

/-- The name of an entry is the name of its task exactly when a NUL lay behind it. -/
theorem name_iff : IsString (nameField sym (initProcessMain sym m) i) (taskName i) ↔
    m (sym.field i .name + strlen (taskName i)) = 0 := by
  have short := strlen_taskName_lt i
  have long := strlen_le (taskName i)
  have length : (nameField sym (initProcessMain sym m) i).length = 16 := by simp [nameField]
  have bound : Field.name.offset + strlen (taskName i) < processSize := by
    simp only [Field.offset, processSize]
    omega
  have behind : initProcessMain sym m (sym.field i .name + strlen (taskName i)) =
      m (sym.field i .name + strlen (taskName i)) := by
    rw [Symbols.field, Nat.add_assoc]
    refine initProcessMain_off bound (Or.inr (Or.inr ?_))
    simp only [Symbols.field, Field.offset]
    omega
  rw [isString_iff (by omega) fun k inside => ?_, ← behind]
  · simp [nameField, short]
  · rw [nameField, List.getElem?_map, List.getElem?_range (by omega), Option.map_some,
      initProcessMain_name inside, List.getElem?_eq_getElem (by omega)]
    rfl

/-- **The table ends fresh exactly when it was clear.** -/
theorem fresh_iff_clear : Fresh sym (initProcessMain sym m) ↔ Clear sym m := by
  have flag : ∀ i, initProcessMain sym m (sym.field i .haveIntMsg) =
      m (sym.field i .haveIntMsg) := by
    intro i
    refine initProcessMain_off (by decide) (Or.inr (Or.inl ?_))
    simp only [Symbols.field, Field.offset]
    omega
  have word : ∀ i (field : Field), Field.flags.offset ≤ field.offset →
      load32 (initProcessMain sym m) (sym.field i field) = load32 m (sym.field i field) :=
    fun _ _ unassigned => initProcessMain_word unassigned
  refine forall_congr' fun i => ⟨fun fresh => ?_, fun clear => ?_⟩
  · exact ⟨word i .flags le_rfl ▸ fresh.flags, flag i ▸ fresh.haveIntMsg,
      word i .currentSend (by decide) ▸ fresh.currentSend,
      word i .nextSend (by decide) ▸ fresh.nextSend, name_iff.mp fresh.name⟩
  · exact ⟨(word i .flags le_rfl).trans clear.flags, (flag i).trans clear.haveIntMsg,
      (word i .currentSend (by decide)).trans clear.currentSend,
      (word i .nextSend (by decide)).trans clear.nextSend, name_iff.mpr clear.terminator⟩

/-- What is clear is a matter of the bytes of the table. -/
theorem clear_congr (same : ∀ x, sym.OnTable x → m' x = m x) : Clear sym m' ↔ Clear sym m := by
  have byte : ∀ i {offset : ℕ}, offset < processSize →
      m' (sym.entry i + offset) = m (sym.entry i + offset) :=
    fun i _ inside => same _ (onTable_entry sym i inside)
  have flag : ∀ i, m' (sym.field i .haveIntMsg) = m (sym.field i .haveIntMsg) :=
    fun i => byte i (by decide)
  have word : ∀ i (field : Field), field.offset + 4 ≤ processSize →
      load32 m' (sym.field i field) = load32 m (sym.field i field) := by
    refine fun i field room => load32_congr fun k bound => ?_
    rw [Symbols.field, Nat.add_assoc]
    exact byte i (by omega)
  have terminator : ∀ i, m' (sym.field i .name + strlen (taskName i)) =
      m (sym.field i .name + strlen (taskName i)) := by
    intro i
    have short := strlen_taskName_lt i
    rw [Symbols.field, Nat.add_assoc]
    refine byte i ?_
    simp only [Field.offset, processSize]
    omega
  refine forall_congr' fun i => ⟨fun clear => ?_, fun clear => ?_⟩
  · exact ⟨word i .flags (by decide) ▸ clear.flags, flag i ▸ clear.haveIntMsg,
      word i .currentSend (by decide) ▸ clear.currentSend,
      word i .nextSend (by decide) ▸ clear.nextSend, terminator i ▸ clear.terminator⟩
  · exact ⟨(word i .flags (by decide)).trans clear.flags, (flag i).trans clear.haveIntMsg,
      (word i .currentSend (by decide)).trans clear.currentSend,
      (word i .nextSend (by decide)).trans clear.nextSend, (terminator i).trans clear.terminator⟩

/-- A store of other bytes leaves a word alone. -/
theorem load32_strcpy_off {dest addr : ℕ} {src : List (BitVec 8)}
    (off : addr + 4 ≤ dest ∨ dest + strlen src ≤ addr) :
    load32 (strcpy m dest src) addr = load32 m addr :=
  load32_congr fun _ _ => strcpy_off (by omega)

/-- The words that filling an entry assigns. -/
theorem initEntry_words (f : Filling) :
    let word (field : Field) := load32 (initEntry sym f i).mem (sym.field i field)
    word .id = BitVec.ofNat 32 i ∧
      word .cs = (0 &&& saRplMask &&& saTiMask) ||| saTil ||| (ringOf i).rpl ∧
      (∀ field ∈ [Field.ds, .es, .fs, .ss],
        word field = (8 &&& saRplMask &&& saTiMask) ||| saTil ||| (ringOf i).rpl) ∧
      word .gs = (selectorKernelGs &&& saRplMask) ||| (ringOf i).rpl := by
  have short := strlen_taskName_lt i
  simp only [List.forall_mem_cons, initEntry, Symbols.task, Symbols.ldt, Symbols.field, Field.offset,
    attr1]
  simp (disch := omega) only [load32_store32_off, load32_store16_off, load32_store8_off,
    load32_copyBytes_off, load32_strcpy_off, load32_store32]
  exact ⟨trivial, trivial, ⟨trivial, trivial, trivial, trivial,
    fun _ member => absurd member List.not_mem_nil⟩, trivial⟩

/-- The id that ends up in an entry. -/
theorem initProcessMain_id :
    load32 (initProcessMain sym m) (sym.field i .id) = BitVec.ofNat 32 i := by
  obtain ⟨f, same⟩ := initProcessMain_words sym m i
  exact (same .id (by decide)).trans (initEntry_words f).1

end WalOS
