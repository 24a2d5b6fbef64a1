/-
**Privilege levels of the 386**: what code reaches through the descriptor tables.

A table has entries of eight bytes in memory. The processor reads one whenever code loads a segment
register, goes over to another code segment or interrupts, and raises a fault if the entry does not
allow it. Levels are numbers; level 0 may do everything.

* `TableEntry`, `Tables.find` — an entry, and what a selector finds.
* `Action`, `Tables.perform` — what code of some level can try, and what comes of it.
* `Tables.Confines` — the tables hold code at its level but for some doors; `Confines.run`: whatever
  the code tries, it stays there, faults, or enters through a door.
* `portAllowed` — the ports that code of some level may use.
-/

import Mathlib.Data.List.Basic
import WalOS.Lib.Bytes

namespace Privilege

/-! ### Entries -/

/-- An entry of a table, byte by byte. -/
structure TableEntry where
  b0 : BitVec 8
  b1 : BitVec 8
  b2 : BitVec 8
  b3 : BitVec 8
  b4 : BitVec 8
  b5 : BitVec 8
  b6 : BitVec 8
  b7 : BitVec 8
deriving DecidableEq

/-- What an entry describes; gates of 16 bits are among those of 32. -/
inductive Kind where
  | data (writable : Bool)
  | code (conforming readable : Bool)
  | ldt
  | tss (busy : Bool)
  | taskGate
  | callGate
  | interruptGate
  | trapGate
  | reserved
deriving DecidableEq

namespace TableEntry

def read (m : Bytes.Mem) (addr : ℕ) : TableEntry :=
  ⟨m addr, m (addr + 1), m (addr + 2), m (addr + 3), m (addr + 4), m (addr + 5), m (addr + 6),
    m (addr + 7)⟩

def present (e : TableEntry) : Bool := e.b5.getLsbD 7

/-- The level of the entry. -/
def level (e : TableEntry) : ℕ := (e.b5.extractLsb' 5 2).toNat

def kind (e : TableEntry) : Kind :=
  if e.b5.getLsbD 4 then
    if e.b5.getLsbD 3 then .code (e.b5.getLsbD 2) (e.b5.getLsbD 1) else .data (e.b5.getLsbD 1)
  else
    match (e.b5.extractLsb' 0 4).toNat with
    | 2 => .ldt
    | 1 | 9 => .tss false
    | 3 | 11 => .tss true
    | 5 => .taskGate
    | 4 | 12 => .callGate
    | 6 | 14 => .interruptGate
    | 7 | 15 => .trapGate
    | _ => .reserved

/-- The base and the last offset of a segment; the limit counts bytes, or pages of 4096. -/
def base (e : TableEntry) : BitVec 32 := e.b7 ++ e.b4 ++ e.b3 ++ e.b2
def limit (e : TableEntry) : ℕ :=
  let raw := (e.b6.extractLsb' 0 4 ++ e.b1 ++ e.b0).toNat
  if e.b6.getLsbD 7 then raw * 4096 + 4095 else raw

/-- Where a gate leads. -/
def offset (e : TableEntry) : BitVec 32 := Bytes.word e.b0 e.b1 e.b6 e.b7
def target (e : TableEntry) : BitVec 16 := e.b3 ++ e.b2

/-- The same entry with other attributes. -/
def withAccess (e : TableEntry) (access : BitVec 8) : TableEntry := { e with b5 := access }

/-- The attributes tell the kind and the level. -/
theorem access_congr {e e' : TableEntry} (same : e.b5 = e'.b5) :
    e.present = e'.present ∧ e.level = e'.level ∧ e.kind = e'.kind := by
  unfold present level kind
  rw [same]
  exact ⟨rfl, rfl, rfl⟩

theorem limit_congr {e e' : TableEntry} (b0 : e.b0 = e'.b0) (b1 : e.b1 = e'.b1) (b6 : e.b6 = e'.b6) :
    e.limit = e'.limit := by
  unfold limit
  rw [b0, b1, b6]

theorem read_congr {m m' : Bytes.Mem} {addr : ℕ} (same : ∀ k < 8, m' (addr + k) = m (addr + k)) :
    read m' addr = read m addr := by
  unfold read
  rw [same 1 (by omega), same 2 (by omega), same 3 (by omega), same 4 (by omega), same 5 (by omega),
    same 6 (by omega), same 7 (by omega), show m' addr = m addr from same 0 (by omega)]

theorem read_withAccess {m m' : Bytes.Mem} {a b : ℕ} {access : BitVec 8}
    (same : ∀ k < 8, k ≠ 5 → m' (a + k) = m (b + k)) (stored : m' (a + 5) = access) :
    read m' a = (read m b).withAccess access := by
  unfold read withAccess
  rw [same 1 (by omega) (by omega), same 2 (by omega) (by omega), same 3 (by omega) (by omega),
    same 4 (by omega) (by omega), stored, same 6 (by omega) (by omega), same 7 (by omega) (by omega),
    show m' a = m b from same 0 (by omega) (by omega)]

end TableEntry

/-! ### Selectors -/

/-- The level that a selector asks for. -/
def rpl (selector : BitVec 16) : ℕ := selector.toNat % 4

/-- The table of a selector is the local one. -/
def isLocal (selector : BitVec 16) : Bool := selector.getLsbD 2

def index (selector : BitVec 16) : ℕ := selector.toNat / 8

/-- A table: where it lies, and its last byte. -/
structure Table where
  base : ℕ
  limit : ℕ

/-- A segment that holds a table. -/
def TableEntry.table (e : TableEntry) : Table := ⟨e.base.toNat, e.limit⟩

structure Tables where
  mem : Bytes.Mem
  gdt : Table
  ldt : Table
  idt : Table

namespace Tables

variable (t : Tables)

def entry (table : Table) (i : ℕ) : Option TableEntry :=
  if i * 8 + 7 ≤ table.limit then some (.read t.mem (table.base + i * 8)) else none

/-- What a selector finds; the first four are null. -/
def find (selector : BitVec 16) : Option TableEntry :=
  if selector.toNat < 4 then none
  else t.entry (if isLocal selector then t.ldt else t.gdt) (index selector)

/-- The local table that `lldt` loads. -/
def localTable (selector : BitVec 16) : Option Table :=
  ((t.find selector).filter fun e => !isLocal selector && e.present && e.kind == .ldt).map
    TableEntry.table

variable {t}

theorem entry_eq {table : Table} {i : ℕ} (inside : i * 8 + 7 ≤ table.limit) :
    t.entry table i = some (.read t.mem (table.base + i * 8)) := if_pos inside

theorem entry_none {table : Table} {i : ℕ} (outside : table.limit < i * 8 + 7) :
    t.entry table i = none := if_neg (Nat.not_le.mpr outside)

end Tables

/-! ### What code can try -/

inductive Action where
  | loadData (selector : BitVec 16)
  | loadStack (selector : BitVec 16)
  | far (selector : BitVec 16)
  | farReturn (selector : BitVec 16)
  | softInt (vector : ℕ)

/-- What comes of it: the code goes on at a level, or it is gone, through an interrupt gate, a call gate
or to another task. -/
inductive Outcome where
  | fault
  | goesOn (level : ℕ)
  | enters (offset : BitVec 32) (level : ℕ)
  | call (gate : TableEntry)
  | task (gate : TableEntry)
deriving DecidableEq

namespace Tables

variable (t : Tables) (cpl : ℕ)

/-- A data segment register is loaded. -/
def loadData (selector : BitVec 16) : Option TableEntry :=
  (t.find selector).filter fun e => e.present && match e.kind with
    | .data _ => decide (max cpl (rpl selector) ≤ e.level)
    | .code conforming readable => readable && (conforming || decide (max cpl (rpl selector) ≤ e.level))
    | _ => false

/-- The stack segment register is loaded. -/
def loadStack (selector : BitVec 16) : Option TableEntry :=
  (t.find selector).filter fun e =>
    e.present && e.kind == .data true && decide (rpl selector = cpl ∧ e.level = cpl)

/-- A far jump or call. -/
def far (selector : BitVec 16) : Outcome :=
  match t.find selector with
  | none => .fault
  | some e =>
    if ¬ e.present then .fault
    else match e.kind with
      | .code true _ => if e.level ≤ cpl then .goesOn cpl else .fault
      | .code false _ => if rpl selector ≤ cpl ∧ e.level = cpl then .goesOn cpl else .fault
      | .callGate => if max cpl (rpl selector) ≤ e.level then .call e else .fault
      | .tss false | .taskGate => if max cpl (rpl selector) ≤ e.level then .task e else .fault
      | _ => .fault

/-- A far return, or `iret`, to the code segment of a selector. -/
def farReturn (selector : BitVec 16) : Outcome :=
  match t.find selector with
  | none => .fault
  | some e =>
    if rpl selector < cpl ∨ ¬ e.present then .fault
    else match e.kind with
      | .code true _ => if e.level ≤ rpl selector then .goesOn (rpl selector) else .fault
      | .code false _ => if e.level = rpl selector then .goesOn (rpl selector) else .fault
      | _ => .fault

/-- Through an interrupt gate or a trap gate. -/
def through (gate : TableEntry) : Outcome :=
  match t.find gate.target with
  | none => .fault
  | some e =>
    if ¬ e.present ∨ cpl < e.level then .fault
    else match e.kind with
      | .code true _ => .enters gate.offset cpl
      | .code false _ => .enters gate.offset e.level
      | _ => .fault

/-- An interrupt that the processor makes. -/
def interrupt (vector : ℕ) : Outcome :=
  match t.entry t.idt vector with
  | none => .fault
  | some gate =>
    if ¬ gate.present then .fault
    else match gate.kind with
      | .interruptGate | .trapGate => t.through cpl gate
      | .taskGate => .task gate
      | _ => .fault

/-- One that code asks for: the gate has a level, too. -/
def softInt (vector : ℕ) : Outcome :=
  match t.entry t.idt vector with
  | none => .fault
  | some gate => if gate.level < cpl then .fault else t.interrupt cpl vector

def perform : Action → Outcome
  | .loadData selector =>
    if selector.toNat < 4 ∨ (t.loadData cpl selector).isSome then .goesOn cpl else .fault
  | .loadStack selector => if (t.loadStack cpl selector).isSome then .goesOn cpl else .fault
  | .far selector => t.far cpl selector
  | .farReturn selector => t.farReturn cpl selector
  | .softInt vector => t.softInt cpl vector

/-- Code tries one thing after the other, as long as it goes on. -/
def run : List Action → ℕ → Outcome
  | [], cpl => .goesOn cpl
  | action :: actions, cpl =>
    match t.perform cpl action with
    | .goesOn level => run actions level
    | outcome => outcome

end Tables

/-! ### Confinement -/

/-- An entry that leads code of a level to no other level. -/
def TableEntry.Tight (cpl : ℕ) (e : TableEntry) : Prop :=
  e.present = true → match e.kind with
    | .code conforming _ => conforming = false ∧ e.level ≤ cpl
    | .tss false | .taskGate | .callGate => e.level < cpl
    | _ => True

/-- **The tables confine code of a level** to it, but for some doors. -/
structure Tables.Confines (t : Tables) (cpl : ℕ) (doors : BitVec 32 → ℕ → Prop) : Prop where
  tight : ∀ selector e, t.find selector = some e → e.Tight cpl
  guarded : ∀ vector, t.softInt cpl vector = .fault ∨
    ∃ offset level, t.softInt cpl vector = .enters offset level ∧ doors offset level

/-- What may come of what confined code tries. -/
def Outcome.Kept (cpl : ℕ) (doors : BitVec 32 → ℕ → Prop) : Outcome → Prop
  | .fault => True
  | .goesOn level => level = cpl
  | .enters offset level => doors offset level
  | .call _ => False
  | .task _ => False

namespace Tables.Confines

variable {t : Tables} {cpl : ℕ} {doors : BitVec 32 → ℕ → Prop}

theorem far (confines : t.Confines cpl doors) (selector : BitVec 16) :
    (t.far cpl selector).Kept cpl doors := by
  unfold Tables.far
  cases found : t.find selector with
  | none => trivial
  | some e =>
    -- a gate or a task below the level of the code faults
    have shut : e.level < cpl → ∀ outcome : Outcome,
        (if max cpl (rpl selector) ≤ e.level then outcome else .fault).Kept cpl doors := by
      intro low outcome
      rw [if_neg (by omega)]
      trivial
    by_cases present : e.present = true
    · have tight := confines.tight selector e found present
      dsimp only
      rw [if_neg fun no => no present]
      cases kind : e.kind <;> rw [kind] at tight
      case code conforming readable =>
        obtain ⟨rfl, -⟩ : conforming = false ∧ e.level ≤ cpl := tight
        dsimp only
        split
        · rfl
        · trivial
      case tss busy =>
        cases busy
        · exact shut tight _
        · trivial
      case taskGate => exact shut tight _
      case callGate => exact shut tight _
      all_goals trivial
    · dsimp only
      rw [if_pos present]
      trivial

theorem farReturn (confines : t.Confines cpl doors) (selector : BitVec 16) :
    (t.farReturn cpl selector).Kept cpl doors := by
  unfold Tables.farReturn
  cases found : t.find selector with
  | none => trivial
  | some e =>
    have tight := confines.tight selector e found
    dsimp only
    split
    · trivial
    · rename_i allowed
      obtain ⟨above, present⟩ := not_or.mp allowed
      have tight := tight (not_not.mp present)
      cases kind : e.kind <;> rw [kind] at tight
      case code conforming readable =>
        obtain ⟨rfl, low⟩ : conforming = false ∧ e.level ≤ cpl := tight
        dsimp only
        split
        · rename_i same
          show rpl selector = cpl
          omega
        · trivial
      all_goals trivial

/-- One thing that confined code tries. -/
theorem perform (confines : t.Confines cpl doors) (action : Action) :
    (t.perform cpl action).Kept cpl doors := by
  cases action with
  | loadData selector =>
    rw [Tables.perform]
    split
    · rfl
    · trivial
  | loadStack selector =>
    rw [Tables.perform]
    split
    · rfl
    · trivial
  | far selector => exact confines.far selector
  | farReturn selector => exact confines.farReturn selector
  | softInt vector =>
    rw [Tables.perform]
    rcases confines.guarded vector with fault | ⟨offset, level, enters, door⟩
    · rw [fault]
      trivial
    · rw [enters]
      exact door

/-- **Confined code** stays at its level, faults, or enters through a door, whatever it tries. -/
theorem run (confines : t.Confines cpl doors) (actions : List Action) :
    (t.run actions cpl).Kept cpl doors := by
  induction actions with
  | nil => rfl
  | cons action actions ih =>
    have kept := confines.perform action
    rw [Tables.run]
    cases outcome : t.perform cpl action with
    | goesOn level =>
      rw [outcome] at kept
      obtain rfl : level = cpl := kept
      exact ih
    | fault => trivial
    | enters offset level => rw [outcome] at kept; exact kept
    | call gate => rw [outcome] at kept; exact kept
    | task gate => rw [outcome] at kept; exact kept

end Tables.Confines

/-! ### Ports -/

/-- Code of a level may use a port: by its I/O level, or when the bitmap of the task has a 0 for it. The
processor finds the offset of the bitmap at 102 of the TSS, and reads two bytes of the bitmap, which
must lie within the limit. -/
def portAllowed (m : Bytes.Mem) (tss : Table) (cpl iopl : ℕ) (port : BitVec 16) : Prop :=
  cpl ≤ iopl ∨
    ((Bytes.load16 m (tss.base + 102)).toNat + port.toNat / 8 + 1 ≤ tss.limit ∧
      (m (tss.base + (Bytes.load16 m (tss.base + 102)).toNat + port.toNat / 8)).getLsbD
        (port.toNat % 8) = false)

end Privilege
