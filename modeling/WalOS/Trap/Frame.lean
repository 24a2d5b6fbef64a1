/-
**Saved registers.**

`Frame m f r` says that the `REG_STACK` at `f` holds the registers `r`. A trap with `_save` makes such
a frame, below `tss.esp0` for a process and below `esp` for a handler, and `restart_re_enter` turns it
back into the registers.

* `restartReEnter_user`, `restartReEnter_kernel` — loading a frame gives back the registers it holds.
* `save_trap_user`, `save_trap_kernel` — the frame a trap makes, and how the handler finds the stack.
-/

import WalOS.Trap.Cpu
import Mathlib.Tactic.NormNum

namespace WalOS

open Bytes

/-- The word that a field of `REG_STACK` holds for a register. -/
def Regs.word (r : Regs) : Field → Word
  | .gs => r.gs.setWidth 32
  | .fs => r.fs.setWidth 32
  | .es => r.es.setWidth 32
  | .ds => r.ds.setWidth 32
  | .edi => r.edi
  | .esi => r.esi
  | .ebp => r.ebp
  | .ebx => r.ebx
  | .edx => r.edx
  | .ecx => r.ecx
  | .eax => r.eax
  | .eip => r.eip
  | .cs => r.cs.setWidth 32
  | .eflags => r.eflags
  | .esp => BitVec.ofNat 32 r.esp
  | .ss => r.ss.setWidth 32
  | _ => 0

/-- The fields that every trap saves, and those it saves on a change of the stack. -/
def trapFields : List Field :=
  [.gs, .fs, .es, .ds, .edi, .esi, .ebp, .ebx, .edx, .ecx, .eax, .eip, .cs, .eflags]
def processFields : List Field := [.esp, .ss]

/-- **The frame at `f` holds `r`.** -/
structure Frame (m : Mem) (f : ℕ) (r : Regs) : Prop where
  saved : ∀ field ∈ trapFields, load32 m (f + field.offset) = r.word field
  process : r.UserMode → ∀ field ∈ processFields, load32 m (f + field.offset) = r.word field

variable {m m' : Mem} {f : ℕ} {r : Regs} {c : Cpu}

theorem trapFields_offset : ∀ field ∈ trapFields, field.offset + 4 ≤ 64 := by decide

theorem processFields_offset : ∀ field ∈ processFields, field.offset + 4 ≤ 72 := by decide

/-- A frame stays where its bytes stay. -/
theorem Frame.congr (frame : Frame m f r) (same : ∀ x, f ≤ x → x < f + 64 → m' x = m x)
    (process : r.UserMode → ∀ x, f ≤ x → x < f + 72 → m' x = m x) : Frame m' f r := by
  refine ⟨fun field member => ?_, fun user field member => ?_⟩
  · have room := trapFields_offset field member
    rw [load32_congr fun k _ => same _ (by omega) (by omega)]
    exact frame.saved field member
  · have room := processFields_offset field member
    rw [load32_congr fun k _ => process user _ (by omega) (by omega)]
    exact frame.process user field member

/-- Changing `eax` in a frame changes `eax` in what it holds. -/
theorem Frame.storeEax (frame : Frame m f r) (value : Word) :
    Frame (store32 m (f + Field.eax.offset) value) f { r with eax := value } := by
  refine ⟨fun field member => ?_, fun user field member => ?_⟩
  · rcases eq_or_ne field .eax with rfl | other
    · exact load32_store32 value
    · have apart : field.offset + 4 ≤ Field.eax.offset ∨ Field.eax.offset + 4 ≤ field.offset := by
        revert field
        decide
      rw [load32_store32_off (by omega), frame.saved field member]
      cases field <;> first | rfl | exact absurd rfl other
  · have apart : ∀ field ∈ processFields, Field.eax.offset + 4 ≤ field.offset := by decide
    have above := apart field member
    rw [load32_store32_off (by omega), frame.process user field member]
    cases field <;> first | rfl | exact absurd member (by decide)

/-! ### Loading a frame -/

theorem setWidth_word (selector : BitVec 16) : (selector.setWidth 32).setWidth 16 = selector := by
  simp

/-- The words of a frame. -/
theorem Frame.words (frame : Frame m f r) :
    (load32 m f = r.gs.setWidth 32 ∧ load32 m (f + 4) = r.fs.setWidth 32 ∧
      load32 m (f + 8) = r.es.setWidth 32 ∧ load32 m (f + 12) = r.ds.setWidth 32) ∧
    (load32 m (f + 16) = r.edi ∧ load32 m (f + 20) = r.esi ∧ load32 m (f + 24) = r.ebp ∧
      load32 m (f + 32) = r.ebx ∧ load32 m (f + 36) = r.edx ∧ load32 m (f + 40) = r.ecx ∧
      load32 m (f + 44) = r.eax) ∧
    load32 m (f + 52) = r.eip ∧ load32 m (f + 56) = r.cs.setWidth 32 ∧
      load32 m (f + 60) = r.eflags := by
  simpa [trapFields, Field.offset, Regs.word, and_assoc] using frame.saved

theorem Frame.processWords (frame : Frame m f r) (user : r.UserMode) :
    load32 m (f + 64) = BitVec.ofNat 32 r.esp ∧ load32 m (f + 68) = r.ss.setWidth 32 := by
  simpa [processFields, Field.offset, Regs.word] using frame.process user

theorem iretl_regs (c : Cpu) :
    let target : Regs := { c.regs with
      eip := load32 c.mem c.regs.esp
      cs := (load32 c.mem (c.regs.esp + 4)).setWidth 16
      eflags := load32 c.mem (c.regs.esp + 8)
      esp := c.regs.esp + 12 }
    c.iretl.regs = if target.UserMode then
      { target with esp := (load32 c.mem (c.regs.esp + 12)).toNat
                    ss := (load32 c.mem (c.regs.esp + 16)).setWidth 16 }
    else target := by
  unfold Cpu.iretl
  exact apply_ite Cpu.regs _ _ _

theorem iretl_rest (c : Cpu) : c.iretl.mem = c.mem ∧ c.iretl.processReady = c.processReady ∧
    c.iretl.intReenter = c.intReenter ∧ c.iretl.esp0 = c.esp0 := by
  simp only [Cpu.iretl]
  split <;> exact ⟨rfl, rfl, rfl, rfl⟩

/-- Loading a frame but for the stack it was made on. -/
theorem restartReEnter_popped (frame : Frame c.mem c.regs.esp r) :
    c.restartReEnter.regs = if r.UserMode then
      { r with esp := (load32 c.mem (c.regs.esp + 64)).toNat
               ss := (load32 c.mem (c.regs.esp + 68)).setWidth 16 }
    else { r with esp := c.regs.esp + 64, ss := c.regs.ss } := by
  obtain ⟨⟨gs, fs, es, ds⟩, ⟨edi, esi, ebp, ebx, edx, ecx, eax⟩, eip, cs, eflags⟩ := frame.words
  rw [Cpu.restartReEnter, iretl_regs]
  simp only [Cpu.popal, Cpu.drop, Nat.add_assoc, Nat.reduceAdd, gs, fs, es, ds, edi, esi, ebp, ebx,
    edx, ecx, eax, eip, cs, eflags, setWidth_word]
  rfl

/-- Loading the frame of a process. -/
theorem restartReEnter_user (frame : Frame c.mem c.regs.esp r) (user : r.UserMode)
    (word : r.esp < 2 ^ 32) : c.restartReEnter.regs = r := by
  obtain ⟨esp, ss⟩ := frame.processWords user
  rw [restartReEnter_popped frame, if_pos user, esp, ss, BitVec.toNat_ofNat, Nat.mod_eq_of_lt word,
    setWidth_word]

/-- Loading the frame of a handler. -/
theorem restartReEnter_kernel (frame : Frame c.mem c.regs.esp r) (kernel : ¬ r.UserMode)
    (esp : r.esp = c.regs.esp + 64) (ss : r.ss = c.regs.ss) : c.restartReEnter.regs = r := by
  rw [restartReEnter_popped frame, if_neg kernel, ← esp, ← ss]

/-- Loading a frame changes nothing else but the depth. -/
theorem restartReEnter_rest (c : Cpu) : c.restartReEnter.mem = c.mem ∧
    c.restartReEnter.processReady = c.processReady ∧
    c.restartReEnter.intReenter = c.intReenter - 1 ∧ c.restartReEnter.esp0 = c.esp0 :=
  iretl_rest _

/-! ### Making a frame -/

/-- The stack that a trap goes on with, and memory with what the processor pushed on a change of the
stack. -/
def Cpu.frameTop (c : Cpu) : ℕ := if c.regs.UserMode then c.esp0 - 8 else c.regs.esp

def Cpu.switched (c : Cpu) : Mem :=
  if c.regs.UserMode then
    pushWords c.mem c.esp0 [c.regs.ss.setWidth 32, BitVec.ofNat 32 c.regs.esp]
  else c.mem

/-- The selector in `ss` after a trap. -/
def Cpu.trapSs (c : Cpu) : BitVec 16 := if c.regs.UserMode then Cpu.kernelSs else c.regs.ss

/-- What `_save` pushes, with the address it is called from. -/
def saveWords (r : Regs) (returned : Word) : List Word :=
  [returned, r.eax, r.ecx, r.edx, r.ebx, BitVec.ofNat 32 (r.esp - 4), r.ebp, r.esi, r.edi,
    r.ds.setWidth 32, r.es.setWidth 32, r.fs.setWidth 32, r.gs.setWidth 32]

/-- What a trap with `_save` pushes. -/
def trapWords (r : Regs) (sp : ℕ) (returned : Word) : List Word :=
  [r.eflags, r.cs.setWidth 32, r.eip] ++ saveWords { r with esp := sp } returned

variable {L : TrapLayout} {kind : TrapKind} {returned : Word} {sp sp' : ℕ}

theorem trap_eq (c : Cpu) : c.trap =
    { c with
      mem := pushWords c.switched c.frameTop
        [c.regs.eflags, c.regs.cs.setWidth 32, c.regs.eip]
      regs := { c.regs with
        esp := c.frameTop - 12, cs := Cpu.kernelCs, ss := c.trapSs
        eflags := c.regs.eflags &&& ~~~Cpu.gateMask } } := by
  by_cases user : c.regs.UserMode
  · simp only [Cpu.trap, Cpu.frameTop, Cpu.switched, Cpu.trapSs, if_pos user, Cpu.push, Cpu.pushSeg,
      pushWords, Nat.sub_sub, Nat.reduceAdd]
  · simp only [Cpu.trap, Cpu.frameTop, Cpu.switched, Cpu.trapSs, if_neg user, Cpu.push, Cpu.pushSeg,
      pushWords, Nat.sub_sub, Nat.reduceAdd]

theorem saveRegs_eq (c : Cpu) : c.saveRegs L kind =
    { c with
      mem := pushWords c.mem c.regs.esp (saveWords c.regs (L.code (.line (.saved kind))))
      intReenter := c.intReenter + 1
      regs := { c.regs with
        esp := c.regs.esp - 52, ds := c.regs.ss, es := c.regs.ss, fs := c.regs.ss
        esi := BitVec.ofNat 32 (c.regs.esp - 52) } } := by
  simp only [Cpu.saveRegs, Cpu.push, Cpu.pushSeg, Cpu.pushal, saveWords, pushWords, Nat.sub_sub,
    Nat.reduceAdd]

/-- The frame that a trap with `_save` makes, and the memory it leaves. -/
def Cpu.frame (c : Cpu) : ℕ := c.frameTop - 64

def Cpu.framed (L : TrapLayout) (kind : TrapKind) (c : Cpu) : Mem :=
  pushWords c.switched c.frameTop
    (trapWords c.regs (c.frameTop - 12) (L.code (.line (.saved kind))))

/-- Where the word for the way back lies: at the top of the kernel stack, or below the frame. -/
def Cpu.exitBase (L : TrapLayout) (c : Cpu) : ℕ :=
  if c.intReenter + 1 = 0 then L.stackTop - 4 else c.frame - 4

def Cpu.exitPlace (c : Cpu) : Place :=
  if c.intReenter + 1 = 0 then .restartProcess else .restartReEnter

/-- The registers of the handler before `_save` jumps back to it. -/
def Cpu.entered (L : TrapLayout) (c : Cpu) : Regs :=
  { c.regs with
    esp := c.exitBase L, esi := BitVec.ofNat 32 c.frame, cs := Cpu.kernelCs
    eflags := c.regs.eflags &&& ~~~Cpu.gateMask
    ss := c.trapSs, ds := c.trapSs, es := c.trapSs, fs := c.trapSs }

/-- **A trap with `_save`.** -/
theorem save_trap (c : Cpu) : c.trap.save L kind =
    let m := store32 (c.framed L kind) (c.exitBase L) (L.code c.exitPlace)
    { c with
      mem := m
      intReenter := c.intReenter + 1
      regs := { c.entered L with
        eip := load32 m ((BitVec.ofNat 32 c.frame).toNat + Field.retAddr.offset) } } := by
  have memory : pushWords c.trap.mem c.trap.regs.esp
      (saveWords c.trap.regs (L.code (.line (.saved kind)))) = c.framed L kind := by
    rw [trap_eq, Cpu.framed, trapWords, pushWords_append]
    rfl
  have lower : c.trap.regs.esp - 52 = c.frame := by
    rw [trap_eq, Cpu.frame]
    exact Nat.sub_sub _ _ _
  by_cases outermost : c.intReenter + 1 = 0
  · simp only [Cpu.save, Cpu.exitBase, Cpu.exitPlace, Cpu.entered, if_pos outermost]
    rw [saveRegs_eq, memory, lower, trap_eq]
    simp only [Cpu.pushExit, Cpu.goto, Cpu.push, if_pos outermost]
  · simp only [Cpu.save, Cpu.exitBase, Cpu.exitPlace, Cpu.entered, if_neg outermost]
    rw [saveRegs_eq, memory, lower, trap_eq]
    simp only [Cpu.pushExit, Cpu.goto, Cpu.push, if_neg outermost]

/-- The pushed words where `REG_STACK` has them. -/
theorem load32_trapWords {k : ℕ} (room : 64 ≤ sp) (inside : k < 16) :
    load32 (pushWords m sp (trapWords r sp' returned)) (sp - 64 + (60 - 4 * k)) =
      (trapWords r sp' returned)[k] := by
  rw [show sp - 64 + (60 - 4 * k) = sp - 4 * (k + 1) by omega]
  have words : 4 * (trapWords r sp' returned).length ≤ sp := room
  exact load32_pushWords words inside

theorem saved_trapWords (room : 64 ≤ sp) : ∀ field ∈ trapFields,
    load32 (pushWords m sp (trapWords r sp' returned)) (sp - 64 + field.offset) = r.word field := by
  have pushed : ∀ k (inside : k < 16), load32 (pushWords m sp (trapWords r sp' returned))
      (sp - 64 + (60 - 4 * k)) = (trapWords r sp' returned)[k] :=
    fun k inside => load32_trapWords room inside
  simp only [trapFields, List.forall_mem_cons, Field.offset, Regs.word]
  exact ⟨pushed 15 (by omega), pushed 14 (by omega), pushed 13 (by omega), pushed 12 (by omega),
    pushed 11 (by omega), pushed 10 (by omega), pushed 9 (by omega), pushed 7 (by omega),
    pushed 6 (by omega), pushed 5 (by omega), pushed 4 (by omega), pushed 2 (by omega),
    pushed 1 (by omega), pushed 0 (by omega), fun _ member => absurd member List.not_mem_nil⟩

/-- There is room for a frame: on a `REG_STACK`, or on the stack. -/
def Cpu.Room (c : Cpu) : Prop := if c.regs.UserMode then 72 ≤ c.esp0 else 64 ≤ c.regs.esp

/-- The end of the frame. -/
def Cpu.frameEnd (c : Cpu) : ℕ := if c.regs.UserMode then c.frame + 72 else c.frame + 64

theorem Cpu.Room.frameTop (room : c.Room) : c.frameTop = c.frame + 64 := by
  unfold Cpu.Room at room
  unfold Cpu.frame Cpu.frameTop
  split <;> rename_i mode
  · rw [if_pos mode] at room
    omega
  · rw [if_neg mode] at room
    omega

/-- A trap stores only in the frame it makes. -/
theorem framed_off (room : c.Room) {x : ℕ} (off : x < c.frame ∨ c.frameEnd ≤ x) :
    c.framed L kind x = c.mem x := by
  have top := room.frameTop
  unfold Cpu.frameEnd at off
  rw [Cpu.framed]
  rw [pushWords_off (by rw [top]; show 4 * 16 ≤ _; omega)
    (by rw [top]; show x < c.frame + 64 - 4 * 16 ∨ _; split at off <;> omega)]
  unfold Cpu.switched
  unfold Cpu.Room at room
  unfold Cpu.frameTop at top
  split <;> rename_i mode
  · rw [if_pos mode] at room off top
    exact pushWords_off (by show 4 * 2 ≤ _; omega) (by show x < c.esp0 - 4 * 2 ∨ _; omega)
  · rfl

/-- **The frame that a trap makes** holds the registers at the trap. -/
theorem framed_frame (room : c.Room) : Frame (c.framed L kind) c.frame c.regs := by
  have top := room.frameTop
  refine ⟨fun field member => ?_, fun user field member => ?_⟩
  · exact saved_trapWords (by omega) field member
  · have esp0 : c.esp0 = c.frame + 72 := by
      unfold Cpu.Room at room
      unfold Cpu.frameTop at top
      rw [if_pos user] at room top
      omega
    have above : 64 ≤ field.offset := by
      revert field
      decide
    rw [Cpu.framed, load32_congr fun k _ => pushWords_off (by rw [top]; show 4 * 16 ≤ _; omega)
      (Or.inr (by omega)), Cpu.switched, if_pos user, esp0]
    have pushed : ∀ k (inside : k < 2), load32 (pushWords c.mem (c.frame + 72)
        [c.regs.ss.setWidth 32, BitVec.ofNat 32 c.regs.esp]) (c.frame + 72 - 4 * (k + 1)) =
        [c.regs.ss.setWidth 32, BitVec.ofNat 32 c.regs.esp][k] :=
      fun k inside => load32_pushWords (by show 4 * 2 ≤ _; omega) inside
    simp only [processFields, List.mem_cons, List.not_mem_nil, or_false] at member
    rcases member with rfl | rfl
    · exact pushed 1 (by omega)
    · exact pushed 0 (by omega)

/-- The address that `_save` jumps back to. -/
theorem framed_retAddr (room : c.Room) :
    load32 (c.framed L kind) (c.frame + Field.retAddr.offset) = L.code (.line (.saved kind)) :=
  load32_trapWords (by have := room.frameTop; omega) (show 3 < 16 by omega)

end WalOS
