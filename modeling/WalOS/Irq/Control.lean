/-
**The interrupt controllers as the kernel programs them** (`interrupt.c`, `interrupt.s`).

* `init8259a`, `enableIrq`, `disableIrq`, `setIrqHandler` — the code; the two functions of
  `interrupt.s` rotate a byte by the low byte of their argument.
* `masked_enableIrq`, `masked_disableIrq` — each changes the mask of one line, whatever its argument.
* `irq_calls_refine` — **after `init_8259a`, from any state of the controllers, a line is unmasked
  exactly while the last call about it enabled it**.
-/

import WalOS.Lib.Intel8259

namespace WalOS

open Intel8259

/-! ### The code -/

/-- `INT_M_CTRL` and the other ports. -/
def intMCtrl : BitVec 16 := 0x20
def intMCtrlMask : BitVec 16 := 0x21
def intSCtrl : BitVec 16 := 0xa0
def intSCtrlMask : BitVec 16 := 0xa1

/-- `INT_VECTOR_IRQ0` and `INT_VECTOR_IRQ8`. -/
def intVectorIrq0 : BitVec 8 := 0x20
def intVectorIrq8 : BitVec 8 := 0x28

/-- `IRQ_CNT`. -/
abbrev irqCnt : ℕ := 16

/-- What `irq_table` points to. -/
inductive IrqHandler where
  | dummyIrqHandler
  | clockIntHandler
  | keyboardIntHandler
  | hddIntHandler
deriving DecidableEq

/-- The controllers and `irq_table`. -/
structure Irqs where
  pics : Pics
  irqTable : Fin irqCnt → IrqHandler

/-- `outb`, at the ports of the controllers. -/
def outb (value : BitVec 8) (port : BitVec 16) (pics : Pics) : Pics :=
  if port = intMCtrl then Function.update pics .master ((pics .master).writeCtrl value)
  else if port = intMCtrlMask then Function.update pics .master ((pics .master).writeData value)
  else if port = intSCtrl then Function.update pics .slave ((pics .slave).writeCtrl value)
  else if port = intSCtrlMask then Function.update pics .slave ((pics .slave).writeData value)
  else pics

/-- `inb`, at the data ports. -/
def inb (port : BitVec 16) (pics : Pics) : BitVec 8 :=
  if port = intMCtrlMask then (pics .master).mask else (pics .slave).mask

/-- The controllers at the end of `init_8259a`. -/
def initPics (pics : Pics) : Pics :=
  -- ICW1
  let pics := outb 0x11 intMCtrl pics
  let pics := outb 0x11 intSCtrl pics
  -- ICW2
  let pics := outb intVectorIrq0 intMCtrlMask pics
  let pics := outb intVectorIrq8 intSCtrlMask pics
  -- ICW3
  let pics := outb 0x4 intMCtrlMask pics
  let pics := outb 0x2 intSCtrlMask pics
  -- ICW4
  let pics := outb 0x1 intMCtrlMask pics
  let pics := outb 0x1 intSCtrlMask pics
  -- OCW1
  let pics := outb 0xff intMCtrlMask pics
  outb 0xff intSCtrlMask pics

/-- `init_8259a`. -/
def init8259a (s : Irqs) : Irqs where
  pics := initPics s.pics
  irqTable := (List.finRange irqCnt).foldl
    (fun table i => Function.update table i .dummyIrqHandler) s.irqTable

/-- `disable_irq`: whether the line was unmasked. -/
def disableIrq (irq : BitVec 32) (pics : Pics) : BitVec 32 × Pics :=
  let cl := irq.setWidth 8
  let ah := (1#8).rotateLeft cl.toNat
  let port := if cl ≥ 8 then intSCtrlMask else intMCtrlMask
  let al := inb port pics
  if al &&& ah ≠ 0 then (0, pics) else (1, outb (al ||| ah) port pics)

def enableIrq (irq : BitVec 32) (pics : Pics) : Pics :=
  let cl := irq.setWidth 8
  let ah := (~~~1#8).rotateLeft cl.toNat
  let port := if cl ≥ 8 then intSCtrlMask else intMCtrlMask
  let al := inb port pics
  outb (al &&& ah) port pics

def setIrqHandler (irq : Fin irqCnt) (handler : IrqHandler) (s : Irqs) : Irqs where
  pics := (disableIrq (BitVec.ofNat 32 irq) s.pics).2
  irqTable := Function.update s.irqTable irq handler

/-- A call of the drivers. -/
inductive IrqCall where
  | enable (irq : BitVec 32)
  | disable (irq : BitVec 32)
  | set (irq : Fin irqCnt) (handler : IrqHandler)

def IrqCall.run (s : Irqs) : IrqCall → Irqs
  | enable irq => { s with pics := enableIrq irq s.pics }
  | disable irq => { s with pics := (disableIrq irq s.pics).2 }
  | set irq handler => setIrqHandler irq handler s

/-! ### What the calls are for -/

/-- The line that an argument stands for: its low byte decides. -/
def irqLine (irq : BitVec 32) : Fin 16 :=
  let cl := irq.setWidth 8
  let i : Fin 8 := ⟨cl.toNat % 8, Nat.mod_lt _ (by decide)⟩
  if cl ≥ 8 then slaveLine i else i.castLE eight_le_sixteen

/-- **The controllers as a set of enabled lines.** -/
def IrqCall.enables (on : Fin 16 → Bool) : IrqCall → Fin 16 → Bool
  | enable irq => Function.update on (irqLine irq) true
  | disable irq => Function.update on (irqLine irq) false
  | set irq _ => Function.update on irq false

def IrqCall.handles (table : Fin irqCnt → IrqHandler) : IrqCall → Fin irqCnt → IrqHandler
  | set irq handler => Function.update table irq handler
  | _ => table

/-- **The controllers as `init_8259a` leaves them**: their vectors, wired, masks next. -/
structure Programmed (pics : Pics) : Prop where
  wired : pics.Wired
  expects : ∀ chip, (pics chip).expects = .mask
  vector : ∀ n : Fin 16, pics.vectorOf n = intVectorIrq0 + BitVec.ofNat 8 n

/-- The controllers are programmed alike. -/
def SameProgram (pics pics' : Pics) : Prop := ∀ chip,
  (pics' chip).vector = (pics chip).vector ∧ (pics' chip).wiring = (pics chip).wiring ∧
    (pics' chip).mode = (pics chip).mode ∧ (pics' chip).expects = (pics chip).expects

/-- Only masks differ. -/
def SameButMasks (pics pics' : Pics) : Prop :=
  ∀ chip, ∃ mask, pics' chip = { pics chip with mask := mask }

variable {pics pics' : Pics} {n : Fin 16}

/-! ### The masks -/

/-- The mask port of a controller. -/
def maskPort : Chip → BitVec 16
  | .master => intMCtrlMask
  | .slave => intSCtrlMask

theorem inb_maskPort (chip : Chip) (pics : Pics) : inb (maskPort chip) pics = (pics chip).mask := by
  cases chip <;> rfl

/-- A mask is written where a mask is expected. -/
theorem outb_maskPort (programmed : Programmed pics) (chip : Chip) (value : BitVec 8) :
    outb value (maskPort chip) pics =
      Function.update pics chip { pics chip with mask := value } := by
  rw [← writeData_mask (programmed.expects chip)]
  cases chip <;> rfl

theorem SameProgram.programmed (same : SameProgram pics pics') (programmed : Programmed pics) :
    Programmed pics' := by
  obtain ⟨⟨master, slave, mode⟩, expects, vector⟩ := programmed
  refine ⟨⟨(same .master).2.1.trans master, ?_, fun chip => ?_⟩, fun chip => ?_, fun n => ?_⟩
  · rw [(same .slave).2.1]
    exact slave
  · rw [(same chip).2.2.1]
    exact mode chip
  · exact (same chip).2.2.2.trans (expects chip)
  · rw [← vector n, Pics.vectorOf, Pics.vectorOf, (same (chipOf n)).1]

theorem SameButMasks.sameProgram (same : SameButMasks pics pics') : SameProgram pics pics' := by
  intro chip
  obtain ⟨_, chips⟩ := same chip
  rw [chips]
  exact ⟨rfl, rfl, rfl, rfl⟩

theorem SameButMasks.service (same : SameButMasks pics pics') (chip : Chip) :
    (pics' chip).service = (pics chip).service := by
  obtain ⟨_, chips⟩ := same chip
  rw [chips]

theorem SameButMasks.refl (pics : Pics) : SameButMasks pics pics := fun chip => ⟨(pics chip).mask, rfl⟩

theorem SameButMasks.requested (same : SameButMasks pics pics') :
    pics'.Requested n ↔ pics.Requested n := by
  obtain ⟨_, chips⟩ := same (chipOf n)
  rw [Pics.Requested, Pics.Requested, chips]

theorem SameButMasks.quiet (same : SameButMasks pics pics') (quiet : pics.Quiet) : pics'.Quiet :=
  fun chip => (same.service chip).trans (quiet chip)

/-- A write of the mask of one controller. -/
theorem outb_mask (programmed : Programmed pics) (chip : Chip) (value : BitVec 8) :
    SameButMasks pics (outb value (maskPort chip) pics) ∧
      ∀ n, (outb value (maskPort chip) pics).Masked n ↔
        if chipOf n = chip then value.getLsbD (lineOf n) = true else pics.Masked n := by
  rw [outb_maskPort programmed]
  refine ⟨fun other => ?_, fun n => ?_⟩
  · by_cases same : other = chip
    · subst same
      exact ⟨value, Function.update_self ..⟩
    · exact ⟨(pics other).mask, Function.update_of_ne same ..⟩
  · unfold Pics.Masked
    by_cases same : chipOf n = chip
    · rw [if_pos same, same, Function.update_self]
    · rw [if_neg same, Function.update_of_ne same]

/-- Writing the mask of a line with its bit set. -/
theorem setMask_spec (programmed : Programmed pics) (n : Fin 16) :
    let pics' := outb ((pics (chipOf n)).mask ||| bit (lineOf n)) (maskPort (chipOf n)) pics
    SameButMasks pics pics' ∧ ∀ m, pics'.Masked m ↔ m = n ∨ pics.Masked m := by
  obtain ⟨same, masks⟩ := outb_mask programmed (chipOf n) ((pics (chipOf n)).mask ||| bit (lineOf n))
  refine ⟨same, fun m => (masks m).trans ?_⟩
  by_cases chip : chipOf m = chipOf n
  · rw [if_pos chip, getLsbD_or_bit, Pics.Masked, chip, Bool.or_eq_true, decide_eq_true_iff, or_comm]
    exact or_congr ⟨line_ext chip, congrArg lineOf⟩ Iff.rfl
  · rw [if_neg chip]
    exact ⟨Or.inr, fun either => either.elim (fun here => absurd (congrArg chipOf here) chip) id⟩

/-- Writing it with the bit clear. -/
theorem clearMask_spec (programmed : Programmed pics) (n : Fin 16) :
    let pics' := outb ((pics (chipOf n)).mask &&& ~~~bit (lineOf n)) (maskPort (chipOf n)) pics
    SameButMasks pics pics' ∧ ∀ m, pics'.Masked m ↔ m ≠ n ∧ pics.Masked m := by
  obtain ⟨same, masks⟩ := outb_mask programmed (chipOf n) ((pics (chipOf n)).mask &&& ~~~bit (lineOf n))
  refine ⟨same, fun m => (masks m).trans ?_⟩
  by_cases chip : chipOf m = chipOf n
  · rw [if_pos chip, getLsbD_and_not_bit, Pics.Masked, chip, Bool.and_eq_true, decide_eq_true_iff]
    constructor
    · intro ⟨held, apart⟩
      exact ⟨fun here => apart (congrArg lineOf here), held⟩
    · intro ⟨apart, held⟩
      exact ⟨held, fun line => apart (line_ext chip line)⟩
  · rw [if_neg chip]
    exact ⟨fun held => ⟨fun here => chip (congrArg chipOf here), held⟩, fun both => both.2⟩

/-! ### One line -/

theorem chipOf_irqLine (irq : BitVec 32) :
    chipOf (irqLine irq) = if irq.setWidth 8 ≥ 8 then .slave else .master := by
  unfold irqLine
  dsimp only
  split_ifs
  · exact chipOf_slaveLine _
  · exact chipOf_castLE _

theorem lineOf_irqLine (irq : BitVec 32) :
    (lineOf (irqLine irq) : ℕ) = (irq.setWidth 8).toNat % 8 := by
  unfold irqLine
  dsimp only
  split_ifs
  · rw [lineOf_slaveLine]
  · rw [lineOf_castLE]

theorem port_irqLine (irq : BitVec 32) :
    (if irq.setWidth 8 ≥ 8 then intSCtrlMask else intMCtrlMask) =
      maskPort (chipOf (irqLine irq)) := by
  rw [chipOf_irqLine]
  split_ifs <;> rfl

/-- A byte rotated by any amount is rotated by less than 8. -/
theorem rotated_bit (irq : BitVec 32) : (1#8).rotateLeft (irq.setWidth 8).toNat =
    bit (lineOf (irqLine irq)) := by
  have turns : ∀ i : Fin 8, (1#8).rotateLeft i = bit i := by decide
  rw [← turns, lineOf_irqLine, BitVec.rotateLeft_mod_eq_rotateLeft]

theorem rotated_not_bit (irq : BitVec 32) : (~~~1#8).rotateLeft (irq.setWidth 8).toNat =
    ~~~bit (lineOf (irqLine irq)) := by
  have turns : ∀ i : Fin 8, (~~~1#8).rotateLeft i = ~~~bit i := by decide
  rw [← turns, lineOf_irqLine, BitVec.rotateLeft_mod_eq_rotateLeft]

/-- **`enable_irq` unmasks the line of its argument and no other.** -/
theorem masked_enableIrq (programmed : Programmed pics) (irq : BitVec 32) :
    SameButMasks pics (enableIrq irq pics) ∧
      ∀ n, (enableIrq irq pics).Masked n ↔ n ≠ irqLine irq ∧ pics.Masked n := by
  have written : enableIrq irq pics = outb ((pics (chipOf (irqLine irq))).mask &&&
      ~~~bit (lineOf (irqLine irq))) (maskPort (chipOf (irqLine irq))) pics := by
    unfold enableIrq
    dsimp only
    rw [port_irqLine, inb_maskPort, rotated_not_bit]
  rw [written]
  exact clearMask_spec programmed (irqLine irq)

/-- **`disable_irq` masks the line of its argument and no other**, and tells whether it was
unmasked. -/
theorem masked_disableIrq (programmed : Programmed pics) (irq : BitVec 32) :
    SameButMasks pics (disableIrq irq pics).2 ∧
      (disableIrq irq pics).1 = (if pics.Masked (irqLine irq) then 0 else 1) ∧
      ∀ n, (disableIrq irq pics).2.Masked n ↔ n = irqLine irq ∨ pics.Masked n := by
  have tested : (pics (chipOf (irqLine irq))).mask &&& bit (lineOf (irqLine irq)) ≠ 0 ↔
      pics.Masked (irqLine irq) := by
    rw [Pics.Masked]
    constructor
    · intro set
      by_contra clear
      refine set (eq_of_lines fun i => ?_)
      rw [BitVec.getLsbD_and, getLsbD_bit]
      by_cases here : i = lineOf (irqLine irq)
      · rw [here, Bool.eq_false_iff.mpr clear, Bool.false_and]
        exact BitVec.getLsbD_zero.symm
      · rw [decide_eq_false here, Bool.and_false]
        exact BitVec.getLsbD_zero.symm
    · intro set zero
      have here := congrArg (fun b : BitVec 8 => b.getLsbD (lineOf (irqLine irq))) zero
      simp only [BitVec.getLsbD_and, getLsbD_bit, set] at here
      exact absurd here (by simp)
  have written : disableIrq irq pics = if pics.Masked (irqLine irq) then (0, pics) else
      (1, outb ((pics (chipOf (irqLine irq))).mask ||| bit (lineOf (irqLine irq)))
        (maskPort (chipOf (irqLine irq))) pics) := by
    unfold disableIrq
    dsimp only
    rw [port_irqLine, inb_maskPort, rotated_bit]
    exact if_congr tested rfl rfl
  rw [written]
  by_cases masked : pics.Masked (irqLine irq)
  · rw [if_pos masked, if_pos masked]
    exact ⟨.refl pics, rfl, fun n => ⟨Or.inr, fun either => either.elim (· ▸ masked) id⟩⟩
  · rw [if_neg masked, if_neg masked]
    obtain ⟨same, masks⟩ := setMask_spec programmed (irqLine irq)
    exact ⟨same, rfl, masks⟩

theorem irqLine_ofNat (irq : Fin irqCnt) : irqLine (BitVec.ofNat 32 irq) = irq := by
  revert irq
  decide

/-! ### `init_8259a` -/

/-- **What `init_8259a` leaves**, whatever the controllers were in the middle of. -/
theorem initPics_eq (pics : Pics) : initPics pics = fun chip =>
    { vector := if chip = .master then 0x20 else 0x28
      wiring := if chip = .master then 4 else 2
      mode := 1, single := false, needsMode := true, expects := .mask
      mask := 0xff, requests := 0, service := 0 } := by
  funext chip
  cases chip <;> rfl

theorem initPics_programmed (pics : Pics) : Programmed (initPics pics) := by
  rw [initPics_eq]
  refine ⟨⟨by decide, by decide, fun _ => show (1#8).getLsbD 1 = false by decide⟩, fun _ => rfl, ?_⟩
  have vectors : ∀ n : Fin 16, ((if chipOf n = .master then 0x20 else 0x28) |||
      BitVec.ofNat 8 (lineOf n) : BitVec 8) = intVectorIrq0 + BitVec.ofNat 8 n := by
    decide
  exact vectors

/-- **After a boot any calls of the drivers leave exactly the enabled lines unmasked.** -/
theorem irqCall_run (programmed : Programmed pics) (table : Fin irqCnt → IrqHandler) (call : IrqCall)
    (on : Fin 16 → Bool) (enabled : ∀ n, pics.Masked n ↔ on n = false) :
    let s := call.run ⟨pics, table⟩
    SameButMasks pics s.pics ∧ (∀ n, s.pics.Masked n ↔ call.enables on n = false) ∧
      s.irqTable = call.handles table := by
  have disabled : ∀ irq n, (n = irqLine irq ∨ pics.Masked n) ↔
      Function.update on (irqLine irq) false n = false := by
    intro irq n
    by_cases here : n = irqLine irq
    · simp [here]
    · rw [Function.update_of_ne here, enabled]
      simp [here]
  cases call with
  | enable irq =>
    obtain ⟨same, masks⟩ := masked_enableIrq programmed irq
    refine ⟨same, fun n => (masks n).trans ?_, rfl⟩
    rw [IrqCall.enables]
    by_cases here : n = irqLine irq
    · simp [here]
    · rw [Function.update_of_ne here, enabled]
      simp [here]
  | disable irq =>
    obtain ⟨same, _, masks⟩ := masked_disableIrq programmed irq
    exact ⟨same, fun n => (masks n).trans (disabled irq n), rfl⟩
  | set irq handler =>
    obtain ⟨same, _, masks⟩ := masked_disableIrq programmed (BitVec.ofNat 32 irq)
    refine ⟨same, fun n => (masks n).trans ((disabled _ n).trans ?_), rfl⟩
    rw [irqLine_ofNat]
    rfl

/-- The loop of `init_8259a` resets every entry of `irq_table`. -/
theorem foldl_dummies (lines : List (Fin irqCnt)) (table : Fin irqCnt → IrqHandler) (i : Fin irqCnt)
    (either : i ∈ lines ∨ table i = .dummyIrqHandler) :
    lines.foldl (fun table i => Function.update table i .dummyIrqHandler) table i =
      .dummyIrqHandler := by
  induction lines generalizing table with
  | nil => exact either.resolve_left List.not_mem_nil
  | cons j lines ih =>
    refine ih (Function.update table j .dummyIrqHandler) ?_
    by_cases here : i = j
    · exact Or.inr (by rw [here, Function.update_self])
    · rw [Function.update_of_ne here]
      exact either.imp_left fun member => (List.mem_cons.mp member).resolve_left here

/-- **Calls of the drivers**, by induction on the calls. -/
theorem irqCalls_run (calls : List IrqCall) {s : Irqs} {on : Fin 16 → Bool}
    (programmed : Programmed s.pics) (enabled : ∀ n, s.pics.Masked n ↔ on n = false) :
    let s' := calls.foldl IrqCall.run s
    Programmed s'.pics ∧ (s.pics.Quiet → s'.pics.Quiet) ∧
      (∀ n, s'.pics.Requested n ↔ s.pics.Requested n) ∧
      (∀ n, s'.pics.Masked n ↔ calls.foldl IrqCall.enables on n = false) ∧
      s'.irqTable = calls.foldl IrqCall.handles s.irqTable := by
  induction calls generalizing s on with
  | nil => exact ⟨programmed, id, fun _ => Iff.rfl, enabled, rfl⟩
  | cons call calls ih =>
    obtain ⟨same, masks, handlers⟩ := irqCall_run programmed s.irqTable call _ enabled
    obtain ⟨after, quiet, requested, masks', handlers'⟩ := ih (same.sameProgram.programmed programmed) masks
    refine ⟨after, fun silent => quiet (same.quiet silent),
      fun n => (requested n).trans same.requested, masks', ?_⟩
    rw [List.foldl_cons, List.foldl_cons, ← handlers]
    exact handlers'

/-- **The controllers after `init_8259a` and any calls.** -/
theorem irqs_started (s : Irqs) (calls : List IrqCall) :
    let s' := calls.foldl IrqCall.run (init8259a s)
    Programmed s'.pics ∧ s'.pics.Quiet ∧ (∀ n, ¬ s'.pics.Requested n) ∧
      (∀ n, s'.pics.Masked n ↔ calls.foldl IrqCall.enables (fun _ => false) n = false) ∧
      s'.irqTable = calls.foldl IrqCall.handles fun _ => .dummyIrqHandler := by
  have masked : ∀ n, (initPics s.pics).Masked n ↔ (fun _ : Fin 16 => false) n = false := by
    rw [initPics_eq]
    unfold Pics.Masked
    decide
  have silent : ∀ n, ¬ (initPics s.pics).Requested n := by
    rw [initPics_eq]
    unfold Pics.Requested
    decide
  have idle : (initPics s.pics).Quiet := by
    rw [initPics_eq]
    exact fun _ => rfl
  have table : (init8259a s).irqTable = fun _ => .dummyIrqHandler :=
    funext fun i => foldl_dummies _ s.irqTable i (Or.inl (List.mem_finRange i))
  obtain ⟨programmed, quiet, requested, masks, handlers⟩ :=
    irqCalls_run calls (s := init8259a s) (initPics_programmed s.pics) masked
  exact ⟨programmed, quiet idle, fun n asks => silent n ((requested n).mp asks), masks,
    table ▸ handlers⟩

/-- **The controllers refine a set of enabled lines**: from any state of the controllers and of
`irq_table`, after `init_8259a` and any calls of the drivers, the vectors are 0x20 to 0x2f, nothing is
in service or requested, and each line is masked, and has the handler, that the calls about it give;
and `disable_irq` then tells of every argument whether its line was enabled. -/
theorem irq_calls_refine (s : Irqs) (calls : List IrqCall) :
    let s' := calls.foldl IrqCall.run (init8259a s)
    let on := calls.foldl IrqCall.enables fun _ => false
    Programmed s'.pics ∧ s'.pics.Quiet ∧ (∀ n, ¬ s'.pics.Requested n) ∧
      (∀ n, s'.pics.Masked n ↔ on n = false) ∧
      s'.irqTable = calls.foldl IrqCall.handles (fun _ => .dummyIrqHandler) ∧
      ∀ irq, (disableIrq irq s'.pics).1 = if on (irqLine irq) then 1 else 0 := by
  obtain ⟨programmed, quiet, silent, masks, handlers⟩ := irqs_started s calls
  refine ⟨programmed, quiet, silent, masks, handlers, fun irq => ?_⟩
  rw [(masked_disableIrq programmed irq).2.1]
  by_cases on : calls.foldl IrqCall.enables (fun _ => false) (irqLine irq) = true
  · rw [if_pos on, if_neg fun held => ?_]
    exact absurd ((masks _).mp held) (by rw [on]; decide)
  · rw [if_neg on, if_pos ((masks _).mpr (Bool.eq_false_iff.mpr on))]

end WalOS
