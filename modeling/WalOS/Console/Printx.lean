/-
**Messages of the kernel and of the processes** (`sys_printx` of `interrupt.c`).

A process prints on its own console: the tasks on the first, the user processes on the second. A message
whose first character is a magic one stops the machine, with the message in red at the start of the VGA
memory: `CRITICAL` from anyone, a failed `ASSERT` from a task.

* `redLoop` writes the two bytes of a cell at once; after `hlt`, with interrupts off, nothing runs.
* `printxAt_quiet` — a message that does not stop the machine is `console_write` of its characters.
* `printxAt_fatal` — one that does.
* `printx_runs` — **messages of all processes between any calls of the consoles**, up to the first that
  stops the machine.
-/

import WalOS.Console.Contents
import WalOS.Ipc.Early
import WalOS.Text.Cstr

namespace WalOS

open Text

/-! ### The code -/

/-- `MAGIC_CH_CRITICAL` and `MAGIC_CH_ASSERT`. -/
def magicChCritical : BitVec 8 := 2
def magicChAssert : BitVec 8 := 3

/-- `RING0_TASK_CNT + RING1_TASK_CNT`. -/
def kernelTaskCnt : ℕ := 4

/-- `console_id`, as `init_process_main` sets it. -/
def consoleId (proc : Fin totalTaskCnt) : Fin consoleCnt :=
  if proc.val < kernelTaskCnt then ⟨0, zero_lt_consoleCnt⟩ else ⟨1, one_lt_consoleCnt⟩

/-- The machine goes on, or `hlt` has stopped it. -/
inductive Printed where
  | returned (s : Screen)
  | halted (s : Screen)

/-- The `while` in `sys_printx`, with the rounds that the VGA memory leaves it. -/
def redLoop (mem : Bytes.Mem) : ℕ → ℕ → Addr → Screen → Vga Printed
  | 0, _, _, s => pure (.returned s)
  | rounds + 1, m, vga, s =>
    if mem m = 0 then pure (.halted s)
    else do
      let s ← putCell vga (0x74#8 ++ mem m) s
      redLoop mem rounds (m + 1) (vga + 2) s

/-- Skip the magic character. -/
def skipMagic (mem : Bytes.Mem) (p : ℕ) : ℕ :=
  if mem p ≠ 0 ∧ (mem p = magicChAssert ∨ mem p = magicChCritical) then p + 1 else p

/-- The last lines of `sys_printx`; `strlen` may read `limit` bytes. -/
def printString (mem : Bytes.Mem) (limit p : ℕ) (c : Fin consoleCnt) (s : Screen) : Vga Printed :=
  if mem p ≠ 0 then
    match Text.strlen mem limit p with
    | none => Traced.stop .forever
    | some length => do
      let s ← consoleWrite c ((List.range length).map fun i => mem (p + i)) s
      pure (.returned s)
  else pure (.returned s)

/-- `sys_printx` with `p` as `vir_to_linear` gives it. -/
def printxAt (mem : Bytes.Mem) (limit p : ℕ) (proc : Fin totalTaskCnt) (s : Screen) : Vga Printed := do
  let result ←
    if mem p = magicChCritical ∨ mem p = magicChAssert ∧ proc.val < kernelTaskCnt then
      redLoop mem 0x4000 (p + 1) vgaMemBase s
    else pure (.returned s)
  match result with
  | .halted s => pure (.halted s)
  | .returned s => printString mem limit (skipMagic mem p) (consoleId proc) s

/-- `sys_printx`, called while `process_ready` is `proc`. An `ASSERT` that fails in it never returns. -/
def sysPrintx (outside : Int → Process totalTaskCnt) (k : Kernel totalTaskCnt) (mem : Bytes.Mem)
    (limit : ℕ) (msg : Addr) (proc : Fin totalTaskCnt) (s : Screen) : Vga Printed :=
  if k.intReenter = 0 then
    match (virToLinear outside k (pid proc) msg).outcome with
    | .error _ => Traced.stop .forever
    | .ok p => printxAt mem limit p.toNat proc s
  else printxAt mem limit msg.toNat proc s

/-! ### Messages -/

/-- The message stops the machine. -/
def Fatal (proc : Fin totalTaskCnt) : Chars → Prop
  | [] => False
  | c :: _ => c = magicChCritical ∨ c = magicChAssert ∧ proc.val < kernelTaskCnt

/-- A message without its magic character. -/
def bodyOf : Chars → Chars
  | [] => []
  | c :: text => if c = magicChAssert ∨ c = magicChCritical then text else c :: text

variable {mem : Bytes.Mem} {limit p : ℕ} {proc : Fin totalTaskCnt} {s s' s₀ : Screen} {text : Chars}
  {c : Fin consoleCnt}

theorem range_chars (string : StringAt mem p text) :
    ((List.range text.length).map fun i => mem (p + i)) = text := by
  refine List.ext_getElem (by simp) fun i inside _ => ?_
  rw [List.length_map, List.length_range] at inside
  rw [List.getElem_map, List.getElem_range]
  exact string.chars i inside

theorem printString_eq (string : StringAt mem p text) (room : text.length < limit) :
    printString mem limit p c s = Printed.returned <$> consoleWrite c text s := by
  have counted := strlen_eq string room
  have chars := range_chars string
  unfold printString
  cases text with
  | nil =>
    rw [if_neg (by simp [show mem p = 0 from string.nul])]
    rfl
  | cons d text =>
    obtain ⟨here, visible, -⟩ := stringAt_cons.mp string
    rw [if_pos (by rw [here]; exact visible), counted]
    dsimp only
    rw [chars]
    rfl

/-- The first byte of a message decides whether it stops the machine. -/
theorem fatal_iff (string : StringAt mem p text) :
    mem p = magicChCritical ∨ mem p = magicChAssert ∧ proc.val < kernelTaskCnt ↔ Fatal proc text := by
  cases text with
  | nil =>
    rw [show mem p = 0 from string.nul]
    simp [Fatal, magicChCritical, magicChAssert]
  | cons d text =>
    rw [(stringAt_cons.mp string).1]
    rfl

theorem stringAt_skipMagic (string : StringAt mem p text) :
    StringAt mem (skipMagic mem p) (bodyOf text) := by
  unfold skipMagic
  cases text with
  | nil =>
    rw [if_neg (by simp [show mem p = 0 from string.nul])]
    exact string
  | cons d text =>
    obtain ⟨here, visible, rest⟩ := stringAt_cons.mp string
    rw [here, bodyOf]
    by_cases magic : d = magicChAssert ∨ d = magicChCritical
    · rw [if_pos ⟨visible, magic⟩, if_pos magic]
      exact rest
    · rw [if_neg fun both => magic both.2, if_neg magic]
      exact string

theorem length_bodyOf (text : Chars) : (bodyOf text).length ≤ text.length := by
  cases text with
  | nil => exact le_rfl
  | cons d text =>
    rw [bodyOf]
    split
    · exact Nat.le_succ _
    · exact le_rfl

/-- **A message that does not stop the machine.** -/
theorem printxAt_quiet (string : StringAt mem p text) (room : text.length < limit)
    (quiet : ¬ Fatal proc text) :
    printxAt mem limit p proc s = Printed.returned <$> consoleWrite (consoleId proc) (bodyOf text) s := by
  unfold printxAt
  rw [if_neg fun fatal => quiet ((fatal_iff string).mp fatal), pure_bind]
  exact printString_eq (stringAt_skipMagic string) ((length_bodyOf text).trans_lt room)

/-- In segments that start at 0, processes and the handlers of interrupts are alike. -/
theorem sysPrintx_flat {outside : Int → Process totalTaskCnt} {k : Kernel totalTaskCnt}
    (flat : (k.proc proc).segBase = 0) (msg : Addr) (s : Screen) :
    sysPrintx outside k mem limit msg proc s = printxAt mem limit msg.toNat proc s := by
  unfold sysPrintx
  split
  · rw [(virToLinear_flat flat msg).outcome]
  · rfl

/-! ### The red message -/

/-- The address of a cell counted from the start of the VGA memory. -/
def vgaCell (k : ℕ) : Addr := vgaMemBase + BitVec.ofNat 32 k * 2

/-- **The screen with a message in red at its start**, and nothing else changed. -/
structure RedMessage (text : Chars) (s s' : Screen) : Prop where
  shown : ∀ k (inside : k < text.length), s'.vga (vgaCell k) = 0x74#8 ++ text[k]
  rest : ∀ addr, (∀ k < text.length, addr ≠ vgaCell k) → s'.vga addr = s.vga addr
  same : s' = { s with vga := s'.vga }

theorem vgaCell_succ (k : ℕ) : vgaCell k + 2 = vgaCell (k + 1) := by
  unfold vgaCell
  rw [BitVec.ofNat_add]
  bv_omega

theorem vgaCell_inj {k n : ℕ} (small : k < 0x4000) (small' : n < 0x4000) (same : vgaCell k = vgaCell n) :
    k = n := by
  have base : vgaMemBase.toNat = 0xb8000 := rfl
  have two : (2 : BitVec 32).toNat = 2 := rfl
  have place : ∀ k < 0x4000, (vgaCell k).toNat = 0xb8000 + 2 * k := by
    intro k small
    rw [vgaCell, BitVec.toNat_add, BitVec.toNat_mul, BitVec.toNat_ofNat, base, two,
      Nat.mod_eq_of_lt (a := k) (by omega), Nat.mod_eq_of_lt (a := k * 2) (by omega),
      Nat.mod_eq_of_lt (by omega)]
    omega
  have places := congrArg BitVec.toNat same
  rw [place k small, place n small'] at places
  omega

/-- The loop writes a message that the VGA memory has room for, and stops. -/
theorem redLoop_gives {k rounds : ℕ} (string : StringAt mem p text) (room : text.length < rounds)
    (inside : k + rounds ≤ 0x4000) :
    ∃ log s', (redLoop mem rounds p (vgaCell k) s).Gives log (.halted s') ∧
      (∀ i (inside : i < text.length), s'.vga (vgaCell (k + i)) = 0x74#8 ++ text[i]) ∧
      (∀ addr, (∀ i < text.length, addr ≠ vgaCell (k + i)) → s'.vga addr = s.vga addr) ∧
      s' = { s with vga := s'.vga } := by
  induction text generalizing k rounds p s with
  | nil =>
    obtain ⟨rounds, rfl⟩ := Nat.exists_eq_add_one_of_ne_zero (Nat.ne_zero_of_lt room)
    refine ⟨[], s, ?_, fun i inside => absurd inside (Nat.not_lt_zero i), fun _ _ => rfl, rfl⟩
    rw [redLoop, if_pos (show mem p = 0 from string.nul)]
    exact .pure _
  | cons d text ih =>
    obtain ⟨rounds, rfl⟩ := Nat.exists_eq_add_one_of_ne_zero (Nat.ne_zero_of_lt room)
    obtain ⟨here, visible, rest⟩ := stringAt_cons.mp string
    rw [List.length_cons] at room
    let s₁ : Screen := { s with vga := Function.update s.vga (vgaCell k) (0x74#8 ++ d) }
    obtain ⟨log, s', gives, shown, others, same⟩ :=
      ih (s := s₁) rest (show text.length < rounds by omega) (show k + 1 + rounds ≤ 0x4000 by omega)
    have apart : ∀ i < text.length, vgaCell k ≠ vgaCell (k + 1 + i) := fun i less equal => by
      have := vgaCell_inj (by omega) (by omega) equal
      omega
    refine ⟨vgaCell k :: log, s', ?_, fun i inside => ?_, fun addr off => ?_, ?_⟩
    · rw [redLoop, if_neg (by rw [here]; exact visible), here, vgaCell_succ]
      have written : (putCell (vgaCell k) (0x74#8 ++ d) s).Gives [vgaCell k] s₁ :=
        Traced.Gives.touch_bind (.pure _)
      exact written.bind gives
    · cases i with
      | zero =>
        rw [Nat.add_zero, others _ apart]
        exact Function.update_self _ _ _
      | succ i =>
        rw [show k + (i + 1) = k + 1 + i by omega, shown i (Nat.lt_of_succ_lt_succ inside)]
        rfl
    · rw [others addr fun i less => ?_]
      · exact Function.update_of_ne (off 0 (Nat.succ_pos _)) _ _
      · rw [show k + 1 + i = k + (i + 1) by omega]
        exact off (i + 1) (Nat.succ_lt_succ less)
    · rw [same]

/-- **A message that stops the machine**, if the VGA memory has room for it. -/
theorem printxAt_fatal (limit : ℕ) (s : Screen) (string : StringAt mem p text) (fatal : Fatal proc text)
    (short : text.length ≤ 0x4000) :
    ∃ s', (printxAt mem limit p proc s).outcome = .ok (.halted s') ∧ RedMessage text.tail s s' := by
  cases text with
  | nil => exact fatal.elim
  | cons d text =>
    obtain ⟨here, visible, rest⟩ := stringAt_cons.mp string
    obtain ⟨log, s', gives, shown, others, same⟩ :=
      redLoop_gives (s := s) (k := 0) rest (show text.length < 0x4000 from short) (by decide)
    simp only [Nat.zero_add] at shown others
    have start : vgaCell 0 = vgaMemBase := by
      unfold vgaCell
      decide
    rw [start] at gives
    refine ⟨s', ?_, shown, others, same⟩
    unfold printxAt
    rw [if_pos ((fatal_iff string).mpr fatal), gives.outcome_bind]
    rfl

/-! ### Runs -/

/-- **A call of `sys_printx`**: the process, and the string that it finds, in segments that start at 0.
One that stops the machine is no longer than the VGA memory. -/
structure PrintxCall where
  kernel : Kernel totalTaskCnt
  mem : Bytes.Mem
  limit : ℕ
  msg : Addr
  proc : Fin totalTaskCnt
  text : Chars
  flat : (kernel.proc proc).segBase = 0
  string : StringAt mem msg.toNat text
  room : text.length < limit
  short : Fatal proc text → text.length ≤ 0x4000

/-- A call about the consoles. -/
inductive ConsoleAct where
  | screen (op : ScreenOp)
  | printx (call : PrintxCall)

namespace ConsoleAct

def run (outside : Int → Process totalTaskCnt) : ConsoleAct → Screen → Vga Printed
  | .screen op, s => Printed.returned <$> op.run s
  | .printx call, s => sysPrintx outside call.kernel call.mem call.limit call.msg call.proc s

/-- The call, as one on the consoles. -/
def op : ConsoleAct → ScreenOp
  | .screen op => op
  | .printx call => .write (consoleId call.proc) (bodyOf call.text)

/-- It stops the machine. -/
def Stops : ConsoleAct → Prop
  | .screen _ => False
  | .printx call => Fatal call.proc call.text

end ConsoleAct

/-- Calls one after the other, until one stops the machine. -/
def runActs (outside : Int → Process totalTaskCnt) : List ConsoleAct → Screen → Vga Printed
  | [], s => pure (.returned s)
  | act :: acts, s => do
    match ← act.run outside s with
    | .returned s => runActs outside acts s
    | .halted s => pure (.halted s)

variable {outside : Int → Process totalTaskCnt} {act : ConsoleAct} {acts : List ConsoleAct}
  {call : PrintxCall}

theorem PrintxCall.run_eq (call : PrintxCall) (outside : Int → Process totalTaskCnt) (s : Screen) :
    (ConsoleAct.printx call).run outside s =
      printxAt call.mem call.limit call.msg.toNat call.proc s :=
  sysPrintx_flat call.flat call.msg s

/-- A call that does not stop the machine is one on the consoles. -/
theorem ConsoleAct.run_quiet (quiet : ¬ act.Stops) (s : Screen) :
    act.run outside s = Printed.returned <$> act.op.run s := by
  cases act with
  | screen op => rfl
  | printx call => rw [call.run_eq, printxAt_quiet call.string call.room quiet]; rfl

theorem outcome_returned {x : Vga Screen} (returned : x.outcome = .ok s) :
    (Printed.returned <$> x).outcome = .ok (.returned s) := by
  rw [map_eq_pure_bind]
  exact Traced.bind_eq_ok.mpr ⟨s, returned, rfl⟩

/-- A run of them is a run on the consoles. -/
theorem runActs_quiet (quiet : ∀ act ∈ acts, ¬ act.Stops) (rest : List ConsoleAct)
    (returned : (runScreen (acts.map ConsoleAct.op) s).outcome = .ok s') :
    (runActs outside (acts ++ rest) s).outcome = (runActs outside rest s').outcome := by
  induction acts generalizing s with
  | nil =>
    obtain rfl := Except.ok.inj returned
    rfl
  | cons act acts ih =>
    obtain ⟨s₁, first, later⟩ := Traced.bind_eq_ok.mp returned
    have here : (act.run outside s).outcome = .ok (.returned s₁) := by
      rw [ConsoleAct.run_quiet (quiet act List.mem_cons_self)]
      exact outcome_returned first
    rw [List.cons_append, runActs, Traced.outcome_bind, here]
    exact ih (fun act member => quiet act (List.mem_cons_of_mem _ member)) later

/-- **Messages of all processes.** From any state reached, messages of processes and of handlers in any
order, and any calls on the consoles between them: while none stops the machine, all return, and each
console holds what is printed on it, a message without its magic character on the console of its
process; the first that stops the machine leaves the consoles and the CRT controller as they are and its
text in red from the start of the VGA memory, and nothing after it runs. -/
theorem printx_runs (reached : s.Reached) (quiet : ∀ act ∈ acts, ¬ act.Stops) :
    ∃ s', (runActs outside acts s).outcome = .ok (.returned s') ∧
      (∀ c, (s'.terminal c).Same consoleGeometry
        (typeKeys (s.terminal c) (keysOn c (acts.map ConsoleAct.op)))) ∧
      ∀ call after, Fatal call.proc call.text →
        ∃ s'', (runActs outside (acts ++ .printx call :: after) s).outcome = .ok (.halted s'') ∧
          RedMessage call.text.tail s' s'' := by
  obtain ⟨s', returned, same⟩ := reached.run (acts.map ConsoleAct.op)
  refine ⟨s', ?_, same, fun call after fatal => ?_⟩
  · rw [← List.append_nil acts, runActs_quiet quiet [] returned]
    rfl
  · obtain ⟨s'', halted, red⟩ :=
      printxAt_fatal call.limit s' call.string fatal (call.short fatal)
    refine ⟨s'', ?_, red⟩
    rw [runActs_quiet quiet _ returned, runActs, call.run_eq, Traced.outcome_bind, halted]
    rfl

/-- A user process prints between two calls on the consoles, then a task has found something critical. -/
theorem printx_runs_critical : ∃ (s₀ : Screen) (hello critical : PrintxCall), s₀.Reached ∧
    hello.text = [0x68, 0x69] ∧ critical.text = [2, 0x78] ∧
    ∃ s', (runActs nowhere ([.screen (.print 1 0x61), .printx hello] ++ .printx critical :: []) s₀).outcome =
        .ok (.halted s') ∧ s'.vga (vgaCell 0) = 0x7478 := by
  obtain ⟨s₀, reached, -⟩ := zeroedScreen_reached
  let hello : PrintxCall :=
    { kernel := bootKernel, mem := Bytes.storeBytes (fun _ => 0) 0 ([0x68, 0x69] ++ [0]), limit := 8
      msg := 0, proc := 4, text := [0x68, 0x69], flat := rfl, string := stringAt_storeBytes (by decide)
      room := by decide, short := fun _ => by decide }
  let critical : PrintxCall :=
    { kernel := bootKernel, mem := Bytes.storeBytes (fun _ => 0) 0 ([2, 0x78] ++ [0]), limit := 8
      msg := 0, proc := 1, text := [2, 0x78], flat := rfl, string := stringAt_storeBytes (by decide)
      room := by decide, short := fun _ => by decide }
  have quiet : ∀ act ∈ [ConsoleAct.screen (.print 1 0x61), .printx hello], ¬ act.Stops := by
    intro act member
    simp only [List.mem_cons, List.not_mem_nil, or_false] at member
    rcases member with rfl | rfl
    · exact id
    · show ¬ (0x68 = magicChCritical ∨ 0x68 = magicChAssert ∧ _)
      decide
  obtain ⟨s', -, -, stops⟩ := @printx_runs s₀ nowhere _ reached quiet
  obtain ⟨s'', halted, red⟩ := stops critical [] (Or.inl rfl)
  have first : s''.vga (vgaCell 0) = 0x74#8 ++ 0x78#8 := red.shown 0 (by decide)
  exact ⟨s₀, hello, critical, reached, rfl, rfl, s'', halted, first⟩

end WalOS
