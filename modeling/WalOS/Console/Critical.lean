/-
**`printf`, `CRITICAL` and `assert_failure`** (`common.c`, `debug.c`).

Each formats into a buffer of its own and hands it to `sys_printx`; what comes after `int` in the caller
is left out, since none of the results below depends on it.

* `printf_text` — what `printf` hands over, for a format of the documented language.
* `critical_halts` — `CRITICAL` stops the machine, whoever calls it, with its rendered text in red.
* `assertion_fails` — a failed `ASSERT` stops the machine in a task; a user process prints it on the
  second console.
-/

import WalOS.Console.Printx
import WalOS.Text.Render

namespace WalOS

open Text

/-! ### The code -/

/-- The memory with a buffer of 256 bytes. -/
def withBuffer (mem : Bytes.Mem) (at_ : ℕ) (buf : Bytes.Mem) : Bytes.Mem := fun a =>
  if at_ ≤ a ∧ a < at_ + 256 then buf (a - at_) else mem a

/-- A process, or the handler that interrupted it, with the rounds for `strlen` and what stands on its stack
behind the `tmp` of `vsprintf`. -/
structure Caller where
  outside : Int → Process totalTaskCnt
  kernel : Kernel totalTaskCnt
  proc : Fin totalTaskCnt
  limit : ℕ
  behind : ℕ → Chars

/-- `printf`, with its `buf` at an address. -/
def Caller.printf (caller : Caller) (mem : Bytes.Mem) (buf : Addr) (format : Chars)
    (word : ℕ → BitVec 32) (s : Screen) : Vga Printed :=
  match (vsprintf (fun i => mem (buf.toNat + i)) format ⟨word, mem, caller.behind⟩).outcome with
  | .error _ => Traced.stop .forever
  | .ok (printed, _) =>
    sysPrintx caller.outside caller.kernel (withBuffer mem buf.toNat printed.buf) caller.limit buf
      caller.proc s

/-- `"%c critical %s"` and `"%c assert(%s) %s %s %d"`. -/
def criticalFormat : Chars := [37, 99, 32, 99, 114, 105, 116, 105, 99, 97, 108, 32, 37, 115, 0]
def assertFormat : Chars :=
  [37, 99, 32, 97, 115, 115, 101, 114, 116, 40, 37, 115, 41, 32, 37, 115, 32, 37, 115, 32, 37, 100, 0]

/-- `CRITICAL`, with its own `buf` and that of `printf`. -/
def Caller.critical (caller : Caller) (mem : Bytes.Mem) (own buf : Addr) (format : Chars)
    (word : ℕ → BitVec 32) (s : Screen) : Vga Printed :=
  match (vsprintf (fun _ => 0) format ⟨word, mem, caller.behind⟩).outcome with
  | .error _ => Traced.stop .forever
  | .ok (printed, _) =>
    caller.printf (withBuffer mem own.toNat printed.buf) buf criticalFormat
      (fun i => if i = 0 then magicChCritical.setWidth 32 else own) s

def Caller.assertFailure (caller : Caller) (mem : Bytes.Mem) (buf exp file baseFile : Addr)
    (line : BitVec 32) (s : Screen) : Vga Printed :=
  caller.printf mem buf assertFormat
    (fun i => [magicChAssert.setWidth 32, exp, file, baseFile, line].getD i 0) s

/-! ### The formats -/

/-- A literal character of the two formats. -/
def literals (text : Chars) (plain : ∀ c ∈ text, c ≠ 0 ∧ c ≠ 37) : List Item :=
  text.attach.map fun c => .char c.1 (plain c.1 c.2).1 (plain c.1 c.2).2

/-- A directive without flag and width. -/
def bare (letter : BitVec 8) (ends : ¬ IsDigit letter) (literal : letter ≠ 37) (visible : letter ≠ 0) :
    Item :=
  .directive
    { zero := false, width := [], letter := letter, digits := by simp, ends := ends
      apart := fun _ => ⟨by simp, fun _ => literal⟩, visible := visible }

/-- ` critical ` -/
def criticalWords : Chars := [32, 99, 114, 105, 116, 105, 99, 97, 108, 32]

/-- ` assert(` -/
def assertWords : Chars := [32, 97, 115, 115, 101, 114, 116, 40]

def criticalItems : List Item :=
  bare 99 (by decide) (by decide) (by decide) ::
    (literals criticalWords (by decide) ++ [bare 115 (by decide) (by decide) (by decide)])

def assertItems : List Item :=
  bare 99 (by decide) (by decide) (by decide) ::
    (literals assertWords (by decide) ++ (bare 115 (by decide) (by decide) (by decide) ::
      (literals [41, 32] (by decide) ++ (bare 115 (by decide) (by decide) (by decide) ::
        (literals [32] (by decide) ++ (bare 115 (by decide) (by decide) (by decide) ::
          (literals [32] (by decide) ++ [bare 100 (by decide) (by decide) (by decide)])))))))

theorem criticalFormat_eq : criticalFormat = formatText criticalItems ++ 0 :: [] := by decide
theorem assertFormat_eq : assertFormat = formatText assertItems ++ 0 :: [] := by decide

/-! ### What they print -/

variable {args : Args} {items : List Item} {n : ℕ} {text : Chars} {mem buf : Bytes.Mem} {at_ : ℕ}
  {c : BitVec 8} {word : ℕ → BitVec 32} {caller : Caller}

theorem documented_literals (plain : ∀ c ∈ text, c ≠ 0 ∧ c ≠ 37) :
    ∀ item ∈ literals text plain, item.Documented := by
  intro item member
  obtain ⟨c, -, rfl⟩ := List.mem_map.mp member
  trivial

theorem literals_cons (plain : ∀ d ∈ c :: text, d ≠ 0 ∧ d ≠ 37) :
    literals (c :: text) plain =
      .char c (plain c List.mem_cons_self).1 (plain c List.mem_cons_self).2 ::
        literals text fun d member => plain d (List.mem_cons_of_mem _ member) := by
  unfold literals
  rw [List.attach_cons, List.map_cons, List.map_map]
  rfl

theorem rendering_literals (args : Args) (n : ℕ) (plain : ∀ c ∈ text, c ≠ 0 ∧ c ≠ 37) (items : List Item) :
    rendering args (literals text plain ++ items) n = text ++ rendering args items n ∧
      (Matching args (literals text plain ++ items) n ↔ Matching args items n) := by
  induction text with
  | nil => exact ⟨rfl, Iff.rfl⟩
  | cons c text ih =>
    obtain ⟨same, both⟩ := ih fun d member => plain d (List.mem_cons_of_mem _ member)
    rw [literals_cons, List.cons_append]
    exact ⟨congrArg (c :: ·) same, both⟩

theorem rendering_bare (ends : ¬ IsDigit c) (literal : c ≠ 37) (visible : c ≠ 0) (items : List Item) :
    rendering args (bare c ends literal visible :: items) n =
      args.text c n ++ rendering args items (n + 1) := by
  show List.replicate (0 - (args.text c n).length) _ ++ args.text c n ++ _ = _
  rw [Nat.zero_sub]
  rfl

/-- A letter with no width is documented. -/
theorem documented_bare (ends : ¬ IsDigit c) (literal : c ≠ 37) (visible : c ≠ 0)
    (letter : c ∈ ([100, 120, 99, 115] : Chars)) : (bare c ends literal visible).Documented :=
  ⟨letter, show 0 < 2 ^ 31 by decide⟩

theorem text_char (args : Args) {d : BitVec 8} (visible : d ≠ 0) (here : args.word n = d.setWidth 32) :
    args.text 99 n = [d] ∧ args.Suits 99 n := by
  have same : (args.word n).setWidth 8 = d := by
    rw [here]
    exact BitVec.setWidth_setWidth_of_le d (by decide) |>.trans (BitVec.setWidth_eq d)
  constructor
  · unfold Args.text
    rw [if_neg (by decide), if_neg (by decide), if_pos rfl, same,
      if_neg (show ¬ d = 0#8 from visible)]
  · exact ⟨fun _ => same ▸ visible, fun other => absurd other (by decide)⟩

theorem text_string (args : Args) (string : StringAt args.mem (args.word n).toNat text) (short : text.length < 256) :
    args.text 115 n = text ∧ args.Suits 115 n := by
  constructor
  · rw [Args.text_string string short.le]
    exact if_pos short
  · exact ⟨fun other => absurd other (by decide), fun _ => ⟨text, string, short⟩⟩

theorem stringAt_withBuffer (mem : Bytes.Mem) (string : StringAt buf 0 text) (short : text.length < 256) :
    StringAt (withBuffer mem at_ buf) at_ text := by
  have inside : ∀ k < 256, withBuffer mem at_ buf (at_ + k) = buf (0 + k) := by
    intro k less
    rw [withBuffer, if_pos ⟨Nat.le_add_right _ _, Nat.add_lt_add_left less _⟩, Nat.add_sub_cancel_left,
      Nat.zero_add]
  refine ⟨fun k less => ?_, ?_, string.whole⟩
  · rw [inside k (by omega)]
    exact string.chars k less
  · rw [inside _ short]
    exact string.nul

/-- A rendered format as a string. -/
theorem vsprintf_string (documented : ∀ item ∈ items, item.Documented) (matching : Matching args items 0)
    (buf : Bytes.Mem) (rest : Chars) : ∃ printed length,
      (vsprintf buf (formatText items ++ 0 :: rest) args).outcome = .ok (printed, length) ∧
        StringAt printed.buf 0 (rendering args items 0) := by
  obtain ⟨fits, -, same⟩ := documented_items documented matching
  obtain ⟨log, gives, -⟩ := vsprintf_items fits buf rest
  exact ⟨_, _, gives.outcome, same ▸ stringAt_storeBytes (outs_whole fits)⟩

/-- **What `printf` hands over.** -/
theorem printf_text (flat : (caller.kernel.proc caller.proc).segBase = 0)
    (documented : ∀ item ∈ items, item.Documented) (matching : Matching ⟨word, mem, caller.behind⟩ items 0)
    (short : (rendering ⟨word, mem, caller.behind⟩ items 0).length < 256) (buf : Addr) (rest : Chars) (s : Screen) :
    ∃ mem', StringAt mem' buf.toNat (rendering ⟨word, mem, caller.behind⟩ items 0) ∧
      caller.printf mem buf (formatText items ++ 0 :: rest) word s =
        printxAt mem' caller.limit buf.toNat caller.proc s := by
  obtain ⟨printed, length, formatted, string⟩ :=
    vsprintf_string documented matching (fun i => mem (buf.toNat + i)) rest
  refine ⟨_, stringAt_withBuffer mem string short, ?_⟩
  unfold Caller.printf
  rw [formatted]
  exact sysPrintx_flat flat buf s

/-- **`CRITICAL` stops the machine**: from whatever process or handler, for every format of the
documented language whose arguments suit it and whose text fits the buffer behind ` critical `, that
text is shown in red from the start of the VGA memory, and nothing else changes. -/
theorem critical_halts (flat : (caller.kernel.proc caller.proc).segBase = 0)
    (documented : ∀ item ∈ items, item.Documented) (matching : Matching ⟨word, mem, caller.behind⟩ items 0)
    (short : (rendering ⟨word, mem, caller.behind⟩ items 0).length < 245) (own buf : Addr) (rest : Chars) (s : Screen) :
    ∃ s', (caller.critical mem own buf (formatText items ++ 0 :: rest) word s).outcome =
        .ok (.halted s') ∧
      RedMessage (criticalWords ++ rendering ⟨word, mem, caller.behind⟩ items 0) s s' := by
  obtain ⟨printed, length, formatted, string⟩ :=
    vsprintf_string documented matching (fun _ => 0) rest
  obtain ⟨text, rendered⟩ : ∃ text, text = rendering ⟨word, mem, caller.behind⟩ items 0 := ⟨_, rfl⟩
  rw [← rendered] at short string ⊢
  let mem₁ := withBuffer mem own.toNat printed.buf
  let word₁ : ℕ → BitVec 32 := fun i => if i = 0 then magicChCritical.setWidth 32 else own
  obtain ⟨magic, suits⟩ := text_char ⟨word₁, mem₁, caller.behind⟩ (n := 0) (d := magicChCritical) (by decide) rfl
  have inBuffer : StringAt mem₁ (word₁ 1).toNat text := stringAt_withBuffer mem string (by omega)
  obtain ⟨same, suits'⟩ := text_string ⟨word₁, mem₁, caller.behind⟩ inBuffer (by omega)
  obtain ⟨literal, matches'⟩ := rendering_literals ⟨word₁, mem₁, caller.behind⟩ 1
    (show ∀ c ∈ criticalWords, c ≠ 0 ∧ c ≠ 37 by decide)
    [bare 115 (by decide) (by decide) (by decide)]
  have whole : rendering ⟨word₁, mem₁, caller.behind⟩ criticalItems 0 = magicChCritical :: (criticalWords ++ text) := by
    rw [criticalItems, rendering_bare, magic, literal, rendering_bare, same]
    simp [rendering]
  have documented₁ : ∀ item ∈ criticalItems, item.Documented := by
    intro item member
    rcases List.mem_cons.mp member with rfl | member
    · exact documented_bare _ _ _ (by decide)
    · rcases List.mem_append.mp member with member | member
      · exact documented_literals _ item member
      · rw [List.mem_singleton.mp member]
        exact documented_bare _ _ _ (by decide)
  have matching₁ : Matching ⟨word₁, mem₁, caller.behind⟩ criticalItems 0 := ⟨suits, matches'.mpr ⟨suits', trivial⟩⟩
  have length_eq : (magicChCritical :: (criticalWords ++ text)).length = 11 + text.length := by
    simp [criticalWords]
    omega
  obtain ⟨mem₂, there, prints⟩ := @printf_text _ _ _ caller flat documented₁ matching₁
    (by rw [whole, length_eq]; omega) buf [] s
  rw [whole] at there
  obtain ⟨s', halted, red⟩ := printxAt_fatal caller.limit s there
    (Or.inl rfl) (by rw [length_eq]; omega)
  refine ⟨s', ?_, red⟩
  unfold Caller.critical
  rw [formatted]
  show (caller.printf mem₁ buf criticalFormat word₁ s).outcome = _
  rw [criticalFormat_eq, prints]
  exact halted

/-- `CRITICAL("x")` in a user process. -/
theorem critical_halts_x : ∃ s', (Caller.critical ⟨nowhere, bootKernel, 4, 256, fun _ => []⟩ (fun _ => 0) 0 256
      [120, 0] (fun _ => 0) (zeroedScreen 640)).outcome = .ok (.halted s') ∧
    s'.vga (vgaCell 10) = 0x7478 := by
  have documented : ∀ item ∈ [Item.char 120 (by decide) (by decide)], item.Documented := by
    intro item member
    rw [List.mem_singleton.mp member]
    trivial
  obtain ⟨s', halted, red⟩ := @critical_halts [Item.char 120 (by decide) (by decide)] (fun _ => 0)
    (fun _ => 0) ⟨nowhere, bootKernel, 4, 256, fun _ => []⟩ rfl documented trivial (by decide) 0 256 []
    (zeroedScreen 640)
  exact ⟨s', halted, red.shown 10 (by decide)⟩

/-- What a failed `ASSERT` prints behind its magic character. -/
def assertText (exp file baseFile : Chars) (line : BitVec 32) : Chars :=
  assertWords ++ (exp ++ ([41, 32] ++ (file ++ ([32] ++ (baseFile ++ ([32] ++ itoaText line 10))))))

theorem text_decimal (args : Args) (n : ℕ) :
    args.text 100 n = itoaText (args.word n) 10 ∧ args.Suits 100 n := by
  constructor
  · unfold Args.text
    rw [if_neg (by decide), if_pos rfl]
  · exact ⟨fun other => absurd other (by decide), fun other => absurd other (by decide)⟩

/-- The message of `assert_failure`. -/
theorem assertFailure_text {exp file baseFile : Chars} {expAt fileAt baseAt : Addr}
    (flat : (caller.kernel.proc caller.proc).segBase = 0) (expThere : StringAt mem expAt.toNat exp)
    (fileThere : StringAt mem fileAt.toNat file) (baseThere : StringAt mem baseAt.toNat baseFile)
    (line : BitVec 32) (short : (assertText exp file baseFile line).length < 255) (buf : Addr)
    (s : Screen) :
    ∃ mem', StringAt mem' buf.toNat (magicChAssert :: assertText exp file baseFile line) ∧
      caller.assertFailure mem buf expAt fileAt baseAt line s =
        printxAt mem' caller.limit buf.toNat caller.proc s := by
  let args : Args :=
    ⟨fun i => [magicChAssert.setWidth 32, expAt, fileAt, baseAt, line].getD i 0, mem, caller.behind⟩
  have lengths : exp.length < 256 ∧ file.length < 256 ∧ baseFile.length < 256 := by
    simp only [assertText, List.length_append] at short
    omega
  obtain ⟨magic, suits₀⟩ := text_char args (n := 0) (d := magicChAssert) (by decide) rfl
  obtain ⟨text₁, suits₁⟩ := text_string args (n := 1) expThere lengths.1
  obtain ⟨text₂, suits₂⟩ := text_string args (n := 2) fileThere lengths.2.1
  obtain ⟨text₃, suits₃⟩ := text_string args (n := 3) baseThere lengths.2.2
  obtain ⟨text₄, suits₄⟩ := text_decimal args 4
  have whole : rendering args assertItems 0 = magicChAssert :: assertText exp file baseFile line := by
    rw [assertItems, rendering_bare, (rendering_literals _ _ _ _).1, rendering_bare,
      (rendering_literals _ _ _ _).1, rendering_bare, (rendering_literals _ _ _ _).1, rendering_bare,
      (rendering_literals _ _ _ _).1, rendering_bare, magic, text₁, text₂, text₃, text₄]
    simp [rendering, assertText, args]
  have matching : Matching args assertItems 0 :=
    ⟨suits₀, (rendering_literals _ _ _ _).2.mpr ⟨suits₁, (rendering_literals _ _ _ _).2.mpr ⟨suits₂,
      (rendering_literals _ _ _ _).2.mpr ⟨suits₃, (rendering_literals _ _ _ _).2.mpr ⟨suits₄, trivial⟩⟩⟩⟩⟩
  have documented : ∀ item ∈ assertItems, item.Documented := by
    have plain : ∀ {text : Chars} (plain : ∀ c ∈ text, c ≠ 0 ∧ c ≠ 37) {items : List Item},
        (∀ item ∈ items, item.Documented) → ∀ item ∈ literals text plain ++ items, item.Documented := by
      intro text plain items rest item member
      exact (List.mem_append.mp member).elim (documented_literals plain item) (rest item)
    have letter : ∀ {c : BitVec 8} (ends : ¬ IsDigit c) (literal : c ≠ 37) (visible : c ≠ 0)
        {items : List Item}, c ∈ ([100, 120, 99, 115] : Chars) → (∀ item ∈ items, item.Documented) →
        ∀ item ∈ bare c ends literal visible :: items, item.Documented := by
      intro c ends literal visible items known rest item member
      rcases List.mem_cons.mp member with rfl | member
      · exact documented_bare ends literal visible known
      · exact rest item member
    exact letter _ _ _ (by decide) (plain _ (letter _ _ _ (by decide) (plain _ (letter _ _ _ (by decide)
      (plain _ (letter _ _ _ (by decide) (plain _ (letter _ _ _ (by decide) (by simp)))))))))
  obtain ⟨mem', there, prints⟩ := @printf_text _ _ _ caller flat documented matching
    (by rw [whole, List.length_cons]; omega) buf [] s
  rw [whole] at there
  refine ⟨mem', there, ?_⟩
  rw [← prints, ← assertFormat_eq]
  rfl

/-- **A failed `ASSERT`**, in a state that the consoles reach: in a task it stops the machine with the
expression, the files and the line in red; in a user process it prints them on the second console. -/
theorem assertion_fails {exp file baseFile : Chars} {expAt fileAt baseAt : Addr} {s : Screen}
    (reached : s.Reached) (flat : (caller.kernel.proc caller.proc).segBase = 0)
    (expThere : StringAt mem expAt.toNat exp) (fileThere : StringAt mem fileAt.toNat file)
    (baseThere : StringAt mem baseAt.toNat baseFile) (line : BitVec 32)
    (short : (assertText exp file baseFile line).length < 255) (room : 256 ≤ caller.limit) (buf : Addr) :
    (caller.proc.val < kernelTaskCnt →
      ∃ s', (caller.assertFailure mem buf expAt fileAt baseAt line s).outcome = .ok (.halted s') ∧
        RedMessage (assertText exp file baseFile line) s s') ∧
    (kernelTaskCnt ≤ caller.proc.val →
      ∃ s', (caller.assertFailure mem buf expAt fileAt baseAt line s).outcome = .ok (.returned s') ∧
        ∀ c, (s'.terminal c).Same consoleGeometry (typeKeys (s.terminal c)
          (if c.val = 1 then (assertText exp file baseFile line).map keyOf else []))) := by
  obtain ⟨mem', there, prints⟩ :=
    assertFailure_text flat expThere fileThere baseThere line short buf s
  rw [prints]
  constructor
  · intro task
    exact printxAt_fatal caller.limit s there (Or.inr ⟨rfl, task⟩) (by rw [List.length_cons]; omega)
  · intro user
    have quiet : ¬ Fatal caller.proc (magicChAssert :: assertText exp file baseFile line) := by
      rintro (other | ⟨-, task⟩)
      · exact absurd other (by decide)
      · omega
    have second : consoleId caller.proc = ⟨1, Nat.one_lt_succ_succ 1⟩ := if_neg (by omega)
    have body : bodyOf (magicChAssert :: assertText exp file baseFile line) =
        assertText exp file baseFile line := by
      rw [bodyOf, if_pos (Or.inl rfl)]
    obtain ⟨s', returned, same⟩ :=
      reached.run [.write (consoleId caller.proc) (assertText exp file baseFile line)]
    have written : (consoleWrite (consoleId caller.proc) (assertText exp file baseFile line) s).outcome =
        .ok s' := by
      obtain ⟨s₁, first, last⟩ := Traced.bind_eq_ok.mp returned
      exact last ▸ first
    refine ⟨s', ?_, fun c => ?_⟩
    · rw [printxAt_quiet there (by rw [List.length_cons]; omega) quiet, body]
      exact outcome_returned written
    · have typed := same c
      rw [keysOn, List.flatMap_singleton, ScreenOp.keys, second] at typed
      have here : (⟨1, Nat.one_lt_succ_succ 1⟩ : Fin consoleCnt) = c ↔ c.val = 1 := by
        rw [Fin.ext_iff]
        exact eq_comm
      simp only [here] at typed
      exact typed

/-- `ASSERT(x)` fails in a user process. -/
theorem assertion_fails_x : ∃ s₀ : Screen, s₀.Reached ∧ ∃ s',
    (Caller.assertFailure ⟨nowhere, bootKernel, 4, 256, fun _ => []⟩ (Bytes.storeBytes (fun _ => 0) 10 ([120] ++ [0]))
      256 10 10 10 7 s₀).outcome = .ok (.returned s') := by
  obtain ⟨s₀, reached, -⟩ := zeroedScreen_reached
  have there : StringAt (Bytes.storeBytes (fun _ => 0) 10 ([120] ++ [0])) (10 : Addr).toNat [120] :=
    stringAt_storeBytes (by decide)
  obtain ⟨-, user⟩ := @assertion_fails _ ⟨nowhere, bootKernel, 4, 256, fun _ => []⟩ [120] [120] [120] 10 10 10 s₀
    reached rfl there there there 7 (by decide +kernel) le_rfl 256
  obtain ⟨s', returned, -⟩ := user (by decide)
  exact ⟨s₀, reached, s', returned⟩

end WalOS
