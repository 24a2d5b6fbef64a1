/-
**The console task** (`console_task`).

The task goes round the consoles: for the current one it reads the keyboard, and for each it prints what
`store_key` has left for it. The keyboard interrupts it anywhere, and other processes print between its
steps.

* `EchoStep` — the steps. `read_keyboard` takes its scan codes one by one and waits for those to come;
  `store_key_into_console`, `console_write_key` and the `console_write` of another process are each one
  step. Nothing in the code keeps the clock from coming inside one of them: runs in which another process
  then prints before it is finished are left out.
* `echoOp` — the call on the consoles that a key stands for.
* `reads_readNext` — `read_keyboard` uses up the codes of one key, whatever follows.
* `storeKeyIntoConsole_echo` — storing a key makes its call at once, or leaves a character for it.
-/

import WalOS.Console.Contents
import WalOS.Console.Decode
import WalOS.Console.Mirror
import WalOS.Lib.Reader

namespace WalOS

open Reader

/-! ### The task -/

/-- Where the task is: at the start of a round of the `for`, in `read_keyboard` with the scan codes that
it has taken, or in front of `console_write_key`. -/
inductive Control where
  | round (i : Fin consoleCnt)
  | reading (i : Fin consoleCnt) (taken : List (BitVec 8))
  | writing (i : Fin consoleCnt)

def Control.taken : Control → List (BitVec 8)
  | .reading _ taken => taken
  | _ => []

/-- The round after this one. -/
def nextConsole (i : Fin consoleCnt) : Fin consoleCnt :=
  ⟨(i + 1) % consoleCnt, Nat.mod_lt _ zero_lt_consoleCnt⟩

structure Echo where
  kbIn : KbInput
  keyboard : Keyboard
  screen : Screen
  control : Control

/-- The end of `read_keyboard`. -/
def storeRead (i : Fin consoleCnt) (stored : Option Key) (s : Screen) : Screen :=
  match stored with
  | some key => storeKeyIntoConsole i key s
  | none => s

/-- What is seen of a step: a scan code that comes, or what another process prints. -/
inductive EchoEvent where
  | accepted (scanCode : BitVec 8)
  | refused (scanCode : BitVec 8)
  | printed (c : Fin consoleCnt) (buf : List (BitVec 8))

/-- **A step.** Another process prints between two steps of the task, and its `console_write` is not
interrupted by the task. -/
inductive EchoStep : Echo → Option EchoEvent → Echo → Prop
  | interrupt {s : Echo} (room : s.kbIn.count < kbInBufLength) (scanCode : BitVec 8) :
      EchoStep s (some (.accepted scanCode)) { s with kbIn := keyboardIntHandler scanCode s.kbIn }
  | overrun {s : Echo} (full : ¬ s.kbIn.count < kbInBufLength) (scanCode : BitVec 8) :
      EchoStep s (some (.refused scanCode)) { s with kbIn := keyboardIntHandler scanCode s.kbIn }
  | other {s : Echo} {c : Fin consoleCnt} {buf : List (BitVec 8)} {screen : Screen} :
      (consoleWrite c buf s.screen).outcome = .ok screen →
      EchoStep s (some (.printed c buf)) { s with screen := screen }
  | poll {s : Echo} {i : Fin consoleCnt} : s.control = .round i → i = s.screen.currentConsole →
      0 < s.kbIn.count → EchoStep s none { s with control := .reading i [] }
  | pass {s : Echo} {i : Fin consoleCnt} : s.control = .round i →
      ¬ (i = s.screen.currentConsole ∧ 0 < s.kbIn.count) →
      EchoStep s none { s with control := .writing i }
  | take {s : Echo} {i : Fin consoleCnt} {taken : List (BitVec 8)} : s.control = .reading i taken →
      0 < s.kbIn.count → readKeyboard s.keyboard (taken ++ [(getByteFromKbBuf s.kbIn).1]) = none →
      EchoStep s none { s with
        kbIn := (getByteFromKbBuf s.kbIn).2
        control := .reading i (taken ++ [(getByteFromKbBuf s.kbIn).1]) }
  | read {s : Echo} {i : Fin consoleCnt} {taken rest : List (BitVec 8)} {k : Keyboard}
      {stored : Option Key} : s.control = .reading i taken → 0 < s.kbIn.count →
      readKeyboard s.keyboard (taken ++ [(getByteFromKbBuf s.kbIn).1]) = some ((k, stored), rest) →
      EchoStep s none
        { kbIn := (getByteFromKbBuf s.kbIn).2, keyboard := k
          screen := storeRead i stored s.screen, control := .writing i }
  | write {s : Echo} {i : Fin consoleCnt} {screen : Screen} : s.control = .writing i →
      (consoleWriteKey i s.screen).outcome = .ok screen →
      EchoStep s none { s with screen := screen, control := .round (nextConsole i) }

/-! ### What a key stands for -/

/-- The call on the consoles that a key stands for, if any. -/
def echoOp (c : Fin consoleCnt) (key : Key) : List ScreenOp :=
  if key &&& flagExt = 0 then [.print c (key.setWidth 8)]
  else
    let rawCode := key &&& maskRaw
    let shift := key &&& flagShiftL ≠ 0 ∨ key &&& flagShiftR ≠ 0
    let ctrl := key &&& flagCtrlL ≠ 0 ∨ key &&& flagCtrlR ≠ 0
    if rawCode = Key.enter then [.print c 0x0a]
    else if rawCode = Key.backspace then [.print c 0x08]
    else if rawCode = Key.up then if shift then [.scroll c .up] else []
    else if rawCode = Key.down then if shift then [.scroll c .down] else []
    else if rawCode = Key.f1 ∨ rawCode = Key.f2 ∨ rawCode = Key.f3 then
      if ctrl then [.change ((rawCode - Key.f1).setWidth 8)] else []
    else []

/-- The current console after a call. -/
def ScreenOp.current (cur : Fin consoleCnt) : ScreenOp → Fin consoleCnt
  | .change i => if inside : i.toNat < consoleCnt then ⟨i.toNat, inside⟩ else cur
  | _ => cur

def currentAfter (cur : Fin consoleCnt) (ops : List ScreenOp) : Fin consoleCnt :=
  ops.foldl ScreenOp.current cur

/-- **The calls that keys stand for**, each on the console that is current by the keys before it. -/
def echoOps (cur : Fin consoleCnt) : List (Option Key) → List ScreenOp
  | [] => []
  | none :: keys => echoOps cur keys
  | some key :: keys => echoOp cur key ++ echoOps (currentAfter cur (echoOp cur key)) keys

/-- What the last key read stands for. -/
def echoRead (c : Fin consoleCnt) : Option Key → List ScreenOp
  | some key => echoOp c key
  | none => []

variable {c i cur : Fin consoleCnt} {s s' : Screen} {k : Keyboard} {key : Key}
  {term : Fin consoleCnt → Terminal (BitVec 16)}

theorem currentAfter_append (cur : Fin consoleCnt) (first second : List ScreenOp) :
    currentAfter cur (first ++ second) = currentAfter (currentAfter cur first) second :=
  List.foldl_append

theorem echoOps_concat (cur : Fin consoleCnt) (keys : List (Option Key)) (stored : Option Key) :
    echoOps cur (keys ++ [stored]) =
      echoOps cur keys ++ echoRead (currentAfter cur (echoOps cur keys)) stored := by
  induction keys generalizing cur with
  | nil =>
    cases stored with
    | none => rfl
    | some key => exact List.append_nil _
  | cons first keys ih =>
    cases first with
    | none => exact ih cur
    | some key =>
      rw [List.cons_append, echoOps, ih, echoOps, currentAfter_append, List.append_assoc]

/-! ### Reading -/

/-- `read_keyboard` once there is a scan code. -/
def readNext (k : Keyboard) : Pending (Keyboard × Option Key) := do
  let scanned ← scanSpecial
  if scanned.key = 0 then pure (k.normalKey scanned.scanCode scanned.codeE0) else pure (k, none)

theorem reads_getByte : Consumes getByte := .next rfl fun _ _ => rfl

theorem reads_expect (codes : List (BitVec 8)) : Consumes (expect codes) := by
  induction codes with
  | nil => exact .pure true
  | cons code codes ih => exact reads_getByte.bind fun _ => .ite (.pure false) ih

theorem reads_scanSpecial : Consumes scanSpecial := by
  refine reads_getByte.bind fun scanCode => .ite ?_ (.ite ?_ (.pure _))
  · exact (reads_expect _).bind fun _ => .pure _
  · refine reads_getByte.bind fun scanCode => .ite ?_ (.ite ?_ (.pure _))
    · exact (reads_expect _).bind fun _ => .pure _
    · exact (reads_expect _).bind fun _ => .pure _

/-- **`read_keyboard` uses up the codes of one key**, whatever follows. -/
theorem reads_readNext (k : Keyboard) : Consumes (readNext k) :=
  reads_scanSpecial.bind fun _ => .ite (.pure _) (.pure _)

/-- The scan code that completes a key. -/
theorem readKeyboard_last {taken rest : List (BitVec 8)} {a : BitVec 8} {result : Keyboard × Option Key}
    (waits : taken ≠ [] → readKeyboard k taken = none)
    (done : readKeyboard k (taken ++ [a]) = some (result, rest)) :
    rest = [] ∧ ∀ more, readKeyboard k (taken ++ [a] ++ more) = some (result, more) := by
  cases taken with
  | nil =>
    have none : readNext k [] = none := rfl
    obtain ⟨nothing, same⟩ := (reads_readNext k).last (l := []) none done
    exact ⟨nothing, fun more => same more⟩
  | cons b taken =>
    obtain ⟨nothing, same⟩ := (reads_readNext k).last (l := b :: taken) (waits (by simp)) done
    exact ⟨nothing, fun more => same more⟩

/-- One call more. -/
theorem readKeyboards_concat {n : ℕ} {k₀ : Keyboard} {stored : List (Option Key)}
    {l middle rest : List (BitVec 8)} {k' : Keyboard} {last : Option Key}
    (first : readKeyboards n k₀ l = some ((k, stored), middle))
    (next : readKeyboard k middle = some ((k', last), rest)) :
    readKeyboards (n + 1) k₀ l = some ((k', stored ++ [last]), rest) := by
  induction n generalizing k₀ l stored with
  | zero =>
    cases first
    rw [readKeyboards, Consumes.bind_of_some next]
    rfl
  | succ n ih =>
    obtain ⟨⟨k₁, stored₁⟩, l₁, read, later⟩ := Consumes.bind_some first
    obtain ⟨⟨k₂, stored₂⟩, l₂, reads, same⟩ := Consumes.bind_some later
    cases same
    rw [readKeyboards, Consumes.bind_of_some read]
    show (readKeyboards (n + 1) k₁ >>= _) l₁ = _
    rw [Consumes.bind_of_some (ih reads)]
    rfl

/-- With nothing to read nothing is stored. -/
theorem readKeyboards_nil (n : ℕ) (k : Keyboard) :
    readKeyboards n k [] = some ((k, List.replicate n none), []) := by
  induction n with
  | zero => rfl
  | succ n ih =>
    have read : readKeyboard k [] = some ((k, none), []) := rfl
    rw [readKeyboards, Consumes.bind_of_some read]
    show (readKeyboards n k >>= _) [] = _
    rw [Consumes.bind_of_some ih]
    rfl

theorem echoOps_replicate (cur : Fin consoleCnt) (n : ℕ) : echoOps cur (List.replicate n none) = [] := by
  induction n with
  | zero => rfl
  | succ n ih => exact ih

/-- **All keys are read**: calls that stop at an incomplete key, on codes that are whole keys, have come
to the end of them, and what they stored stands for the same calls. -/
theorem readKeyboards_whole {n m : ℕ} {k k₁ k₂ : Keyboard} {stored₁ stored₂ : List (Option Key)}
    {l part : List (BitVec 8)} (reads : readKeyboards n k l = some ((k₁, stored₁), part))
    (waits : part ≠ [] → readKeyboard k₁ part = none)
    (whole : readKeyboards m k l = some ((k₂, stored₂), [])) :
    part = [] ∧ k₁ = k₂ ∧ ∀ cur, echoOps cur stored₁ = echoOps cur stored₂ := by
  induction n generalizing k l m stored₁ stored₂ with
  | zero =>
    cases reads
    by_cases empty : part = []
    · subst empty
      cases (readKeyboards_nil m k₁).symm.trans whole
      exact ⟨rfl, rfl, fun cur => (echoOps_replicate cur m).symm⟩
    · cases m with
      | zero =>
        cases whole
        exact absurd rfl empty
      | succ m =>
        rw [readKeyboards, Consumes.bind_of_none (waits empty)] at whole
        cases whole
  | succ n ih =>
    cases m with
    | zero =>
      cases whole
      cases (readKeyboards_nil (n + 1) k₂).symm.trans reads
      exact ⟨rfl, rfl, fun cur => echoOps_replicate cur (n + 1)⟩
    | succ m =>
      obtain ⟨⟨k', first⟩, l', read, later⟩ := Consumes.bind_some reads
      obtain ⟨⟨_, stored⟩, _, reads', same⟩ := Consumes.bind_some later
      cases same
      obtain ⟨⟨k'', first'⟩, l'', read', later'⟩ := Consumes.bind_some whole
      obtain ⟨⟨_, stored'⟩, _, whole', same'⟩ := Consumes.bind_some later'
      cases same'
      cases read.symm.trans read'
      obtain ⟨nothing, keyboard, ops⟩ := ih reads' whole'
      refine ⟨nothing, keyboard, fun cur => ?_⟩
      cases first with
      | none => exact ops cur
      | some key => rw [echoOps, echoOps, ops]

/-! ### Storing -/

theorem Screen.Holds.modify_input (holds : s.Holds term) (c : Fin consoleCnt)
    (f : RingBuffer (BitVec 8) consoleBufLength → RingBuffer (BitVec 8) consoleBufLength) :
    (s.modify c fun con => { con with input := f con.input }).Holds term := by
  intro d
  have here := holds d
  refine ⟨?_, here.contained, here.cells⟩
  show (Function.update s.console c _ d).Viewed d _
  by_cases same : d = c
  · subst same
    rw [Function.update_self]
    exact ⟨here.viewed.vgaMemStart, here.viewed.vgaMemEnd, here.viewed.vgaStartAddr,
      here.viewed.cursorPos, here.viewed.windowEnd_lt, here.viewed.cursor_lt⟩
  · rw [Function.update_of_ne same]
    exact here.viewed

/-- **What reading a key leaves**: its call is made, or its character waits in the ring of the console. -/
structure Stored (c : Fin consoleCnt) (s : Screen) (term : Fin consoleCnt → Terminal (BitVec 16))
    (ops : List ScreenOp) (s' : Screen) (done : List ScreenOp) (waiting : List (BitVec 8)) : Prop where
  whole : ops = done ++ waiting.map (.print c)
  short : waiting.length ≤ 1
  holds : s'.Holds fun d => typeKeys (term d) (keysOn d done)
  current : s'.currentConsole = currentAfter s.currentConsole ops
  ring : (s'.console c).input.Holds waiting
  others : ∀ d, d ≠ c → (s'.console d).input = (s.console d).input

theorem storeKey_echo (holds : s.Holds term) (empty : (s.console c).input.Holds []) (key : Key) :
    Stored c s term [.print c (key.setWidth 8)] (storeKey c key s).2 [] [key.setWidth 8] := by
  refine ⟨rfl, le_rfl, holds.modify_input c fun r => r.put (key.setWidth 8), rfl, ?_, fun d other => ?_⟩
  · rw [storeKey_input]
    exact empty.put (by rw [← empty.length]; exact Nat.succ_pos 127) _
  · exact congrArg Console.input (Function.update_of_ne other _ s.console)

theorem scroll_echo (holds : s.Holds term) (empty : (s.console c).input.Holds [])
    (direction : Direction) :
    Stored c s term [.scroll c direction] (scrollConsole c direction.sign s) [.scroll c direction] [] := by
  have input := scrollConsole_input c direction.sign s
  refine ⟨rfl, Nat.zero_le 1, fun d => ?_, (scrollConsole_shown c direction.sign s).current, ?_,
    fun d _ => input d⟩
  · have typed := scrollConsole_holds holds c direction d
    unfold typeOn at typed
    have keys : keysOn d [.scroll c direction] = if c = d then [direction.key] else [] := by
      simp [keysOn, ScreenOp.keys]
    show (scrollConsole c direction.sign s).HoldsAt d (typeKeys (term d) (keysOn d [.scroll c direction]))
    rw [keys]
    exact typed
  · rw [input c]
    exact empty

theorem nothing_echo (holds : s.Holds term) (empty : (s.console c).input.Holds []) :
    Stored c s term [] s [] [] :=
  ⟨rfl, Nat.zero_le 1, holds, rfl, empty, fun _ _ => rfl⟩

theorem change_echo (holds : s.Holds term) (empty : (s.console c).input.Holds []) (i : BitVec 8) :
    Stored c s term [.change i] (changeCurrentConsole i s) [.change i] [] := by
  have console := changeCurrentConsole_console i s
  refine ⟨rfl, Nat.zero_le 1, fun d => ?_, ?_, ?_, fun d _ => by rw [console]⟩
  · refine ⟨changeCurrentConsole_views holds.views i d, (holds d).contained, ?_⟩
    rw [changeCurrentConsole_vga]
    exact (holds d).cells
  · show _ = if inside : i.toNat < consoleCnt then ⟨i.toNat, inside⟩ else s.currentConsole
    unfold changeCurrentConsole
    split
    · rfl
    · rfl
  · rw [console]
    exact empty

/-- **A key that is stored is the call that it stands for.** -/
theorem storeKeyIntoConsole_echo (holds : s.Holds term) (empty : (s.console c).input.Holds [])
    (key : Key) : ∃ done waiting,
      Stored c s term (echoOp c key) (storeKeyIntoConsole c key s) done waiting := by
  unfold echoOp storeKeyIntoConsole
  dsimp only
  split_ifs
  · exact ⟨_, _, storeKey_echo holds empty key⟩
  · exact ⟨_, _, storeKey_echo holds empty 0x0a⟩
  · exact ⟨_, _, storeKey_echo holds empty 0x08⟩
  · exact ⟨_, _, scroll_echo holds empty .up⟩
  · exact ⟨_, _, nothing_echo holds empty⟩
  · exact ⟨_, _, scroll_echo holds empty .down⟩
  · exact ⟨_, _, nothing_echo holds empty⟩
  · exact ⟨_, _, change_echo holds empty _⟩
  · exact ⟨_, _, nothing_echo holds empty⟩
  · exact ⟨_, _, nothing_echo holds empty⟩

/-- The same, where there may be no key. -/
theorem storeRead_echo (holds : s.Holds term) (empty : (s.console c).input.Holds [])
    (stored : Option Key) : ∃ done waiting,
      Stored c s term (echoRead c stored) (storeRead c stored s) done waiting := by
  cases stored with
  | some key => exact storeKeyIntoConsole_echo holds empty key
  | none => exact ⟨_, _, nothing_echo holds empty⟩

/-- **`console_write_key` prints what waits.** -/
theorem consoleWriteKey_echo {waiting : List (BitVec 8)} (holds : s.Holds term)
    (ring : (s.console c).input.Holds waiting) (short : waiting.length ≤ 1) :
    ∃ s', (consoleWriteKey c s).outcome = .ok s' ∧
      (s'.Holds fun d => typeKeys (term d) (keysOn d (waiting.map (.print c)))) ∧
      s'.currentConsole = s.currentConsole ∧ (s'.console c).input.Holds [] ∧
      ∀ d, d ≠ c → (s'.console d).input = (s.console d).input := by
  have counted := ring.length
  cases waiting with
  | nil =>
    refine ⟨s, ?_, holds, rfl, ring, fun _ _ => rfl⟩
    unfold consoleWriteKey
    rw [if_neg fun some => some counted.symm]
    rfl
  | cons ch waiting =>
    obtain rfl := List.length_eq_zero_iff.mp (Nat.le_zero.mp (Nat.le_of_succ_le_succ short))
    have some : (s.console c).input.count ≠ 0 := counted ▸ Nat.succ_ne_zero 0
    obtain ⟨rest, whole, dropped⟩ := ring.take (Nat.pos_of_ne_zero some)
    obtain ⟨rfl, rfl⟩ := List.cons.inj whole
    obtain ⟨s', prints, after, -⟩ :=
      printCharacter_holds (holds.modify_input c RingBuffer.drop) c (s.console c).input.next
    have returned : (consoleWriteKey c s).outcome = .ok s' := by
      unfold consoleWriteKey
      rw [if_pos some]
      exact prints
    have input : ∀ d, _ := fun d => consoleWriteKey_input (c := d) c returned
    refine ⟨s', returned, fun d => ?_, ((consoleWriteKey_showing c s).value s' returned).current, ?_,
      fun d other => ?_⟩
    · have typed := after d
      have keys : keysOn d [.print c (s.console c).input.next] =
          if c = d then [keyOf (s.console c).input.next] else [] := by
        simp [keysOn, ScreenOp.keys]
      show s'.HoldsAt d (typeKeys (term d) (keysOn d [.print c (s.console c).input.next]))
      rw [keys]
      exact typed
    · rw [input c, if_pos ⟨rfl, some⟩]
      exact dropped
    · rw [input d, if_neg fun both => other both.1.symm]

end WalOS
