/-
**The two input rings are bounded queues.**

`keyboard_int_handler` and `get_byte_from_kb_buf` share a ring of 32 scan codes; `store_key` and
`console_write_key` a ring of 128 characters for each console.

* `KeyboardStep`, `ConsoleStep` — their steps, with what happens at the ring. The steps of a console
  are mixed with any others: prints, scrolling, and the keys of the other consoles.
* `printCharacter_input`, `ScreenOp.run_input` — nothing else touches a ring.
* `input_rings_refine` — **both rings have the runs of a bounded queue**: what is taken out is what was
  accepted, in order and once each, and a code is refused exactly when the queue is full.
-/

import WalOS.Console.Keyboard
import WalOS.Console.Isolation

namespace WalOS

/-! ### The steps -/

/-- A step of the keyboard ring. Code that finds no scan code waits, and makes no step. -/
inductive KeyboardStep : KbInput → Option (QueueEvent (BitVec 8)) → KbInput → Prop where
  | interrupt {kbIn : KbInput} (room : kbIn.count < kbInBufLength) (scanCode : BitVec 8) :
      KeyboardStep kbIn (some (.accepted scanCode)) (keyboardIntHandler scanCode kbIn)
  | overrun {kbIn : KbInput} (full : ¬ kbIn.count < kbInBufLength) (scanCode : BitVec 8) :
      KeyboardStep kbIn (some (.refused scanCode)) (keyboardIntHandler scanCode kbIn)
  | getByte {kbIn : KbInput} (nonempty : kbIn.count > 0) :
      KeyboardStep kbIn (some (.took (getByteFromKbBuf kbIn).1)) (getByteFromKbBuf kbIn).2

/-- A step of the screen, as the ring of one console sees it. -/
inductive ConsoleStep (c : Fin consoleCnt) :
    Screen → Option (QueueEvent (BitVec 8)) → Screen → Prop where
  | stored {s : Screen} {key : Key} (stored : (storeKey c key s).1 = true) :
      ConsoleStep c s (some (.accepted (key.setWidth 8))) (storeKey c key s).2
  | filled {s : Screen} {key : Key} (filled : (storeKey c key s).1 = false) :
      ConsoleStep c s (some (.refused (key.setWidth 8))) (storeKey c key s).2
  | wrote {s s' : Screen} (nonempty : (s.console c).input.count ≠ 0)
      (returned : (consoleWriteKey c s).outcome = .ok s') :
      ConsoleStep c s (some (.took (s.console c).input.next)) s'
  | idle {s s' : Screen} (empty : (s.console c).input.count = 0)
      (returned : (consoleWriteKey c s).outcome = .ok s') : ConsoleStep c s none s'
  | storedElsewhere {s : Screen} {d : Fin consoleCnt} (other : d ≠ c) (key : Key) :
      ConsoleStep c s none (storeKey d key s).2
  | wroteElsewhere {s s' : Screen} {d : Fin consoleCnt} (other : d ≠ c)
      (returned : (consoleWriteKey d s).outcome = .ok s') : ConsoleStep c s none s'
  | screen {s s' : Screen} (op : ScreenOp) (returned : (op.run s).outcome = .ok s') :
      ConsoleStep c s none s'

/-! ### What leaves the rings alone -/

/-- Every ring is as it was. -/
def SameInput (s s' : Screen) : Prop := ∀ d, (s'.console d).input = (s.console d).input

variable {c : Fin consoleCnt} {s s' : Screen}

theorem SameInput.trans {s'' : Screen} (first : SameInput s s') (second : SameInput s' s'') :
    SameInput s s'' := fun d => (second d).trans (first d)

/-- A change of a console that keeps its ring. -/
theorem sameInput_modify {f : Console → Console} (keeps : ∀ con, (f con).input = con.input) :
    SameInput s (s.modify c f) := by
  intro d
  show (Function.update s.console c _ d).input = _
  by_cases same : d = c
  · rw [same, Function.update_self]
    exact keeps _
  · rw [Function.update_of_ne same]

theorem scrollConsole_input (c : Fin consoleCnt) (direction : Int) (s : Screen) :
    SameInput s (scrollConsole c direction s) := by
  intro d
  rw [scrollConsole, showConsole_console]
  refine sameInput_modify (fun con => ?_) d
  unfold Console.scroll
  split_ifs <;> rfl

theorem printSwitch_input (c : Fin consoleCnt) (ch : BitVec 8) (s : Screen) :
    (printSwitch c ch s).Sat (fun _ => True) (SameInput s) (fun _ => True) := by
  have moves : ∀ (move : Console → BitVec 32),
      SameInput s (s.modify c fun con => { con with cursorPos := move con }) := fun _ =>
    sameInput_modify fun _ => rfl
  unfold printSwitch
  dsimp only
  refine Traced.Sat.ite (fun _ => ?_) fun _ => Traced.Sat.ite (fun _ => ?_) fun _ => ?_
  · exact Traced.Sat.ite (fun _ => Traced.Sat.pure (moves _)) fun _ => Traced.Sat.pure fun _ => rfl
  · exact Traced.Sat.ite (fun _ => putCell_sat trivial fun _ => moves (·.cursorPos - 1))
      fun _ => Traced.Sat.pure fun _ => rfl
  · refine Traced.Sat.ite (fun _ => ?_) fun _ => Traced.Sat.pure fun _ => rfl
    have written : (putCell (vgaMemBase + (s.console c).cursorPos * 2) (whiteCell ch) s).Sat
        (fun _ => True) (fun s' => SameInput s (s'.modify c fun con =>
          { con with cursorPos := con.cursorPos + 1 })) (fun _ => True) :=
      putCell_sat trivial fun _ => moves (·.cursorPos + 1)
    exact written.bind fun s' same => Traced.Sat.pure same

/-- **Printing takes nothing from a ring.** -/
theorem printCharacter_input (c : Fin consoleCnt) (ch : BitVec 8) (s : Screen) :
    (printCharacter c ch s).Sat (fun _ => True) (SameInput s) (fun _ => True) := by
  refine (printSwitch_input c ch s).bind fun s₁ same => ?_
  have loops : (Traced.loop .forever (scrollRound c) scrollFuel s₁).Sat (fun _ => True)
      (SameInput s) (fun _ => True) := by
    refine Traced.Sat.loop_partial (SameInput s) (fun s₂ kept => ?_) trivial scrollFuel s₁ same
    unfold scrollRound
    exact Traced.Sat.ite (fun _ => Traced.Sat.pure (kept.trans (scrollConsole_input c (-1) s₂)))
      fun _ => Traced.Sat.pure kept
  refine loops.bind fun s₂ kept => Traced.Sat.pure fun d => ?_
  rw [showConsole_console]
  exact kept d

theorem consoleWrite_input (buf : List (BitVec 8)) (s : Screen) :
    (consoleWrite c buf s).Sat (fun _ => True) (SameInput s) (fun _ => True) := by
  induction buf generalizing s with
  | nil => exact Traced.Sat.pure fun _ => rfl
  | cons ch buf ih =>
    exact (printCharacter_input c ch s).bind fun s₁ same =>
      (ih s₁).mono (fun _ _ => trivial) (fun _ kept => same.trans kept) fun _ _ => trivial

theorem ScreenOp.run_input (op : ScreenOp) (s : Screen) :
    (op.run s).Sat (fun _ => True) (SameInput s) (fun _ => True) := by
  cases op with
  | print c ch => exact printCharacter_input c ch s
  | write c buf => exact consoleWrite_input buf s
  | scroll c direction => exact Traced.Sat.pure (scrollConsole_input c _ s)
  | change i =>
    refine Traced.Sat.pure fun d => ?_
    unfold changeCurrentConsole
    split <;> rfl

/-! ### The steps of a console -/

theorem storeKey_input (c : Fin consoleCnt) (key : Key) (s : Screen) :
    ((storeKey c key s).2.console c).input = (s.console c).input.put (key.setWidth 8) :=
  congrArg Console.input (Function.update_self c _ s.console)

/-- The keys of one console do not touch the ring of another. -/
theorem storeKey_input_other {d : Fin consoleCnt} (other : d ≠ c) (key : Key) (s : Screen) :
    ((storeKey d key s).2.console c).input = (s.console c).input :=
  congrArg Console.input (Function.update_of_ne other.symm _ s.console)

/-- `console_write_key` drops a character from its own ring, if there is one. -/
theorem consoleWriteKey_input (d : Fin consoleCnt)
    (returned : (consoleWriteKey d s).outcome = .ok s') :
    (s'.console c).input =
      if d = c ∧ (s.console d).input.count ≠ 0 then (s.console c).input.drop
      else (s.console c).input := by
  unfold consoleWriteKey at returned
  by_cases nonempty : (s.console d).input.count ≠ 0
  · rw [if_pos nonempty] at returned
    rw [(printCharacter_input d _ _).value s' returned c]
    show (Function.update s.console d _ c).input = _
    by_cases same : c = d
    · subst same
      rw [Function.update_self, if_pos ⟨rfl, nonempty⟩]
    · rw [Function.update_of_ne same, if_neg fun both => same both.1.symm]
  · rw [if_neg nonempty] at returned
    rw [if_neg fun both => nonempty both.2]
    cases returned
    rfl

/-- **A step of the keyboard ring is a step of a queue of 32.** -/
theorem KeyboardStep.queueStep {kbIn kbIn' : KbInput} {event : QueueEvent (BitVec 8)}
    {q : List (BitVec 8)} (holds : kbIn.Holds q) (step : KeyboardStep kbIn (some event) kbIn') :
    ∃ q', QueueStep kbInBufLength q event q' ∧ kbIn'.Holds q' := by
  cases step with
  | interrupt room scanCode => exact holds.accepts room scanCode
  | overrun full scanCode => exact holds.refuses full scanCode
  | getByte nonempty => exact holds.gives nonempty

/-- **A step of the screen is a step of a queue of 128**, or none. -/
theorem ConsoleStep.queueStep {event : QueueEvent (BitVec 8)} {q : List (BitVec 8)}
    (holds : (s.console c).input.Holds q) (step : ConsoleStep c s (some event) s') :
    ∃ q', QueueStep consoleBufLength q event q' ∧ (s'.console c).input.Holds q' := by
  cases step with
  | @stored key stored =>
    rw [storeKey_input]
    exact holds.accepts (of_decide_eq_true stored) _
  | @filled key filled =>
    rw [storeKey_input]
    exact holds.refuses (of_decide_eq_false filled) _
  | wrote nonempty returned =>
    rw [consoleWriteKey_input c returned, if_pos ⟨rfl, nonempty⟩]
    exact holds.gives (Nat.pos_of_ne_zero nonempty)

theorem ConsoleStep.silent {q : List (BitVec 8)} (holds : (s.console c).input.Holds q)
    (step : ConsoleStep c s none s') : (s'.console c).input.Holds q := by
  cases step with
  | idle empty returned =>
    rw [consoleWriteKey_input c returned, if_neg fun both => both.2 empty]
    exact holds
  | storedElsewhere other key =>
    rw [storeKey_input_other other]
    exact holds
  | wroteElsewhere other returned =>
    rw [consoleWriteKey_input _ returned, if_neg fun both => other both.1]
    exact holds
  | screen op returned =>
    rw [(op.run_input s).value s' returned c]
    exact holds

/-! ### The runs -/

/-- **A ring refines the bounded queue in a run from empty**: the queue has the run's events, the ring
holds what the queue holds, and so what is taken out is what was accepted. -/
def Refines {cap : ℕ} (r : RingBuffer (BitVec 8) cap) (events : List (QueueEvent (BitVec 8))) :
    Prop :=
  ∃ q, QueueRun cap [] events q ∧ r.Holds q ∧ acceptedBy events = takenBy events ++ q

theorem refines_of_queueRun {cap : ℕ} {r : RingBuffer (BitVec 8) cap}
    {events : List (QueueEvent (BitVec 8))} {q : List (BitVec 8)}
    (run : QueueRun cap [] events q) (holds : r.Holds q) : Refines r events :=
  ⟨q, run, holds, run.balanced⟩

/-- **Both input rings are bounded queues**, in every run from the empty ring; and a refusal leaves the
ring as it is. -/
theorem input_rings_refine :
    (∀ buf events kbIn, Transitions KeyboardStep (.empty buf) events kbIn → Refines kbIn events) ∧
    (∀ scanCode kbIn kbIn', KeyboardStep kbIn (some (.refused scanCode)) kbIn' → kbIn' = kbIn) ∧
    (∀ c s buf events s', (s.console c).input = .empty buf →
      Transitions (ConsoleStep c) s events s' → Refines (s'.console c).input events) ∧
    (∀ c s ch s', ConsoleStep c s (some (.refused ch)) s' →
      (s'.console c).input = (s.console c).input) := by
  refine ⟨fun buf events kbIn run => ?_, fun scanCode kbIn kbIn' step => ?_,
    fun c s buf events s' fresh run => ?_, fun c s ch s' step => ?_⟩
  · obtain ⟨q, queue, holds⟩ := run.queueRun RingBuffer.Holds
      (fun _ _ _ _ step => by cases step) (fun _ _ _ _ holds step => step.queueStep holds)
      (RingBuffer.holds_empty buf (by decide))
    exact refines_of_queueRun queue holds
  · cases step with
    | overrun full scanCode => exact RingBuffer.put_full full scanCode
  · obtain ⟨q, queue, holds⟩ := run.queueRun
      (fun s q => (s.console c).input.Holds q)
      (fun _ _ _ holds step => step.silent holds) (fun _ _ _ _ holds step => step.queueStep holds)
      (fresh ▸ RingBuffer.holds_empty buf (by decide))
    exact refines_of_queueRun queue holds
  · cases step with
    | @filled key filled =>
      rw [storeKey_input]
      exact RingBuffer.put_full (of_decide_eq_false filled) _

end WalOS
