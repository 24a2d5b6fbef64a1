/-
**Keys that are not in the map.**

An entry 0 of `key_map` means no key. `read_keyboard` adds the bits of the modifiers to it and gives it
to `store_key_into_console` as any other key; it has no `FLAG_EXT`, so its low byte is stored.

* `event_unmapped` — the release of such a key changes nothing, a press stores the character 0.
* `unmapped_prints` — a press of a key without an entry, and the console prints a character 0.
* `unmapped_ignored_iff` — **such keys have no effect in a run, and deleting them changes nothing,
  exactly when each of them is a release or meets a full ring.**
-/

import WalOS.Console.Decode
import WalOS.Console.Isolation

namespace WalOS

/-! ### Typing -/

/-- The keyboard, the consoles, and the characters printed from the rings so far. -/
structure Typing where
  keyboard : Keyboard
  screen : Screen
  printed : List (Fin consoleCnt × BitVec 8)

/-- What `console_task` does: the current console reads the codes of an event, or a console writes a
character of its ring. -/
inductive TypingStep where
  | event (e : KeyEvent)
  | print (c : Fin consoleCnt)

def TypingStep.run : TypingStep → Typing → Vga Typing
  | .event e, t =>
    match consoleReadKey t.screen.currentConsole t.keyboard t.screen e.bytes with
    | some ((k, s), _) => pure { t with keyboard := k, screen := s }
    | none => Traced.stop .forever
  | .print c, t => do
    let con := t.screen.console c
    let s ← consoleWriteKey c t.screen
    pure { t with
      screen := s
      printed := t.printed ++ if con.input.count ≠ 0 then [(c, con.input.next)] else [] }

def runTyping : List TypingStep → Typing → Vga Typing := Traced.runAll TypingStep.run

/-- The entry of the map that an event selects is 0. -/
def KeyEvent.unmapped (k : Keyboard) (e : KeyEvent) : Bool :=
  match e.code? with
  | some (codeE0, code) => k.column (keyRow code) codeE0 = 0
  | none => false

def TypingStep.unmapped (t : Typing) : TypingStep → Bool
  | .event e => e.unmapped t.keyboard
  | .print _ => false

/-- The steps without the events that select an entry 0 when they are read. -/
def dropUnmapped : List TypingStep → Typing → List TypingStep
  | [], _ => []
  | step :: steps, t =>
    let rest := match (step.run t).outcome with
      | .ok t' => dropUnmapped steps t'
      | .error _ => steps
    if step.unmapped t then rest else step :: rest

/-- The ring of the current console is full. -/
def Typing.Full (t : Typing) : Prop :=
  ¬ (t.screen.console t.screen.currentConsole).input.count < consoleBufLength

/-- The character 0 stored, for a console and for the current one. -/
def Console.putZero (con : Console) : Console := { con with input := con.input.put 0 }

def Typing.storeZero (t : Typing) : Typing :=
  { t with screen := t.screen.modify t.screen.currentConsole Console.putZero }

/-- An event without a key leaves everything as it is, whenever it comes in the run. -/
def UnmappedIgnored (steps : List TypingStep) (t : Typing) : Prop :=
  ∀ n e t', steps[n]? = some (.event e) → (runTyping (steps.take n) t).outcome = .ok t' →
    e.unmapped t'.keyboard = true → (runTyping (steps.take (n + 1)) t).outcome = .ok t'

/-- Whenever it comes, it is a release or the ring is full. -/
def UnmappedKeep (steps : List TypingStep) (t : Typing) : Prop :=
  ∀ n e t', steps[n]? = some (.event e) → (runTyping (steps.take n) t).outcome = .ok t' →
    e.unmapped t'.keyboard = true → e.presses = false ∨ t'.Full

variable {k : Keyboard} {s : Screen} {c : Fin consoleCnt} {e : KeyEvent} {t t' : Typing}
  {steps : List TypingStep}

/-! ### One event -/

theorem read_code {code : BitVec 8} {codeE0 : Bool} (here : e.code? = some (codeE0, code))
    (rest : List (BitVec 8)) :
    readKeyboard k (e.bytes ++ rest) = some (k.normalKey code codeE0, rest) := by
  cases e with
  | single code plain =>
    cases here
    exact read_single plain rest
  | extended code plain =>
    cases here
    exact read_extended plain rest
  | printScreen make => cases here
  | pause => cases here

theorem modifiers_low (k : Keyboard) : k.modifiers &&& flagExt = 0 ∧ k.modifiers.setWidth 8 = 0#8 := by
  have raw := modifiers_raw k
  constructor
  · have ext : flagExt = maskRaw &&& flagExt := by decide
    rw [ext, ← BitVec.and_assoc, raw]
    exact BitVec.zero_and
  · have low := congrArg (BitVec.setWidth 8) raw
    have mask : maskRaw.setWidth 8 = BitVec.allOnes 8 := by decide
    rwa [BitVec.setWidth_and, mask, BitVec.and_allOnes] at low

/-- The entry 0 with the bits of the modifiers. -/
theorem makeKey_zero (k : Keyboard) : k.makeKey 0 = k.modifiers := by
  show 0#32 ||| k.modifiers ||| 0#32 = _
  rw [BitVec.zero_or, BitVec.or_zero]

/-- **It is stored as the character 0.** -/
theorem storeKeyIntoConsole_zero (c : Fin consoleCnt) (k : Keyboard) (s : Screen) :
    storeKeyIntoConsole c (k.makeKey 0) s = s.modify c Console.putZero := by
  obtain ⟨plain, low⟩ := modifiers_low k
  rw [makeKey_zero, storeKeyIntoConsole, if_pos plain, storeKey, low]
  rfl

theorem normalKey_unmapped {code : BitVec 8} {codeE0 : Bool}
    (unmapped : k.column (keyRow code) codeE0 = 0) : k.normalKey code codeE0 =
      (k, if decide (code &&& flagBreak = 0) then some (k.makeKey 0) else none) := by
  have kept : k.switch 0 (decide (code &&& flagBreak = 0)) = k := rfl
  unfold Keyboard.normalKey
  dsimp only
  rw [unmapped, kept]

/-- **An event without a key**: a press stores the character 0, a release does nothing. -/
theorem event_unmapped (unmapped : e.unmapped t.keyboard = true) :
    (TypingStep.event e).run t = pure (if e.presses then t.storeZero else t) := by
  unfold KeyEvent.unmapped at unmapped
  cases here : e.code? with
  | none =>
    rw [here] at unmapped
    cases unmapped
  | some key =>
    obtain ⟨codeE0, code⟩ := key
    rw [here] at unmapped
    have read := (read_code (k := t.keyboard) here []).trans
      (congrArg (some <| Prod.mk · []) (normalKey_unmapped (of_decide_eq_true unmapped)))
    rw [List.append_nil] at read
    have presses : e.presses = decide (code &&& flagBreak = 0) := by
      unfold KeyEvent.presses
      rw [here]
    have delivered : consoleReadKey t.screen.currentConsole t.keyboard t.screen e.bytes =
        some ((t.keyboard, if e.presses then t.storeZero.screen else t.screen), []) := by
      show (readKeyboard t.keyboard e.bytes).bind _ = _
      rw [read, presses]
      cases decide (code &&& flagBreak = 0) with
      | true => exact congrArg (fun s => some ((t.keyboard, s), [])) (storeKeyIntoConsole_zero _ _ _)
      | false => rfl
    rw [TypingStep.run, delivered]
    cases e.presses <;> rfl

theorem modify_eq_self_iff {f : Console → Console} :
    s.modify c f = s ↔ f (s.console c) = s.console c := by
  constructor
  · intro same
    have consoles := congrFun (congrArg Screen.console same) c
    exact (Function.update_self c _ s.console).symm.trans consoles
  · intro same
    rw [Screen.modify, same, Function.update_eq_self]

theorem putZero_eq_self_iff {con : Console} :
    con.putZero = con ↔ ¬ con.input.count < consoleBufLength := by
  constructor
  · exact fun same => RingBuffer.put_eq_self_iff.mp (congrArg Console.input same)
  · intro full
    rw [Console.putZero, RingBuffer.put_full full]

/-- Storing the character 0 changes nothing exactly when the ring is full. -/
theorem storeZero_eq_iff : t.storeZero = t ↔ t.Full := by
  rw [Typing.Full, ← putZero_eq_self_iff, ← modify_eq_self_iff]
  constructor
  · exact congrArg Typing.screen
  · intro same
    rw [Typing.storeZero, same]

/-- **An event without a key changes nothing exactly when it is a release or the ring is full.** -/
theorem event_ignored_iff (unmapped : e.unmapped t.keyboard = true) :
    ((TypingStep.event e).run t).outcome = .ok t ↔ e.presses = false ∨ t.Full := by
  rw [event_unmapped unmapped]
  cases presses : e.presses with
  | false => exact ⟨fun _ => .inl rfl, fun _ => rfl⟩
  | true =>
    rw [← storeZero_eq_iff]
    exact ⟨fun same => .inr (Except.ok.inj same),
      fun keeps => congrArg Except.ok (keeps.resolve_left (by decide))⟩

/-! ### The run -/

theorem ignored_iff_keep (steps : List TypingStep) (t : Typing) :
    UnmappedIgnored steps t ↔ UnmappedKeep steps t := by
  refine forall_congr' fun n => forall_congr' fun e => forall_congr' fun t' =>
    forall_congr' fun here => forall_congr' fun returned => forall_congr' fun unmapped => ?_
  have next : (runTyping (steps.take (n + 1)) t).outcome = ((TypingStep.event e).run t').outcome :=
    Traced.runAll_take_succ here returned
  rw [next]
  exact event_ignored_iff unmapped

/-- The rest of a run from the state after its first step. -/
theorem UnmappedKeep.tail {step : TypingStep} (keep : UnmappedKeep (step :: steps) t)
    (first : (step.run t).outcome = .ok t') : UnmappedKeep steps t' := fun n e t'' here returned =>
  keep (n + 1) e t'' here ((Traced.outcome_runAll_cons first (steps.take n)).trans returned)

/-- **Deleting events that have no effect changes nothing.** -/
theorem dropUnmapped_outcome (keep : UnmappedKeep steps t) :
    (runTyping (dropUnmapped steps t) t).outcome = (runTyping steps t).outcome := by
  induction steps generalizing t with
  | nil => rfl
  | cons step steps ih =>
    rw [dropUnmapped]
    by_cases unmapped : step.unmapped t = true
    · rw [if_pos unmapped]
      cases step with
      | print c => cases unmapped
      | event e =>
        have ignored := (event_ignored_iff unmapped).mpr (keep 0 e t rfl rfl unmapped)
        rw [ignored]
        exact (ih (keep.tail ignored)).trans (Traced.outcome_runAll_cons ignored steps).symm
    · rw [if_neg unmapped]
      cases first : (step.run t).outcome with
      | error reason => rfl
      | ok t' =>
        exact (Traced.outcome_runAll_cons first _).trans ((ih (keep.tail first)).trans
          (Traced.outcome_runAll_cons first steps).symm)

/-- **Keys without an entry have no effect exactly when each of them is a release or meets a full
ring**: for every run of events and prints from every state, each such event leaves everything as it
is, and the run without them ends in the same state with the same characters printed, iff each is a
release or the current console's ring is full when it comes. -/
theorem unmapped_ignored_iff (steps : List TypingStep) (t : Typing) :
    (UnmappedIgnored steps t ∧
      (runTyping (dropUnmapped steps t) t).outcome = (runTyping steps t).outcome) ↔
    UnmappedKeep steps t := by
  rw [ignored_iff_keep]
  exact ⟨And.left, fun keep => ⟨keep, dropUnmapped_outcome keep⟩⟩

/-- The consoles as `init_consoles` sets them up, and nothing typed yet. -/
def freshTyping : Typing where
  keyboard := initKeyboard
  screen := { zeroedScreen 0 with console := fun c => freshConsole c (fun _ => 0) (cellAt c 3) }
  printed := []

/-- The key Mute (`e0 20`) has no entry. -/
def mute : KeyEvent := .extended 0x20 (by decide)

/-- **A press of Mute, and the console prints a character 0**; without the press it prints nothing. -/
theorem unmapped_prints :
    mute.unmapped initKeyboard = true ∧
    ((runTyping [.event mute, .print 0] freshTyping).outcome.map Typing.printed) = .ok [(0, 0)] ∧
    ((runTyping (dropUnmapped [.event mute, .print 0] freshTyping) freshTyping).outcome.map
      Typing.printed) = .ok [] ∧
    ¬ UnmappedIgnored [.event mute] freshTyping := by
  refine ⟨by decide, by decide +kernel, by decide +kernel, fun ignored => ?_⟩
  have keep := (ignored_iff_keep _ _).mp ignored 0 mute freshTyping rfl rfl (by decide)
  rcases keep with releases | full
  · exact absurd releases (by decide)
  · exact full (by decide)

end WalOS
