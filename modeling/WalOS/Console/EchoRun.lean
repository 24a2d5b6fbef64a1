/-
**What is typed is echoed** (`console_task`, over whole runs).

The keyboard interrupts the task anywhere, and other processes print between its steps. What has happened
up to a state is an `EchoHistory`: the scan codes that keys have used up, the keys, and the calls on the
consoles, the task's own mixed with those of the others.

* `Echo.After` — a state and its history: no code is lost, and the task owes at most the character
  that it is about to print.
* `EchoStep.after` — a step goes on with the history.
* `keys_echoed` — **the keys typed are echoed in order and once each**, in every run, whatever comes
  between; and the consoles show the calls made.
* `keys_settle` — with no more scan codes, the task catches up.
-/

import WalOS.Console.Echo

namespace WalOS

open Reader

/-! ### Mixed calls -/

/-- One list mixed into another: both keep their order. -/
inductive Mixed {α : Type} : List α → List α → List α → Prop where
  | nil : Mixed [] [] []
  | own {own others all : List α} (x : α) (mixed : Mixed own others all) :
      Mixed (own ++ [x]) others (all ++ [x])
  | other {own others all : List α} (x : α) (mixed : Mixed own others all) :
      Mixed own (others ++ [x]) (all ++ [x])

theorem Mixed.append {α : Type} {own others all : List α} (mixed : Mixed own others all) (l : List α) :
    Mixed (own ++ l) others (all ++ l) := by
  induction l generalizing own all with
  | nil =>
    rw [List.append_nil, List.append_nil]
    exact mixed
  | cons x l ih =>
    rw [List.append_cons, List.append_cons all]
    exact ih (mixed.own x)

/-- The scan codes that a run accepts, and what the others print in it. -/
def EchoEvent.code : EchoEvent → Option (BitVec 8)
  | .accepted scanCode => some scanCode
  | _ => none

def EchoEvent.call : EchoEvent → Option ScreenOp
  | .printed c buf => some (.write c buf)
  | _ => none

/-! ### Histories -/

/-- What has happened: the codes used up, the keys they made, the task's own calls, and all calls. -/
structure EchoHistory where
  consumed : List (BitVec 8)
  stored : List (Option Key)
  own : List ScreenOp
  calls : List ScreenOp

/-- **What the task owes** at each place, when its own calls should come to be the ones meant. -/
def Echo.Owes (kbIn : KbInput) (keyboard : Keyboard) (screen : Screen) (own meant : List ScreenOp) :
    Control → Prop
  | .round _ => own = meant ∧ ∀ c, (screen.console c).input.Holds []
  | .reading i taken => own = meant ∧ (∀ c, (screen.console c).input.Holds []) ∧
      i = screen.currentConsole ∧ (taken = [] → 0 < kbIn.count) ∧
      (taken ≠ [] → readKeyboard keyboard taken = none)
  | .writing i => ∃ waiting, meant = own ++ waiting.map (.print i) ∧ waiting.length ≤ 1 ∧
      (screen.console i).input.Holds waiting ∧ ∀ c, c ≠ i → (screen.console c).input.Holds []

/-- **A state and its history**, from the terminals and the console that were there at the start. -/
structure Echo.After (term₀ : Fin consoleCnt → Terminal (BitVec 16)) (cur₀ : Fin consoleCnt)
    (codes : List (BitVec 8)) (others : List ScreenOp) (h : EchoHistory) (s : Echo) : Prop where
  ring : s.kbIn.Holds s.kbIn.contents
  kept : codes = h.consumed ++ (s.control.taken ++ s.kbIn.contents)
  decoded : ∀ more, readKeyboards h.stored.length initKeyboard (h.consumed ++ more) =
    some ((s.keyboard, h.stored), more)
  mixed : Mixed h.own others h.calls
  shows : s.screen.Holds fun c => typeKeys (term₀ c) (keysOn c h.calls)
  current : s.screen.currentConsole = currentAfter cur₀ (echoOps cur₀ h.stored)
  owes : Echo.Owes s.kbIn s.keyboard s.screen h.own (echoOps cur₀ h.stored) s.control

variable {term₀ : Fin consoleCnt → Terminal (BitVec 16)} {cur₀ i c : Fin consoleCnt}
  {codes : List (BitVec 8)} {others : List ScreenOp} {h : EchoHistory} {s s' : Echo}
  {screen : Screen}

/-! ### What is the same everywhere -/

/-- The keys of one more list of calls. -/
theorem typeKeys_calls (calls ops : List ScreenOp) (c : Fin consoleCnt) (t : Terminal (BitVec 16)) :
    typeKeys t (keysOn c (calls ++ ops)) = typeKeys (typeKeys t (keysOn c calls)) (keysOn c ops) := by
  rw [keysOn, List.flatMap_append]
  exact Terminal.presses_append _ _ _

/-- **A call that prints**: the consoles show it, and nothing else changes. -/
theorem ScreenOp.shows {op : ScreenOp} {s s' : Screen} {calls : List ScreenOp}
    (shows : s.Holds fun c => typeKeys (term₀ c) (keysOn c calls))
    (returned : (op.run s).outcome = .ok s') :
    s'.Holds fun c => typeKeys (term₀ c) (keysOn c (calls ++ [op])) := by
  obtain ⟨s₁, runs, holds, -⟩ := op.run_holds shows
  obtain rfl := Except.ok.inj (returned.symm.trans runs)
  intro d
  show s'.HoldsAt d (typeKeys (term₀ d) (keysOn d (calls ++ [op])))
  rw [typeKeys_calls, show keysOn d [op] = op.keys d from List.flatMap_singleton _ _]
  exact holds d

/-- The oldest scan code. -/
theorem KbInput.gives {kbIn : KbInput} (ring : kbIn.Holds kbIn.contents) (some : 0 < kbIn.count) :
    kbIn.contents = (getByteFromKbBuf kbIn).1 :: (getByteFromKbBuf kbIn).2.contents ∧
      (getByteFromKbBuf kbIn).2.Holds (getByteFromKbBuf kbIn).2.contents := by
  obtain ⟨rest, whole, holds⟩ := ring.take some
  have same : (getByteFromKbBuf kbIn).2.contents = rest := holds.contents
  rw [same]
  exact ⟨whole, holds⟩

/-! ### Steps -/

/-- A scan code that comes. -/
theorem Echo.After.interrupt (after : s.After term₀ cur₀ codes others h)
    (room : s.kbIn.count < kbInBufLength) (scanCode : BitVec 8) :
    Echo.After term₀ cur₀ (codes ++ [scanCode]) others h
      { s with kbIn := keyboardIntHandler scanCode s.kbIn } := by
  have ring := after.ring.put room scanCode
  have more : (keyboardIntHandler scanCode s.kbIn).contents = s.kbIn.contents ++ [scanCode] :=
    ring.contents
  refine ⟨more ▸ ring, ?_, after.decoded, after.mixed, after.shows, after.current, ?_⟩
  · show codes ++ [scanCode] =
      h.consumed ++ (s.control.taken ++ (keyboardIntHandler scanCode s.kbIn).contents)
    rw [more, after.kept, List.append_assoc, List.append_assoc]
  · have owes := after.owes
    cases place : s.control with
    | round i => rw [place] at owes; exact owes
    | writing i => rw [place] at owes; exact owes
    | reading i taken =>
      rw [place] at owes
      obtain ⟨same, empty, here, -, part⟩ := owes
      refine ⟨same, empty, here, fun _ => ?_, part⟩
      show 0 < (s.kbIn.put scanCode).count
      rw [← ring.length, List.length_append]
      exact Nat.succ_pos _

/-- What another process prints. -/
theorem Echo.After.other (after : s.After term₀ cur₀ codes others h) {buf : List (BitVec 8)}
    (returned : (consoleWrite c buf s.screen).outcome = .ok screen) :
    Echo.After term₀ cur₀ codes (others ++ [.write c buf])
      { h with calls := h.calls ++ [.write c buf] } { s with screen := screen } := by
  have current := ((consoleWrite_showing buf s.screen).value screen returned).current
  have input := (consoleWrite_input buf s.screen).value screen returned
  have writes : ((ScreenOp.write c buf).run s.screen).outcome = .ok screen := returned
  refine ⟨after.ring, after.kept, after.decoded, after.mixed.other _, ScreenOp.shows after.shows writes,
    current.trans after.current, ?_⟩
  have owes := after.owes
  cases place : s.control with
  | round i =>
    rw [place] at owes
    exact ⟨owes.1, fun d => input d ▸ owes.2 d⟩
  | reading i taken =>
    rw [place] at owes
    obtain ⟨same, empty, here, some, part⟩ := owes
    exact ⟨same, fun d => input d ▸ empty d, here.trans current.symm, some, part⟩
  | writing i =>
    rw [place] at owes
    obtain ⟨waiting, meant, short, holds, empty⟩ := owes
    exact ⟨waiting, meant, short, input i ▸ holds, fun d other => input d ▸ empty d other⟩

/-- The task begins to read. -/
theorem Echo.After.poll (after : s.After term₀ cur₀ codes others h) (place : s.control = .round i)
    (here : i = s.screen.currentConsole) (some : 0 < s.kbIn.count) :
    Echo.After term₀ cur₀ codes others h { s with control := .reading i [] } := by
  have owes := after.owes
  have kept := after.kept
  rw [place] at owes kept
  exact ⟨after.ring, kept, after.decoded, after.mixed, after.shows, after.current, owes.1, owes.2, here,
    fun _ => some, fun no => absurd rfl no⟩

/-- There is nothing to read. -/
theorem Echo.After.pass (after : s.After term₀ cur₀ codes others h) (place : s.control = .round i) :
    Echo.After term₀ cur₀ codes others h { s with control := .writing i } := by
  have owes := after.owes
  have kept := after.kept
  rw [place] at owes kept
  exact ⟨after.ring, kept, after.decoded, after.mixed, after.shows, after.current,
    [], owes.1.symm.trans (List.append_nil _).symm, Nat.zero_le 1, owes.2 i, fun c _ => owes.2 c⟩

/-- A scan code that leaves the key incomplete. -/
theorem Echo.After.take (after : s.After term₀ cur₀ codes others h) {taken : List (BitVec 8)}
    (place : s.control = .reading i taken) (some : 0 < s.kbIn.count)
    (part : readKeyboard s.keyboard (taken ++ [(getByteFromKbBuf s.kbIn).1]) = none) :
    Echo.After term₀ cur₀ codes others h { s with
      kbIn := (getByteFromKbBuf s.kbIn).2
      control := .reading i (taken ++ [(getByteFromKbBuf s.kbIn).1]) } := by
  obtain ⟨first, ring⟩ := KbInput.gives after.ring some
  have owes := after.owes
  have kept := after.kept
  rw [place] at owes kept
  obtain ⟨same, empty, here, -, -⟩ := owes
  refine ⟨ring, ?_, after.decoded, after.mixed, after.shows, after.current, same, empty, here,
    fun none => absurd none (List.append_ne_nil_of_right_ne_nil _ (List.cons_ne_nil _ _)), fun _ => part⟩
  rw [kept, first]
  exact congrArg (h.consumed ++ ·) (List.append_cons _ _ _)

/-- **The scan code that completes a key**: the key is stored, and its call made or owed. -/
theorem Echo.After.read (after : s.After term₀ cur₀ codes others h) {taken rest : List (BitVec 8)}
    {k : Keyboard} {stored : Option Key} (place : s.control = .reading i taken)
    (some : 0 < s.kbIn.count) (read : readKeyboard s.keyboard (taken ++ [(getByteFromKbBuf s.kbIn).1]) =
      .some ((k, stored), rest)) :
    ∃ h', Echo.After term₀ cur₀ codes others h'
      { kbIn := (getByteFromKbBuf s.kbIn).2, keyboard := k
        screen := storeRead i stored s.screen, control := .writing i } := by
  obtain ⟨first, ring⟩ := KbInput.gives after.ring some
  have owes := after.owes
  have kept := after.kept
  rw [place] at owes kept
  obtain ⟨same, empty, here, -, part⟩ := owes
  obtain ⟨-, reads⟩ := readKeyboard_last part read
  obtain ⟨done, waiting, after'⟩ := storeRead_echo after.shows (empty i) stored
  have meant : echoOps cur₀ (h.stored ++ [stored]) = h.own ++ done ++ waiting.map (.print i) := by
    rw [echoOps_concat, ← after.current, ← here, ← same, after'.whole, List.append_assoc]
  refine ⟨⟨h.consumed ++ (taken ++ [(getByteFromKbBuf s.kbIn).1]), h.stored ++ [stored],
    h.own ++ done, h.calls ++ done⟩, ring, ?_, fun more => ?_, after.mixed.append done, fun d => ?_, ?_,
    waiting, meant, after'.short, after'.ring, fun d other => after'.others d other ▸ empty d⟩
  · rw [kept, first]
    show _ = h.consumed ++ (taken ++ [(getByteFromKbBuf s.kbIn).1]) ++
      ([] ++ (getByteFromKbBuf s.kbIn).2.contents)
    rw [List.append_assoc, List.append_assoc]
    rfl
  · rw [List.length_append, List.append_assoc]
    exact readKeyboards_concat (after.decoded _) (reads more)
  · show (storeRead i stored s.screen).HoldsAt d (typeKeys (term₀ d) (keysOn d (h.calls ++ done)))
    rw [typeKeys_calls]
    exact after'.holds d
  · rw [echoOps_concat, currentAfter_append, ← after.current, ← here]
    exact after'.current.trans (by rw [← here])

/-- **The character that waits is printed**, and the task owes nothing. -/
theorem Echo.After.write (after : s.After term₀ cur₀ codes others h) (place : s.control = .writing i) :
    ∃ screen, (consoleWriteKey i s.screen).outcome = .ok screen ∧
      ∃ h', Echo.After term₀ cur₀ codes others h'
        { s with screen := screen, control := .round (nextConsole i) } := by
  have owes := after.owes
  have kept := after.kept
  rw [place] at owes kept
  obtain ⟨waiting, meant, short, ring, empty⟩ := owes
  obtain ⟨screen, returned, shows, current, none, same⟩ := consoleWriteKey_echo after.shows ring short
  refine ⟨screen, returned, ⟨h.consumed, h.stored, h.own ++ waiting.map (.print i),
    h.calls ++ waiting.map (.print i)⟩, after.ring, kept, after.decoded, after.mixed.append _,
    fun d => ?_, current.trans after.current, meant.symm, fun d => ?_⟩
  · show screen.HoldsAt d (typeKeys (term₀ d) (keysOn d (h.calls ++ waiting.map (.print i))))
    rw [typeKeys_calls]
    exact shows d
  · by_cases other : d = i
    · exact other ▸ none
    · exact same d other ▸ empty d other

/-- **A step goes on with the history.** -/
theorem EchoStep.after {event : Option EchoEvent} (after : s.After term₀ cur₀ codes others h)
    (step : EchoStep s event s') :
    ∃ h', s'.After term₀ cur₀ (codes ++ event.toList.filterMap EchoEvent.code)
      (others ++ event.toList.filterMap EchoEvent.call) h' := by
  cases step with
  | interrupt room scanCode =>
    refine ⟨h, ?_⟩
    show Echo.After term₀ cur₀ (codes ++ [scanCode]) (others ++ []) h _
    rw [List.append_nil]
    exact after.interrupt room scanCode
  | overrun full scanCode =>
    have same : keyboardIntHandler scanCode s.kbIn = s.kbIn := RingBuffer.put_full full scanCode
    refine ⟨h, ?_⟩
    show Echo.After term₀ cur₀ (codes ++ []) (others ++ []) h _
    rw [List.append_nil, List.append_nil, same]
    exact after
  | @other c buf _ returned =>
    refine ⟨{ h with calls := h.calls ++ [.write c buf] }, ?_⟩
    show Echo.After term₀ cur₀ (codes ++ []) (others ++ [.write c buf]) _ _
    rw [List.append_nil]
    exact after.other returned
  | poll place here some => exact ⟨h, by simpa using after.poll place here some⟩
  | pass place _ => exact ⟨h, by simpa using after.pass place⟩
  | take place some part => exact ⟨h, by simpa using after.take place some part⟩
  | read place some read =>
    obtain ⟨h', after'⟩ := after.read place some read
    exact ⟨h', by simpa using after'⟩
  | write place returned =>
    obtain ⟨screen, returned', h', after'⟩ := after.write place
    obtain rfl := Except.ok.inj (returned.symm.trans returned')
    exact ⟨h', by simpa using after'⟩

/-- The same, over a run. -/
theorem Echo.After.run {events : List EchoEvent} (after : s.After term₀ cur₀ codes others h)
    (run : Transitions EchoStep s events s') :
    ∃ h', s'.After term₀ cur₀ (codes ++ events.filterMap EchoEvent.code)
      (others ++ events.filterMap EchoEvent.call) h' := by
  induction run generalizing codes others h with
  | nil s => exact ⟨h, by simpa using after⟩
  | cons first rest ih =>
    obtain ⟨h₁, after₁⟩ := first.after after
    obtain ⟨h', after'⟩ := ih after₁
    refine ⟨h', ?_⟩
    rw [List.filterMap_append, List.filterMap_append, ← List.append_assoc, ← List.append_assoc]
    exact after'

/-! ### The start -/

theorem initConsole_input {i : Fin consoleCnt} {s s' : Screen}
    (returned : (initConsole i s).outcome = .ok s') :
    (s'.console i).input = .empty (s.console i).input.buf ∧
      ∀ d, d ≠ i → (s'.console d).input = (s.console d).input := by
  let cleared := s.modify i fun con => freshConsole i con.input.buf (regionCell i)
  have start : (cleared.console i).input = .empty (s.console i).input.buf ∧
      ∀ d, d ≠ i → (cleared.console d).input = (s.console d).input :=
    ⟨congrArg Console.input (Function.update_self i _ s.console), fun d other =>
      congrArg Console.input (Function.update_of_ne other _ s.console)⟩
  have keeps : SameInput cleared s' := by
    unfold initConsole at returned
    dsimp only at returned
    by_cases zero : i = 0
    · rw [if_pos zero] at returned
      cases returned
      exact fun d => sameInput_modify (s := cleared) (c := i)
        (f := fun con => { con with cursorPos := s.position / 2 }) (fun _ => rfl) d
    · rw [if_neg zero] at returned
      obtain ⟨s₁, first, rest⟩ := Traced.bind_eq_ok.mp returned
      obtain ⟨s₂, second, third⟩ := Traced.bind_eq_ok.mp rest
      exact ((printCharacter_input i _ cleared).value s₁ first |>.trans
        ((printCharacter_input i _ s₁).value s₂ second)).trans
        ((printCharacter_input i _ s₂).value s' third)
  exact ⟨(keeps i).trans start.1, fun d other => (keeps d).trans (start.2 d other)⟩

/-- `init_consoles` empties the rings. -/
theorem initConsoles_input {s s₀ : Screen} (started : (initConsoles s).outcome = .ok s₀)
    (c : Fin consoleCnt) : (s₀.console c).input.Holds [] := by
  obtain ⟨s₁, zero, rest⟩ := Traced.bind_eq_ok.mp started
  obtain ⟨s₂, one, two⟩ := Traced.bind_eq_ok.mp rest
  have emptied : ∃ buf, (s₀.console c).input = .empty buf := by
    by_cases last : c = 2
    · exact ⟨_, last ▸ (initConsole_input two).1⟩
    rw [(initConsole_input two).2 c last]
    by_cases middle : c = 1
    · exact ⟨_, middle ▸ (initConsole_input one).1⟩
    rw [(initConsole_input one).2 c middle]
    have first : ∀ c : Fin consoleCnt, c ≠ 2 → c ≠ 1 → c = 0 := by decide
    exact ⟨_, first c last middle ▸ (initConsole_input zero).1⟩
  obtain ⟨buf, empty⟩ := emptied
  exact empty ▸ RingBuffer.holds_empty buf (Nat.succ_pos 127)

/-- The task in front of its loop: `init_keyboard`, `init_consoles` and `change_current_console(0)` are
done. -/
def echoStart (kbIn : KbInput) (s₀ : Screen) : Echo :=
  ⟨kbIn, initKeyboard, changeCurrentConsole 0 s₀, .round ⟨0, zero_lt_consoleCnt⟩⟩

theorem Echo.After.start {s₁ s₀ : Screen} (inherited : (s₁.position / 2).toNat < regionLength)
    (started : (initConsoles s₁).outcome = .ok s₀) {kbIn : KbInput} {early : List (BitVec 8)}
    (ring : kbIn.Holds early) :
    (echoStart kbIn s₀).After s₁.startTerminal 0 early [] ⟨[], [], [], []⟩ := by
  obtain ⟨s₀', started', holds, -⟩ := initConsoles_holds s₁ inherited
  obtain rfl := Except.ok.inj (started.symm.trans started')
  obtain ⟨s', changes, shows, -⟩ := (ScreenOp.change 0).run_holds holds
  obtain rfl : changeCurrentConsole 0 s₀ = s' := Except.ok.inj changes
  have same : kbIn.contents = early := ring.contents
  have console := changeCurrentConsole_console 0 s₀
  refine ⟨same ▸ ring, same.symm, fun more => rfl, .nil, shows, ?_, rfl, fun c => ?_⟩
  · exact congrArg Screen.currentConsole (changeCurrentConsole_valid (i := 0) (by decide) s₀)
  · show ((changeCurrentConsole 0 s₀).console c).input.Holds []
    rw [console]
    exact initConsoles_input started c

/-! ### Catching up -/

/-- The task has caught up: there is no scan code to take, and no character to print. -/
def Echo.Rests (s : Echo) : Prop := s.kbIn.count = 0 ∧ ∀ i, s.control ≠ .writing i

/-- Any console comes up. -/
theorem nextConsole_reaches : ∀ i c : Fin consoleCnt, ∃ n < 3, nextConsole^[n] i = c := by decide

theorem EchoStep.run (step : EchoStep s none s') : Transitions EchoStep s [] s' := .cons step (.nil s')

theorem Echo.After.poll_next {n : ℕ} (after : s.After term₀ cur₀ codes others h)
    (place : s.control = .round i) (some : 0 < s.kbIn.count)
    (comes : nextConsole^[n] i = s.screen.currentConsole) :
    ∃ s' h' c, Transitions EchoStep s [] s' ∧ s'.After term₀ cur₀ codes others h' ∧
      s'.control = .reading c [] ∧ s'.kbIn = s.kbIn := by
  induction n generalizing s i h with
  | zero =>
    exact ⟨_, h, i, (EchoStep.poll place comes some).run, after.poll place comes some, rfl, rfl⟩
  | succ n ih =>
    by_cases here : i = s.screen.currentConsole
    · exact ⟨_, h, i, (EchoStep.poll place here some).run, after.poll place here some, rfl, rfl⟩
    have passes : EchoStep s none { s with control := .writing i } :=
      .pass place fun both => here both.1
    obtain ⟨screen, returned, h₁, after₁⟩ := (after.pass place).write rfl
    have writes : EchoStep { s with control := .writing i } none
        { s with screen := screen, control := .round (nextConsole i) } := .write rfl returned
    have current := ((consoleWriteKey_showing i _).value screen returned).current
    obtain ⟨s', h', c, runs, after', reads, same⟩ := ih after₁ rfl some (comes.trans current.symm)
    exact ⟨s', h', c, (passes.run.append writes.run).append runs, after', reads, same⟩

/-- A scan code is taken. -/
theorem Echo.After.reading_goes_on (after : s.After term₀ cur₀ codes others h) {taken : List (BitVec 8)}
    (place : s.control = .reading i taken) (some : 0 < s.kbIn.count) :
    ∃ s' h', Transitions EchoStep s [] s' ∧ s'.After term₀ cur₀ codes others h' ∧
      s'.kbIn.count < s.kbIn.count := by
  have less : (getByteFromKbBuf s.kbIn).2.count < s.kbIn.count := Nat.sub_lt some Nat.one_pos
  cases read : readKeyboard s.keyboard (taken ++ [(getByteFromKbBuf s.kbIn).1]) with
  | none => exact ⟨_, h, (EchoStep.take place some read).run, after.take place some read, less⟩
  | some result =>
    obtain ⟨⟨k, stored⟩, rest⟩ := result
    obtain ⟨h', after'⟩ := after.read place some read
    exact ⟨_, h', (EchoStep.read place some read).run, after', less⟩

theorem Echo.After.round_goes_on (after : s.After term₀ cur₀ codes others h)
    (place : s.control = .round i) :
    ∃ s' h', Transitions EchoStep s [] s' ∧ s'.After term₀ cur₀ codes others h' ∧
      (s'.Rests ∨ s'.kbIn.count < s.kbIn.count) := by
  rcases Nat.eq_zero_or_pos s.kbIn.count with none | some
  · exact ⟨s, h, .nil s, after, .inl ⟨none, fun j writes => by rw [place] at writes; cases writes⟩⟩
  obtain ⟨n, -, comes⟩ := nextConsole_reaches i s.screen.currentConsole
  obtain ⟨s₁, h₁, c, runs, after₁, reads, same⟩ := after.poll_next place some comes
  obtain ⟨s', h', runs', after', less⟩ := after₁.reading_goes_on reads (same ▸ some)
  exact ⟨s', h', runs.append runs', after', .inr (same ▸ less)⟩

/-- **The task goes on** until it has caught up. -/
theorem Echo.After.goes_on (after : s.After term₀ cur₀ codes others h) :
    ∃ s' h', Transitions EchoStep s [] s' ∧ s'.After term₀ cur₀ codes others h' ∧
      (s'.Rests ∨ s'.kbIn.count < s.kbIn.count) := by
  cases place : s.control with
  | round i => exact after.round_goes_on place
  | reading i taken =>
    rcases Nat.eq_zero_or_pos s.kbIn.count with none | some
    · exact ⟨s, h, .nil s, after, .inl ⟨none, fun j writes => by rw [place] at writes; cases writes⟩⟩
    · obtain ⟨s', h', runs, after', less⟩ := after.reading_goes_on place some
      exact ⟨s', h', runs, after', .inr less⟩
  | writing i =>
    obtain ⟨screen, returned, h₁, after₁⟩ := after.write place
    obtain ⟨s', h', runs, after', more⟩ := after₁.round_goes_on rfl
    exact ⟨s', h', (EchoStep.write place returned).run.append runs, after', more⟩

theorem Echo.After.settles (after : s.After term₀ cur₀ codes others h) :
    ∃ s' h', Transitions EchoStep s [] s' ∧ s'.After term₀ cur₀ codes others h' ∧ s'.Rests := by
  induction counted : s.kbIn.count using Nat.strong_induction_on generalizing s h with
  | _ n ih =>
    obtain ⟨s₁, h₁, runs, after₁, rests | less⟩ := after.goes_on
    · exact ⟨s₁, h₁, runs, after₁, rests⟩
    · obtain ⟨s', h', runs', after', rests⟩ := ih _ (counted ▸ less) after₁ rfl
      exact ⟨s', h', runs.append runs', after', rests⟩

/-! ### The echo -/

variable {s₁ s₀ : Screen} {kbIn : KbInput} {early : List (BitVec 8)} {events : List EchoEvent}

/-- **What is typed is echoed**, in every run of the task, whatever scan codes come and whatever other
processes print between its steps. The codes accepted are those of the keys read so far, the first codes
of the next key and what is in the ring; the task has made the calls that these keys stand for, in order
and once each, but for a character that it is about to print; and every console is what its calls make
it. -/
theorem keys_echoed (inherited : (s₁.position / 2).toNat < regionLength)
    (started : (initConsoles s₁).outcome = .ok s₀) (ring : kbIn.Holds early)
    (run : Transitions EchoStep (echoStart kbIn s₀) events s) :
    ∃ consumed stored own calls owed,
      early ++ events.filterMap EchoEvent.code = consumed ++ (s.control.taken ++ s.kbIn.contents) ∧
      readKeyboards stored.length initKeyboard consumed = some ((s.keyboard, stored), []) ∧
      echoOps 0 stored = own ++ owed ∧ owed.length ≤ 1 ∧
      Mixed own (events.filterMap EchoEvent.call) calls ∧
      (∀ c, (s.screen.terminal c).Same consoleGeometry (typeKeys (s₁.startTerminal c) (keysOn c calls))) ∧
      s.screen.currentConsole = currentAfter 0 (echoOps 0 stored) := by
  obtain ⟨h, after⟩ := (Echo.After.start inherited started ring).run run
  have read := after.decoded []
  rw [List.append_nil] at read
  have owes : ∃ owed, echoOps 0 h.stored = h.own ++ owed ∧ owed.length ≤ 1 := by
    have owes := after.owes
    cases place : s.control with
    | round i =>
      rw [place] at owes
      exact ⟨[], owes.1.symm.trans (List.append_nil _).symm, Nat.zero_le 1⟩
    | reading i taken =>
      rw [place] at owes
      exact ⟨[], owes.1.symm.trans (List.append_nil _).symm, Nat.zero_le 1⟩
    | writing i =>
      rw [place] at owes
      obtain ⟨waiting, meant, short, -, -⟩ := owes
      exact ⟨_, meant, (List.length_map _).trans_le short⟩
  obtain ⟨owed, meant, few⟩ := owes
  exact ⟨h.consumed, h.stored, h.own, h.calls, owed, after.kept, read, meant, few, after.mixed,
    fun c => (after.shows c).terminal, after.current⟩

/-- `a` is typed, and `x` printed on another console before the task begins. -/
theorem typed_and_printed : ∃ s₀ s, (initConsoles (zeroedScreen 640)).outcome = .ok s₀ ∧
    Transitions EchoStep (echoStart (.empty fun _ => 0) s₀) [.accepted 0x1e, .printed 1 [0x78]] s := by
  obtain ⟨s₀, started, -, -⟩ := initConsoles_holds (zeroedScreen 640) (by decide)
  have inherited : ((zeroedScreen 640).position / 2).toNat < regionLength := by decide
  have after := Echo.After.start inherited started (RingBuffer.holds_empty (fun _ => 0) (Nat.succ_pos 31))
  obtain ⟨screen, returned, -, -⟩ := consoleWrite_holds after.shows 1 [0x78]
  let s₁ : Echo := { echoStart (.empty fun _ => 0) s₀ with
    kbIn := keyboardIntHandler 0x1e (.empty fun _ => 0) }
  have comes : EchoStep (echoStart (.empty fun _ => 0) s₀) (some (.accepted 0x1e)) s₁ :=
    .interrupt (Nat.succ_pos 31) 0x1e
  have prints : EchoStep s₁ (some (.printed 1 [0x78])) { s₁ with screen := screen } := .other returned
  exact ⟨s₀, _, started, .cons comes (.cons prints (.nil _))⟩

theorem keys_echoed_x : ∃ s₀ s, (initConsoles (zeroedScreen 640)).outcome = .ok s₀ ∧
    Transitions EchoStep (echoStart (.empty fun _ => 0) s₀) [.accepted 0x1e, .printed 1 [0x78]] s ∧
    ∃ own calls, Mixed own [.write 1 [0x78]] calls ∧ s.screen.vga (cellAddr 1 3) =
      (typeKeys ((zeroedScreen 640).startTerminal 1) (keysOn 1 calls)).cells 3 := by
  obtain ⟨s₀, s, started, run⟩ := typed_and_printed
  obtain ⟨_, _, own, calls, _, -, -, -, -, mixed, shows, -⟩ := keys_echoed (by decide) started
    (RingBuffer.holds_empty _ (Nat.succ_pos 31)) run
  exact ⟨s₀, s, started, run, own, calls, mixed, (shows 1).cells 3 (by decide)⟩

/-- **The task catches up.** In a state of such a run where the codes accepted are those of whole keys,
the task alone comes to a state where every key is read and echoed. -/
theorem keys_settle (inherited : (s₁.position / 2).toNat < regionLength)
    (started : (initConsoles s₁).outcome = .ok s₀) (ring : kbIn.Holds early)
    (run : Transitions EchoStep (echoStart kbIn s₀) events s) {typed : List KeyEvent}
    (whole : early ++ events.filterMap EchoEvent.code = typed.flatMap KeyEvent.bytes) :
    ∃ s' stored calls, Transitions EchoStep s [] s' ∧ s'.Rests ∧ s'.control.taken = [] ∧
      readKeyboards typed.length initKeyboard (typed.flatMap KeyEvent.bytes) =
        some ((s'.keyboard, stored), []) ∧
      Tracks initKeyboard typed s'.keyboard ∧
      Mixed (echoOps 0 stored) (events.filterMap EchoEvent.call) calls ∧
      (∀ c, (s'.screen.terminal c).Same consoleGeometry
        (typeKeys (s₁.startTerminal c) (keysOn c calls))) ∧
      s'.screen.currentConsole = currentAfter 0 (echoOps 0 stored) := by
  obtain ⟨h, after⟩ := (Echo.After.start inherited started ring).run run
  obtain ⟨s', h', runs, after', rests⟩ := after.settles
  have none : s'.kbIn.contents = [] :=
    List.length_eq_zero_iff.mp (after'.ring.length.trans rests.1)
  have kept := after'.kept
  rw [whole, none, List.append_nil] at kept
  obtain ⟨waits, echoed⟩ : (s'.control.taken ≠ [] → readKeyboard s'.keyboard s'.control.taken = .none) ∧
      h'.own = echoOps 0 h'.stored := by
    have owes := after'.owes
    cases place : s'.control with
    | round i =>
      rw [place] at owes
      exact ⟨fun no => absurd rfl no, owes.1⟩
    | reading i taken =>
      rw [place] at owes
      exact ⟨owes.2.2.2.2, owes.1⟩
    | writing i => exact absurd place (rests.2 i)
  obtain ⟨k, stored, reads, tracks⟩ := readKeyboards_tracks initKeyboard typed []
  rw [List.append_nil] at reads
  have mine := after'.decoded s'.control.taken
  rw [← kept] at mine
  obtain ⟨taken, rfl, same⟩ := readKeyboards_whole mine waits reads
  refine ⟨s', stored, h'.calls, runs, rests, taken, reads, tracks, ?_, fun c => (after'.shows c).terminal,
    ?_⟩
  · rw [← same, ← echoed]
    exact after'.mixed
  · rw [← same]
    exact after'.current

theorem keys_settle_a : ∃ s₀ s s' calls, (initConsoles (zeroedScreen 640)).outcome = .ok s₀ ∧
    Transitions EchoStep (echoStart (.empty fun _ => 0) s₀) [.accepted 0x1e, .printed 1 [0x78]] s ∧
    Transitions EchoStep s [] s' ∧ Mixed [.print 0 0x61] [.write 1 [0x78]] calls ∧
    s'.screen.vga (cellAddr 0 320) =
      (typeKeys ((zeroedScreen 640).startTerminal 0) (keysOn 0 calls)).cells 320 := by
  obtain ⟨s₀, s, started, run⟩ := typed_and_printed
  have plain : (0x1e : BitVec 8) ≠ 0xe0 ∧ (0x1e : BitVec 8) ≠ 0xe1 := by decide
  obtain ⟨s', stored, calls, runs, -, -, reads, -, mixed, shows, -⟩ := keys_settle (by decide) started
    (RingBuffer.holds_empty _ (Nat.succ_pos 31)) run
    (show [0x1e] = [KeyEvent.single 0x1e plain].flatMap KeyEvent.bytes from rfl)
  have stored_a : [some 0x61] = stored := congrArg (fun read => read.1.2) (Option.some.inj reads)
  have meant : echoOps 0 [some 0x61] = [.print 0 0x61] := by
    have character : (0x61 : Key) &&& flagExt = 0 := by decide
    show echoOp 0 0x61 ++ [] = _
    rw [List.append_nil, echoOp, if_pos character]
    rfl
  rw [← stored_a, meant] at mixed
  exact ⟨s₀, s, s', calls, started, run, runs, mixed, (shows 0).cells 320 (by decide)⟩

end WalOS
