/-
**The display shows the current console.**

The start-address and cursor registers of the CRT controller are written by `scroll_console`,
`print_character` and `change_current_console`, each under its own condition. `DisplayOp` are all the
calls that reach them; `runDisplay` makes any sequence of them.

* `Screen.Within` — what a call about one console can do: nothing to the others, nor to the registers
  unless that console is the current one.
* `DisplayOp.run_shows` — a call keeps the registers those of the current console.
* `DisplayOp.run_inRange` — the cursors and the windows stay in the cells that 16 bits can name.
* `display_shows_current` — **the registers are the cursor and the window of the current console**, in
  every state reached; other consoles never change them, and coming back restores them.
-/

import WalOS.Console.Input

namespace WalOS

/-! ### The calls -/

inductive DisplayOp where
  | screen (op : ScreenOp)
  | storeKey (c : Fin consoleCnt) (key : Key)
  | writeKey (c : Fin consoleCnt)

def DisplayOp.run : DisplayOp → Screen → Vga Screen
  | .screen op, s => op.run s
  | .storeKey c key, s => pure (storeKeyIntoConsole c key s)
  | .writeKey c, s => consoleWriteKey c s

/-- The console that a call is about. -/
def DisplayOp.about : DisplayOp → Option (Fin consoleCnt)
  | .screen (.print c _) => some c
  | .screen (.write c _) => some c
  | .screen (.scroll c _) => some c
  | .screen (.change _) => none
  | .storeKey c _ => some c
  | .writeKey c => some c

/-- The call prints or scrolls. -/
def DisplayOp.Outputs : DisplayOp → Prop
  | .screen (.change _) => False
  | .storeKey _ _ => False
  | _ => True

def runDisplay : List DisplayOp → Screen → Vga Screen := Traced.runAll DisplayOp.run

/-! ### The registers -/

/-- The 16-bit registers. -/
def Crtc.start (r : Crtc) : BitVec 16 := r.startHigh ++ r.startLow
def Crtc.cursor (r : Crtc) : BitVec 16 := r.cursorHigh ++ r.cursorLow

/-- What the registers hold for a console. -/
def Console.crtc (con : Console) : Crtc where
  startHigh := byteOf ((con.vgaStartAddr >>> 8) &&& 0xff)
  startLow := byteOf (con.vgaStartAddr &&& 0xff)
  cursorHigh := byteOf ((con.cursorPos >>> 8) &&& 0xff)
  cursorLow := byteOf (con.cursorPos &&& 0xff)

/-- The registers are those of the current console. -/
def Screen.Mirrors (s : Screen) : Prop := s.crtc = (s.console s.currentConsole).crtc

/-- **The registers hold the cursor and the window of the current console**, as numbers. -/
structure Screen.Displays (s : Screen) : Prop where
  cursor : s.crtc.cursor.toNat = (s.console s.currentConsole).cursorPos.toNat
  start : s.crtc.start.toNat = (s.console s.currentConsole).vgaStartAddr.toNat

theorem bytes_append (w : BitVec 32) :
    byteOf ((w >>> 8) &&& 0xff) ++ byteOf (w &&& 0xff) = w.setWidth 16 := by
  refine BitVec.eq_of_getLsbD_eq fun i inside => ?_
  have mask : ∀ j < 8, (0xff : BitVec 32).getLsbD j = true := by decide
  rw [BitVec.getLsbD_append, byteOf, byteOf, BitVec.getLsbD_setWidth, BitVec.getLsbD_setWidth,
    BitVec.getLsbD_and, BitVec.getLsbD_and, BitVec.getLsbD_ushiftRight, BitVec.getLsbD_setWidth,
    decide_eq_true inside, Bool.true_and]
  by_cases low : i < 8
  · rw [if_pos low, decide_eq_true low, mask i low, Bool.and_true, Bool.true_and]
  · have high : i - 8 < 8 := by omega
    rw [if_neg low, decide_eq_true high, mask _ high, Bool.and_true, Bool.true_and,
      Nat.add_sub_cancel' (Nat.le_of_not_lt low)]

theorem Console.crtc_cursor (con : Console) : con.crtc.cursor = con.cursorPos.setWidth 16 :=
  bytes_append con.cursorPos

theorem Console.crtc_start (con : Console) : con.crtc.start = con.vgaStartAddr.setWidth 16 :=
  bytes_append con.vgaStartAddr

variable {c d : Fin consoleCnt} {s s' s'' : Screen} {view : Fin consoleCnt → Viewport} {w : Viewport}

/-! ### What a call about one console can do -/

/-- **A call about one console**: the others are as before, and the registers too unless it is the
current one. -/
structure Screen.Within (c : Fin consoleCnt) (s s' : Screen) : Prop where
  current : s'.currentConsole = s.currentConsole
  others : ∀ d, d ≠ c → s'.console d = s.console d
  crtc : s.currentConsole ≠ c → s'.crtc = s.crtc

/-- The same, with the registers kept those of the current console. -/
structure Screen.Shown (c : Fin consoleCnt) (s s' : Screen) : Prop extends Screen.Within c s s' where
  mirrors : s.Mirrors → s'.Mirrors

theorem Screen.Within.refl (c : Fin consoleCnt) (s : Screen) : s.Within c s :=
  ⟨rfl, fun _ _ => rfl, fun _ => rfl⟩

theorem Screen.Within.trans (first : s.Within c s') (second : s'.Within c s'') : s.Within c s'' :=
  ⟨second.current.trans first.current,
    fun d other => (second.others d other).trans (first.others d other),
    fun elsewhere => (second.crtc (first.current ▸ elsewhere)).trans (first.crtc elsewhere)⟩

theorem Screen.Shown.refl (c : Fin consoleCnt) (s : Screen) : s.Shown c s :=
  ⟨.refl c s, fun mirrors => mirrors⟩

theorem Screen.Shown.trans (first : s.Shown c s') (second : s'.Shown c s'') : s.Shown c s'' :=
  ⟨first.toWithin.trans second.toWithin, fun mirrors => second.mirrors (first.mirrors mirrors)⟩

theorem modify_within (c : Fin consoleCnt) (f : Console → Console) (s : Screen) :
    s.Within c (s.modify c f) :=
  ⟨rfl, fun _ other => Function.update_of_ne other _ _, fun _ => rfl⟩

/-- Writing the registers of the console is enough. -/
theorem Screen.Within.shown (within : s.Within c s') : s.Shown c (showConsole c s') := by
  unfold showConsole
  split
  · rename_i here
    have current : s.currentConsole = c := within.current.symm.trans here
    refine ⟨⟨within.current, within.others, fun elsewhere => absurd current elsewhere⟩, fun _ => ?_⟩
    show (s'.console c).crtc = (s'.console s'.currentConsole).crtc
    rw [here]
  · rename_i elsewhere
    have other : s.currentConsole ≠ c := fun same => elsewhere (within.current.trans same)
    refine ⟨within, fun mirrors => ?_⟩
    show s'.crtc = _
    rw [within.crtc other, within.current, within.others _ other]
    exact mirrors

/-- A change of a console that keeps its cursor and its window needs no refresh. -/
theorem Screen.modify_shown {f : Console → Console} (keeps : ∀ con, (f con).crtc = con.crtc) :
    s.Shown c (s.modify c f) := by
  refine ⟨modify_within c f s, fun mirrors => ?_⟩
  have kept : ((s.modify c f).console s.currentConsole).crtc = (s.console s.currentConsole).crtc := by
    show (Function.update s.console c _ s.currentConsole).crtc = _
    by_cases here : s.currentConsole = c
    · rw [here, Function.update_self]
      exact keeps _
    · rw [Function.update_of_ne here]
  exact mirrors.trans kept.symm

theorem scrollConsole_shown (c : Fin consoleCnt) (direction : Int) (s : Screen) :
    s.Shown c (scrollConsole c direction s) :=
  (modify_within c (Console.scroll direction) s).shown

/-- The `switch` of `print_character` writes no register. -/
theorem printSwitch_within (c : Fin consoleCnt) (ch : BitVec 8) (s : Screen) :
    (printSwitch c ch s).Sat (fun _ => True) (s.Within c) (fun _ => True) := by
  unfold printSwitch
  dsimp only
  refine Traced.Sat.ite (fun _ => ?_) fun _ => Traced.Sat.ite (fun _ => ?_) fun _ => ?_
  · exact Traced.Sat.ite (fun _ => Traced.Sat.pure (modify_within c _ s))
      fun _ => Traced.Sat.pure (.refl c s)
  · refine Traced.Sat.ite (fun _ => putCell_sat trivial fun vga => ?_)
      fun _ => Traced.Sat.pure (.refl c s)
    have moved := modify_within c (fun con => { con with cursorPos := con.cursorPos - 1 }) s
    exact ⟨moved.current, moved.others, moved.crtc⟩
  · refine Traced.Sat.ite (fun _ => ?_) fun _ => Traced.Sat.pure (.refl c s)
    have written : (putCell (vgaMemBase + (s.console c).cursorPos * 2) (whiteCell ch) s).Sat
        (fun _ => True) (s.Within c) (fun _ => True) :=
      putCell_sat trivial fun vga => ⟨rfl, fun _ _ => rfl, fun _ => rfl⟩
    exact written.bind fun s' within => Traced.Sat.pure (within.trans (modify_within c _ s'))

/-- **`print_character` shows what it did**, if its console is the current one. -/
theorem printCharacter_showing (c : Fin consoleCnt) (ch : BitVec 8) (s : Screen) :
    (printCharacter c ch s).Sat (fun _ => True) (s.Shown c) (fun _ => True) := by
  refine (printSwitch_within c ch s).bind fun s₁ switched => ?_
  have loops : (Traced.loop .forever (scrollRound c) scrollFuel s₁).Sat (fun _ => True) (s.Within c)
      (fun _ => True) := by
    refine Traced.Sat.loop_partial (s.Within c) (fun s₂ within => ?_) trivial scrollFuel s₁ switched
    unfold scrollRound
    exact Traced.Sat.ite
      (fun _ => Traced.Sat.pure (within.trans (scrollConsole_shown c (-1) s₂).toWithin))
      fun _ => Traced.Sat.pure within
  exact loops.bind fun s₂ within => Traced.Sat.pure within.shown

theorem consoleWrite_showing (buf : List (BitVec 8)) (s : Screen) :
    (consoleWrite c buf s).Sat (fun _ => True) (s.Shown c) (fun _ => True) := by
  induction buf generalizing s with
  | nil => exact Traced.Sat.pure (.refl c s)
  | cons ch buf ih =>
    exact (printCharacter_showing c ch s).bind fun s₁ first =>
      (ih s₁).mono (fun _ _ => trivial) (fun _ rest => first.trans rest) fun _ _ => trivial

theorem consoleWriteKey_showing (c : Fin consoleCnt) (s : Screen) :
    (consoleWriteKey c s).Sat (fun _ => True) (s.Shown c) (fun _ => True) := by
  unfold consoleWriteKey
  refine Traced.Sat.ite (fun _ => ?_) fun _ => Traced.Sat.pure (.refl c s)
  have dropped := Screen.modify_shown (s := s) (c := c)
    (f := fun con => { con with input := con.input.drop }) fun _ => rfl
  exact (printCharacter_showing c _ _).mono (fun _ _ => trivial) (fun _ rest => dropped.trans rest)
    fun _ _ => trivial

/-! ### What a call does -/

theorem changeCurrentConsole_valid {i : BitVec 8} (inside : i.toNat < consoleCnt) (s : Screen) :
    changeCurrentConsole i s = { s with
      currentConsole := ⟨i.toNat, inside⟩, crtc := (s.console ⟨i.toNat, inside⟩).crtc } :=
  dif_pos inside

theorem changeCurrentConsole_invalid {i : BitVec 8} (outside : ¬ i.toNat < consoleCnt) (s : Screen) :
    changeCurrentConsole i s = s := dif_neg outside

theorem changeCurrentConsole_console (i : BitVec 8) (s : Screen) :
    (changeCurrentConsole i s).console = s.console := by
  unfold changeCurrentConsole
  split <;> rfl

theorem changeCurrentConsole_mirrors (i : BitVec 8) (mirrors : s.Mirrors) :
    (changeCurrentConsole i s).Mirrors := by
  by_cases inside : i.toNat < consoleCnt
  · rw [changeCurrentConsole_valid inside]
    exact rfl
  · rw [changeCurrentConsole_invalid inside]
    exact mirrors

theorem storeKey_shown (c : Fin consoleCnt) (key : Key) (s : Screen) :
    s.Shown c (storeKey c key s).2 :=
  Screen.modify_shown (s := s) (f := fun con => { con with input := con.input.put (key.setWidth 8) })
    fun _ => rfl

/-- The calls of `store_key_into_console`, as what it may be. -/
theorem storeKeyIntoConsole_cases (c : Fin consoleCnt) (key : Key) (s : Screen) :
    s.Shown c (storeKeyIntoConsole c key s) ∨
      ∃ i, storeKeyIntoConsole c key s = changeCurrentConsole i s := by
  unfold storeKeyIntoConsole
  dsimp only
  split_ifs
  · exact .inl (storeKey_shown c key s)
  · exact .inl (storeKey_shown c 0x0a s)
  · exact .inl (storeKey_shown c 0x08 s)
  · exact .inl (scrollConsole_shown c 1 s)
  · exact .inl (.refl c s)
  · exact .inl (scrollConsole_shown c (-1) s)
  · exact .inl (.refl c s)
  · exact .inr ⟨_, rfl⟩
  · exact .inl (.refl c s)
  · exact .inl (.refl c s)

/-- **A call shows what it did to its console, or changes the current one.** -/
theorem DisplayOp.run_cases (op : DisplayOp) (returned : (op.run s).outcome = .ok s') :
    (∃ c, op.about = some c ∧ s.Shown c s') ∨
      ¬ op.Outputs ∧ ∃ i, s' = changeCurrentConsole i s := by
  cases op with
  | screen op =>
    cases op with
    | print c ch => exact .inl ⟨c, rfl, (printCharacter_showing c ch s).value s' returned⟩
    | write c buf => exact .inl ⟨c, rfl, (consoleWrite_showing buf s).value s' returned⟩
    | scroll c direction =>
      cases returned
      exact .inl ⟨c, rfl, scrollConsole_shown c direction.sign s⟩
    | change i =>
      cases returned
      exact .inr ⟨id, i, rfl⟩
  | storeKey c key =>
    cases returned
    rcases storeKeyIntoConsole_cases c key s with shown | ⟨i, same⟩
    · exact .inl ⟨c, rfl, shown⟩
    · exact .inr ⟨id, i, same⟩
  | writeKey c => exact .inl ⟨c, rfl, (consoleWriteKey_showing c s).value s' returned⟩

/-- **A call keeps the registers those of the current console.** -/
theorem DisplayOp.run_mirrors (op : DisplayOp) (mirrors : s.Mirrors)
    (returned : (op.run s).outcome = .ok s') : s'.Mirrors := by
  rcases op.run_cases returned with ⟨c, -, shown⟩ | ⟨-, i, rfl⟩
  · exact shown.mirrors mirrors
  · exact changeCurrentConsole_mirrors i mirrors

/-- A call about another console leaves this one as it is. -/
theorem DisplayOp.run_spares (op : DisplayOp) (spares : op.about ≠ some d)
    (returned : (op.run s).outcome = .ok s') : s'.console d = s.console d := by
  rcases op.run_cases returned with ⟨c, about, shown⟩ | ⟨-, i, rfl⟩
  · refine shown.others d fun same => spares ?_
    rw [about, same]
  · rw [changeCurrentConsole_console]

/-- **Printing to or scrolling another console writes no register.** -/
theorem DisplayOp.run_elsewhere (op : DisplayOp) (outputs : op.Outputs)
    (elsewhere : op.about ≠ some s.currentConsole) (returned : (op.run s).outcome = .ok s') :
    s'.crtc = s.crtc := by
  rcases op.run_cases returned with ⟨c, about, shown⟩ | ⟨changes, -⟩
  · refine shown.crtc fun same => elsewhere ?_
    rw [about, same]
  · exact absurd outputs changes

/-! ### The numbers -/

/-- Every cursor is at a cell that 16 bits can name. -/
def Screen.InRange (s : Screen) : Prop :=
  ∃ view : Fin consoleCnt → Viewport, s.Views view ∧
    ∀ c, regionStart c + (view c).cursor < 2 ^ 16

theorem Screen.Mirrors.displays (mirrors : s.Mirrors) (range : s.InRange) : s.Displays := by
  obtain ⟨view, views, cursors⟩ := range
  have viewed := views s.currentConsole
  have small := cursors s.currentConsole
  have line_le := viewed.line_le
  have base_le := regionStart_le s.currentConsole
  refine ⟨?_, ?_⟩
  · rw [mirrors, Console.crtc_cursor, BitVec.toNat_setWidth, viewed.cursorPos]
    exact Nat.mod_eq_of_lt small
  · rw [mirrors, Console.crtc_start, BitVec.toNat_setWidth, viewed.vgaStartAddr]
    exact Nat.mod_eq_of_lt (by omega)

/-- A character does not take the cursor past a cell that it is not past already, or the region. -/
theorem cursor_typed_le (ch : BitVec 8) (v : Viewport) :
    (typed ch v).cursor ≤ max v.cursor regionLength := by
  have length_eq : regionLength = 5461 := rfl
  rw [length_eq]
  unfold typed
  split_ifs
  · show (if v.cursor + 80 < 5461 then { v with cursor := 80 * (v.cursor / 80 + 1) } else v).cursor ≤ _
    split_ifs
    · show 80 * (v.cursor / 80 + 1) ≤ _
      omega
    · exact le_max_left _ _
  · unfold Viewport.back
    split_ifs
    · show v.cursor - 1 ≤ _
      omega
    · exact le_max_left _ _
  · show (if v.cursor + 1 < 5461 then { v with cursor := v.cursor + 1 } else v).cursor ≤ _
    split_ifs
    · show v.cursor + 1 ≤ _
      omega
    · exact le_max_left _ _

theorem Screen.InRange.update (views : s'.Views (Function.update view c w))
    (cursors : ∀ c, regionStart c + (view c).cursor < 2 ^ 16)
    (here : regionStart c + w.cursor < 2 ^ 16) : s'.InRange := by
  refine ⟨_, views, fun d => ?_⟩
  by_cases same : d = c
  · rw [same, Function.update_self]
    exact here
  · rw [Function.update_of_ne same]
    exact cursors d

theorem printCharacter_inRange (ch : BitVec 8) (range : s.InRange) :
    (printCharacter c ch s).Sat (fun _ => True) Screen.InRange (fun _ => True) := by
  obtain ⟨view, views, cursors⟩ := range
  refine (printCharacter_shown views ch).mono (fun _ _ => trivial) ?_ fun _ _ => trivial
  rintro s' ⟨w, cursor, -, -, views'⟩
  have base_le := regionStart_le c
  have length_eq : regionLength = 5461 := rfl
  have moved := cursor_typed_le ch (view c)
  have before := cursors c
  exact .update views' cursors (by omega)

theorem consoleWrite_inRange (buf : List (BitVec 8)) (range : s.InRange) :
    (consoleWrite c buf s).Sat (fun _ => True) Screen.InRange (fun _ => True) := by
  induction buf generalizing s with
  | nil => exact Traced.Sat.pure range
  | cons ch buf ih => exact (printCharacter_inRange ch range).bind fun s₁ range₁ => ih range₁

/-- A ring of characters says nothing of the view. -/
theorem Screen.InRange.modify_input (range : s.InRange) (c : Fin consoleCnt)
    (input : RingBuffer (BitVec 8) consoleBufLength → RingBuffer (BitVec 8) consoleBufLength) :
    (s.modify c fun con => { con with input := input con.input }).InRange := by
  obtain ⟨view, views, cursors⟩ := range
  have viewed := views c
  have same := views.modify (c := c) (w := view c)
    (f := fun con => { con with input := input con.input })
    ⟨viewed.vgaMemStart, viewed.vgaMemEnd, viewed.vgaStartAddr, viewed.cursorPos,
      viewed.windowEnd_lt, viewed.cursor_lt⟩
  exact .update same cursors (cursors c)

theorem scrollConsole_inRange (range : s.InRange) (c : Fin consoleCnt) (direction : Direction) :
    (scrollConsole c direction.sign s).InRange := by
  obtain ⟨view, views, cursors⟩ := range
  have scrolled := scrollConsole_sign_views views c direction
  cases direction with
  | up =>
    refine .update scrolled cursors ?_
    unfold Viewport.scrollUp
    split_ifs <;> exact cursors c
  | down =>
    refine .update scrolled cursors ?_
    unfold Viewport.scrollDown
    split_ifs <;> exact cursors c

theorem changeCurrentConsole_inRange (range : s.InRange) (i : BitVec 8) :
    (changeCurrentConsole i s).InRange := by
  obtain ⟨view, views, cursors⟩ := range
  exact ⟨view, changeCurrentConsole_views views i, cursors⟩

theorem storeKeyIntoConsole_inRange (range : s.InRange) (c : Fin consoleCnt) (key : Key) :
    (storeKeyIntoConsole c key s).InRange := by
  have stored : ∀ key, (storeKey c key s).2.InRange := fun key =>
    range.modify_input c fun input => input.put (key.setWidth 8)
  unfold storeKeyIntoConsole
  dsimp only
  split_ifs
  · exact stored key
  · exact stored 0x0a
  · exact stored 0x08
  · exact scrollConsole_inRange range c .up
  · exact range
  · exact scrollConsole_inRange range c .down
  · exact range
  · exact changeCurrentConsole_inRange range _
  · exact range
  · exact range

/-- **A call keeps the cursors in range.** -/
theorem DisplayOp.run_inRange (op : DisplayOp) (range : s.InRange)
    (returned : (op.run s).outcome = .ok s') : s'.InRange := by
  cases op with
  | screen op =>
    cases op with
    | print c ch => exact (printCharacter_inRange ch range).value s' returned
    | write c buf => exact (consoleWrite_inRange buf range).value s' returned
    | scroll c direction =>
      cases returned
      exact scrollConsole_inRange range c direction
    | change i =>
      cases returned
      exact changeCurrentConsole_inRange range i
  | storeKey c key =>
    cases returned
    exact storeKeyIntoConsole_inRange range c key
  | writeKey c =>
    have dropped := range.modify_input c fun input => input.drop
    have writes : (consoleWriteKey c s).Sat (fun _ => True) Screen.InRange (fun _ => True) :=
      Traced.Sat.ite (fun _ => printCharacter_inRange _ dropped) fun _ => Traced.Sat.pure range
    exact writes.value s' returned

/-! ### The run -/

theorem runDisplay_mirrors {ops : List DisplayOp} (mirrors : s.Mirrors)
    (returned : (runDisplay ops s).outcome = .ok s') : s'.Mirrors :=
  Traced.runAll_keeps (fun op _ _ _ mirrors => op.run_mirrors mirrors) mirrors returned

theorem runDisplay_inRange {ops : List DisplayOp} (range : s.InRange)
    (returned : (runDisplay ops s).outcome = .ok s') : s'.InRange :=
  Traced.runAll_keeps (fun op _ _ _ range => op.run_inRange range) range returned

/-- A run about other consoles leaves this one as it is. -/
theorem runDisplay_spares {ops : List DisplayOp} (spares : ∀ op ∈ ops, op.about ≠ some d)
    (returned : (runDisplay ops s).outcome = .ok s') : s'.console d = s.console d := by
  have keeps : ∀ op ∈ ops, ∀ s₁ s₂ : Screen, s₁.console d = s.console d →
      (op.run s₁).outcome = .ok s₂ → s₂.console d = s.console d := fun op member _ _ kept step =>
    (op.run_spares (spares op member) step).trans kept
  have kept := Traced.runAll_keeps keeps rfl returned
  exact kept

theorem inRange_startView (views : s'.Views (startView s.position))
    (inherited : (s.position / 2).toNat < 2 ^ 16) : s'.InRange := by
  refine ⟨_, views, fun c => ?_⟩
  have base_le := regionStart_le c
  unfold startView
  dsimp only
  split
  · rename_i first
    rw [regionStart, first]
    omega
  · omega

/-- Coming back to a console with the cursor and the window it had shows what was shown before. -/
theorem Screen.Mirrors.back (mirrors : s.Mirrors)
    (kept : s'.console s.currentConsole = s.console s.currentConsole) :
    (changeCurrentConsole (BitVec.ofNat 8 s.currentConsole) s').crtc = s.crtc := by
  have number : (BitVec.ofNat 8 (s.currentConsole : ℕ)).toNat = s.currentConsole := by
    rw [BitVec.toNat_ofNat]
    exact Nat.mod_eq_of_lt (s.currentConsole.isLt.trans (by decide))
  have inside : (BitVec.ofNat 8 (s.currentConsole : ℕ)).toNat < consoleCnt :=
    number.trans_lt s.currentConsole.isLt
  rw [changeCurrentConsole_valid inside, mirrors, ← kept]
  show (s'.console ⟨_, inside⟩).crtc = _
  rw [Fin.eq_of_val_eq (show (⟨_, inside⟩ : Fin consoleCnt).val = s.currentConsole.val from number)]

/-- **The display shows the current console**, in every state reached from `change_current_console(0)`
on: the registers are the low 16 bits of its cursor and of its window, and these are the numbers
themselves when the inherited cursor is one that the register can hold. Printing to or scrolling
another console writes no register; a console number out of range changes nothing; and going to
another console and coming back, with calls about other consoles in between, restores the registers. -/
theorem display_shows_current (s : Screen) :
    ∃ s₀, (initConsoles s).outcome = .ok s₀ ∧
      ∀ ops s', (runDisplay ops (changeCurrentConsole 0 s₀)).outcome = .ok s' →
        (s'.crtc.cursor = (s'.console s'.currentConsole).cursorPos.setWidth 16 ∧
          s'.crtc.start = (s'.console s'.currentConsole).vgaStartAddr.setWidth 16) ∧
        ((s.position / 2).toNat < 2 ^ 16 → s'.Displays) ∧
        (∀ op : DisplayOp, op.Outputs → op.about ≠ some s'.currentConsole →
          ∀ s'', (op.run s').outcome = .ok s'' → s''.crtc = s'.crtc) ∧
        (∀ i : BitVec 8, consoleCnt ≤ i.toNat → changeCurrentConsole i s' = s') ∧
        (∀ i between s'', (∀ op ∈ between, DisplayOp.about op ≠ some s'.currentConsole) →
          (runDisplay between (changeCurrentConsole i s')).outcome = .ok s'' →
          (changeCurrentConsole (BitVec.ofNat 8 s'.currentConsole) s'').crtc = s'.crtc) := by
  obtain ⟨s₀, start, views⟩ := initConsoles_views s
  refine ⟨s₀, congrArg Traced.outcome start, fun ops s' returned => ?_⟩
  have mirrors : s'.Mirrors := runDisplay_mirrors (s := changeCurrentConsole 0 s₀) rfl returned
  refine ⟨⟨?_, ?_⟩, fun inherited => ?_, fun op outputs elsewhere s'' => ?_, fun i outside => ?_,
    fun i between s'' spares run => ?_⟩
  · rw [mirrors, Console.crtc_cursor]
  · rw [mirrors, Console.crtc_start]
  · exact mirrors.displays (runDisplay_inRange
      (changeCurrentConsole_inRange (inRange_startView views inherited) 0) returned)
  · exact op.run_elsewhere outputs elsewhere
  · exact changeCurrentConsole_invalid (Nat.not_lt_of_le outside) s'
  · refine mirrors.back ?_
    rw [runDisplay_spares spares run, changeCurrentConsole_console]

/-- A character on the second console, which is then shown; the boot messages took sixteen lines. -/
theorem display_shows_second :
    ∃ s₀ s', (initConsoles (zeroedScreen 2560)).outcome = .ok s₀ ∧
      (runDisplay [.screen (.print 1 0x41), .screen (.change 1)]
        (changeCurrentConsole 0 s₀)).outcome = .ok s' ∧ s'.Displays := by
  obtain ⟨s₀, start, shows⟩ := display_shows_current (zeroedScreen 2560)
  obtain ⟨s₁, start₁, views⟩ := initConsoles_views (zeroedScreen 2560)
  cases start.symm.trans (congrArg Traced.outcome start₁)
  have runs := runScreen_sat [.print 1 0x41, .change 1] (changeCurrentConsole_views views 0)
    (contained_startView (by decide))
  obtain ⟨s', returned⟩ := runs.returns
  have shown := shows [.screen (.print 1 0x41), .screen (.change 1)] s' returned
  exact ⟨s₀, s', start, returned, shown.2.1 (by decide)⟩

end WalOS
