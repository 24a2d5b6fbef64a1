/-
**When the window of a console stays in its own memory.**

The windows of a region that start at a line and end in it reach its first 5440 cells; there are 5461.
`scroll_console` looks at the end of the window before it adds a line, so one line more is possible.

* `window_leaves` — 44 lines down, and the window of the second console shows cells of the third.
* `ScreenOp.Keeps` — the calls that keep the window in: a line down except from the last line, and a
  character that does not move the cursor past the first 5440 cells.
* `windows_stay_iff` — **the windows stay in** through a run exactly when every call keeps them in.
-/

import WalOS.Console.Isolation

namespace WalOS

/-- The window of every console is in its region. -/
def Screen.Framed (s : Screen) : Prop :=
  ∀ c, (s.console c).vgaMemStart ≤ (s.console c).vgaStartAddr ∧
    (s.console c).vgaStartAddr + textModeSize ≤ (s.console c).vgaMemEnd

/-! ### The condition -/

/-- The cells that the windows inside a region reach. -/
def reachedLength : ℕ := 80 * 43 + 2000

/-- The cursor of a console as a cell of its region. -/
def Console.cell (con : Console) : ℕ := (con.cursorPos - con.vgaMemStart).toNat

/-- A character that does not take the cursor past the cells reached: a newline above the last line of
them or in the last cells of the region (where it does nothing), a backspace up to the cell after
them, another character before the last of them. -/
def Console.KeepsPrint (con : Console) (ch : BitVec 8) : Prop :=
  if ch = 0x0a then
    con.cell < reachedLength - 80 ∨ regionLength - 80 ≤ con.cell ∧ con.cell < reachedLength
  else if ch = 0x08 then con.cell ≤ reachedLength
  else con.cell < reachedLength - 1

def keepsWrite (c : Fin consoleCnt) : List (BitVec 8) → Screen → Prop
  | [], _ => True
  | ch :: buf, s => (s.console c).KeepsPrint ch ∧
      ∀ s', (printCharacter c ch s).outcome = .ok s' → keepsWrite c buf s'

/-- The call keeps the windows in their regions. -/
def ScreenOp.Keeps : ScreenOp → Screen → Prop
  | .print c ch, s => (s.console c).KeepsPrint ch
  | .write c buf, s => keepsWrite c buf s
  | .scroll c direction, s => direction = .down →
      (s.console c).vgaStartAddr - (s.console c).vgaMemStart ≠ 43 * textModeWidth
  | .change _, _ => True

/-- Every call of the run does. -/
def runKeeps : List ScreenOp → Screen → Prop
  | [], _ => True
  | op :: ops, s => op.Keeps s ∧ ∀ s', (op.run s).outcome = .ok s' → runKeeps ops s'

/-! ### In terms of views -/

variable {c : Fin consoleCnt} {con : Console} {v : Viewport} {s s' : Screen}
  {view : Fin consoleCnt → Viewport}

def AllFramed (view : Fin consoleCnt → Viewport) : Prop := ∀ c, (view c).Framed consoleGeometry

theorem AllFramed.update_iff (framed : AllFramed view) :
    AllFramed (Function.update view c v) ↔ v.Framed consoleGeometry := by
  constructor
  · intro all
    have here := all c
    rw [Function.update_self] at here
    exact here
  · intro here d
    by_cases same : d = c
    · rw [same, Function.update_self]
      exact here
    · rw [Function.update_of_ne same]
      exact framed d

theorem Screen.Views.framed_iff (views : s.Views view) : s.Framed ↔ AllFramed view := by
  refine forall_congr' fun c => ?_
  have base := (views c).vgaMemStart
  have start := (views c).vgaStartAddr
  rw [BitVec.le_def, BitVec.le_def, (views c).toNat_windowEnd, (views c).vgaMemEnd, base, start]
  exact ⟨fun inside => Nat.add_le_add_iff_left.mp inside.2,
    fun inside => ⟨Nat.le_add_right _ _, Nat.add_le_add_left inside _⟩⟩

theorem reachedLength_eq :
    consoleGeometry.width * Viewport.lastLine consoleGeometry + consoleGeometry.shown =
      reachedLength := by
  decide

theorem Console.Viewed.cell_eq (viewed : con.Viewed c v) : con.cell = v.cursor := by
  have place := viewed.cursorPos
  have base := viewed.vgaMemStart
  rw [Console.cell, BitVec.toNat_sub_of_le (BitVec.le_def.mpr (by omega)), place, base]
  exact Nat.add_sub_cancel_left _ _

/-- The condition on a character, in cells: the cursor it leaves is in the cells reached. -/
theorem Console.Viewed.keepsPrint_iff (viewed : con.Viewed c v) (ch : BitVec 8) :
    con.KeepsPrint ch ↔ (typed ch v).cursor < reachedLength := by
  have reached : reachedLength = 5440 := rfl
  have length_eq : regionLength = 5461 := rfl
  unfold Console.KeepsPrint typed
  rw [viewed.cell_eq, reached, length_eq]
  split_ifs with newline backspace
  · show _ ↔ (if v.cursor + 80 < 5461 then { v with cursor := 80 * (v.cursor / 80 + 1) }
      else v).cursor < 5440
    split_ifs with room
    · show _ ↔ 80 * (v.cursor / 80 + 1) < 5440
      omega
    · omega
  · unfold Viewport.back
    split_ifs with later
    · show _ ↔ v.cursor - 1 < 5440
      omega
    · omega
  · show _ ↔ (if v.cursor + 1 < 5461 then { v with cursor := v.cursor + 1 } else v).cursor < 5440
    split_ifs with room
    · show _ ↔ v.cursor + 1 < 5440
      omega
    · omega

theorem Console.Viewed.lastLine_iff (viewed : con.Viewed c v) :
    con.vgaStartAddr - con.vgaMemStart = 43 * textModeWidth ↔ v.line = 43 := by
  have base := viewed.vgaMemStart
  have start := viewed.vgaStartAddr
  have last : (43 * textModeWidth).toNat = 3440 := by decide
  rw [← BitVec.toNat_inj, BitVec.toNat_sub_of_le (BitVec.le_def.mpr (by omega)), last, base, start]
  omega

/-! ### A call -/

/-- **A character keeps the windows in exactly when it keeps the cursor in the cells reached.** -/
theorem print_framed_iff (views : s.Views view) (framed : AllFramed view) (ch : BitVec 8) :
    (s.console c).KeepsPrint ch ↔
      ∃ s', (printCharacter c ch s).outcome = .ok s' ∧ s'.Framed := by
  rw [(views c).keepsPrint_iff, ← reachedLength_eq]
  constructor
  · intro reached
    have inside : (typed ch (view c)).Contained consoleGeometry := by
      have shorter : reachedLength < regionLength := by decide
      refine ⟨(reachedLength_eq ▸ reached).trans shorter, ?_⟩
      show (typed ch (view c)).windowEnd consoleGeometry < _
      rw [Viewport.windowEnd, typed_line]
      exact (views c).windowEnd_lt
    have prints := printCharacter_sat views inside
    obtain ⟨s', returned⟩ := prints.returns
    refine ⟨s', returned, (prints.value s' returned).framed_iff.mpr ?_⟩
    have within : (typed ch (view c)).Framed consoleGeometry := by
      rw [Viewport.framed_iff, typed_line]
      exact Viewport.framed_iff.mp (framed c)
    exact framed.update_iff.mpr ((Viewport.framed_follow within).mpr reached)
  · rintro ⟨s', returned, framed'⟩
    obtain ⟨w, cursor, shown, -, views'⟩ := (printCharacter_shown views ch).value s' returned
    have within := framed.update_iff.mp (views'.framed_iff.mp framed')
    rw [← cursor]
    refine shown.trans_le (Nat.add_le_add_right (Nat.mul_le_mul_left _ ?_) _)
    exact Viewport.framed_iff.mp within

/-- What is known after any call of `print_character` that returns. -/
theorem printCharacter_views (views : s.Views view) {ch : BitVec 8}
    (returned : (printCharacter c ch s).outcome = .ok s') :
    ∃ view', s'.Views view' ∧ ∀ d, (view d).line ≤ (view' d).line := by
  obtain ⟨w, -, -, later, views'⟩ := (printCharacter_shown views ch).value s' returned
  refine ⟨_, views', fun d => ?_⟩
  by_cases same : d = c
  · rw [same, Function.update_self]
    exact later
  · rw [Function.update_of_ne same]

/-- `console_write` moves no window up. -/
theorem consoleWrite_views (buf : List (BitVec 8)) (views : s.Views view)
    (returned : (consoleWrite c buf s).outcome = .ok s') :
    ∃ view', s'.Views view' ∧ ∀ d, (view d).line ≤ (view' d).line := by
  induction buf generalizing s view with
  | nil =>
    cases returned
    exact ⟨view, views, fun d => le_rfl⟩
  | cons ch buf ih =>
    obtain ⟨s₁, prints, writes⟩ := Traced.bind_eq_ok.mp returned
    obtain ⟨view₁, views₁, first⟩ := printCharacter_views views prints
    obtain ⟨view', views', rest⟩ := ih views₁ writes
    exact ⟨view', views', fun d => (first d).trans (rest d)⟩

theorem AllFramed.mono {view' : Fin consoleCnt → Viewport} (framed : AllFramed view')
    (lines : ∀ d, (view d).line ≤ (view' d).line) : AllFramed view := fun d =>
  Viewport.framed_iff.mpr ((lines d).trans (Viewport.framed_iff.mp (framed d)))

theorem write_framed_iff (buf : List (BitVec 8)) (views : s.Views view) (framed : AllFramed view) :
    keepsWrite c buf s ↔ ∃ s', (consoleWrite c buf s).outcome = .ok s' ∧ s'.Framed := by
  induction buf generalizing s view with
  | nil => exact ⟨fun _ => ⟨s, rfl, views.framed_iff.mpr framed⟩, fun _ => trivial⟩
  | cons ch buf ih =>
    constructor
    · rintro ⟨first, rest⟩
      obtain ⟨s₁, prints, framed₁⟩ := (print_framed_iff views framed ch).mp first
      obtain ⟨view₁, views₁, -⟩ := printCharacter_views views prints
      obtain ⟨s', writes, framed'⟩ :=
        (ih views₁ (views₁.framed_iff.mp framed₁)).mp (rest s₁ prints)
      exact ⟨s', Traced.bind_eq_ok.mpr ⟨s₁, prints, writes⟩, framed'⟩
    · rintro ⟨s', returned, framed'⟩
      obtain ⟨s₁, prints, writes⟩ := Traced.bind_eq_ok.mp returned
      obtain ⟨view₁, views₁, -⟩ := printCharacter_views views prints
      obtain ⟨view', views', lines⟩ := consoleWrite_views buf views₁ writes
      have framed₁ := (views'.framed_iff.mp framed').mono lines
      refine ⟨(print_framed_iff views framed ch).mpr ⟨s₁, prints, views₁.framed_iff.mpr framed₁⟩,
        fun s₂ prints₂ => ?_⟩
      cases prints.symm.trans prints₂
      exact (ih views₁ framed₁).mpr ⟨s', writes, framed'⟩

/-- A line down keeps the window in exactly when it is not at the last line. -/
theorem scrollDown_framed_iff (framed : v.Framed consoleGeometry) :
    (v.scrollDown consoleGeometry).Framed consoleGeometry ↔ v.line ≠ 43 := by
  have within : v.line ≤ 43 := Viewport.framed_iff.mp framed
  rw [Viewport.framed_scrollDown framed]
  show (80 * v.line + 2000 < 5461 → 80 * v.line + 2000 + 80 ≤ 5461) ↔ _
  omega

theorem scroll_framed_iff (views : s.Views view) (framed : AllFramed view)
    (direction : Direction) : (ScreenOp.scroll c direction).Keeps s ↔
      (scrollConsole c direction.sign s).Framed := by
  rw [(scrollConsole_sign_views views c direction).framed_iff]
  cases direction with
  | up =>
    exact ⟨fun _ => framed.update_iff.mpr (framed c).scrollUp, fun _ down => by cases down⟩
  | down =>
    show _ ↔ AllFramed (Function.update view c _)
    rw [framed.update_iff, scrollDown_framed_iff (framed c), ne_eq, ← (views c).lastLine_iff]
    exact ⟨fun keeps => keeps rfl, fun keeps _ => keeps⟩

/-- **A call keeps the windows in exactly when its condition holds.** -/
theorem ScreenOp.framed_iff (op : ScreenOp) (views : s.Views view) (framed : AllFramed view) :
    op.Keeps s ↔ ∃ s', (op.run s).outcome = .ok s' ∧ s'.Framed := by
  cases op with
  | print c ch => exact print_framed_iff views framed ch
  | write c buf => exact write_framed_iff buf views framed
  | scroll c direction =>
    rw [scroll_framed_iff views framed]
    exact ⟨fun inside => ⟨_, rfl, inside⟩, fun ⟨_, same, inside⟩ => by cases same; exact inside⟩
  | change i =>
    exact ⟨fun _ => ⟨_, rfl, (changeCurrentConsole_views views i).framed_iff.mpr framed⟩,
      fun _ => trivial⟩

theorem ScreenOp.run_views (op : ScreenOp) (views : s.Views view)
    (returned : (op.run s).outcome = .ok s') : ∃ view', s'.Views view' := by
  cases op with
  | print c ch =>
    obtain ⟨view', views', -⟩ := printCharacter_views views returned
    exact ⟨view', views'⟩
  | write c buf =>
    obtain ⟨view', views', -⟩ := consoleWrite_views buf views returned
    exact ⟨view', views'⟩
  | scroll c direction =>
    cases returned
    exact ⟨_, scrollConsole_sign_views views c direction⟩
  | change i =>
    cases returned
    exact ⟨view, changeCurrentConsole_views views i⟩

/-! ### The run -/

/-- The windows are in after every number of calls of the run. -/
def StaysFramed (ops : List ScreenOp) (s : Screen) : Prop :=
  ∀ n, ∃ s', (runScreen (ops.take n) s).outcome = .ok s' ∧ s'.Framed

theorem runKeeps_iff (ops : List ScreenOp) (views : s.Views view) (framed : AllFramed view) :
    runKeeps ops s ↔ StaysFramed ops s := by
  induction ops generalizing s view with
  | nil =>
    exact ⟨fun _ n => ⟨s, by rw [List.take_nil]; rfl, views.framed_iff.mpr framed⟩, fun _ => trivial⟩
  | cons op ops ih =>
    constructor
    · rintro ⟨first, rest⟩ n
      cases n with
      | zero => exact ⟨s, rfl, views.framed_iff.mpr framed⟩
      | succ n =>
        obtain ⟨s₁, calls, framed₁⟩ := (op.framed_iff views framed).mp first
        obtain ⟨view₁, views₁⟩ := op.run_views views calls
        obtain ⟨s', runs, framed'⟩ :=
          (ih views₁ (views₁.framed_iff.mp framed₁)).mp (rest s₁ calls) n
        exact ⟨s', Traced.bind_eq_ok.mpr ⟨s₁, calls, runs⟩, framed'⟩
    · intro stays
      obtain ⟨s₁, returned, framed₁⟩ := stays 1
      obtain ⟨s₁', calls, same⟩ := Traced.bind_eq_ok.mp returned
      cases same
      refine ⟨(op.framed_iff views framed).mpr ⟨s₁, calls, framed₁⟩, fun s₂ calls₂ => ?_⟩
      cases calls.symm.trans calls₂
      obtain ⟨view₁, views₁⟩ := op.run_views views calls
      refine (ih views₁ (views₁.framed_iff.mp framed₁)).mpr fun n => ?_
      obtain ⟨s', returned', framed'⟩ := stays (n + 1)
      obtain ⟨s₂, calls₂, runs⟩ := Traced.bind_eq_ok.mp returned'
      cases calls.symm.trans calls₂
      exact ⟨s', runs, framed'⟩

theorem allFramed_startView (position : BitVec 32) : AllFramed (startView position) := by
  intro c
  show 80 * 0 + 2000 ≤ regionLength
  decide

/-- **The windows stay in exactly when every call keeps them in**, for every run after
`init_consoles`. -/
theorem windows_stay_iff (s : Screen) (ops : List ScreenOp) :
    ∃ s₀, (initConsoles s).outcome = .ok s₀ ∧ (StaysFramed ops s₀ ↔ runKeeps ops s₀) := by
  obtain ⟨s₀, start, views⟩ := initConsoles_views s
  exact ⟨s₀, congrArg Traced.outcome start,
    (runKeeps_iff ops views (allFramed_startView s.position)).symm⟩

/-- 44 lines down: the window of the second console ends 59 cells into the third's region. -/
theorem window_leaves :
    ∃ s₀ s', (initConsoles (zeroedScreen 640)).outcome = .ok s₀ ∧
      (runScreen (List.replicate 44 (.scroll 1 .down)) s₀).outcome = .ok s' ∧
      (s'.console 1).vgaStartAddr + textModeSize = (s'.console 2).vgaMemStart + 59 ∧
      ¬ s'.Framed := by
  obtain ⟨s₀, start, views⟩ := initConsoles_views (zeroedScreen 640)
  have runs := runScreen_sat (List.replicate 44 (ScreenOp.scroll 1 .down)) views
    (contained_startView (by decide))
  obtain ⟨s', returned⟩ := runs.returns
  obtain ⟨views', -⟩ := runs.value s' returned
  let down := List.replicate 44 (ScreenOp.scroll 1 .down)
  have past : (runView down (startView 640) 1).windowEnd consoleGeometry = 5520 := by
    decide +kernel
  have ends := (views' 1).toNat_windowEnd.trans (congrArg (regionStart 1 + ·) past)
  refine ⟨s₀, s', congrArg Traced.outcome start, returned, ?_, fun framed => ?_⟩
  · refine BitVec.eq_of_toNat_eq ?_
    rw [ends, BitVec.toNat_add, (views' 2).vgaMemStart]
    decide
  · have within := BitVec.le_def.mp (framed 1).2
    rw [ends, (views' 1).vgaMemEnd] at within
    exact absurd within (by decide)

end WalOS
