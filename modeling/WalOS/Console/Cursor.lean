/-
**The cursor after a character.**

`print_character` moves the cursor and then scrolls down while the cursor is below the window. It never
scrolls up: a cursor above the window stays out of sight.

* `cursor_above` — a line down and a character, and the cursor is above the window.
* `Console.ShowsPrint` — the window does not start after the cell that the character leaves the cursor
  at.
* `prints_shown_iff` — **the cursor is in the window after every character** of a run exactly when every
  character meets that condition.
-/

import WalOS.Console.Window

namespace WalOS

/-- The cursor of a console is in its window. -/
def Screen.CursorShown (c : Fin consoleCnt) (s : Screen) : Prop :=
  (s.console c).vgaStartAddr ≤ (s.console c).cursorPos ∧
    (s.console c).cursorPos < (s.console c).vgaStartAddr + textModeSize

/-- The start of the window as a cell of the region. -/
def Console.windowCell (con : Console) : ℕ := (con.vgaStartAddr - con.vgaMemStart).toNat

/-- The window starts at most a line after the cursor for a newline, before the cursor (or with the
region) for a backspace, and at most a cell after the cursor for another character. -/
def Console.ShowsPrint (con : Console) (ch : BitVec 8) : Prop :=
  if ch = 0x0a then con.windowCell ≤ con.cell + 80
  else if ch = 0x08 then con.windowCell < con.cell ∨ con.windowCell = 0
  else con.windowCell ≤ con.cell + 1

/-- After each character of the run the cursor is in the window. -/
def PrintsShown (ops : List ScreenOp) (s : Screen) : Prop :=
  ∀ n c ch, ops[n]? = some (.print c ch) →
    ∃ s', (runScreen (ops.take (n + 1)) s).outcome = .ok s' ∧ s'.CursorShown c

/-- Each character of the run meets the condition. -/
def PrintsKeep (ops : List ScreenOp) (s : Screen) : Prop :=
  ∀ n c ch, ops[n]? = some (.print c ch) →
    ∀ s', (runScreen (ops.take n) s).outcome = .ok s' → (s'.console c).ShowsPrint ch

variable {c : Fin consoleCnt} {con : Console} {v : Viewport} {s s' : Screen}
  {view : Fin consoleCnt → Viewport}

/-! ### In terms of views -/

theorem Console.Viewed.windowCell_eq (viewed : con.Viewed c v) : con.windowCell = 80 * v.line := by
  have start := viewed.vgaStartAddr
  have base := viewed.vgaMemStart
  rw [Console.windowCell, BitVec.toNat_sub_of_le (BitVec.le_def.mpr (by omega)), start, base]
  exact Nat.add_sub_cancel_left _ _

theorem Screen.Views.cursorShown_iff (views : s.Views view) :
    s.CursorShown c ↔ (view c).Shown consoleGeometry := by
  rw [Screen.CursorShown, BitVec.le_def, BitVec.lt_def, (views c).toNat_windowEnd,
    (views c).vgaStartAddr, (views c).cursorPos]
  exact ⟨fun shown => ⟨Nat.add_le_add_iff_left.mp shown.1, Nat.add_lt_add_iff_left.mp shown.2⟩,
    fun shown => ⟨Nat.add_le_add_left shown.1 _, Nat.add_lt_add_left shown.2 _⟩⟩

/-- The condition on a character, in cells: the window does not start after the cursor it leaves. -/
theorem Console.Viewed.showsPrint_iff (viewed : con.Viewed c v) (ch : BitVec 8) :
    con.ShowsPrint ch ↔ 80 * v.line ≤ (typed ch v).cursor := by
  have line_le := viewed.line_le
  unfold Console.ShowsPrint typed
  rw [viewed.windowCell_eq, viewed.cell_eq]
  split_ifs
  · show _ ↔ 80 * v.line ≤ (if v.cursor + 80 < 5461 then
      { v with cursor := 80 * (v.cursor / 80 + 1) } else v).cursor
    split_ifs
    · show _ ↔ 80 * v.line ≤ 80 * (v.cursor / 80 + 1)
      omega
    · omega
  · unfold Viewport.back
    split_ifs
    · show _ ↔ 80 * v.line ≤ v.cursor - 1
      omega
    · omega
  · show _ ↔ 80 * v.line ≤ (if v.cursor + 1 < 5461 then { v with cursor := v.cursor + 1 } else v).cursor
    split_ifs
    · exact Iff.rfl
    · omega

/-! ### A character -/

theorem shown_printed_iff (ch : BitVec 8) :
    (printed ch v).Shown consoleGeometry ↔ 80 * v.line ≤ (typed ch v).cursor := by
  rw [printed, Viewport.shown_follow_iff (by decide), typed_line]
  exact Iff.rfl

/-- **A character leaves the cursor in the window exactly when its condition holds.** -/
theorem print_shown_iff (views : s.Views view) (contained : AllContained view) (ch : BitVec 8) :
    (s.console c).ShowsPrint ch ↔
      ∃ s', (printCharacter c ch s).outcome = .ok s' ∧ s'.CursorShown c := by
  have prints := printCharacter_sat views (contained_typed (contained c) ch)
  have after : ∀ s', (printCharacter c ch s).outcome = .ok s' →
      (s'.CursorShown c ↔ (s.console c).ShowsPrint ch) := by
    intro s' returned
    rw [(prints.value s' returned).cursorShown_iff, Function.update_self, shown_printed_iff,
      (views c).showsPrint_iff]
  constructor
  · intro shows
    obtain ⟨s', returned⟩ := prints.returns
    exact ⟨s', returned, (after s' returned).mpr shows⟩
  · rintro ⟨s', returned, shown⟩
    exact (after s' returned).mp shown

/-! ### The run -/

theorem runScreen_eq (ops : List ScreenOp) (s : Screen) :
    runScreen ops s = Traced.runAll ScreenOp.run ops s := by
  induction ops generalizing s with
  | nil => rfl
  | cons op ops ih => exact congrArg (op.run s >>= ·) (funext ih)

/-- The state after a character is what it makes of the state before. -/
theorem runScreen_take_succ {ops : List ScreenOp} {n : ℕ} {ch : BitVec 8}
    (here : ops[n]? = some (.print c ch)) (returned : (runScreen (ops.take n) s).outcome = .ok s') :
    (runScreen (ops.take (n + 1)) s).outcome = (printCharacter c ch s').outcome := by
  rw [runScreen_eq] at returned ⊢
  exact Traced.runAll_take_succ here returned

/-- **The cursor is in the window after every character exactly when every character meets its
condition**, for every run after `init_consoles` with the inherited cursor in the first console's
region. -/
theorem prints_shown_iff (s : Screen) (inherited : (s.position / 2).toNat < regionLength)
    (ops : List ScreenOp) :
    ∃ s₀, (initConsoles s).outcome = .ok s₀ ∧ (PrintsShown ops s₀ ↔ PrintsKeep ops s₀) := by
  obtain ⟨s₀, start, views⟩ := initConsoles_views s
  refine ⟨s₀, congrArg Traced.outcome start, ?_⟩
  refine forall_congr' fun n => forall_congr' fun c => forall_congr' fun ch =>
    forall_congr' fun here => ?_
  have runs := runScreen_sat (ops.take n) views (contained_startView inherited)
  obtain ⟨s', returned⟩ := runs.returns
  obtain ⟨views', contained⟩ := runs.value s' returned
  rw [runScreen_take_succ here returned, ← print_shown_iff views' contained ch]
  refine ⟨fun shows s'' same => ?_, fun shows => shows s' returned⟩
  cases returned.symm.trans same
  exact shows

/-- The second console: its prompt ends at cell 3, a line down, and an `a`. The window starts at cell 80
and the cursor is at cell 4. -/
theorem cursor_above :
    ∃ s₀ s', (initConsoles (zeroedScreen 640)).outcome = .ok s₀ ∧
      (runScreen [.scroll 1 .down, .print 1 0x61] s₀).outcome = .ok s' ∧
      (s'.console 1).windowCell = 80 ∧ (s'.console 1).cell = 4 ∧
      ¬ PrintsShown [.scroll 1 .down, .print 1 0x61] s₀ := by
  obtain ⟨s₀, start, views⟩ := initConsoles_views (zeroedScreen 640)
  have runs := runScreen_sat [ScreenOp.scroll 1 .down, .print 1 0x61] views
    (contained_startView (by decide))
  obtain ⟨s', returned⟩ := runs.returns
  obtain ⟨views', -⟩ := runs.value s' returned
  have view : runView [.scroll 1 .down, .print 1 0x61] (startView 640) 1 = ⟨4, 1⟩ :=
    Viewport.ext (by decide +kernel) (by decide +kernel)
  have viewed : (s'.console 1).Viewed 1 ⟨4, 1⟩ := view ▸ views' 1
  refine ⟨s₀, s', congrArg Traced.outcome start, returned, viewed.windowCell_eq, viewed.cell_eq,
    fun shown => ?_⟩
  obtain ⟨s'', same, here⟩ := shown 1 1 0x61 rfl
  cases returned.symm.trans same
  have above := BitVec.le_def.mp here.1
  rw [viewed.vgaStartAddr, viewed.cursorPos] at above
  exact absurd above (by decide)

/-- The second console, without the line down. -/
theorem prints_shown_second :
    ∃ s₀, (initConsoles (zeroedScreen 640)).outcome = .ok s₀ ∧
      (PrintsShown [.print 1 0x61] s₀ ↔ PrintsKeep [.print 1 0x61] s₀) :=
  prints_shown_iff (zeroedScreen 640) (by decide) [.print 1 0x61]

end WalOS
