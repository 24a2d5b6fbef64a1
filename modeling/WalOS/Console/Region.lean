/-
**A console as a window over its region of the VGA memory.**

Region `c` has the 5461 cells from `5461 * c` on. `Viewed` relates a console to the cursor and the
line its window starts at, as numbers within the region; `Screen.Views` does so for every console.

* `Console.Viewed.scroll`, `scrollConsole_views` — `scroll_console` is `scrollUp` or `scrollDown`.
* `printSwitch_sat` — the `switch` of `print_character` is a move of the cursor, and the cell it
  writes is a cell of the region.
* `scrollLoop_sat`, `printCharacter_sat` — with the cursor in the region the loop ends, having made the
  window follow it.
* `printCharacter_shown` — wherever the cursor is, a call that returns has the window reach it.
-/

import WalOS.Console.Screen
import WalOS.Lib.Viewport
import Mathlib.Logic.Function.Basic

namespace WalOS

/-! ### Regions -/

/-- The cells of a region, and those before the region of a console. -/
def regionLength : ℕ := 5461

def regionStart (c : Fin consoleCnt) : ℕ := regionLength * c

/-- The window of a console over its region. -/
def consoleGeometry : Geometry where
  width := 80
  shown := 2000
  length := regionLength
  width_pos := by decide
  shown_le := by decide

/-- **The console shows a window and a cursor of its region.** The cursor may be past the region: the
first console inherits it. -/
structure Console.Viewed (c : Fin consoleCnt) (con : Console) (v : Viewport) : Prop where
  vgaMemStart : con.vgaMemStart.toNat = regionStart c
  vgaMemEnd : con.vgaMemEnd.toNat = regionStart c + regionLength
  vgaStartAddr : con.vgaStartAddr.toNat = regionStart c + 80 * v.line
  cursorPos : con.cursorPos.toNat = regionStart c + v.cursor
  windowEnd_lt : v.windowEnd consoleGeometry < regionLength + 80
  cursor_lt : v.cursor < 2 ^ 31

/-- Every console shows its view. -/
def Screen.Views (s : Screen) (view : Fin consoleCnt → Viewport) : Prop :=
  ∀ c, (s.console c).Viewed c (view c)

/-- The address of a cell of a console's own region. -/
def Screen.OwnCell (s : Screen) (c : Fin consoleCnt) (addr : Addr) : Prop :=
  ∃ pos, (s.console c).vgaMemStart ≤ pos ∧ pos < (s.console c).vgaMemEnd ∧
    addr = vgaMemBase + pos * 2

theorem regionStart_le (c : Fin consoleCnt) : regionStart c ≤ 10922 :=
  Nat.mul_le_mul_left regionLength (Nat.le_of_lt_succ c.isLt)

variable {c : Fin consoleCnt} {con : Console} {v : Viewport} {s : Screen}
  {view : Fin consoleCnt → Viewport}

theorem Console.Viewed.line_le (viewed : con.Viewed c v) : v.line ≤ 44 := by
  have windowEnd_lt : 80 * v.line + 2000 < 5461 + 80 := viewed.windowEnd_lt
  omega

/-- A console that shows another view in place of one. -/
theorem Screen.Views.modify (views : s.Views view) {f : Console → Console} {w : Viewport}
    (viewed : (f (s.console c)).Viewed c w) :
    (s.modify c f).Views (Function.update view c w) := by
  intro d
  by_cases same : d = c
  · subst same
    show (Function.update s.console d _ d).Viewed d (Function.update view d w d)
    rw [Function.update_self, Function.update_self]
    exact viewed
  · show (Function.update s.console c _ d).Viewed d (Function.update view c w d)
    rw [Function.update_of_ne same, Function.update_of_ne same]
    exact views d

theorem Screen.Views.same (views : s.Views view) : s.Views (Function.update view c (view c)) := by
  rw [Function.update_eq_self]
  exact views

/-- The registers of the CRT controller show nothing of the consoles. -/
theorem showConsole_views (views : s.Views view) : (showConsole c s).Views view := by
  unfold showConsole
  split <;> exact views

/-! ### Scrolling -/

theorem toNat_add_line {w : BitVec 32} (small : w.toNat < 2 ^ 31) :
    (w - BitVec.ofInt 32 (-1) * textModeWidth).toNat = w.toNat + 80 := by
  have line : BitVec.ofInt 32 (-1) * textModeWidth = -80#32 := by decide
  have step : (80#32).toNat = 80 := by decide
  rw [line, BitVec.sub_neg, BitVec.toNat_add, step]
  exact Nat.mod_eq_of_lt (by omega)

theorem toNat_sub_line {w : BitVec 32} (large : 80 ≤ w.toNat) :
    (w - BitVec.ofInt 32 1 * textModeWidth).toNat = w.toNat - 80 := by
  have line : BitVec.ofInt 32 1 * textModeWidth = 80#32 := by decide
  rw [line]
  exact BitVec.toNat_sub_of_le (BitVec.le_def.mpr large)

/-- The cell after the window of a console. -/
theorem Console.Viewed.toNat_windowEnd (viewed : con.Viewed c v) :
    (con.vgaStartAddr + textModeSize).toNat = regionStart c + v.windowEnd consoleGeometry := by
  have start := viewed.vgaStartAddr
  have line_le := viewed.line_le
  have base := regionStart_le c
  have size : textModeSize.toNat = 2000 := by decide
  rw [BitVec.toNat_add, size, start, Nat.mod_eq_of_lt (by omega), Nat.add_assoc]
  rfl

theorem Console.Viewed.scrollUp (viewed : con.Viewed c v) : (con.scroll 1).Viewed c v.scrollUp := by
  have base := viewed.vgaMemStart
  have start := viewed.vgaStartAddr
  have moves : con.vgaStartAddr > con.vgaMemStart ↔ 0 < v.line := by
    rw [gt_iff_lt, BitVec.lt_def]
    omega
  rw [Console.scroll, if_pos (by decide)]
  unfold Viewport.scrollUp
  by_cases later : 0 < v.line
  · rw [if_pos (moves.mpr later), if_pos later]
    refine ⟨base, viewed.vgaMemEnd, ?_, viewed.cursorPos, ?_, viewed.cursor_lt⟩
    · rw [toNat_sub_line (by omega)]
      show _ = regionStart c + 80 * (v.line - 1)
      omega
    · exact (Viewport.windowEnd_mono (Nat.sub_le v.line 1)).trans_lt viewed.windowEnd_lt
  · rw [if_neg fun moving => later (moves.mp moving), if_neg later]
    exact viewed

theorem Console.Viewed.scrollDown (viewed : con.Viewed c v) :
    (con.scroll (-1)).Viewed c (v.scrollDown consoleGeometry) := by
  have moves : con.vgaStartAddr + textModeSize < con.vgaMemEnd ↔
      v.windowEnd consoleGeometry < consoleGeometry.length := by
    rw [BitVec.lt_def, viewed.toNat_windowEnd, viewed.vgaMemEnd]
    exact Nat.add_lt_add_iff_left
  rw [Console.scroll, if_neg (by decide), if_pos (by decide)]
  unfold Viewport.scrollDown
  by_cases room : v.windowEnd consoleGeometry < consoleGeometry.length
  · rw [if_pos (moves.mpr room), if_pos room]
    refine ⟨viewed.vgaMemStart, viewed.vgaMemEnd, ?_, viewed.cursorPos, ?_, viewed.cursor_lt⟩
    · have start := viewed.vgaStartAddr
      have line_le := viewed.line_le
      have base := regionStart_le c
      rw [toNat_add_line (by omega)]
      show _ = regionStart c + 80 * (v.line + 1)
      omega
    · rw [Viewport.windowEnd_succ]
      exact Nat.add_lt_add_right room _
  · rw [if_neg fun moving => room (moves.mp moving), if_neg room]
    exact viewed

theorem scrollConsole_views {direction : Int} {w : Viewport} (views : s.Views view)
    (viewed : ((s.console c).scroll direction).Viewed c w) :
    (scrollConsole c direction s).Views (Function.update view c w) :=
  showConsole_views (views.modify viewed)

/-! ### Printing -/

/-- The move of the cursor that a character makes. -/
def typed (ch : BitVec 8) (v : Viewport) : Viewport :=
  if ch = 0x0a then v.newline consoleGeometry
  else if ch = 0x08 then v.back
  else v.forward consoleGeometry

theorem contained_typed (inside : v.Contained consoleGeometry) (ch : BitVec 8) :
    (typed ch v).Contained consoleGeometry := by
  unfold typed
  split
  · exact inside.newline
  · split
    · exact inside.back
    · exact inside.forward

/-- A console whose cursor moves within the words. -/
theorem Console.Viewed.move (viewed : con.Viewed c v) {pos : BitVec 32} {n : ℕ}
    (place : pos.toNat = regionStart c + n) (small : n < 2 ^ 31) :
    { con with cursorPos := pos }.Viewed c { v with cursor := n } :=
  ⟨viewed.vgaMemStart, viewed.vgaMemEnd, viewed.vgaStartAddr, place, viewed.windowEnd_lt, small⟩

theorem Console.Viewed.newline (viewed : con.Viewed c v)
    (room : v.cursor + 80 < regionLength) :
    { con with cursorPos := con.vgaMemStart + textModeWidth *
        ((con.cursorPos - con.vgaMemStart) / textModeWidth + 1) }.Viewed c
      { v with cursor := 80 * (v.cursor / 80 + 1) } := by
  have base := viewed.vgaMemStart
  have place := viewed.cursorPos
  have base_le := regionStart_le c
  have room : v.cursor + 80 < 5461 := room
  have width : textModeWidth.toNat = 80 := by decide
  have one : (1 : BitVec 32).toNat = 1 := by decide
  have cells : (con.cursorPos - con.vgaMemStart).toNat = v.cursor := by
    rw [BitVec.toNat_sub_of_le (BitVec.le_def.mpr (by omega)), base, place]
    omega
  refine viewed.move ?_ (by omega)
  rw [BitVec.toNat_add, BitVec.toNat_mul, BitVec.toNat_add, BitVec.toNat_udiv, cells, width, one,
    base, Nat.mod_eq_of_lt (a := v.cursor / 80 + 1) (by omega), Nat.mod_eq_of_lt (a := 80 * _)
    (by omega), Nat.mod_eq_of_lt (by omega)]

/-- Writing a cell changes the VGA memory only. -/
theorem putCell_sat {acc : Addr → Prop} {post : Screen → Prop} {err : Hang → Prop} {addr : Addr}
    {cell : BitVec 16} (inside : acc addr) (after : ∀ vga, post { s with vga := vga }) :
    (putCell addr cell s).Sat acc post err :=
  Traced.Sat.touch_bind inside (Traced.Sat.pure (after _))

/-- The address of the cell before the cursor, or of the cell at the cursor. -/
theorem ownCell_of_viewed (viewed : (s.console c).Viewed c v) {pos : BitVec 32} {n : ℕ}
    (place : pos.toNat = regionStart c + n) (inside : n < regionLength) :
    s.OwnCell c (vgaMemBase + pos * 2) := by
  refine ⟨pos, ?_, ?_, rfl⟩
  · rw [BitVec.le_def, viewed.vgaMemStart, place]
    exact Nat.le_add_right _ _
  · rw [BitVec.lt_def, viewed.vgaMemEnd, place]
    exact Nat.add_lt_add_left inside _

/-! The guards of the three moves, in cells of the region. -/

theorem Console.Viewed.newline_iff (viewed : con.Viewed c v) :
    con.cursorPos < con.vgaMemEnd - textModeWidth ↔
      v.cursor + consoleGeometry.width < consoleGeometry.length := by
  have place := viewed.cursorPos
  have ends := viewed.vgaMemEnd
  have length_eq : regionLength = 5461 := rfl
  have width : textModeWidth.toNat = 80 := by decide
  rw [BitVec.lt_def, BitVec.toNat_sub_of_le (BitVec.le_def.mpr (by omega)), width]
  show _ ↔ v.cursor + 80 < regionLength
  omega

theorem Console.Viewed.back_iff (viewed : con.Viewed c v) :
    con.cursorPos > con.vgaMemStart ↔ 0 < v.cursor := by
  have place := viewed.cursorPos
  have base := viewed.vgaMemStart
  rw [gt_iff_lt, BitVec.lt_def]
  omega

theorem Console.Viewed.forward_iff (viewed : con.Viewed c v) :
    con.cursorPos < con.vgaMemEnd - 1 ↔ v.cursor + 1 < consoleGeometry.length := by
  have place := viewed.cursorPos
  have ends := viewed.vgaMemEnd
  have length_eq : regionLength = 5461 := rfl
  have one : (1 : BitVec 32).toNat = 1 := by decide
  rw [BitVec.lt_def, BitVec.toNat_sub_of_le (BitVec.le_def.mpr (by omega)), one]
  show _ ↔ v.cursor + 1 < regionLength
  omega

/-- The cell before the cursor, which a backspace blanks. -/
theorem Console.Viewed.toNat_previous (viewed : con.Viewed c v) (later : 0 < v.cursor) :
    (con.cursorPos - 1).toNat = regionStart c + (v.cursor - 1) := by
  have place := viewed.cursorPos
  have one : (1 : BitVec 32).toNat = 1 := by decide
  rw [BitVec.toNat_sub_of_le (BitVec.le_def.mpr (by omega)), one]
  omega

theorem Console.Viewed.toNat_following (viewed : con.Viewed c v) :
    (con.cursorPos + 1).toNat = regionStart c + (v.cursor + 1) := by
  have small := viewed.cursor_lt
  have base_le := regionStart_le c
  have one : (1 : BitVec 32).toNat = 1 := by decide
  rw [BitVec.toNat_add, one, viewed.cursorPos, Nat.mod_eq_of_lt (by omega), Nat.add_assoc]

theorem previous_cell (pos : BitVec 32) :
    vgaMemBase + pos * 2 - 2 = vgaMemBase + (pos - 1) * 2 := by
  bv_omega

/-- **The `switch` of `print_character` moves the cursor** and writes at most a cell of the region, when
the cursor is in it. -/
theorem printSwitch_sat (views : s.Views view) (ch : BitVec 8) :
    (printSwitch c ch s).Sat (fun addr => (view c).cursor < regionLength → s.OwnCell c addr)
      (fun s' => s'.Views (Function.update view c (typed ch (view c)))) (fun _ => False) := by
  have viewed := views c
  have small := viewed.cursor_lt
  unfold printSwitch typed
  dsimp only
  refine Traced.Sat.ite (fun newline => ?_) fun noNewline => ?_
  · rw [if_pos newline]
    refine Traced.Sat.ite (fun before => Traced.Sat.pure ?_) fun after => Traced.Sat.pure ?_
    · have room := viewed.newline_iff.mp before
      rw [Viewport.newline, if_pos room]
      exact views.modify (viewed.newline room)
    · rw [Viewport.newline, if_neg fun room => after (viewed.newline_iff.mpr room)]
      exact views.same
  rw [if_neg noNewline]
  refine Traced.Sat.ite (fun backspace => ?_) fun noBackspace => ?_
  · rw [if_pos backspace]
    refine Traced.Sat.ite (fun before => ?_) fun after => Traced.Sat.pure ?_
    · have later := viewed.back_iff.mp before
      have place := viewed.toNat_previous later
      have moved := views.modify (f := fun con => { con with cursorPos := con.cursorPos - 1 })
        (viewed.move place (by omega))
      rw [Viewport.back, if_pos later, previous_cell]
      exact putCell_sat (fun inside => ownCell_of_viewed viewed place (by omega)) fun _ => moved
    · rw [Viewport.back, if_neg fun later => after (viewed.back_iff.mpr later)]
      exact views.same
  · rw [if_neg noBackspace]
    refine Traced.Sat.ite (fun before => ?_) fun after => Traced.Sat.pure ?_
    · have room := viewed.forward_iff.mp before
      have small : (view c).cursor + 1 < 5461 := room
      rw [Viewport.forward, if_pos room]
      have moved := views.modify (f := fun con => { con with cursorPos := con.cursorPos + 1 })
        (viewed.move viewed.toNat_following (by omega))
      have written : (putCell (vgaMemBase + (s.console c).cursorPos * 2) (whiteCell ch) s).Sat
          (fun addr => (view c).cursor < regionLength → s.OwnCell c addr)
          (fun s' => (s'.modify c fun con => { con with cursorPos := con.cursorPos + 1 }).Views _)
          (fun _ => False) :=
        putCell_sat (fun inside => ownCell_of_viewed viewed viewed.cursorPos inside) fun _ => moved
      exact written.bind fun s' after => Traced.Sat.pure after
    · rw [Viewport.forward, if_neg fun room => after (viewed.forward_iff.mpr room)]
      exact views.same

/-! ### The loop -/

/-- One more line, while the cursor is below the window. -/
theorem scrollRound_below (views : s.Views view)
    (below : (view c).windowEnd consoleGeometry ≤ (view c).cursor) :
    scrollRound c s = pure (.inl (scrollConsole c (-1) s)) := by
  have viewed := views c
  rw [scrollRound, if_pos]
  rw [ge_iff_le, BitVec.le_def, viewed.toNat_windowEnd, viewed.cursorPos]
  exact Nat.add_le_add_left below _

theorem scrollRound_shown (views : s.Views view)
    (shown : (view c).cursor < (view c).windowEnd consoleGeometry) :
    scrollRound c s = pure (.inr s) := by
  have viewed := views c
  rw [scrollRound, if_neg]
  rw [ge_iff_le, BitVec.le_def, viewed.toNat_windowEnd, viewed.cursorPos]
  exact Nat.not_le_of_lt (Nat.add_lt_add_left shown _)

/-- What the loop keeps: the other consoles' views, and where this console's window is going. -/
def Scrolling (c : Fin consoleCnt) (view : Fin consoleCnt → Viewport) (goal : Viewport)
    (s : Screen) : Prop :=
  ∃ w : Viewport, w.Contained consoleGeometry ∧ w.follow consoleGeometry = goal ∧
    s.Views (Function.update view c w)

/-- The cells from the start of the window to the end of the region. -/
def cellsLeft (c : Fin consoleCnt) (s : Screen) : ℕ :=
  regionStart c + regionLength - (s.console c).vgaStartAddr.toNat

theorem cellsLeft_eq {w : Viewport} (views : s.Views (Function.update view c w)) :
    cellsLeft c s = regionLength - 80 * w.line := by
  have viewed := views c
  rw [Function.update_self] at viewed
  rw [cellsLeft, viewed.vgaStartAddr, Nat.add_sub_add_left]

/-- **The loop of `print_character` ends**, with the window moved as little as shows the cursor. -/
theorem scrollLoop_sat (views : s.Views view)
    (inside : (view c).Contained consoleGeometry) :
    (Traced.loop .forever (scrollRound c) scrollFuel s).Sat (fun _ => False)
      (fun s' => s'.Views (Function.update view c ((view c).follow consoleGeometry)))
      (fun _ => False) := by
  refine Traced.Sat.loop (Scrolling c view ((view c).follow consoleGeometry)) (cellsLeft c) ?_
    scrollFuel s ⟨view c, inside, rfl, views.same⟩ ?_
  · rintro s ⟨w, inside, goal, views⟩
    have here : (Function.update view c w) c = w := Function.update_self _ _ _
    rcases Nat.lt_or_ge w.cursor (w.windowEnd consoleGeometry) with shown | below
    · rw [scrollRound_shown views (here.symm ▸ shown)]
      refine Traced.Sat.pure ?_
      show s.Views _
      rw [← goal, Viewport.follow_of_shown shown]
      exact views
    · rw [scrollRound_below views (here.symm ▸ below)]
      have viewed : (s.console c).Viewed c w := here ▸ views c
      have after := scrollConsole_views views viewed.scrollDown
      rw [Function.update_idem, inside.scrolls below] at after
      refine Traced.Sat.pure ⟨⟨_, inside.scrolls below ▸ inside.scrollDown, ?_, after⟩, ?_⟩
      · rw [Viewport.follow_succ below, goal]
      · have below : 80 * w.line + 2000 ≤ w.cursor := below
        have cursor_lt : w.cursor < regionLength := inside.cursor_lt
        rw [cellsLeft_eq views, cellsLeft_eq after]
        show regionLength - 80 * (w.line + 1) < regionLength - 80 * w.line
        omega
  · have fuel : scrollFuel = 268435457 := rfl
    have length_eq : regionLength = 5461 := rfl
    rw [cellsLeft_eq views.same, fuel]
    omega

/-- A character printed: the cursor moves and the window follows. -/
def printed (ch : BitVec 8) (v : Viewport) : Viewport := (typed ch v).follow consoleGeometry

theorem contained_printed (inside : v.Contained consoleGeometry) (ch : BitVec 8) :
    (printed ch v).Contained consoleGeometry :=
  (contained_typed inside ch).follow

/-- **`print_character` ends, in its own region**, when the cursor it leaves is in the region. -/
theorem printCharacter_sat (views : s.Views view) {ch : BitVec 8}
    (inside : (typed ch (view c)).Contained consoleGeometry) :
    (printCharacter c ch s).Sat
      (fun addr => (view c).cursor < regionLength → s.OwnCell c addr)
      (fun s' => s'.Views (Function.update view c (printed ch (view c)))) (fun _ => False) := by
  refine (printSwitch_sat views ch).bind fun s' views' => ?_
  have here := Function.update_self c (typed ch (view c)) view
  have follows := scrollLoop_sat (c := c) views' (here.symm ▸ inside)
  rw [here, Function.update_idem] at follows
  exact (follows.mono (fun _ unused => unused.elim) (fun _ views'' => views'') fun _ stops =>
    stops).bind fun s'' views'' => Traced.Sat.pure (showConsole_views views'')

/-- What the loop leaves, wherever the cursor is. -/
def ShownAt (c : Fin consoleCnt) (view : Fin consoleCnt → Viewport) (cursor : ℕ) (s : Screen) :
    Prop :=
  ∃ w : Viewport, w.cursor = cursor ∧ w.cursor < w.windowEnd consoleGeometry ∧
    (view c).line ≤ w.line ∧ s.Views (Function.update view c w)

theorem scrollLoop_shown (views : s.Views view) :
    (Traced.loop .forever (scrollRound c) scrollFuel s).Sat (fun _ => True)
      (ShownAt c view (view c).cursor) (fun _ => True) := by
  refine Traced.Sat.loop_partial (fun s => ∃ w : Viewport, w.cursor = (view c).cursor ∧
    (view c).line ≤ w.line ∧ s.Views (Function.update view c w)) ?_ trivial scrollFuel s
    ⟨_, rfl, le_rfl, views.same⟩
  rintro s ⟨w, cursor, later, views⟩
  have here : (Function.update view c w) c = w := Function.update_self _ _ _
  rcases Nat.lt_or_ge w.cursor (w.windowEnd consoleGeometry) with shown | below
  · rw [scrollRound_shown views (here.symm ▸ shown)]
    exact Traced.Sat.pure ⟨w, cursor, shown, later, views⟩
  · rw [scrollRound_below views (here.symm ▸ below)]
    have viewed : (s.console c).Viewed c w := here ▸ views c
    have after := scrollConsole_views views viewed.scrollDown
    rw [Function.update_idem] at after
    refine Traced.Sat.pure ⟨w.scrollDown consoleGeometry, ?_, ?_, after⟩
    · rw [← cursor, Viewport.scrollDown]
      split <;> rfl
    · exact later.trans w.line_le_scrollDown

theorem typed_line (ch : BitVec 8) (v : Viewport) : (typed ch v).line = v.line := by
  unfold typed Viewport.newline Viewport.back Viewport.forward
  split_ifs <;> rfl

/-- **A call of `print_character` that returns leaves the cursor above the end of the window**, and the
window no higher. -/
theorem printCharacter_shown (views : s.Views view) (ch : BitVec 8) :
    (printCharacter c ch s).Sat (fun _ => True) (ShownAt c view (typed ch (view c)).cursor)
      (fun _ => True) := by
  refine ((printSwitch_sat views ch).mono (fun _ _ => trivial) (fun _ views' => views')
    fun _ stops => stops.elim).bind fun s' views' => ?_
  have shows := scrollLoop_shown (c := c) views'
  refine shows.bind ?_
  rintro s'' ⟨w, cursor, shown, later, views''⟩
  rw [Function.update_self] at cursor later
  rw [Function.update_idem] at views''
  rw [typed_line] at later
  exact Traced.Sat.pure ⟨w, cursor, shown, later, showConsole_views views''⟩

end WalOS
