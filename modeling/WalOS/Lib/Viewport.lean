/-
**A window of whole lines that follows a cursor.**

A buffer of `length` cells is shown through a window of `shown` cells that starts at a line of `width`
cells. The length need not be a whole number of lines.

* `newline`, `back`, `forward` — the moves of the cursor; `Contained.newline`, `Contained.back`,
  `Contained.forward`: none takes it out of the buffer.
* `scrollUp`, `scrollDown` — a line at a time; `scrollDown` looks at the end of the window before it
  adds the line, so it may go past the end of the buffer (`framed_scrollDown`).
* `follow` — scroll down until the cursor is shown: the fewest lines (`shows_iff`), and in a contained
  view `scrollDown` never refuses to make them (`Contained.scrolls`). It never scrolls up:
  `shown_follow_iff`.
-/

import Mathlib.Data.Nat.Basic
import Mathlib.Order.Basic
import Mathlib.Order.Lattice

/-- The sizes, in cells. -/
structure Geometry where
  width : ℕ
  shown : ℕ
  length : ℕ
  width_pos : 0 < width
  shown_le : shown ≤ length

/-- The cursor, and the line the window starts at. -/
@[ext]
structure Viewport where
  cursor : ℕ
  line : ℕ

namespace Viewport

variable (g : Geometry)

/-- The cell after the window. -/
def windowEnd (v : Viewport) : ℕ := g.width * v.line + g.shown

/-! ### Moves -/

def newline (v : Viewport) : Viewport :=
  if v.cursor + g.width < g.length then
    { v with cursor := g.width * (v.cursor / g.width + 1) }
  else v

def back (v : Viewport) : Viewport := if 0 < v.cursor then { v with cursor := v.cursor - 1 } else v

def forward (v : Viewport) : Viewport :=
  if v.cursor + 1 < g.length then { v with cursor := v.cursor + 1 } else v

def scrollUp (v : Viewport) : Viewport := if 0 < v.line then { v with line := v.line - 1 } else v

def scrollDown (v : Viewport) : Viewport :=
  if v.windowEnd g < g.length then { v with line := v.line + 1 } else v

/-- The first line whose window reaches the cursor. -/
def needed (v : Viewport) : ℕ :=
  if v.cursor < g.shown then 0 else (v.cursor - g.shown) / g.width + 1

def follow (v : Viewport) : Viewport := { v with line := max v.line (v.needed g) }

/-! ### What holds of a view -/

/-- The cursor is in the buffer, and the window passes its end by less than a line. -/
structure Contained (v : Viewport) : Prop where
  cursor_lt : v.cursor < g.length
  windowEnd_lt : v.windowEnd g < g.length + g.width

/-- The cursor is in the window. -/
def Shown (v : Viewport) : Prop := g.width * v.line ≤ v.cursor ∧ v.cursor < v.windowEnd g

/-- The window is in the buffer. -/
def Framed (v : Viewport) : Prop := v.windowEnd g ≤ g.length

/-- The last line whose window is in the buffer. -/
def lastLine : ℕ := (g.length - g.shown) / g.width

variable {g} {v : Viewport}

theorem framed_iff : v.Framed g ↔ v.line ≤ lastLine g := by
  have := g.shown_le
  rw [Framed, windowEnd, lastLine, Nat.le_div_iff_mul_le g.width_pos, Nat.mul_comm v.line]
  exact ⟨fun inside => by omega, fun inside => by omega⟩

/-- **The window reaches the cursor from the needed line on.** -/
theorem shows_iff (line : ℕ) : v.cursor < g.width * line + g.shown ↔ v.needed g ≤ line := by
  unfold needed
  split
  · exact ⟨fun _ => Nat.zero_le _, fun _ => by omega⟩
  · rw [Nat.add_one_le_iff, Nat.div_lt_iff_lt_mul g.width_pos, Nat.mul_comm line]
    exact ⟨fun reaches => by omega, fun reaches => by omega⟩

theorem Contained.newline (inside : v.Contained g) : (v.newline g).Contained g := by
  unfold Viewport.newline
  split
  · rename_i room
    have below : g.width * (v.cursor / g.width) ≤ v.cursor := Nat.mul_div_le v.cursor g.width
    refine ⟨?_, inside.windowEnd_lt⟩
    show g.width * (v.cursor / g.width + 1) < g.length
    rw [Nat.mul_add_one]
    exact (Nat.add_le_add_right below _).trans_lt room
  · exact inside

theorem Contained.back (inside : v.Contained g) : v.back.Contained g := by
  unfold Viewport.back
  split
  · exact ⟨(Nat.sub_le v.cursor 1).trans_lt inside.cursor_lt, inside.windowEnd_lt⟩
  · exact inside

theorem Contained.forward (inside : v.Contained g) : (v.forward g).Contained g := by
  unfold Viewport.forward
  split
  · rename_i room
    exact ⟨room, inside.windowEnd_lt⟩
  · exact inside

theorem windowEnd_mono {v w : Viewport} (lines : v.line ≤ w.line) :
    v.windowEnd g ≤ w.windowEnd g :=
  Nat.add_le_add_right (Nat.mul_le_mul_left _ lines) _

theorem windowEnd_succ (v : Viewport) :
    { v with line := v.line + 1 }.windowEnd g = v.windowEnd g + g.width := by
  unfold windowEnd
  rw [Nat.mul_add_one, Nat.add_right_comm]

theorem Contained.scrollUp (inside : v.Contained g) : v.scrollUp.Contained g := by
  unfold Viewport.scrollUp
  split
  · exact ⟨inside.cursor_lt, (windowEnd_mono (Nat.sub_le v.line 1)).trans_lt inside.windowEnd_lt⟩
  · exact inside

theorem Contained.scrollDown (inside : v.Contained g) : (v.scrollDown g).Contained g := by
  unfold Viewport.scrollDown
  split
  · rename_i room
    refine ⟨inside.cursor_lt, ?_⟩
    rw [windowEnd_succ]
    exact Nat.add_lt_add_right room _
  · exact inside

/-- **A contained cursor that is not shown is below a window that can move.** -/
theorem Contained.scrolls (inside : v.Contained g) (below : v.windowEnd g ≤ v.cursor) :
    v.scrollDown g = { v with line := v.line + 1 } :=
  if_pos (below.trans_lt inside.cursor_lt)

/-- As long as the cursor is not shown, a line more is needed. -/
theorem line_lt_needed (below : v.windowEnd g ≤ v.cursor) : v.line < v.needed g :=
  Nat.lt_of_not_le fun reached => Nat.not_lt_of_le below ((shows_iff v.line).mpr reached)

theorem follow_succ (below : v.windowEnd g ≤ v.cursor) :
    ({ v with line := v.line + 1 } : Viewport).follow g = v.follow g := by
  have missing := line_lt_needed below
  refine Viewport.ext rfl ?_
  show max (v.line + 1) (v.needed g) = max v.line (v.needed g)
  rw [max_eq_right missing, max_eq_right missing.le]

theorem follow_of_shown (shown : v.cursor < v.windowEnd g) : v.follow g = v :=
  Viewport.ext rfl (max_eq_left ((shows_iff v.line).mp shown))

theorem Contained.follow (inside : v.Contained g) : (v.follow g).Contained g := by
  refine ⟨inside.cursor_lt, ?_⟩
  rcases Nat.le_total (v.needed g) v.line with enough | more
  · show g.width * max v.line (v.needed g) + g.shown < _
    rw [max_eq_left enough]
    exact inside.windowEnd_lt
  · show g.width * max v.line (v.needed g) + g.shown < _
    have cursor_lt := inside.cursor_lt
    have shown_le := g.shown_le
    have width_pos := g.width_pos
    rw [max_eq_right more]
    cases lines : v.needed g with
    | zero =>
      rw [Nat.mul_zero]
      omega
    | succ line =>
      have unreached : ¬ v.cursor < g.width * line + g.shown := by
        rw [shows_iff, lines]
        exact Nat.not_succ_le_self line
      rw [Nat.mul_add_one]
      omega

theorem line_le_scrollDown (v : Viewport) : v.line ≤ (v.scrollDown g).line := by
  unfold scrollDown
  split
  · exact Nat.le_succ v.line
  · exact le_rfl

/-! ### When the cursor is in the window -/

/-- **Following a cursor shows it exactly when the window did not start after it.** -/
theorem shown_follow_iff (wide : g.width ≤ g.shown) :
    (v.follow g).Shown g ↔ g.width * v.line ≤ v.cursor := by
  have reaches : v.cursor < (v.follow g).windowEnd g := (shows_iff _).mpr (le_max_right _ _)
  refine ⟨fun shown => (Nat.mul_le_mul_left _ (le_max_left _ _)).trans shown.1,
    fun above => ⟨?_, reaches⟩⟩
  show g.width * max v.line (v.needed g) ≤ v.cursor
  rcases Nat.le_total (v.needed g) v.line with enough | more
  · rw [max_eq_left enough]
    exact above
  · rw [max_eq_right more]
    unfold needed
    split
    · exact Nat.zero_le _
    · rename_i below
      have lines : g.width * ((v.cursor - g.shown) / g.width) ≤ v.cursor - g.shown :=
        Nat.mul_div_le _ _
      rw [Nat.mul_add_one]
      omega

/-! ### When the window stays in the buffer -/

theorem Framed.scrollUp (framed : v.Framed g) : v.scrollUp.Framed g := by
  unfold Viewport.scrollUp
  split
  · exact (windowEnd_mono (Nat.sub_le v.line 1)).trans framed
  · exact framed

/-- **Scrolling down keeps the window in the buffer** unless it is at the last line with room for less
than a line below it. -/
theorem framed_scrollDown (framed : v.Framed g) :
    (v.scrollDown g).Framed g ↔ (v.windowEnd g < g.length → v.windowEnd g + g.width ≤ g.length) := by
  unfold Viewport.scrollDown
  split
  · rename_i room
    rw [Framed, windowEnd_succ]
    exact ⟨fun fits _ => fits, fun fits => fits room⟩
  · rename_i full
    exact ⟨fun _ room => absurd room full, fun _ => framed⟩

/-- **Following keeps the window in the buffer** exactly when the last line's window reaches the
cursor. -/
theorem framed_follow (framed : v.Framed g) :
    (v.follow g).Framed g ↔ v.cursor < g.width * lastLine g + g.shown := by
  rw [shows_iff, framed_iff]
  show max v.line (v.needed g) ≤ lastLine g ↔ _
  rw [sup_le_iff]
  exact ⟨And.right, fun needed => ⟨framed_iff.mp framed, needed⟩⟩

end Viewport
