/-
**The consoles are isolated.**

`ScreenOp` are the calls that move a cursor or a window; `runScreen` makes any sequence of them.

* `initConsoles_views` — `init_consoles` gives every console a fresh window, and writes the first three
  cells of the second and the third.
* `ScreenOp.run_sat`, `runScreen_sat` — with every cursor in its region, a call and a run of calls return,
  keep it so, and write cells of the console's own region.
* `consoles_isolated` — **isolation and termination**, after `init_consoles` and any run.
-/

import WalOS.Console.Region

namespace WalOS

/-! ### Runs -/

inductive Direction where
  | up
  | down
deriving DecidableEq

/-- The `direction` given to `scroll_console`. -/
def Direction.sign : Direction → Int
  | .up => 1
  | .down => -1

/-- The calls. -/
inductive ScreenOp where
  | print (c : Fin consoleCnt) (ch : BitVec 8)
  | write (c : Fin consoleCnt) (buf : List (BitVec 8))
  | scroll (c : Fin consoleCnt) (direction : Direction)
  | change (i : BitVec 8)

def ScreenOp.run : ScreenOp → Screen → Vga Screen
  | .print c ch, s => printCharacter c ch s
  | .write c buf, s => consoleWrite c buf s
  | .scroll c direction, s => pure (scrollConsole c direction.sign s)
  | .change i, s => pure (changeCurrentConsole i s)

/-- The console a call may write cells of. -/
def ScreenOp.writes : ScreenOp → Option (Fin consoleCnt)
  | .print c _ => some c
  | .write c _ => some c
  | .scroll _ _ => none
  | .change _ => none

def runScreen : List ScreenOp → Screen → Vga Screen
  | [], s => pure s
  | op :: ops, s => do
    let s ← op.run s
    runScreen ops s

/-- The view that a call leaves. -/
def ScreenOp.view : ScreenOp → (Fin consoleCnt → Viewport) → Fin consoleCnt → Viewport
  | .print c ch, view => Function.update view c (printed ch (view c))
  | .write c buf, view => Function.update view c (buf.foldl (fun v ch => printed ch v) (view c))
  | .scroll c .up, view => Function.update view c (view c).scrollUp
  | .scroll c .down, view => Function.update view c ((view c).scrollDown consoleGeometry)
  | .change _, view => view

/-- **The consoles are apart.** -/
structure Screen.Isolated (s : Screen) : Prop where
  cursor : ∀ c, (s.console c).vgaMemStart ≤ (s.console c).cursorPos ∧
    (s.console c).cursorPos < (s.console c).vgaMemEnd
  window : ∀ c, (s.console c).vgaMemStart ≤ (s.console c).vgaStartAddr ∧
    ((s.console c).vgaStartAddr - (s.console c).vgaMemStart) % textModeWidth = 0
  disjoint : ∀ c d, c ≠ d → (s.console c).vgaMemEnd ≤ (s.console d).vgaMemStart ∨
    (s.console d).vgaMemEnd ≤ (s.console c).vgaMemStart
  inside : ∀ c, (s.console c).vgaMemEnd ≤ vgaMemSize >>> 1

variable {c : Fin consoleCnt} {s s' : Screen} {view view' : Fin consoleCnt → Viewport}

/-- Every cursor is in its region. -/
def AllContained (view : Fin consoleCnt → Viewport) : Prop :=
  ∀ c, (view c).Contained consoleGeometry

theorem AllContained.update (contained : AllContained view) {v : Viewport}
    (inside : v.Contained consoleGeometry) : AllContained (Function.update view c v) := by
  intro d
  by_cases same : d = c
  · rw [same, Function.update_self]
    exact inside
  · rw [Function.update_of_ne same]
    exact contained d

/-! ### What a view says -/

/-- The bounds of a region never change. -/
theorem Screen.Views.bounds (views : s.Views view) (views' : s'.Views view') (c : Fin consoleCnt) :
    (s'.console c).vgaMemStart = (s.console c).vgaMemStart ∧
      (s'.console c).vgaMemEnd = (s.console c).vgaMemEnd :=
  ⟨BitVec.eq_of_toNat_eq ((views' c).vgaMemStart.trans (views c).vgaMemStart.symm),
    BitVec.eq_of_toNat_eq ((views' c).vgaMemEnd.trans (views c).vgaMemEnd.symm)⟩

theorem Screen.Views.ownCell (views : s.Views view) (views' : s'.Views view') {addr : Addr}
    (own : s'.OwnCell c addr) : s.OwnCell c addr := by
  obtain ⟨starts, ends⟩ := views.bounds views' c
  obtain ⟨pos, after, before, place⟩ := own
  exact ⟨pos, starts ▸ after, ends ▸ before, place⟩

theorem regionStart_apart {d : Fin consoleCnt} (before : c < d) :
    regionStart c + regionLength ≤ regionStart d := by
  rw [regionStart, regionStart, ← Nat.mul_add_one]
  exact Nat.mul_le_mul_left regionLength before

theorem Screen.Views.isolated (views : s.Views view) (contained : AllContained view) :
    s.Isolated := by
  refine ⟨fun c => ⟨?_, ?_⟩, fun c => ⟨?_, ?_⟩, fun c d different => ?_, fun c => ?_⟩
  · rw [BitVec.le_def, (views c).vgaMemStart, (views c).cursorPos]
    exact Nat.le_add_right _ _
  · rw [BitVec.lt_def, (views c).cursorPos, (views c).vgaMemEnd]
    exact Nat.add_lt_add_left (contained c).cursor_lt _
  · rw [BitVec.le_def, (views c).vgaMemStart, (views c).vgaStartAddr]
    exact Nat.le_add_right _ _
  · have starts := (views c).vgaMemStart
    have window := (views c).vgaStartAddr
    have lines : ((s.console c).vgaStartAddr - (s.console c).vgaMemStart).toNat =
        80 * (view c).line := by
      rw [BitVec.toNat_sub_of_le (BitVec.le_def.mpr (by omega)), starts, window]
      exact Nat.add_sub_cancel_left _ _
    refine BitVec.eq_of_toNat_eq ?_
    rw [BitVec.toNat_umod, lines]
    exact Nat.mul_mod_right 80 _
  · rw [BitVec.le_def, BitVec.le_def, (views c).vgaMemEnd, (views d).vgaMemEnd,
      (views c).vgaMemStart, (views d).vgaMemStart]
    rcases lt_or_gt_of_ne different with before | after
    · exact .inl (regionStart_apart before)
    · exact .inr (regionStart_apart after)
  · have base_le := regionStart_le c
    have length_eq : regionLength = 5461 := rfl
    have size : (vgaMemSize >>> 1).toNat = 16384 := by decide
    rw [BitVec.le_def, (views c).vgaMemEnd, size]
    omega

/-! ### The step and the run -/

theorem consoleWrite_sat (buf : List (BitVec 8)) (views : s.Views view)
    (inside : (view c).Contained consoleGeometry) :
    (consoleWrite c buf s).Sat (s.OwnCell c) (fun s' => s'.Views (Function.update view c
      (buf.foldl (fun v ch => printed ch v) (view c)))) (fun _ => False) := by
  induction buf generalizing s view with
  | nil => exact Traced.Sat.pure views.same
  | cons ch buf ih =>
    have prints := (printCharacter_sat views (contained_typed inside ch)).mono
      (fun _ own => own inside.cursor_lt) (fun _ views' => views') fun _ stops => stops
    refine prints.bind fun s' views' => ?_
    have here := Function.update_self c (printed ch (view c)) view
    have rest := ih views' (here.symm ▸ contained_printed inside ch)
    rw [here, Function.update_idem] at rest
    exact rest.mono (fun _ own => views.ownCell views' own) (fun _ views'' => views'')
      fun _ stops => stops

theorem contained_foldl_printed (buf : List (BitVec 8)) {v : Viewport}
    (inside : v.Contained consoleGeometry) :
    (buf.foldl (fun v ch => printed ch v) v).Contained consoleGeometry := by
  induction buf generalizing v with
  | nil => exact inside
  | cons ch buf ih => exact ih (contained_printed inside ch)

/-- A call keeps every cursor in its region. -/
theorem ScreenOp.contained_view (op : ScreenOp) (contained : AllContained view) :
    AllContained (op.view view) := by
  cases op with
  | print c ch => exact contained.update (contained_printed (contained c) ch)
  | write c buf => exact contained.update (contained_foldl_printed buf (contained c))
  | scroll c direction =>
    cases direction with
    | up => exact contained.update (contained c).scrollUp
    | down => exact contained.update (contained c).scrollDown
  | change i => exact contained

theorem changeCurrentConsole_views (views : s.Views view) (i : BitVec 8) :
    (changeCurrentConsole i s).Views view := by
  unfold changeCurrentConsole
  split <;> exact views

theorem scrollConsole_sign_views (views : s.Views view) (c : Fin consoleCnt)
    (direction : Direction) :
    (scrollConsole c direction.sign s).Views ((ScreenOp.scroll c direction).view view) := by
  cases direction with
  | up => exact scrollConsole_views views (views c).scrollUp
  | down => exact scrollConsole_views views (views c).scrollDown

/-- **A call returns**, leaves the view of the call, and writes its own cells. -/
theorem ScreenOp.run_sat (op : ScreenOp) (views : s.Views view) (contained : AllContained view) :
    (op.run s).Sat (fun addr => ∃ c, op.writes = some c ∧ s.OwnCell c addr)
      (fun s' => s'.Views (op.view view)) (fun _ => False) := by
  cases op with
  | print c ch =>
    exact (printCharacter_sat views (contained_typed (contained c) ch)).mono
      (fun _ own => ⟨c, rfl, own (contained c).cursor_lt⟩) (fun _ views' => views')
      fun _ stops => stops
  | write c buf =>
    exact (consoleWrite_sat buf views (contained c)).mono (fun _ own => ⟨c, rfl, own⟩)
      (fun _ views' => views') fun _ stops => stops
  | scroll c direction => exact Traced.Sat.pure (scrollConsole_sign_views views c direction)
  | change i => exact Traced.Sat.pure (changeCurrentConsole_views views i)

/-- The views that a run leaves. -/
def runView (ops : List ScreenOp) (view : Fin consoleCnt → Viewport) : Fin consoleCnt → Viewport :=
  ops.foldl (fun view op => op.view view) view

/-- **A run of calls returns**, with every cursor in its region. -/
theorem runScreen_sat (ops : List ScreenOp) (views : s.Views view) (contained : AllContained view) :
    (runScreen ops s).Sat (fun _ => True)
      (fun s' => s'.Views (runView ops view) ∧ AllContained (runView ops view))
      (fun _ => False) := by
  induction ops generalizing s view with
  | nil => exact Traced.Sat.pure ⟨views, contained⟩
  | cons op ops ih =>
    exact ((op.run_sat views contained).mono (fun _ _ => trivial) (fun _ views' => views')
      fun _ stops => stops).bind fun s' views' => ih views' (op.contained_view contained)

/-! ### The start -/

theorem showConsole_console (c : Fin consoleCnt) (s : Screen) :
    (showConsole c s).console = s.console := by
  unfold showConsole
  split <;> rfl

theorem showConsole_position (c : Fin consoleCnt) (s : Screen) :
    (showConsole c s).position = s.position := by
  unfold showConsole
  split <;> rfl

/-- A character other than a newline and a backspace, at a cursor that the region and the window have
room after. -/
theorem printCharacter_plain {con : Console} {ch : BitVec 8} (here : s.console c = con)
    (noNewline : ch ≠ 0x0a) (noBackspace : ch ≠ 0x08) (room : con.cursorPos < con.vgaMemEnd - 1)
    (shown : ¬ con.cursorPos + 1 ≥ con.vgaStartAddr + textModeSize) :
    ∃ s', printCharacter c ch s = ⟨[vgaMemBase + con.cursorPos * 2], .ok s'⟩ ∧
      s'.position = s.position ∧
      s'.console = Function.update s.console c { con with cursorPos := con.cursorPos + 1 } := by
  let cell := vgaMemBase + con.cursorPos * 2
  let moved : Screen := Screen.modify { s with vga := Function.update s.vga cell (whiteCell ch) } c
    fun con => { con with cursorPos := con.cursorPos + 1 }
  have there : moved.console c = { con with cursorPos := con.cursorPos + 1 } := by
    show Function.update s.console c _ c = _
    rw [Function.update_self, here]
  have switched : printSwitch c ch s = ⟨[cell], .ok moved⟩ := by
    unfold printSwitch
    dsimp only
    rw [if_neg noNewline, if_neg noBackspace, here, if_pos room]
    rfl
  have stays : scrollRound c moved = pure (.inr moved) := by
    rw [scrollRound, there, if_neg shown]
  have loops : Traced.loop .forever (scrollRound c) scrollFuel moved = pure moved :=
    Traced.loop_done stays (2 ^ 28)
  refine ⟨showConsole c moved, ?_, ?_, ?_⟩
  · rw [printCharacter, switched,
      Traced.bind_of_ok (rfl : (Traced.mk [cell] (.ok moved) : Vga Screen).outcome = .ok moved), loops]
    rfl
  · exact showConsole_position c moved
  · rw [showConsole_console]
    show Function.update s.console c _ = _
    rw [here]

/-- The first cell of a region, as `init_consoles` computes it. -/
def regionCell (c : Fin consoleCnt) : BitVec 32 :=
  BitVec.ofNat 32 c * ((vgaMemSize >>> 1) / consoleCnt)

/-- A console as `init_consoles` leaves it. -/
def freshConsole (c : Fin consoleCnt) (buf : ℕ → BitVec 8) (cursor : BitVec 32) : Console where
  input := .empty buf
  cursorPos := cursor
  vgaStartAddr := regionCell c
  vgaMemStart := regionCell c
  vgaMemEnd := regionCell c + (vgaMemSize >>> 1) / consoleCnt

theorem toNat_regionCell (c : Fin consoleCnt) : (regionCell c).toNat = regionStart c ∧
    (regionCell c + (vgaMemSize >>> 1) / consoleCnt).toNat = regionStart c + regionLength := by
  revert c
  decide

theorem viewed_fresh (c : Fin consoleCnt) (buf : ℕ → BitVec 8) {cursor : BitVec 32} {n : ℕ}
    (place : cursor.toNat = regionStart c + n) (small : n < 2 ^ 31) :
    (freshConsole c buf cursor).Viewed c ⟨n, 0⟩ := by
  have windowEnd_lt : 80 * 0 + 2000 < regionLength + 80 := by decide
  obtain ⟨starts, ends⟩ := toNat_regionCell c
  exact ⟨starts, ends, starts, place, windowEnd_lt, small⟩

/-- The cell `k` of a region. -/
def cellAt (c : Fin consoleCnt) (k : ℕ) : BitVec 32 := regionCell c + BitVec.ofNat 32 k

theorem toNat_cellAt {k : ℕ} (small : k < 2 ^ 31) : (cellAt c k).toNat = regionStart c + k := by
  have base_le := regionStart_le c
  rw [cellAt, BitVec.toNat_add, (toNat_regionCell c).1, BitVec.toNat_ofNat,
    Nat.mod_eq_of_lt (a := k) (by omega), Nat.mod_eq_of_lt (by omega)]

theorem cellAt_succ (c : Fin consoleCnt) (k : ℕ) : cellAt c k + 1 = cellAt c (k + 1) := by
  rw [cellAt, cellAt, BitVec.ofNat_add, ← BitVec.add_assoc]
  rfl

theorem printCharacter_fresh {k : ℕ} (few : k < 3) {ch : BitVec 8} {buf : ℕ → BitVec 8}
    (here : s.console c = freshConsole c buf (cellAt c k)) (noNewline : ch ≠ 0x0a)
    (noBackspace : ch ≠ 0x08) :
    ∃ s', printCharacter c ch s = ⟨[vgaMemBase + cellAt c k * 2], .ok s'⟩ ∧
      s'.position = s.position ∧
      s'.console = Function.update s.console c (freshConsole c buf (cellAt c (k + 1))) := by
  have viewed := viewed_fresh c buf (toNat_cellAt (show k < 2 ^ 31 by omega)) (by omega)
  have room : k + 1 < consoleGeometry.length := by
    show k + 1 < 5461
    omega
  have shown : ¬ (freshConsole c buf (cellAt c k)).cursorPos + 1 ≥
      (freshConsole c buf (cellAt c k)).vgaStartAddr + textModeSize := by
    rw [ge_iff_le, BitVec.le_def, viewed.toNat_windowEnd, viewed.toNat_following]
    show ¬ regionStart c + (80 * 0 + 2000) ≤ regionStart c + (k + 1)
    omega
  obtain ⟨s', prints, position, console⟩ :=
    printCharacter_plain here noNewline noBackspace (viewed.forward_iff.mpr room) shown
  rw [← cellAt_succ]
  exact ⟨s', prints, position, console⟩

/-- The cells that `init_consoles` writes for a console: its number and a prompt. -/
def promptCells (c : Fin consoleCnt) : List Addr :=
  (List.range 3).map fun k => vgaMemBase + cellAt c k * 2

theorem initConsole_prompt (c : Fin consoleCnt) (later : c ≠ 0) (s : Screen) :
    ∃ s', initConsole c s = ⟨promptCells c, .ok s'⟩ ∧ s'.position = s.position ∧
      s'.console = Function.update s.console c
        (freshConsole c (s.console c).input.buf (cellAt c 3)) := by
  let fresh := freshConsole c (s.console c).input.buf
  let cleared := s.modify c fun _ => fresh (cellAt c 0)
  have plain : ∀ c : Fin consoleCnt, c ≠ 0 → BitVec.ofNat 8 c + 0x30 ≠ 0x0a ∧
      BitVec.ofNat 8 c + 0x30 ≠ 0x08 := by decide
  have start : regionCell c = cellAt c 0 := (BitVec.add_zero _).symm
  have unfolded : initConsole c s =
      (do
        let s ← printCharacter c (BitVec.ofNat 8 c + 0x30) cleared
        let s ← printCharacter c 0x23 s
        printCharacter c 0x20 s) := by
    unfold initConsole
    dsimp only
    rw [if_neg later]
    show (do
        let s ← printCharacter c _ (s.modify c fun _ => fresh (regionCell c))
        let s ← printCharacter c 0x23 s
        printCharacter c 0x20 s) = _
    rw [start]
  have here : cleared.console c = fresh (cellAt c 0) := Function.update_self _ _ _
  obtain ⟨s₁, first, position₁, console₁⟩ := printCharacter_fresh (by decide) here
    (plain c later).1 (plain c later).2
  obtain ⟨s₂, second, position₂, console₂⟩ := printCharacter_fresh (by decide)
    (show s₁.console c = _ from console₁ ▸ Function.update_self _ _ _)
    (show (0x23 : BitVec 8) ≠ 0x0a by decide) (by decide)
  obtain ⟨s₃, third, position₃, console₃⟩ := printCharacter_fresh (by decide)
    (show s₂.console c = _ from console₂ ▸ Function.update_self _ _ _)
    (show (0x20 : BitVec 8) ≠ 0x0a by decide) (by decide)
  refine ⟨s₃, ?_, position₃.trans (position₂.trans position₁), ?_⟩
  · rw [unfolded, Traced.bind_of_ok (congrArg Traced.outcome first),
      Traced.bind_of_ok (congrArg Traced.outcome second), first, second, third]
    rfl
  · rw [console₃, console₂, console₁, Function.update_idem, Function.update_idem]
    exact Function.update_idem _ _ _

theorem initConsole_zero (s : Screen) :
    ∃ s', initConsole 0 s = pure s' ∧ s'.position = 0 ∧
      s'.console = Function.update s.console 0
        (freshConsole 0 (s.console 0).input.buf (s.position / 2)) := by
  refine ⟨_, rfl, rfl, ?_⟩
  simp only [Screen.modify, Function.update_idem, Function.update_self]
  rfl

/-- The views after `init_consoles`, for an inherited cursor. -/
def startView (position : BitVec 32) (c : Fin consoleCnt) : Viewport :=
  ⟨if c.val = 0 then (position / 2).toNat else 3, 0⟩

/-- **`init_consoles` returns**, with every console at the start of its region. -/
theorem initConsoles_views (s : Screen) :
    ∃ s₀, initConsoles s = ⟨promptCells 1 ++ promptCells 2, .ok s₀⟩ ∧
      s₀.Views (startView s.position) := by
  obtain ⟨s₁, zero, -, console₁⟩ := initConsole_zero s
  obtain ⟨s₂, one, -, console₂⟩ := initConsole_prompt 1 (by decide) s₁
  obtain ⟨s₃, two, -, console₃⟩ := initConsole_prompt 2 (by decide) s₂
  refine ⟨s₃, ?_, fun c => ?_⟩
  · rw [initConsoles, Traced.bind_of_ok (congrArg Traced.outcome zero),
      Traced.bind_of_ok (congrArg Traced.outcome one), zero, one, two]
    rfl
  · have fresh : ∀ k : Fin consoleCnt, (cellAt k 3).toNat = regionStart k + 3 := fun k =>
      toNat_cellAt (by decide)
    rw [console₃, console₂, console₁]
    match c with
    | 0 =>
      rw [Function.update_of_ne (by decide), Function.update_of_ne (by decide),
        Function.update_self]
      refine viewed_fresh 0 _ (Nat.zero_add _).symm ?_
      have small := s.position.isLt
      rw [BitVec.toNat_udiv]
      show s.position.toNat / 2 < 2 ^ 31
      omega
    | 1 =>
      rw [Function.update_of_ne (by decide), Function.update_self]
      exact viewed_fresh 1 _ (fresh 1) (show 3 < 2 ^ 31 by decide)
    | 2 =>
      rw [Function.update_self]
      exact viewed_fresh 2 _ (fresh 2) (show 3 < 2 ^ 31 by decide)

theorem contained_startView {position : BitVec 32}
    (inherited : (position / 2).toNat < regionLength) : AllContained (startView position) := by
  intro c
  have windowEnd_lt : 80 * 0 + 2000 < regionLength + 80 := by decide
  refine ⟨?_, windowEnd_lt⟩
  unfold startView
  dsimp only
  split
  · exact inherited
  · show 3 < regionLength
    decide

theorem ownCell_promptCells (views : s.Views view) {addr : Addr} (prompt : addr ∈ promptCells c) :
    s.OwnCell c addr := by
  obtain ⟨k, few, rfl⟩ := List.mem_map.mp prompt
  have few := List.mem_range.mp few
  have length_eq : regionLength = 5461 := rfl
  exact ownCell_of_viewed (views c) (toNat_cellAt (show k < 2 ^ 31 by omega)) (by omega)

/-- **Isolation and termination.** After `init_consoles`, with the inherited cursor in the first
console's region, and any run of calls: the regions are the ones set up, apart and in the VGA memory;
every cursor is in its region and every window starts at a line of it; and the next call returns, and
writes cells of its own console's region only. -/
theorem consoles_isolated (s : Screen) (inherited : (s.position / 2).toNat < regionLength) :
    ∃ s₀, initConsoles s = ⟨promptCells 1 ++ promptCells 2, .ok s₀⟩ ∧
      (∀ c, ∀ addr ∈ promptCells c, s₀.OwnCell c addr) ∧
      (s₀.console 0).vgaMemEnd.toNat = regionLength ∧
      ∀ ops, ∃ s', (runScreen ops s₀).outcome = .ok s' ∧ s'.Isolated ∧
        (∀ c, (s'.console c).vgaMemStart = (s₀.console c).vgaMemStart ∧
          (s'.console c).vgaMemEnd = (s₀.console c).vgaMemEnd) ∧
        ∀ op : ScreenOp, (∃ s'', (op.run s').outcome = .ok s'') ∧
          ∀ addr ∈ (op.run s').accesses, ∃ c, op.writes = some c ∧ s'.OwnCell c addr := by
  obtain ⟨s₀, start, views⟩ := initConsoles_views s
  refine ⟨s₀, start, fun c addr prompt => ownCell_promptCells views prompt, ?_, fun ops => ?_⟩
  · rw [(views 0).vgaMemEnd]
    exact Nat.zero_add _
  have runs := runScreen_sat ops views (contained_startView inherited)
  obtain ⟨s', returned⟩ := runs.returns
  obtain ⟨views', contained⟩ := runs.value s' returned
  refine ⟨s', returned, views'.isolated contained, views.bounds views', fun op => ?_⟩
  have next := op.run_sat views' contained
  exact ⟨next.returns, next.access⟩

/-- Zeroed consoles, at the position that the boot messages left. -/
def zeroedScreen (position : BitVec 32) : Screen where
  console _ := ⟨.empty fun _ => 0, 0, 0, 0, 0⟩
  currentConsole := ⟨0, Nat.zero_lt_succ _⟩
  position := position
  vga _ := 0
  crtc := ⟨0, 0, 0, 0⟩

/-- The fifth line of the screen. -/
theorem consoles_isolated_fifth :
    ∃ s₀, (initConsoles (zeroedScreen 640)).outcome = .ok s₀ ∧
      ∀ ops, ∃ s', (runScreen ops s₀).outcome = .ok s' ∧ s'.Isolated := by
  obtain ⟨s₀, start, -, -, runs⟩ := consoles_isolated (zeroedScreen 640) (by decide)
  refine ⟨s₀, congrArg Traced.outcome start, fun ops => ?_⟩
  obtain ⟨s', returned, isolated, -⟩ := runs ops
  exact ⟨s', returned, isolated⟩

end WalOS
