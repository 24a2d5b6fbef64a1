/-
**What the consoles hold.**

Each console of `console.c` is a terminal over its region: `Screen.terminal` reads it off the VGA memory.

* `ScreenOp.keys` — what a call types on a console.
* `printCharacter_vga` — the cell that a character changes, if any.
* `consoles_are_terminals` — **after `init_consoles` and any calls, every console is the terminal that
  its own calls leave**, whatever the others do; cells of no region never change.
* `console_edited` — characters and backspaces leave the text that survives them.
* `console_text` — of a text that fits, every character stays where it was printed.
-/

import WalOS.Console.Isolation
import WalOS.Lib.Terminal

namespace WalOS

/-! ### Terminals -/

/-- The key that a character is. -/
def keyOf (ch : BitVec 8) : Terminal.Key (BitVec 16) :=
  if ch = 0x0a then .newline else if ch = 0x08 then .erase else .char (whiteCell ch)

def Direction.key : Direction → Terminal.Key (BitVec 16)
  | .up => .up
  | .down => .down

/-- What a call types on a console. -/
def ScreenOp.keys (c : Fin consoleCnt) : ScreenOp → List (Terminal.Key (BitVec 16))
  | .print d ch => if d = c then [keyOf ch] else []
  | .write d buf => if d = c then buf.map keyOf else []
  | .scroll d direction => if d = c then [direction.key] else []
  | .change _ => []

theorem zero_lt_consoleCnt : 0 < consoleCnt := Nat.succ_pos 2

theorem one_lt_consoleCnt : 1 < consoleCnt := Nat.one_lt_succ_succ 1

/-- The cell of a backspace. -/
def blankCell : BitVec 16 := whiteCell 0x20

/-- The address of a cell of a region. -/
def cellAddr (c : Fin consoleCnt) (k : ℕ) : Addr := vgaMemBase + cellAt c k * 2

/-- The terminal of a console. -/
def Screen.terminal (s : Screen) (c : Fin consoleCnt) : Terminal (BitVec 16) where
  view :=
    { cursor := (s.console c).cursorPos.toNat - regionStart c
      line := ((s.console c).vgaStartAddr.toNat - regionStart c) / 80 }
  cells k := s.vga (cellAddr c k)

/-- Keys typed on a console. -/
abbrev typeKeys (t : Terminal (BitVec 16)) (keys : List (Terminal.Key (BitVec 16))) :
    Terminal (BitVec 16) :=
  t.presses consoleGeometry blankCell keys

variable {c d : Fin consoleCnt} {v : Viewport} {s s' s₀ : Screen} {view : Fin consoleCnt → Viewport}
  {t : Terminal (BitVec 16)} {k n : ℕ}

/-! ### Cells -/

theorem toNat_cellAddr (inside : k < regionLength) :
    (cellAddr c k).toNat = 0xb8000 + 2 * (regionStart c + k) := by
  have base_le := regionStart_le c
  have inside : k < 5461 := inside
  have base : vgaMemBase.toNat = 0xb8000 := rfl
  have two : (2 : BitVec 32).toNat = 2 := rfl
  rw [cellAddr, BitVec.toNat_add, BitVec.toNat_mul, toNat_cellAt (by omega), base, two,
    Nat.mod_eq_of_lt (a := _ * 2) (by omega), Nat.mod_eq_of_lt (by omega)]
  omega

/-- Regions have no cell in common. -/
theorem cellAddr_inj (inside : k < regionLength) (inside' : n < regionLength) :
    cellAddr c k = cellAddr d n ↔ c = d ∧ k = n := by
  refine ⟨fun same => ?_, fun ⟨same, same'⟩ => by rw [same, same']⟩
  have place := congrArg BitVec.toNat same
  rw [toNat_cellAddr inside, toNat_cellAddr inside'] at place
  have length_eq : regionLength = 5461 := rfl
  have apart : c = d := by
    rcases lt_trichotomy c d with before | here | after
    · have := regionStart_apart before
      omega
    · exact here
    · have := regionStart_apart after
      omega
  subst apart
  exact ⟨rfl, by omega⟩

theorem Console.Viewed.terminal (viewed : (s.console c).Viewed c v) : (s.terminal c).view = v := by
  have cursor := viewed.cursorPos
  have start := viewed.vgaStartAddr
  refine Viewport.ext ?_ ?_
  · show (s.console c).cursorPos.toNat - regionStart c = v.cursor
    omega
  · show ((s.console c).vgaStartAddr.toNat - regionStart c) / 80 = v.line
    omega

/-! ### The code and the cells -/

/-- The VGA memory after a character. -/
def printedVga (c : Fin consoleCnt) (ch : BitVec 8) (cursor : ℕ) (vga : Addr → BitVec 16) :
    Addr → BitVec 16 :=
  if ch = 0x0a then vga
  else if ch = 0x08 then
    if 0 < cursor then Function.update vga (cellAddr c (cursor - 1)) blankCell else vga
  else if cursor + 1 < regionLength then Function.update vga (cellAddr c cursor) (whiteCell ch)
  else vga

theorem Console.Viewed.cursor_cell (viewed : (s.console c).Viewed c v) :
    vgaMemBase + (s.console c).cursorPos * 2 = cellAddr c v.cursor := by
  have place : (s.console c).cursorPos = cellAt c v.cursor :=
    BitVec.eq_of_toNat_eq (viewed.cursorPos.trans (toNat_cellAt viewed.cursor_lt).symm)
  rw [place]
  rfl

theorem Console.Viewed.previous_cell (viewed : (s.console c).Viewed c v) (later : 0 < v.cursor) :
    vgaMemBase + (s.console c).cursorPos * 2 - 2 = cellAddr c (v.cursor - 1) := by
  have small := viewed.cursor_lt
  have place : (s.console c).cursorPos - 1 = cellAt c (v.cursor - 1) :=
    BitVec.eq_of_toNat_eq ((viewed.toNat_previous later).trans (toNat_cellAt (by omega)).symm)
  rw [WalOS.previous_cell, place]
  rfl

theorem printSwitch_vga (viewed : (s.console c).Viewed c v) (ch : BitVec 8) :
    (printSwitch c ch s).Sat (fun _ => True)
      (fun s' => s'.vga = printedVga c ch v.cursor s.vga) (fun _ => False) := by
  unfold printSwitch printedVga
  dsimp only
  refine Traced.Sat.ite (fun newline => ?_) fun noNewline => ?_
  · rw [if_pos newline]
    exact Traced.Sat.ite (fun _ => Traced.Sat.pure rfl) fun _ => Traced.Sat.pure rfl
  rw [if_neg noNewline]
  refine Traced.Sat.ite (fun backspace => ?_) fun noBackspace => ?_
  · rw [if_pos backspace]
    refine Traced.Sat.ite (fun before => ?_) fun after => Traced.Sat.pure ?_
    · have later := viewed.back_iff.mp before
      rw [if_pos later, viewed.previous_cell later]
      exact Traced.Sat.touch_bind trivial (Traced.Sat.pure rfl)
    · rw [if_neg fun later => after (viewed.back_iff.mpr later)]
  · rw [if_neg noBackspace]
    have room : (s.console c).cursorPos < (s.console c).vgaMemEnd - 1 ↔ v.cursor + 1 < regionLength :=
      viewed.forward_iff
    refine Traced.Sat.ite (fun before => ?_) fun after => Traced.Sat.pure ?_
    · rw [if_pos (room.mp before), viewed.cursor_cell]
      have written : (putCell (cellAddr c v.cursor) (whiteCell ch) s).Sat (fun _ => True)
          (fun s' => s'.vga = Function.update s.vga (cellAddr c v.cursor) (whiteCell ch))
          (fun _ => False) :=
        Traced.Sat.touch_bind trivial (Traced.Sat.pure rfl)
      exact written.bind fun s' after => Traced.Sat.pure after
    · rw [if_neg fun before => after (room.mpr before)]

theorem showConsole_vga (c : Fin consoleCnt) (s : Screen) : (showConsole c s).vga = s.vga := by
  unfold showConsole
  split <;> rfl

theorem scrollLoop_vga (s : Screen) :
    (Traced.loop .forever (scrollRound c) scrollFuel s).Sat (fun _ => True)
      (fun s' => s'.vga = s.vga) (fun _ => True) := by
  refine Traced.Sat.loop_partial (fun s' => s'.vga = s.vga) (fun s' kept => ?_) trivial scrollFuel s rfl
  unfold scrollRound
  split
  · exact Traced.Sat.pure ((showConsole_vga c _).trans kept)
  · exact Traced.Sat.pure kept

/-- **A character changes one cell at most.** -/
theorem printCharacter_vga (viewed : (s.console c).Viewed c v) (ch : BitVec 8) :
    (printCharacter c ch s).Sat (fun _ => True)
      (fun s' => s'.vga = printedVga c ch v.cursor s.vga) (fun _ => True) := by
  have switched := (printSwitch_vga viewed ch).mono (fun _ used => used) (fun _ after => after)
    fun _ _ => trivial
  refine switched.bind fun s' after => (scrollLoop_vga s').bind fun s'' kept => Traced.Sat.pure ?_
  rw [showConsole_vga, kept, after]

/-! ### One console -/

/-- **A console is this terminal**, with its cursor in the region. -/
structure Screen.HoldsAt (s : Screen) (c : Fin consoleCnt) (t : Terminal (BitVec 16)) : Prop where
  viewed : (s.console c).Viewed c t.view
  contained : t.view.Contained consoleGeometry
  cells : ∀ k < regionLength, s.vga (cellAddr c k) = t.cells k

/-- Only cells of a region are written. -/
def OnlyIn (c : Fin consoleCnt) (s s' : Screen) : Prop :=
  ∀ addr, (∀ k < regionLength, addr ≠ cellAddr c k) → s'.vga addr = s.vga addr

theorem Screen.HoldsAt.terminal (holds : s.HoldsAt c t) : (s.terminal c).Same consoleGeometry t :=
  ⟨holds.viewed.terminal, holds.cells⟩

theorem Screen.HoldsAt.elsewhere {t : Terminal (BitVec 16)} (holds : s.HoldsAt d t)
    (viewed : (s'.console d).Viewed d t.view) (only : OnlyIn c s s') (apart : d ≠ c) : s'.HoldsAt d t := by
  refine ⟨viewed, holds.contained, fun k inside => ?_⟩
  rw [only _ fun n inside' same => apart ((cellAddr_inj inside inside').mp same).1]
  exact holds.cells k inside

theorem keyOf_view (t : Terminal (BitVec 16)) (ch : BitVec 8) :
    (t.press consoleGeometry blankCell (keyOf ch)).view = printed ch t.view := by
  unfold keyOf printed typed
  split
  · rfl
  · split <;> rfl

/-- The cells of a terminal after a character. -/
theorem printedVga_cells (contained : t.view.Contained consoleGeometry) (ch : BitVec 8)
    {vga : Addr → BitVec 16} (cells : ∀ k < regionLength, vga (cellAddr c k) = t.cells k)
    (inside : k < regionLength) :
    printedVga c ch t.view.cursor vga (cellAddr c k) =
      (t.press consoleGeometry blankCell (keyOf ch)).cells k := by
  have cursor_lt : t.view.cursor < regionLength := contained.cursor_lt
  have written : ∀ n < regionLength, ∀ x,
      Function.update vga (cellAddr c n) x (cellAddr c k) = Function.update t.cells n x k := by
    intro n inside' x
    by_cases there : k = n
    · rw [there, Function.update_self, Function.update_self]
    · rw [Function.update_of_ne there, cells k inside |>.symm,
        Function.update_of_ne fun same => there ((cellAddr_inj inside inside').mp same).2]
  unfold printedVga keyOf
  split
  · exact cells k inside
  · split
    · show _ = (if 0 < t.view.cursor then _ else _ : ℕ → BitVec 16) k
      split
      · exact written _ (by omega) _
      · exact cells k inside
    · show _ = (if t.view.cursor + 1 < regionLength then _ else _ : ℕ → BitVec 16) k
      split
      · exact written _ cursor_lt _
      · exact cells k inside

theorem printedVga_only (cursor_lt : n < regionLength) (ch : BitVec 8) (vga : Addr → BitVec 16)
    {addr : Addr} (off : ∀ k < regionLength, addr ≠ cellAddr c k) :
    printedVga c ch n vga addr = vga addr := by
  unfold printedVga
  split
  · rfl
  · split
    · split
      · exact Function.update_of_ne (off _ (by omega)) _ _
      · rfl
    · split
      · exact Function.update_of_ne (off _ cursor_lt) _ _
      · rfl

/-- A character on one console. -/
theorem Screen.HoldsAt.print (holds : s.HoldsAt c t) {ch : BitVec 8}
    (returned : (printCharacter c ch s).outcome = .ok s')
    (viewed : (s'.console c).Viewed c (printed ch t.view)) :
    s'.HoldsAt c (t.press consoleGeometry blankCell (keyOf ch)) ∧ OnlyIn c s s' := by
  have vga := (printCharacter_vga holds.viewed ch).value s' returned
  refine ⟨⟨?_, ?_, fun k inside => ?_⟩, fun addr off => ?_⟩
  · rw [keyOf_view]
    exact viewed
  · rw [keyOf_view]
    exact contained_printed holds.contained ch
  · rw [vga]
    exact printedVga_cells holds.contained ch holds.cells inside
  · rw [vga]
    exact printedVga_only holds.contained.cursor_lt ch s.vga off

/-! ### The refinement -/

/-- Every console is its terminal. -/
def Screen.Holds (s : Screen) (term : Fin consoleCnt → Terminal (BitVec 16)) : Prop :=
  ∀ c, s.HoldsAt c (term c)

/-- No cell outside the regions is written. -/
def SameOutside (s s' : Screen) : Prop :=
  ∀ addr, (∀ c, ∀ k < regionLength, addr ≠ cellAddr c k) → s'.vga addr = s.vga addr

/-- Keys typed on one console. -/
def typeOn (c : Fin consoleCnt) (keys : List (Terminal.Key (BitVec 16)))
    (term : Fin consoleCnt → Terminal (BitVec 16)) : Fin consoleCnt → Terminal (BitVec 16) :=
  fun d => typeKeys (term d) (if c = d then keys else [])

variable {term : Fin consoleCnt → Terminal (BitVec 16)}

theorem OnlyIn.outside (only : OnlyIn c s s') : SameOutside s s' := fun addr off => only addr (off c)

theorem SameOutside.trans {s'' : Screen} (first : SameOutside s s') (second : SameOutside s' s'') :
    SameOutside s s'' := fun addr off => (second addr off).trans (first addr off)

theorem Screen.Holds.views (holds : s.Holds term) : s.Views fun c => (term c).view :=
  fun c => (holds c).viewed

theorem printCharacter_holds (holds : s.Holds term) (c : Fin consoleCnt) (ch : BitVec 8) :
    ∃ s', (printCharacter c ch s).outcome = .ok s' ∧ s'.Holds (typeOn c [keyOf ch] term) ∧
      SameOutside s s' := by
  have prints := printCharacter_sat holds.views (contained_typed (holds c).contained ch)
  obtain ⟨s', returned⟩ := prints.returns
  have views := prints.value s' returned
  have here : (s'.console c).Viewed c (printed ch (term c).view) := by
    have viewed := views c
    rw [Function.update_self] at viewed
    exact viewed
  obtain ⟨after, only⟩ := (holds c).print returned here
  refine ⟨s', returned, fun d => ?_, only.outside⟩
  unfold typeOn
  by_cases same : c = d
  · subst same
    rw [if_pos rfl]
    exact after
  · rw [if_neg same]
    have viewed := views d
    rw [Function.update_of_ne (Ne.symm same)] at viewed
    exact (holds d).elsewhere viewed only (Ne.symm same)

theorem typeOn_typeOn (c : Fin consoleCnt) (first second : List (Terminal.Key (BitVec 16))) :
    typeOn c second (typeOn c first term) = typeOn c (first ++ second) term := by
  funext d
  unfold typeOn
  by_cases same : c = d
  · rw [if_pos same, if_pos same, if_pos same]
    exact (Terminal.presses_append _ _ _).symm
  · rw [if_neg same, if_neg same, if_neg same]
    rfl

theorem typeOn_nil (c : Fin consoleCnt) : typeOn c [] term = term := by
  funext d
  unfold typeOn
  rw [ite_self]
  rfl

theorem consoleWrite_holds (holds : s.Holds term) (c : Fin consoleCnt) (buf : List (BitVec 8)) :
    ∃ s', (consoleWrite c buf s).outcome = .ok s' ∧ s'.Holds (typeOn c (buf.map keyOf) term) ∧
      SameOutside s s' := by
  induction buf generalizing s term with
  | nil =>
    refine ⟨s, rfl, ?_, fun _ _ => rfl⟩
    rw [List.map_nil, typeOn_nil]
    exact holds
  | cons ch buf ih =>
    obtain ⟨s₁, first, holds₁, outside₁⟩ := printCharacter_holds holds c ch
    obtain ⟨s₂, rest, holds₂, outside₂⟩ := ih holds₁
    rw [typeOn_typeOn] at holds₂
    exact ⟨s₂, Traced.bind_eq_ok.mpr ⟨s₁, first, rest⟩, holds₂, outside₁.trans outside₂⟩

theorem scrollConsole_vga (c : Fin consoleCnt) (direction : Int) (s : Screen) :
    (scrollConsole c direction s).vga = s.vga := showConsole_vga c _

theorem changeCurrentConsole_vga (i : BitVec 8) (s : Screen) : (changeCurrentConsole i s).vga = s.vga := by
  unfold changeCurrentConsole
  split <;> rfl

theorem scrollConsole_holds (holds : s.Holds term) (c : Fin consoleCnt) (direction : Direction) :
    (scrollConsole c direction.sign s).Holds (typeOn c [direction.key] term) := by
  have scrolled : ∃ w : Viewport, ((s.console c).scroll direction.sign).Viewed c w ∧
      w = ((term c).press consoleGeometry blankCell direction.key).view ∧
      w.Contained consoleGeometry ∧
      ((term c).press consoleGeometry blankCell direction.key).cells = (term c).cells := by
    cases direction with
    | up => exact ⟨_, (holds c).viewed.scrollUp, rfl, (holds c).contained.scrollUp, rfl⟩
    | down =>
      have view : ((term c).press consoleGeometry blankCell .down).view =
          (term c).view.scrollDown consoleGeometry := by rw [Terminal.press]
      exact ⟨_, (holds c).viewed.scrollDown, view.symm, (holds c).contained.scrollDown,
        (Terminal.press_down (term c)).2⟩
  obtain ⟨w, viewed, view, contained, cells⟩ := scrolled
  have views := scrollConsole_views holds.views viewed
  intro d
  have shown := views d
  unfold typeOn
  by_cases same : c = d
  · subst same
    rw [Function.update_self] at shown
    rw [if_pos rfl]
    refine ⟨view ▸ shown, view ▸ contained, fun k inside => ?_⟩
    rw [scrollConsole_vga]
    exact ((holds c).cells k inside).trans (congrFun cells k).symm
  · rw [Function.update_of_ne (Ne.symm same)] at shown
    rw [if_neg same]
    refine ⟨shown, (holds d).contained, fun k inside => ?_⟩
    rw [scrollConsole_vga]
    exact (holds d).cells k inside

/-- **A call types its keys.** -/
theorem ScreenOp.run_holds (holds : s.Holds term) (op : ScreenOp) :
    ∃ s', (op.run s).outcome = .ok s' ∧ s'.Holds (fun c => typeKeys (term c) (op.keys c)) ∧
      SameOutside s s' := by
  cases op with
  | print c ch => exact printCharacter_holds holds c ch
  | write c buf => exact consoleWrite_holds holds c buf
  | scroll c direction =>
    refine ⟨_, rfl, scrollConsole_holds holds c direction, fun addr _ => ?_⟩
    rw [scrollConsole_vga]
  | change i =>
    have views := changeCurrentConsole_views holds.views i
    refine ⟨_, rfl, fun c => ⟨views c, (holds c).contained, ?_⟩, fun addr _ => ?_⟩
    · rw [changeCurrentConsole_vga]
      exact (holds c).cells
    · rw [changeCurrentConsole_vga]

/-- **A run types the keys of its calls**, on each console those of the calls about it. -/
theorem runScreen_holds (holds : s.Holds term) (ops : List ScreenOp) :
    ∃ s', (runScreen ops s).outcome = .ok s' ∧
      s'.Holds (fun c => typeKeys (term c) (ops.flatMap fun op => op.keys c)) ∧ SameOutside s s' := by
  induction ops generalizing s term with
  | nil => exact ⟨s, rfl, holds, fun _ _ => rfl⟩
  | cons op ops ih =>
    obtain ⟨s₁, first, holds₁, outside₁⟩ := op.run_holds holds
    obtain ⟨s₂, rest, holds₂, outside₂⟩ := ih holds₁
    refine ⟨s₂, Traced.bind_eq_ok.mpr ⟨s₁, first, rest⟩, fun c => ?_, outside₁.trans outside₂⟩
    have after := holds₂ c
    show s₂.HoldsAt c (typeKeys (term c) (op.keys c ++ ops.flatMap fun op => op.keys c))
    rw [typeKeys, Terminal.presses_append]
    exact after

/-! ### The start -/

/-- What `init_consoles` prints. -/
def promptOf (c : Fin consoleCnt) : List (BitVec 8) :=
  if c.val = 0 then [] else [BitVec.ofNat 8 c + 0x30, 0x23, 0x20]

/-- The terminal that `init_consoles` makes of a region: the first inherits the cursor. -/
def Screen.startTerminal (s : Screen) (c : Fin consoleCnt) : Terminal (BitVec 16) :=
  typeKeys
    { view := ⟨if c.val = 0 then (s.position / 2).toNat else 0, 0⟩
      cells := fun k => s.vga (cellAddr c k) }
    ((promptOf c).map keyOf)

theorem Screen.HoldsAt.same {u : Terminal (BitVec 16)} (holds : s.HoldsAt c t)
    (same : t.Same consoleGeometry u) : s.HoldsAt c u :=
  ⟨same.view ▸ holds.viewed, same.view ▸ holds.contained,
    fun k inside => (holds.cells k inside).trans (same.cells k inside)⟩

/-- The window stays at the first lines. -/
theorem printed_fresh (few : k < 3) {ch : BitVec 8} (noNewline : ch ≠ 0x0a) (noBackspace : ch ≠ 0x08) :
    printed ch ⟨k, 0⟩ = ⟨k + 1, 0⟩ := by
  have room : k + 1 < consoleGeometry.length := by
    show k + 1 < 5461
    omega
  have near : k + 1 < consoleGeometry.shown := by
    show k + 1 < 2000
    omega
  rw [printed, typed, if_neg noNewline, if_neg noBackspace, Viewport.forward, if_pos room,
    Viewport.follow, Viewport.needed, if_pos near]
  rfl

/-- A character of the prompt. -/
theorem Screen.HoldsAt.print_fresh (holds : s.HoldsAt c t) (few : k < 3) (view : t.view = ⟨k, 0⟩)
    {buf : ℕ → BitVec 8} (here : s.console c = freshConsole c buf (cellAt c k)) {ch : BitVec 8}
    (noNewline : ch ≠ 0x0a) (noBackspace : ch ≠ 0x08) :
    ∃ s', (printCharacter c ch s).outcome = .ok s' ∧
      s'.HoldsAt c (t.press consoleGeometry blankCell (keyOf ch)) ∧
      (t.press consoleGeometry blankCell (keyOf ch)).view = ⟨k + 1, 0⟩ ∧ OnlyIn c s s' ∧
      s'.console = Function.update s.console c (freshConsole c buf (cellAt c (k + 1))) := by
  obtain ⟨s', prints, -, console⟩ := printCharacter_fresh few here noNewline noBackspace
  have returned := congrArg Traced.outcome prints
  have next : printed ch t.view = ⟨k + 1, 0⟩ := view ▸ printed_fresh few noNewline noBackspace
  have viewed : (s'.console c).Viewed c (printed ch t.view) := by
    rw [next, console, Function.update_self]
    exact viewed_fresh c buf (toNat_cellAt (show k + 1 < 2 ^ 31 by omega)) (by omega)
  obtain ⟨after, only⟩ := holds.print returned viewed
  exact ⟨s', returned, after, (keyOf_view t ch).trans next, only, console⟩

theorem OnlyIn.trans {s'' : Screen} (first : OnlyIn c s s') (second : OnlyIn c s' s'') : OnlyIn c s s'' :=
  fun addr off => (second addr off).trans (first addr off)

/-- The second console and the third. -/
theorem initConsole_holds (later : c.val ≠ 0) (s : Screen) :
    ∃ s', (initConsole c s).outcome = .ok s' ∧ s'.HoldsAt c (s.startTerminal c) ∧ OnlyIn c s s' ∧
      ∀ d, d ≠ c → s'.console d = s.console d := by
  have notFirst : c ≠ 0 := fun same => later (congrArg Fin.val same)
  let buf := (s.console c).input.buf
  let cleared := s.modify c fun _ => freshConsole c buf (cellAt c 0)
  have cell : regionCell c = cellAt c 0 := (BitVec.add_zero _).symm
  have unfolded : initConsole c s =
      (do
        let s ← printCharacter c (BitVec.ofNat 8 c + 0x30) cleared
        let s ← printCharacter c 0x23 s
        printCharacter c 0x20 s) := by
    unfold initConsole
    dsimp only
    rw [if_neg notFirst]
    show (do
        let s ← printCharacter c _ (s.modify c fun _ => freshConsole c buf (regionCell c))
        let s ← printCharacter c 0x23 s
        printCharacter c 0x20 s) = _
    rw [cell]
  have plain : ∀ c : Fin consoleCnt, c ≠ 0 → BitVec.ofNat 8 c + 0x30 ≠ 0x0a ∧
      BitVec.ofNat 8 c + 0x30 ≠ 0x08 := by decide
  have here : cleared.console c = freshConsole c buf (cellAt c 0) := Function.update_self _ _ _
  have inside : Viewport.Contained consoleGeometry ⟨0, 0⟩ :=
    ⟨show 0 < regionLength by decide, show 80 * 0 + 2000 < regionLength + 80 by decide⟩
  have empty : cleared.HoldsAt c ⟨⟨0, 0⟩, fun k => s.vga (cellAddr c k)⟩ := by
    refine ⟨?_, inside, fun k _ => rfl⟩
    rw [here]
    exact viewed_fresh c buf (toNat_cellAt (by decide)) (by decide)
  obtain ⟨s₁, first, holds₁, view₁, only₁, console₁⟩ := empty.print_fresh (k := 0) (by decide) rfl here
    (plain c notFirst).1 (plain c notFirst).2
  obtain ⟨s₂, second, holds₂, view₂, only₂, console₂⟩ := holds₁.print_fresh (by decide) view₁
    (by rw [console₁, Function.update_self]) (show (0x23 : BitVec 8) ≠ 0x0a by decide) (by decide)
  obtain ⟨s₃, third, holds₃, -, only₃, console₃⟩ := holds₂.print_fresh (by decide) view₂
    (by rw [console₂, Function.update_self]) (show (0x20 : BitVec 8) ≠ 0x0a by decide) (by decide)
  refine ⟨s₃, ?_, ?_, fun addr off => ((only₁.trans only₂).trans only₃) addr off, fun d apart => ?_⟩
  · rw [unfolded]
    exact Traced.bind_eq_ok.mpr ⟨s₁, first, Traced.bind_eq_ok.mpr ⟨s₂, second, third⟩⟩
  · unfold Screen.startTerminal promptOf
    rw [if_neg later, if_neg later]
    exact holds₃
  · rw [console₃, console₂, console₁, Function.update_of_ne apart, Function.update_of_ne apart,
      Function.update_of_ne apart]
    exact Function.update_of_ne apart _ _

/-- The start of a region whose cells did not change. -/
theorem startTerminal_same (later : c.val ≠ 0) (cells : ∀ k < regionLength,
    s'.vga (cellAddr c k) = s.vga (cellAddr c k)) :
    (s'.startTerminal c).Same consoleGeometry (s.startTerminal c) := by
  unfold Screen.startTerminal
  rw [if_neg later, if_neg later]
  have same : Terminal.Same consoleGeometry ⟨⟨0, 0⟩, fun k => s'.vga (cellAddr c k)⟩
      ⟨⟨0, 0⟩, fun k => s.vga (cellAddr c k)⟩ := ⟨rfl, cells⟩
  exact same.presses _

/-- **`init_consoles` makes every region a terminal.** -/
theorem initConsoles_holds (s : Screen) (inherited : (s.position / 2).toNat < regionLength) :
    ∃ s₀, (initConsoles s).outcome = .ok s₀ ∧ s₀.Holds s.startTerminal ∧ SameOutside s s₀ := by
  let s₁ : Screen := { s.modify 0 fun con => freshConsole 0 con.input.buf (s.position / 2) with
    position := 0 }
  have zero : initConsole 0 s = pure s₁ := by
    unfold initConsole
    dsimp only
    rw [if_pos rfl]
    simp only [Screen.modify, Function.update_idem, Function.update_self]
    rfl
  obtain ⟨s₂, one, holds₁, only₁, others₁⟩ := initConsole_holds (c := 1) (by decide) s₁
  obtain ⟨s₃, two, holds₂, only₂, others₂⟩ := initConsole_holds (c := 2) (by decide) s₂
  have apart : ∀ {c d : Fin consoleCnt}, c ≠ d → ∀ k < regionLength, ∀ n < regionLength,
      cellAddr c k ≠ cellAddr d n := fun apart k inside n inside' same =>
    apart ((cellAddr_inj inside inside').mp same).1
  refine ⟨s₃, ?_, fun c => ?_, fun addr off => (only₂ addr (off 2)).trans (only₁ addr (off 1))⟩
  · rw [initConsoles, zero]
    exact Traced.bind_eq_ok.mpr ⟨s₁, rfl, Traced.bind_eq_ok.mpr ⟨s₂, one, two⟩⟩
  have three : ∀ c : Fin consoleCnt, c = 0 ∨ c = 1 ∨ c = 2 := by decide
  rcases three c with rfl | rfl | rfl
  · refine ⟨?_, ?_, fun k inside => ?_⟩
    · rw [others₂ 0 (by decide), others₁ 0 (by decide)]
      show (Function.update s.console 0 _ 0).Viewed 0 _
      rw [Function.update_self]
      exact viewed_fresh 0 _ (Nat.zero_add _).symm (inherited.trans (by decide))
    · exact ⟨inherited, show 80 * 0 + 2000 < regionLength + 80 by decide⟩
    · rw [only₂ _ (apart (by decide) k inside), only₁ _ (apart (by decide) k inside)]
      rfl
  · refine Screen.HoldsAt.elsewhere (c := 2) ?_ ?_ only₂ (by decide)
    · exact holds₁
    · rw [others₂ 1 (by decide)]
      exact holds₁.viewed
  · refine holds₂.same (startTerminal_same (by decide) fun k inside => ?_)
    exact only₁ _ (apart (by decide) k inside)

/-! ### What the consoles hold -/

/-- The keys that a run types on a console. -/
def keysOn (c : Fin consoleCnt) (ops : List ScreenOp) : List (Terminal.Key (BitVec 16)) :=
  ops.flatMap fun op => op.keys c

theorem initConsoles_runs (s : Screen) (inherited : (s.position / 2).toNat < regionLength)
    (ops : List ScreenOp) :
    ∃ s₀ s', (initConsoles s).outcome = .ok s₀ ∧ (runScreen ops s₀).outcome = .ok s' ∧
      s'.Holds (fun c => typeKeys (s.startTerminal c) (keysOn c ops)) ∧ SameOutside s s' := by
  obtain ⟨s₀, started, holds, outside⟩ := initConsoles_holds s inherited
  obtain ⟨s', returned, after, outside'⟩ := runScreen_holds holds ops
  exact ⟨s₀, s', started, returned, after, outside.trans outside'⟩

/-- **Every console is the terminal that its own calls leave.** After `init_consoles`, with the
inherited cursor in the first region, and any run of calls: the cursor, the window and the cells of a
console are those that the calls about it alone make of its region, whatever calls about the others
come between; and no cell outside the regions is written. -/
theorem consoles_are_terminals (s : Screen) (inherited : (s.position / 2).toNat < regionLength)
    (ops : List ScreenOp) :
    ∃ s₀ s', (initConsoles s).outcome = .ok s₀ ∧ (runScreen ops s₀).outcome = .ok s' ∧
      (∀ c, (s'.terminal c).Same consoleGeometry (typeKeys (s.startTerminal c) (keysOn c ops))) ∧
      SameOutside s s' := by
  obtain ⟨s₀, s', started, returned, holds, outside⟩ := initConsoles_runs s inherited ops
  exact ⟨s₀, s', started, returned, fun c => (holds c).terminal, outside⟩

/-- An `a` on the fifth line of an empty screen. -/
theorem consoles_are_terminals_fifth : ∃ s₀ s', (initConsoles (zeroedScreen 640)).outcome = .ok s₀ ∧
    (runScreen [.print 0 0x61, .print 1 0x62] s₀).outcome = .ok s' ∧ s'.vga (cellAddr 0 320) = 0x0f61 := by
  obtain ⟨s₀, s', started, returned, same, -⟩ :=
    consoles_are_terminals (zeroedScreen 640) (by decide) [.print 0 0x61, .print 1 0x62]
  refine ⟨s₀, s', started, returned, ((same 0).cells 320 (by decide)).trans ?_⟩
  decide +kernel

/-- A state after `init_consoles` and some calls. -/
def Screen.Reached (s : Screen) : Prop :=
  ∃ s₁ s₀ ops, (s₁.position / 2).toNat < regionLength ∧ (initConsoles s₁).outcome = .ok s₀ ∧
    (runScreen ops s₀).outcome = .ok s

theorem Screen.Reached.holds (reached : s.Reached) : ∃ term, s.Holds term := by
  obtain ⟨s₁, s₀, ops, inherited, started, returned⟩ := reached
  obtain ⟨s₀', s', started', returned', holds, -⟩ := initConsoles_runs s₁ inherited ops
  obtain rfl := Except.ok.inj (started.symm.trans started')
  obtain rfl := Except.ok.inj (returned.symm.trans returned')
  exact ⟨_, holds⟩

/-- A run from a state reached, by what it types on its terminals. -/
theorem Screen.Reached.run (reached : s.Reached) (ops : List ScreenOp) :
    ∃ s', (runScreen ops s).outcome = .ok s' ∧
      ∀ c, (s'.terminal c).Same consoleGeometry (typeKeys (s.terminal c) (keysOn c ops)) := by
  obtain ⟨term, holds⟩ := reached.holds
  obtain ⟨s', returned, after, -⟩ := runScreen_holds holds ops
  refine ⟨s', returned, fun c => (after c).terminal.trans ?_⟩
  exact (holds c).terminal.symm.presses _

/-- **Editing.** From any state reached, calls that type characters and backspaces on a console, and
scroll it, and anything on the others: its cells then hold the text that survives, blanks as far as the
text was longer, and what they held before everywhere else; the cursor is after the text. -/
theorem console_edited (reached : s.Reached) {ops : List ScreenOp} {text : List (BitVec 16)}
    {longest : ℕ} (edits : Terminal.Edits (keysOn c ops) text longest)
    (room : (s.terminal c).view.cursor + longest < regionLength) :
    ∃ s', (runScreen ops s).outcome = .ok s' ∧
      (s'.terminal c).view.cursor = (s.terminal c).view.cursor + text.length ∧
      (∀ i, (inside : i < text.length) →
        s'.vga (cellAddr c ((s.terminal c).view.cursor + i)) = text[i]) ∧
      (∀ i, text.length ≤ i → i < longest →
        s'.vga (cellAddr c ((s.terminal c).view.cursor + i)) = blankCell) ∧
      ∀ k < regionLength, k < (s.terminal c).view.cursor ∨ (s.terminal c).view.cursor + longest ≤ k →
        s'.vga (cellAddr c k) = s.vga (cellAddr c k) := by
  obtain ⟨s', returned, same⟩ := reached.run ops
  obtain ⟨view, cells⟩ := same c
  obtain ⟨cursor, left⟩ := edits.presses (b := blankCell) (g := consoleGeometry) (s.terminal c) room
  have few := edits.length_le
  have cell : ∀ k < regionLength, s'.vga (cellAddr c k) = _ := fun k inside =>
    (cells k inside).trans (congrFun left k)
  refine ⟨s', returned, by rw [view, cursor], fun i inside => ?_, fun i later before => ?_,
    fun k inside outside => ?_⟩
  · rw [cell _ (by omega), Terminal.written_at inside]
  · rw [cell _ (by omega), Terminal.written_of_ge (by omega),
      Terminal.written_at (by rw [List.length_replicate]; exact before), List.getElem_replicate]
  · rw [cell k inside]
    rcases outside with before | after
    · rw [Terminal.written_of_lt before, Terminal.written_of_lt before]
      rfl
    · rw [Terminal.written_of_ge (by omega),
        Terminal.written_of_ge (by rw [List.length_replicate]; exact after)]
      rfl

/-- **Texts.** From any state reached, calls that print characters and newlines on a console, and scroll
it, and anything on the others, with room left: every character is in the cell where the cursor was
when it was printed, and every other cell of the region holds what it held. -/
theorem console_text (reached : s.Reached) {ops : List ScreenOp}
    (fits : Terminal.Fits consoleGeometry (s.terminal c).view.cursor (keysOn c ops)) :
    ∃ s', (runScreen ops s).outcome = .ok s' ∧
      (∀ pre a post, keysOn c ops = pre ++ .char a :: post →
        s'.vga (cellAddr c (typeKeys (s.terminal c) pre).view.cursor) = a) ∧
      ∀ k < regionLength, (∀ pre a post, keysOn c ops = pre ++ .char a :: post →
          k ≠ (typeKeys (s.terminal c) pre).view.cursor) →
        s'.vga (cellAddr c k) = s.vga (cellAddr c k) := by
  obtain ⟨s', returned, same⟩ := reached.run ops
  refine ⟨s', returned, fun pre a post typed => ?_, fun k inside elsewhere => ?_⟩
  · rw [typed] at fits
    have near := (fits.left.cursor_le (b := blankCell)).2
    have room := fits.left.room
    refine ((same c).cells _ (near.trans_lt room)).trans ?_
    rw [typed]
    exact fits.stays
  · exact ((same c).cells k inside).trans (fits.unchanged elsewhere)

/-- An empty screen after `init_consoles`. -/
theorem zeroedScreen_reached : ∃ s₀ : Screen, s₀.Reached ∧ (s₀.terminal 1).view.cursor = 3 := by
  obtain ⟨s₀, started, holds, -⟩ := initConsoles_holds (zeroedScreen 640) (by decide)
  refine ⟨s₀, ⟨zeroedScreen 640, s₀, [], by decide, started, rfl⟩, ?_⟩
  rw [(holds 1).terminal.view]
  decide +kernel

/-- `ls`, of which the second character is taken back, around another console's text. -/
theorem console_edited_ls : ∃ s₀ : Screen, s₀.Reached ∧ ∃ s',
    (runScreen [.write 1 [0x6c, 0x73], .write 2 [0x78], .print 1 0x08] s₀).outcome = .ok s' ∧
      s'.vga (cellAddr 1 3) = 0x0f6c ∧ s'.vga (cellAddr 1 4) = blankCell := by
  obtain ⟨s₀, reached, cursor⟩ := zeroedScreen_reached
  have edits : Terminal.Edits (keysOn 1 [.write 1 [0x6c, 0x73], .write 2 [0x78], .print 1 0x08])
      [whiteCell 0x6c] 2 := .erase (.char _ (.char _ .nil))
  obtain ⟨s', returned, -, text, blanks, -⟩ := console_edited reached edits (by rw [cursor]; decide)
  rw [cursor] at text blanks
  exact ⟨s₀, reached, s', returned, text 0 (by decide), blanks 1 (by decide) (by decide)⟩

/-- `a`, and `b` on the next line. -/
theorem console_text_ab : ∃ s₀ : Screen, s₀.Reached ∧ ∃ s',
    (runScreen [.write 1 [0x61, 0x0a], .scroll 1 .down, .print 1 0x62] s₀).outcome = .ok s' ∧
      s'.vga (cellAddr 1 3) = 0x0f61 := by
  obtain ⟨s₀, reached, cursor⟩ := zeroedScreen_reached
  have room : 3 + (1 + (80 + (0 + (1 + 0)))) < 5461 := by decide
  have fits : Terminal.Fits consoleGeometry (s₀.terminal 1).view.cursor
      (keysOn 1 [.write 1 [0x61, 0x0a], .scroll 1 .down, .print 1 0x62]) := by
    rw [cursor]
    exact ⟨by simp [keysOn, ScreenOp.keys, keyOf, Direction.key, Terminal.Key.Plain], room⟩
  obtain ⟨s', returned, text, -⟩ := console_text reached fits
  have first := text [] _ _ rfl
  rw [show (typeKeys (s₀.terminal 1) []).view.cursor = 3 from cursor] at first
  exact ⟨s₀, reached, s', returned, first⟩

end WalOS
