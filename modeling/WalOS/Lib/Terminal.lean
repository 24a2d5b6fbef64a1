/-
**A terminal over a buffer of cells.**

A `Terminal` is a view of `Lib/Viewport.lean` with the cells under it. A key writes the cell at the
cursor, goes to the next line, blanks the cell before the cursor, or moves the window; where the buffer
has no room it does nothing.

* `Same` — terminals alike in the buffer; `Same.presses`: they stay so.
* `Edits.presses` — characters and erasures leave the text that survives them, and blanks where more
  was.
* `Fits.stays`, `Fits.unchanged` — of a text that fits, every character stays where it was typed, and
  no other cell changes.
-/

import WalOS.Lib.Viewport
import Mathlib.Logic.Function.Basic
import Mathlib.Data.List.Basic
import Mathlib.Order.MinMax

/-- A view of a buffer, and what the buffer holds. -/
structure Terminal (α : Type) where
  view : Viewport
  cells : ℕ → α

namespace Terminal

variable {α : Type}

/-- What can be typed. -/
inductive Key (α : Type) where
  | char (a : α)
  | newline
  | erase
  | up
  | down

/-- The cells with a text from `start` on. -/
def written (cells : ℕ → α) (start : ℕ) (text : List α) : ℕ → α := fun k =>
  if start ≤ k then text[k - start]?.getD (cells k) else cells k

variable (g : Geometry) (b : α)

/-- **One key.** -/
def press (t : Terminal α) : Key α → Terminal α
  | .char a =>
    { view := (t.view.forward g).follow g
      cells := if t.view.cursor + 1 < g.length then Function.update t.cells t.view.cursor a
        else t.cells }
  | .newline => { t with view := (t.view.newline g).follow g }
  | .erase =>
    { view := t.view.back.follow g
      cells := if 0 < t.view.cursor then Function.update t.cells (t.view.cursor - 1) b
        else t.cells }
  | .up => { t with view := t.view.scrollUp }
  | .down => { t with view := t.view.scrollDown g }

/-- The keys one after the other. -/
def presses (t : Terminal α) (keys : List (Key α)) : Terminal α := keys.foldl (press g b) t

/-- The terminals are alike in the buffer. -/
structure Same (t u : Terminal α) : Prop where
  view : t.view = u.view
  cells : ∀ k < g.length, t.cells k = u.cells k

variable {g b} {t u : Terminal α} {cells : ℕ → α} {keys : List (Key α)} {text : List α} {a : α}
  {start longest k : ℕ}

theorem presses_append (t : Terminal α) (first second : List (Key α)) :
    t.presses g b (first ++ second) = (t.presses g b first).presses g b second :=
  List.foldl_append

theorem presses_concat (t : Terminal α) (keys : List (Key α)) (key : Key α) :
    t.presses g b (keys ++ [key]) = (t.presses g b keys).press g b key :=
  presses_append t keys [key]

/-! ### Alike in the buffer -/

theorem Same.refl (t : Terminal α) : t.Same g t := ⟨rfl, fun _ _ => rfl⟩

theorem Same.symm (same : t.Same g u) : u.Same g t :=
  ⟨same.view.symm, fun k inside => (same.cells k inside).symm⟩

theorem Same.trans {w : Terminal α} (same : t.Same g u) (same' : u.Same g w) : t.Same g w :=
  ⟨same.view.trans same'.view, fun k inside => (same.cells k inside).trans (same'.cells k inside)⟩

theorem Same.update (same : t.Same g u) (n : ℕ) (a : α) (inside : k < g.length) :
    Function.update t.cells n a k = Function.update u.cells n a k := by
  by_cases here : k = n
  · rw [here, Function.update_self, Function.update_self]
  · rw [Function.update_of_ne here, Function.update_of_ne here, same.cells k inside]

theorem Same.press (same : t.Same g u) (key : Key α) :
    (t.press g b key).Same g (u.press g b key) := by
  obtain ⟨view, cells⟩ := same
  cases key with
  | char a =>
    refine ⟨by rw [Terminal.press, Terminal.press, view], fun k inside => ?_⟩
    simp only [Terminal.press, view]
    split
    · exact Same.update ⟨view, cells⟩ _ _ inside
    · exact cells k inside
  | erase =>
    refine ⟨by rw [Terminal.press, Terminal.press, view], fun k inside => ?_⟩
    simp only [Terminal.press, view]
    split
    · exact Same.update ⟨view, cells⟩ _ _ inside
    · exact cells k inside
  | _ => exact ⟨by simp only [Terminal.press, view], cells⟩

theorem Same.presses (same : t.Same g u) (keys : List (Key α)) :
    (t.presses g b keys).Same g (u.presses g b keys) := by
  induction keys generalizing t u with
  | nil => exact same
  | cons key keys ih => exact ih (same.press key)

/-! ### The cursor -/

theorem press_char_room (room : t.view.cursor + 1 < g.length) :
    (t.press g b (.char a)).view.cursor = t.view.cursor + 1 ∧
      (t.press g b (.char a)).cells = Function.update t.cells t.view.cursor a := by
  refine ⟨?_, if_pos room⟩
  show (t.view.forward g).cursor = _
  rw [Viewport.forward, if_pos room]

theorem press_newline_room (room : t.view.cursor + g.width < g.length) :
    (t.press g b .newline).view.cursor = g.width * (t.view.cursor / g.width + 1) := by
  show (t.view.newline g).cursor = _
  rw [Viewport.newline, if_pos room]

theorem press_erase_later (later : 0 < t.view.cursor) :
    (t.press g b .erase).view.cursor = t.view.cursor - 1 ∧
      (t.press g b .erase).cells = Function.update t.cells (t.view.cursor - 1) b := by
  refine ⟨?_, if_pos later⟩
  show t.view.back.cursor = _
  rw [Viewport.back, if_pos later]

theorem press_up (t : Terminal α) : (t.press g b .up).view.cursor = t.view.cursor ∧
    (t.press g b .up).cells = t.cells := by
  refine ⟨?_, rfl⟩
  show t.view.scrollUp.cursor = _
  unfold Viewport.scrollUp
  split <;> rfl

theorem press_down (t : Terminal α) : (t.press g b .down).view.cursor = t.view.cursor ∧
    (t.press g b .down).cells = t.cells := by
  refine ⟨?_, rfl⟩
  show (t.view.scrollDown g).cursor = _
  unfold Viewport.scrollDown
  split <;> rfl

/-! ### Written cells -/

theorem written_nil (cells : ℕ → α) (start : ℕ) : written cells start [] = cells := by
  funext k
  simp [written]

theorem written_of_lt (before : k < start) : written cells start text k = cells k :=
  if_neg (Nat.not_le.mpr before)

theorem written_at {i : ℕ} (inside : i < text.length) : written cells start text (start + i) = text[i] := by
  simp [written, inside]

theorem written_of_ge (after : start + text.length ≤ k) : written cells start text k = cells k := by
  unfold written
  rw [List.getElem?_eq_none (by omega), Option.getD_none, ite_self]

/-- One character more. -/
theorem written_concat (cells : ℕ → α) (start : ℕ) (text : List α) (a : α) :
    written cells start (text ++ [a]) =
      Function.update (written cells start text) (start + text.length) a := by
  funext k
  by_cases here : k = start + text.length
  · subst here
    simp [written]
  · rw [Function.update_of_ne here]
    unfold written
    by_cases later : start ≤ k
    · rw [if_pos later, if_pos later]
      by_cases inside : k - start < text.length
      · rw [List.getElem?_append_left inside]
      · rw [List.getElem?_eq_none (by simp; omega), List.getElem?_eq_none (by omega)]
    · rw [if_neg later, if_neg later]

/-! ### Editing -/

/-- **Characters and erasures** that leave a text, the longest on the way having `longest` characters;
nothing is erased from before it, and the window may move. -/
inductive Edits : List (Key α) → List α → ℕ → Prop
  | nil : Edits [] [] 0
  | char {keys : List (Key α)} {text : List α} {longest : ℕ} (a : α) :
      Edits keys text longest → Edits (keys ++ [.char a]) (text ++ [a]) (max longest (text.length + 1))
  | erase {keys : List (Key α)} {text : List α} {a : α} {longest : ℕ} :
      Edits keys (text ++ [a]) longest → Edits (keys ++ [.erase]) text longest
  | up {keys : List (Key α)} {text : List α} {longest : ℕ} :
      Edits keys text longest → Edits (keys ++ [.up]) text longest
  | down {keys : List (Key α)} {text : List α} {longest : ℕ} :
      Edits keys text longest → Edits (keys ++ [.down]) text longest

theorem Edits.length_le (edits : Edits keys text longest) : text.length ≤ longest := by
  induction edits with
  | nil => exact le_rfl
  | char a _ ih =>
    rw [List.length_append]
    exact le_max_right _ _
  | erase _ ih =>
    rw [List.length_append] at ih
    exact (Nat.le_add_right _ _).trans ih
  | up _ ih => exact ih
  | down _ ih => exact ih

/-- **What editing leaves**, by induction on the keys. -/
theorem Edits.presses (edits : Edits keys text longest) (t : Terminal α)
    (room : t.view.cursor + longest < g.length) :
    (t.presses g b keys).view.cursor = t.view.cursor + text.length ∧
      (t.presses g b keys).cells =
        written (written t.cells t.view.cursor (List.replicate longest b)) t.view.cursor text := by
  induction edits with
  | nil => exact ⟨rfl, by rw [List.replicate_zero, written_nil, written_nil]; rfl⟩
  | @char keys text longest a before ih =>
    obtain ⟨cursor, cells⟩ := ih ((Nat.add_le_add_left (le_max_left _ _) _).trans_lt room)
    have last : t.view.cursor + (text.length + 1) < g.length :=
      (Nat.add_le_add_left (le_max_right _ _) _).trans_lt room
    obtain ⟨cursor', cells'⟩ := press_char_room (g := g) (b := b) (a := a)
      (t := t.presses g b keys) (by rw [cursor]; exact last)
    rw [presses_concat, cursor', cells', cursor, cells]
    refine ⟨by rw [List.length_append]; rfl, ?_⟩
    -- the place of the new character is the only one that more blanks can change
    rw [written_concat]
    funext k
    by_cases here : k = t.view.cursor + text.length
    · rw [here, Function.update_self, Function.update_self]
    · rw [Function.update_of_ne here, Function.update_of_ne here]
      have few := before.length_le
      unfold written
      split
      · rw [List.getElem?_replicate, List.getElem?_replicate]
        by_cases inside : k - t.view.cursor < text.length
        · rw [List.getElem?_eq_getElem inside]
          rfl
        · rw [List.getElem?_eq_none (by omega)]
          have both : k - t.view.cursor < longest ↔
              k - t.view.cursor < max longest (text.length + 1) := by
            rw [lt_max_iff]
            omega
          simp only [both]
      · rfl
  | @erase keys text a longest before ih =>
    obtain ⟨cursor, cells⟩ := ih room
    have few := before.length_le
    rw [List.length_append, List.length_singleton] at cursor few
    obtain ⟨cursor', cells'⟩ := press_erase_later (g := g) (b := b)
      (t := t.presses g b keys) (by rw [cursor]; omega)
    have previous : t.view.cursor + (text.length + 1) - 1 = t.view.cursor + text.length := by omega
    rw [presses_concat, cursor', cells', cursor, cells, previous]
    refine ⟨rfl, ?_⟩
    rw [written_concat, Function.update_idem]
    funext k
    by_cases here : k = t.view.cursor + text.length
    · subst here
      rw [Function.update_self, written_of_ge le_rfl, written_at (by simp; omega),
        List.getElem_replicate]
    · rw [Function.update_of_ne here]
  | up _ ih =>
    obtain ⟨cursor, cells⟩ := ih room
    obtain ⟨cursor', cells'⟩ := press_up (g := g) (b := b) (t.presses g b _)
    rw [presses_concat, cursor', cells']
    exact ⟨cursor, cells⟩
  | down _ ih =>
    obtain ⟨cursor, cells⟩ := ih room
    obtain ⟨cursor', cells'⟩ := press_down (g := g) (b := b) (t.presses g b _)
    rw [presses_concat, cursor', cells']
    exact ⟨cursor, cells⟩

/-! ### Texts -/

/-- The cells that a key takes at most. -/
def Key.takes (g : Geometry) : Key α → ℕ
  | .char _ => 1
  | .newline => g.width
  | _ => 0

def taken (g : Geometry) : List (Key α) → ℕ
  | [] => 0
  | key :: keys => key.takes g + taken g keys

/-- Nothing is erased. -/
def Key.Plain : Key α → Prop
  | .erase => False
  | _ => True

/-- **A text that fits** after a cursor, wherever in its line that is; the window may move. -/
structure Fits (g : Geometry) (cursor : ℕ) (keys : List (Key α)) : Prop where
  plain : ∀ key ∈ keys, key.Plain
  room : cursor + taken g keys < g.length

theorem taken_append (first second : List (Key α)) :
    taken g (first ++ second) = taken g first + taken g second := by
  induction first with
  | nil => exact (Nat.zero_add _).symm
  | cons key first ih => rw [List.cons_append, taken, ih, taken, Nat.add_assoc]

theorem Fits.left {cursor : ℕ} {first second : List (Key α)} (fits : Fits g cursor (first ++ second)) :
    Fits g cursor first := by
  have room := fits.room
  rw [taken_append] at room
  exact ⟨fun key member => fits.plain key (List.mem_append_left _ member), by omega⟩

/-- A key of a text moves the cursor no further than it takes, and writes at most the cell at it. -/
theorem press_plain {key : Key α} (plain : key.Plain) (room : t.view.cursor + key.takes g < g.length) :
    t.view.cursor ≤ (t.press g b key).view.cursor ∧
      (t.press g b key).view.cursor ≤ t.view.cursor + key.takes g ∧
      ∀ k, (∀ a, key = .char a → k ≠ t.view.cursor) → (t.press g b key).cells k = t.cells k := by
  cases key with
  | char a =>
    obtain ⟨cursor, cells⟩ := press_char_room (b := b) (a := a) (t := t) room
    rw [cursor, cells]
    exact ⟨Nat.le_succ _, le_rfl, fun k elsewhere => Function.update_of_ne (elsewhere a rfl) _ _⟩
  | newline =>
    rw [press_newline_room room]
    refine ⟨?_, ?_, fun _ _ => rfl⟩
    · rw [Nat.mul_comm]
      exact (Nat.lt_mul_of_div_lt (Nat.lt_succ_self _) g.width_pos).le
    · rw [Nat.mul_add_one]
      exact Nat.add_le_add_right (Nat.mul_div_le _ _) _
  | erase => exact plain.elim
  | up =>
    obtain ⟨cursor, cells⟩ := press_up (g := g) (b := b) t
    rw [cursor, cells]
    exact ⟨le_rfl, le_rfl, fun _ _ => rfl⟩
  | down =>
    obtain ⟨cursor, cells⟩ := press_down (g := g) (b := b) t
    rw [cursor, cells]
    exact ⟨le_rfl, le_rfl, fun _ _ => rfl⟩

theorem Fits.first {key : Key α} (fits : Fits g t.view.cursor (key :: keys)) :
    t.view.cursor ≤ (t.press g b key).view.cursor ∧
      (t.press g b key).view.cursor ≤ t.view.cursor + key.takes g ∧
      ∀ k, (∀ a, key = .char a → k ≠ t.view.cursor) → (t.press g b key).cells k = t.cells k := by
  have room := fits.room
  rw [taken] at room
  exact press_plain (fits.plain key (List.mem_cons_self ..)) (by omega)

theorem Fits.tail {key : Key α} (fits : Fits g t.view.cursor (key :: keys)) :
    Fits g (t.press g b key).view.cursor keys := by
  have room := fits.room
  have near := (fits.first (b := b)).2.1
  rw [taken] at room
  exact ⟨fun key member => fits.plain key (List.mem_cons_of_mem _ member), by omega⟩

/-- What is not typed on stays. -/
theorem Fits.unchanged (fits : Fits g t.view.cursor keys)
    (elsewhere : ∀ pre a post, keys = pre ++ .char a :: post →
      k ≠ (t.presses g b pre).view.cursor) :
    (t.presses g b keys).cells k = t.cells k := by
  induction keys generalizing t with
  | nil => rfl
  | cons key keys ih =>
    obtain ⟨_, _, cells⟩ := fits.first (b := b)
    have later := ih (t := t.press g b key) fits.tail fun pre a post same =>
      elsewhere (key :: pre) a post (by rw [same, List.cons_append])
    refine later.trans (cells k fun a same => ?_)
    exact elsewhere [] a keys (by rw [same, List.nil_append])

/-- The cursor never goes back. -/
theorem Fits.cursor_le (fits : Fits g t.view.cursor keys) :
    t.view.cursor ≤ (t.presses g b keys).view.cursor ∧
      (t.presses g b keys).view.cursor ≤ t.view.cursor + taken g keys := by
  induction keys generalizing t with
  | nil => exact ⟨le_rfl, Nat.le_add_right _ _⟩
  | cons key keys ih =>
    obtain ⟨before, near, _⟩ := fits.first (b := b)
    obtain ⟨later, close⟩ := ih (t := t.press g b key) fits.tail
    rw [taken]
    exact ⟨before.trans later, close.trans (by omega)⟩

theorem Fits.right {first second : List (Key α)} (fits : Fits g t.view.cursor (first ++ second)) :
    Fits g (t.presses g b first).view.cursor second := by
  have room := fits.room
  have near := (fits.left.cursor_le (b := b)).2
  rw [taken_append] at room
  exact ⟨fun key member => fits.plain key (List.mem_append_right _ member), by omega⟩

/-- **Every character stays where it was typed.** -/
theorem Fits.stays {pre post : List (Key α)} (fits : Fits g t.view.cursor (pre ++ .char a :: post)) :
    (t.presses g b (pre ++ .char a :: post)).cells (t.presses g b pre).view.cursor = a := by
  have after := fits.right (b := b)
  have later := after.tail (b := b)
  have room := after.room
  rw [taken, Key.takes] at room
  obtain ⟨cursor, cells⟩ := press_char_room (g := g) (b := b) (a := a)
    (t := t.presses g b pre) (by omega)
  rw [presses_append]
  show (((t.presses g b pre).press g b (.char a)).presses g b post).cells _ = a
  rw [later.unchanged fun pre' a' post' same => ?_, cells, Function.update_self]
  have forth := (same ▸ later).left.cursor_le (b := b) |>.1
  rw [cursor] at forth
  exact Nat.ne_of_lt forth

end Terminal
