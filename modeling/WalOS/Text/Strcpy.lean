/-
**Copies of strings in one memory** (`memcpy`, `strcpy` and `strcmp` of `string.c`).

Source and destination lie in one memory, which the copy changes as it reads it. `strcpy` copies as many
characters as `strlen` counts: the NUL is not among them, and the destination ends where it ended in a NUL
before.

* `strcmp_eq_zero_iff` — `strcmp` gives 0 exactly for equal strings.
* `strcpyWithin_eq` — apart from its source, a copy stores the characters of the source.
* `strcpy_equal_iff` — **the copy is an equal string exactly if a NUL stands behind it already**.
-/

import WalOS.Text.Cstr

namespace WalOS.Text

open Bytes

/-! ### The code -/

/-- `memcpy`, in one memory. -/
def memcpyWithin (m : Mem) (dest src cnt : ℕ) : Mem := copyBytes m dest src cnt

/-- `strcpy`, in one memory. -/
def strcpyWithin (limit : ℕ) (m : Mem) (dest src : ℕ) : Option Mem :=
  (strlen m limit src).map (memcpyWithin m dest src)

/-- `strcmp`, for a number of characters at most. -/
def strcmp (m : Mem) : ℕ → ℕ → ℕ → Option (BitVec 32)
  | 0, _, _ => none
  | limit + 1, s1, s2 =>
      if m s1 ≠ 0 ∧ m s1 = m s2 then strcmp m limit (s1 + 1) (s2 + 1)
      else some ((m s1).signExtend 32 - (m s2).signExtend 32)

variable {m m' : Mem} {d s s1 s2 limit length : ℕ} {text text' : Chars}

/-! ### Comparing -/

/-- The difference of characters is 0 only for equal ones. -/
theorem signExtend_sub_eq_zero (c c' : BitVec 8) :
    c.signExtend 32 - c'.signExtend 32 = 0 ↔ c = c' := by
  constructor
  · intro zero
    have extended := (BitVec.sub_eq_iff_eq_add.mp zero).trans (BitVec.zero_add _)
    have same := congrArg BitVec.toInt extended
    rw [BitVec.toInt_signExtend_of_le (by decide), BitVec.toInt_signExtend_of_le (by decide)] at same
    exact BitVec.eq_of_toInt_eq same
  · rintro rfl
    exact BitVec.sub_self _

/-- Where `strcmp` stops it gives the difference. -/
theorem strcmp_stops (stops : m s1 = 0 ∨ m s1 ≠ m s2) :
    strcmp m (limit + 1) s1 s2 = some 0 ↔ m s1 = m s2 := by
  rw [strcmp, if_neg (by tauto), Option.some_inj]
  exact signExtend_sub_eq_zero _ _

/-- **`strcmp` gives 0** exactly for equal strings. -/
theorem strcmp_eq_zero_iff (string : StringAt m s1 text) (string' : StringAt m s2 text')
    (room : text.length < limit) : strcmp m limit s1 s2 = some 0 ↔ text = text' := by
  refine string.scan (motive := fun limit s1 text => ∀ s2 text', StringAt m s2 text' →
    (strcmp m limit s1 s2 = some 0 ↔ text = text')) room (fun limit s1 ends s2 text' string' => ?_)
    (fun limit s1 text some ih s2 text' string' => ?_) s2 text' string'
  · rw [strcmp_stops (.inl ends), ends]
    cases text' with
    | nil => exact iff_of_true string'.nul.symm rfl
    | cons c' text' =>
      obtain ⟨rfl, some', -⟩ := stringAt_cons.mp string'
      exact iff_of_false some'.symm (List.cons_ne_nil _ _).symm
  · cases text' with
    | nil =>
      have ends : m s2 = 0 := string'.nul
      rw [strcmp_stops (.inr (ends ▸ some)), ends]
      exact iff_of_false some (List.cons_ne_nil _ _)
    | cons c' text' =>
      obtain ⟨rfl, -, rest'⟩ := stringAt_cons.mp string'
      by_cases same : m s1 = m s2
      · rw [strcmp, if_pos ⟨some, same⟩, ih (s2 + 1) text' rest', same, List.cons_inj_right]
      · rw [strcmp_stops (.inr same)]
        exact iff_of_false same fun equal => same (List.head_eq_of_cons_eq equal)

/-! ### Copying -/

/-- Apart from its source, a copy stores what the source holds. -/
theorem memcpyWithin_eq (chars : ∀ k (inside : k < text.length), m (s + k) = text[k])
    (apart : d + text.length ≤ s ∨ s + text.length ≤ d) :
    memcpyWithin m d s text.length = storeBytes m d text := by
  unfold memcpyWithin
  induction text generalizing m d s with
  | nil => rfl
  | cons c text ih =>
    rw [List.length_cons] at apart
    have first : m s = c := chars 0 (Nat.succ_pos _)
    rw [List.length_cons, copyBytes, storeBytes, first]
    refine ih (fun k inside => ?_) (by omega)
    rw [Function.update_of_ne (by omega), show s + 1 + k = s + (k + 1) by omega,
      chars (k + 1) (Nat.succ_lt_succ inside)]
    rfl

/-- **A copy in one memory** is a copy between two. -/
theorem strcpyWithin_eq (string : StringAt m s text) (room : text.length < limit)
    (apart : d + text.length < s ∨ s + text.length < d) :
    strcpyWithin limit m d s = strcpy limit m d m s := by
  rw [strcpy_eq string room, strcpyWithin, strlen_eq string room, Option.map_some,
    memcpyWithin_eq string.chars (by omega)]

/-- **An equal string at the destination**, and nothing else changed. -/
structure EqualString (limit : ℕ) (m m' : Mem) (d s length : ℕ) : Prop where
  terminated : ∃ text, StringAt m' d text
  counted : strlen m' limit d = strlen m limit s
  equal : strcmp m' limit d s = some 0
  beyond : ∀ x, x < d ∨ d + length < x → m' x = m x

/-- A NUL behind the characters makes them a string equal to the source. -/
theorem equalString_of_nul (string : StringAt m s text) (room : text.length < limit)
    (apart : d + text.length < s ∨ s + text.length < d) (nul : m (d + text.length) = 0) :
    EqualString limit m (storeBytes m d text) d s text.length := by
  have copy : StringAt (storeBytes m d text) d text := by
    refine ⟨fun k inside => storeBytes_at inside, ?_, string.whole⟩
    rw [storeBytes_off (.inr (Nat.le_refl _)), nul]
  have source : StringAt (storeBytes m d text) s text := by
    refine ⟨fun k inside => ?_, ?_, string.whole⟩
    · rw [storeBytes_off (by omega), string.chars k inside]
    · rw [storeBytes_off (by omega), string.nul]
  refine ⟨⟨text, copy⟩, ?_, (strcmp_eq_zero_iff copy source room).mpr rfl, fun x off => ?_⟩
  · rw [strlen_eq copy room, strlen_eq string room]
  · exact storeBytes_off (by omega)

/-- **The copy is an equal string** exactly if a NUL stands behind it already. -/
theorem strcpy_equal_iff (string : StringAt m s text) (room : text.length < limit)
    (apart : d + text.length < s ∨ s + text.length < d) :
    (∃ m', strcpyWithin limit m d s = some m' ∧ EqualString limit m m' d s text.length) ↔
      m (d + text.length) = 0 := by
  have stored : strcpyWithin limit m d s = some (storeBytes m d text) := by
    rw [strcpyWithin_eq string room apart, strcpy_eq string room]
  constructor
  · rintro ⟨m', copied, equal⟩
    obtain rfl := Option.some.inj (stored.symm.trans copied)
    have counted := equal.counted.trans (strlen_eq string room)
    obtain ⟨-, text', length, string'⟩ := exists_stringAt counted
    have nul := string'.nul
    rwa [length, storeBytes_off (.inr (Nat.le_refl _))] at nul
  · intro nul
    exact ⟨_, stored, equalString_of_nul string room apart nul⟩

/-- `ab` copied to a cleared destination. -/
theorem strcpy_equal_cleared : ∃ m', strcpyWithin 3 (storeBytes (fun _ => 0) 10 [97, 98]) 0 10 = some m' ∧
    EqualString 3 (storeBytes (fun _ => 0) 10 [97, 98]) m' 0 10 2 :=
  (strcpy_equal_iff (stringAt_zeroed (by decide)) (by decide) (by decide)).mpr (by decide)

/-- A memory of ones, with `ab` at 10. -/
def unclearedMem : Mem := storeBytes (fun _ => 1) 10 [97, 98, 0]

/-- `ab` copied to a destination of ones: a string of 12 characters. -/
theorem strcpy_uncleared : StringAt unclearedMem 10 [97, 98] ∧
    ((strcpyWithin 20 unclearedMem 0 10).bind fun m => strlen m 20 0) = some 12 ∧
    ¬ ∃ m, strcpyWithin 20 unclearedMem 0 10 = some m ∧ EqualString 20 unclearedMem m 0 10 2 := by
  have twelve : ((strcpyWithin 20 unclearedMem 0 10).bind fun m => strlen m 20 0) = some 12 := by decide
  have source : StringAt (storeBytes (fun _ => 1) 10 ([97, 98] ++ [0])) 10 [97, 98] :=
    stringAt_storeBytes (by decide)
  refine ⟨source, twelve, ?_⟩
  rintro ⟨m, copied, equal⟩
  rw [copied, Option.bind_some, equal.counted] at twelve
  exact absurd twelve (by decide)

end WalOS.Text
