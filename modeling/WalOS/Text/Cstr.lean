/-
**Strings in memory** (`string.c`).

A string lies at an address and ends in a NUL. `strlen` is given the number of characters that it looks at
at most; source and destination of a copy are memories apart from each other.

* `StringAt m p text` — the string at `p` is `text`.
* `strlen_eq`, `exists_stringAt` — `strlen` finds the NUL.
* `strcpy_eq` — **`strcpy` stores the characters, and no NUL**.
-/

import Mathlib.Data.List.Basic
import WalOS.Lib.Bytes

namespace WalOS.Text

open Bytes

abbrev Chars := List (BitVec 8)

/-! ### The code -/

def strlen (m : Mem) : ℕ → ℕ → Option ℕ
  | 0, _ => none
  | limit + 1, src => if m src = 0 then some 0 else (strlen m limit (src + 1)).map (· + 1)

def memcpy (dest : Mem) (d : ℕ) (src : Mem) (s : ℕ) : ℕ → Mem
  | 0 => dest
  | cnt + 1 => memcpy (Function.update dest d (src s)) (d + 1) src (s + 1) cnt

def strcpy (limit : ℕ) (dest : Mem) (d : ℕ) (src : Mem) (s : ℕ) : Option Mem :=
  (strlen src limit s).map (memcpy dest d src s)

/-! ### Strings -/

/-- **The string at an address.** -/
structure StringAt (m : Mem) (p : ℕ) (text : Chars) : Prop where
  chars : ∀ k (inside : k < text.length), m (p + k) = text[k]
  nul : m (p + text.length) = 0
  whole : 0 ∉ text

/-- The characters at an address, up to a NUL. -/
def charsAt (m : Mem) : ℕ → ℕ → Chars
  | 0, _ => []
  | limit + 1, p => if m p = 0 then [] else m p :: charsAt m limit (p + 1)

variable {m dest src : Mem} {p d s limit n : ℕ} {text : Chars} {c : BitVec 8}

theorem StringAt.nil (nul : m p = 0) : StringAt m p [] :=
  ⟨fun _ inside => absurd inside (Nat.not_lt_zero _), nul, List.not_mem_nil⟩

/-- The first character, and the string behind it. -/
theorem stringAt_cons : StringAt m p (c :: text) ↔ m p = c ∧ c ≠ 0 ∧ StringAt m (p + 1) text := by
  have next : ∀ k, p + (k + 1) = p + 1 + k := fun k => by omega
  constructor
  · rintro ⟨chars, nul, whole⟩
    have ⟨first, rest⟩ := not_or.mp (mt List.mem_cons.mpr whole)
    refine ⟨chars 0 (Nat.succ_pos _), Ne.symm first, fun k inside => ?_, ?_, rest⟩
    · rw [← next, chars (k + 1) (Nat.succ_lt_succ inside)]
      rfl
    · rw [← next]
      exact nul
  · rintro ⟨here, some, chars, nul, whole⟩
    refine ⟨fun k inside => ?_, ?_, ?_⟩
    · cases k with
      | zero => exact here
      | succ k =>
        rw [next, chars k (Nat.lt_of_succ_lt_succ inside)]
        rfl
    · rw [List.length_cons, next]
      exact nul
    · exact fun member => (List.mem_cons.mp member).elim (Ne.symm some) whole

/-- **Scanning a string**: what holds at its NUL, and before a character if it holds behind it. -/
theorem StringAt.scan {motive : ℕ → ℕ → Chars → Prop} (string : StringAt m p text)
    (room : text.length < limit) (stop : ∀ limit p, m p = 0 → motive (limit + 1) p [])
    (next : ∀ limit p text, m p ≠ 0 → motive limit (p + 1) text → motive (limit + 1) p (m p :: text)) :
    motive limit p text := by
  obtain ⟨limit, rfl⟩ := Nat.exists_eq_add_one_of_ne_zero (Nat.ne_zero_of_lt room)
  induction text generalizing p limit with
  | nil => exact stop limit p string.nul
  | cons c text ih =>
    obtain ⟨rfl, some, rest⟩ := stringAt_cons.mp string
    have room' := Nat.lt_of_succ_lt_succ room
    obtain ⟨limit, rfl⟩ := Nat.exists_eq_add_one_of_ne_zero (Nat.ne_zero_of_lt room')
    exact next _ p text some (ih rest limit room')

/-- `strlen` counts the characters. -/
theorem strlen_eq (string : StringAt m p text) (room : text.length < limit) :
    strlen m limit p = some text.length := by
  refine string.scan (motive := fun limit p text => strlen m limit p = some text.length) room
    (fun _ _ nul => if_pos nul) fun limit p text some rest => ?_
  rw [strlen, if_neg some, rest, Option.map_some, List.length_cons]

theorem charsAt_eq (string : StringAt m p text) (room : text.length < limit) :
    charsAt m limit p = text := by
  refine string.scan (motive := fun limit p text => charsAt m limit p = text) room
    (fun _ _ nul => if_pos nul) fun limit p text some rest => ?_
  rw [charsAt, if_neg some, rest]

/-- What `strlen` counts is a string. -/
theorem exists_stringAt (counted : strlen m limit p = some n) :
    n < limit ∧ ∃ text : Chars, text.length = n ∧ StringAt m p text := by
  induction limit generalizing p n with
  | zero => cases counted
  | succ limit ih =>
    rw [strlen] at counted
    by_cases nul : m p = 0
    · rw [if_pos nul] at counted
      obtain rfl := Option.some.inj counted
      exact ⟨Nat.succ_pos _, [], rfl, .nil nul⟩
    · rw [if_neg nul] at counted
      obtain ⟨n, rest, rfl⟩ := Option.map_eq_some_iff.mp counted
      obtain ⟨less, text, length, string⟩ := ih rest
      exact ⟨Nat.succ_lt_succ less, m p :: text, congrArg Nat.succ length,
        stringAt_cons.mpr ⟨rfl, nul, string⟩⟩

/-! ### Copies -/

theorem memcpy_eq (chars : ∀ k (inside : k < text.length), src (s + k) = text[k]) :
    memcpy dest d src s text.length = storeBytes dest d text := by
  induction text generalizing dest d s with
  | nil => rfl
  | cons c text ih =>
    have first : src s = c := chars 0 (Nat.succ_pos _)
    rw [List.length_cons, memcpy, storeBytes, first]
    refine ih fun k inside => ?_
    rw [show s + 1 + k = s + (k + 1) by omega, chars (k + 1) (Nat.succ_lt_succ inside)]
    rfl

/-- **`strcpy` stores the characters**, and no NUL. -/
theorem strcpy_eq (string : StringAt src s text) (room : text.length < limit) :
    strcpy limit dest d src s = some (storeBytes dest d text) := by
  rw [strcpy, strlen_eq string room, Option.map_some, memcpy_eq string.chars]

/-! ### Stores -/

theorem storeBytes_append (text more : Chars) :
    storeBytes (storeBytes m p text) (p + text.length) more = storeBytes m p (text ++ more) := by
  induction text generalizing m p with
  | nil => rfl
  | cons c text ih =>
    rw [List.length_cons, storeBytes, List.cons_append, storeBytes, ← ih]
    exact congrArg (storeBytes _ · more) (by omega)

theorem storeBytes_chars (text more : Chars) (k : ℕ) (inside : k < text.length) :
    storeBytes m p (text ++ more) (p + k) = text[k] := by
  have bound : k < (text ++ more).length := by
    rw [List.length_append]
    omega
  rw [storeBytes_at bound, List.getElem_append_left inside]

/-- Behind the text nothing depends on its characters. -/
theorem storeBytes_behind {text' more : Chars} {x : ℕ} (same : text.length = text'.length)
    (behind : p + text.length ≤ x) :
    storeBytes m p (text ++ more) x = storeBytes m p (text' ++ more) x := by
  rw [← storeBytes_append, ← storeBytes_append, ← same]
  rcases Nat.lt_or_ge x (p + text.length + more.length) with inside | off
  · obtain ⟨k, rfl⟩ := Nat.exists_eq_add_of_le behind
    have small : k < more.length := by omega
    rw [storeBytes_at small, storeBytes_at small]
  · rw [storeBytes_off (.inr off), storeBytes_off (.inr off), storeBytes_off (.inr behind),
      storeBytes_off (.inr (same ▸ behind))]

/-- A text and a NUL. -/
theorem stringAt_storeBytes (whole : 0 ∉ text) : StringAt (storeBytes m p (text ++ [0])) p text := by
  refine ⟨storeBytes_chars text [0], ?_, whole⟩
  rw [← storeBytes_append]
  exact Function.update_self _ _ _

/-- A text in front of a NUL. -/
theorem stringAt_stored (whole : 0 ∉ text) (nul : m (p + text.length) = 0) :
    StringAt (storeBytes m p text) p text := by
  refine ⟨fun k inside => storeBytes_at inside, ?_, whole⟩
  rw [storeBytes_off (.inr (Nat.le_refl _)), nul]

/-- A text in memory that is 0. -/
theorem stringAt_zeroed (whole : 0 ∉ text) : StringAt (storeBytes (fun _ => 0) p text) p text :=
  stringAt_stored whole rfl

end WalOS.Text
