/-
**Directives that are cut short** (`vsprintf` of `common.c`).

Every format is a list of items, or one with a `%`, its flag and digits behind it and no letter. In the
latter case the NUL is taken for the letter and passed: the next round reads behind the format.

* `exists_items` — the items of a format.
* `vsprintf_cut` — the round after a directive without a letter.
* `vsprintf_reads_inside_iff` — **exactly the formats of items, with strings that fit in `tmp`, are read up
  to their NUL and no further**.
-/

import WalOS.Text.Render

namespace WalOS.Text

open Bytes

variable {chars : Chars} {args : Args} {items : List Item} {width : List ℕ} {zero : Bool}

/-! ### The items of a format -/

/-- A directive without its letter. -/
def cutText (zero : Bool) (width : List ℕ) : Chars := 37 :: (flag zero ++ width.map digitLetter)

theorem digitLetter_isDigit {c : BitVec 8} (digit : IsDigit c) : ∃ d < 10, digitLetter d = c := by
  obtain ⟨low, high⟩ := digit
  have low : 48 ≤ c.toNat := low
  have high : c.toNat ≤ 57 := high
  have small : c.toNat - 48 < 10 := by omega
  refine ⟨c.toNat - 48, small, BitVec.eq_of_toNat_eq ?_⟩
  rw [digitLetter, if_pos small, BitVec.toNat_ofNat]
  omega

/-- The digits that characters begin with. -/
theorem exists_digits (chars : Chars) : ∃ (width : List ℕ) (rest : Chars),
    chars = width.map digitLetter ++ rest ∧ (∀ d ∈ width, d < 10) ∧
      ∀ c behind, rest = c :: behind → ¬ IsDigit c := by
  induction chars with
  | nil => exact ⟨[], [], rfl, fun d member => absurd member List.not_mem_nil, fun c behind => nofun⟩
  | cons c chars ih =>
    by_cases digit : IsDigit c
    · obtain ⟨d, small, rfl⟩ := digitLetter_isDigit digit
      obtain ⟨width, rest, rfl, digits, ends⟩ := ih
      exact ⟨d :: width, rest, rfl, List.forall_mem_cons.mpr ⟨small, digits⟩, ends⟩
    · refine ⟨[], c :: chars, rfl, fun d member => absurd member List.not_mem_nil, fun c' behind same => ?_⟩
      rw [← (List.cons.inj same).1]
      exact digit

/-- The flag and the digits behind `%`. -/
theorem exists_field (chars : Chars) : ∃ (zero : Bool) (width : List ℕ) (rest : Chars),
    chars = flag zero ++ (width.map digitLetter ++ rest) ∧ (∀ d ∈ width, d < 10) ∧
      (∀ c behind, rest = c :: behind → ¬ IsDigit c) ∧ (zero = false → width.head? ≠ some 0) := by
  by_cases flagged : ∃ behind, chars = 48 :: behind
  · obtain ⟨behind, rfl⟩ := flagged
    obtain ⟨width, rest, rfl, digits, ends⟩ := exists_digits behind
    exact ⟨true, width, rest, rfl, digits, ends, fun other => absurd other (by decide)⟩
  · obtain ⟨width, rest, rfl, digits, ends⟩ := exists_digits chars
    refine ⟨false, width, rest, rfl, digits, ends, fun _ zero => ?_⟩
    obtain ⟨behind, rfl⟩ := List.head?_eq_some_iff.mp zero
    exact flagged ⟨_, rfl⟩

/-- Behind the items a directive is cut short by the end of the format. -/
def EndsCut (items : List Item) (chars : Chars) : Prop := ∃ zero width,
  (∀ d ∈ width, d < 10) ∧ Apart zero width 0 ∧ chars = formatText items ++ cutText zero width

/-- An item at the front. -/
theorem parsed_front (item : Item) {rest : Chars} (parsed : rest = formatText items ∨ EndsCut items rest) :
    item.text ++ rest = formatText (item :: items) ∨ EndsCut (item :: items) (item.text ++ rest) := by
  rw [EndsCut, formatText_cons]
  rcases parsed with rfl | ⟨zero, width, digits, apart, rfl⟩
  · exact .inl rfl
  · exact .inr ⟨zero, width, digits, apart, (List.append_assoc _ _ _).symm⟩

/-- What a format begins with: an item, or a directive that is cut short. -/
theorem exists_front (whole : 0 ∉ chars) (some : chars ≠ []) :
    (∃ (item : Item) (rest : Chars), chars = item.text ++ rest) ∨ EndsCut [] chars := by
  obtain ⟨c, rest, rfl⟩ := List.exists_cons_of_ne_nil some
  have visible : ∀ {x}, x ∈ c :: rest → x ≠ 0 := fun member nul => whole (nul ▸ member)
  by_cases literal : c = 37
  · subst literal
    by_cases percent : ∃ behind, rest = 37 :: behind
    · obtain ⟨behind, rfl⟩ := percent
      exact .inl ⟨.percent, behind, rfl⟩
    obtain ⟨zero, width, behind, rfl, digits, ends, apart⟩ := exists_field rest
    cases behind with
    | nil =>
      refine .inr ⟨zero, width, digits, fun plain => ⟨apart plain, fun _ => by decide⟩, ?_⟩
      rw [List.append_nil]
      rfl
    | cons letter behind =>
      have visible : letter ≠ 0 := visible (List.mem_cons_of_mem _ (List.mem_append_right _
        (List.mem_append_right _ List.mem_cons_self)))
      have apart : Apart zero width letter := by
        rintro rfl
        refine ⟨apart rfl, ?_⟩
        rintro rfl rfl
        exact percent ⟨behind, rfl⟩
      refine .inl ⟨.directive ⟨zero, width, letter, digits, ends _ _ rfl, apart, visible⟩, behind, ?_⟩
      rw [Item.text, fieldText, List.cons_append, List.append_assoc, List.append_assoc]
      rfl
  · exact .inl ⟨.char c (visible List.mem_cons_self) literal, rest, rfl⟩

/-- **The items of a format**, and what is cut short at its end. -/
theorem exists_items (whole : 0 ∉ chars) :
    ∃ items, chars = formatText items ∨ EndsCut items chars := by
  induction length : chars.length using Nat.strong_induction_on generalizing chars with
  | _ n ih =>
    by_cases none : chars = []
    · exact ⟨[], .inl none⟩
    rcases exists_front whole none with ⟨item, rest, rfl⟩ | cut
    · have some := item.text_pos
      rw [List.length_append] at length
      obtain ⟨items, parsed⟩ := ih rest.length (by omega)
        (fun member => whole (List.mem_append_right _ member)) rfl
      exact ⟨item :: items, parsed_front item parsed⟩
    · exact ⟨[], .inr cut⟩

/-! ### Cut short -/

/-- **The round after a directive without a letter** reads behind the NUL. -/
theorem vsprintf_cut (cut : EndsCut items chars) (fits : FitsAll args items 0) (buf : Mem) (rest : Chars) :
    chars.length + 1 ∈ (vsprintf buf (chars ++ 0 :: rest) args).accesses := by
  obtain ⟨zero, width, digits, apart, rfl⟩ := cut
  obtain ⟨format, whole⟩ : ∃ format, format = formatText items ++ cutText zero width ++ 0 :: rest := ⟨_, rfl⟩
  -- the NUL stands where the letter of the directive would
  have text : format = formatText items ++ (fieldText zero width 0 ++ rest) := by
    rw [whole, cutText, fieldText, List.append_assoc, List.cons_append, List.cons_append, List.append_assoc,
      List.append_assoc, List.append_assoc]
    rfl
  obtain ⟨log, fuel, run, -, left⟩ := front_run text fits buf
  obtain ⟨fuel, rfl⟩ : ∃ more, fuel = more + 2 := by
    rw [List.length_append, fieldText_length] at left
    exact Nat.exists_eq_add_of_le' (by omega)
  have fit : args.Fits 0 (takenAll items) := fun string => absurd string (by decide)
  obtain ⟨log', round, -⟩ := round_field_gives digits (by decide) apart (drop_past text) fit
  have place : (formatText items).length + (fieldText zero width 0).length =
      (formatText items ++ cutText zero width).length + 1 := by
    rw [fieldText_length, cutText, List.length_append, List.length_cons, List.length_append, List.length_map]
    omega
  have later : (formatText items ++ cutText zero width).length + 1 ∈ (Traced.loop Stray.endless
      (vsprintfRound format args) (fuel + 2) (.past buf args items)).accesses := by
    rw [Traced.loop_inl round, ← place]
    exact List.mem_append_right log' (Traced.mem_loop (Nat.succ_pos fuel)
      (Traced.mem_bind_left (Traced.mem_bind_left List.mem_cons_self)))
  rw [← whole, vsprintf, run]
  exact Traced.mem_bind_left (Traced.mem_bind_right rfl later)

/-! ### The reads of the format -/

/-- **The run reads the format up to its NUL and no further**, and ends. -/
structure ReadsInside {α : Type} (chars : Chars) (run : Scan α) : Prop where
  inside : ∀ i ∈ run.accesses, i ≤ chars.length
  ends : ∃ result, run.outcome = .ok result

/-- **Exactly the formats of items** are read up to their NUL, with strings that fit in `tmp`. -/
theorem vsprintf_reads_inside_iff (whole : 0 ∉ chars) (rest : Chars) (args : Args) (buf : Mem) :
    ReadsInside chars (vsprintf buf (chars ++ 0 :: rest) args) ↔
      ∃ items, chars = formatText items ∧ FitsAll args items 0 := by
  constructor
  · rintro ⟨inside, result, returned⟩
    obtain ⟨items, parsed⟩ := exists_items whole
    by_cases fits : FitsAll args items 0
    · rcases parsed with same | cut
      · exact ⟨items, same, fits⟩
      · exact absurd (inside _ (vsprintf_cut cut fits buf rest)) (Nat.not_succ_le_self _)
    · have behind : ∃ rest', chars ++ 0 :: rest = formatText items ++ rest' := by
        rcases parsed with rfl | ⟨zero, width, -, -, rfl⟩
        · exact ⟨0 :: rest, rfl⟩
        · exact ⟨_, List.append_assoc _ _ _⟩
      obtain ⟨rest', same⟩ := behind
      rw [same, vsprintf_overflow fits] at returned
      cases returned
  · rintro ⟨items, rfl, fits⟩
    obtain ⟨log, gives, inside⟩ := vsprintf_items fits buf rest
    exact ⟨fun i member => inside i (gives.accesses ▸ member), _, gives.outcome⟩

/-- `%5d` is a format of items. -/
theorem vsprintf_reads_inside_width : ReadsInside [37, 53, 100]
    (vsprintf (fun _ => 0) ([37, 53, 100] ++ 0 :: []) ⟨fun _ => 7, fun _ => 0, fun _ => []⟩) :=
  (vsprintf_reads_inside_iff (by decide) [] ⟨fun _ => 7, fun _ => 0, fun _ => []⟩ fun _ => 0).mpr
    ⟨[.directive ⟨false, [5], 100, by decide, by decide, fun _ => ⟨by decide, by decide⟩, by decide⟩], rfl,
      fun string => absurd string (by decide), trivial⟩

/-- A format that ends in `%` is read behind its NUL. -/
theorem vsprintf_reads_behind :
    ¬ ReadsInside [37] (vsprintf (fun _ => 0) ([37] ++ 0 :: [65]) ⟨fun _ => 7, fun _ => 0, fun _ => []⟩) := by
  rintro ⟨inside, -⟩
  exact absurd (inside 2 (by decide)) (by decide)

end WalOS.Text
