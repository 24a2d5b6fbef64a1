/-
**What `vsprintf` prints.**

A format is a list of items: characters, two percent signs, and directives. Each item takes one round, which
prints what the item stands for and passes it.

* `Item.round`, `items_run` — a round, and the rounds of a list of items.
* `vsprintf_items` — a format that is a list of items prints them one after the other.
* `Documented`, `Matching` — the letters `d`, `x`, `c` and `s` with a width below `2^31`, and their arguments.
* `vsprintf_renders` — **such a format is rendered**: each text behind as many fill characters as it lacks.
-/

import WalOS.Text.Vsprintf

namespace WalOS.Text

open Bytes

/-! ### Formats -/

/-- A directive with its letter. -/
structure Directive where
  zero : Bool
  width : List ℕ
  letter : BitVec 8
  digits : ∀ d ∈ width, d < 10
  ends : ¬ IsDigit letter
  apart : Apart zero width letter
  visible : letter ≠ 0

/-- A part of a format. -/
inductive Item where
  | char (c : BitVec 8) (visible : c ≠ 0) (literal : c ≠ 37)
  | percent
  | directive (d : Directive)

namespace Item

def text : Item → Chars
  | char c _ _ => [c]
  | percent => [37, 37]
  | directive d => fieldText d.zero d.width d.letter

/-- What an item prints, if the next argument is number `n`. -/
def out (args : Args) (n : ℕ) : Item → Chars
  | char c _ _ => [c]
  | percent => [37]
  | directive d => args.field (fillOf d.zero) d.width d.letter n

/-- The arguments that an item takes. -/
def taken : Item → ℕ
  | directive d => takes d.letter
  | _ => 0

def Fits (args : Args) (n : ℕ) : Item → Prop
  | directive d => args.Fits d.letter n
  | _ => True

def isDirective : Item → Bool
  | directive _ => true
  | _ => false

end Item

/-- The characters of a format. -/
def formatText (items : List Item) : Chars := items.flatMap Item.text

/-- What the items print. -/
def outs (args : Args) : List Item → ℕ → Chars
  | [], _ => []
  | item :: items, n => item.out args n ++ outs args items (n + item.taken)

/-- The arguments that the items take. -/
def takenAll : List Item → ℕ
  | [] => 0
  | item :: items => item.taken + takenAll items

/-- Every string fits in `tmp`. -/
def FitsAll (args : Args) : List Item → ℕ → Prop
  | [], _ => True
  | item :: items, n => item.Fits args n ∧ FitsAll args items (n + item.taken)

/-! ### Rounds -/

variable {format rest : Chars} {args : Args} {s : Printing} {item : Item} {items : List Item} {n : ℕ}

theorem formatText_cons (item : Item) (items : List Item) :
    formatText (item :: items) = item.text ++ formatText items := List.flatMap_cons

theorem Item.text_pos (item : Item) : 0 < item.text.length := by
  cases item with
  | char c visible literal => exact Nat.one_pos
  | percent => exact Nat.two_pos
  | directive d => exact Nat.succ_pos _

theorem length_le_formatText (items : List Item) : items.length ≤ (formatText items).length := by
  induction items with
  | nil => exact Nat.le_refl 0
  | cons item items ih =>
    have some := item.text_pos
    rw [formatText_cons, List.length_append, List.length_cons]
    omega

/-- **The round of an item** reads nothing behind it. -/
theorem Item.round (here : format.drop s.fmt = item.text ++ rest) (fits : item.Fits args s.nextArg) :
    ∃ log, (vsprintfRound format args s).Gives log
        (.inl (s.after (item.out args s.nextArg) item.text.length item.taken)) ∧
      ∀ i ∈ log, i < s.fmt + item.text.length := by
  cases item with
  | char c visible literal =>
    refine ⟨_, round_char visible literal here, fun i member => ?_⟩
    rw [List.mem_singleton.mp member]
    exact Nat.lt_succ_self _
  | percent =>
    refine ⟨_, round_percent here, fun i member => ?_⟩
    have inside : i = s.fmt ∨ i = s.fmt + 1 := by
      rwa [List.mem_cons, List.mem_singleton] at member
    show i < s.fmt + 2
    omega
  | directive d => exact round_field_gives d.digits d.ends d.apart here fits

theorem Item.round_overflow (here : format.drop s.fmt = item.text ++ rest)
    (long : ¬ item.Fits args s.nextArg) : (vsprintfRound format args s).outcome = .error .overflow := by
  cases item with
  | char c visible literal => exact absurd trivial long
  | percent => exact absurd trivial long
  | directive d => exact round_field_overflow d.digits d.ends d.apart here long

/-- The rest of the format behind an item. -/
theorem drop_item (here : format.drop s.fmt = formatText (item :: items) ++ rest) :
    format.drop s.fmt = item.text ++ (formatText items ++ rest) ∧
      format.drop (s.fmt + item.text.length) = formatText items ++ rest := by
  rw [formatText_cons, List.append_assoc] at here
  refine ⟨here, ?_⟩
  rw [← List.drop_drop, here, List.drop_left]

/-- **The rounds of a list of items.** -/
theorem items_run (here : format.drop s.fmt = formatText items ++ rest)
    (fits : FitsAll args items s.nextArg) (fuel : ℕ) : ∃ log,
      Traced.loop .endless (vsprintfRound format args) (items.length + fuel) s =
        (⟨log, .ok (s.after (outs args items s.nextArg) (formatText items).length (takenAll items))⟩ :
          Scan Printing) >>= Traced.loop .endless (vsprintfRound format args) fuel ∧
      ∀ i ∈ log, i < s.fmt + (formatText items).length := by
  induction items generalizing s with
  | nil =>
    refine ⟨[], ?_, fun i member => absurd member List.not_mem_nil⟩
    rw [List.length_nil, Nat.zero_add]
    rfl
  | cons item items ih =>
    obtain ⟨fit, fits⟩ := fits
    obtain ⟨first, behind⟩ := drop_item here
    obtain ⟨log, round, inside⟩ := Item.round first fit
    obtain ⟨log', run, inside'⟩ := ih
      (s := s.after (item.out args s.nextArg) item.text.length item.taken) behind fits
    have length : (formatText (item :: items)).length = item.text.length + (formatText items).length := by
      rw [formatText_cons, List.length_append]
    refine ⟨log ++ log', ?_, fun i member => ?_⟩
    · rw [List.length_cons, Nat.add_right_comm, Traced.loop_inl round, run, Printing.after_after, length,
        Traced.bind_of_ok rfl, Traced.bind_of_ok rfl, List.append_assoc]
      rfl
    · rw [length]
      rcases List.mem_append.mp member with early | late
      · have early := inside i early
        omega
      · have late : i < s.fmt + item.text.length + (formatText items).length := inside' i late
        omega

/-- A string that is too long stops the run. -/
theorem items_overflow (here : format.drop s.fmt = formatText items ++ rest)
    (long : ¬ FitsAll args items s.nextArg) (fuel : ℕ) :
    (Traced.loop .endless (vsprintfRound format args) (items.length + fuel) s).outcome =
      .error .overflow := by
  induction items generalizing s with
  | nil => exact absurd trivial long
  | cons item items ih =>
    obtain ⟨first, behind⟩ := drop_item here
    rw [List.length_cons, Nat.add_right_comm]
    by_cases fit : item.Fits args s.nextArg
    · obtain ⟨log, round, -⟩ := Item.round first fit
      rw [Traced.loop_inl round]
      exact ih (s := s.after (item.out args s.nextArg) item.text.length item.taken) behind
        fun fits => long ⟨fit, fits⟩
    · rw [Traced.loop, Traced.outcome_bind, Item.round_overflow first fit]
      rfl

/-- The rounds that are left for what is behind the items. -/
theorem rounds_left (items : List Item) (rest : Chars) : ∃ fuel,
    (formatText items ++ rest).length + 1 = items.length + fuel ∧ rest.length < fuel := by
  have some := length_le_formatText items
  refine ⟨(formatText items ++ rest).length + 1 - items.length, ?_, ?_⟩ <;>
    · rw [List.length_append]
      omega

/-- The variables behind the items. -/
def Printing.past (buf : Mem) (args : Args) (items : List Item) : Printing :=
  { buf := storeBytes buf 0 (outs args items 0), p := (outs args items 0).length
    fmt := (formatText items).length, nextArg := takenAll items }

theorem drop_past {buf : Mem} (whole : format = formatText items ++ rest) :
    format.drop (Printing.past buf args items).fmt = rest := by
  rw [whole]
  exact List.drop_left

/-- The rounds of the items at the front of a format. -/
theorem front_run (whole : format = formatText items ++ rest) (fits : FitsAll args items 0) (buf : Mem) :
    ∃ log fuel, Traced.loop .endless (vsprintfRound format args) (format.length + 1) (.start buf) =
        (⟨log, .ok (.past buf args items)⟩ : Scan Printing) >>=
          Traced.loop .endless (vsprintfRound format args) fuel ∧
      (∀ i ∈ log, i < (formatText items).length) ∧ rest.length < fuel := by
  obtain ⟨fuel, enough, left⟩ := rounds_left items rest
  have start : format.drop (Printing.start buf).fmt = formatText items ++ rest := whole
  have past : (Printing.start buf).after (outs args items 0) (formatText items).length (takenAll items) =
      .past buf args items := by
    rw [Printing.after, Printing.start, Nat.zero_add, Nat.zero_add, Nat.zero_add]
    rfl
  obtain ⟨log, run, inside⟩ := items_run start fits fuel
  refine ⟨log, fuel, ?_, fun i member => ?_, left⟩
  · rw [whole, enough, ← whole, run, ← past]
    rfl
  · have inside : i < 0 + (formatText items).length := inside i member
    omega

/-- The variables at the end of a run that has printed `out`. -/
def Printing.finish (buf : Mem) (out : Chars) (fmt nextArg : ℕ) : Printing :=
  { buf := storeBytes buf 0 (out ++ [0]), p := out.length, fmt := fmt, nextArg := nextArg }

/-- **A format of items** prints them, and nothing behind its NUL is read. -/
theorem vsprintf_items (fits : FitsAll args items 0) (buf : Mem) (rest : Chars) : ∃ log,
    (vsprintf buf (formatText items ++ 0 :: rest) args).Gives log
      (.finish buf (outs args items 0) (formatText items).length (takenAll items),
        BitVec.ofNat 32 (outs args items 0).length) ∧
      ∀ i ∈ log, i ≤ (formatText items).length := by
  obtain ⟨format, whole⟩ : ∃ format, format = formatText items ++ 0 :: rest := ⟨_, rfl⟩
  obtain ⟨log, fuel, run, inside, left⟩ := front_run whole fits buf
  obtain ⟨fuel, rfl⟩ := Nat.exists_eq_add_one_of_ne_zero (Nat.ne_zero_of_lt left)
  have last : (vsprintfRound format args (.past buf args items)).Gives [(formatText items).length]
      (.inr (.past buf args items)) := round_end (drop_past whole)
  have ran : (Traced.loop .endless (vsprintfRound format args) (format.length + 1) (.start buf)).Gives
      (log ++ [(formatText items).length]) (.past buf args items) := by
    rw [run]
    exact (Traced.Gives.ok log _).bind (.loop_inr last fuel)
  have stored : Function.update (storeBytes buf 0 (outs args items 0)) (outs args items 0).length 0 =
      storeBytes buf 0 (outs args items 0 ++ [0]) := by
    rw [← storeBytes_append, Nat.zero_add]
    rfl
  rw [← whole]
  refine ⟨log ++ [(formatText items).length], ran.bind_nil ?_, fun i member => ?_⟩
  · rw [Printing.past, stored]
    rfl
  · rcases List.mem_append.mp member with early | last
    · exact (inside i early).le
    · exact (List.mem_singleton.mp last).le

/-- A string that is too long stops `vsprintf`, whatever is behind the items. -/
theorem vsprintf_overflow (long : ¬ FitsAll args items 0) (buf : Mem) (rest : Chars) :
    (vsprintf buf (formatText items ++ rest) args).outcome = .error .overflow := by
  obtain ⟨fuel, enough, -⟩ := rounds_left items rest
  have start : (formatText items ++ rest).drop (Printing.start buf).fmt = formatText items ++ rest := rfl
  have stops := items_overflow start long fuel
  rw [vsprintf, Traced.outcome_bind, enough, stops]
  rfl

/-! ### What items print -/

variable {c : BitVec 8}

/-- No text has a NUL. -/
theorem Args.text_whole (fits : args.Fits c n) : 0 ∉ args.text c n := by
  obtain ⟨tmp, -, converted⟩ := args.convert_gives fits
  exact converted.string.whole

theorem zero_ne_fillOf : ∀ zero, 0 ≠ fillOf zero := by decide

/-- No item prints a NUL. -/
theorem Item.out_whole (fits : item.Fits args n) : 0 ∉ item.out args n := by
  cases item with
  | char c visible literal => exact fun member => visible (List.mem_singleton.mp member).symm
  | percent => exact fun member => absurd (List.mem_singleton.mp member) (by decide)
  | directive d =>
    intro member
    rcases List.mem_append.mp member with fill | text
    · exact zero_ne_fillOf d.zero (List.eq_of_mem_replicate fill)
    · exact args.text_whole fits text

theorem outs_whole (fits : FitsAll args items n) : 0 ∉ outs args items n := by
  induction items generalizing n with
  | nil => exact List.not_mem_nil
  | cons item items ih =>
    exact fun member => (List.mem_append.mp member).elim (Item.out_whole fits.1) (ih fits.2)

/-- A list of items prints what its parts print. -/
theorem outs_append (items items' : List Item) (n : ℕ) :
    outs args (items ++ items') n = outs args items n ++ outs args items' (n + takenAll items) := by
  induction items generalizing n with
  | nil => rfl
  | cons item items ih =>
    rw [List.cons_append, outs, ih, outs, takenAll, List.append_assoc, Nat.add_assoc]

/-! ### The documented language -/

/-- The letters `d`, `x`, `c` and `s`, and a width that is an `int`. -/
def Item.Documented : Item → Prop
  | directive d => d.letter ∈ [100, 120, 99, 115] ∧ Numeral.value 10 d.width < 2 ^ 31
  | _ => True

/-- An argument for a letter: a character is no NUL, and a string is shorter than `tmp`. -/
def Args.Suits (args : Args) (c : BitVec 8) (n : ℕ) : Prop :=
  (c = 99 → (args.word n).setWidth 8 ≠ 0#8) ∧
    (c = 115 → ∃ text : Chars, StringAt args.mem (args.word n).toNat text ∧ text.length < 256)

/-- **An argument for every directive.** -/
def Matching (args : Args) : List Item → ℕ → Prop
  | [], _ => True
  | .directive d :: items, n => args.Suits d.letter n ∧ Matching args items (n + 1)
  | _ :: items, n => Matching args items n

/-- **The rendering**: an argument's text is preceded by the fill characters that it lacks of the width. -/
def rendering (args : Args) : List Item → ℕ → Chars
  | [], _ => []
  | .char c _ _ :: items, n => c :: rendering args items n
  | .percent :: items, n => 37 :: rendering args items n
  | .directive d :: items, n =>
      let text := args.text d.letter n
      List.replicate (Numeral.value 10 d.width - text.length) (fillOf d.zero) ++ text ++
        rendering args items (n + 1)

theorem Args.Suits.fits (suits : args.Suits c n) : args.Fits c n := by
  intro string
  obtain ⟨text, there, short⟩ := suits.2 string
  have counted : strlen args.mem (tmpSize + 1) (args.word n).toNat = some text.length :=
    strlen_eq there (Nat.lt_succ_of_lt short)
  rw [counted]
  rfl

/-- The text of an argument that suits is shorter than `tmp`. -/
theorem Args.Suits.short (suits : args.Suits c n) : (args.text c n).length < tmpSize := by
  by_cases string : c = 115
  · subst string
    obtain ⟨text, there, short⟩ := suits.2 rfl
    have short : text.length < tmpSize := short
    rw [Args.text_string there short.le, if_pos short]
    exact short
  · exact args.text_short n string

/-- The rounds that pad are the characters that are missing. -/
theorem padding_eq {width length : ℕ} (small : width < 2 ^ 31) (short : length < 2 ^ 31) :
    padding (BitVec.ofNat 32 width) (BitVec.ofNat 32 length) = width - length := by
  have number : ∀ k < 2 ^ 31, (BitVec.ofNat 32 k).toNat = k := by
    intro k less
    rw [BitVec.toNat_ofNat]
    omega
  have signed : ∀ k < 2 ^ 31, (BitVec.ofNat 32 k).toInt = k := by
    intro k less
    rw [BitVec.toInt_eq_toNat_of_lt (by rw [number k less]; omega), number k less]
  unfold padding
  by_cases less : length < width
  · have fewer : (BitVec.ofNat 32 length).slt (BitVec.ofNat 32 width) = true := by
      rw [BitVec.slt_iff_toInt_lt, signed _ short, signed _ small]
      exact Int.ofNat_lt.mpr less
    rw [if_pos fewer, BitVec.toNat_sub_of_le (by rw [BitVec.le_def, number _ short, number _ small]; omega),
      number _ short, number _ small]
  · have more : ¬ (BitVec.ofNat 32 length).slt (BitVec.ofNat 32 width) = true := by
      rw [BitVec.slt_iff_toInt_lt, signed _ short, signed _ small]
      exact fun fewer => less (Int.ofNat_lt.mp fewer)
    rw [if_neg more, Nat.sub_eq_zero_of_le (Nat.not_lt.mp less)]

/-- What a documented directive prints. -/
theorem Args.field_eq {width : List ℕ} (small : Numeral.value 10 width < 2 ^ 31)
    (short : (args.text c n).length < tmpSize) (fillCh : BitVec 8) : args.field fillCh width c n =
      List.replicate (Numeral.value 10 width - (args.text c n).length) fillCh ++ args.text c n := by
  rw [Args.field, alignOf_zero, padding_eq small (short.trans (by decide))]

/-- A documented letter takes an argument. -/
theorem takes_documented (letter : c ∈ ([100, 120, 99, 115] : Chars)) : takes c = 1 := by
  revert c
  decide

/-- **A documented format** takes an argument for each directive, and prints its rendering. -/
theorem documented_items (documented : ∀ item ∈ items, item.Documented) (matching : Matching args items n) :
    FitsAll args items n ∧ takenAll items = items.countP Item.isDirective ∧
      outs args items n = rendering args items n := by
  induction items generalizing n with
  | nil => exact ⟨trivial, rfl, rfl⟩
  | cons item items ih =>
    have later := fun n => ih (n := n) fun item member => documented item (List.mem_cons_of_mem _ member)
    have first := documented item List.mem_cons_self
    rw [takenAll, List.countP_cons, Nat.add_comm]
    cases item with
    | char c visible literal =>
      obtain ⟨fits, count, same⟩ := later n matching
      exact ⟨⟨trivial, fits⟩, congrArg (· + 0) count, congrArg (c :: ·) same⟩
    | percent =>
      obtain ⟨fits, count, same⟩ := later n matching
      exact ⟨⟨trivial, fits⟩, congrArg (· + 0) count, congrArg (37 :: ·) same⟩
    | directive d =>
      obtain ⟨suits, matching⟩ := matching
      have one : (Item.directive d).taken = 1 := takes_documented first.1
      have fit : args.Fits d.letter n := suits.fits
      obtain ⟨fits, count, same⟩ := later (n + 1) matching
      refine ⟨⟨fit, one.symm ▸ fits⟩, ?_, ?_⟩
      · rw [one, count]
        rfl
      · rw [outs, one, same, rendering, Item.out, Args.field_eq first.2 suits.short]

/-- **`vsprintf` renders its format language**: the rendering and a NUL are stored, each directive takes one
argument, and the length is returned, which is that of the string. -/
theorem vsprintf_renders (documented : ∀ item ∈ items, item.Documented) (matching : Matching args items 0)
    (buf : Mem) (rest : Chars) : ∃ s length,
      (vsprintf buf (formatText items ++ 0 :: rest) args).outcome = .ok (s, length) ∧
      s.buf = storeBytes buf 0 (rendering args items 0 ++ [0]) ∧
      StringAt s.buf 0 (rendering args items 0) ∧
      s.nextArg = items.countP Item.isDirective ∧
      length = BitVec.ofNat 32 (rendering args items 0).length ∧
      ∀ limit, (rendering args items 0).length < limit →
        strlen s.buf limit 0 = some (rendering args items 0).length := by
  obtain ⟨fits, count, same⟩ := documented_items documented matching
  have whole : 0 ∉ rendering args items 0 := same ▸ outs_whole fits
  obtain ⟨log, gives, -⟩ := vsprintf_items fits buf rest
  rw [same, count] at gives
  have string : StringAt (storeBytes buf 0 (rendering args items 0 ++ [0])) 0 (rendering args items 0) :=
    stringAt_storeBytes whole
  exact ⟨_, _, gives.outcome, rfl, string, rfl, rfl, fun limit room => strlen_eq string room⟩

/-- `a%%%05d` with the argument `-42` is `a%00-42`. -/
theorem vsprintf_renders_padded : ∃ s,
    (vsprintf (fun _ => 7) [97, 37, 37, 37, 48, 53, 100, 0] ⟨fun _ => -42, fun _ => 0, fun _ => []⟩).outcome =
        .ok (s, 7) ∧
      StringAt s.buf 0 [97, 37, 48, 48, 45, 52, 50] ∧ s.nextArg = 1 := by
  have documented : ∀ item ∈ ([.char 97 (by decide) (by decide), .percent, .directive ⟨true, [5], 100,
      by decide, by decide, fun other => absurd other (by decide), by decide⟩] : List Item), item.Documented :=
    List.forall_mem_cons.mpr ⟨trivial, List.forall_mem_cons.mpr ⟨trivial,
      List.forall_mem_singleton.mpr ⟨by decide, by decide⟩⟩⟩
  obtain ⟨s, length, returned, -, string, taken, rfl, -⟩ :=
    @vsprintf_renders ⟨fun _ => -42, fun _ => 0, fun _ => []⟩ _ documented
      ⟨⟨by decide, fun string => absurd string (by decide)⟩, trivial⟩ (fun _ => 7) []
  exact ⟨s, returned, string, taken⟩

end WalOS.Text
