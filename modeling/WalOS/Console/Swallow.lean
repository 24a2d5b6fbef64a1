/-
**Codes swallowed by a failed match.**

`read_keyboard` compares the codes after `e0 2a`, `e0 b7` or `e1` with the rest of a PrintScreen or
Pause sequence as it takes them out, and does not put them back when they differ.

* `read_failed` — a failed match is read as the key at its start, and what it took out is gone.
* `swallow_loses` — a fake Shift loses the Home key behind it, and a fake PrintScreen release the release
  of Ctrl.
* `Harmless` — the swallowed codes are the release of a key that is not a modifier held.
* `swallow_iff` — **a failed match loses nothing, whatever follows, exactly when what it swallowed is
  harmless.**
-/

import WalOS.Console.Decode

namespace WalOS

/-! ### Decoding a stream -/

/-- The effect of decoding: the flags, and the keys given to `store_key_into_console`. -/
abbrev KeyEffect := Keyboard × List Key

/-- Calls of `read_keyboard` until there are no codes left, or one waits for the rest of its codes. -/
def decodeFor : ℕ → Keyboard → List (BitVec 8) → KeyEffect
  | 0, k, _ => (k, [])
  | _ + 1, k, [] => (k, [])
  | rounds + 1, k, code :: codes =>
    match readKeyboard k (code :: codes) with
    | none => (k, [])
    | some ((k', stored), rest) =>
      ((decodeFor rounds k' rest).1, stored.toList ++ (decodeFor rounds k' rest).2)

/-- The effect of a stream; every call takes out a code. -/
def decode (k : Keyboard) (codes : List (BitVec 8)) : KeyEffect := decodeFor codes.length k codes

/-- The same flags and the same keys. -/
structure SameEffect (a b : KeyEffect) : Prop where
  held : ∀ m : Modifier, a.1.held m = b.1.held m
  locked : ∀ l : Lock, a.1.locked l = b.1.locked l
  keys : a.2 = b.2

variable {k k' : Keyboard} {code : BitVec 8} {codes rest swallowed : List (BitVec 8)}

/-! ### Every call takes out a code -/

theorem pending_bind {α β : Type} {x : Pending α} {next : α → Pending β} {b : β} :
    (x >>= next) codes = some (b, rest) ↔
      ∃ a middle, x codes = some (a, middle) ∧ next a middle = some (b, rest) := by
  show (x codes).bind (fun read => next read.1 read.2) = _ ↔ _
  rw [Option.bind_eq_some_iff]
  exact Prod.exists

/-- The code puts nothing back. -/
def Shrinks {α : Type} (x : Pending α) : Prop :=
  ∀ codes a rest, x codes = some (a, rest) → rest.length ≤ codes.length

theorem Shrinks.pure {α : Type} (a : α) : Shrinks (Pure.pure a : Pending α) := by
  rintro codes a rest ⟨⟩
  exact le_rfl

theorem Shrinks.bind {α β : Type} {x : Pending α} {next : α → Pending β} (first : Shrinks x)
    (after : ∀ a, Shrinks (next a)) : Shrinks (x >>= next) := by
  intro codes b rest read
  obtain ⟨a, middle, here, there⟩ := pending_bind.mp read
  exact (after a middle b rest there).trans (first codes a middle here)

theorem Shrinks.ite {α : Type} {condition : Prop} [Decidable condition] {x y : Pending α}
    (yes : Shrinks x) (no : Shrinks y) : Shrinks (if condition then x else y) := by
  split
  · exact yes
  · exact no

theorem shrinks_getByte : Shrinks getByte := by
  intro codes a rest read
  cases codes with
  | nil => cases read
  | cons code codes =>
    cases read
    exact Nat.le_succ _

theorem shrinks_expect (expected : List (BitVec 8)) : Shrinks (expect expected) := by
  induction expected with
  | nil => exact .pure true
  | cons first expected ih =>
    exact shrinks_getByte.bind fun code => .ite (.pure false) ih

/-- `scan_special` after its first code. -/
theorem scanSpecial_le {scanned : Scanned} (read : scanSpecial (code :: codes) = some (scanned, rest)) :
    rest.length ≤ codes.length := by
  unfold scanSpecial at read
  obtain ⟨first, middle, here, there⟩ := pending_bind.mp read
  cases here
  revert there
  refine (?_ : Shrinks _) codes scanned rest
  have matching : ∀ expected (next : Bool → Scanned),
      Shrinks (expect expected >>= fun found => (pure (next found) : Pending Scanned)) :=
    fun expected next => (shrinks_expect expected).bind fun found => .pure (next found)
  refine .ite (matching _ _) (.ite (shrinks_getByte.bind fun second => ?_) (.pure _))
  exact .ite (matching _ _) (.ite (matching _ _) (.pure _))

/-- One call, as its two parts. -/
theorem readKeyboard_eq (k : Keyboard) (code : BitVec 8) (codes : List (BitVec 8)) :
    readKeyboard k (code :: codes) = (scanSpecial (code :: codes)).map fun scanned =>
      (if scanned.1.key = 0 then k.normalKey scanned.1.scanCode scanned.1.codeE0 else (k, none),
        scanned.2) := by
  show (scanSpecial (code :: codes)).bind _ = _
  cases scanSpecial (code :: codes) with
  | none => rfl
  | some scanned =>
    show (if scanned.1.key = 0 then pure _ else pure _ : Pending _) scanned.2 = _
    split
    · rename_i normal
      exact congrArg some (Prod.ext (if_pos normal).symm rfl)
    · rename_i special
      exact congrArg some (Prod.ext (if_neg special).symm rfl)

theorem readKeyboard_le {result : Keyboard × Option Key}
    (read : readKeyboard k (code :: codes) = some (result, rest)) : rest.length ≤ codes.length := by
  rw [readKeyboard_eq, Option.map_eq_some_iff] at read
  obtain ⟨⟨scanned, rest'⟩, here, same⟩ := read
  cases same
  exact scanSpecial_le here

theorem decodeFor_enough (rounds : ℕ) (enough : codes.length ≤ rounds) :
    decodeFor rounds k codes = decode k codes := by
  suffices same : ∀ n (codes : List (BitVec 8)) k, codes.length ≤ n → ∀ m, codes.length ≤ m →
      decodeFor n k codes = decodeFor m k codes from
    same rounds codes k enough _ le_rfl
  intro n
  induction n with
  | zero =>
    intro codes k few m _
    rw [List.length_eq_zero_iff.mp (Nat.le_zero.mp few)]
    cases m <;> rfl
  | succ n ih =>
    intro codes k few m more
    cases codes with
    | nil => cases m <;> rfl
    | cons code codes =>
      obtain ⟨m, rfl⟩ := Nat.exists_eq_add_one_of_ne_zero (Nat.ne_of_gt (Nat.lt_of_lt_of_le
        (Nat.succ_pos _) more))
      rw [decodeFor, decodeFor]
      cases read : readKeyboard k (code :: codes) with
      | none => rfl
      | some result =>
        have shorter : result.2.length ≤ codes.length := readKeyboard_le read
        have few : result.2.length ≤ n := shorter.trans (Nat.le_of_succ_le_succ few)
        have more : result.2.length ≤ m := shorter.trans (Nat.le_of_succ_le_succ more)
        show (_, _) = (_, _)
        rw [ih result.2 result.1.1 few m more]

/-- **One call, and the rest of the stream.** -/
theorem decode_step {stored : Option Key}
    (read : readKeyboard k (code :: codes) = some ((k', stored), rest)) :
    decode k (code :: codes) = ((decode k' rest).1, stored.toList ++ (decode k' rest).2) := by
  rw [← decodeFor_enough codes.length (readKeyboard_le read)]
  show decodeFor (codes.length + 1) k (code :: codes) = _
  rw [decodeFor, read]

/-- A call that waits has no effect yet. -/
theorem decode_waits (read : readKeyboard k (code :: codes) = none) :
    decode k (code :: codes) = (k, []) := by
  show decodeFor (codes.length + 1) k (code :: codes) = _
  rw [decodeFor, read]

/-! ### Failed matches -/

/-- The sequences that `read_keyboard` matches. -/
inductive Special where
  | pressed
  | released
  | pause

namespace Special

/-- The codes at its start, which are a key by themselves. -/
def first : Special → List (BitVec 8)
  | pressed => [0xe0, 0x2a]
  | released => [0xe0, 0xb7]
  | pause => [0xe1]

def keyCode : Special → KeyCode
  | pressed => (true, 0x2a)
  | released => (true, 0xb7)
  | pause => (false, 0xe1)

/-- The codes matched. -/
def others : Special → List (BitVec 8)
  | pressed => [0xe0, 0x37]
  | released => [0xe0, 0xaa]
  | pause => pauseKeyCode.tail

/-- **What a failed match takes out**: some of the codes, and another one than the next. -/
def Fails (special : Special) (swallowed : List (BitVec 8)) : Prop :=
  ∃ matched next after code, special.others = matched ++ next :: after ∧ code ≠ next ∧
    swallowed = matched ++ [code]

end Special

/-- The key at the start read as any other key, and the rest of the stream. -/
def decodeAsKey (k : Keyboard) (special : Special) (codes : List (BitVec 8)) : KeyEffect :=
  let (k', stored) := k.normalKey special.keyCode.2 special.keyCode.1
  ((decode k' codes).1, stored.toList ++ (decode k' codes).2)

/-- **The codes swallowed are the release of a key**, other than of a modifier that is held. -/
def Harmless (k : Keyboard) (swallowed : List (BitVec 8)) : Prop :=
  ∃ e : KeyEvent, e.bytes = swallowed ∧ e.presses = false ∧
    ∀ m : Modifier, e.reports m.code = some false → k.held m = false

variable {special : Special}

theorem expect_failed (matched : List (BitVec 8)) {next : BitVec 8} (differs : code ≠ next)
    (after rest : List (BitVec 8)) :
    expect (matched ++ next :: after) (matched ++ code :: rest) = some (false, rest) := by
  induction matched with
  | nil =>
    show (if next ≠ code then pure false else expect after : Pending Bool) rest = _
    rw [if_pos differs.symm]
    rfl
  | cons first matched ih =>
    show (if first ≠ first then pure false else expect (matched ++ next :: after) : Pending Bool)
      (matched ++ code :: rest) = _
    rw [if_neg fun differs => differs rfl]
    exact ih

theorem scan_failed (fails : special.Fails swallowed) (rest : List (BitVec 8)) :
    scanSpecial (special.first ++ (swallowed ++ rest)) =
      some (⟨0, false, special.keyCode.2, special.keyCode.1⟩, rest) := by
  obtain ⟨matched, next, after, code, others, differs, rfl⟩ := fails
  have failed := expect_failed matched differs after rest
  rw [← others] at failed
  rw [List.append_assoc]
  cases special with
  | pressed =>
    exact pending_bind.mpr ⟨0xe0, _, rfl, pending_bind.mpr ⟨0x2a, _, rfl,
      pending_bind.mpr ⟨false, rest, failed, rfl⟩⟩⟩
  | released =>
    exact pending_bind.mpr ⟨0xe0, _, rfl, pending_bind.mpr ⟨0xb7, _, rfl,
      pending_bind.mpr ⟨false, rest, failed, rfl⟩⟩⟩
  | pause => exact pending_bind.mpr ⟨0xe1, _, rfl, pending_bind.mpr ⟨false, rest, failed, rfl⟩⟩

/-- **A failed match is read as the key at its start**, and what it took out is gone. -/
theorem read_failed (fails : special.Fails swallowed) (rest : List (BitVec 8)) :
    readKeyboard k (special.first ++ (swallowed ++ rest)) =
      some (k.normalKey special.keyCode.2 special.keyCode.1, rest) := by
  have scanned := scan_failed fails rest
  cases special with
  | pressed => exact (readKeyboard_eq k _ _).trans (congrArg (Option.map _) scanned)
  | released => exact (readKeyboard_eq k _ _).trans (congrArg (Option.map _) scanned)
  | pause => exact (readKeyboard_eq k _ _).trans (congrArg (Option.map _) scanned)

theorem decode_failed (fails : special.Fails swallowed) (rest : List (BitVec 8)) :
    decode k (special.first ++ (swallowed ++ rest)) = decodeAsKey k special rest := by
  have read := read_failed (k := k) fails rest
  cases special with
  | pressed => exact decode_step read
  | released => exact decode_step read
  | pause => exact decode_step read

/-- The key at the start of a sequence is not in the map, and changes no flag. -/
theorem normalKey_first (k : Keyboard) (special : Special) :
    k.column (keyRow special.keyCode.2) special.keyCode.1 = 0 ∧
      (k.normalKey special.keyCode.2 special.keyCode.1).1 = k := by
  have unmapped : k.column (keyRow special.keyCode.2) special.keyCode.1 = 0 := by
    rw [column_eq]
    cases special with
    | pressed =>
      show (keyRow 0x2a).2.2 = 0
      decide
    | released =>
      show (keyRow 0xb7).2.2 = 0
      decide
    | pause =>
      show (if k.upper _ then (keyRow 0xe1).2.1 else (keyRow 0xe1).1) = 0
      split <;> decide
  refine ⟨unmapped, ?_⟩
  show k.switch _ _ = k
  rw [unmapped]
  rfl

theorem decodeAsKey_eq (k : Keyboard) (special : Special) (codes : List (BitVec 8)) :
    decodeAsKey k special codes = ((decode k codes).1,
      (k.normalKey special.keyCode.2 special.keyCode.1).2.toList ++ (decode k codes).2) := by
  have same : k.normalKey special.keyCode.2 special.keyCode.1 =
      (k, (k.normalKey special.keyCode.2 special.keyCode.1).2) :=
    Prod.ext (normalKey_first k special).2 rfl
  unfold decodeAsKey
  rw [same]

/-- What was swallowed makes no difference to the rest. -/
theorem sameEffect_iff (fails : special.Fails swallowed) (rest : List (BitVec 8)) :
    SameEffect (decode k (special.first ++ (swallowed ++ rest)))
        (decodeAsKey k special (swallowed ++ rest)) ↔
      SameEffect (decode k rest) (decode k (swallowed ++ rest)) := by
  rw [decode_failed fails, decodeAsKey_eq, decodeAsKey_eq]
  exact ⟨fun same => ⟨same.held, same.locked, List.append_cancel_left same.keys⟩,
    fun same => ⟨same.held, same.locked, congrArg (_ ++ ·) same.keys⟩⟩

/-! ### What is harmless -/

/-- Releasing a key that is not held. -/
theorem switch_release {key : Key} (free : ∀ m : Modifier, key = m.key → k.held m = false) :
    k.switch key false = k := by
  have same : ∀ (put : Bool → Keyboard) (m : Modifier), key = m.key → put (k.held m) = k →
      put false = k := fun put m here keeps => free m here ▸ keeps
  unfold Keyboard.switch
  let kept := fun k' : Keyboard => k' = k
  refine iteInduction (motive := kept) (same (fun held => { k with lShift := held }) .lShift · rfl) ?_
  intro _
  refine iteInduction (motive := kept) (same (fun held => { k with rShift := held }) .rShift · rfl) ?_
  intro _
  refine iteInduction (motive := kept) (same (fun held => { k with lCtrl := held }) .lCtrl · rfl) ?_
  intro _
  refine iteInduction (motive := kept) (same (fun held => { k with rCtrl := held }) .rCtrl · rfl) ?_
  intro _
  refine iteInduction (motive := kept) (same (fun held => { k with lAlt := held }) .lAlt · rfl) ?_
  intro _
  refine iteInduction (motive := kept) (same (fun held => { k with rAlt := held }) .rAlt · rfl) ?_
  intro _
  -- the locks change with a press only
  repeat' refine iteInduction (motive := kept) (fun _ => rfl) fun _ => ?_
  rfl

theorem normalKey_release {e : KeyEvent} {codeE0 : Bool} (here : e.code? = some (codeE0, code))
    (released : e.presses = false)
    (free : ∀ m : Modifier, e.reports m.code = some false → k.held m = false) :
    k.normalKey code codeE0 = (k, none) := by
  have broken : decide (code &&& flagBreak = 0) = false := by
    unfold KeyEvent.presses at released
    rw [here] at released
    exact released
  have kept : k.switch (k.column (keyRow code) codeE0) false = k := by
    refine switch_release fun m same => free m ?_
    rw [reports_eq here, if_pos ((column_flag k code codeE0 (modifier_mem m)).mp same), broken]
  unfold Keyboard.normalKey
  rw [broken]
  dsimp only
  rw [kept]
  rfl

/-- **A harmless event changes nothing.** -/
theorem read_harmless {e : KeyEvent} (released : e.presses = false)
    (free : ∀ m : Modifier, e.reports m.code = some false → k.held m = false)
    (rest : List (BitVec 8)) : readKeyboard k (e.bytes ++ rest) = some ((k, none), rest) := by
  cases e with
  | single code plain =>
    rw [← normalKey_release (e := .single code plain) rfl released free]
    exact read_single plain rest
  | extended code plain =>
    rw [← normalKey_release (e := .extended code plain) rfl released free]
    exact read_extended plain rest
  | printScreen make => exact read_special rfl rest
  | pause => exact read_special rfl rest

theorem decode_event (e : KeyEvent) (rest : List (BitVec 8)) {stored : Option Key}
    (read : readKeyboard k (e.bytes ++ rest) = some ((k', stored), rest)) :
    decode k (e.bytes ++ rest) = ((decode k' rest).1, stored.toList ++ (decode k' rest).2) := by
  cases e with
  | single code plain => exact decode_step read
  | extended code plain => exact decode_step read
  | printScreen make => cases make <;> exact decode_step read
  | pause => exact decode_step read

theorem decode_harmless (harmless : Harmless k swallowed) (rest : List (BitVec 8)) :
    decode k (swallowed ++ rest) = decode k rest := by
  obtain ⟨e, rfl, released, free⟩ := harmless
  exact decode_event e rest (read_harmless released free rest)

/-- A press gives a key. -/
theorem decode_press {e : KeyEvent} (presses : e.presses = true) (rest : List (BitVec 8)) :
    (decode k (e.bytes ++ rest)).2 ≠ [] := by
  obtain ⟨k', stored, read, decoded⟩ := readKeyboard_decodes k e rest
  obtain ⟨key, rfl, -⟩ := decoded.stores presses
  rw [decode_event e rest read]
  exact List.cons_ne_nil _ _

/-- An event without effect is harmless. -/
theorem harmless_of_event (e : KeyEvent) (same : SameEffect (decode k []) (decode k (e.bytes ++ []))) :
    Harmless k e.bytes := by
  obtain ⟨k', stored, read, decoded⟩ := readKeyboard_decodes k e []
  have effect := decode_event e [] read
  refine ⟨e, rfl, ?_, fun m reports => ?_⟩
  · cases presses : e.presses with
    | false => rfl
    | true => exact absurd same.keys.symm (decode_press presses [])
  · have held := same.held m
    rw [effect] at held
    refine held.trans ?_
    show k'.held m = false
    rw [decoded.held, reports]
    rfl

/-! ### What a failed match loses -/

/-- Codes that hide a key behind them. -/
theorem not_same {rest : List (BitVec 8)} (hidden : (decode k (swallowed ++ rest)).2 = [])
    (key : (decode k rest).2 ≠ []) : ¬ SameEffect (decode k rest) (decode k (swallowed ++ rest)) :=
  fun same => key (same.keys.trans hidden)

/-- A code by itself, other than the start of a sequence, is an event; a start hides what follows. -/
theorem harmless_of_code
    (same : ∀ rest, SameEffect (decode k rest) (decode k ([code] ++ rest))) : Harmless k [code] := by
  by_cases starts : code = 0xe0
  · subst starts
    refine absurd (same [0x2a]) (not_same ?_ ?_)
    · exact congrArg Prod.snd (decode_waits rfl)
    · exact decode_press (e := .single 0x2a (by decide)) rfl []
  · by_cases pauses : code = 0xe1
    · subst pauses
      refine absurd (same [0x1d]) (not_same ?_ ?_)
      · exact congrArg Prod.snd (decode_waits rfl)
      · exact decode_press (e := .single 0x1d (by decide)) rfl []
    · exact harmless_of_event (.single code ⟨starts, pauses⟩) (same [])

/-- A code behind `e0`. -/
theorem harmless_of_extended
    (same : ∀ rest, SameEffect (decode k rest) (decode k ([0xe0, code] ++ rest))) :
    Harmless k [0xe0, code] := by
  by_cases presses : code = 0x2a
  · subst presses
    refine absurd (same [0xe0, 0x37]) (not_same ?_ ?_)
    · exact congrArg Prod.snd (decode_event (.printScreen true) [] (read_special rfl []))
    · exact decode_press (e := .extended 0x37 (by decide)) rfl []
  · by_cases releases : code = 0xb7
    · subst releases
      refine absurd (same [0x1d]) (not_same ?_ ?_)
      · have fails : Special.released.Fails [0x1d] := ⟨[], 0xe0, [0xaa], 0x1d, rfl, by decide, rfl⟩
        exact congrArg Prod.snd (decode_failed fails [])
      · exact decode_press (e := .single 0x1d (by decide)) rfl []
    · exact harmless_of_event (.extended code ⟨presses, releases⟩) (same [])

/-- **Only harmless codes are not missed.** -/
theorem harmless_of_same (fails : special.Fails swallowed)
    (same : ∀ rest, SameEffect (decode k rest) (decode k (swallowed ++ rest))) :
    Harmless k swallowed := by
  obtain ⟨matched, next, after, code, others, -, rfl⟩ := fails
  cases matched with
  | nil => exact harmless_of_code same
  | cons first matched =>
    cases special with
    | pressed | released =>
      obtain ⟨rfl, tail⟩ := List.cons.inj others
      cases matched with
      | nil => exact harmless_of_extended same
      | cons second matched => exact absurd (List.cons.inj tail).2 (by simp)
    | pause =>
      obtain ⟨rfl, -⟩ := List.cons.inj others
      have press : (decode k (([0x1d] ++ (matched ++ [code])) ++ [])).2 ≠ [] := by
        rw [List.append_assoc]
        exact decode_press (e := .single 0x1d (by decide)) rfl _
      exact absurd (same []).keys.symm press

/-- **A failed match loses nothing exactly when what it swallowed is harmless**: for every state of the
decoder, and every way to fail, decoding has the effect of reading the key at the start and then all
the codes behind it, whatever follows, iff the codes swallowed are the release of a key that is not a
modifier held. -/
theorem swallow_iff (k : Keyboard) (special : Special) (swallowed : List (BitVec 8))
    (fails : special.Fails swallowed) :
    (∀ rest, SameEffect (decode k (special.first ++ (swallowed ++ rest)))
      (decodeAsKey k special (swallowed ++ rest))) ↔ Harmless k swallowed := by
  refine (forall_congr' fun rest => sameEffect_iff fails rest).trans ⟨harmless_of_same fails, ?_⟩
  intro harmless rest
  rw [decode_harmless harmless rest]
  exact ⟨fun _ => rfl, fun _ => rfl, rfl⟩

/-- **Home behind a fake Shift is lost, and the release of Ctrl behind a fake PrintScreen release.** -/
theorem swallow_loses :
    let ctrl := { initKeyboard with lCtrl := true }
    ((decode initKeyboard [0xe0, 0x2a, 0xe0, 0x47]).2 = [0] ∧
      (decodeAsKey initKeyboard .pressed [0xe0, 0x47]).2 = [0, Key.home]) ∧
    ((decode ctrl [0xe0, 0xb7, 0x9d]).1.lCtrl = true ∧
      (decodeAsKey ctrl .released [0x9d]).1.lCtrl = false) ∧
    ¬ SameEffect (decode initKeyboard (Special.first .pressed ++ [0xe0, 0x47]))
      (decodeAsKey initKeyboard .pressed [0xe0, 0x47]) := by
  have home : (decode initKeyboard [0xe0, 0x2a, 0xe0, 0x47]).2 = [0] := by decide
  have key : (decodeAsKey initKeyboard .pressed [0xe0, 0x47]).2 = [0, Key.home] := by decide
  refine ⟨⟨home, key⟩, by decide, fun same => ?_⟩
  have keys := same.keys
  rw [key] at keys
  exact absurd (home.symm.trans keys) (by decide)

/-- A fake Shift, and the release of Space behind it. -/
theorem swallow_space : (∀ rest, SameEffect
      (decode initKeyboard (Special.first .pressed ++ ([0xb9] ++ rest)))
      (decodeAsKey initKeyboard .pressed ([0xb9] ++ rest))) ↔ Harmless initKeyboard [0xb9] :=
  swallow_iff initKeyboard .pressed [0xb9] ⟨[], 0xe0, [0x37], 0xb9, rfl, by decide, rfl⟩

end WalOS
