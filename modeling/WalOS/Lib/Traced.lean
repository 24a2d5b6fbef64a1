/-
**Computations that log their table accesses and may stop.**

`Traced ι ε α` is a run of imperative code that indexes a table: the list of the indices it used, in
order, and its outcome, a value or the reason it stopped.

* `Traced.Sat x acc post err` — every index logged by `x` satisfies `acc`, a value it returns
  satisfies `post`, a reason it stops for satisfies `err`. One rule for each way to build a
  computation (`Sat.pure`, `Sat.stop`, `Sat.touch`, `Sat.check`, `Sat.bind`, `Sat.ite`).
* `Traced.loop exhausted body fuel` — the loop that runs `body` until it answers `.inr`, stopping
  with `exhausted` when `fuel` runs out. `Sat.loop`: under an invariant that the body keeps and a
  rank that it lowers, any fuel above the rank is enough, so `exhausted` is never the reason.
* `outcome_bind`, `accesses_bind_ok` — how the two parts of a run compose.
* `runAll`, `runAll_keeps` — a list of operations, and what each of them keeps.
-/

import Mathlib.Data.Nat.Basic

/-- A run of code over a table with indices `ι`: the indices used, and the value or the reason for
stopping. -/
structure Traced (ι ε α : Type) where
  accesses : List ι
  outcome : Except ε α

namespace Traced

variable {ι ε α β σ ρ : Type}

/-- Stop for the given reason. -/
def stop (reason : ε) : Traced ι ε α := ⟨[], .error reason⟩

/-- Use one index. -/
def touch (index : ι) : Traced ι ε Unit := ⟨[index], .ok ()⟩

instance : Monad (Traced ι ε) where
  pure value := ⟨[], .ok value⟩
  bind x next :=
    match x.outcome with
    | .ok value => ⟨x.accesses ++ (next value).accesses, (next value).outcome⟩
    | .error reason => ⟨x.accesses, .error reason⟩

/-- Go on only if the condition holds. -/
def check (condition : Prop) [Decidable condition] (reason : ε) : Traced ι ε Unit :=
  if condition then pure () else stop reason

/-- The loop that runs `body` until it answers `.inr`, with `fuel` rounds at most. -/
def loop (exhausted : ε) (body : σ → Traced ι ε (σ ⊕ ρ)) : ℕ → σ → Traced ι ε ρ
  | 0, _ => stop exhausted
  | fuel + 1, state => do
      match ← body state with
      | .inl state' => loop exhausted body fuel state'
      | .inr result => pure result

/-- The run returns. -/
def returns (x : Traced ι ε α) : Bool :=
  match x.outcome with
  | .ok _ => true
  | .error _ => false

/-- The value returned, or a default. -/
def getD (x : Traced ι ε α) (default : α) : α :=
  match x.outcome with
  | .ok value => value
  | .error _ => default

/-! ### The two parts of a run -/

theorem outcome_getD {x : Traced ι ε α} (done : x.returns = true) (default : α) :
    x.outcome = .ok (x.getD default) := by
  unfold returns at done
  unfold getD
  cases found : x.outcome with
  | ok value => rfl
  | error reason => rw [found] at done; cases done

@[simp] theorem outcome_pure (value : α) : (pure value : Traced ι ε α).outcome = .ok value := rfl

@[simp] theorem accesses_pure (value : α) : (pure value : Traced ι ε α).accesses = [] := rfl

@[simp] theorem outcome_stop (reason : ε) : (stop reason : Traced ι ε α).outcome = .error reason :=
  rfl

@[simp] theorem accesses_stop (reason : ε) : (stop reason : Traced ι ε α).accesses = [] := rfl

@[simp] theorem outcome_touch (index : ι) : (touch index : Traced ι ε Unit).outcome = .ok () := rfl

@[simp] theorem accesses_touch (index : ι) : (touch index : Traced ι ε Unit).accesses = [index] :=
  rfl

@[simp] theorem outcome_bind (x : Traced ι ε α) (next : α → Traced ι ε β) :
    (x >>= next).outcome = x.outcome.bind fun value => (next value).outcome := by
  rcases x with ⟨accesses, _ | value⟩ <;> rfl

theorem bind_of_ok {x : Traced ι ε α} {value : α} (returned : x.outcome = .ok value)
    (next : α → Traced ι ε β) :
    x >>= next = ⟨x.accesses ++ (next value).accesses, (next value).outcome⟩ := by
  show (match x.outcome with
    | .ok value => (⟨x.accesses ++ (next value).accesses, (next value).outcome⟩ : Traced ι ε β)
    | .error reason => ⟨x.accesses, .error reason⟩) = _
  rw [returned]

theorem bind_of_error {x : Traced ι ε α} {reason : ε} (stopped : x.outcome = .error reason)
    (next : α → Traced ι ε β) : x >>= next = ⟨x.accesses, .error reason⟩ := by
  show (match x.outcome with
    | .ok value => (⟨x.accesses ++ (next value).accesses, (next value).outcome⟩ : Traced ι ε β)
    | .error reason => ⟨x.accesses, .error reason⟩) = _
  rw [stopped]

theorem accesses_bind_ok {x : Traced ι ε α} {value : α} (returned : x.outcome = .ok value)
    (next : α → Traced ι ε β) : (x >>= next).accesses = x.accesses ++ (next value).accesses := by
  rw [bind_of_ok returned]

theorem outcome_check {condition : Prop} [Decidable condition] (holds : condition) (reason : ε) :
    (check condition reason : Traced ι ε Unit).outcome = .ok () := by
  unfold check
  rw [if_pos holds]
  rfl

/-- An index used by the first half is used. -/
theorem mem_bind_left {x : Traced ι ε α} {next : α → Traced ι ε β} {index : ι}
    (member : index ∈ x.accesses) : index ∈ (x >>= next).accesses := by
  cases found : x.outcome with
  | ok value => exact accesses_bind_ok found next ▸ List.mem_append_left _ member
  | error reason => exact bind_of_error found next ▸ member

/-- An index used after a first half that returns is used. -/
theorem mem_bind_right {x : Traced ι ε α} {next : α → Traced ι ε β} {value : α} {index : ι}
    (returned : x.outcome = .ok value) (member : index ∈ (next value).accesses) :
    index ∈ (x >>= next).accesses :=
  accesses_bind_ok returned next ▸ List.mem_append_right _ member

theorem map_id (x : Traced ι ε α) : (id <$> x) = x := by
  rcases x with ⟨log, _ | value⟩
  · rfl
  · exact congrArg (Traced.mk · _) (List.append_nil log)

theorem bind_bind (x : Traced ι ε α) (f : α → Traced ι ε β) (g : β → Traced ι ε ρ) :
    x >>= f >>= g = x >>= fun value => f value >>= g := by
  cases found : x.outcome with
  | error reason =>
    rw [bind_of_error found, bind_of_error found]
    rfl
  | ok value =>
    rw [bind_of_ok found, bind_of_ok found]
    cases middle : (f value).outcome with
    | error reason => rw [bind_of_error (x := f value) middle, bind_of_error rfl]
    | ok value' =>
      rw [bind_of_ok (x := f value) middle, bind_of_ok rfl, List.append_assoc]

instance : LawfulMonad (Traced ι ε) := LawfulMonad.mk' _ map_id (fun _ _ => rfl) bind_bind

/-- A returned value comes from a returned value of the first half. -/
theorem bind_eq_ok {x : Traced ι ε α} {next : α → Traced ι ε β} {result : β} :
    (x >>= next).outcome = .ok result ↔
      ∃ value, x.outcome = .ok value ∧ (next value).outcome = .ok result := by
  rw [outcome_bind]
  rcases x.outcome with reason | value
  · constructor
    · intro same
      cases same
    · rintro ⟨_, same, _⟩
      cases same
  · constructor
    · exact fun same => ⟨value, rfl, same⟩
    · rintro ⟨_, same, rest⟩
      cases same
      exact rest

/-- A loop whose first round is its last. -/
theorem loop_done {exhausted : ε} {body : σ → Traced ι ε (σ ⊕ ρ)} {state : σ} {result : ρ}
    (done : body state = pure (.inr result)) (fuel : ℕ) :
    loop exhausted body (fuel + 1) state = pure result := by
  rw [loop, done]
  rfl

/-- A round that goes on, and one that ends the loop. -/
theorem loop_inl {exhausted : ε} {body : σ → Traced ι ε (σ ⊕ ρ)} {state state' : σ} {log : List ι}
    (goes : body state = ⟨log, .ok (.inl state')⟩) (fuel : ℕ) :
    loop exhausted body (fuel + 1) state =
      ⟨log ++ (loop exhausted body fuel state').accesses,
        (loop exhausted body fuel state').outcome⟩ := by
  rw [loop, goes]
  rfl

theorem loop_inr {exhausted : ε} {body : σ → Traced ι ε (σ ⊕ ρ)} {state : σ} {result : ρ}
    {log : List ι} (ends : body state = ⟨log, .ok (.inr result)⟩) (fuel : ℕ) :
    loop exhausted body (fuel + 1) state = ⟨log, .ok result⟩ := by
  rw [loop, ends]
  show (⟨log ++ [], .ok result⟩ : Traced ι ε ρ) = _
  rw [List.append_nil]

/-- An index used by the first round of a loop is used. -/
theorem mem_loop {exhausted : ε} {body : σ → Traced ι ε (σ ⊕ ρ)} {fuel : ℕ} (some : 0 < fuel)
    {state : σ} {index : ι} (member : index ∈ (body state).accesses) :
    index ∈ (loop exhausted body fuel state).accesses := by
  obtain ⟨fuel, rfl⟩ := Nat.exists_eq_add_one_of_ne_zero (Nat.ne_of_gt some)
  exact mem_bind_left member

/-! ### Runs that return -/

/-- The run logs `log` and returns `a`. -/
def Gives (x : Traced ι ε α) (log : List ι) (a : α) : Prop := x = ⟨log, .ok a⟩

namespace Gives

theorem pure (a : α) : (Pure.pure a : Traced ι ε α).Gives [] a := rfl

theorem ok (log : List ι) (a : α) : (⟨log, .ok a⟩ : Traced ι ε α).Gives log a := rfl

theorem touch (index : ι) : (touch index : Traced ι ε Unit).Gives [index] () := rfl

theorem check {condition : Prop} [Decidable condition] (holds : condition) (reason : ε) :
    (check condition reason : Traced ι ε Unit).Gives [] () := if_pos holds

theorem bind {x : Traced ι ε α} {next : α → Traced ι ε β} {log log' : List ι} {a : α} {b : β}
    (first : x.Gives log a) (rest : (next a).Gives log' b) : (x >>= next).Gives (log ++ log') b := by
  rw [Gives] at first rest ⊢
  rw [first, bind_of_ok rfl, rest]

theorem bind_eq {x : Traced ι ε α} {log : List ι} {a : α} (gives : x.Gives log a)
    (next : α → Traced ι ε β) : x >>= next = ⟨log ++ (next a).accesses, (next a).outcome⟩ := by
  rw [Gives] at gives
  rw [gives, bind_of_ok rfl]

/-- Nothing is used after the first half. -/
theorem bind_nil {x : Traced ι ε α} {next : α → Traced ι ε β} {log : List ι} {a : α} {b : β}
    (first : x.Gives log a) (rest : (next a).Gives [] b) : (x >>= next).Gives log b :=
  List.append_nil log ▸ first.bind rest

/-- An index used, and a condition checked, before going on. -/
theorem touch_bind {index : ι} {next : Unit → Traced ι ε α} {log : List ι} {a : α}
    (rest : (next ()).Gives log a) : (Traced.touch index >>= next).Gives (index :: log) a :=
  (touch index).bind rest

theorem check_bind {condition : Prop} [Decidable condition] (holds : condition) {reason : ε}
    {next : Unit → Traced ι ε α} {log : List ι} {a : α} (rest : (next ()).Gives log a) :
    (Traced.check condition reason >>= next).Gives log a :=
  (check holds reason).bind rest

theorem outcome {x : Traced ι ε α} {log : List ι} {a : α} (gives : x.Gives log a) :
    x.outcome = .ok a := congrArg Traced.outcome gives

theorem accesses {x : Traced ι ε α} {log : List ι} {a : α} (gives : x.Gives log a) :
    x.accesses = log := congrArg Traced.accesses gives

theorem unique {x : Traced ι ε α} {log log' : List ι} {a a' : α} (gives : x.Gives log a)
    (gives' : x.Gives log' a') : log = log' ∧ a = a' := by
  have same : (⟨log, .ok a⟩ : Traced ι ε α) = ⟨log', .ok a'⟩ := Eq.trans (Eq.symm gives) gives'
  cases same
  exact ⟨rfl, rfl⟩

theorem outcome_bind {x : Traced ι ε α} {log : List ι} {a : α} (gives : x.Gives log a)
    (next : α → Traced ι ε β) : (x >>= next).outcome = (next a).outcome := by
  rw [bind_of_ok gives.outcome]

/-- A round of a loop, and its last one. -/
theorem loop_inl {exhausted : ε} {body : σ → Traced ι ε (σ ⊕ ρ)} {state state' : σ} {log log' : List ι}
    {result : ρ} {fuel : ℕ} (round : (body state).Gives log (.inl state'))
    (rest : (loop exhausted body fuel state').Gives log' result) :
    (loop exhausted body (fuel + 1) state).Gives (log ++ log') result := by
  rw [Gives, Traced.loop_inl round, rest.accesses, rest.outcome]

theorem loop_inr {exhausted : ε} {body : σ → Traced ι ε (σ ⊕ ρ)} {state : σ} {log : List ι}
    {result : ρ} (round : (body state).Gives log (.inr result)) (fuel : ℕ) :
    (loop exhausted body (fuel + 1) state).Gives log result :=
  Traced.loop_inr round fuel

theorem accesses_bind {x : Traced ι ε α} {log : List ι} {a : α} (gives : x.Gives log a)
    (next : α → Traced ι ε β) : (x >>= next).accesses = log ++ (next a).accesses := by
  rw [accesses_bind_ok gives.outcome, gives.accesses]

end Gives

/-! ### Specifications -/

/-- **The specification of a run**: its indices satisfy `acc`, its value `post`, its reason for
stopping `err`. -/
structure Sat (x : Traced ι ε α) (acc : ι → Prop) (post : α → Prop) (err : ε → Prop) : Prop where
  access : ∀ index ∈ x.accesses, acc index
  value : ∀ result, x.outcome = .ok result → post result
  stopped : ∀ reason, x.outcome = .error reason → err reason

namespace Sat

variable {acc acc' : ι → Prop} {post post' : α → Prop} {err err' : ε → Prop}

theorem mono {x : Traced ι ε α} (holds : x.Sat acc post err) (accImp : ∀ i, acc i → acc' i)
    (postImp : ∀ a, post a → post' a) (errImp : ∀ e, err e → err' e) : x.Sat acc' post' err' :=
  ⟨fun i member => accImp i (holds.access i member), fun a same => postImp a (holds.value a same),
    fun e same => errImp e (holds.stopped e same)⟩

/-- A run that stops for no reason returns. -/
theorem returns {x : Traced ι ε α} (holds : x.Sat acc post fun _ => False) :
    ∃ a, x.outcome = .ok a := by
  cases found : x.outcome with
  | ok a => exact ⟨a, rfl⟩
  | error reason => exact (holds.stopped reason found).elim

theorem pure {a : α} (here : post a) : (Pure.pure a : Traced ι ε α).Sat acc post err :=
  ⟨fun _ member => absurd member List.not_mem_nil, fun _ same => Except.ok.inj same ▸ here,
    fun _ same => (nomatch same)⟩

theorem stop {reason : ε} (here : err reason) : (stop reason : Traced ι ε α).Sat acc post err :=
  ⟨fun _ member => absurd member List.not_mem_nil, fun _ same => (nomatch same),
    fun _ same => Except.error.inj same ▸ here⟩

theorem touch {index : ι} {post : Unit → Prop} (inside : acc index) (here : post ()) :
    (touch index : Traced ι ε Unit).Sat acc post err :=
  ⟨fun i member => by rw [accesses_touch, List.mem_singleton] at member; exact member ▸ inside,
    fun _ _ => here, fun _ same => (nomatch same)⟩

theorem check {condition : Prop} [Decidable condition] {reason : ε} {post : Unit → Prop}
    (yes : condition → post ()) (no : ¬ condition → err reason) :
    (check condition reason : Traced ι ε Unit).Sat acc post err := by
  unfold Traced.check
  split
  · exact Sat.pure (yes ‹_›)
  · exact Sat.stop (no ‹_›)

theorem bind {x : Traced ι ε α} {next : α → Traced ι ε β} {middle : α → Prop} {post : β → Prop}
    (first : x.Sat acc middle err) (rest : ∀ a, middle a → (next a).Sat acc post err) :
    (x >>= next).Sat acc post err := by
  cases found : x.outcome with
  | ok a =>
    have after := rest a (first.value a found)
    rw [bind_of_ok found]
    refine ⟨fun i member => ?_, after.value, after.stopped⟩
    rcases List.mem_append.mp member with early | late
    · exact first.access i early
    · exact after.access i late
  | error e =>
    rw [bind_of_error found]
    exact ⟨first.access, fun _ same => (nomatch same),
      fun _ same => Except.error.inj same ▸ first.stopped e found⟩

/-- An index used before going on. -/
theorem touch_bind {index : ι} {next : Unit → Traced ι ε α} (inside : acc index)
    (rest : (next ()).Sat acc post err) : (Traced.touch index >>= next).Sat acc post err :=
  bind (touch inside trivial : (Traced.touch index).Sat acc (fun _ => True) err) fun _ _ => rest

/-- A condition checked before going on. -/
theorem check_bind {condition : Prop} [Decidable condition] {reason : ε}
    {next : Unit → Traced ι ε α} (no : ¬ condition → err reason)
    (rest : condition → (next ()).Sat acc post err) :
    (Traced.check condition reason >>= next).Sat acc post err :=
  bind (check id no) fun _ holds => rest holds

theorem ite {condition : Prop} [Decidable condition] {x y : Traced ι ε α}
    (yes : condition → x.Sat acc post err) (no : ¬ condition → y.Sat acc post err) :
    (if condition then x else y).Sat acc post err := by
  split
  · exact yes ‹_›
  · exact no ‹_›

/-- **The total-correctness rule of the loop.** -/
theorem loop {exhausted : ε} {body : σ → Traced ι ε (σ ⊕ ρ)} {post : ρ → Prop} (inv : σ → Prop)
    (rank : σ → ℕ)
    (step : ∀ s, inv s → (body s).Sat acc
      (Sum.elim (fun s' => inv s' ∧ rank s' < rank s) post) err) :
    ∀ fuel s, inv s → rank s < fuel → (Traced.loop exhausted body fuel s).Sat acc post err := by
  intro fuel
  induction fuel with
  | zero => exact fun s _ small => absurd small (Nat.not_lt_zero _)
  | succ fuel ih =>
    intro s holds small
    refine (step s holds).bind fun answer good => ?_
    cases answer with
    | inl s' => exact ih s' good.1 (Nat.lt_of_lt_of_le good.2 (Nat.lt_succ_iff.mp small))
    | inr result => exact Sat.pure good

/-- The partial-correctness rule of the loop: it may also run out of fuel. -/
theorem loop_partial {exhausted : ε} {body : σ → Traced ι ε (σ ⊕ ρ)} {post : ρ → Prop}
    (inv : σ → Prop) (step : ∀ s, inv s → (body s).Sat acc (Sum.elim inv post) err)
    (ends : err exhausted) :
    ∀ fuel s, inv s → (Traced.loop exhausted body fuel s).Sat acc post err := by
  intro fuel
  induction fuel with
  | zero => exact fun s _ => Sat.stop ends
  | succ fuel ih =>
    intro s holds
    refine (step s holds).bind fun answer good => ?_
    cases answer with
    | inl s' => exact ih s' good
    | inr result => exact Sat.pure good

end Sat

/-! ### Logs -/

/-- Whatever the run does, its indices satisfy `acc`. -/
abbrev Logs (acc : ι → Prop) (x : Traced ι ε α) : Prop := x.Sat acc (fun _ => True) fun _ => True

namespace Logs

variable {acc acc' : ι → Prop} {x : Traced ι ε α}

theorem mono (logs : Logs acc x) (weaker : ∀ i, acc i → acc' i) : Logs acc' x :=
  Sat.mono logs weaker (fun _ _ => trivial) fun _ _ => trivial

theorem pure (a : α) : Logs acc (Pure.pure a : Traced ι ε α) := Sat.pure trivial

theorem stop (reason : ε) : Logs acc (Traced.stop reason : Traced ι ε α) := Sat.stop trivial

theorem touch {index : ι} (inside : acc index) : Logs acc (Traced.touch index : Traced ι ε Unit) :=
  Sat.touch inside trivial

theorem check {condition : Prop} [Decidable condition] {reason : ε} :
    Logs acc (Traced.check condition reason) :=
  Sat.check (fun _ => trivial) fun _ => trivial

theorem bind {next : α → Traced ι ε β} (first : Logs acc x) (rest : ∀ a, Logs acc (next a)) :
    Logs acc (x >>= next) :=
  Sat.bind first fun a _ => rest a

theorem loop {exhausted : ε} {body : σ → Traced ι ε (σ ⊕ ρ)} (round : ∀ s, Logs acc (body s))
    (fuel : ℕ) (s : σ) : Logs acc (Traced.loop exhausted body fuel s) :=
  Sat.loop_partial (fun _ => True) (fun s _ => Sat.mono (round s) (fun _ here => here)
    (fun answer _ => by cases answer <;> trivial) fun _ here => here) trivial fuel s trivial

theorem foldlM {l : List β} {step : α → β → Traced ι ε α} (each : ∀ b ∈ l, ∀ a, Logs acc (step a b))
    (a : α) : Logs acc (l.foldlM step a) := by
  induction l generalizing a with
  | nil => exact .pure a
  | cons b l ih =>
    rw [List.foldlM_cons]
    exact .bind (each b List.mem_cons_self a) fun a' =>
      ih (fun b' member => each b' (List.mem_cons_of_mem b member)) a'

end Logs

/-! ### Runs of many steps -/

/-- One step for each operation of a list. -/
def runAll {op : Type} (step : op → σ → Traced ι ε σ) : List op → σ → Traced ι ε σ
  | [], state => pure state
  | o :: ops, state => step o state >>= runAll step ops

section RunAll

variable {op : Type} {step : op → σ → Traced ι ε σ} {state state' : σ}

theorem runAll_append (ops ops' : List op) (state : σ) :
    runAll step (ops ++ ops') state = runAll step ops state >>= runAll step ops' := by
  induction ops generalizing state with
  | nil => rfl
  | cons o ops ih =>
    show (step o state >>= runAll step (ops ++ ops')) = (step o state >>= runAll step ops) >>= _
    rw [bind_bind]
    exact congrArg _ (funext ih)

theorem outcome_runAll_cons {o : op} (first : (step o state).outcome = .ok state') (ops : List op) :
    (runAll step (o :: ops) state).outcome = (runAll step ops state').outcome := by
  show (step o state >>= runAll step ops).outcome = _
  rw [bind_of_ok first]

/-- The outcome after a step is what it makes of the state before. -/
theorem runAll_take_succ {ops : List op} {n : ℕ} {o : op} (here : ops[n]? = some o)
    (returned : (runAll step (ops.take n) state).outcome = .ok state') :
    (runAll step (ops.take (n + 1)) state).outcome = (step o state').outcome := by
  have one : runAll step [o] state' = step o state' := bind_pure _
  rw [List.take_add_one, here, runAll_append, bind_of_ok returned, Option.toList_some, one]

/-- What every step keeps, every run keeps. -/
theorem runAll_keeps {kept : σ → Prop} {ops : List op}
    (keeps : ∀ o ∈ ops, ∀ s s', kept s → (step o s).outcome = .ok s' → kept s') (start : kept state)
    (returned : (runAll step ops state).outcome = .ok state') : kept state' := by
  induction ops generalizing state with
  | nil =>
    cases returned
    exact start
  | cons o ops ih =>
    obtain ⟨s₁, first, rest⟩ := bind_eq_ok.mp returned
    exact ih (fun o member => keeps o (List.mem_cons_of_mem _ member))
      (keeps o List.mem_cons_self state s₁ start first) rest

end RunAll

/-- A run that returns with a log satisfies what its entries satisfy. -/
theorem Gives.logs {acc : ι → Prop} {x : Traced ι ε α} {log : List ι} {a : α} (gives : x.Gives log a)
    (all : ∀ i ∈ log, acc i) : Logs acc x :=
  ⟨fun i member => all i (gives.accesses ▸ member), fun _ _ => trivial, fun _ _ => trivial⟩

end Traced
