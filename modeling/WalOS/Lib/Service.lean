/-
**Request and reply between callers and servers.**

A caller asks a server and waits for its reply: its request is `queued`, then `held` by the server,
then `answered`. A server is free, listens, or deals with one request, which has `arrived`, is being
served, or whose reply waits for the caller to come and collect it. A server may itself be a caller
while it serves. `Rules` says who may ask whom; asking goes down a rank.

* `State.Consistent` — a server holds the request of a caller exactly when the caller is held by it,
  a caller that does not come for its reply is not blocked, and the ledger of what was served is the
  ledger of what was completed with what is outstanding.
* `Consistent.meet` — what a change of one caller and one server has to keep; `Consistent.gets`,
  `Consistent.answers` and the like — what each kind of step changes; `Consistent.step` — every step
  keeps the invariant.
* `Consistent.ask_safe`, `Consistent.reply_safe` — blocked callers and blocked servers never close a
  cycle: neither a request nor a reply is sent towards somebody who waits for the sender.
-/

import Mathlib.Logic.Relation
import Mathlib.Logic.Function.Basic
import Mathlib.Data.Nat.Basic

namespace Service

variable {P Q R : Type}

/-! ### Callers and servers -/

inductive Caller (P Q R : Type) where
  | idle
  | queued (server : P) (request : Q)
  | held (server : P) (request : Q) (waiting : Bool)
  | answered (server : P) (request : Q) (reply : R)

inductive Server (P Q R : Type) where
  | free
  | listening
  | arrived (caller : P) (request : Q)
  | serving (caller : P) (request : Q) (reply : R)
  | replying (caller : P) (request : Q) (reply : R)

/-- A request with its reply. -/
structure Record (P Q R : Type) where
  server : P
  request : Q
  reply : R

structure State (P Q R : Type) where
  caller : P → Caller P Q R
  server : P → Server P Q R
  served : P → List (Record P Q R)
  completed : P → List (Record P Q R)

/-- Who may ask whom. -/
structure Rules (P : Type) where
  asks : P → P → Prop
  serves : P → Prop
  rank : P → ℕ
  lower : ∀ p v, asks p v → rank v < rank p
  server : ∀ p v, asks p v → serves v

/-- The caller's request is for `v`. -/
def Caller.To : Caller P Q R → P → Prop
  | .idle, _ => False
  | .queued server _, v => server = v
  | .held server _ _, v => server = v
  | .answered server _ _, v => server = v

/-- The server deals with the request of `p`. -/
def Server.Holds : Server P Q R → P → Q → Prop
  | .arrived caller request, p, q => caller = p ∧ request = q
  | .serving caller request _, p, q => caller = p ∧ request = q
  | .replying caller request _, p, q => caller = p ∧ request = q
  | _, _, _ => False

/-- The reply that the server has made. -/
def Server.made : Server P Q R → List R
  | .serving _ _ reply => [reply]
  | .replying _ _ reply => [reply]
  | _ => []

/-- What was served to `p` and has not been completed. -/
def State.outstanding (s : State P Q R) (p : P) : List (Record P Q R) :=
  match s.caller p with
  | .answered v q r => [⟨v, q, r⟩]
  | .held v q _ => (s.server v).made.map fun r => ⟨v, q, r⟩
  | _ => []

/-- `x` is blocked on `y`, with a request or with a reply. -/
def State.Edge (s : State P Q R) (x y : P) : Prop :=
  (∃ q, s.caller x = .queued y q) ∨ ∃ q r, s.server x = .replying y q r

/-- **The invariant.** -/
structure State.Consistent (rules : Rules P) (s : State P Q R) : Prop where
  asks : ∀ p v, (s.caller p).To v → rules.asks p v
  held : ∀ p v q, (∃ waiting, s.caller p = .held v q waiting) ↔ (s.server v).Holds p q
  still : ∀ v p q r, s.server v = .replying p q r → s.caller p = .held v q false
  busy : ∀ v, s.caller v ≠ .idle → rules.serves v → ∃ p q r, s.server v = .serving p q r
  client : ∀ v, ¬ rules.serves v → s.server v = .free
  ledger : ∀ p, s.served p = s.completed p ++ s.outstanding p

variable [DecidableEq P]

/-- Change one caller with its ledgers, and one server. -/
def State.meet (s : State P Q R) (p : P) (c : Caller P Q R) (v : P) (w : Server P Q R)
    (served completed : List (Record P Q R)) : State P Q R where
  caller := Function.update s.caller p c
  server := Function.update s.server v w
  served := Function.update s.served p served
  completed := Function.update s.completed p completed

/-- Change one caller and one server. -/
abbrev State.turn (s : State P Q R) (p : P) (c : Caller P Q R) (v : P) (w : Server P Q R) :
    State P Q R :=
  s.meet p c v w (s.served p) (s.completed p)

/-- **One step.** -/
inductive Step (rules : Rules P) (s : State P Q R) : State P Q R → Prop where
  | askPass {p v : P} {q : Q} : s.caller p = .idle →
      (rules.serves p → ∃ x y r, s.server p = .serving x y r) → rules.asks p v →
      s.server v = .listening →
      Step rules s (s.turn p (.held v q false) v (.arrived p q))
  | askQueue {p v : P} {q : Q} : s.caller p = .idle →
      (rules.serves p → ∃ x y r, s.server p = .serving x y r) → rules.asks p v →
      Step rules s (s.turn p (.queued v q) v (s.server v))
  | collectTake {p v : P} {q : Q} {r : R} : s.server v = .replying p q r →
      Step rules s (s.turn p (.answered v q r) v .free)
  | collectWait {p v : P} {q : Q} : s.caller p = .held v q false →
      (∀ x y r, s.server v ≠ .replying x y r) →
      Step rules s (s.turn p (.held v q true) v (s.server v))
  | finish {p v : P} {q : Q} {r : R} : s.caller p = .answered v q r →
      Step rules s (s.meet p .idle v (s.server v) (s.served p) (s.completed p ++ [⟨v, q, r⟩]))
  | listenTake {p v : P} {q : Q} : s.server v = .free → s.caller p = .queued v q →
      Step rules s (s.turn p (.held v q false) v (.arrived p q))
  | listenWait {v : P} : rules.serves v → s.server v = .free →
      Step rules s (s.turn v (s.caller v) v .listening)
  | accept {p v : P} {q : Q} {r : R} : s.server v = .arrived p q →
      Step rules s
        (s.meet p (s.caller p) v (.serving p q r) (s.served p ++ [⟨v, q, r⟩]) (s.completed p))
  | replyPass {p v : P} {q : Q} {r : R} : s.server v = .serving p q r → s.caller v = .idle →
      s.caller p = .held v q true → Step rules s (s.turn p (.answered v q r) v .free)
  | replyQueue {p v : P} {q : Q} {r : R} : s.server v = .serving p q r → s.caller v = .idle →
      s.caller p = .held v q false → Step rules s (s.turn p (s.caller p) v (.replying p q r))

namespace State

variable {rules : Rules P} {s : State P Q R} {p v : P}

/-- Nobody has asked anything. -/
def rest : State P Q R := ⟨fun _ => .idle, fun _ => .free, fun _ => [], fun _ => []⟩

omit [DecidableEq P] in
theorem rest_consistent : (rest : State P Q R).Consistent rules where
  asks _ _ calls := calls.elim
  held _ _ _ := iff_of_false (fun ⟨_, same⟩ => (nomatch same)) id
  still _ _ _ _ same := (nomatch same)
  busy _ other := absurd rfl other
  client _ _ := rfl
  ledger _ := rfl

/-! ### One change keeps the invariant -/

/-- **One caller and one server change.** The server holds nobody but `p`, or does not change. -/
theorem Consistent.meet (con : s.Consistent rules) {c : Caller P Q R} {w : Server P Q R}
    {served completed : List (Record P Q R)}
    (keep : ∀ x q, x ≠ p → (s.server v).Holds x q → w = s.server v)
    (fresh : ∀ x q, x ≠ p → w.Holds x q → w = s.server v)
    (asks : ∀ u, c.To u → rules.asks p u)
    (held : ∀ u q, (∃ waiting, c = .held u q waiting) ↔
      ((Function.update s.server v w) u).Holds p q)
    (still : ∀ x q r, w = .replying x q r → Function.update s.caller p c x = .held v q false)
    (gone : ∀ u q r, u ≠ v → s.server u = .replying p q r → c = .held u q false)
    (busyP : c ≠ .idle → rules.serves p → ∃ x q r, Function.update s.server v w p = .serving x q r)
    (busyV : v ≠ p → s.caller v ≠ .idle → rules.serves v → ∃ x q r, w = .serving x q r)
    (client : ¬ rules.serves v → w = .free)
    (ledger : served = completed ++ (s.meet p c v w served completed).outstanding p) :
    (s.meet p c v w served completed).Consistent rules where
  asks x u calls := by
    by_cases same : x = p
    · subst same
      exact asks u (by simpa [State.meet] using calls)
    · exact con.asks x u (by simpa [State.meet, same] using calls)
  held x u q := by
    by_cases same : x = p
    · subst same
      simpa [State.meet] using held u q
    · simp only [State.meet, Function.update_of_ne same]
      rw [con.held x u q]
      by_cases here : u = v
      · subst here
        rw [Function.update_self]
        exact ⟨fun holds => keep x q same holds ▸ holds, fun holds => fresh x q same holds ▸ holds⟩
      · rw [Function.update_of_ne here]
  still u x q r replying := by
    by_cases here : u = v
    · subst here
      exact still x q r (by simpa [State.meet] using replying)
    · have old : s.server u = .replying x q r := by simpa [State.meet, here] using replying
      by_cases same : x = p
      · subst same
        simpa [State.meet] using gone u q r here old
      · simpa [State.meet, same] using con.still u x q r old
  busy u calls serves := by
    by_cases same : u = p
    · subst same
      exact busyP (by simpa [State.meet] using calls) serves
    · have calls' : s.caller u ≠ .idle := by simpa [State.meet, same] using calls
      by_cases here : u = v
      · subst here
        obtain ⟨x, q, r, serving⟩ := busyV same calls' serves
        exact ⟨x, q, r, by simpa [State.meet] using serving⟩
      · obtain ⟨x, q, r, serving⟩ := con.busy u calls' serves
        exact ⟨x, q, r, by simpa [State.meet, here] using serving⟩
  client u quiet := by
    by_cases here : u = v
    · subst here
      simpa [State.meet] using client quiet
    · simpa [State.meet, here] using con.client u quiet
  ledger x := by
    by_cases same : x = p
    · subst same
      simpa [State.meet] using ledger
    · have outstanding : (s.meet p c v w served completed).outstanding x = s.outstanding x := by
        unfold State.outstanding
        simp only [State.meet, Function.update_of_ne same]
        cases found : s.caller x with
        | idle | queued _ _ | answered _ _ _ => rfl
        | held u q waiting =>
          by_cases here : u = v
          · subst here
            rw [keep x q same ((con.held x u q).mp ⟨waiting, found⟩), Function.update_eq_self]
          · simp only [Function.update_of_ne here]
      rw [outstanding]
      simpa [State.meet, same] using con.ledger x

omit [DecidableEq P] in
/-- Nobody holds a caller that is not held. -/
theorem Consistent.free (con : s.Consistent rules) (free : ∀ v q b, s.caller p ≠ .held v q b)
    (u : P) (q : Q) : ¬ (s.server u).Holds p q := fun holds => by
  obtain ⟨b, held⟩ := (con.held p u q).mpr holds
  exact free u q b held

omit [DecidableEq P] in
/-- A held caller is held by one server only. -/
theorem Consistent.only (con : s.Consistent rules) {q q' : Q} {b : Bool} {u : P}
    (held : s.caller p = .held v q b) (holds : (s.server u).Holds p q') : u = v ∧ q' = q := by
  obtain ⟨b', again⟩ := (con.held p u q').mpr holds
  rw [held] at again
  cases again
  exact ⟨rfl, rfl⟩

omit [DecidableEq P] in
theorem Consistent.only_replying (con : s.Consistent rules) {q q' : Q} {b : Bool} {r : R} {u : P}
    (held : s.caller p = .held v q b) (replying : s.server u = .replying p q' r) : u = v := by
  have holds : (s.server u).Holds p q' := by
    rw [replying]
    exact ⟨rfl, rfl⟩
  exact (con.only held holds).1

omit [DecidableEq P] in
theorem Consistent.ne (con : s.Consistent rules) (calls : (s.caller p).To v) : p ≠ v := by
  rintro rfl
  exact absurd (rules.lower p p (con.asks p p calls)) (lt_irrefl _)

/-! ### What each kind of step changes -/

omit [DecidableEq P] in
/-- A server deals with one request. -/
theorem holds_iff {w : Server P Q R} {q : Q} (holds : w.Holds p q) {x : P} {q' : Q} :
    w.Holds x q' ↔ x = p ∧ q' = q := by
  cases w with
  | free | listening => exact holds.elim
  | arrived _ _ | serving _ _ _ | replying _ _ _ =>
    obtain ⟨rfl, rfl⟩ := holds
    exact and_congr eq_comm eq_comm

omit [DecidableEq P] in
/-- A server that does not serve asks nobody. -/
theorem Consistent.idle_of_not_serving (con : s.Consistent rules) (serves : rules.serves v)
    (quiet : ∀ x q r, s.server v ≠ .serving x q r) : s.caller v = .idle := by
  by_contra calls
  obtain ⟨x, q, r, serving⟩ := con.busy v calls serves
  exact quiet x q r serving

/-- A server that held nobody gets the request of `p`. -/
theorem Consistent.gets (con : s.Consistent rules) {q : Q}
    (unheld : ∀ u q b, s.caller p ≠ .held u q b) (asks : rules.asks p v)
    (guard : rules.serves p → ∃ x y r, s.server p = .serving x y r)
    (empty : ∀ x q, ¬ (s.server v).Holds x q) (settled : s.outstanding p = []) :
    (s.turn p (.held v q false) v (.arrived p q)).Consistent rules := by
  have free := con.free unheld
  have ne : p ≠ v := fun same => absurd (rules.lower p v asks) (by simp [same])
  refine con.meet (fun x q _ holds => absurd holds (empty x q))
    (fun x q other holds => absurd holds.1.symm other) (fun u calls => calls ▸ asks)
    (fun u q' => ⟨?_, fun holds => ?_⟩) (fun _ _ _ same => (nomatch same))
    (fun u q r _ replying => absurd (replying ▸ ⟨rfl, rfl⟩) (free u q))
    (fun _ serves => by simpa [ne] using guard serves) (fun _ calls serves => ?_)
    (fun quiet => absurd (rules.server p v asks) quiet) ?_
  · rintro ⟨_, same⟩
    cases same
    simp [Server.Holds]
  · by_cases here : u = v
    · subst here
      rw [Function.update_self] at holds
      exact ⟨false, by rw [holds.2]⟩
    · rw [Function.update_of_ne here] at holds
      exact absurd holds (free u q')
  · obtain ⟨x, q, r, serving⟩ := con.busy v calls serves
    exact absurd (serving ▸ ⟨rfl, rfl⟩) (empty x q)
  · have ledger := con.ledger p
    rw [settled] at ledger
    simpa [State.outstanding, State.meet, Server.made] using ledger

/-- A caller comes and goes, and no server holds it. -/
theorem Consistent.leaves (con : s.Consistent rules) {c : Caller P Q R}
    {completed : List (Record P Q R)} (unheld : ∀ u q b, s.caller p ≠ .held u q b)
    (unheld' : ∀ u q b, c ≠ .held u q b) (asks : ∀ u, c.To u → rules.asks p u)
    (busy : c ≠ .idle → rules.serves p → ∃ x q r, s.server p = .serving x q r)
    (ledger : s.served p =
      completed ++ (s.meet p c v (s.server v) (s.served p) completed).outstanding p) :
    (s.meet p c v (s.server v) (s.served p) completed).Consistent rules := by
  have free := con.free unheld
  refine con.meet (fun _ _ _ _ => rfl) (fun _ _ _ _ => rfl) asks
    (fun u q' => iff_of_false (fun ⟨b, same⟩ => unheld' u q' b same) ?_) (fun x q r replying => ?_)
    (fun u q r _ replying => absurd (replying ▸ ⟨rfl, rfl⟩) (free u q))
    (fun calls serves => by simpa using busy calls serves) (fun _ => con.busy v) (con.client v) ledger
  · simpa using free u q'
  · have held := con.still v x q r replying
    have other : x ≠ p := by
      rintro rfl
      exact unheld v q false held
    rw [Function.update_of_ne other, held]

/-- A caller that is held comes for its reply. -/
theorem Consistent.waits (con : s.Consistent rules) {q : Q} (held : s.caller p = .held v q false)
    (quiet : ∀ x y r, s.server v ≠ .replying x y r) :
    (s.turn p (.held v q true) v (s.server v)).Consistent rules := by
  have calls : (s.caller p).To v := by rw [held]; rfl
  refine con.meet (fun _ _ _ _ => rfl) (fun _ _ _ _ => rfl)
    (fun u calls' => calls' ▸ con.asks p v calls) (fun u q' => ⟨?_, fun holds => ?_⟩)
    (fun x q r replying => absurd replying (quiet x q r)) (fun u q' r' other replying' => ?_)
    (fun _ serves => by simpa using con.busy p (by rw [held]; simp) serves) (fun _ => con.busy v)
    (con.client v) ?_
  · rintro ⟨_, same⟩
    cases same
    simpa using (con.held p v q).mp ⟨false, held⟩
  · rw [Function.update_eq_self] at holds
    obtain ⟨rfl, rfl⟩ := con.only held holds
    exact ⟨true, rfl⟩
  · exact absurd (con.only_replying held replying') other
  · have ledger := con.ledger p
    simp only [State.outstanding, held] at ledger
    simpa [State.outstanding, State.meet] using ledger

/-- The reply that was made gets to its caller, and the server is free. -/
theorem Consistent.answers (con : s.Consistent rules) {q : Q} {b : Bool} {r : R}
    (held : s.caller p = .held v q b) (made : (s.server v).made = [r])
    (rests : rules.serves v → s.caller v = .idle) :
    (s.turn p (.answered v q r) v .free).Consistent rules := by
  have calls : (s.caller p).To v := by rw [held]; rfl
  have ne := con.ne calls
  have holds := (con.held p v q).mp ⟨b, held⟩
  refine con.meet (fun x q' other holds' => absurd ((holds_iff holds).mp holds').1 other)
    (fun _ _ _ holds => holds.elim) (fun u calls' => calls' ▸ con.asks p v calls)
    (fun u q' => iff_of_false (fun ⟨_, same⟩ => (nomatch same)) fun holds => ?_)
    (fun _ _ _ same => (nomatch same)) (fun u q' r' other replying' => ?_)
    (fun _ serves => by simpa [ne] using con.busy p (by rw [held]; simp) serves)
    (fun _ calls serves => absurd (rests serves) calls) (fun _ => rfl) ?_
  · by_cases here : u = v
    · subst here
      rw [Function.update_self] at holds
      exact holds
    · rw [Function.update_of_ne here] at holds
      exact here (con.only held holds).1
  · exact absurd (con.only_replying held replying') other
  · have ledger := con.ledger p
    simp only [State.outstanding, held, made, List.map_cons, List.map_nil] at ledger
    simpa [State.outstanding, State.meet] using ledger

/-- A server goes on with the request that it holds. -/
theorem Consistent.deals (con : s.Consistent rules) {q : Q} {b : Bool} {w : Server P Q R}
    {served : List (Record P Q R)} (held : s.caller p = .held v q b) (holds : w.Holds p q)
    (still : ∀ x q' r, w = .replying x q' r → s.caller x = .held v q' false)
    (busy : s.caller v ≠ .idle → ∃ x q r, w = .serving x q r)
    (ledger : served = s.completed p ++ w.made.map fun r => ⟨v, q, r⟩) :
    (s.meet p (s.caller p) v w served (s.completed p)).Consistent rules := by
  have calls : (s.caller p).To v := by rw [held]; rfl
  have ne := con.ne calls
  have held' := (con.held p v q).mp ⟨b, held⟩
  refine con.meet (fun x q' other old => absurd ((holds_iff held').mp old).1 other)
    (fun x q' other new => absurd ((holds_iff holds).mp new).1 other) (con.asks p) (fun u q' => ?_)
    (fun x q' r' same => ?_) (fun u q' r' other replying' => ?_)
    (fun calls serves => by simpa [ne] using con.busy p calls serves) (fun _ calls _ => busy calls)
    (fun quiet => absurd (rules.server p v (con.asks p v calls)) quiet) ?_
  · rw [con.held p u q']
    by_cases here : u = v
    · subst here
      rw [Function.update_self, holds_iff holds, holds_iff held']
    · rw [Function.update_of_ne here]
  · obtain ⟨-, sameRequest⟩ := (holds_iff holds).mp (show w.Holds x q' by rw [same]; exact ⟨rfl, rfl⟩)
    rw [Function.update_eq_self, still x q' r' same, sameRequest]
  · exact absurd (con.only_replying held replying') other
  · simpa [State.outstanding, State.meet, held] using ledger

/-- A free server listens. -/
theorem Consistent.listens (con : s.Consistent rules) (serves : rules.serves v)
    (idle : s.server v = .free) : (s.turn v (s.caller v) v .listening).Consistent rules := by
  have rests := con.idle_of_not_serving serves fun x q r => by rw [idle]; simp
  have free := con.free (p := v) fun u q b => by rw [rests]; simp
  refine con.meet (fun x q _ holds => ?_) (fun x q _ holds => holds.elim) (con.asks v)
    (fun u q' => iff_of_false ?_ fun holds => ?_) (fun _ _ _ same => (nomatch same))
    (fun u q r _ replying => absurd (replying ▸ ⟨rfl, rfl⟩) (free u q))
    (fun calls => absurd rests calls) (fun other => absurd rfl other)
    (fun quiet => absurd serves quiet) ?_
  · rw [idle] at holds
    exact holds.elim
  · rintro ⟨_, same⟩
    rw [rests] at same
    cases same
  · by_cases here : u = v
    · subst here
      rw [Function.update_self] at holds
      exact holds
    · rw [Function.update_of_ne here] at holds
      exact free u q' holds
  · have ledger := con.ledger v
    simp only [State.outstanding, rests] at ledger
    simpa [State.outstanding, State.meet, rests] using ledger

/-- **Every step keeps the invariant.** -/
theorem Consistent.step {s' : State P Q R} (con : s.Consistent rules) (step : Step rules s s') :
    s'.Consistent rules := by
  cases step with
  | @askPass p v q idle guard asks listening =>
    refine con.gets (fun u q b => by rw [idle]; simp) asks guard (fun x q holds => ?_) ?_
    · rw [listening] at holds
      exact holds
    · simp only [State.outstanding, idle]
  | @askQueue p v q idle guard asks =>
    refine con.leaves (fun u q b => by rw [idle]; simp) (fun _ _ _ same => (nomatch same))
      (fun u calls => calls ▸ asks) (fun _ => guard) ?_
    have ledger := con.ledger p
    simp only [State.outstanding, idle] at ledger
    simpa [State.outstanding, State.meet] using ledger
  | @collectTake p v q r replying =>
    refine con.answers (con.still v p q r replying) (by rw [replying]; rfl) fun serves => ?_
    exact con.idle_of_not_serving serves fun x q' r' => by rw [replying]; simp
  | collectWait held quiet => exact con.waits held quiet
  | @finish p v q r answered =>
    refine con.leaves (fun u q b => by rw [answered]; simp) (fun _ _ _ same => (nomatch same))
      (fun _ calls => calls.elim) (fun calls => absurd rfl calls) ?_
    have ledger := con.ledger p
    simp only [State.outstanding, answered] at ledger
    simpa [State.outstanding, State.meet] using ledger
  | @listenTake p v q idle queued =>
    have asks : rules.asks p v := con.asks p v (by rw [queued]; rfl)
    refine con.gets (fun u q b => by rw [queued]; simp) asks (con.busy p (by rw [queued]; simp))
      (fun x q holds => ?_) ?_
    · rw [idle] at holds
      exact holds
    · simp only [State.outstanding, queued]
  | listenWait serves idle => exact con.listens serves idle
  | @accept p v q r arrived =>
    obtain ⟨b, held⟩ := (con.held p v q).mpr (arrived ▸ ⟨rfl, rfl⟩)
    refine con.deals held ⟨rfl, rfl⟩ (fun _ _ _ same => (nomatch same))
      (fun _ => ⟨p, q, r, rfl⟩) ?_
    have ledger := con.ledger p
    simp only [State.outstanding, held, arrived, Server.made, List.map_nil, List.append_nil] at ledger
    rw [ledger]
    rfl
  | @replyPass p v q r serving rests held =>
    exact con.answers held (by rw [serving]; rfl) fun _ => rests
  | @replyQueue p v q r serving rests held =>
    refine con.deals held ⟨rfl, rfl⟩ (fun x q' r' same => ?_) (fun calls => absurd rests calls) ?_
    · cases same
      exact held
    · have ledger := con.ledger p
      simp only [State.outstanding, held, serving, Server.made] at ledger
      exact ledger

/-! ### No cycle -/

omit [DecidableEq P] in
/-- A held caller is blocked on nobody. -/
theorem Consistent.held_idle (con : s.Consistent rules) {q : Q} {b : Bool}
    (held : s.caller p = .held v q b) (y : P) : ¬ s.Edge p y := by
  rintro (⟨q', queued⟩ | ⟨q', r, replying⟩)
  · rw [held] at queued
    cases queued
  · have serves : rules.serves p := by
      by_contra client
      rw [con.client p client] at replying
      cases replying
    obtain ⟨_, _, _, serving⟩ := con.busy p (by rw [held]; simp) serves
    rw [replying] at serving
    cases serving

omit [DecidableEq P] in
/-- **A walk of blocked parties goes down the rank**, or ends at a held caller. -/
theorem Consistent.walk (con : s.Consistent rules) {x y : P}
    (walk : Relation.ReflTransGen s.Edge x y) :
    x = y ∨ rules.rank y < rules.rank x ∨ ∃ v q b, s.caller y = .held v q b := by
  induction walk with
  | refl => exact Or.inl rfl
  | @tail y z _ edge ih =>
    right
    rcases edge with ⟨q, queued⟩ | ⟨q, r, replying⟩
    · have lower := rules.lower y z (con.asks y z (by rw [queued]; rfl))
      rcases ih with rfl | down | ⟨v, q', b, held⟩
      · exact Or.inl lower
      · exact Or.inl (lt_trans lower down)
      · exact absurd (Or.inl ⟨q, queued⟩) (con.held_idle held z)
    · exact Or.inr ⟨y, q, false, con.still y z q r replying⟩

omit [DecidableEq P] in
/-- **A request is safe**: the server does not wait for an idle caller that may ask it. -/
theorem Consistent.ask_safe (con : s.Consistent rules) (idle : s.caller p = .idle)
    (asks : rules.asks p v) : ¬ Relation.ReflTransGen s.Edge v p := by
  intro walk
  have lower := rules.lower p v asks
  rcases con.walk walk with rfl | down | ⟨_, _, _, held⟩
  · exact lt_irrefl _ lower
  · exact lt_asymm lower down
  · rw [idle] at held
    cases held

omit [DecidableEq P] in
/-- **A reply is safe**: the caller that is served waits for nobody. -/
theorem Consistent.reply_safe (con : s.Consistent rules) {q : Q} {b : Bool}
    (held : s.caller p = .held v q b) : ¬ Relation.ReflTransGen s.Edge p v := by
  intro walk
  have calls : (s.caller p).To v := by rw [held]; rfl
  rcases Relation.ReflTransGen.cases_head walk with same | ⟨y, edge, _⟩
  · exact con.ne calls same
  · exact con.held_idle held y edge

end State

end Service
