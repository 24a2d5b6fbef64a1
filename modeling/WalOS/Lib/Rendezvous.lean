/-
**Synchronous message passing between any number of parties.**

A party is ready, blocked sending to a destination, or blocked receiving from a source; every party
keeps the queue of the senders blocked on it. A move hands a letter straight to a waiting receiver
(`pass`), blocks a sender (`enqueue`), takes a queued sender (`take`), blocks a receiver (`await`),
lets an interrupt release a receiver (`wake`), or changes nothing (`idle`).

* `Mail.WellFormed` — a party is in the queue of `d` exactly when it is blocked sending to `d`, no
  queue repeats a party, no blocked receiver accepts a party blocked sending to it, and the relation
  "is blocked sending to" has no cycle.
* `Mail.Step.wellFormed` — every move keeps it. The only move that adds an edge is `enqueue`, whose
  guard is that the destination does not reach the sender.
* `Mail.Step.order` — the senders that stay in a queue keep their order.
-/

import WalOS.Lib.Follow
import Mathlib.Data.List.Nodup

set_option linter.unusedSectionVars false

namespace Rendezvous

variable {P : Type}

/-- Whom a receiver accepts. -/
inductive Source (P : Type) where
  | any
  | only (sender : P)
  | interrupt
deriving DecidableEq

/-- The source accepts a letter of this party. -/
def Source.Accepts : Source P → P → Prop
  | .any, _ => True
  | .only sender, p => p = sender
  | .interrupt, _ => False

/-- The source accepts an interrupt. -/
def Source.Interruptible : Source P → Prop
  | .only _ => False
  | _ => True

/-- What a party is doing. -/
inductive Wait (P : Type) where
  | ready
  | sending (dest : P)
  | receiving (src : Source P)
deriving DecidableEq

/-- The parties and their queues of blocked senders. -/
structure Mail (P : Type) where
  wait : P → Wait P
  queue : P → List P

/-- `p` is blocked sending to `q`. -/
def Mail.Edge (m : Mail P) (p q : P) : Prop := m.wait p = .sending q

/-- What happens in one step. -/
inductive Move (P : Type) where
  | pass (sender dest : P)
  | enqueue (sender dest : P)
  | take (dest sender : P)
  | await (dest : P) (src : Source P)
  | wake (dest : P)
  | idle

variable [DecidableEq P]

/-- The mail after a party changed what it is doing. -/
def Mail.put (m : Mail P) (p : P) (w : Wait P) : Mail P :=
  { m with wait := Function.update m.wait p w }

/-- The mail after the queue of `d` changed. -/
def Mail.requeue (m : Mail P) (d : P) (l : List P) : Mail P :=
  { m with queue := Function.update m.queue d l }

/-- **One step of the parties.** -/
inductive Mail.Step (m : Mail P) : Move P → Mail P → Prop where
  | pass {sender dest : P} {src : Source P} :
      m.wait sender = .ready → sender ≠ dest → m.wait dest = .receiving src → src.Accepts sender →
      Step m (.pass sender dest) (m.put dest .ready)
  | enqueue {sender dest : P} :
      m.wait sender = .ready → (∀ src, m.wait dest = .receiving src → ¬ src.Accepts sender) →
      ¬ Relation.ReflTransGen m.Edge dest sender →
      Step m (.enqueue sender dest)
        ((m.put sender (.sending dest)).requeue dest (m.queue dest ++ [sender]))
  | take {dest sender : P} {src : Source P} {before after : List P} :
      m.wait dest = .ready → m.queue dest = before ++ sender :: after → src.Accepts sender →
      Step m (.take dest sender) ((m.put sender .ready).requeue dest (before ++ after))
  | await {dest : P} {src : Source P} :
      m.wait dest = .ready → (∀ p ∈ m.queue dest, ¬ src.Accepts p) →
      Step m (.await dest src) (m.put dest (.receiving src))
  | wake {dest : P} {src : Source P} :
      m.wait dest = .receiving src → src.Interruptible → Step m (.wake dest) (m.put dest .ready)
  | idle : Step m .idle m

/-- **The invariant of the parties.** -/
structure Mail.WellFormed (m : Mail P) : Prop where
  mem : ∀ p d, p ∈ m.queue d ↔ m.wait p = .sending d
  nodup : ∀ d, (m.queue d).Nodup
  apart : ∀ p q src, m.wait p = .receiving src → src.Accepts q → m.wait q ≠ .sending p
  acyclic : Follow.Acyclic m.Edge

namespace Mail

variable {m m' : Mail P} {p d : P}

@[simp] theorem put_queue (m : Mail P) (p : P) (w : Wait P) : (m.put p w).queue = m.queue := rfl

@[simp] theorem requeue_wait (m : Mail P) (d : P) (l : List P) : (m.requeue d l).wait = m.wait :=
  rfl

theorem put_wait (m : Mail P) (p : P) (w : Wait P) (q : P) :
    (m.put p w).wait q = if q = p then w else m.wait q :=
  Function.update_apply m.wait p w q

theorem requeue_queue (m : Mail P) (d : P) (l : List P) (q : P) :
    (m.requeue d l).queue q = if q = d then l else m.queue q :=
  Function.update_apply m.queue d l q

/-- A party that does not come to be sending waits for nobody new. -/
theorem Edge.of_put {w : Wait P} {q r : P} (other : w ≠ .sending r) (edge : (m.put p w).Edge q r) :
    m.Edge q r := by
  unfold Edge at edge ⊢
  rw [put_wait] at edge
  split at edge
  · exact absurd edge other
  · exact edge

/-- The parties at rest. -/
def rest : Mail P := ⟨fun _ => .ready, fun _ => []⟩

theorem rest_wellFormed : (rest : Mail P).WellFormed where
  mem _ _ := by simp [rest]
  nodup _ := List.nodup_nil
  apart _ _ _ receiving := by simp [rest] at receiving
  acyclic _ cycle := by
    obtain ⟨_, step, _⟩ := Relation.TransGen.head'_iff.mp cycle
    exact absurd step (by simp [Edge, rest])

/-- Nobody is blocked sending to itself. -/
theorem WellFormed.ne (well : m.WellFormed) (sending : m.wait p = .sending d) : p ≠ d := by
  rintro rfl
  exact well.acyclic p (.single sending)

/-- A party that stops being blocked receiving, with the queues unchanged, keeps the invariant. -/
theorem WellFormed.release (well : m.WellFormed) {src : Source P}
    (receiving : m.wait d = .receiving src) : (m.put d .ready).WellFormed where
  mem p e := by
    rw [put_queue, well.mem p e, put_wait]
    split
    · subst p
      simp [receiving]
    · rfl
  nodup := well.nodup
  apart p q src' holds accepts := by
    rw [put_wait] at holds ⊢
    split at holds
    · cases holds
    · split
      · simp
      · exact well.apart p q src' holds accepts
  acyclic := well.acyclic.mono fun _ _ => Edge.of_put (by simp)

/-- A sender that blocks keeps the invariant if no cycle arises. -/
theorem WellFormed.enqueue (well : m.WellFormed) (ready : m.wait p = .ready)
    (apart : ∀ src, m.wait d = .receiving src → ¬ src.Accepts p)
    (unreachable : ¬ Relation.ReflTransGen m.Edge d p) :
    ((m.put p (.sending d)).requeue d (m.queue d ++ [p])).WellFormed where
  mem q e := by
    rw [requeue_queue, requeue_wait, put_wait]
    by_cases sameQ : q = p
    · subst sameQ
      have fresh : q ∉ m.queue e := fun member => by
        have sending := (well.mem q e).mp member
        rw [ready] at sending
        cases sending
      by_cases sameE : e = d
      · simp [sameE]
      · simp only [if_neg sameE, if_true, put_queue, Wait.sending.injEq]
        exact iff_of_false fresh fun same => sameE same.symm
    · rw [if_neg sameQ, ← well.mem q e]
      by_cases sameE : e = d
      · subst sameE
        simp [sameQ]
      · simp [sameE]
  nodup e := by
    rw [requeue_queue]
    split
    · have fresh : p ∉ m.queue d := fun member => by
        have sending := (well.mem p d).mp member
        rw [ready] at sending
        cases sending
      exact List.nodup_append.mpr ⟨well.nodup d, List.nodup_singleton p, fun a member b last =>
        fun same => fresh (List.mem_singleton.mp last ▸ same ▸ member)⟩
    · exact well.nodup e
  apart q r src receiving accepts := by
    rw [requeue_wait, put_wait] at receiving ⊢
    split at receiving
    · cases receiving
    · split
      · rename_i sameR
        subst sameR
        rintro same
        obtain rfl := Wait.sending.inj same
        exact apart src receiving accepts
      · exact well.apart q r src receiving accepts
  acyclic := by
    refine well.acyclic.insert (a := p) (b := d) (fun q r edge => ?_) unreachable
    unfold Edge at edge ⊢
    rw [requeue_wait, put_wait] at edge
    split at edge
    · exact Or.inr ⟨‹_›, (Wait.sending.inj edge).symm⟩
    · exact Or.inl edge

/-- Taking a queued sender keeps the invariant. -/
theorem WellFormed.take (well : m.WellFormed) {before after : List P}
    (split : m.queue d = before ++ p :: after) :
    ((m.put p .ready).requeue d (before ++ after)).WellFormed := by
  have nodup : (before ++ p :: after).Nodup := split ▸ well.nodup d
  have sending : m.wait p = .sending d := (well.mem p d).mp (by simp [split])
  have gone : p ∉ before ++ after := (List.nodup_middle.mp nodup).notMem
  refine ⟨fun q e => ?_, fun e => ?_, fun q r src receiving accepts => ?_, ?_⟩
  · rw [requeue_queue, requeue_wait, put_wait]
    by_cases sameQ : q = p
    · subst sameQ
      simp only [if_true, reduceCtorEq, iff_false]
      split
      · exact gone
      · rename_i other
        intro member
        have again := (well.mem q e).mp member
        rw [sending] at again
        exact other (Wait.sending.inj again).symm
    · rw [if_neg sameQ, ← well.mem q e]
      split
      · rename_i sameE
        subst sameE
        simp [split, sameQ]
      · rfl
  · rw [requeue_queue]
    split
    · exact (List.nodup_middle.mp nodup).of_cons
    · exact well.nodup e
  · rw [requeue_wait, put_wait] at receiving ⊢
    split at receiving
    · cases receiving
    · split
      · simp
      · exact well.apart q r src receiving accepts
  · exact well.acyclic.mono fun _ _ => Edge.of_put (by simp)

/-- A receiver that blocks keeps the invariant if it accepts none of its queued senders. -/
theorem WellFormed.await (well : m.WellFormed) {src : Source P} (ready : m.wait d = .ready)
    (none : ∀ p ∈ m.queue d, ¬ src.Accepts p) : (m.put d (.receiving src)).WellFormed where
  mem p e := by
    rw [put_queue, well.mem p e, put_wait]
    split
    · subst p
      simp [ready]
    · rfl
  nodup := well.nodup
  apart p q src' receiving accepts := by
    rw [put_wait] at receiving ⊢
    split at receiving
    · rename_i sameP
      subst sameP
      obtain rfl := Wait.receiving.inj receiving
      split
      · simp
      · exact fun sending => none q ((well.mem q p).mpr sending) accepts
    · split
      · simp
      · exact well.apart p q src' receiving accepts
  acyclic := well.acyclic.mono fun _ _ => Edge.of_put (by simp)

/-- **Every move keeps the invariant.** -/
theorem Step.wellFormed {move : Move P} (step : m.Step move m') (well : m.WellFormed) :
    m'.WellFormed := by
  cases step with
  | pass _ _ receiving _ => exact well.release receiving
  | enqueue ready apart unreachable => exact well.enqueue ready apart unreachable
  | take _ split _ => exact well.take split
  | await ready none => exact well.await ready none
  | wake receiving _ => exact well.release receiving
  | idle => exact well

/-- **The senders that stay in a queue keep their order.** -/
theorem Step.order {move : Move P} (step : m.Step move m') (well : m.WellFormed) (d : P) :
    (m'.queue d).filter (· ∈ m.queue d) = (m.queue d).filter (· ∈ m'.queue d) := by
  cases step with
  | pass | await | wake | idle => rfl
  | @enqueue sender dest ready _ _ =>
    rw [requeue_queue]
    split
    · rename_i same
      subst same
      have fresh : sender ∉ m.queue d := fun member => by
        have sending := (well.mem sender d).mp member
        rw [ready] at sending
        cases sending
      simp only [List.filter_append, List.mem_append, List.mem_singleton]
      rw [List.filter_cons_of_neg (by simpa using fresh), List.filter_nil, List.append_nil]
      exact List.filter_congr fun a member => by simp [member]
    · rfl
  | @take dest sender src before after _ split _ =>
    rw [requeue_queue]
    split
    · rename_i same
      subst same
      have nodup : (before ++ sender :: after).Nodup := split ▸ well.nodup d
      have gone : sender ∉ before ++ after := (List.nodup_middle.mp nodup).notMem
      rw [split, List.filter_append before (sender :: after), List.filter_cons_of_neg
        (by simpa using gone), ← List.filter_append]
      refine List.filter_congr fun a member => ?_
      have inside : a ∈ before ++ sender :: after := by
        rcases List.mem_append.mp member with early | late
        · exact List.mem_append_left _ early
        · exact List.mem_append_right _ (List.mem_cons_of_mem _ late)
      simp only [member, inside]
    · rfl

end Mail

end Rendezvous
