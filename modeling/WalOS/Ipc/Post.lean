/-
**What message passing does, without its links and flags.**

`Post n` is the message state of `n` processes: who is ready, sending or receiving and the queues of
blocked senders (`mail`), the buffer each blocked process left (`buffer`), the messages in memory
(`mem`) and the interrupts that arrived early (`pending`).

`Post.Send`, `Post.Recv` and `Post.Deliver` say what a send, a receive and a disk interrupt do to it.
Each of them is a move of the mail (`Post.Send.move`, `Post.Recv.move`, `Post.Deliver.move`), so it
keeps the invariant of the mail.
-/

import WalOS.Kernel.State
import WalOS.Lib.Rendezvous

namespace WalOS

open Rendezvous

variable {n : ℕ}

/-- The message state of the processes. -/
structure Post (n : ℕ) where
  mail : Mail (Fin n)
  buffer : Fin n → Addr
  mem : Addr → Message
  pending : Fin n → Bool

namespace Post

/-- The message at `a` goes straight to the waiting `d`. -/
def pass (b : Post n) (d : Fin n) (a : Addr) : Post n where
  mail := b.mail.put d .ready
  buffer := Function.update b.buffer d null
  mem := Function.update b.mem (b.buffer d) (b.mem a)
  pending := b.pending

/-- `p` blocks with the message at `a`, last in the queue of `d`. -/
def enqueue (b : Post n) (p d : Fin n) (a : Addr) : Post n where
  mail := (b.mail.put p (.sending d)).requeue d (b.mail.queue d ++ [p])
  buffer := Function.update b.buffer p a
  mem := b.mem
  pending := b.pending

/-- `d` takes the message of `q` into `a`, and `q` leaves the queue. -/
def take (b : Post n) (d q : Fin n) (a : Addr) (rest : List (Fin n)) : Post n where
  mail := (b.mail.put q .ready).requeue d rest
  buffer := Function.update b.buffer q null
  mem := Function.update b.mem a (b.mem (b.buffer q))
  pending := b.pending

/-- `d` blocks with the empty buffer `a`. -/
def await (b : Post n) (d : Fin n) (src : Source (Fin n)) (a : Addr) : Post n where
  mail := b.mail.put d (.receiving src)
  buffer := Function.update b.buffer d a
  mem := b.mem
  pending := b.pending

/-- An interrupt releases the waiting `d`. -/
def wake (b : Post n) (d : Fin n) : Post n where
  mail := b.mail.put d .ready
  buffer := Function.update b.buffer d null
  mem := Function.update b.mem (b.buffer d) (b.mem (b.buffer d)).patched
  pending := Function.update b.pending d false

/-- An interrupt is kept for `d`. -/
def signal (b : Post n) (d : Fin n) : Post n :=
  { b with pending := Function.update b.pending d true }

/-- `d` takes the interrupt kept for it into `a`. -/
def takeInterrupt (b : Post n) (d : Fin n) (a : Addr) : Post n :=
  { b with mem := Function.update b.mem a Message.interrupt
           pending := Function.update b.pending d false }

/-- `d` waits for whoever sends to `p`, directly or through others. -/
def Reaches (b : Post n) (d p : Fin n) : Prop := Relation.ReflTransGen b.mail.Edge d p

/-- **What a send of `p` to `d` does.** -/
inductive Send (b : Post n) (p d : Fin n) (a : Addr) : Post n → Prop where
  | pass {src : Source (Fin n)} : b.mail.wait d = .receiving src → src.Accepts p →
      Send b p d a (b.pass d a)
  | queue : (∀ src, b.mail.wait d = .receiving src → ¬ src.Accepts p) → ¬ b.Reaches d p →
      Send b p d a (b.enqueue p d a)

/-- An interrupt kept for `d` answers a receive from `src`. -/
def Answers (b : Post n) (d : Fin n) (src : Source (Fin n)) : Prop :=
  b.pending d = true ∧ src.Interruptible

/-- **What a receive of `d` from `src` does.** -/
inductive Recv (b : Post n) (d : Fin n) (src : Source (Fin n)) (a : Addr) : Post n → Prop where
  | interrupt : b.Answers d src → Recv b d src a (b.takeInterrupt d a)
  | take {q : Fin n} {before after : List (Fin n)} : ¬ b.Answers d src →
      b.mail.queue d = before ++ q :: after → src.Accepts q → (src = .any → before = []) →
      Recv b d src a (b.take d q a (before ++ after))
  | await : ¬ b.Answers d src → (∀ q ∈ b.mail.queue d, ¬ src.Accepts q) →
      Recv b d src a (b.await d src a)

/-- **What a disk interrupt for `d` does.** -/
inductive Deliver (b : Post n) (d : Fin n) : Post n → Prop where
  | wake {src : Source (Fin n)} : b.mail.wait d = .receiving src → src.Interruptible →
      Deliver b d (b.wake d)
  | signal : (∀ src, b.mail.wait d = .receiving src → ¬ src.Interruptible) →
      Deliver b d (b.signal d)

/-! ### They are moves of the mail -/

variable {b b' : Post n} {p d : Fin n} {a : Addr} {src : Source (Fin n)}

theorem Send.move (send : b.Send p d a b') (ready : b.mail.wait p = .ready) (ne : p ≠ d) :
    ∃ move, b.mail.Step move b'.mail := by
  cases send with
  | pass receiving accepts => exact ⟨_, .pass ready ne receiving accepts⟩
  | queue apart unreachable => exact ⟨_, .enqueue ready apart unreachable⟩

theorem Recv.move (recv : b.Recv d src a b') (ready : b.mail.wait d = .ready) :
    ∃ move, b.mail.Step move b'.mail := by
  cases recv with
  | interrupt _ => exact ⟨_, .idle⟩
  | take _ split accepts _ => exact ⟨_, .take ready split accepts⟩
  | await _ none => exact ⟨_, .await ready none⟩

theorem Deliver.move (deliver : b.Deliver d b') : ∃ move, b.mail.Step move b'.mail := by
  cases deliver with
  | wake receiving interruptible => exact ⟨_, .wake receiving interruptible⟩
  | signal _ => exact ⟨_, .idle⟩

/-! ### Steps -/

/-- **One step**: a send or a receive of a ready process with a usable buffer, or an interrupt. -/
inductive Step (usable : Addr → Prop) (b : Post n) : Post n → Prop where
  | send {p d : Fin n} {a : Addr} {b' : Post n} : b.mail.wait p = .ready → p ≠ d → usable a →
      b.Send p d a b' → Step usable b b'
  | recv {d : Fin n} {src : Source (Fin n)} {a : Addr} {b' : Post n} : b.mail.wait d = .ready →
      src ≠ .only d → usable a → b.Recv d src a b' → Step usable b b'
  | deliver {d : Fin n} {b' : Post n} : b.Deliver d b' → Step usable b b'

variable {usable : Addr → Prop}

theorem Step.move (step : Step usable b b') : ∃ move, b.mail.Step move b'.mail := by
  cases step with
  | send ready ne _ send => exact send.move ready ne
  | recv ready _ _ recv => exact recv.move ready
  | deliver deliver => exact deliver.move

/-- Every blocked process left a usable buffer. -/
def Buffered (usable : Addr → Prop) (b : Post n) : Prop :=
  ∀ q, b.mail.wait q ≠ .ready → usable (b.buffer q)

/-- A ready process has left no buffer. -/
def Cleared (b : Post n) : Prop := ∀ q, b.mail.wait q = .ready → b.buffer q = null

/-- A process that becomes ready clears its buffer, with whatever it leaves in its queue. -/
theorem Buffered.ready (buffered : Buffered usable b) {c : Post n}
    (wait : ∀ q, q ≠ p → c.mail.wait q = b.mail.wait q) (free : c.mail.wait p = .ready)
    (buffer : c.buffer = Function.update b.buffer p null) : Buffered usable c := by
  intro q blocked
  by_cases same : q = p
  · exact absurd (same ▸ free) blocked
  · rw [buffer, Function.update_of_ne same]
    exact buffered q (wait q same ▸ blocked)

theorem Cleared.ready (cleared : Cleared b) {c : Post n}
    (wait : ∀ q, q ≠ p → c.mail.wait q = b.mail.wait q)
    (buffer : c.buffer = Function.update b.buffer p null) : Cleared c := by
  intro q free
  rw [buffer]
  by_cases same : q = p
  · rw [same, Function.update_self]
  · rw [Function.update_of_ne same]
    exact cleared q (wait q same ▸ free)

/-- A process that blocks leaves its buffer. -/
theorem Buffered.blocked (buffered : Buffered usable b) {c : Post n} (good : usable a)
    (wait : ∀ q, q ≠ p → c.mail.wait q = b.mail.wait q)
    (buffer : c.buffer = Function.update b.buffer p a) : Buffered usable c := by
  intro q blocked
  rw [buffer]
  by_cases same : q = p
  · rw [same, Function.update_self]
    exact good
  · rw [Function.update_of_ne same]
    exact buffered q (wait q same ▸ blocked)

theorem Cleared.blocked (cleared : Cleared b) {c : Post n}
    (wait : ∀ q, q ≠ p → c.mail.wait q = b.mail.wait q) (stuck : c.mail.wait p ≠ .ready)
    (buffer : c.buffer = Function.update b.buffer p a) : Cleared c := by
  intro q free
  by_cases same : q = p
  · exact absurd (same ▸ free) stuck
  · rw [buffer, Function.update_of_ne same]
    exact cleared q (wait q same ▸ free)

/-! ### What each update does to who is ready -/

theorem put_wait_of_ne {m : Mail (Fin n)} {w : Wait (Fin n)} (q : Fin n) (other : q ≠ p) :
    (m.put p w).wait q = m.wait q := by
  rw [Mail.put_wait, if_neg other]

theorem put_wait_self {m : Mail (Fin n)} {w : Wait (Fin n)} : (m.put p w).wait p = w := by
  rw [Mail.put_wait, if_pos rfl]

theorem Step.buffered (step : Step usable b b') (buffered : Buffered usable b) :
    Buffered usable b' := by
  cases step with
  | send _ _ good send =>
    cases send with
    | pass _ _ => exact buffered.ready put_wait_of_ne put_wait_self rfl
    | queue _ _ => exact buffered.blocked good put_wait_of_ne rfl
  | recv _ _ good recv =>
    cases recv with
    | interrupt _ => exact buffered
    | take _ _ _ _ => exact buffered.ready put_wait_of_ne put_wait_self rfl
    | await _ _ => exact buffered.blocked good put_wait_of_ne rfl
  | deliver deliver =>
    cases deliver with
    | wake _ _ => exact buffered.ready put_wait_of_ne put_wait_self rfl
    | signal _ => exact buffered

theorem Step.cleared (step : Step usable b b') (cleared : Cleared b) : Cleared b' := by
  cases step with
  | send _ _ _ send =>
    cases send with
    | pass _ _ => exact cleared.ready put_wait_of_ne rfl
    | queue _ _ =>
      exact cleared.blocked put_wait_of_ne (put_wait_self.trans_ne (by simp)) rfl
  | recv _ _ _ recv =>
    cases recv with
    | interrupt _ => exact cleared
    | take _ _ _ _ => exact cleared.ready put_wait_of_ne rfl
    | await _ _ => exact cleared.blocked put_wait_of_ne (put_wait_self.trans_ne (by simp)) rfl
  | deliver deliver =>
    cases deliver with
    | wake _ _ => exact cleared.ready put_wait_of_ne rfl
    | signal _ => exact cleared

end Post

end WalOS
