/-
**The send queues as linked lists through the table.**

`Queues s queue`: for every process `d`, following `current_send` and then `next_send` visits
`queue d` and reaches null.

* `addToQueue_sat` — appending a sender that is in no queue;
* `findLoop_sat` — the search of `msg_recv` finds a queued sender with its predecessor;
* `takeFromQueue_sat` — unlinking a sender, from the head or from the middle.

In each case only link fields change (`SameButLinks`), and the cells of the other queues are not
touched, since no process is in two queues.
-/

import WalOS.Kernel.Message
import WalOS.Lib.Linked
import Mathlib.Data.Fintype.Card

namespace WalOS

open Linked

variable {n : ℕ} {s u : Kernel n} {queue : Fin n → List (Fin n)} {acc : Int → Prop}
  {err : Stop → Prop}

/-- The `next_send` links. -/
def Kernel.next (s : Kernel n) (q : Fin n) : Option (Fin n) := (s.proc q).nextSend

/-- **The links form the queues.** -/
def Queues (s : Kernel n) (queue : Fin n → List (Fin n)) : Prop :=
  ∀ d, Chain s.next (s.proc d).currentSend (queue d)

/-- No process is in two queues. -/
def Separate (queue : Fin n → List (Fin n)) : Prop :=
  ∀ q d e, q ∈ queue d → q ∈ queue e → d = e

/-- `u` is `s` with other links. -/
structure SameButLinks (s u : Kernel n) : Prop where
  proc : ∀ q, u.proc q =
    { s.proc q with currentSend := (u.proc q).currentSend, nextSend := (u.proc q).nextSend }
  mem : u.mem = s.mem
  processReady : u.processReady = s.processReady
  intReenter : u.intReenter = s.intReenter
  ticks : u.ticks = s.ticks

theorem SameButLinks.trans {s t u : Kernel n} (first : SameButLinks s t)
    (second : SameButLinks t u) : SameButLinks s u where
  proc q := by rw [second.proc q, first.proc q]
  mem := second.mem.trans first.mem
  processReady := second.processReady.trans first.processReady
  intReenter := second.intReenter.trans first.intReenter
  ticks := second.ticks.trans first.ticks

theorem sameButLinks_next (s : Kernel n) (p : Fin n) (next : Option (Fin n)) :
    SameButLinks s (s.modify p fun e => { e with nextSend := next }) where
  proc q := by
    rw [modify_proc]
    split <;> rfl
  mem := rfl
  processReady := rfl
  intReenter := rfl
  ticks := rfl

theorem sameButLinks_current (s : Kernel n) (p : Fin n) (first : Option (Fin n)) :
    SameButLinks s (s.modify p fun e => { e with currentSend := first }) where
  proc q := by
    rw [modify_proc]
    split <;> rfl
  mem := rfl
  processReady := rfl
  intReenter := rfl
  ticks := rfl

/-- The queues depend on the links only. -/
theorem Queues.congr (queues : Queues s queue)
    (next : ∀ q, (u.proc q).nextSend = (s.proc q).nextSend)
    (current : ∀ q, (u.proc q).currentSend = (s.proc q).currentSend) : Queues u queue := by
  intro d
  rw [current d]
  exact (queues d).congr fun q _ => next q

/-- A queue has at most `n` cells. -/
theorem Queues.length_le (queues : Queues s queue) (d : Fin n) : (queue d).length ≤ n := by
  have bound := List.Nodup.length_le_card (queues d).nodup
  rwa [Fintype.card_fin] at bound

@[simp] theorem next_setNext (s : Kernel n) (p : Fin n) (next : Option (Fin n)) (q : Fin n) :
    (s.modify p fun e => { e with nextSend := next }).next q = if q = p then next else s.next q := by
  simp only [Kernel.next, modify_proc, nextSend_ite]

@[simp] theorem next_setCurrent (s : Kernel n) (p : Fin n) (first : Option (Fin n)) (q : Fin n) :
    (s.modify p fun e => { e with currentSend := first }).next q = s.next q := by
  simp [Kernel.next]

/-! ### Appending -/

/-- The search for the last sender. -/
theorem tailLoop_sat {x : Fin n} {l : List (Fin n)} (chain : Chain s.next (s.next x) l) {fuel : ℕ}
    (enough : l.length < fuel) :
    (Traced.loop .forever (tailRound s) fuel x).Sat acc (fun z => ∃ init, x :: l = init ++ [z])
      err := by
  induction l generalizing x fuel with
  | nil =>
    cases fuel with
    | zero => exact absurd enough (Nat.not_lt_zero _)
    | succ fuel =>
      have last : (s.proc x).nextSend = none := chain
      unfold Traced.loop tailRound
      rw [last]
      exact Traced.Sat.pure ⟨[], rfl⟩
  | cons y l ih =>
    cases fuel with
    | zero => exact absurd enough (Nat.not_lt_zero _)
    | succ fuel =>
      have link : (s.proc x).nextSend = some y := chain.1
      unfold Traced.loop tailRound
      rw [link]
      refine (ih chain.2 (Nat.lt_of_succ_lt_succ enough)).mono (fun _ inside => inside) ?_
        (fun _ stopped => stopped)
      rintro z ⟨init, split⟩
      exact ⟨x :: init, by rw [split, List.cons_append]⟩

/-- **Appending `p` to the queue of `d`**, with the final `next_send = NULL`. -/
theorem addToQueue_sat (queues : Queues s queue) (separate : Separate queue) {p d : Fin n}
    (fresh : ∀ e, p ∉ queue e) :
    (addToQueue p d s).Sat acc (fun u =>
      let v := u.modify p fun e => { e with nextSend := none }
      SameButLinks s v ∧ Queues v (Function.update queue d (queue d ++ [p]))) err := by
  have length := queues.length_le d
  have chain := queues d
  unfold addToQueue
  cases head : (s.proc d).currentSend with
  | none =>
    have empty : queue d = [] := chain.nil_iff_start.mpr head
    refine Traced.Sat.pure ⟨(sameButLinks_current s d _).trans (sameButLinks_next _ p _), fun e => ?_⟩
    rw [Function.update_apply]
    split
    · rename_i same
      subst same
      rw [empty]
      simp
    · rename_i other
      simp only [modify_proc, currentSend_ite, if_neg other, ite_self]
      refine (queues e).congr fun c member => ?_
      have notP : c ≠ p := fun same => fresh e (same ▸ member)
      rw [next_setNext, next_setCurrent, if_neg notP]
  | some first =>
    obtain ⟨l, split⟩ : ∃ l, queue d = first :: l := by
      rw [head] at chain
      cases found : queue d with
      | nil => rw [found] at chain; exact absurd chain (by simp)
      | cons a l =>
        rw [found] at chain
        exact ⟨l, by rw [Option.some.inj chain.1]⟩
    rw [split] at chain length
    refine (tailLoop_sat chain.2 ?_).bind fun z found => Traced.Sat.pure ?_
    · unfold linkFuel
      simp only [List.length_cons] at length
      omega
    obtain ⟨init, split'⟩ := found
    rw [split'] at split
    have nodup : (init ++ [z]).Nodup := split ▸ (queues d).nodup
    have inQueue : z ∈ queue d := by simp [split]
    have zNe : z ≠ p := fun same => fresh d (same ▸ inQueue)
    refine ⟨(sameButLinks_next s z _).trans (sameButLinks_next _ p _), fun e => ?_⟩
    simp only [modify_proc, currentSend_ite, ite_self]
    rw [Function.update_apply]
    split
    · rename_i same
      subst same
      have chain' := queues e
      rw [split] at chain' ⊢
      rw [List.append_assoc]
      refine chain'.append (fun c member => ?_) ?_ ?_
      · have notZ : c ≠ z := fun same =>
          (List.nodup_append.mp nodup).2.2 c member z List.mem_cons_self same
        have notP : c ≠ p := fun same => fresh e (by rw [split]; simp [same ▸ member])
        rw [next_setNext, next_setNext, if_neg notP, if_neg notZ]
      · rw [next_setNext, next_setNext, if_neg zNe, if_pos rfl]
      · rw [next_setNext, if_pos rfl]
    · rename_i other
      refine (queues e).congr fun c member => ?_
      have notZ : c ≠ z := fun same => other (separate z e d (same ▸ member) inQueue)
      have notP : c ≠ p := fun same => fresh e (same ▸ member)
      rw [next_setNext, next_setNext, if_neg notP, if_neg notZ]

/-! ### Searching and unlinking -/

/-- **The search for a queued sender** ends at it, with the cell before it. -/
theorem findLoop_sat {src : Int} {q : Fin n} {before after : List (Fin n)}
    {start prev : Option (Fin n)} (chain : Chain s.next start (before ++ q :: after))
    (here : ((s.proc q).id : Int) = src) (others : ∀ c ∈ before, ((s.proc c).id : Int) ≠ src)
    {fuel : ℕ} (enough : before.length < fuel) :
    (Traced.loop .forever (findRound s src) fuel (start, prev)).Sat acc
      (· = (some q, (before.getLast?).or prev)) err := by
  induction before generalizing start prev fuel with
  | nil =>
    cases fuel with
    | zero => exact absurd enough (Nat.not_lt_zero _)
    | succ fuel =>
      obtain ⟨rfl, _⟩ := chain
      unfold Traced.loop findRound
      dsimp only
      rw [if_pos here]
      exact Traced.Sat.pure rfl
  | cons c before ih =>
    cases fuel with
    | zero => exact absurd enough (Nat.not_lt_zero _)
    | succ fuel =>
      obtain ⟨rfl, rest⟩ := chain
      unfold Traced.loop findRound
      dsimp only
      rw [if_neg (others c List.mem_cons_self)]
      refine (ih rest (fun e member => others e (List.mem_cons_of_mem _ member))
        (Nat.lt_of_succ_lt_succ enough)).mono (fun _ inside => inside) ?_ (fun _ stopped => stopped)
      rintro found rfl
      rw [List.getLast?_cons]
      cases before.getLast? <;> rfl

/-- **Unlinking `q` from the queue of `d`**, with the final `next_send = null`. -/
theorem takeFromQueue_sat (queues : Queues s queue) (separate : Separate queue) {q d : Fin n}
    {before after : List (Fin n)} (split : queue d = before ++ q :: after) :
    (takeFromQueue d q before.getLast? s).Sat acc (fun u =>
      let v := u.modify q fun e => { e with nextSend := none }
      SameButLinks s v ∧ Queues v (Function.update queue d (before ++ after))) err := by
  have chain := queues d
  have inQueue : q ∈ queue d := by simp [split]
  have nodup : (before ++ q :: after).Nodup := split ▸ chain.nodup
  have gone : q ∉ before ++ after := (List.nodup_middle.mp nodup).notMem
  rw [split] at chain
  -- the cells of the other queues keep their links
  have frame : ∀ {v : Kernel n} {e : Fin n}, e ≠ d → (v.proc e).currentSend = (s.proc e).currentSend →
      (∀ c, c ∉ queue d → v.next c = s.next c) → Chain v.next (v.proc e).currentSend (queue e) := by
    intro v e other current same
    rw [current]
    exact (queues e).congr fun c member =>
      same c fun inside => other (separate c e d member inside)
  unfold takeFromQueue
  rcases List.eq_nil_or_concat before with rfl | ⟨init, z, rfl⟩
  · have head : (s.proc d).currentSend = some q := chain.1
    rw [if_pos head.symm]
    refine Traced.Sat.pure ⟨(sameButLinks_current s d _).trans (sameButLinks_next _ q _), fun e => ?_⟩
    rw [Function.update_apply]
    split_ifs with same
    · subst same
      simp only [modify_proc, currentSend_ite, if_true, ite_self]
      refine chain.unlink_head fun c member => ?_
      have notQ : c ≠ q := fun same => gone (same ▸ member)
      rw [next_setNext, next_setCurrent, if_neg notQ]
    · refine frame same (by simp [same]) fun c off => ?_
      have notQ : c ≠ q := fun same => off (same ▸ inQueue)
      rw [next_setNext, next_setCurrent, if_neg notQ]
  · rw [List.concat_eq_append] at chain nodup gone split ⊢
    have notHead : some q ≠ (s.proc d).currentSend := fun same => by
      rw [← same] at chain
      cases init with
      | nil => exact gone (by rw [Option.some.inj chain.1]; simp)
      | cons i init => exact gone (by rw [Option.some.inj chain.1]; simp)
    have zIn : z ∈ queue d := by simp [split]
    have zNe : z ≠ q := fun same => gone (by simp [same])
    have last : (init ++ [z]).getLast? = some z := by simp
    rw [if_neg notHead, last]
    refine Traced.Sat.pure ⟨(sameButLinks_next s z _).trans (sameButLinks_next _ q _), fun e => ?_⟩
    rw [Function.update_apply]
    split_ifs with same
    · subst same
      simp only [modify_proc, currentSend_ite, ite_self]
      rw [List.append_assoc] at chain ⊢
      refine chain.unlink ?_ fun c member => ?_
      · rw [next_setNext, next_setNext, if_neg zNe, if_pos rfl]
        rfl
      · have notQ : c ≠ q := by
          rintro rfl
          rcases List.mem_append.mp member with early | late
          · exact gone (by simp [early])
          · exact gone (by simp [late])
        have notZ : c ≠ z := by
          rintro rfl
          rw [List.append_assoc, List.singleton_append] at nodup
          have unique := (List.nodup_middle.mp nodup).notMem
          rcases List.mem_append.mp member with early | late
          · exact unique (by simp [early])
          · exact unique (by simp [late])
        rw [next_setNext, next_setNext, if_neg notQ, if_neg notZ]
    · refine frame same (by simp) fun c off => ?_
      have notQ : c ≠ q := fun same => off (same ▸ inQueue)
      have notZ : c ≠ z := fun same => off (same ▸ zIn)
      rw [next_setNext, next_setNext, if_neg notQ, if_neg notZ]

end WalOS
