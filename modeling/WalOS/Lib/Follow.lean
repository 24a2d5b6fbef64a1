/-
**Finite relations without cycles.**

A relation is acyclic when its transitive closure relates no point to itself.

* `Acyclic.mono`, `Acyclic.insert` — dropping edges keeps acyclicity, and so does adding an edge
  `a → b` when `a` cannot be reached from `b`.
* `reach_insert_iff` — the walks after adding an edge.
* `Acyclic.exists_rank` — on a finite type an acyclic relation has a rank that every edge lowers and
  that stays below the number of points, so a walk along edges ends.
-/

import Mathlib.Logic.Relation
import Mathlib.Data.Fintype.Card

namespace Follow

variable {α : Type} {edge edge' : α → α → Prop}

/-- No point reaches itself along one or more edges. -/
def Acyclic (edge : α → α → Prop) : Prop := ∀ a, ¬ Relation.TransGen edge a a

/-- Dropping edges keeps acyclicity. -/
theorem Acyclic.mono (acyclic : Acyclic edge) (fewer : ∀ a b, edge' a b → edge a b) :
    Acyclic edge' :=
  fun a cycle => acyclic a (Relation.TransGen.mono fewer _ _ cycle)

/-- A walk in the enlarged relation is one in the old relation, or it uses the new edge and can be
cut at its last use. -/
theorem reach_insert {a b : α} (added : ∀ x y, edge' x y → edge x y ∨ (x = a ∧ y = b)) {x y : α}
    (walk : Relation.TransGen edge' x y) :
    Relation.TransGen edge x y ∨
      (Relation.ReflTransGen edge x a ∧ Relation.ReflTransGen edge' b y) := by
  induction walk using Relation.TransGen.head_induction_on with
  | single step =>
    rcases added _ _ step with old | ⟨rfl, rfl⟩
    · exact Or.inl (.single old)
    · exact Or.inr ⟨.refl, .refl⟩
  | head step rest ih =>
    rcases added _ _ step with old | ⟨rfl, rfl⟩
    · rcases ih with walk | ⟨toA, fromB⟩
      · exact Or.inl (walk.head old)
      · exact Or.inr ⟨toA.head old, fromB⟩
    · exact Or.inr ⟨.refl, rest.to_reflTransGen⟩

/-- **The walks after adding an edge `a → b`.** -/
theorem reach_insert_iff {a b : α} (added : ∀ x y, edge' x y ↔ edge x y ∨ (x = a ∧ y = b)) {x y : α} :
    Relation.ReflTransGen edge' x y ↔ Relation.ReflTransGen edge x y ∨
      (Relation.ReflTransGen edge x a ∧ Relation.ReflTransGen edge b y) := by
  have kept : ∀ {u v}, Relation.ReflTransGen edge u v → Relation.ReflTransGen edge' u v :=
    fun walk => Relation.ReflTransGen.mono (fun u v old => (added u v).mpr (.inl old)) _ _ walk
  constructor
  · intro walk
    induction walk with
    | refl => exact .inl .refl
    | @tail u v _ step ih =>
      rcases (added u v).mp step with old | ⟨rfl, rfl⟩
      · exact ih.imp (fun walk => walk.tail old) fun both => ⟨both.1, both.2.tail old⟩
      · exact .inr ⟨ih.elim id And.left, .refl⟩
  · rintro (walk | ⟨toA, fromB⟩)
    · exact kept walk
    · exact ((kept toA).tail ((added a b).mpr (.inr ⟨rfl, rfl⟩))).trans (kept fromB)

/-- **Adding an edge `a → b`** keeps acyclicity when `b` does not reach `a`. -/
theorem Acyclic.insert {a b : α} (acyclic : Acyclic edge)
    (added : ∀ x y, edge' x y → edge x y ∨ (x = a ∧ y = b))
    (unreachable : ¬ Relation.ReflTransGen edge b a) : Acyclic edge' := by
  have stays : ∀ y, Relation.ReflTransGen edge' b y → Relation.ReflTransGen edge b y := by
    intro y walk
    induction walk with
    | refl => exact .refl
    | tail _ step ih =>
      rcases added _ _ step with old | ⟨rfl, rfl⟩
      · exact ih.tail old
      · exact absurd ih unreachable
  intro x cycle
  rcases reach_insert added cycle with walk | ⟨toA, fromB⟩
  · exact acyclic x walk
  · exact unreachable ((stays x fromB).trans toA)

/-- **A rank for the walks**: on a finite type every edge leads to a point that reaches fewer
points. -/
theorem Acyclic.exists_rank [Fintype α] (acyclic : Acyclic edge) :
    ∃ rank : α → ℕ, (∀ a, rank a < Fintype.card α) ∧ ∀ a b, edge a b → rank b < rank a := by
  classical
  let ahead : α → Finset α := fun a => Finset.univ.filter fun b => Relation.TransGen edge a b
  have mem_ahead : ∀ a b, b ∈ ahead a ↔ Relation.TransGen edge a b := by simp [ahead]
  refine ⟨fun a => (ahead a).card, fun a => ?_, fun a b step => ?_⟩
  · refine Finset.card_lt_card (Finset.ssubset_univ_iff.mpr fun full => ?_)
    exact acyclic a ((mem_ahead a a).mp (full ▸ Finset.mem_univ a))
  · have inside : ahead b ⊆ ahead a := fun c member =>
      (mem_ahead a c).mpr (((mem_ahead b c).mp member).head step)
    refine Finset.card_lt_card ((Finset.ssubset_iff_of_subset inside).mpr ⟨b, ?_, ?_⟩)
    · exact (mem_ahead a b).mpr (.single step)
    · exact fun member => acyclic b ((mem_ahead b b).mp member)

end Follow
