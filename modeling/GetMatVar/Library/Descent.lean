import Mathlib.Data.Fintype.Card
import Mathlib.Data.Set.Finite.Basic
import Mathlib.Logic.Relation

namespace Descent
open Relation

variable {α : Type} {step : α → α → Prop} {good : α → Prop}

-- Everything that is come to is good, and no chain goes on without end.
inductive Ends (step : α → α → Prop) (good : α → Prop) : α → Prop where
  | intro : good x → (∀ y, step x y → Ends step good y) → Ends step good x

def Cyclic (step : α → α → Prop) (x : α) : Prop := ∃ y, ReflTransGen step x y ∧ TransGen step y y

theorem Ends.here (ends : Ends step good x) : good x := by
  cases ends with
  | intro here_ _ => exact here_

theorem Ends.next (ends : Ends step good x) (down : step x y) : Ends step good y := by
  cases ends with
  | intro _ below => exact below y down

theorem Ends.reach (ends : Ends step good x) (down : ReflTransGen step x y) : Ends step good y := by
  induction down with
  | refl => exact ends
  | tail _ last ih => exact ih.next last

theorem Ends.tail (ends : Ends step good x) (down : TransGen step x y) : Ends step good y :=
  ends.reach down.to_reflTransGen

theorem Ends.no_loop (ends : Ends step good x) : ¬TransGen step x x := by
  induction ends with
  | intro _ _ ih =>
    intro loop
    obtain ⟨y,first,rest⟩ := TransGen.head'_iff.mp loop
    exact ih y first (TransGen.tail' rest first)

theorem Ends.acyclic (ends : Ends step good x) : ¬Cyclic step x := by
  rintro ⟨y,down,loop⟩
  exact (ends.reach down).no_loop loop

-- Among finitely many a chain without end comes back to where it was.
theorem acyclic_ends (few : {y | ReflTransGen step x y}.Finite) (acyclic : ¬Cyclic step x)
    (all_ : ∀ y, ReflTransGen step x y → good y) : Ends step good x := by
  let Below := {y // ReflTransGen step x y}
  have finite : Finite Below := few
  let after : Below → Below → Prop := fun y z => TransGen step z.1 y.1
  have transitive : IsTrans Below after := ⟨fun _ _ _ left right => right.trans left⟩
  have irreflexive : Std.Irrefl after := ⟨fun y loop => acyclic ⟨y.1,y.2,loop⟩⟩
  have founded := Finite.wellFounded_of_trans_of_irrefl after
  have down : ∀ y : Below, Ends step good y.1 := fun y => by
    induction y using founded.induction with
    | _ y ih => exact .intro (all_ y.1 y.2) fun z next => ih ⟨z,y.2.tail next⟩ (.single next)
  exact down ⟨x,.refl⟩

theorem ends_exact (few : {y | ReflTransGen step x y}.Finite) :
    Ends step good x ↔ ¬Cyclic step x ∧ ∀ y, ReflTransGen step x y → good y :=
  ⟨fun ends => ⟨ends.acyclic,fun _ down => (ends.reach down).here⟩,fun both => acyclic_ends few both.1 both.2⟩

theorem bounded_few {step : Nat → Nat → Prop} (bounded : ∀ x y, step x y → y < bound) (x : Nat) :
    {y | ReflTransGen step x y}.Finite := by
  refine ((Set.finite_lt_nat bound).insert x).subset fun y down => ?_
  rcases ReflTransGen.cases_tail down with same | ⟨z,_,last⟩
  · exact .inl same
  · exact .inr (bounded z y last)

-- What holds from some fuel on for each of finitely many, holds for all of them.
theorem common_fuel {holds : Nat → Nat → Prop} (mono : ∀ i fuel more, fuel ≤ more → holds i fuel → holds i more)
    (count : Nat) (each : ∀ i < count, ∃ fuel, holds i fuel) : ∃ fuel, ∀ i < count, holds i fuel := by
  induction count with
  | zero => exact ⟨0,fun i below => absurd below (Nat.not_lt_zero i)⟩
  | succ count ih =>
    obtain ⟨left,lower⟩ := ih fun i below => each i (Nat.lt_succ_of_lt below)
    obtain ⟨right,last⟩ := each count (Nat.lt_succ_self count)
    refine ⟨max left right,fun i below => ?_⟩
    rcases Nat.lt_succ_iff_lt_or_eq.mp below with less | rfl
    · exact mono i left _ (Nat.le_max_left ..) (lower i less)
    · exact mono i right _ (Nat.le_max_right ..) last

end Descent
