import Mathlib.Algebra.BigOperators.Fin
import Mathlib.Algebra.Order.BigOperators.Group.Finset

namespace Tally
variable {n : Nat} {β : Type}

def total (measure : β → Nat) (family : Fin n → β) : Nat := ∑ i, measure (family i)

theorem total_update (measure : β → Nat) (family : Fin n → β) (i : Fin n) (value : β) :
    total measure (Function.update family i value)+measure (family i) = total measure family+measure value := by
  have others : ∀ j ∈ Finset.univ.erase i, measure (Function.update family i value j) = measure (family j) := by
    intro j member
    rw [Function.update_of_ne (Finset.ne_of_mem_erase member)]
  unfold total
  rw [← Finset.add_sum_erase _ _ (Finset.mem_univ i),Finset.sum_congr rfl others,Function.update_self,
    ← Finset.add_sum_erase Finset.univ (fun j => measure (family j)) (Finset.mem_univ i)]
  omega

def tally (test : β → Bool) (family : Fin n → β) : Nat := total (fun value => if test value then 1 else 0) family

theorem tally_update (test : β → Bool) (family : Fin n → β) (i : Fin n) (value : β) :
    tally test (Function.update family i value)+(if test (family i) then 1 else 0) =
      tally test family+(if test value then 1 else 0) :=
  total_update _ family i value

theorem tally_pos (test : β → Bool) (family : Fin n → β) (i : Fin n) (present : test (family i) = true) :
    0 < tally test family := by
  have part := Finset.single_le_sum (f:=fun j => if test (family j) then 1 else 0)
    (fun _ _ => Nat.zero_le _) (Finset.mem_univ i)
  simpa [tally,total,present] using part

theorem tally_zero (test : β → Bool) {family : Fin n → β} :
    tally test family = 0 ↔ ∀ i, test (family i) = false := by
  simp [tally,total]

theorem tally_le (test : β → Bool) (family : Fin n → β) : tally test family ≤ n := by
  have bound := Finset.sum_le_card_nsmul Finset.univ (fun j => if test (family j) then 1 else 0) 1
    (fun j _ => by split <;> omega)
  simpa [tally,total] using bound

theorem tally_mono {weak strong : β → Bool} (implied : ∀ value, strong value = true → weak value = true)
    (family : Fin n → β) : tally strong family ≤ tally weak family := by
  unfold tally total
  refine Finset.sum_le_sum fun i _ => ?_
  by_cases holds : strong (family i) = true
  · simp [holds,implied _ holds]
  · simp [holds]

end Tally
