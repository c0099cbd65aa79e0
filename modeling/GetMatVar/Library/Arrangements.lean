import Mathlib.Data.List.Perm.Basic

namespace Arrangements
variable {σ α : Type} {step : σ → α → σ}

def Commute (step : σ → α → σ) (a b : α) : Prop := ∀ s, step (step s a) b = step (step s b) a

def Before (list : List α) (a b : α) : Prop := [a,b].Sublist list

instance [DecidableEq α] (list : List α) (a b : α) : Decidable (Before list a b) :=
  inferInstanceAs (Decidable ([a,b].Sublist list))

theorem foldl_pull (front : List α) (commute : ∀ b ∈ front, Commute step b a) (rest : List α) (s : σ) :
    (front++a::rest).foldl step s = (front++rest).foldl step (step s a) := by
  induction front generalizing s with
  | nil => rfl
  | cons b front ih =>
    have tail := ih (fun other member => commute other (List.mem_cons_of_mem _ member)) (step s b)
    have swap := commute b List.mem_cons_self s
    rw [List.cons_append,List.foldl_cons,tail,swap]
    rfl

theorem sublist_without {small front rest : List α} (absent : a ∉ small) :
    small.Sublist (front++a::rest) ↔ small.Sublist (front++rest) := by
  constructor
  · intro inside
    obtain ⟨low,high,rfl,left,right⟩ := List.sublist_append_iff.mp inside
    rcases List.sublist_cons_iff.mp right with tail | ⟨later,rfl,_⟩
    · exact left.append tail
    · exact absurd (List.mem_append_right _ List.mem_cons_self) absent
  · intro inside
    exact inside.trans (List.Sublist.append (List.Sublist.refl front) (List.sublist_cons_self a rest))

theorem before_without {front rest : List α} (first : b ≠ a) (second : c ≠ a) :
    Before (front++a::rest) b c ↔ Before (front++rest) b c :=
  sublist_without (by simp [Ne.symm first,Ne.symm second])

-- Two arrangements of the same entries have the same effect if they agree on the
-- order of every two entries that do not commute.
theorem foldl_arranged {first second : List α} (perm : first.Perm second) (nodup : first.Nodup)
    (agree : ∀ a ∈ first, ∀ b ∈ first, a ≠ b → Commute step a b ∨ (Before first a b ↔ Before second a b)) (s : σ) :
    first.foldl step s = second.foldl step s := by
  induction first generalizing second s with
  | nil =>
    have empty := perm.nil_eq
    subst empty
    rfl
  | cons a rest ih =>
    obtain ⟨front,back,rfl⟩ := List.append_of_mem (perm.mem_iff.mp List.mem_cons_self)
    obtain ⟨fresh,tail⟩ := List.nodup_cons.mp nodup
    have others : rest.Perm (front++back) := (perm.trans List.perm_middle).cons_inv
    -- Whatever stands in front of a now came after it, so the two commute.
    have pulled : ∀ b ∈ front, Commute step b a := by
      intro b member
      have inRest := others.mem_iff.mpr (List.mem_append_left _ member)
      have different : b ≠ a := by
        rintro rfl
        exact fresh inRest
      rcases agree b (List.mem_cons_of_mem _ inRest) a List.mem_cons_self different with commute | order
      · exact commute
      · have later : Before (front++a::back) b a := by
          have single : [b].Sublist front := List.singleton_sublist.mpr member
          exact single.append ((List.nil_sublist back).cons_cons a)
        have earlier := order.mpr later
        unfold Before at earlier
        rcases List.sublist_cons_iff.mp earlier with inside | ⟨_,same,_⟩
        · exact absurd (inside.subset (by simp)) fresh
        · cases same
          exact absurd rfl different
    rw [foldl_pull front pulled,List.foldl_cons]
    refine ih others tail ?_ (step s a)
    intro b inB c inC different
    have notB : b ≠ a := fun same => fresh (same ▸ inB)
    have notC : c ≠ a := fun same => fresh (same ▸ inC)
    have kept : Before (a::rest) b c ↔ Before rest b c := @before_without _ _ _ _ [] rest notB notC
    rcases agree b (List.mem_cons_of_mem _ inB) c (List.mem_cons_of_mem _ inC) different with commute | order
    · exact .inl commute
    · exact .inr (kept.symm.trans (order.trans (before_without notB notC)))

end Arrangements
