import Mathlib.Algebra.BigOperators.Group.Finset.Basic
import Mathlib.Algebra.Order.Ring.Int
import Mathlib.Tactic.Linarith
import Mathlib.Tactic.Ring

namespace MixedRadix

-- Positional systems with a radix for every place. Digit families are total
-- functions; only the places below the stated count matter.
def weight (radix : Nat → Int) : Nat → Int
  | 0 => 1
  | place+1 => weight radix place*radix place

def combine (weights digits : Nat → Int) : Nat → Int
  | 0 => 0
  | place+1 => combine weights digits place+digits place*weights place

def value (radix digits : Nat → Int) (places : Nat) : Int := combine (weight radix) digits places

def InRange (radix digits : Nat → Int) (places : Nat) : Prop :=
  ∀ place < places, 0 ≤ digits place ∧ digits place < radix place

section Basics
variable {radix digits : Nat → Int} {places : Nat}

theorem InRange.lower (range : InRange radix digits (places+1)) : InRange radix digits places :=
  fun place below => range place (Nat.lt_succ_of_lt below)

theorem weight_positive (positive : ∀ place < places, 0 < radix place) : 0 < weight radix places := by
  induction places with
  | zero => exact Int.one_pos
  | succ places ih =>
    exact Int.mul_pos (ih fun place below => positive place (Nat.lt_succ_of_lt below)) (positive places (Nat.lt_succ_self _))

theorem weight_monotone (positive : ∀ j < places, 0 < radix j) (below : place ≤ places) : weight radix place ≤ weight radix places := by
  induction places with
  | zero => rw [Nat.le_zero.mp below]
  | succ places ih =>
    rcases Nat.lt_or_eq_of_le below with less | rfl
    · have lower := ih (fun j under => positive j (Nat.lt_succ_of_lt under)) (Nat.le_of_lt_succ less)
      have base := weight_positive fun j under => positive j (Nat.lt_succ_of_lt under)
      have top := positive places (Nat.lt_succ_self _)
      simp only [weight]
      nlinarith
    · exact Int.le_refl _

theorem weight_digit (positive : ∀ j < places, 0 < radix j) (below : place < places) : radix place ≤ weight radix places := by
  have upper : weight radix (place+1) ≤ weight radix places := weight_monotone positive below
  have base : 0 < weight radix place := weight_positive fun j under => positive j (Nat.lt_trans under below)
  have here := positive place below
  simp only [weight] at upper
  nlinarith

theorem weight_le {other : Nat → Int} (smaller : ∀ j < places, 0 < radix j ∧ radix j ≤ other j) :
    0 < weight radix places ∧ weight radix places ≤ weight other places := by
  induction places with
  | zero => exact ⟨Int.one_pos,Int.le_refl _⟩
  | succ places ih =>
    obtain ⟨low,high⟩ := ih fun j below => smaller j (Nat.lt_succ_of_lt below)
    obtain ⟨some_,less⟩ := smaller places (Nat.lt_succ_self _)
    simp only [weight]
    constructor <;> nlinarith

theorem combine_congr (weights : Nat → Int) (same : ∀ place < places, digits place = other place) :
    combine weights digits places = combine weights other places := by
  induction places with
  | zero => rfl
  | succ places ih =>
    simp only [combine,ih fun place below => same place (Nat.lt_succ_of_lt below),same places (Nat.lt_succ_self _)]

theorem combine_add (weights a b : Nat → Int) (places : Nat) :
    combine weights (fun place => a place+b place) places = combine weights a places+combine weights b places := by
  induction places with
  | zero => rfl
  | succ places ih => simp only [combine,ih]; ring

theorem value_bounds (range : InRange radix digits places) :
    0 ≤ value radix digits places ∧ value radix digits places < weight radix places := by
  induction places with
  | zero => exact ⟨Int.le_refl _,Int.one_pos⟩
  | succ places ih =>
    obtain ⟨low,high⟩ := ih range.lower
    obtain ⟨digitLow,digitHigh⟩ := range places (Nat.lt_succ_self _)
    have positive : 0 < weight radix places := Int.lt_of_le_of_lt low high
    simp only [value,combine,weight] at low high ⊢
    constructor
    · exact Int.add_nonneg low (Int.mul_nonneg digitLow positive.le)
    · nlinarith

theorem value_digit (range : InRange radix digits places) (below : place < places) : digits place ≤ value radix digits places := by
  induction places with
  | zero => cases below
  | succ places ih =>
    have low := (value_bounds range.lower).1
    have base := weight_positive fun j under => Int.lt_of_le_of_lt (range j (Nat.lt_succ_of_lt under)).1 (range j (Nat.lt_succ_of_lt under)).2
    have top := (range places (Nat.lt_succ_self _)).1
    simp only [value,combine] at low ih ⊢
    rcases Nat.lt_succ_iff_lt_or_eq.mp below with less | rfl
    · have lower := ih range.lower less
      nlinarith
    · nlinarith

theorem value_injective (left : InRange radix a places) (right : InRange radix b places)
    (same : value radix a places = value radix b places) : ∀ place < places, a place = b place := by
  induction places with
  | zero => intro _ below; cases below
  | succ places ih =>
    obtain ⟨aLow,aHigh⟩ := value_bounds left.lower
    obtain ⟨bLow,bHigh⟩ := value_bounds right.lower
    have split : value radix a places+a places*weight radix places =
        value radix b places+b places*weight radix places := same
    have top : a places = b places := by
      by_contra differs
      rcases Int.lt_or_gt_of_ne differs with less | greater
      · have apart : a places+1 ≤ b places := less
        nlinarith
      · have apart : b places+1 ≤ a places := greater
        nlinarith
    intro place below
    rcases Nat.lt_succ_iff_lt_or_eq.mp below with lower | rfl
    · refine ih left.lower right.lower ?_ place lower
      rw [top] at split
      linarith
    · exact top

def digit (radix : Nat → Int) (number : Int) (place : Nat) : Int := number/weight radix place%radix place

theorem digit_range (positive : ∀ place < places, 0 < radix place) (number : Int) :
    InRange radix (digit radix number) places :=
  fun place below => ⟨Int.emod_nonneg _ (positive place below).ne',Int.emod_lt_of_pos _ (positive place below)⟩

theorem digits_split (positive : ∀ place < places, 0 < radix place) (number : Int) :
    number = value radix (digit radix number) places+weight radix places*(number/weight radix places) := by
  induction places with
  | zero => simp [value,combine,weight]
  | succ places ih =>
    have below := ih fun place less => positive place (Nat.lt_succ_of_lt less)
    have base := weight_positive fun place less => positive place (Nat.lt_succ_of_lt less)
    have upper := Int.mul_ediv_add_emod (number/weight radix places) (radix places)
    rw [Int.ediv_ediv_of_nonneg base.le] at upper
    simp only [value,combine,weight,digit] at below ⊢
    calc number = _ := below
      _ = combine (weight radix) (digit radix number) places+weight radix places*
          (radix places*(number/(weight radix places*radix places))+number/weight radix places%radix places) := by
        rw [upper]
      _ = _ := by ring

theorem value_digits (positive : ∀ place < places, 0 < radix place) (low : 0 ≤ number)
    (high : number < weight radix places) : value radix (digit radix number) places = number := by
  have split := digits_split positive number
  rw [Int.ediv_eq_zero_of_lt low high] at split
  linarith

-- The odometer: places below `carries` stand at their last digit and return to
-- zero, the place at `carries` moves on.
def advance (carries : Nat) (digits : Nat → Int) (place : Nat) : Int :=
  if place < carries then 0 else if place = carries then digits place+1 else digits place

theorem combine_advance_cleared (weights digits : Nat → Int) (below : places ≤ carries) :
    combine weights (advance carries digits) places = 0 := by
  induction places with
  | zero => rfl
  | succ places ih =>
    have zero : advance carries digits places = 0 := if_pos below
    simp [combine,ih (Nat.le_of_succ_le below),zero]

theorem combine_advance (weights : Nat → Int) (full : ∀ place < carries, digits place = radix place-1) (inside : carries < places) :
    combine weights (advance carries digits) places+combine weights (fun place => radix place-1) carries =
      combine weights digits places+weights carries := by
  induction places with
  | zero => cases inside
  | succ places ih =>
    rcases Nat.lt_succ_iff_lt_or_eq.mp inside with lower | rfl
    · have kept : advance carries digits places = digits places := by
        simp [advance,Nat.not_lt.mpr lower.le,lower.ne']
      have step := ih lower
      simp only [combine,kept]
      linarith
    · have cleared := combine_advance_cleared weights digits (Nat.le_refl carries)
      have moved : advance carries digits carries = digits carries+1 := by simp [advance]
      have same := combine_congr weights full
      simp only [combine,cleared,moved,same]
      ring

theorem combine_last (radix : Nat → Int) (places : Nat) :
    combine (weight radix) (fun place => radix place-1) places = weight radix places-1 := by
  induction places with
  | zero => simp [combine,weight]
  | succ places ih => simp only [combine,ih,weight]; ring

theorem value_advance (full : ∀ place < carries, digits place = radix place-1) (inside : carries < places) :
    value radix (advance carries digits) places = value radix digits places+1 := by
  have moved := combine_advance (weight radix) full inside
  rw [combine_last] at moved
  simp only [value]
  linarith

theorem carries_exist (radix digits : Nat → Int) (places : Nat) : ∃ carries ≤ places,
    (∀ place < carries, digits place = radix place-1) ∧ (carries < places → digits carries ≠ radix carries-1) := by
  induction places with
  | zero => exact ⟨0,Nat.le_refl _,(fun _ below => by cases below),fun below => by cases below⟩
  | succ places ih =>
    obtain ⟨carries,bound,full,stop⟩ := ih
    by_cases every : carries = places
    · subst every
      by_cases last : digits carries = radix carries-1
      · refine ⟨carries+1,Nat.le_refl _,fun place below => ?_,fun below => absurd below (Nat.lt_irrefl _)⟩
        rcases Nat.lt_succ_iff_lt_or_eq.mp below with lower | rfl
        · exact full place lower
        · exact last
      · exact ⟨carries,Nat.le_succ _,full,fun _ => last⟩
    · exact ⟨carries,Nat.le_succ_of_le bound,full,fun _ => stop (by omega)⟩

theorem value_full (full : ∀ place < places, digits place = radix place-1) :
    value radix digits places = weight radix places-1 := by
  rw [value,combine_congr _ full,combine_last]

theorem advance_range (carries : Nat) (range : InRange radix digits places)
    (room : carries < places → digits carries+1 < radix carries) : InRange radix (advance carries digits) places := by
  intro place below
  obtain ⟨low,high⟩ := range place below
  simp only [advance]
  split
  · exact ⟨Int.le_refl 0,Int.lt_of_le_of_lt low high⟩
  · split
    · rename_i same
      subst same
      exact ⟨Int.le_add_one low,room below⟩
    · exact ⟨low,high⟩

end Basics

def shift (family : Nat → Int) (place : Nat) : Int := family (place+1)

section Shift
variable {radix digits : Nat → Int} {places : Nat}

theorem InRange.shift (range : InRange radix digits (places+1)) :
    InRange (MixedRadix.shift radix) (MixedRadix.shift digits) places :=
  fun place below => range (place+1) (Nat.succ_lt_succ below)

theorem combine_shift (weights digits : Nat → Int) (places : Nat) :
    combine weights digits (places+1) = digits 0*weights 0+combine (shift weights) (shift digits) places := by
  induction places with
  | zero => simp [combine]
  | succ places ih => rw [combine,ih]; simp only [combine,shift]; ring

theorem combine_shift_last (radix : Nat → Int) (places : Nat) :
    combine (shift (weight radix)) (shift fun place => radix place-1) places = weight radix (places+1)-radix 0 := by
  have whole := combine_last radix (places+1)
  rw [combine_shift] at whole
  simp only [weight] at whole ⊢
  linarith

end Shift
end MixedRadix
