import GetMatVar.NumberHelper
import Mathlib.Tactic.Ring

namespace GetMatVar

section Digits

theorem littleEndian_congr {bytes bytes' : FileBytes} {pointer pointer' count : Nat}
    (same : ∀ i < count, bytes (pointer+i) = bytes' (pointer'+i)) :
    littleEndian bytes pointer count = littleEndian bytes' pointer' count := by
  induction count generalizing pointer pointer' with
  | zero => rfl
  | succ count ih =>
    have first : bytes pointer = bytes' pointer' := same 0 (Nat.succ_pos count)
    have rest := @ih (pointer+1) (pointer'+1) fun i below => by
      have byte := same (i+1) (Nat.succ_lt_succ below)
      rwa [← Nat.add_assoc,Nat.add_right_comm,← Nat.add_assoc,Nat.add_right_comm pointer'] at byte
    rw [littleEndian,littleEndian,first,rest]

theorem littleEndian_append (bytes : FileBytes) (pointer low high : Nat) :
    littleEndian bytes pointer (low+high) = littleEndian bytes pointer low+256^low*littleEndian bytes (pointer+low) high := by
  induction low generalizing pointer with
  | zero => simp [littleEndian]
  | succ low ih =>
    have rest := ih (pointer+1)
    rw [Nat.succ_add,littleEndian,littleEndian,rest,Nat.add_right_comm pointer 1 low,Nat.add_assoc pointer low 1]
    ring

theorem littleEndian_same {bytes bytes' : FileBytes} {pointer pointer' count : Nat}
    (same : littleEndian bytes pointer count = littleEndian bytes' pointer' count) :
    ∀ i < count, bytes (pointer+i) = bytes' (pointer'+i) := by
  induction count generalizing pointer pointer' with
  | zero => exact fun i below => absurd below (Nat.not_lt_zero i)
  | succ count ih =>
    simp only [littleEndian] at same
    have low := (bytes pointer).toNat_lt
    have low' := (bytes' pointer').toNat_lt
    have first : (bytes pointer).toNat = (bytes' pointer').toNat := by omega
    have rest := @ih (pointer+1) (pointer'+1) (by omega)
    intro i below
    cases i with
    | zero => exact UInt8.toNat_inj.mp first
    | succ i =>
      have byte := rest i (Nat.lt_of_succ_lt_succ below)
      rwa [Nat.add_assoc,Nat.add_comm 1 i,Nat.add_assoc,Nat.add_comm 1 i] at byte

theorem littleEndian_empty (pointer count : Nat) : littleEndian (fun _ => 0) pointer count = 0 := by
  induction count generalizing pointer with
  | zero => rfl
  | succ count ih => rw [littleEndian,ih,UInt8.toNat_zero]

theorem littleEndian_zero_exact : littleEndian bytes pointer count = 0 ↔ ∀ i < count, bytes (pointer+i) = 0 := by
  have empty := littleEndian_empty pointer count
  exact ⟨fun number => littleEndian_same (number.trans empty.symm),fun zero => (littleEndian_congr zero).trans empty⟩

end Digits

section Written

def putNumber (pointer width value : Nat) (bytes : FileBytes) : FileBytes := fun p =>
  if pointer ≤ p ∧ p < pointer+width then UInt8.ofNat (value/256^(p-pointer)) else bytes p

theorem putNumber_other (outside : p < pointer ∨ pointer+width ≤ p) : putNumber pointer width value bytes p = bytes p := by
  unfold putNumber
  rw [if_neg (by omega)]

theorem putNumber_kept (apart : start+count ≤ pointer ∨ pointer+width ≤ start) :
    littleEndian (putNumber pointer width value bytes) start count = littleEndian bytes start count :=
  littleEndian_congr fun i below => putNumber_other (by omega)

theorem putNumber_read (fits : value < 256^width) :
    littleEndian (putNumber pointer width value bytes) pointer width = value := by
  induction width generalizing pointer value bytes with
  | zero =>
    rw [Nat.pow_zero] at fits
    exact (Nat.lt_one_iff.mp fits).symm
  | succ width ih =>
    have first : (putNumber pointer (width+1) value bytes pointer).toNat = value%256 := by
      unfold putNumber
      rw [if_pos (by omega),Nat.sub_self,Nat.pow_zero,Nat.div_one]
      simp
    have rest : littleEndian (putNumber pointer (width+1) value bytes) (pointer+1) width =
        littleEndian (putNumber (pointer+1) width (value/256) bytes) (pointer+1) width := by
      apply littleEndian_congr
      intro i below
      unfold putNumber
      rw [if_pos (by omega),if_pos (by omega),show pointer+1+i-pointer = i+1 by omega,
        show pointer+1+i-(pointer+1) = i by omega,Nat.div_div_eq_div_mul,← Nat.pow_succ']
    have high : value/256 < 256^width := by
      rw [Nat.pow_succ'] at fits
      exact Nat.div_lt_of_lt_mul fits
    rw [littleEndian,first,rest,ih high]
    exact Nat.mod_add_div value 256

end Written
end GetMatVar
