import GetMatVar.ByteNumbers
import GetMatVar.Library.Logged
import GetMatVar.PlaceData

namespace GetMatVar
namespace HostOrder
open Logged PlaceData

section Orders

def bigEndian (bytes : FileBytes) (pointer : Nat) : Nat → Nat
  | 0 => 0
  | count+1 => 256*bigEndian bytes pointer count+(bytes (pointer+count)).toNat

def denoted (bytes : FileBytes) (pointer count : Nat) : ByteOrder → Nat
  | .littleEndian => littleEndian bytes pointer count
  | .bigEndian => bigEndian bytes pointer count

def mirrored (bytes : FileBytes) (pointer count : Nat) : FileBytes := fun i => bytes (pointer+(count-1-i))

theorem bigEndian_mirrored (bytes : FileBytes) (pointer count : Nat) :
    bigEndian bytes pointer count = littleEndian (mirrored bytes pointer count) 0 count := by
  induction count with
  | zero => rfl
  | succ count ih =>
    have rest : littleEndian (mirrored bytes pointer (count+1)) 1 count =
        littleEndian (mirrored bytes pointer count) 0 count := by
      apply littleEndian_congr
      intro i below
      unfold mirrored
      congr 2
      omega
    rw [bigEndian,littleEndian,rest,ih,Nat.add_comm]
    rfl

theorem littleEndian_mirrored (bytes : FileBytes) (pointer count : Nat) :
    littleEndian bytes pointer count = bigEndian (mirrored bytes pointer count) 0 count := by
  rw [bigEndian_mirrored]
  apply littleEndian_congr
  intro i below
  unfold mirrored
  congr 1
  omega

theorem bigEndian_append (bytes : FileBytes) (pointer high low : Nat) :
    bigEndian bytes pointer (high+low) = 256^low*bigEndian bytes pointer high+bigEndian bytes (pointer+high) low := by
  induction low with
  | zero => simp [bigEndian]
  | succ low ih =>
    rw [← Nat.add_assoc,bigEndian,bigEndian,ih,Nat.add_assoc pointer high low]
    ring

theorem bigEndian_same_exact {bytes bytes' : FileBytes} {pointer pointer' count : Nat} :
    bigEndian bytes pointer count = bigEndian bytes' pointer' count ↔
      ∀ i < count, bytes (pointer+i) = bytes' (pointer'+i) := by
  rw [bigEndian_mirrored,bigEndian_mirrored]
  constructor
  · intro same i below
    have byte := littleEndian_same same (count-1-i) (by omega)
    unfold mirrored at byte
    rwa [show count-1-(0+(count-1-i)) = i by omega] at byte
  · intro same
    apply littleEndian_congr
    intro i below
    exact same (count-1-(0+i)) (by omega)

theorem bigEndian_zero_exact : bigEndian bytes pointer count = 0 ↔ ∀ i < count, bytes (pointer+i) = 0 := by
  have empty : bigEndian (fun _ => 0) pointer count = 0 := by
    rw [bigEndian_mirrored]
    exact littleEndian_empty 0 count
  exact empty ▸ bigEndian_same_exact

theorem bigEndian_bound (bytes : FileBytes) (pointer count : Nat) : bigEndian bytes pointer count < 256^count := by
  rw [bigEndian_mirrored]
  exact littleEndian_bound (mirrored bytes pointer count) 0 count

theorem denoted_bound (bytes : FileBytes) (pointer count : Nat) (order : ByteOrder) :
    denoted bytes pointer count order < 256^count := by
  cases order with
  | littleEndian => exact littleEndian_bound bytes pointer count
  | bigEndian => exact bigEndian_bound bytes pointer count

theorem denoted_zero_exact (order : ByteOrder) :
    denoted bytes pointer count order = 0 ↔ ∀ i < count, bytes (pointer+i) = 0 := by
  cases order with
  | littleEndian => exact littleEndian_zero_exact
  | bigEndian => exact bigEndian_zero_exact

theorem denoted_congr {bytes bytes' : FileBytes} {pointer pointer' count : Nat} (order : ByteOrder)
    (same : ∀ i < count, bytes (pointer+i) = bytes' (pointer'+i)) :
    denoted bytes pointer count order = denoted bytes' pointer' count order := by
  cases order with
  | littleEndian => exact littleEndian_congr same
  | bigEndian => exact bigEndian_same_exact.mpr same

theorem denoted_mirrored (differ : host ≠ order) (bytes : FileBytes) (pointer count : Nat) :
    denoted (mirrored bytes pointer count) 0 count host = denoted bytes pointer count order := by
  cases host with
  | littleEndian =>
    cases order with
    | littleEndian => exact absurd rfl differ
    | bigEndian => exact (bigEndian_mirrored bytes pointer count).symm
  | bigEndian =>
    cases order with
    | littleEndian => exact (littleEndian_mirrored bytes pointer count).symm
    | bigEndian => exact absurd rfl differ

end Orders

def sizeOfSizeT : Nat := 8

-- A byte of the file that is read, and a byte from &ret on that is read or written.
inductive Access where
  | data (position : Nat)
  | ret (position : Int)
deriving DecidableEq,Repr

def Access.Within (pointer numBytes : Nat) : Access → Prop
  | .data p => pointer ≤ p ∧ p < pointer+numBytes
  | .ret p => 0 ≤ p ∧ p < sizeOfSizeT

def memcpy (bytes : FileBytes) (source : Nat) : Nat → Memory → Logged Access Memory
  | 0,memory => pure memory
  | count+1,memory => do
    let memory ← memcpy bytes source count memory
    tell (.data (source+count))
    tell (.ret count)
    pure (Function.update memory count (bytes (source+count)))

def reverseBytesAccesses : Int → Nat → Memory → Logged Access Memory
  | _,0,memory => pure memory
  | _,1,memory => pure memory
  | start,between+2,memory => do
    tell (.ret start)
    tell (.ret (start+between+1))
    reverseBytesAccesses (start+1) between (swapBytes memory start (start+between+1))

def nativeNumber (host : ByteOrder) (memory : Memory) : Nat := denoted (fun p => memory p) 0 sizeOfSizeT host

-- memory is what lies around ret on the stack.
def getBytesAsNumberAccesses (host : ByteOrder) (bytes : FileBytes) (pointer numBytes : Nat) (endianness : ByteOrder)
    (memory : Memory) : Logged Access Nat :=
  let ret : Memory := fun p => if 0 ≤ p ∧ p < sizeOfSizeT then 0 else memory p
  if sizeOfSizeT < numBytes then
    if host ≠ endianness then do
      let ret ← memcpy bytes (pointer+(numBytes-sizeOfSizeT)) sizeOfSizeT ret
      let ret ← reverseBytesAccesses 0 numBytes ret
      pure (nativeNumber host ret)
    else do
      let ret ← memcpy bytes pointer sizeOfSizeT ret
      pure (nativeNumber host ret)
  else do
    let ret ← memcpy bytes pointer numBytes ret
    if host ≠ endianness then do
      let ret ← reverseBytesAccesses 0 numBytes ret
      pure (nativeNumber host ret)
    else pure (nativeNumber host ret)

def Decodes (host : ByteOrder) (bytes : FileBytes) (pointer numBytes : Nat) (endianness : ByteOrder) : Prop :=
  ∀ memory, (getBytesAsNumberAccesses host bytes pointer numBytes endianness memory).result =
      some (denoted bytes pointer numBytes endianness%2^64) ∧
    Only (Access.Within pointer numBytes) (getBytesAsNumberAccesses host bytes pointer numBytes endianness memory)

section Steps
variable (bytes : FileBytes) (source : Nat) (memory : Memory)

theorem memcpy_result (count : Nat) : (memcpy bytes source count memory).result =
    some (fun p : Int => if 0 ≤ p ∧ p < count then bytes (source+p.toNat) else memory p) := by
  induction count with
  | zero =>
    have none_ (p : Int) : ¬(0 ≤ p ∧ p < (0 : Nat)) := by omega
    simp only [memcpy,pure_result,none_,if_false]
  | succ count ih =>
    simp only [memcpy,bind_result,ih,tell_result,pure_result,Option.bind_some]
    congr 1
    funext p
    unfold Function.update
    by_cases last : p = count
    · simp [last]
    · have smaller : 0 ≤ p ∧ p < (count+1 : Nat) ↔ 0 ≤ p ∧ p < count := by omega
      rw [dif_neg last]
      simp only [smaller]

theorem memcpy_only (good : Access → Prop) (count : Nat) :
    Only good (memcpy bytes source count memory) ↔ ∀ i < count, good (.data (source+i)) ∧ good (.ret i) := by
  induction count with
  | zero => simp [memcpy]
  | succ count ih =>
    rw [memcpy,only_bind,ih,memcpy_result]
    simp only [only_tell_bind,only_pure,and_true,Option.some.injEq,forall_eq']
    exact Nat.forall_lt_succ_right.symm

theorem reverseBytesAccesses_result (start : Int) (count : Nat) :
    (reverseBytesAccesses start count memory).result = some (turned memory start count) := by
  induction count using Nat.twoStepInduction generalizing memory start with
  | zero => exact congrArg some (turned_single (Nat.zero_le _) memory start).symm
  | one => exact congrArg some (turned_single (Nat.le_refl _) memory start).symm
  | more between ih _ =>
    simp only [reverseBytesAccesses,bind_result,tell_result,Option.bind_some,ih]
    rw [turned_swap]

theorem reverseBytesAccesses_only (good : Access → Prop) (start : Int) (count : Nat)
    (inside : ∀ p, start ≤ p → p < start+count → good (.ret p)) : Only good (reverseBytesAccesses start count memory) := by
  induction count using Nat.twoStepInduction generalizing memory start with
  | zero => exact only_pure memory
  | one => exact only_pure memory
  | more between ih _ =>
    rw [reverseBytesAccesses,only_tell_bind,only_tell_bind]
    refine ⟨inside start (by omega) (by omega),inside _ (by omega) (by omega),?_⟩
    apply ih
    intro p low high
    exact inside p (by omega) (by omega)

-- The last byte is swapped with the first.
theorem reverseBytesAccesses_last (good : Access → Prop) (between : Nat)
    (only : Only good (reverseBytesAccesses start (between+2) memory)) : good (.ret (start+between+1)) := by
  rw [reverseBytesAccesses,only_tell_bind,only_tell_bind] at only
  exact only.2.1

end Steps

section Numbers

theorem nativeNumber_padded (host : ByteOrder) (memory : Memory) (count : Nat) (narrow : count ≤ 8)
    (zero : ∀ i, count ≤ i → i < 8 → memory (i : Nat) = 0) : nativeNumber host memory =
      (if host = .bigEndian then 256^(8-count) else 1)*denoted (fun p => memory p) 0 count host := by
  let shown : FileBytes := fun p => memory p
  have behind : ∀ i < 8-count, shown (0+count+i) = 0 := fun i below => zero (0+count+i) (by omega) (by omega)
  have split : sizeOfSizeT = count+(8-count) := (Nat.add_sub_of_le narrow).symm
  cases host with
  | littleEndian =>
    have high := littleEndian_zero_exact.mpr behind
    rw [nativeNumber,denoted,split,littleEndian_append,if_neg ByteOrder.noConfusion,high]
    simp [denoted]
  | bigEndian =>
    have low := bigEndian_zero_exact.mpr behind
    rw [nativeNumber,denoted,split,bigEndian_append,low,if_pos rfl]
    rfl

end Numbers

section Branches
variable {host endianness : ByteOrder} {bytes : FileBytes} {pointer numBytes : Nat} {memory : Memory}

theorem only_memcpy (low : pointer ≤ source) (high : source+count ≤ pointer+numBytes) (fits : count ≤ 8) :
    Only (Access.Within pointer numBytes) (memcpy bytes source count memory) := by
  rw [memcpy_only]
  intro i below
  exact ⟨⟨by omega,by omega⟩,⟨by omega,by unfold sizeOfSizeT; omega⟩⟩

theorem narrow_result (narrow : numBytes ≤ 8) :
    (getBytesAsNumberAccesses host bytes pointer numBytes endianness memory).result =
      some ((if host = .bigEndian then 256^(8-numBytes) else 1)*denoted bytes pointer numBytes endianness) := by
  have fits : ¬sizeOfSizeT < numBytes := Nat.not_lt.mpr narrow
  simp only [getBytesAsNumberAccesses,if_neg fits,bind_result,memcpy_result,Option.bind_some]
  by_cases differ : host ≠ endianness
  · rw [if_pos differ,bind_result,reverseBytesAccesses_result,Option.bind_some,pure_result,← denoted_mirrored differ]
    rw [nativeNumber_padded host _ numBytes narrow]
    · congr 2
      apply denoted_congr
      intro i below
      rw [turned,if_pos (by omega),if_pos (by omega)]
      unfold mirrored
      congr 2
      omega
    · intro i low high
      rw [turned,if_neg (by omega),if_neg (by omega),if_pos ⟨by omega,by unfold sizeOfSizeT; omega⟩]
  · rw [if_neg differ,pure_result,← not_not.mp differ]
    rw [nativeNumber_padded host _ numBytes narrow]
    · congr 2
      apply denoted_congr
      intro i below
      rw [if_pos (by omega)]
      congr 1
      omega
    · intro i low high
      rw [if_neg (by omega),if_pos ⟨by omega,by unfold sizeOfSizeT; omega⟩]

theorem narrow_only (narrow : numBytes ≤ 8) :
    Only (Access.Within pointer numBytes) (getBytesAsNumberAccesses host bytes pointer numBytes endianness memory) := by
  have fits : ¬sizeOfSizeT < numBytes := Nat.not_lt.mpr narrow
  simp only [getBytesAsNumberAccesses,if_neg fits,only_bind]
  refine ⟨only_memcpy (Nat.le_refl _) (Nat.le_refl _) narrow,fun ret _ => ?_⟩
  split
  · rw [only_bind]
    refine ⟨?_,fun _ _ => only_pure _⟩
    apply reverseBytesAccesses_only
    intro p low high
    exact ⟨low,by unfold sizeOfSizeT; omega⟩
  · exact only_pure _

theorem wide_result (wide : 8 < numBytes) :
    (getBytesAsNumberAccesses host bytes pointer numBytes host memory).result = some (denoted bytes pointer 8 host) := by
  have large : sizeOfSizeT < numBytes := wide
  simp only [getBytesAsNumberAccesses,if_pos large,ne_eq,not_true_eq_false,if_false,bind_result,memcpy_result,
    Option.bind_some,pure_result]
  refine congrArg some (denoted_congr host fun i below => ?_)
  apply (if_pos ⟨by omega,by omega⟩).trans
  congr 1
  omega

theorem wide_only (wide : 8 < numBytes) :
    Only (Access.Within pointer numBytes) (getBytesAsNumberAccesses host bytes pointer numBytes host memory) := by
  have large : sizeOfSizeT < numBytes := wide
  simp only [getBytesAsNumberAccesses,if_pos large,ne_eq,not_true_eq_false,if_false,only_bind]
  exact ⟨only_memcpy (Nat.le_refl _) (by unfold sizeOfSizeT; omega) (Nat.le_refl 8),fun _ _ => only_pure _⟩

-- reverseBytes goes on behind ret.
theorem wide_reversed (wide : 8 < numBytes) (differ : host ≠ endianness) :
    ¬Only (Access.Within pointer numBytes) (getBytesAsNumberAccesses host bytes pointer numBytes endianness memory) := by
  have large : sizeOfSizeT < numBytes := wide
  simp only [getBytesAsNumberAccesses,if_pos large,if_pos differ,only_bind,memcpy_result,Option.some.injEq,forall_eq']
  rintro ⟨_,reversed,_⟩
  obtain ⟨between,rfl⟩ := Nat.exists_eq_add_of_le' (show 2 ≤ numBytes by omega)
  have last := (reverseBytesAccesses_last _ _ between reversed).2
  unfold sizeOfSizeT at last
  omega

end Branches

def SuitsHost (bytes : FileBytes) (pointer numBytes : Nat) (endianness : ByteOrder) : ByteOrder → Prop
  | .littleEndian => endianness = .littleEndian ∨ numBytes ≤ 8
  | .bigEndian => numBytes = 8 ∨ numBytes < 8 ∧ (∀ i < numBytes, bytes (pointer+i) = 0) ∨
      8 < numBytes ∧ endianness = .bigEndian ∧ ∀ i < 8, bytes (pointer+i) = bytes (pointer+(numBytes-8)+i)

theorem shifted_exact (shift number : Nat) : 256^shift*number = number ↔ shift = 0 ∨ number = 0 := by
  constructor
  · intro same
    by_cases zero : number = 0
    · exact .inr zero
    · have one := Nat.eq_of_mul_eq_mul_right (Nat.pos_of_ne_zero zero) (same.trans (Nat.one_mul number).symm)
      exact .inl ((Nat.pow_eq_one.mp one).resolve_left (by decide))
  · rintro (rfl | rfl)
    · exact Nat.one_mul number
    · rfl

theorem narrow_exact (narrow : numBytes ≤ 8) : Decodes host bytes pointer numBytes endianness ↔
    host = .littleEndian ∨ numBytes = 8 ∨ ∀ i < numBytes, bytes (pointer+i) = 0 := by
  have only (memory : Memory) := @narrow_only host endianness bytes pointer numBytes memory narrow
  have small : denoted bytes pointer numBytes endianness < 2^64 :=
    Nat.lt_of_lt_of_le (denoted_bound bytes pointer numBytes endianness) (Nat.pow_le_pow_right (n:=256) (by decide) narrow)
  simp only [Decodes,narrow_result narrow,only,and_true,forall_const,Option.some.injEq,Nat.mod_eq_of_lt small]
  cases host with
  | littleEndian => simp
  | bigEndian =>
    have full : 8-numBytes = 0 ↔ numBytes = 8 := by omega
    rw [if_pos rfl,shifted_exact,denoted_zero_exact,full]
    simp

theorem wide_exact (wide : 8 < numBytes) : Decodes host bytes pointer numBytes endianness ↔
    host = endianness ∧ (host = .bigEndian → ∀ i < 8, bytes (pointer+i) = bytes (pointer+(numBytes-8)+i)) := by
  by_cases same : host = endianness
  · subst same
    have only (memory : Memory) := @wide_only host bytes pointer numBytes memory wide
    simp only [Decodes,wide_result wide,only,and_true,forall_const,Option.some.injEq,true_and]
    cases host with
    | littleEndian =>
      have low := littleEndian_append bytes pointer 8 (numBytes-8)
      have bound := littleEndian_bound bytes pointer 8
      rw [Nat.add_sub_of_le wide.le] at low
      simp only [denoted,low]
      simp
      omega
    | bigEndian =>
      have high := bigEndian_append bytes pointer (numBytes-8) 8
      have bound := bigEndian_bound bytes (pointer+(numBytes-8)) 8
      rw [Nat.sub_add_cancel wide.le] at high
      have kept : bigEndian bytes pointer numBytes%2^64 = bigEndian bytes (pointer+(numBytes-8)) 8 := by omega
      simp only [denoted,kept,bigEndian_same_exact,forall_const]
  · have outside := @wide_reversed host endianness bytes pointer numBytes (fun _ => 0) wide same
    exact ⟨fun decodes => absurd (decodes _).2 outside,fun both => absurd both.1 same⟩

-- getBytesAsNumber decodes exactly on these hosts.
theorem getBytesAsNumber_exact (host : ByteOrder) (bytes : FileBytes) (pointer numBytes : Nat) (endianness : ByteOrder) :
    Decodes host bytes pointer numBytes endianness ↔ SuitsHost bytes pointer numBytes endianness host := by
  by_cases narrow : numBytes ≤ 8
  · rw [narrow_exact narrow]
    cases host with
    | littleEndian => simp [SuitsHost,narrow]
    | bigEndian =>
      have notWide : ¬8 < numBytes := Nat.not_lt.mpr narrow
      by_cases full : numBytes = 8
      · simp [SuitsHost,full]
      · simp [SuitsHost,full,notWide,lt_of_le_of_ne narrow full]
  · have wide : 8 < numBytes := Nat.not_le.mp narrow
    rw [wide_exact wide]
    have notFull : numBytes ≠ 8 := by omega
    have notNarrow : ¬numBytes < 8 := by omega
    cases host with
    | littleEndian => simp [SuitsHost,narrow,eq_comm]
    | bigEndian => simp [SuitsHost,wide,notFull,notNarrow,eq_comm]

def oneZero : FileBytes := fun p => if p = 0 then 1 else 0

-- The number 1 in two bytes of the file comes out as 2^48 on a big-endian host.
theorem getBytesAsNumber_high : ¬∀ (host : ByteOrder) (bytes : FileBytes) (pointer numBytes : Nat) (endianness : ByteOrder),
    1 ≤ numBytes → Decodes host bytes pointer numBytes endianness := by
  intro decodes
  have two := decodes .bigEndian oneZero 0 2 .littleEndian (by decide)
  have zero := ((narrow_exact (by decide)).mp two).resolve_left (by decide) |>.resolve_left (by decide)
  exact absurd (zero 0 (by decide)) (by decide)

theorem getBytesAsNumber_native (bytes : FileBytes) (pointer numBytes : Nat) (memory : Memory) :
    (getBytesAsNumberAccesses .littleEndian bytes pointer numBytes .littleEndian memory).result =
      some (getBytesAsNumber bytes pointer numBytes) := by
  unfold getBytesAsNumber
  by_cases narrow : numBytes ≤ 8
  · rw [narrow_result narrow,Nat.min_eq_left narrow]
    simp [denoted]
  · rw [wide_result (Nat.not_le.mp narrow),Nat.min_eq_right (Nat.le_of_not_le narrow)]
    rfl

end HostOrder
end GetMatVar
