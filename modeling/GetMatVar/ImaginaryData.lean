import GetMatVar.ByteNumbers
import GetMatVar.MexSet

namespace GetMatVar
namespace ImaginaryData

-- data of the object and of imag_data, which mxMalloc leaves as they were.
structure Arrays where
  data : FileBytes
  imagData : FileBytes

def memcpy (target : FileBytes) (dst : Nat) (source : FileBytes) (src count : Nat) : FileBytes := fun p =>
  if dst ≤ p ∧ p < dst+count then source (src+(p-dst)) else target p

section Loop
variable (numElems : Int) (elemSize : UInt32)

-- The body of the loop; the offsets are computed in uint32_t.
def rearrangeElement (i : UInt32) (arrays : Arrays) : Arrays :=
  let split := {arrays with
    imagData:=memcpy arrays.imagData (i*elemSize/2).toNat arrays.data ((2*i+1)*elemSize/2).toNat (elemSize/2).toNat}
  {split with
    data:=memcpy split.data (i*elemSize/2).toNat split.data (i*elemSize).toNat (elemSize/2).toNat}

-- The counter is compared with an index_t. fuel bounds the passes.
def rearrangeElements : Nat → UInt32 → Arrays → Option Arrays
  | 0,i,arrays => if (i.toNat : Int) < numElems then none else some arrays
  | fuel+1,i,arrays =>
    if (i.toNat : Int) < numElems then rearrangeElements fuel (i+1) (rearrangeElement elemSize i arrays)
    else some arrays

def notNumeric : String × String := ("getmatvar:thisShouldntHappen","Imaginary data was not numeric.\n\n")

-- The block of data is shrunk in place behind the loop.
def rearrangeImaginaryData (matlabInternalType : MxClassID) (fuel : Nat) (arrays : Arrays) :
    Option (Except (String × String) Arrays) :=
  if isNumeric matlabInternalType then (rearrangeElements numElems elemSize fuel 0 arrays).map .ok
  else some (.error notNumeric)

def Splits (matlabInternalType : MxClassID) : Prop :=
  ∀ arrays, ∃ fuel after, rearrangeImaginaryData numElems elemSize matlabInternalType fuel arrays = some (.ok after) ∧
    ∀ k : Nat, (k : Int) < numElems → ∀ b < elemSize.toNat/2,
      after.data (k*(elemSize.toNat/2)+b) = arrays.data (2*k*(elemSize.toNat/2)+b) ∧
      after.imagData (k*(elemSize.toNat/2)+b) = arrays.data ((2*k+1)*(elemSize.toNat/2)+b)

end Loop

section Offsets
variable (i elemSize : UInt32)

theorem target_offset : (i*elemSize/2).toNat = i.toNat*elemSize.toNat%2^32/2 := by
  rw [UInt32.toNat_div,UInt32.toNat_mul]
  rfl

theorem real_offset : (i*elemSize).toNat = i.toNat*elemSize.toNat%2^32 := UInt32.toNat_mul i elemSize

theorem imaginary_offset : ((2*i+1)*elemSize/2).toNat = (2*i.toNat+1)*elemSize.toNat%2^32/2 := by
  rw [UInt32.toNat_div,UInt32.toNat_mul,UInt32.toNat_add,UInt32.toNat_mul]
  change ((2*i.toNat%2^32+1)%2^32*elemSize.toNat)%2^32/2 = _
  rw [Nat.mod_add_mod,Nat.mod_mul_mod]

theorem half_size (elemSize : UInt32) : (elemSize/2).toNat = elemSize.toNat/2 := UInt32.toNat_div elemSize 2

end Offsets

section Runs
variable {numElems : Int} {elemSize : UInt32}

theorem rearrange_more {i : UInt32} (less : (i.toNat : Int) < numElems) (fuel : Nat) (arrays : Arrays) :
    rearrangeElements numElems elemSize (fuel+1) i arrays =
      rearrangeElements numElems elemSize fuel (i+1) (rearrangeElement elemSize i arrays) := by
  rw [rearrangeElements,if_pos less]

theorem rearrange_done {i : UInt32} (done : numElems ≤ (i.toNat : Int)) (fuel : Nat) (arrays : Arrays) :
    rearrangeElements numElems elemSize fuel i arrays = some arrays := by
  cases fuel with
  | zero => rw [rearrangeElements,if_neg (Int.not_lt.mpr done)]
  | succ => rw [rearrangeElements,if_neg (Int.not_lt.mpr done)]

-- The counter does not reach such a number.
theorem rearrange_endless (many : 2^32 ≤ numElems) (fuel : Nat) (i : UInt32) (arrays : Arrays) :
    rearrangeElements numElems elemSize fuel i arrays = none := by
  have low := i.toNat_lt
  have less : (i.toNat : Int) < numElems := by omega
  induction fuel generalizing i arrays with
  | zero => rw [rearrangeElements,if_pos less]
  | succ fuel ih =>
    rw [rearrange_more less]
    have next := (i+1).toNat_lt
    exact ih (i+1) _ next (by omega)

theorem next_counter {i : UInt32} (few : numElems < 2^32) (less : (i.toNat : Int) < numElems) : (i+1).toNat = i.toNat+1 := by
  rw [UInt32.toNat_add]
  change (i.toNat+1)%2^32 = _
  omega

theorem rearrange_run {fuel : Nat} {arrays after : Arrays} (few : numElems < 2^32) (keeps : Nat → Arrays → Prop)
    (step : ∀ (i : UInt32) arrays, i.toNat < numElems.toNat → keeps i.toNat arrays →
      keeps (i.toNat+1) (rearrangeElement elemSize i arrays))
    (start : keeps 0 arrays) (ran : rearrangeElements numElems elemSize fuel 0 arrays = some after) :
    keeps numElems.toNat after := by
  have last (fuel : Nat) (i : UInt32) (arrays : Arrays) (inside : i.toNat ≤ numElems.toNat) (here : keeps i.toNat arrays)
      (done : numElems ≤ (i.toNat : Int)) (ran : rearrangeElements numElems elemSize fuel i arrays = some after) :
      keeps numElems.toNat after := by
    rw [rearrange_done done] at ran
    cases ran
    rwa [show i.toNat = numElems.toNat by omega] at here
  have run (fuel : Nat) (i : UInt32) (arrays : Arrays) (inside : i.toNat ≤ numElems.toNat) (here : keeps i.toNat arrays)
      (ran : rearrangeElements numElems elemSize fuel i arrays = some after) : keeps numElems.toNat after := by
    induction fuel generalizing i arrays with
    | zero =>
      by_cases less : (i.toNat : Int) < numElems
      · rw [rearrangeElements,if_pos less] at ran
        cases ran
      · exact last 0 i arrays inside here (Int.not_lt.mp less) ran
    | succ fuel ih =>
      by_cases less : (i.toNat : Int) < numElems
      · rw [rearrange_more less] at ran
        have next := next_counter few less
        apply ih (i+1) _ (by omega) _ ran
        rw [next]
        exact step i arrays (by omega) here
      · exact last (fuel+1) i arrays inside here (Int.not_lt.mp less) ran
  exact run fuel 0 arrays (Nat.zero_le _) start ran

theorem rearrange_ends (few : numElems < 2^32) (arrays : Arrays) :
    ∃ after, rearrangeElements numElems elemSize numElems.toNat 0 arrays = some after := by
  have ends (fuel : Nat) (i : UInt32) (arrays : Arrays) (enough : numElems.toNat ≤ i.toNat+fuel) :
      ∃ after, rearrangeElements numElems elemSize fuel i arrays = some after := by
    induction fuel generalizing i arrays with
    | zero => exact ⟨arrays,rearrange_done (by omega) 0 arrays⟩
    | succ fuel ih =>
      by_cases less : (i.toNat : Int) < numElems
      · rw [rearrange_more less]
        have next := next_counter few less
        exact ih (i+1) _ (by omega)
      · exact ⟨arrays,rearrange_done (Int.not_lt.mp less) (fuel+1) arrays⟩
  exact ends numElems.toNat 0 arrays (by omega)

end Runs

section Passes
variable {numElems : Int} {elemSize : UInt32} {half : Nat} (size : elemSize.toNat = 2*half)

theorem wrapped_half (count half : Nat) : count*(2*half)%2^32/2 = count*half%2^31 := by
  rw [Nat.mul_left_comm,show 2^32 = 2*2^31 from rfl,Nat.mul_mod_mul_left,Nat.mul_div_cancel_left _ (by decide)]

include size

theorem size_half : elemSize.toNat/2 = half := by
  rw [size,Nat.mul_div_cancel_left _ (by decide)]

theorem imaginary_pass (i : UInt32) (arrays : Arrays) (p : Nat) :
    (rearrangeElement elemSize i arrays).imagData p =
      if i.toNat*half%2^31 ≤ p ∧ p < i.toNat*half%2^31+half
      then arrays.data ((2*i.toNat+1)*half%2^31+(p-i.toNat*half%2^31)) else arrays.imagData p := by
  change memcpy _ _ _ _ _ p = _
  rw [memcpy,target_offset,imaginary_offset,half_size,size_half size,size,wrapped_half,wrapped_half]

theorem real_pass (i : UInt32) (arrays : Arrays) (p : Nat) :
    (rearrangeElement elemSize i arrays).data p =
      if i.toNat*half%2^31 ≤ p ∧ p < i.toNat*half%2^31+half
      then arrays.data (i.toNat*(2*half)%2^32+(p-i.toNat*half%2^31)) else arrays.data p := by
  change memcpy _ _ _ _ _ p = _
  rw [memcpy,target_offset,real_offset,half_size,size_half size,size,wrapped_half]

def Split (half : Nat) (original : FileBytes) (i : Nat) (arrays : Arrays) : Prop :=
  (∀ k < i, ∀ b < half, arrays.data (k*half+b) = original (2*k*half+b) ∧
    arrays.imagData (k*half+b) = original ((2*k+1)*half+b)) ∧
  ∀ p, i*half ≤ p → arrays.data p = original p

omit size in
theorem part_ends {k i half b : Nat} (before : k < i) (inside : b < half) : k*half+b < i*half := by
  have next := Nat.mul_le_mul_right half before
  rw [Nat.succ_mul] at next
  omega

theorem split_pass {original : FileBytes} {i : UInt32} {arrays : Arrays}
    (fits : (2*i.toNat+1)*half < 2^31) (split : Split half original i.toNat arrays) :
    Split half original (i.toNat+1) (rearrangeElement elemSize i arrays) := by
  have twice : (2*i.toNat+1)*half = 2*(i.toNat*half)+half := by ring
  have target : i.toNat*half%2^31 = i.toNat*half := Nat.mod_eq_of_lt (by omega)
  have source : i.toNat*(2*half)%2^32 = 2*(i.toNat*half) := by
    rw [Nat.mul_left_comm]
    exact Nat.mod_eq_of_lt (by omega)
  constructor
  · intro k before b inside
    rw [real_pass size,imaginary_pass size,target,source,Nat.mod_eq_of_lt fits]
    rcases Nat.lt_succ_iff_lt_or_eq.mp before with earlier | rfl
    · have ends := part_ends earlier inside
      rw [if_neg (by omega),if_neg (by omega)]
      exact split.1 k earlier b inside
    · rw [if_pos (by omega),if_pos (by omega),Nat.add_sub_cancel_left,Nat.mul_assoc]
      exact ⟨split.2 _ (by omega),split.2 _ (by omega)⟩
  · intro p behind
    rw [Nat.succ_mul] at behind
    rw [real_pass size,target,if_neg (by omega)]
    exact split.2 p (by omega)

-- No offset reaches the end of parts that need more than 2^31 bytes.
theorem last_part_kept {last : Nat} (some_half : 0 < half) (wide : 2^31 ≤ last*half) (i : UInt32) (arrays : Arrays) :
    (rearrangeElement elemSize i arrays).imagData (last*half+(half-1)) = arrays.imagData (last*half+(half-1)) := by
  have target := Nat.mod_lt (i.toNat*half) (by decide : 0 < 2^31)
  rw [imaginary_pass size,if_neg (by omega)]

def Zeros (half k i : Nat) (arrays : Arrays) : Prop :=
  (i ≤ k → ∀ p < (2*k+1)*half, arrays.data p = 0) ∧ (k < i → arrays.imagData (k*half) = 0)

theorem zeros_pass {k : Nat} {i : UInt32} {arrays : Arrays} (some_half : 0 < half) (first : (2*k+1)*half ≥ 2^31)
    (before : k*half < 2^31) (narrow : i.toNat*half < 2^31) (zeros : Zeros half k i.toNat arrays) :
    Zeros half k (i.toNat+1) (rearrangeElement elemSize i arrays) := by
  have target := Nat.mod_eq_of_lt narrow
  constructor
  · intro early p inside
    have ends := Nat.mul_le_mul_right half (by omega : 2*i.toNat+1 ≤ 2*k+1)
    rw [show (2*i.toNat+1)*half = i.toNat*(2*half)+half by ring] at ends
    have source := Nat.mod_le (i.toNat*(2*half)) (2^32)
    rw [real_pass size,target]
    split
    · exact zeros.1 (by omega) _ (by omega)
    · exact zeros.1 (by omega) p inside
  · intro late
    rw [imaginary_pass size,target]
    rcases Nat.lt_succ_iff_lt_or_eq.mp late with earlier | rfl
    · have ends := part_ends earlier some_half
      rw [if_neg (by omega)]
      exact zeros.2 earlier
    · have source := Nat.mod_lt ((2*i.toNat+1)*half) (by decide : 0 < 2^31)
      rw [if_pos (by omega)]
      exact zeros.1 (Nat.le_refl _) _ (by omega)

end Passes

section Exact
variable {numElems : Int} {elemSize : UInt32} {half : Nat} {matlabInternalType : MxClassID}
  (numeric : isNumeric matlabInternalType = true) (size : elemSize.toNat = 2*half)

include numeric

theorem rearrange_numeric (fuel : Nat) (arrays after : Arrays) :
    rearrangeImaginaryData numElems elemSize matlabInternalType fuel arrays = some (.ok after) ↔
      rearrangeElements numElems elemSize fuel 0 arrays = some after := by
  rw [rearrangeImaginaryData,if_pos numeric]
  cases rearrangeElements numElems elemSize fuel 0 arrays with
  | none => exact iff_of_false nofun nofun
  | some result => simp only [Option.map_some,Option.some.injEq,Except.ok.injEq]

omit numeric in
theorem rearrangeImaginaryData_returns (object : Data) (elemSize : UInt32) (arrays : Arrays) :
    GetMatVar.rearrangeImaginaryData object = some () ↔
      ∃ fuel after,
        rearrangeImaginaryData object.numElems elemSize object.matlabInternalType fuel arrays = some (.ok after) := by
  rw [GetMatVar.rearrangeImaginaryData]
  by_cases numeric : isNumeric object.matlabInternalType = true
  · simp only [rearrange_numeric numeric]
    by_cases few : object.numElems < 2^32
    · rw [if_pos ⟨numeric,few⟩]
      exact iff_of_true rfl ⟨_,rearrange_ends few arrays⟩
    · rw [if_neg fun both => few both.2]
      apply iff_of_false nofun
      rintro ⟨fuel,after,ran⟩
      rw [rearrange_endless (Int.not_lt.mp few)] at ran
      cases ran
  · rw [if_neg fun both => numeric both.1]
    apply iff_of_false nofun
    rintro ⟨fuel,after,ran⟩
    rw [rearrangeImaginaryData,if_neg numeric] at ran
    cases ran

theorem splits_few (splits : Splits numElems elemSize matlabInternalType) : numElems < 2^32 := by
  apply Int.not_le.mp
  intro many
  obtain ⟨fuel,after,ran,_⟩ := splits ⟨fun _ => 0,fun _ => 0⟩
  have endless := @rearrange_endless numElems elemSize many fuel 0 ⟨fun _ => 0,fun _ => 0⟩
  rw [(rearrange_numeric numeric fuel _ after).mp ran] at endless
  cases endless

include size

theorem splits_parts (splits : Splits numElems elemSize matlabInternalType) (arrays : Arrays) :
    ∃ fuel after, rearrangeElements numElems elemSize fuel 0 arrays = some after ∧
      ∀ k < numElems.toNat, ∀ b < half, after.imagData (k*half+b) = arrays.data ((2*k+1)*half+b) := by
  obtain ⟨fuel,after,ran,parts⟩ := splits arrays
  rw [size_half size] at parts
  exact ⟨fuel,after,(rearrange_numeric numeric fuel _ after).mp ran,
    fun k less b inside => (parts k (by omega) b inside).2⟩

theorem splits_narrow {last : Nat} (count : numElems.toNat = last+1) (splits : Splits numElems elemSize matlabInternalType)
    (some_half : 0 < half) : last*half < 2^31 := by
  apply Nat.not_le.mp
  intro wide
  obtain ⟨fuel,after,ran,parts⟩ := splits_parts numeric size splits ⟨fun _ => 0,fun _ => 1⟩
  have kept : after.imagData (last*half+(half-1)) = 1 := by
    apply rearrange_run (splits_few numeric splits) (fun _ arrays => arrays.imagData (last*half+(half-1)) = 1) _ rfl ran
    intro i arrays _ here
    rwa [last_part_kept size some_half wide]
  rw [parts last (by omega) (half-1) (by omega)] at kept
  cases kept

theorem splits_short {last : Nat} (count : numElems.toNat = last+1) (splits : Splits numElems elemSize matlabInternalType)
    (some_half : 0 < half) : (2*last+1)*half < 2^31 := by
  apply Nat.not_le.mp
  intro long
  have narrow := splits_narrow numeric size count splits some_half
  have fits := elemSize.toNat_lt
  have found : ∃ k, 2^31 ≤ (2*k+1)*half := ⟨last,long⟩
  obtain ⟨k,first,earliest⟩ : ∃ k, 2^31 ≤ (2*k+1)*half ∧ ∀ j < k, (2*j+1)*half < 2^31 :=
    ⟨Nat.find found,Nat.find_spec found,fun j less => Nat.not_le.mp (Nat.find_min found less)⟩
  have inside : k ≤ last := Nat.not_lt.mp fun less => Nat.not_lt.mpr long (earliest last less)
  -- The real part of the element still lies below 2^31.
  have before : k*half < 2^31 := Nat.lt_of_le_of_lt (Nat.mul_le_mul_right half inside) narrow
  obtain ⟨fuel,after,ran,parts⟩ := splits_parts numeric size splits
    ⟨fun p => if p < (2*k+1)*half then 0 else 1,fun _ => 0⟩
  have lost : Zeros half k numElems.toNat after := by
    apply rearrange_run (splits_few numeric splits) (Zeros half k) _ _ ran
    · intro i arrays less here
      have part := Nat.mul_le_mul_right half (by omega : i.toNat ≤ last)
      exact zeros_pass size some_half first before (by omega) here
    · exact ⟨fun _ p low => if_pos low,fun _ => rfl⟩
  have original := parts k (by omega) 0 some_half
  rw [Nat.add_zero,Nat.add_zero,lost.2 (by omega)] at original
  cases original.trans (if_neg (Nat.lt_irrefl _))

end Exact

theorem rearrangeImaginaryData_exact (matlabInternalType : MxClassID) (numElems : Int) (elemSize : UInt32)
    (numeric : isNumeric matlabInternalType = true) (even : elemSize.toNat%2 = 0) :
    Splits numElems elemSize matlabInternalType ↔ numElems < 2^32 ∧ (2*numElems-1)*elemSize.toNat < 2^32 := by
  have size : elemSize.toNat = 2*(elemSize.toNat/2) := by omega
  generalize elemSize.toNat/2 = half at size
  constructor
  · intro splits
    refine ⟨splits_few numeric splits,?_⟩
    rcases Nat.eq_zero_or_pos half with none | some_half
    · rw [size,none,Nat.mul_zero,Int.natCast_zero,Int.mul_zero]
      decide
    · cases count : numElems.toNat with
      | zero =>
        have negative := Int.mul_nonneg (by omega : 0 ≤ 1-2*numElems) (Int.natCast_nonneg elemSize.toNat)
        rw [show (2*numElems-1)*(elemSize.toNat : Int) = -((1-2*numElems)*elemSize.toNat) by ring]
        omega
      | succ last =>
        have short := splits_short numeric size count splits some_half
        rw [size,show numElems = (last : Int)+1 by omega]
        push_cast
        zify at short
        linarith
  · rintro ⟨few,bound⟩ arrays
    obtain ⟨after,ran⟩ := @rearrange_ends numElems elemSize few arrays
    refine ⟨numElems.toNat,after,(rearrange_numeric numeric _ arrays after).mpr ran,?_⟩
    have split : Split half arrays.data numElems.toNat after := by
      apply rearrange_run few (Split half arrays.data) _ _ ran
      · intro i arrays less
        apply split_pass size
        have here : ((2*i.toNat+1 : Nat) : Int)*elemSize.toNat ≤ (2*numElems-1)*elemSize.toNat :=
          Int.mul_le_mul_of_nonneg_right (by omega) (Int.natCast_nonneg _)
        have below : (2*i.toNat+1)*elemSize.toNat < 2^32 := by exact_mod_cast Int.lt_of_le_of_lt here bound
        rw [size,Nat.mul_left_comm] at below
        omega
      · exact ⟨fun k less => absurd less (Nat.not_lt_zero k),fun _ _ => rfl⟩
    intro k less b
    rw [size_half size]
    exact split.1 k (by omega) b

theorem rearrangeImaginaryData_pair : Splits 2 16 .doubleClass :=
  (rearrangeImaginaryData_exact .doubleClass 2 16 rfl rfl).mpr (by decide)

-- 2^28 and one numbers of two doubles.
theorem rearrangeImaginaryData_wraps : ¬Splits (2^28+1) 16 .doubleClass := by
  intro splits
  have short := @splits_short (2^28+1) 16 8 .doubleClass rfl rfl (2^28) rfl splits (by decide)
  cases Nat.not_lt.mpr (by decide : 2^31 ≤ (2*2^28+1)*8) short

end ImaginaryData
end GetMatVar
