import GetMatVar.CopyCalls
import Mathlib.Algebra.BigOperators.Ring.List
import Mathlib.Data.List.TakeWhile

namespace GetMatVar

section Sizes
variable (file : MatFile) (msgPointer : Nat)

def storedSizes : List Nat :=
  (List.range (file.byte (msgPointer+1))).map fun i =>
    file.number (msgPointer+8+i*file.sBlock.sizeOfLengths) file.sBlock.sizeOfLengths

-- A dataspace message that is not rejected.
structure DataSpaceMessage : Prop where
  version : file.byte msgPointer = 1
  rank : file.byte (msgPointer+1) ≤ hdf5MaxDims
  lengths : file.sBlock.sizeOfLengths ≤ 8

-- The sizes that the loop over dims multiplies: those behind the last 0.
def countedSizes (sizes : List Nat) : List Nat := sizes.reverse.takeWhile (0 < ·)

-- No size and no product is too large for an index_t. With an empty dimension
-- num_elems is only 0 if the overflow makes it so.
def Countable (sizes : List Nat) : Prop :=
  (∀ size ∈ sizes, size < 2^63) ∧ (0 ∉ sizes → sizes.prod < 2^63) ∧ (0 ∈ sizes → 2^64 ∣ (countedSizes sizes).prod)

instance (sizes : List Nat) : Decidable (Countable sizes) := inferInstanceAs (Decidable (_ ∧ _ ∧ _))

end Sizes

section Exact
variable {file : MatFile} {msgPointer : Nat}

theorem reversed_range (stored : Nat → β) (count : Nat) :
    (List.range count).map (fun k => stored (count-1-k)) = ((List.range count).map stored).reverse := by
  apply List.ext_getElem
  · simp
  · intro k left right
    simp

theorem toIndex_exact (size : Nat) : toIndex size = size ↔ size < 2^63 := by
  unfold toIndex
  constructor
  · intro same
    split at same
    · assumption
    · omega
  · intro small
    rw [if_pos small]

theorem countDims_exact (sizes : List Nat) (numElems : Int) : countDims (sizes.map (fun size : Nat => (size : Int))++[0])
    (wrapIndex numElems) = wrapIndex (numElems*((sizes.takeWhile (0 < ·)).prod : Nat)) := by
  induction sizes generalizing numElems with
  | nil => simp [countDims]
  | cons size rest ih =>
    rw [List.map_cons,List.cons_append,countDims]
    by_cases used : 0 < size
    · rw [if_pos (by exact_mod_cast used),wrapIndex_mul_left,ih,List.takeWhile_cons_of_pos (by simpa using used),
        List.prod_cons,Nat.cast_mul,Int.mul_assoc]
    · rw [if_neg (by exact_mod_cast used),List.takeWhile_cons_of_neg (by simpa using used)]
      simp

theorem counted_exact (sizes : List Nat) : wrapIndex ((countedSizes sizes).prod : Nat) = (sizes.prod : Nat) ↔
    (0 ∉ sizes → sizes.prod < 2^63) ∧ (0 ∈ sizes → 2^64 ∣ (countedSizes sizes).prod) := by
  by_cases empty : 0 ∈ sizes
  · have zero : sizes.prod = 0 := List.prod_eq_zero_iff.mpr empty
    rw [zero]
    generalize (countedSizes sizes).prod = counted
    have cast : wrapIndex (counted : Int) = toIndex (counted%2^64) := by
      unfold wrapIndex
      norm_cast
    have bound := Nat.mod_lt counted (show 0 < 2^64 by decide)
    constructor
    · intro same
      refine ⟨fun absent => absurd empty absent,fun _ => Nat.dvd_of_mod_eq_zero ?_⟩
      rw [cast] at same
      unfold toIndex at same
      split at same <;> omega
    · intro right
      rw [cast,Nat.mod_eq_zero_of_dvd (right.2 empty)]
      rfl
  · have whole : countedSizes sizes = sizes.reverse := by
      refine List.takeWhile_eq_self_iff.mpr fun size member => ?_
      have used : size ≠ 0 := fun same => empty (same ▸ List.mem_reverse.mp member)
      simpa using Nat.pos_of_ne_zero used
    rw [whole,List.prod_reverse]
    generalize sizes.prod = total
    constructor
    · intro same
      refine ⟨fun _ => ?_,fun member => absurd member empty⟩
      have high : wrapIndex (total : Int) < 2^63 := by
        rw [wrapIndex_bmod]
        exact Int.bmod_lt (by decide)
      rw [same] at high
      exact_mod_cast high
    · intro right
      have small := right.1 empty
      exact wrapIndex_small (by omega) (by exact_mod_cast small)

def ReadsSizes (file : MatFile) (msgPointer : Nat) (object : MetaData) : Prop :=
  ∃ errFlag after, readDataSpaceMessage file msgPointer object = some (errFlag,after) ∧ (errFlag ≠ 0 ∨
    after.dims = some ((storedSizes file msgPointer).reverse.map (fun size : Nat => (size : Int))++[0]) ∧
      after.numElems = ((storedSizes file msgPointer).prod : Nat))

-- The dimensions and the number of elements are those of the file if and only if
-- the sizes can be counted.
theorem readDataSpaceMessage_exact (file : MatFile) (msgPointer : Nat) (object : MetaData)
    (message : DataSpaceMessage file msgPointer) :
    ReadsSizes file msgPointer object ↔ Countable (storedSizes file msgPointer) := by
  have rank : ¬file.byte (msgPointer+1) > hdf5MaxDims := Nat.not_lt.mpr message.rank
  have ran : readDataSpaceMessage file msgPointer object = some (0,{object with
      numDims:=file.byte (msgPointer+1),dims:=some ((storedSizes file msgPointer).reverse.map toIndex++[0])
      numElems:=countDims ((storedSizes file msgPointer).reverse.map toIndex++[0]) 1}) := by
    unfold readDataSpaceMessage
    dsimp only
    rw [if_neg (not_not.mpr message.version),if_neg rank,reversed_range (fun i => toIndex
      (file.number (msgPointer+8+i*file.sBlock.sizeOfLengths) file.sBlock.sizeOfLengths))]
    unfold storedSizes
    rw [← List.map_reverse,← List.map_reverse,List.map_map]
    rfl
  have listed : (storedSizes file msgPointer).reverse.map toIndex = (storedSizes file msgPointer).reverse.map
      (fun size : Nat => (size : Int)) ↔ ∀ size ∈ storedSizes file msgPointer, size < 2^63 := by
    rw [List.map_inj_left]
    simp only [List.mem_reverse,toIndex_exact]
  have counted (same : (storedSizes file msgPointer).reverse.map toIndex = (storedSizes file msgPointer).reverse.map
      (fun size : Nat => (size : Int))) : countDims ((storedSizes file msgPointer).reverse.map toIndex++[0]) 1 =
      wrapIndex ((countedSizes (storedSizes file msgPointer)).prod : Nat) := by
    have whole := countDims_exact (storedSizes file msgPointer).reverse 1
    rw [show wrapIndex 1 = 1 from rfl,Int.one_mul] at whole
    rw [same]
    exact whole
  constructor
  · rintro ⟨errFlag,after,other,outcome⟩
    rw [ran] at other
    cases other
    obtain ⟨dims,numElems⟩ := outcome.resolve_left (fun bad => bad rfl)
    have same := List.append_cancel_right (Option.some.inj dims)
    have product := (counted_exact _).mp ((counted same).symm.trans numElems)
    exact ⟨listed.mp same,product⟩
  · rintro ⟨small,product⟩
    have same := listed.mpr small
    refine ⟨_,_,ran,.inr ⟨by rw [same],?_⟩⟩
    exact (counted same).trans ((counted_exact _).mpr product)

end Exact

def matrixFile (rows columns : Nat) : MatFile := wordFile [0x201,rows,columns] ⟨8,8,40,0,0,0⟩

theorem readDataSpaceMessage_matrix : ReadsSizes (matrixFile 2 3) 0 initializeObject.toMetaData :=
  (readDataSpaceMessage_exact (matrixFile 2 3) 0 initializeObject.toMetaData
    ⟨by decide +kernel,by decide +kernel,by decide +kernel⟩).mpr (by decide +kernel)

-- The loop ends at the first dimension of a matrix without rows, and counts one
-- element.
theorem emptyMatrix_counted : ¬ ∀ (file : MatFile) (msgPointer : Nat) (object : MetaData),
    DataSpaceMessage file msgPointer → ReadsSizes file msgPointer object := by
  intro always
  obtain ⟨errFlag,after,ran,outcome⟩ := always (matrixFile 3 0) 0 initializeObject.toMetaData
    ⟨by decide +kernel,by decide +kernel,by decide +kernel⟩
  have read : (readDataSpaceMessage (matrixFile 3 0) 0 initializeObject.toMetaData).map (fun ran => (ran.1,ran.2.numElems)) =
      some (0,1) := by decide +kernel
  rw [ran] at read
  obtain ⟨code,count⟩ := Prod.mk.inj (Option.some.inj read)
  obtain ⟨_,numElems⟩ := outcome.resolve_left (not_not.mpr code)
  have product : (storedSizes (matrixFile 3 0) 0).prod = 0 := by decide +kernel
  rw [product] at numElems
  rw [numElems] at count
  cases count

end GetMatVar
