import GetMatVar.NumberHelper
import GetMatVar.Library.MixedRadix
import Mathlib.Tactic.Linarith

namespace GetMatVar
open MixedRadix

def hdf5MaxDims : Nat := 32

-- The fields of Data that a worker of doInflate_ reads. index_t is signed, and what
-- is stored in one is cut to 64 bits; the arrays are only read below num_dims or
-- num_chunked_dims.
structure ChunkedObject where
  numDims : Nat
  dims : Nat → Int
  numElems : Int
  numChunkedDims : Nat
  chunkedDims : Nat → Int
  numChunkedElems : Int
  chunkUpdate : Nat → Int

section Model
variable {α : Type}

-- cu and du after the first k rounds of the inner loop of makeChunkedUpdates.
def updateSums (chunkedDims dims : Nat → Int) : Nat → Int × Int
  | 0 => (0,1)
  | k+1 =>
    let (cu,du) := updateSums chunkedDims dims k
    (wrapIndex (cu+wrapIndex ((chunkedDims k-1)*du)),wrapIndex (du*dims k))

def makeChunkedUpdates (chunkUpdate chunkedDims dims : Nat → Int) (numDims i : Nat) : Int :=
  if i < numDims then
    let (cu,du) := updateSums chunkedDims dims (i+1)
    wrapIndex (du-cu-1)
  else chunkUpdate i

-- temp *= array_dims[j] for j = i-1 down to 0.
def scaleDown (arrayDims : Nat → Int) : Nat → Int → Int
  | 0,temp => temp
  | j+1,temp => scaleDown arrayDims j (wrapIndex (temp*arrayDims j))

def findArrayPosition (coordinates arrayDims : Nat → Int) : Nat → Int
  | 0 => 0
  | i+1 => wrapIndex (findArrayPosition coordinates arrayDims i+scaleDown arrayDims i (coordinates i))

def product (dims : Nat → Int) : Nat → Int
  | 0 => 1
  | k+1 => wrapIndex (product dims k*dims k)

def DataPair.start (dp : DataPair) (j : Nat) : Int := dp.chunkStart.getD j 0

-- What doInflate_ settles about one chunk before it copies.
structure CopyPlan where
  theseChunkedDims : Nat → Int
  theseIndexUpdates : Nat → Int
  theseChunkedUpdates : Nat → Int
  theseNumChunkedElems : Int

def clippedDims (object : ChunkedObject) (dp : DataPair) (j : Nat) : Int :=
  if j < object.numDims then
    wrapIndex (object.chunkedDims j-(if wrapIndex (dp.start j+object.chunkedDims j) > object.dims j
      then wrapIndex (wrapIndex (dp.start j+object.chunkedDims j)-object.dims j) else 0))
  else 0

def planCopy (object : ChunkedObject) (dp : DataPair) : CopyPlan :=
  let these := clippedDims object dp
  let indexUpdates := fun j => if j < object.numDims then object.chunkUpdate j else 0
  if ∃ j < object.numDims, these j ≠ object.chunkedDims j then
    ⟨these,makeChunkedUpdates indexUpdates these object.dims object.numDims,
      makeChunkedUpdates (fun _ => 0) these object.chunkedDims object.numDims,product these object.numChunkedDims⟩
  else ⟨these,indexUpdates,fun _ => 0,object.numChunkedElems⟩

-- The variables of the copy loop. num_used is never advanced, so its value is
-- the 0 it starts with.
structure CopyLoop where
  index : Int
  anchor : Int
  dbPos : Int
  chunkPos : Nat → Int
  currMaxDim : Nat

def copyStart (object : ChunkedObject) (dp : DataPair) : CopyLoop :=
  ⟨findArrayPosition dp.start object.dims object.numDims,0,0,fun _ => 0,2⟩

def copyMore (object : ChunkedObject) (plan : CopyPlan) (loop : CopyLoop) : Bool :=
  decide (loop.index < object.numElems) && decide (0 < plan.theseNumChunkedElems)

-- memcpy of num_elems elements for the classes that keep their data in
-- data_arrays.data; an element is elem_size bytes.
def placeData (data : Int → Option α) (buffer : Int → α) (dstInd srcInd numElems : Int) (i : Int) : Option α :=
  if dstInd ≤ i ∧ i < dstInd+numElems then some (buffer (srcInd+(i-dstInd))) else data i

structure CarryState where
  chunkPos : Nat → Int
  currMaxDim : Nat
  useUpdate : Nat

-- The loop over j, whose bound curr_max_dim it may raise. chunk_pos has
-- HDF5_MAX_DIMS + 1 entries, so j stays below that.
def carry (these : Nat → Int) : Nat → Nat → CarryState → CarryState
  | 0,_,s => s
  | fuel+1,j,s =>
    if j < s.currMaxDim then
      if s.chunkPos j = these j then
        let cleared := Function.update s.chunkPos j 0
        carry these fuel (j+1) ⟨Function.update cleared (j+1) (cleared (j+1)+1),
          if s.currMaxDim ≤ j+1 then s.currMaxDim+1 else s.currMaxDim,s.useUpdate+1⟩
      else carry these fuel (j+1) s
    else s

def copyAdvance (plan : CopyPlan) (loop : CopyLoop) : CopyLoop :=
  let dbPos := wrapIndex (loop.dbPos+plan.theseChunkedDims 0)
  let index := wrapIndex (loop.index+plan.theseChunkedDims 0)
  let carried := carry plan.theseChunkedDims hdf5MaxDims 1
    ⟨Function.update loop.chunkPos 1 (loop.chunkPos 1+1),loop.currMaxDim,0⟩
  let dbPos := wrapIndex (dbPos+plan.theseChunkedUpdates carried.useUpdate)
  ⟨wrapIndex (index+plan.theseIndexUpdates carried.useUpdate),dbPos,dbPos,carried.chunkPos,carried.currMaxDim⟩

def copyRow (plan : CopyPlan) (loop : CopyLoop) (buffer : Int → α) (data : Int → Option α) : Int → Option α :=
  placeData data buffer loop.index loop.anchor (plan.theseChunkedDims 0)

end Model

section Exact

theorem updateSums_exact (chunkedDims dims : Nat → Int) (k : Nat) : updateSums chunkedDims dims k =
    (wrapIndex (combine (weight dims) (fun place => chunkedDims place-1) k),wrapIndex (weight dims k)) := by
  induction k with
  | zero => rfl
  | succ k ih =>
    simp only [updateSums,ih,combine,weight]
    rw [wrapIndex_mul,wrapIndex_add_right,wrapIndex_add,wrapIndex_mul_left]

-- An entry of the update table is the distance from the end of a row of the box
-- to the row that follows after that many carries.
theorem makeChunkedUpdates_exact (chunkUpdate chunkedDims dims : Nat → Int) {numDims i : Nat} (below : i < numDims) :
    makeChunkedUpdates chunkUpdate chunkedDims dims numDims i = wrapIndex
      (weight dims (i+1)-combine (shift (weight dims)) (shift fun place => chunkedDims place-1) i-chunkedDims 0) := by
  simp only [makeChunkedUpdates,below,ite_true,updateSums_exact]
  rw [Int.sub_eq_add_neg,← wrapIndex_add,wrapIndex_sub,wrapIndex_add]
  congr 1
  simp only [combine_shift,weight]
  ring

theorem scaleDown_exact (arrayDims : Nat → Int) (i : Nat) (temp : Int) :
    wrapIndex (scaleDown arrayDims i temp) = wrapIndex (temp*weight arrayDims i) := by
  induction i generalizing temp with
  | zero => simp [scaleDown,weight]
  | succ i ih =>
    rw [scaleDown,ih,wrapIndex_mul_left,weight]
    congr 1
    ring

theorem findArrayPosition_exact (coordinates arrayDims : Nat → Int) (numDims : Nat) :
    findArrayPosition coordinates arrayDims numDims = wrapIndex (value arrayDims coordinates numDims) := by
  induction numDims with
  | zero => rfl
  | succ i ih =>
    simp only [findArrayPosition,ih,value,combine]
    rw [wrapIndex_add,← wrapIndex_add_right,scaleDown_exact,wrapIndex_add_right]

theorem product_exact (dims : Nat → Int) (k : Nat) : product dims k = wrapIndex (weight dims k) := by
  induction k with
  | zero => rfl
  | succ k ih => rw [product,ih,wrapIndex_mul_left,weight]

end Exact

-- while(dims[index] > 0) num_elems *= dims[index]; behind the dims stands a 0.
def countElems (dims : Nat → Int) : Nat → Nat → Int → Int
  | 0,_,numElems => numElems
  | left+1,index,numElems =>
    if dims index > 0 then countElems dims left (index+1) (wrapIndex (numElems*dims index)) else numElems

theorem countElems_exact {dims : Nat → Int} (left index : Nat) (positive : ∀ j < index+left, 0 < dims j)
    (fits : weight dims (index+left) < 2^63) : countElems dims left index (weight dims index) = weight dims (index+left) := by
  induction left generalizing index with
  | zero => rfl
  | succ left ih =>
    have here : dims index > 0 := positive index (by omega)
    have bound : weight dims (index+1) ≤ weight dims (index+(left+1)) := weight_monotone positive (by omega)
    have low : 0 < weight dims (index+1) := weight_positive fun j below => positive j (by omega)
    simp only [countElems,here,ite_true]
    rw [show weight dims index*dims index = weight dims (index+1) from rfl,wrapIndex_small (by omega) (by omega)]
    rw [show index+(left+1) = index+1+left by omega] at fits positive ⊢
    exact ih (index+1) positive fits

-- What the dataspace and layout messages leave in the object, with products that
-- an index_t holds.
structure ChunkedObject.Laid (object : ChunkedObject) : Prop where
  rank : 0 < object.numDims
  small : object.numDims ≤ hdf5MaxDims
  same : object.numChunkedDims = object.numDims
  counted : object.numElems = countElems object.dims object.numDims 0 1
  chunks : ∀ j < object.numDims, 0 < object.chunkedDims j
  total : object.numChunkedElems = product object.chunkedDims object.numChunkedDims
  updates : ∀ i < object.numDims, object.chunkUpdate i =
    makeChunkedUpdates (fun _ => 0) object.chunkedDims object.dims object.numDims i
  elements : weight object.dims object.numDims < 2^63
  chunk : weight object.chunkedDims object.numDims < 2^63

def EdgesFit (numDims : Nat) (chunkedDims : Nat → Int) (dp : DataPair) : Prop :=
  ∀ j < numDims, dp.start j+chunkedDims j < 2^63

-- The chunk starts at an element of the dataset.
structure Inside (object : ChunkedObject) (dp : DataPair) : Prop where
  starts : InRange object.dims dp.start object.numDims
  edges : EdgesFit object.numDims object.chunkedDims dp

-- The index behind the last row, one whole dataset past the start of the chunk.
def indexBehind (object : ChunkedObject) (dp : DataPair) : Int :=
  value object.dims dp.start object.numDims+weight object.dims object.numDims

-- All that doInflate_ computes about the chunk fits in an index_t.
structure ChunkFits (object : ChunkedObject) (dp : DataPair) : Prop extends Inside object dp where
  last : indexBehind object dp < 2^63

section Plan
variable {object : ChunkedObject} {dp : DataPair}

theorem Inside.positive (inside : Inside object dp) : ∀ j < object.numDims, 0 < object.dims j :=
  fun j below => Int.lt_of_le_of_lt (inside.starts j below).1 (inside.starts j below).2

theorem elems_exact (laid : object.Laid) (positive : ∀ j < object.numDims, 0 < object.dims j) :
    object.numElems = weight object.dims object.numDims := by
  have whole := countElems_exact object.numDims 0 (by simpa using positive) (by simpa using laid.elements)
  rw [laid.counted]
  simpa [weight] using whole

theorem clipped_min (laid : object.Laid) (inside : Inside object dp) (below : j < object.numDims) :
    clippedDims object dp j = min (object.chunkedDims j) (object.dims j-dp.start j) := by
  have chunk := laid.chunks j below
  obtain ⟨low,high⟩ := inside.starts j below
  have dataset := Int.lt_of_le_of_lt (weight_digit inside.positive below) laid.elements
  have own := Int.lt_of_le_of_lt (weight_digit laid.chunks below) laid.chunk
  have edge := inside.edges j below
  simp only [clippedDims,below,ite_true,wrapIndex_small (show -2^63 ≤ dp.start j+object.chunkedDims j by omega) edge]
  by_cases past : dp.start j+object.chunkedDims j > object.dims j
  · have excess : wrapIndex (dp.start j+object.chunkedDims j-object.dims j) = dp.start j+object.chunkedDims j-object.dims j :=
      wrapIndex_small (by omega) (by omega)
    rw [if_pos past,excess,wrapIndex_small (by omega) (by omega)]
    omega
  · rw [if_neg past,wrapIndex_small (by omega) (by omega)]
    omega

theorem clipped_bounds (laid : object.Laid) (inside : Inside object dp) (below : j < object.numDims) :
    0 < clippedDims object dp j ∧ clippedDims object dp j ≤ object.chunkedDims j ∧
      dp.start j+clippedDims object dp j ≤ object.dims j := by
  have chunk := laid.chunks j below
  obtain ⟨_,high⟩ := inside.starts j below
  rw [clipped_min laid inside below]
  omega

theorem clipped_outside (above : object.numDims ≤ j) : clippedDims object dp j = 0 := by
  simp [clippedDims,Nat.not_lt.mpr above]

theorem edges_aligned (laid : object.Laid) (starts : InRange object.dims dp.start object.numDims)
    (aligned : ∀ j < object.numDims, object.chunkedDims j ∣ dp.start j) (last : indexBehind object dp < 2^63) :
    EdgesFit object.numDims object.chunkedDims dp := by
  intro j below
  have positive : ∀ i < object.numDims, 0 < object.dims i := fun i under =>
    Int.lt_of_le_of_lt (starts i under).1 (starts i under).2
  have start := value_digit starts below
  have size := weight_digit positive below
  have own := weight_digit laid.chunks below
  have chunk := laid.chunk
  obtain ⟨low,high⟩ := starts j below
  unfold indexBehind at last
  by_cases first : dp.start j = 0
  · omega
  · have step := Int.le_of_dvd (by omega) (aligned j below)
    omega

theorem plan_cases (object : ChunkedObject) (dp : DataPair) :
    planCopy object dp = ⟨clippedDims object dp,
      makeChunkedUpdates (fun j => if j < object.numDims then object.chunkUpdate j else 0) (clippedDims object dp)
        object.dims object.numDims,
      makeChunkedUpdates (fun _ => 0) (clippedDims object dp) object.chunkedDims object.numDims,
      product (clippedDims object dp) object.numChunkedDims⟩ ∨
    (∀ j < object.numDims, clippedDims object dp j = object.chunkedDims j) ∧
      planCopy object dp = ⟨clippedDims object dp,fun j => if j < object.numDims then object.chunkUpdate j else 0,
        fun _ => 0,object.numChunkedElems⟩ := by
  by_cases edge : ∃ j < object.numDims, clippedDims object dp j ≠ object.chunkedDims j
  · exact .inl (if_pos edge)
  · refine .inr ⟨fun j below => ?_,if_neg edge⟩
    by_contra differs
    exact edge ⟨j,below,differs⟩

theorem plan_dims : (planCopy object dp).theseChunkedDims = clippedDims object dp := by
  rcases plan_cases object dp with edge | ⟨_,interior⟩
  · rw [edge]
  · rw [interior]

theorem plan_index (dp : DataPair) (laid : object.Laid) (below : u < object.numDims) :
    (planCopy object dp).theseIndexUpdates u = wrapIndex (weight object.dims (u+1)-
      combine (shift (weight object.dims)) (shift fun j => clippedDims object dp j-1) u-clippedDims object dp 0) := by
  rcases plan_cases object dp with edge | ⟨same,interior⟩
  · simp only [edge,makeChunkedUpdates_exact _ _ _ below]
  · have inner : combine (shift (weight object.dims)) (shift fun j => clippedDims object dp j-1) u =
        combine (shift (weight object.dims)) (shift fun j => object.chunkedDims j-1) u :=
      combine_congr _ fun j less => by simp only [shift,same (j+1) (by omega)]
    simp only [interior,below,ite_true,laid.updates u below,makeChunkedUpdates_exact _ _ _ below,inner,same 0 laid.rank]

theorem plan_buffer (dp : DataPair) (laid : object.Laid) (below : u < object.numDims) :
    (planCopy object dp).theseChunkedUpdates u = wrapIndex (weight object.chunkedDims (u+1)-
      combine (shift (weight object.chunkedDims)) (shift fun j => clippedDims object dp j-1) u-clippedDims object dp 0) := by
  rcases plan_cases object dp with edge | ⟨same,interior⟩
  · simp only [edge,makeChunkedUpdates_exact _ _ _ below]
  · have inner : combine (shift (weight object.chunkedDims)) (shift fun j => clippedDims object dp j-1) u =
        combine (shift (weight object.chunkedDims)) (shift fun j => object.chunkedDims j-1) u :=
      combine_congr _ fun j less => by simp only [shift,same (j+1) (by omega)]
    have none_ : weight object.chunkedDims (u+1)-(weight object.chunkedDims (u+1)-object.chunkedDims 0)-
        object.chunkedDims 0 = 0 := by ring
    simp only [interior,inner,combine_shift_last,same 0 laid.rank,none_]
    rfl

theorem plan_nonempty (laid : object.Laid) (inside : Inside object dp) :
    0 < (planCopy object dp).theseNumChunkedElems := by
  have total := laid.chunk
  rcases plan_cases object dp with edge | ⟨_,interior⟩
  · obtain ⟨positive,less⟩ := weight_le fun j below =>
      And.intro (clipped_bounds laid inside below).1 (clipped_bounds laid inside below).2.1
    simp only [edge,product_exact,laid.same]
    rw [wrapIndex_small (by omega) (by omega)]
    exact positive
  · have positive := weight_positive laid.chunks
    simp only [interior,laid.total,product_exact,laid.same]
    rw [wrapIndex_small (by omega) total]
    exact positive

end Plan

section Carry
variable {these chunkPos : Nat → Int}

-- chunk_pos when the loop over j has cleared the places before j.
def carriedPos (chunkPos : Nat → Int) (j i : Nat) : Int :=
  if 1 ≤ i ∧ i < j then 0 else if i = j then chunkPos i+1 else chunkPos i

theorem carriedPos_shift (u : Nat) : shift (carriedPos chunkPos (u+1)) = advance u (shift chunkPos) := by
  funext place
  simp [shift,carriedPos,advance]

theorem carriedPos_next (some_ : 1 ≤ j) : Function.update (Function.update (carriedPos chunkPos j) j 0) (j+1)
    (Function.update (carriedPos chunkPos j) j 0 (j+1)+1) = carriedPos chunkPos (j+1) := by
  funext i
  by_cases above : i = j+1
  · subst i
    rw [Function.update_self,Function.update_of_ne (Nat.succ_ne_self j)]
    simp [carriedPos]
  · rw [Function.update_of_ne above]
    by_cases here : i = j
    · subst i; simp [carriedPos,some_]
    · rw [Function.update_of_ne here]
      simp only [carriedPos,above,here,ite_false]
      by_cases lower : 1 ≤ i ∧ i < j
      · rw [if_pos lower,if_pos ⟨lower.1,Nat.lt_succ_of_lt lower.2⟩]
      · rw [if_neg lower,if_neg (by omega)]

theorem carry_idle (fuel j : Nat) (s : CarryState)
    (still : ∀ i, j ≤ i → i < s.currMaxDim → s.chunkPos i ≠ these i) : carry these fuel j s = s := by
  induction fuel generalizing j with
  | zero => rfl
  | succ fuel ih =>
    simp only [carry]
    split
    · rename_i below
      rw [if_neg (still j (Nat.le_refl j) below)]
      exact ih (j+1) fun i above => still i (Nat.le_of_succ_le above)
    · rfl

-- One round of the loop clears one place; the induction is on how many full
-- places are left before u + 1.
theorem carry_full (left : Nat) (some_ : 1 ≤ j) (reach : j+left = u+1) (enough : left ≤ fuel)
    (full : ∀ i, j ≤ i → i ≤ u → chunkPos i+1 = these i)
    (still : ∀ i, u+1 ≤ i → i < max dim (u+2) → carriedPos chunkPos (u+1) i ≠ these i) :
    carry these fuel j ⟨carriedPos chunkPos j,max dim (j+1),j-1⟩ =
      ⟨carriedPos chunkPos (u+1),max dim (u+2),u⟩ := by
  induction left generalizing j fuel with
  | zero =>
    obtain rfl : j = u+1 := by omega
    rw [carry_idle _ _ _ still]
    rfl
  | succ left ih =>
    obtain ⟨fuel,rfl⟩ : ∃ less, fuel = less+1 := ⟨fuel-1,by omega⟩
    have within : j < max dim (j+1) := by omega
    have wraps : carriedPos chunkPos j j = these j := by
      rw [← full j (Nat.le_refl j) (by omega)]
      simp [carriedPos]
    have grown : (if max dim (j+1) ≤ j+1 then max dim (j+1)+1 else max dim (j+1)) = max dim (j+1+1) := by
      split <;> omega
    simp only [carry,within,wraps,ite_true,carriedPos_next some_,grown]
    have counted : j-1+1 = j+1-1 := by omega
    rw [counted]
    exact ih (j:=j+1) (by omega) (by omega) (by omega) (fun i above => full i (by omega))

end Carry

-- Where the copy loop stands: chunk_pos counts rows of the clipped box, and
-- index and db_pos point at the row it names.
structure AtRow (object : ChunkedObject) (dp : DataPair) (loop : CopyLoop) : Prop where
  grown : 2 ≤ loop.currMaxDim
  bounded : loop.currMaxDim ≤ max object.numDims 2
  range : ∀ j, 1 ≤ j → j < object.numDims → 0 ≤ loop.chunkPos j ∧ loop.chunkPos j < clippedDims object dp j
  rest : ∀ j, min loop.currMaxDim object.numDims ≤ j → loop.chunkPos j = 0
  index : loop.index = value object.dims dp.start object.numDims+
    combine (shift (weight object.dims)) (shift loop.chunkPos) (object.numDims-1)
  dbPos : loop.dbPos = combine (shift (weight object.chunkedDims)) (shift loop.chunkPos) (object.numDims-1)
  anchor : loop.anchor = loop.dbPos

def rowNumber (object : ChunkedObject) (dp : DataPair) (position : Nat → Int) : Int :=
  value (shift (clippedDims object dp)) (shift position) (object.numDims-1)

def rowCount (object : ChunkedObject) (dp : DataPair) : Int := weight (shift (clippedDims object dp)) (object.numDims-1)

section Rows
variable {object : ChunkedObject} {dp : DataPair} {loop : CopyLoop}

theorem start_row (laid : object.Laid) (inside : Inside object dp) : AtRow object dp (copyStart object dp) := by
  have none_ : ∀ weights, combine weights (shift fun _ => 0) (object.numDims-1) = 0 := by
    intro weights
    generalize object.numDims-1 = places
    induction places with
    | zero => rfl
    | succ places ih => simp [combine,ih,shift]
  refine ⟨Nat.le_refl 2,Nat.le_max_right _ _,?_,fun _ _ => rfl,?_,(none_ _).symm,rfl⟩
  · exact fun j _ below => ⟨Int.le_refl 0,(clipped_bounds laid inside below).1⟩
  · have bounds := value_bounds inside.starts
    have elements := laid.elements
    simp only [copyStart,findArrayPosition_exact,none_,Int.add_zero]
    exact wrapIndex_small (by omega) (by omega)

theorem AtRow.digits (row : AtRow object dp loop) :
    InRange (shift (clippedDims object dp)) (shift loop.chunkPos) (object.numDims-1) :=
  fun place below => row.range (place+1) (Nat.succ_pos _) (by omega)

theorem row_carry (laid : object.Laid) (row : AtRow object dp loop) : ∃ u ≤ object.numDims-1,
    (∀ place < u, shift loop.chunkPos place = shift (clippedDims object dp) place-1) ∧
    (u < object.numDims-1 → shift loop.chunkPos u ≠ shift (clippedDims object dp) u-1) ∧
    carry (clippedDims object dp) hdf5MaxDims 1
      ⟨Function.update loop.chunkPos 1 (loop.chunkPos 1+1),loop.currMaxDim,0⟩ =
      ⟨carriedPos loop.chunkPos (u+1),max loop.currMaxDim (u+2),u⟩ := by
  obtain ⟨u,bound,full,stop⟩ := carries_exist (shift (clippedDims object dp)) (shift loop.chunkPos) (object.numDims-1)
  refine ⟨u,bound,full,stop,?_⟩
  have first : Function.update loop.chunkPos 1 (loop.chunkPos 1+1) = carriedPos loop.chunkPos 1 := by
    funext i
    by_cases same : i = 1
    · subst i; simp [carriedPos]
    · rw [Function.update_of_ne same]
      have none_ : ¬ (1 ≤ i ∧ i < 1) := by omega
      simp only [carriedPos,same,none_,ite_false]
  have dim : loop.currMaxDim = max loop.currMaxDim (1+1) := by have := row.grown; omega
  rw [first]
  conv => lhs; rw [dim]
  have small := laid.small
  refine carry_full (u:=u) u (Nat.le_refl 1) (by omega) (by omega) ?_ ?_
  · intro i low high
    have last := full (i-1) (by omega)
    simp only [shift,show i-1+1 = i by omega] at last
    omega
  · intro i low high
    have grown := row.grown
    have bounded := row.bounded
    by_cases here : i = u+1
    · subst i
      simp only [carriedPos,Nat.lt_irrefl,and_false,ite_false,ite_true]
      by_cases inner : u+1 < object.numDims
      · have differs := stop (by omega)
        simp only [shift] at differs
        omega
      · rw [clipped_outside (by omega)]
        rw [row.rest (u+1) (by omega)]
        decide
    · have inner : i < object.numDims := by omega
      have none_ : ¬ (1 ≤ i ∧ i < u+1) := by omega
      simp only [carriedPos,none_,here,ite_false]
      exact (row.range i (by omega) inner).2.ne

theorem row_positions (laid : object.Laid) (inside : Inside object dp)
    (digits : InRange (shift (clippedDims object dp)) (shift position) (object.numDims-1)) :
    InRange object.dims (fun j => dp.start j+if j = 0 then 0 else position j) object.numDims ∧
      InRange object.chunkedDims (fun j => if j = 0 then 0 else position j) object.numDims := by
  have digit : ∀ j < object.numDims, 0 ≤ (if j = 0 then 0 else position j) ∧
      (if j = 0 then 0 else position j) < clippedDims object dp j := by
    intro j below
    by_cases first : j = 0
    · subst first
      exact ⟨Int.le_refl 0,(clipped_bounds laid inside below).1⟩
    · have range := digits (j-1) (by omega)
      simp only [shift,show j-1+1 = j by omega] at range
      simpa only [first,ite_false] using range
  constructor
  · intro j below
    have bounds := clipped_bounds laid inside below
    have start := (inside.starts j below).1
    obtain ⟨low,high⟩ := digit j below
    simp only
    omega
  · intro j below
    have bounds := clipped_bounds laid inside below
    obtain ⟨low,high⟩ := digit j below
    simp only
    omega

theorem row_bounds (laid : object.Laid) (inside : Inside object dp)
    (digits : InRange (shift (clippedDims object dp)) (shift position) (object.numDims-1)) :
    (0 ≤ value object.dims dp.start object.numDims+
        combine (shift (weight object.dims)) (shift position) (object.numDims-1) ∧
      value object.dims dp.start object.numDims+
        combine (shift (weight object.dims)) (shift position) (object.numDims-1) < weight object.dims object.numDims) ∧
    0 ≤ combine (shift (weight object.chunkedDims)) (shift position) (object.numDims-1) ∧
      combine (shift (weight object.chunkedDims)) (shift position) (object.numDims-1) <
        weight object.chunkedDims object.numDims := by
  obtain ⟨dataset,buffer⟩ := row_positions laid inside digits
  have rank := laid.rank
  have split (weights : Nat → Int) : combine weights (fun j => if j = 0 then 0 else position j) object.numDims =
      combine (shift weights) (shift position) (object.numDims-1) := by
    obtain ⟨places,shape⟩ : ∃ places, object.numDims = places+1 := ⟨object.numDims-1,by omega⟩
    have rest : shift (fun j => if j = 0 then 0 else position j) = shift position := by
      funext place
      simp [shift]
    rw [shape,combine_shift,rest]
    simp
  have inDataset := value_bounds dataset
  have inBuffer := value_bounds buffer
  simp only [value,combine_add,split] at inDataset inBuffer
  exact ⟨inDataset,inBuffer⟩

-- One row further, a position with these dimensions grows by one step of the place
-- that is raised less what the cleared places held.
theorem row_moved (dims : Nat → Int)
    (full : ∀ place < u, shift loop.chunkPos place = shift (clippedDims object dp) place-1) (inner : u < places) :
    combine (shift (weight dims)) (shift (carriedPos loop.chunkPos (u+1))) places =
      combine (shift (weight dims)) (shift loop.chunkPos) places+
        (weight dims (u+1)-combine (shift (weight dims)) (shift fun j => clippedDims object dp j-1) u) := by
  have moved := combine_advance (shift (weight dims)) full inner
  rw [← carriedPos_shift] at moved
  have raised : shift (weight dims) u = weight dims (u+1) := rfl
  have cleared : combine (shift (weight dims)) (fun place => shift (clippedDims object dp) place-1) u =
      combine (shift (weight dims)) (shift fun j => clippedDims object dp j-1) u := rfl
  rw [raised,cleared] at moved
  linarith

-- One pass of the copy loop moves on to the next row of the box, or behind the
-- last one, where index is one whole dataset past the start of the chunk.
theorem advance_row (laid : object.Laid) (inside : Inside object dp) (row : AtRow object dp loop) :
    (AtRow object dp (copyAdvance (planCopy object dp) loop) ∧
      rowNumber object dp (copyAdvance (planCopy object dp) loop).chunkPos = rowNumber object dp loop.chunkPos+1) ∨
    (rowNumber object dp loop.chunkPos+1 = rowCount object dp ∧
      (copyAdvance (planCopy object dp) loop).index = wrapIndex (indexBehind object dp)) := by
  obtain ⟨u,bound,full,stop,carried⟩ := row_carry laid row
  have rank := laid.rank
  have grown := row.grown
  have bounded := row.bounded
  have below : u < object.numDims := by omega
  have pass : copyAdvance (planCopy object dp) loop = ⟨
      wrapIndex (loop.index+(weight object.dims (u+1)-
        combine (shift (weight object.dims)) (shift fun j => clippedDims object dp j-1) u)),
      wrapIndex (loop.dbPos+(weight object.chunkedDims (u+1)-
        combine (shift (weight object.chunkedDims)) (shift fun j => clippedDims object dp j-1) u)),
      wrapIndex (loop.dbPos+(weight object.chunkedDims (u+1)-
        combine (shift (weight object.chunkedDims)) (shift fun j => clippedDims object dp j-1) u)),
      carriedPos loop.chunkPos (u+1),max loop.currMaxDim (u+2)⟩ := by
    simp only [copyAdvance,plan_dims,carried,plan_index dp laid below,plan_buffer dp laid below,wrapIndex_add,
      wrapIndex_add_right]
    congr 2 <;> ring
  rw [pass]
  by_cases inner : u < object.numDims-1
  · have next : InRange (shift (clippedDims object dp)) (shift (carriedPos loop.chunkPos (u+1))) (object.numDims-1) := by
      rw [carriedPos_shift]
      refine advance_range u row.digits fun _ => ?_
      have room := (row.digits u inner).2
      have differs := stop inner
      omega
    obtain ⟨⟨low,high⟩,bufferLow,bufferHigh⟩ := row_bounds laid inside next
    have elements := laid.elements
    have chunk := laid.chunk
    refine .inl ⟨⟨?_,?_,?_,?_,?_,?_,rfl⟩,?_⟩
    · exact Nat.le_trans grown (Nat.le_max_left ..)
    · simp only; omega
    · intro j low high
      have digit := next (j-1) (by omega)
      simpa only [shift,show j-1+1 = j by omega] using digit
    · intro j above
      simp only at above
      have zero := row.rest j (by omega)
      simp only [carriedPos,zero]
      rw [if_neg (by omega),if_neg (by omega)]
    · have moved := row_moved object.dims full inner
      have target : loop.index+(weight object.dims (u+1)-
          combine (shift (weight object.dims)) (shift fun j => clippedDims object dp j-1) u) =
          value object.dims dp.start object.numDims+
            combine (shift (weight object.dims)) (shift (carriedPos loop.chunkPos (u+1))) (object.numDims-1) := by
        rw [row.index,moved]
        ring
      rw [target]
      exact wrapIndex_small (by omega) (by omega)
    · have moved := row_moved object.chunkedDims full inner
      have target : loop.dbPos+(weight object.chunkedDims (u+1)-
          combine (shift (weight object.chunkedDims)) (shift fun j => clippedDims object dp j-1) u) =
          combine (shift (weight object.chunkedDims)) (shift (carriedPos loop.chunkPos (u+1))) (object.numDims-1) := by
        rw [row.dbPos,moved]
      rw [target]
      exact wrapIndex_small (by omega) (by omega)
    · simp only [rowNumber,carriedPos_shift]
      exact value_advance full inner
  · obtain rfl : u = object.numDims-1 := by omega
    refine .inr ⟨?_,?_⟩
    · rw [rowNumber,rowCount,value_full full]; ring
    · have last := combine_congr (shift (weight object.dims)) full
      have spread : combine (shift (weight object.dims)) (fun place => shift (clippedDims object dp) place-1)
          (object.numDims-1) =
          combine (shift (weight object.dims)) (shift fun j => clippedDims object dp j-1) (object.numDims-1) := rfl
      have places : object.numDims-1+1 = object.numDims := by omega
      simp only [row.index,last,spread,places,indexBehind]
      congr 1
      ring

-- That index is behind the dataset as long as an index_t holds it.
theorem advance_fits (laid : object.Laid) (fit : ChunkFits object dp) (row : AtRow object dp loop) :
    (AtRow object dp (copyAdvance (planCopy object dp) loop) ∧
      rowNumber object dp (copyAdvance (planCopy object dp) loop).chunkPos = rowNumber object dp loop.chunkPos+1) ∨
    (rowNumber object dp loop.chunkPos+1 = rowCount object dp ∧
      object.numElems ≤ (copyAdvance (planCopy object dp) loop).index) := by
  refine (advance_row laid fit.toInside row).imp_right fun ⟨last,index⟩ => ⟨last,?_⟩
  have start := (value_bounds fit.starts).1
  have size := weight_positive fit.positive
  have fits := fit.last
  rw [elems_exact laid fit.positive,index]
  unfold indexBehind at fits ⊢
  rw [wrapIndex_small (by omega) fits]
  omega

end Rows

def Element (object : ChunkedObject) (x : Nat → Int) : Prop := InRange object.dims x object.numDims

def InBox (object : ChunkedObject) (dp : DataPair) (x : Nat → Int) : Prop :=
  ∀ j < object.numDims, dp.start j ≤ x j ∧ x j < dp.start j+object.chunkedDims j ∧ x j < object.dims j

def relative (dp : DataPair) (x : Nat → Int) (j : Nat) : Int := x j-dp.start j

-- Where an element belongs in the dataset and in the buffer, as whole numbers.
def elementIndex (object : ChunkedObject) (x : Nat → Int) : Int := value object.dims x object.numDims

def bufferIndex (object : ChunkedObject) (dp : DataPair) (x : Nat → Int) : Int :=
  value object.chunkedDims (relative dp x) object.numDims

section Elements
variable {object : ChunkedObject} {dp : DataPair} {loop : CopyLoop} {x : Nat → Int}

theorem InBox.element (inside : Inside object dp) (member : InBox object dp x) : Element object x := by
  intro j below
  obtain ⟨low,_,high⟩ := member j below
  exact ⟨Int.le_trans (inside.starts j below).1 low,high⟩

theorem inBox_clipped (laid : object.Laid) (inside : Inside object dp) : InBox object dp x ↔
    ∀ j < object.numDims, dp.start j ≤ x j ∧ x j < dp.start j+clippedDims object dp j := by
  refine forall₂_congr fun j below => ?_
  rw [clipped_min laid inside below]
  omega

theorem element_injective (left : Element object x) (right : Element object y)
    (same : elementIndex object x = elementIndex object y) : ∀ j < object.numDims, x j = y j := by
  exact value_injective left right same

theorem element_bounds (laid : object.Laid) (element : Element object x) :
    0 ≤ elementIndex object x ∧ elementIndex object x < object.numElems := by
  have positive : ∀ j < object.numDims, 0 < object.dims j := fun j below =>
    Int.lt_of_le_of_lt (element j below).1 (element j below).2
  rw [elems_exact laid positive]
  exact value_bounds element

theorem InBox.congr (member : InBox object dp x) (same : ∀ j < object.numDims, x j = y j) : InBox object dp y :=
  fun j below => same j below ▸ member j below

theorem InBox.rows (laid : object.Laid) (inside : Inside object dp) (member : InBox object dp x) :
    InRange (shift (clippedDims object dp)) (shift (relative dp x)) (object.numDims-1) := by
  intro place below
  obtain ⟨low,high⟩ := (inBox_clipped laid inside).mp member (place+1) (by omega)
  simp only [shift,relative]
  omega

theorem element_split (dp : DataPair) (laid : object.Laid) (x : Nat → Int) : elementIndex object x =
      value object.dims dp.start object.numDims+
        combine (shift (weight object.dims)) (shift (relative dp x)) (object.numDims-1)+relative dp x 0 ∧
    bufferIndex object dp x =
      combine (shift (weight object.chunkedDims)) (shift (relative dp x)) (object.numDims-1)+relative dp x 0 := by
  have rank := laid.rank
  obtain ⟨places,shape⟩ : ∃ places, object.numDims = places+1 := ⟨object.numDims-1,by omega⟩
  have whole : value object.dims x object.numDims =
      value object.dims dp.start object.numDims+value object.dims (relative dp x) object.numDims := by
    rw [value,value,value,← combine_add]
    exact combine_congr _ fun j _ => by simp only [relative]; ring
  rw [elementIndex,bufferIndex,whole,shape]
  simp only [value,Nat.add_sub_cancel,combine_shift _ (relative dp x)]
  constructor <;> simp only [weight] <;> ring

theorem rows_same (laid : object.Laid) (inside : Inside object dp) (row : AtRow object dp loop) (member : InBox object dp x)
    (same : rowNumber object dp (relative dp x) = rowNumber object dp loop.chunkPos) (weights : Nat → Int) :
    combine weights (shift (relative dp x)) (object.numDims-1) =
      combine weights (shift loop.chunkPos) (object.numDims-1) :=
  combine_congr _ (value_injective (member.rows laid inside) row.digits same)

theorem row_element (laid : object.Laid) (inside : Inside object dp) (row : AtRow object dp loop) (member : InBox object dp x)
    (same : rowNumber object dp (relative dp x) = rowNumber object dp loop.chunkPos) :
    elementIndex object x = loop.index+relative dp x 0 ∧ bufferIndex object dp x = loop.anchor+relative dp x 0 := by
  obtain ⟨dataset,buffer⟩ := element_split dp laid x
  rw [rows_same laid inside row member same] at dataset buffer
  exact ⟨dataset.trans (by rw [row.index]),buffer.trans (by rw [row.anchor,row.dbPos])⟩

theorem row_member (laid : object.Laid) (inside : Inside object dp) (row : AtRow object dp loop) (low : 0 ≤ t)
    (high : t < clippedDims object dp 0) : ∃ x, InBox object dp x ∧
      rowNumber object dp (relative dp x) = rowNumber object dp loop.chunkPos ∧ elementIndex object x = loop.index+t := by
  let x : Nat → Int := fun j => if j = 0 then dp.start 0+t else dp.start j+loop.chunkPos j
  have member : InBox object dp x := by
    refine (inBox_clipped laid inside).mpr fun j below => ?_
    by_cases first : j = 0
    · subst first; simp only [x,ite_true]; omega
    · obtain ⟨digitLow,digitHigh⟩ := row.range j (by omega) below
      simp only [x,first,ite_false]
      omega
  have digits : shift (relative dp x) = shift loop.chunkPos := by
    funext place
    simp [shift,relative,x]
  have same : rowNumber object dp (relative dp x) = rowNumber object dp loop.chunkPos := by
    simp only [rowNumber,digits]
  have offset : relative dp x 0 = t := by simp [relative,x]
  exact ⟨x,member,same,by rw [(row_element laid inside row member same).1,offset]⟩

theorem copyRow_exact (laid : object.Laid) (inside : Inside object dp) (row : AtRow object dp loop)
    (buffer : Int → α) (data : Int → Option α) (element : Element object x) :
    (InBox object dp x ∧ rowNumber object dp (relative dp x) = rowNumber object dp loop.chunkPos ∧
      copyRow (planCopy object dp) loop buffer data (elementIndex object x) = some (buffer (bufferIndex object dp x))) ∨
    (¬ (InBox object dp x ∧ rowNumber object dp (relative dp x) = rowNumber object dp loop.chunkPos) ∧
      copyRow (planCopy object dp) loop buffer data (elementIndex object x) = data (elementIndex object x)) := by
  by_cases here : InBox object dp x ∧ rowNumber object dp (relative dp x) = rowNumber object dp loop.chunkPos
  · obtain ⟨member,same⟩ := here
    obtain ⟨dataset,source⟩ := row_element laid inside row member same
    obtain ⟨low,high⟩ := (inBox_clipped laid inside).mp member 0 laid.rank
    refine .inl ⟨member,same,?_⟩
    rw [copyRow,plan_dims,placeData,if_pos (by simp only [dataset,relative]; omega),dataset,source]
    congr 2
    ring
  · refine .inr ⟨here,?_⟩
    rw [copyRow,plan_dims,placeData]
    refine if_neg fun within => here ?_
    obtain ⟨y,member,same,placed⟩ := row_member laid inside row (t:=elementIndex object x-loop.index) (by omega) (by omega)
    have agree := element_injective (member.element inside) element (placed.trans (by ring))
    refine ⟨member.congr agree,?_⟩
    rw [← same]
    have digits : ∀ place < object.numDims-1, shift (relative dp x) place = shift (relative dp y) place :=
      fun place below => by simp only [shift,relative,agree (place+1) (by omega)]
    exact combine_congr _ digits

theorem copyRow_source (laid : object.Laid) (inside : Inside object dp) (row : AtRow object dp loop) (buffer : Int → α)
    (data : Int → Option α) (p : Int) : copyRow (planCopy object dp) loop buffer data p = data p ∨
      ∃ x, InBox object dp x ∧ elementIndex object x = p ∧
        copyRow (planCopy object dp) loop buffer data p = some (buffer (bufferIndex object dp x)) := by
  by_cases within : loop.index ≤ p ∧ p < loop.index+clippedDims object dp 0
  · obtain ⟨x,member,same,placed⟩ := row_member laid inside row (t:=p-loop.index) (by omega) (by omega)
    obtain ⟨dataset,source⟩ := row_element laid inside row member same
    have here : elementIndex object x = p := placed.trans (by ring)
    refine .inr ⟨x,member,here,?_⟩
    rw [copyRow,plan_dims,placeData,if_pos within,source]
    congr 2
    linarith
  · exact .inl (by rw [copyRow,plan_dims,placeData,if_neg within])

theorem box_rows (laid : object.Laid) (inside : Inside object dp) (member : InBox object dp x) :
    rowNumber object dp (relative dp x) < rowCount object dp := (value_bounds (member.rows laid inside)).2

theorem row_number_lt (row : AtRow object dp loop) : rowNumber object dp loop.chunkPos < rowCount object dp :=
  (value_bounds row.digits).2

theorem start_number : rowNumber object dp (copyStart object dp).chunkPos = 0 := by
  have none_ : ∀ places, combine (weight (shift (clippedDims object dp))) (shift fun _ => 0) places = 0 := by
    intro places
    induction places with
    | zero => rfl
    | succ places ih => simp [combine,ih,shift]
  exact none_ _

theorem row_more (laid : object.Laid) (inside : Inside object dp) (row : AtRow object dp loop) :
    copyMore object (planCopy object dp) loop = true := by
  obtain ⟨x,member,_,placed⟩ := row_member laid inside row (Int.le_refl 0) (clipped_bounds laid inside laid.rank).1
  have bounds := (element_bounds laid (member.element inside)).2
  have nonempty := plan_nonempty laid inside
  simp only [copyMore,Bool.and_eq_true,decide_eq_true_eq]
  omega

end Elements
end GetMatVar
