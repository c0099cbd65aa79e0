import GetMatVar.ReadMessage
import Mathlib.Algebra.Order.BigOperators.Group.Finset

namespace GetMatVar
open MixedRadix

namespace IndexT

def laidObject (numDims : Nat) (dims chunkedDims : Nat → Int) : ChunkedObject :=
  ⟨numDims,dims,countElems dims numDims 0 1,numDims,chunkedDims,product chunkedDims numDims,
    makeChunkedUpdates (fun _ => 0) chunkedDims dims numDims⟩

-- The calls of placeData, each with dst_ind, src_ind and num_elems. The loop has
-- no bound of its own, so fuel is the number of its passes.
def copyCalls (object : ChunkedObject) (plan : CopyPlan) : Nat → CopyLoop → Option (List (Int × Int × Int))
  | 0,_ => none
  | fuel+1,loop =>
    if copyMore object plan loop then
      (copyCalls object plan fuel (copyAdvance plan loop)).map ((loop.index,loop.anchor,plan.theseChunkedDims 0)::·)
    else some []

def rowPairs (dstInd srcInd numElems : Int) : List (Int × Int) :=
  (List.range numElems.toNat).map fun (i : Nat) => (dstInd+(i : Int),srcInd+(i : Int))

def copiedPairs (calls : List (Int × Int × Int)) : List (Int × Int) :=
  calls.flatMap fun call => rowPairs call.1 call.2.1 call.2.2

-- A chunk of a dataset: positive dimensions whose products fit in an index_t, and
-- a start on the grid of chunks inside the dataset.
structure ChunkOf (numDims : Nat) (dims chunkedDims : Nat → Int) (dp : DataPair) : Prop where
  rank : 1 ≤ numDims
  small : numDims ≤ hdf5MaxDims
  positive : ∀ j < numDims, 0 < dims j ∧ 0 < chunkedDims j
  elements : weight dims numDims < 2^63
  chunk : weight chunkedDims numDims < 2^63
  aligned : ∀ j < numDims, chunkedDims j ∣ dp.start j
  inside : ∀ j < numDims, 0 ≤ dp.start j ∧ dp.start j < dims j

section Plan
variable {numDims : Nat} {dims chunkedDims : Nat → Int} {dp : DataPair}

theorem ChunkOf.laid (chunk : ChunkOf numDims dims chunkedDims dp) : (laidObject numDims dims chunkedDims).Laid :=
  ⟨chunk.rank,chunk.small,rfl,rfl,fun j below => (chunk.positive j below).2,rfl,fun _ _ => rfl,chunk.elements,chunk.chunk⟩

theorem ChunkOf.within (chunk : ChunkOf numDims dims chunkedDims dp) (edges : EdgesFit numDims chunkedDims dp) :
    Inside (laidObject numDims dims chunkedDims) dp := ⟨chunk.inside,edges⟩

end Plan

section Loop
variable {numDims : Nat} {dims chunkedDims : Nat → Int} {dp : DataPair} {loop : CopyLoop}

def BoxPair (object : ChunkedObject) (dp : DataPair) (from_ : Int) (pair : Int × Int) : Prop :=
  ∃ x, InBox object dp x ∧ from_ ≤ rowNumber object dp (relative dp x) ∧
    pair = (elementIndex object x,bufferIndex object dp x)

theorem rowPairs_nodup (index anchor count : Int) : (rowPairs index anchor count).Nodup := by
  refine List.Nodup.map (fun a b same => ?_) List.nodup_range
  have first := congrArg Prod.fst same
  simpa using first

theorem rowPairs_exact (chunk : ChunkOf numDims dims chunkedDims dp) (edges : EdgesFit numDims chunkedDims dp)
    (row : AtRow (laidObject numDims dims chunkedDims) dp loop) (pair : Int × Int) :
    pair ∈ rowPairs loop.index loop.anchor (clippedDims (laidObject numDims dims chunkedDims) dp 0) ↔
      ∃ x, InBox (laidObject numDims dims chunkedDims) dp x ∧
        rowNumber (laidObject numDims dims chunkedDims) dp (relative dp x) =
          rowNumber (laidObject numDims dims chunkedDims) dp loop.chunkPos ∧
        pair = (elementIndex (laidObject numDims dims chunkedDims) x,bufferIndex (laidObject numDims dims chunkedDims) dp x) := by
  have within := chunk.within edges
  constructor
  · intro member
    obtain ⟨i,below,rfl⟩ := List.mem_map.mp member
    have high : (i : Int) < clippedDims (laidObject numDims dims chunkedDims) dp 0 := by
      have bound := List.mem_range.mp below
      omega
    obtain ⟨x,inBox,same,placed⟩ := row_member chunk.laid within row (Int.natCast_nonneg i) high
    obtain ⟨dataset,buffer⟩ := row_element chunk.laid within row inBox same
    have offset : relative dp x 0 = i := by omega
    rw [offset] at buffer
    exact ⟨x,inBox,same,by rw [placed,buffer]⟩
  · rintro ⟨x,inBox,same,rfl⟩
    obtain ⟨dataset,buffer⟩ := row_element chunk.laid within row inBox same
    obtain ⟨low,high⟩ := (inBox_clipped chunk.laid within).mp inBox 0 chunk.rank
    have offset : ((relative dp x 0).toNat : Int) = relative dp x 0 := Int.toNat_of_nonneg (by simp only [relative]; omega)
    refine List.mem_map.mpr ⟨(relative dp x 0).toNat,List.mem_range.mpr ?_,?_⟩
    · simp only [relative]
      omega
    · rw [offset,dataset,buffer]

theorem row_turn (chunk : ChunkOf numDims dims chunkedDims dp) (edges : EdgesFit numDims chunkedDims dp)
    (row : AtRow (laidObject numDims dims chunkedDims) dp loop) (fuel : Nat) :
    copyCalls (laidObject numDims dims chunkedDims) (planCopy (laidObject numDims dims chunkedDims) dp) (fuel+1) loop =
      (copyCalls (laidObject numDims dims chunkedDims) (planCopy (laidObject numDims dims chunkedDims) dp) fuel
        (copyAdvance (planCopy (laidObject numDims dims chunkedDims) dp) loop)).map
          ((loop.index,loop.anchor,clippedDims (laidObject numDims dims chunkedDims) dp 0)::·) := by
  rw [copyCalls,if_pos (row_more chunk.laid (chunk.within edges) row),plan_dims]

-- What the loop copies from a row on, and where it then stands. The induction is
-- on the rows that are left.
theorem rows_calls (chunk : ChunkOf numDims dims chunkedDims dp) (edges : EdgesFit numDims chunkedDims dp)
    (left : Nat) (row : AtRow (laidObject numDims dims chunkedDims) dp loop)
    (rest : rowNumber (laidObject numDims dims chunkedDims) dp loop.chunkPos+(left+1) =
      rowCount (laidObject numDims dims chunkedDims) dp) :
    ∃ calls last, (∀ fuel, copyCalls (laidObject numDims dims chunkedDims)
          (planCopy (laidObject numDims dims chunkedDims) dp) (fuel+(left+1)) loop =
        (copyCalls (laidObject numDims dims chunkedDims) (planCopy (laidObject numDims dims chunkedDims) dp) fuel
          last).map (calls++·)) ∧
      last.index = wrapIndex (indexBehind (laidObject numDims dims chunkedDims) dp) ∧ (copiedPairs calls).Nodup ∧
      ∀ pair, pair ∈ copiedPairs calls ↔ BoxPair (laidObject numDims dims chunkedDims) dp
        (rowNumber (laidObject numDims dims chunkedDims) dp loop.chunkPos) pair := by
  have within := chunk.within edges
  induction left generalizing loop with
  | zero =>
    have last : rowNumber (laidObject numDims dims chunkedDims) dp loop.chunkPos+1 =
        rowCount (laidObject numDims dims chunkedDims) dp := by simpa using rest
    rcases advance_row chunk.laid within row with ⟨next,number⟩ | ⟨_,index⟩
    · have below := row_number_lt next
      omega
    refine ⟨[(loop.index,loop.anchor,clippedDims (laidObject numDims dims chunkedDims) dp 0)],_,
      row_turn chunk edges row,index,?_,fun pair => ?_⟩
    · simpa [copiedPairs] using rowPairs_nodup loop.index loop.anchor _
    · simp only [copiedPairs,List.flatMap_cons,List.flatMap_nil,List.append_nil,rowPairs_exact chunk edges row]
      constructor
      · rintro ⟨x,inBox,same,placed⟩
        exact ⟨x,inBox,same.ge,placed⟩
      · rintro ⟨x,inBox,above,placed⟩
        have under := box_rows chunk.laid within inBox
        exact ⟨x,inBox,by omega,placed⟩
  | succ left ih =>
    rcases advance_row chunk.laid within row with ⟨next,number⟩ | ⟨past,_⟩
    · obtain ⟨calls,last,runs,index,apart,pairs⟩ := ih next (by rw [number]; push_cast at rest; omega)
      refine ⟨(loop.index,loop.anchor,clippedDims (laidObject numDims dims chunkedDims) dp 0)::calls,last,
        fun fuel => ?_,index,?_,fun pair => ?_⟩
      · rw [show fuel+(left+1+1) = fuel+(left+1)+1 by omega,row_turn chunk edges row,runs fuel,Option.map_map]
        rfl
      · simp only [copiedPairs,List.flatMap_cons]
        refine List.nodup_append.mpr ⟨rowPairs_nodup _ _ _,apart,?_⟩
        rintro pair inRow other later rfl
        obtain ⟨x,xBox,xRow,first⟩ := (rowPairs_exact chunk edges row pair).mp inRow
        obtain ⟨y,yBox,yRow,second⟩ := (pairs pair).mp later
        have agree := element_injective (xBox.element within) (yBox.element within)
          (congrArg Prod.fst (first.symm.trans second))
        have sameRow : rowNumber (laidObject numDims dims chunkedDims) dp (relative dp x) =
            rowNumber (laidObject numDims dims chunkedDims) dp (relative dp y) :=
          combine_congr _ fun place below => by
            simp only [shift,relative,agree (place+1) (by have := chunk.rank; omega)]
        omega
      · simp only [copiedPairs,List.flatMap_cons,List.mem_append,rowPairs_exact chunk edges row]
        change _ ∨ pair ∈ copiedPairs calls ↔ _
        rw [pairs pair,number]
        constructor
        · rintro (⟨x,inBox,same,placed⟩ | ⟨x,inBox,above,placed⟩)
          · exact ⟨x,inBox,same.ge,placed⟩
          · exact ⟨x,inBox,by omega,placed⟩
        · rintro ⟨x,inBox,above,placed⟩
          rcases Int.lt_or_eq_of_le above with later | same
          · exact .inr ⟨x,inBox,later,placed⟩
          · exact .inl ⟨x,inBox,same.symm,placed⟩
    · exact absurd rest (by rw [← past]; push_cast; omega)

end Loop

section Result
variable {numDims : Nat} {dims chunkedDims : Nat → Int} {dp : DataPair}
open Finset

def datasetPosition (numDims : Nat) (dims : Nat → Int) (dp : DataPair) (p : Nat → Int) : Int :=
  ∑ j ∈ range numDims, (dp.start j+p j)*∏ m ∈ range j, dims m

def bufferPosition (numDims : Nat) (chunkedDims p : Nat → Int) : Int :=
  ∑ j ∈ range numDims, p j*∏ m ∈ range j, chunkedDims m

-- The copy loop ends, and each element of the part of the chunk that lies inside
-- the dataset is copied once to its place, and nothing else.
def CopiesExactly (numDims : Nat) (dims chunkedDims : Nat → Int) (dp : DataPair) : Prop :=
  ∃ fuel calls, copyCalls (laidObject numDims dims chunkedDims) (planCopy (laidObject numDims dims chunkedDims) dp) fuel
      (copyStart (laidObject numDims dims chunkedDims) dp) = some calls ∧ (copiedPairs calls).Nodup ∧
    ∀ pair, pair ∈ copiedPairs calls ↔ ∃ p : Nat → Int,
      (∀ j < numDims, 0 ≤ p j ∧ p j < min (chunkedDims j) (dims j-dp.start j)) ∧
      pair = (datasetPosition numDims dims dp p,bufferPosition numDims chunkedDims p)

theorem weight_prod (radix : Nat → Int) (places : Nat) : weight radix places = ∏ m ∈ range places, radix m := by
  induction places with
  | zero => rfl
  | succ places ih => rw [prod_range_succ,← ih,weight]

theorem value_sum (radix digits : Nat → Int) (places : Nat) :
    value radix digits places = ∑ j ∈ range places, digits j*∏ m ∈ range j, radix m := by
  induction places with
  | zero => rfl
  | succ places ih => rw [sum_range_succ,← ih,← weight_prod]; rfl

theorem box_positions (chunk : ChunkOf numDims dims chunkedDims dp) (edges : EdgesFit numDims chunkedDims dp) (pair : Int × Int) :
    BoxPair (laidObject numDims dims chunkedDims) dp 0 pair ↔ ∃ p : Nat → Int,
      (∀ j < numDims, 0 ≤ p j ∧ p j < min (chunkedDims j) (dims j-dp.start j)) ∧
      pair = (datasetPosition numDims dims dp p,bufferPosition numDims chunkedDims p) := by
  constructor
  · rintro ⟨x,inBox,_,rfl⟩
    refine ⟨relative dp x,fun j below => ?_,?_⟩
    · have inside : dp.start j ≤ x j ∧ x j < dp.start j+chunkedDims j ∧ x j < dims j := inBox j below
      simp only [relative]
      omega
    · rw [elementIndex,bufferIndex,value_sum,value_sum,datasetPosition,bufferPosition]
      simp only [relative]
      congr 1
      exact sum_congr rfl fun j _ => by simp [laidObject]
  · rintro ⟨p,inside,rfl⟩
    have inBox : InBox (laidObject numDims dims chunkedDims) dp (fun j => dp.start j+p j) := by
      intro j (below : j < numDims)
      have range := inside j below
      change dp.start j ≤ dp.start j+p j ∧ dp.start j+p j < dp.start j+chunkedDims j ∧ dp.start j+p j < dims j
      omega
    refine ⟨_,inBox,(value_bounds (inBox.rows chunk.laid (chunk.within edges))).1,?_⟩
    rw [elementIndex,bufferIndex,value_sum,value_sum]
    have same : relative dp (fun j => dp.start j+p j) = p := by
      funext j
      simp [relative]
    rw [same]
    rfl

theorem copyCalls_mono (ran : copyCalls object plan fuel loop = some calls) (more : Nat) :
    copyCalls object plan (fuel+more) loop = some calls := by
  induction fuel generalizing loop calls with
  | zero => cases ran
  | succ fuel ih =>
    rw [show fuel+1+more = fuel+more+1 by omega]
    simp only [copyCalls] at ran ⊢
    split at ran
    · rename_i goes
      obtain ⟨rest,later,rfl⟩ := Option.map_eq_some_iff.mp ran
      rw [if_pos goes,ih later]
      rfl
    · rename_i past
      rw [if_neg past]
      exact ran

theorem whole_calls (chunk : ChunkOf numDims dims chunkedDims dp) (edges : EdgesFit numDims chunkedDims dp) :
    ∃ calls last count, (∀ fuel, copyCalls (laidObject numDims dims chunkedDims)
          (planCopy (laidObject numDims dims chunkedDims) dp) (fuel+count) (copyStart (laidObject numDims dims chunkedDims) dp) =
        (copyCalls (laidObject numDims dims chunkedDims) (planCopy (laidObject numDims dims chunkedDims) dp) fuel
          last).map (calls++·)) ∧
      last.index = wrapIndex (value dims dp.start numDims+weight dims numDims) ∧ (copiedPairs calls).Nodup ∧
      ∀ pair, pair ∈ copiedPairs calls ↔ ∃ p : Nat → Int,
        (∀ j < numDims, 0 ≤ p j ∧ p j < min (chunkedDims j) (dims j-dp.start j)) ∧
        pair = (datasetPosition numDims dims dp p,bufferPosition numDims chunkedDims p) := by
  have row := start_row chunk.laid (chunk.within edges)
  have number := @start_number (laidObject numDims dims chunkedDims) dp
  have positive := row_number_lt row
  rw [number] at positive
  obtain ⟨left,count⟩ : ∃ left : Nat, 0+((left : Int)+1) = rowCount (laidObject numDims dims chunkedDims) dp :=
    ⟨(rowCount (laidObject numDims dims chunkedDims) dp).toNat-1,by omega⟩
  obtain ⟨calls,last,runs,index,apart,pairs⟩ := rows_calls chunk edges left row (by rw [number]; exact count)
  refine ⟨calls,last,left+1,runs,index,apart,fun pair => ?_⟩
  rw [pairs pair,number]
  exact box_positions chunk edges pair

theorem numElems_exact (chunk : ChunkOf numDims dims chunkedDims dp) :
    (laidObject numDims dims chunkedDims).numElems = weight dims numDims :=
  elems_exact chunk.laid fun j below => (chunk.positive j below).1

theorem edges_fit (chunk : ChunkOf numDims dims chunkedDims dp)
    (fits : value dims dp.start numDims+weight dims numDims < 2^63) : EdgesFit numDims chunkedDims dp :=
  edges_aligned chunk.laid chunk.inside chunk.aligned fits

theorem copies_within (chunk : ChunkOf numDims dims chunkedDims dp)
    (fits : value dims dp.start numDims+weight dims numDims < 2^63) : CopiesExactly numDims dims chunkedDims dp := by
  obtain ⟨calls,last,count,runs,index,apart,pairs⟩ := whole_calls chunk (edges_fit chunk fits)
  refine ⟨1+count,calls,?_,apart,pairs⟩
  have low := (value_bounds chunk.inside).1
  have size := weight_positive fun j below => (chunk.positive j below).1
  rw [wrapIndex_small (by omega) fits] at index
  have stops : copyMore (laidObject numDims dims chunkedDims) (planCopy (laidObject numDims dims chunkedDims) dp)
      last = false := by
    simp only [copyMore,index,numElems_exact chunk]
    rw [decide_eq_false (by omega),Bool.false_and]
  rw [runs 1,copyCalls,stops]
  simp

-- Otherwise index wraps to a negative number behind the last row, and placeData
-- is called once more, in front of the dataset.
theorem copies_beyond (chunk : ChunkOf numDims dims chunkedDims dp) (edges : EdgesFit numDims chunkedDims dp)
    (copies : CopiesExactly numDims dims chunkedDims dp) : value dims dp.start numDims+weight dims numDims < 2^63 := by
  apply Classical.byContradiction
  intro past
  obtain ⟨fuel,all_,ran,_,exact_⟩ := copies
  obtain ⟨calls,last,count,runs,index,_,_⟩ := whole_calls chunk edges
  have enough := copyCalls_mono ran count
  rw [runs fuel] at enough
  obtain ⟨more,later,rfl⟩ := Option.map_eq_some_iff.mp enough
  have bounds := value_bounds (show InRange dims dp.start numDims from chunk.inside)
  have elements := chunk.elements
  have behind : last.index < 0 := by
    rw [index,wrapIndex_over (by omega) (by omega)]
    omega
  have goes : copyMore (laidObject numDims dims chunkedDims) (planCopy (laidObject numDims dims chunkedDims) dp)
      last = true := by
    have size := weight_positive fun j below => (chunk.positive j below).1
    have some_ := plan_nonempty chunk.laid (chunk.within edges)
    simp only [copyMore,numElems_exact chunk,Bool.and_eq_true,decide_eq_true_eq]
    exact ⟨Int.lt_trans behind size,some_⟩
  cases fuel with
  | zero => cases later
  | succ fuel =>
    rw [copyCalls,if_pos goes] at later
    obtain ⟨rest,_,rfl⟩ := Option.map_eq_some_iff.mp later
    have width : 0 < (planCopy (laidObject numDims dims chunkedDims) dp).theseChunkedDims 0 := by
      rw [plan_dims]
      exact (clipped_bounds chunk.laid (chunk.within edges) chunk.rank).1
    have stray : (last.index,last.anchor) ∈ copiedPairs (calls++(last.index,last.anchor,
        (planCopy (laidObject numDims dims chunkedDims) dp).theseChunkedDims 0)::rest) := by
      refine List.mem_flatMap.mpr ⟨_,List.mem_append_right _ (List.mem_cons_self ..),List.mem_map.mpr ⟨0,?_,by simp⟩⟩
      rw [List.mem_range]
      dsimp only
      omega
    obtain ⟨p,inside,placed⟩ := (exact_ _).mp stray
    have position : 0 ≤ datasetPosition numDims dims dp p := by
      refine sum_nonneg fun j member => ?_
      have below := mem_range.mp member
      have start := (chunk.inside j below).1
      have step := (inside j below).1
      have scale := weight_positive fun i under => (chunk.positive i (Nat.lt_trans under below)).1
      rw [weight_prod] at scale
      exact Int.mul_nonneg (by omega) scale.le
    have same := congrArg Prod.fst placed
    simp only at same
    omega

-- Every element of a chunk goes to its place, once and nothing else, as long as
-- the index behind the last row still fits in an index_t; where the edges fit,
-- only then.
theorem copies_exact (chunk : ChunkOf numDims dims chunkedDims dp) :
    ((∑ j ∈ range numDims, dp.start j*∏ m ∈ range j, dims m)+(∏ m ∈ range numDims, dims m) < 2^63 →
      CopiesExactly numDims dims chunkedDims dp) ∧
    (EdgesFit numDims chunkedDims dp → (CopiesExactly numDims dims chunkedDims dp ↔
      (∑ j ∈ range numDims, dp.start j*∏ m ∈ range j, dims m)+(∏ m ∈ range numDims, dims m) < 2^63)) := by
  rw [← weight_prod,← value_sum]
  exact ⟨copies_within chunk,fun edges => ⟨copies_beyond chunk edges,copies_within chunk⟩⟩

-- The last chunk of a 5 x 3 dataset in chunks of 2 x 2 is clipped on both edges.
theorem copies_corner : CopiesExactly 2 (fun j => if j = 0 then 5 else 3) (fun _ => 2) ⟨0,0,[4,2,0]⟩ := by
  have chunk : ChunkOf 2 (fun j => if j = 0 then 5 else 3) (fun _ => 2) ⟨0,0,[4,2,0]⟩ :=
    ⟨by decide,by decide,by decide,by decide,by decide,by decide,by decide⟩
  exact (copies_exact chunk).1 (by decide)

-- The second half of 3*2^61 elements: the step behind the only row leaves index_t.
theorem copies_overflow : ¬ ∀ (numDims : Nat) (dims chunkedDims : Nat → Int) (dp : DataPair),
    ChunkOf numDims dims chunkedDims dp → CopiesExactly numDims dims chunkedDims dp := by
  intro always
  have chunk : ChunkOf 1 (fun _ => 3*2^61) (fun _ => 2^61) ⟨0,0,[2^62,0]⟩ :=
    ⟨by decide,by decide,by decide,by decide,by decide,by decide,by decide⟩
  have edges : EdgesFit 1 (fun _ => 2^61) ⟨0,0,[2^62,0]⟩ := by unfold EdgesFit; decide
  exact absurd (copies_beyond chunk edges (always _ _ _ _ chunk)) (by decide)

end Result
end IndexT
end GetMatVar
