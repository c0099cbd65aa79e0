import GetMatVar.CopyCalls
import GetMatVar.FillObject
import Mathlib.Tactic.Linarith

namespace GetMatVar
namespace PlaceData

-- Memory from data_pointer on. Negative positions are in front of it.
abbrev Memory := Int → UInt8

-- What may be done to the pages behind data_pointer: st_navigateTo maps the file with
-- PROT_READ, and the buffer of a decompressed chunk comes from malloc.
inductive Protection where
  | read
  | readWrite
deriving DecidableEq,Repr

def swapBytes (memory : Memory) (start last : Int) : Memory :=
  Function.update (Function.update memory start (memory last)) last (memory start)

def reverseBytes (protection : Protection) (memory : Memory) (start : Int) : Nat → Option Memory
  | 0 => some memory
  | 1 => some memory
  | between+2 =>
    if protection = .read then none
    else reverseBytes protection (swapBytes memory start (start+between+1)) (start+1) between

-- The loop over j in placeData, which is compared with a number of elements but
-- advances by bytes. left bounds its passes; without a size it does not end.
def reverseElements (protection : Protection) (elemSize : Nat) (numElems : Int) : Nat → Int → Memory → Option Memory
  | 0,j,memory => if j < numElems then none else some memory
  | left+1,j,memory =>
    if j < numElems then do
      let memory ← reverseBytes protection memory j elemSize
      reverseElements protection elemSize numElems left (j+elemSize) memory
    else some memory

-- data and sub_object_header_offsets, byte by byte.
structure Arrays where
  data : Int → Option UInt8
  subObjectHeaderOffsets : Int → Option UInt8

def copyBytes (target : Int → Option UInt8) (memory : Memory) (dst src count : Int) : Int → Option UInt8 :=
  fun p => if dst ≤ p ∧ p < dst+count then some (memory (src+(p-dst))) else target p

def copyOffsets (offsets : Int → Option UInt8) (memory : Memory) (elemSize : Nat) (dstInd srcInd : Int) :
    Nat → Int → Option UInt8
  | 0 => offsets
  | i+1 => copyBytes (copyOffsets offsets memory elemSize dstInd srcInd i) memory (8*(dstInd+i)) ((srcInd+i)*elemSize) 8

-- The branches of placeData. A field of a struct array counts as a cell.
def placedAs (matlabInternalType : MxClassID) (isStructArray : Bool) : Storage :=
  if matlabInternalType = .unknownClass ∧ isStructArray then .cells else storageOf matlabInternalType

def placeBytes (object : MetaData) (arrays : Arrays) (memory : Memory) (dstInd srcInd numElems : Int) (elemSize : Nat) : Arrays :=
  match placedAs object.matlabInternalType object.isStructArray with
  | .elements => {arrays with data:=copyBytes arrays.data memory (elemSize*dstInd) (elemSize*srcInd) (numElems*elemSize)}
  | .cells => {arrays with
      subObjectHeaderOffsets:=copyOffsets arrays.subObjectHeaderOffsets memory elemSize dstInd srcInd numElems.toNat}
  | _ => arrays

-- The memory after the reversal in place, and the arrays.
def placeData (host : ByteOrder) (protection : Protection) (object : MetaData) (arrays : Arrays) (memory : Memory)
    (dstInd srcInd numElems : Int) (elemSize : Nat) (dataByteOrder : ByteOrder) : Option (Memory × Arrays) := do
  let memory ← if host ≠ dataByteOrder then reverseElements protection elemSize numElems numElems.toNat 0 memory else some memory
  some (memory,placeBytes object arrays memory dstInd srcInd numElems elemSize)

section Reversal

theorem swapBytes_exact (memory : Memory) (start last p : Int) : swapBytes memory start last p =
    if p = start then memory last else if p = last then memory start else memory p := by
  unfold swapBytes Function.update
  by_cases atLast : p = last
  · subst atLast
    by_cases same : p = start
    · simp [same]
    · simp [same]
  · simp [atLast]

def turned (memory : Memory) (start : Int) (count : Nat) : Memory := fun p =>
  if start ≤ p ∧ p < start+count then memory (start+(start+count-1-p)) else memory p

theorem turned_single (small : count ≤ 1) (memory : Memory) (start : Int) : turned memory start count = memory := by
  funext p
  unfold turned
  split
  · congr 1
    omega
  · rfl

theorem turned_swap (memory : Memory) (start : Int) (between : Nat) :
    turned (swapBytes memory start (start+between+1)) (start+1) between = turned memory start (between+2) := by
  funext p
  unfold turned
  rw [swapBytes_exact,swapBytes_exact]
  push_cast
  by_cases inside : start ≤ p ∧ p < start+(between+2)
  · rw [if_pos inside]
    by_cases first : p = start
    · rw [if_neg (by omega),if_pos first]
      congr 1
      omega
    · by_cases last : p = start+between+1
      · rw [if_neg (by omega),if_neg first,if_pos last]
        congr 1
        omega
      · rw [if_pos (by omega),if_neg (by omega),if_neg (by omega)]
        congr 1
        omega
  · rw [if_neg inside,if_neg (by omega),if_neg (by omega),if_neg (by omega)]

-- No byte has to be swapped, or all of them may be.
def Turns (protection : Protection) (elemSize : Nat) : Prop := protection = .readWrite ∨ elemSize ≤ 1

-- The induction follows the loop, which takes one byte off at both ends.
theorem reverseBytes_exact (turns : Turns protection count) (memory : Memory) (start : Int) :
    reverseBytes protection memory start count = some (turned memory start count) := by
  induction count using Nat.twoStepInduction generalizing memory start with
  | zero => rw [reverseBytes,turned_single (Nat.zero_le _)]
  | one => rw [reverseBytes,turned_single (Nat.le_refl _)]
  | more between ih _ =>
    obtain rfl : protection = .readWrite := turns.resolve_right (by omega)
    rw [reverseBytes,if_neg (by decide),ih (.inl rfl),turned_swap]

theorem reverseBytes_refused (stuck : ¬Turns protection count) (memory : Memory) (start : Int) :
    reverseBytes protection memory start count = none := by
  obtain ⟨mapped,long⟩ := not_or.mp stuck
  obtain ⟨between,rfl⟩ : ∃ between, count = between+2 := ⟨count-2,by omega⟩
  cases protection with
  | read => rfl
  | readWrite => exact absurd rfl mapped

-- Which elements the loop over j meets: it goes on from j = e*q while e*q is less
-- than num_elems, so it reverses one of e elements of the buffer.
def Reversed (elemSize : Nat) (numElems : Int) (memory after : Memory) : Prop :=
  ∀ (q : Int) (b : Nat), b < elemSize → after (elemSize*q+b) =
    if 0 ≤ q ∧ elemSize*q < numElems then memory (elemSize*q+(elemSize-1-b)) else memory (elemSize*q+b)

theorem reverseElements_from (turns : Turns protection elemSize) (size : 1 ≤ elemSize) (left : Nat) (j : Int)
    (enough : numElems ≤ j+left) (memory : Memory) :
    ∃ after, reverseElements protection elemSize numElems left j memory = some after ∧ (∀ p < j, after p = memory p) ∧
      ∀ (s b : Nat), b < elemSize → after (j+elemSize*s+b) =
        if j+elemSize*s < numElems then memory (j+elemSize*s+(elemSize-1-b)) else memory (j+elemSize*s+b) := by
  induction left generalizing j memory with
  | zero =>
    refine ⟨memory,?_,fun _ _ => rfl,fun s b _ => ?_⟩
    · rw [reverseElements,if_neg (by omega)]
    · have step : 0 ≤ (elemSize : Int)*s := by positivity
      rw [if_neg (by omega)]
  | succ left ih =>
    rw [reverseElements,reverseBytes_exact turns]
    by_cases more : j < numElems
    · obtain ⟨after,runs,front,behind⟩ := ih (j+elemSize) (by omega) (turned memory j elemSize)
      rw [if_pos more]
      refine ⟨after,runs,fun p before => ?_,fun s b within => ?_⟩
      · rw [front p (by omega),turned,if_neg (by omega)]
      · cases s with
        | zero =>
          rw [Nat.cast_zero,Int.mul_zero,Int.add_zero,if_pos more,front (j+b) (by omega),turned,if_pos (by omega)]
          congr 1
          omega
        | succ s =>
          have place : j+elemSize*((s+1 : Nat) : Int) = j+elemSize+elemSize*s := by push_cast; ring
          have step : 0 ≤ (elemSize : Int)*s := by positivity
          have untouched : ∀ p, j+elemSize ≤ p → turned memory j elemSize p = memory p := by
            intro p behind_
            rw [turned,if_neg (by omega)]
          rw [place,behind s b within,untouched _ (by omega),untouched _ (by omega)]
    · rw [if_neg more]
      refine ⟨memory,rfl,fun _ _ => rfl,fun s b _ => ?_⟩
      have step : 0 ≤ (elemSize : Int)*s := by positivity
      rw [if_neg (by omega)]

def Reverses (protection : Protection) (elemSize : Nat) (numElems : Int) : Prop := Turns protection elemSize ∨ numElems ≤ 0

theorem reverseElements_exact (reverses : Reverses protection elemSize numElems) (size : 1 ≤ elemSize) (memory : Memory) :
    ∃ after, reverseElements protection elemSize numElems numElems.toNat 0 memory = some after ∧
      Reversed elemSize numElems memory after := by
  rcases reverses with turns | none_
  · have enough : numElems ≤ 0+(numElems.toNat : Int) := by omega
    obtain ⟨after,runs,front,behind⟩ := reverseElements_from turns size numElems.toNat 0 enough memory
    refine ⟨after,runs,fun q b within => ?_⟩
    by_cases low : 0 ≤ q
    · obtain ⟨s,rfl⟩ := Int.eq_ofNat_of_zero_le low
      have here := behind s b within
      simp only [Int.zero_add] at here
      simp only [here,low,true_and]
    · have before : (elemSize : Int)*q+b < 0 := by nlinarith
      rw [front _ before,if_neg (fun inside => low inside.1)]
  · refine ⟨memory,?_,fun q b within => ?_⟩
    · rw [show numElems.toNat = 0 by omega,reverseElements,if_neg (by omega)]
    · have low : 0 ≤ q → 0 ≤ (elemSize : Int)*q := fun low => by positivity
      rw [if_neg (by omega)]

theorem reverseElements_refused (stuck : ¬Reverses protection elemSize numElems) (memory : Memory) :
    reverseElements protection elemSize numElems numElems.toNat 0 memory = none := by
  obtain ⟨turns,some_⟩ := not_or.mp stuck
  obtain ⟨left,count⟩ : ∃ left, numElems.toNat = left+1 := ⟨numElems.toNat-1,by omega⟩
  rw [count,reverseElements,if_pos (by omega),reverseBytes_refused turns]
  rfl

end Reversal

section Placement

-- The bytes of an element of the array that the object's type keeps, and how many
-- of an element's bytes that array has room for.
def held (object : MetaData) (arrays : Arrays) (elemSize : Nat) (i : Int) (b : Nat) : Option UInt8 :=
  match placedAs object.matlabInternalType object.isStructArray with
  | .cells => arrays.subObjectHeaderOffsets (8*i+b)
  | _ => arrays.data (elemSize*i+b)

def heldBytes (object : MetaData) (elemSize : Nat) : Nat :=
  match placedAs object.matlabInternalType object.isStructArray with
  | .elements => elemSize
  | .cells => min elemSize 8
  | _ => 0

theorem heldBytes_small (object : MetaData) (elemSize : Nat) : heldBytes object elemSize ≤ elemSize := by
  unfold heldBytes
  split <;> omega

theorem copyOffsets_exact (offsets : Int → Option UInt8) (memory : Memory) (elemSize : Nat) (dstInd srcInd : Int)
    (count : Nat) (d : Int) (b : Nat) (within : b < 8) :
    copyOffsets offsets memory elemSize dstInd srcInd count (8*d+b) =
      if dstInd ≤ d ∧ d < dstInd+count then some (memory (elemSize*(srcInd+(d-dstInd))+b)) else offsets (8*d+b) := by
  induction count with
  | zero => rw [copyOffsets,if_neg (by omega)]
  | succ i ih =>
    rw [copyOffsets,copyBytes,ih]
    by_cases last : d = dstInd+i
    · subst last
      rw [if_pos (by omega),if_pos (by omega)]
      congr 2
      ring
    · rw [if_neg (by omega)]
      by_cases inside : dstInd ≤ d ∧ d < dstInd+i
      · rw [if_pos inside,if_pos (by omega)]
      · rw [if_neg inside,if_neg (by omega)]

theorem copyBytes_exact (target : Int → Option UInt8) (memory : Memory) (elemSize : Nat) (dstInd srcInd numElems d : Int)
    (within : b < elemSize) :
    copyBytes target memory (elemSize*dstInd) (elemSize*srcInd) (numElems*elemSize) (elemSize*d+(b : Nat)) =
      if dstInd ≤ d ∧ d < dstInd+numElems then some (memory (elemSize*(srcInd+(d-dstInd))+b)) else target (elemSize*d+b) := by
  rw [copyBytes]
  by_cases inside : dstInd ≤ d ∧ d < dstInd+numElems
  · rw [if_pos inside,if_pos (by constructor <;> nlinarith)]
    congr 2
    ring
  · rw [if_neg inside,if_neg]
    intro bytes
    refine inside ⟨?_,?_⟩ <;> nlinarith

theorem placeData_exact (differ : host ≠ dataByteOrder) (reverses : Reverses protection elemSize numElems) (size : 1 ≤ elemSize)
    (object : MetaData) (arrays : Arrays) (memory : Memory) (dstInd srcInd : Int) : ∃ after placed,
      placeData host protection object arrays memory dstInd srcInd numElems elemSize dataByteOrder = some (after,placed) ∧
      Reversed elemSize numElems memory after ∧
      ∀ (d : Int) (b : Nat), b < heldBytes object elemSize → held object placed elemSize d b =
        if dstInd ≤ d ∧ d < dstInd+numElems then some (after (elemSize*(srcInd+(d-dstInd))+b))
        else held object arrays elemSize d b := by
  obtain ⟨after,runs,reversed⟩ := reverseElements_exact reverses size memory
  refine ⟨after,placeBytes object arrays after dstInd srcInd numElems elemSize,?_,reversed,fun d b within => ?_⟩
  · unfold placeData
    rw [if_pos differ,runs]
    rfl
  unfold placeBytes
  unfold held heldBytes at *
  generalize placedAs object.matlabInternalType object.isStructArray = storage at *
  cases storage with
  | elements => exact copyBytes_exact _ _ _ _ _ _ _ within
  | cells =>
    change b < min elemSize 8 at within
    have count := copyOffsets_exact arrays.subObjectHeaderOffsets after elemSize dstInd srcInd numElems.toNat d b (by omega)
    dsimp only
    rw [count]
    by_cases inside : dstInd ≤ d ∧ d < dstInd+numElems
    · rw [if_pos inside,if_pos (by omega)]
    · rw [if_neg inside,if_neg (by omega)]
  | _ => exact absurd within (Nat.not_lt_zero _)

theorem placeData_refused (differ : host ≠ dataByteOrder) (stuck : ¬Reverses protection elemSize numElems) (object : MetaData)
    (arrays : Arrays) (memory : Memory) (dstInd srcInd : Int) :
    placeData host protection object arrays memory dstInd srcInd numElems elemSize dataByteOrder = none := by
  unfold placeData
  rw [if_pos differ,reverseElements_refused stuck]
  rfl

theorem Reverses.writable (elemSize : Nat) (numElems : Int) : Reverses .readWrite elemSize numElems := .inl (.inl rfl)

end Placement

section Whole
variable {file : MatFile} {object : MetaData} {arrays placed : Arrays}

def mapped (file : MatFile) (object : MetaData) : Memory := fun p => file.bytes (object.dataAddress+p.toNat)

theorem reverseBytes_read (ran : reverseBytes .read memory start count = some after) : after = memory := by
  by_cases turns : Turns .read count
  · have small : count ≤ 1 := turns.resolve_left (by decide)
    rw [reverseBytes_exact turns,turned_single small] at ran
    exact (Option.some.inj ran).symm
  · rw [reverseBytes_refused turns] at ran
    cases ran

theorem reverseElements_read (ran : reverseElements .read elemSize numElems left j memory = some after) : after = memory := by
  induction left generalizing j memory with
  | zero =>
    rw [reverseElements] at ran
    split at ran
    · cases ran
    · exact (Option.some.inj ran).symm
  | succ left ih =>
    rw [reverseElements] at ran
    split at ran
    · obtain ⟨middle,one,rest⟩ := Option.bind_eq_some_iff.mp ran
      obtain rfl := reverseBytes_read one
      exact ih rest
    · exact (Option.some.inj ran).symm

theorem placeData_kept (same : host ≠ dataByteOrder → reverseElements protection elemSize numElems numElems.toNat 0 memory = some memory)
    (object : MetaData) (arrays : Arrays) (dstInd srcInd : Int) :
    placeData host protection object arrays memory dstInd srcInd numElems elemSize dataByteOrder =
      some (memory,placeBytes object arrays memory dstInd srcInd numElems elemSize) := by
  unfold placeData
  by_cases differ : host ≠ dataByteOrder
  · rw [if_pos differ,same differ]
    rfl
  · rw [if_neg differ]
    rfl

theorem placeBytes_elements (storage : storageOf object.matlabInternalType = .elements) (arrays : Arrays) (memory : Memory)
    (dstInd srcInd numElems : Int) (elemSize : Nat) : (placeBytes object arrays memory dstInd srcInd numElems elemSize).data =
      copyBytes arrays.data memory (elemSize*dstInd) (elemSize*srcInd) (numElems*elemSize) := by
  have placed : placedAs object.matlabInternalType object.isStructArray = .elements := by
    unfold placedAs
    rw [if_neg fun field => by rw [field.1] at storage; cases storage]
    exact storage
  unfold placeBytes
  rw [placed]

-- fillObject takes the data of a contiguous dataset as placeData copies them from the
-- mapping, and neither comes to an end if the bytes have to be swapped there.
theorem placeWhole_exact (size : 1 ≤ object.elemSize) (arrays : Arrays) :
    (placeWhole file object = none ∧ placeData .littleEndian .read object arrays (mapped file object) 0 0 object.numElems
      object.elemSize object.byteOrder = none) ∨
    ∃ whole placed, placeWhole file object = some whole ∧ placeData .littleEndian .read object arrays (mapped file object) 0 0
        object.numElems object.elemSize object.byteOrder = some (mapped file object,placed) ∧
      (storageOf object.matlabInternalType = .elements →
        whole.data = some ((List.range (object.numElems.toNat*object.elemSize)).map fun k : Nat => placed.data k)) := by
  have stuck : (object.byteOrder = .bigEndian ∧ object.elemSize ≠ 1 ∧ 0 < object.numElems) ↔
      .littleEndian ≠ object.byteOrder ∧ ¬Reverses .read object.elemSize object.numElems := by
    unfold Reverses Turns
    cases object.byteOrder with
    | littleEndian => simp
    | bigEndian =>
      simp only [true_and,ne_eq,reduceCtorEq,not_false_eq_true,false_or]
      omega
  by_cases refused : object.byteOrder = .bigEndian ∧ object.elemSize ≠ 1 ∧ 0 < object.numElems
  · obtain ⟨differ,never⟩ := stuck.mp refused
    exact .inl ⟨if_pos refused,placeData_refused differ never object arrays (mapped file object) 0 0⟩
  · have same : .littleEndian ≠ object.byteOrder →
        reverseElements .read object.elemSize object.numElems object.numElems.toNat 0 (mapped file object) =
          some (mapped file object) := by
      intro differ
      have reverses : Reverses .read object.elemSize object.numElems := by
        by_contra never
        exact refused (stuck.mpr ⟨differ,never⟩)
      obtain ⟨after,ran,_⟩ := reverseElements_exact reverses size (mapped file object)
      rw [ran,reverseElements_read ran]
    have ran := placeData_kept same object arrays 0 0
    refine .inr ?_
    unfold placeWhole
    rw [if_neg refused]
    split
    · refine ⟨_,_,rfl,ran,fun storage => congrArg some (List.map_congr_left fun k below => ?_)⟩
      have inside := List.mem_range.mp below
      have some_ : 0 ≤ object.numElems := by
        by_contra none_
        rw [show object.numElems.toNat = 0 by omega,Nat.zero_mul] at inside
        exact Nat.not_lt_zero k inside
      have bytes : (k : Int) < object.numElems*object.elemSize := by
        rw [← Int.toNat_of_nonneg some_]
        exact_mod_cast inside
      rw [placeBytes_elements storage,copyBytes,if_pos (by constructor <;> omega)]
      refine congrArg some ?_
      unfold mapped
      congr 2
      omega
    · rename_i cells
      exact ⟨_,_,rfl,ran,fun storage => by rw [cells] at storage; cases storage⟩
    · rename_i other _
      exact ⟨_,_,rfl,ran,fun storage => absurd storage other⟩

end Whole

section Calls

def placeCalls (host : ByteOrder) (object : MetaData) (elemSize : Nat) (dataByteOrder : ByteOrder) :
    List (Int × Int × Int) → Arrays → Memory → Option (Memory × Arrays)
  | [],arrays,memory => some (memory,arrays)
  | (dstInd,srcInd,numElems)::calls,arrays,memory => do
    let (memory,arrays) ← placeData host .readWrite object arrays memory dstInd srcInd numElems elemSize dataByteOrder
    placeCalls host object elemSize dataByteOrder calls arrays memory

def copyChunk (host : ByteOrder) (object : MetaData) (elemSize : Nat) (dataByteOrder : ByteOrder)
    (chunked : ChunkedObject) (dp : DataPair) (fuel : Nat) (arrays : Arrays) (memory : Memory) : Option (Memory × Arrays) := do
  let calls ← IndexT.copyCalls chunked (planCopy chunked dp) fuel (copyStart chunked dp)
  placeCalls host object elemSize dataByteOrder calls arrays memory

def Skipped (elemSize : Nat) (numElems q : Int) : Prop := ¬(0 ≤ q ∧ elemSize*q < numElems)

theorem rowPairs_mem (dstInd srcInd numElems d q : Int) : (d,q) ∈ IndexT.rowPairs dstInd srcInd numElems ↔
    dstInd ≤ d ∧ d < dstInd+numElems ∧ q = srcInd+(d-dstInd) := by
  unfold IndexT.rowPairs
  constructor
  · intro member
    obtain ⟨i,inside,same⟩ := List.mem_map.mp member
    have below := List.mem_range.mp inside
    simp only [Prod.mk.injEq] at same
    omega
  · rintro ⟨low,high,rfl⟩
    refine List.mem_map.mpr ⟨(d-dstInd).toNat,List.mem_range.mpr (by omega),?_⟩
    simp only [Prod.mk.injEq]
    omega

theorem placeCalls_exact (differ : host ≠ dataByteOrder) (size : 1 ≤ elemSize) (object : MetaData)
    (calls : List (Int × Int × Int)) (length : ∀ call ∈ calls, call.2.2 = numElems)
    (apart : ((IndexT.copiedPairs calls).map Prod.fst).Nodup) (arrays : Arrays) (memory : Memory) : ∃ after placed,
      placeCalls host object elemSize dataByteOrder calls arrays memory = some (after,placed) ∧
      (∀ (q : Int) (b : Nat), b < elemSize → Skipped elemSize numElems q → after (elemSize*q+b) = memory (elemSize*q+b)) ∧
      (∀ (d : Int) (b : Nat), b < heldBytes object elemSize → d ∉ (IndexT.copiedPairs calls).map Prod.fst →
        held object placed elemSize d b = held object arrays elemSize d b) ∧
      ∀ d q (b : Nat), b < heldBytes object elemSize → (d,q) ∈ IndexT.copiedPairs calls → Skipped elemSize numElems q →
        held object placed elemSize d b = some (memory (elemSize*q+b)) := by
  induction calls generalizing arrays memory with
  | nil => exact ⟨memory,arrays,rfl,fun _ _ _ _ => rfl,fun _ _ _ _ => rfl,fun _ _ _ _ member => by cases member⟩
  | cons call calls ih =>
    obtain ⟨dstInd,srcInd,count⟩ := call
    obtain rfl : count = numElems := length _ (List.mem_cons_self ..)
    have split_ : IndexT.copiedPairs ((dstInd,srcInd,count)::calls) =
        IndexT.rowPairs dstInd srcInd count++IndexT.copiedPairs calls := rfl
    rw [split_,List.map_append,List.nodup_append] at apart
    obtain ⟨_,later,disjoint⟩ := apart
    obtain ⟨middle,between,first,reversed,row⟩ := placeData_exact differ (.writable elemSize count) size object arrays
      memory dstInd srcInd
    obtain ⟨after,placed,rest,keeps,frame,copied⟩ :=
      ih (fun call member => length call (List.mem_cons_of_mem _ member)) later between middle
    have small := heldBytes_small object elemSize
    have fixed : ∀ (q : Int) (b : Nat), b < elemSize → Skipped elemSize count q →
        middle (elemSize*q+b) = memory (elemSize*q+b) := by
      intro q b within skipped
      rw [reversed q b within,if_neg skipped]
    refine ⟨after,placed,?_,?_,?_,?_⟩
    · simp only [placeCalls,first,Option.bind_eq_bind,Option.bind_some,rest]
    · intro q b within skipped
      rw [keeps q b within skipped,fixed q b within skipped]
    · intro d b within outside
      rw [split_,List.map_append,List.mem_append,not_or] at outside
      rw [frame d b within outside.2,row d b within,if_neg]
      intro inside
      exact outside.1 (List.mem_map.mpr ⟨_,(rowPairs_mem dstInd srcInd count d _).mpr ⟨inside.1,inside.2,rfl⟩,rfl⟩)
    · intro d q b within member skipped
      rw [split_,List.mem_append] at member
      rcases member with here | behind
      · obtain ⟨low,high,rfl⟩ := (rowPairs_mem ..).mp here
        have written : d ∈ (IndexT.rowPairs dstInd srcInd count).map Prod.fst := List.mem_map.mpr ⟨_,here,rfl⟩
        have once : d ∉ (IndexT.copiedPairs calls).map Prod.fst := fun again => disjoint d written d again rfl
        rw [frame d b within once,row d b within,if_pos ⟨low,high⟩,fixed _ b (by omega) skipped]
      · rw [copied d q b within behind skipped,fixed q b (by omega) skipped]

theorem copyCalls_length (ran : IndexT.copyCalls chunked plan fuel loop = some calls) :
    ∀ call ∈ calls, call.2.2 = plan.theseChunkedDims 0 := by
  induction fuel generalizing loop calls with
  | zero => cases ran
  | succ fuel ih =>
    rw [IndexT.copyCalls] at ran
    split at ran
    · obtain ⟨rest,later,rfl⟩ := Option.map_eq_some_iff.mp ran
      intro call member
      rcases List.mem_cons.mp member with rfl | behind
      · rfl
      · exact ih later call behind
    · obtain rfl := Option.some.inj ran
      intro call member
      cases member

theorem copyCalls_first (ran : IndexT.copyCalls chunked plan fuel loop = some (call::calls)) :
    call = (loop.index,loop.anchor,plan.theseChunkedDims 0) := by
  cases fuel with
  | zero => cases ran
  | succ fuel =>
    rw [IndexT.copyCalls] at ran
    split at ran
    · obtain ⟨rest,_,same⟩ := Option.map_eq_some_iff.mp ran
      exact (List.cons.inj same).1.symm
    · cases ran

theorem copyChunk_unique (first : copyChunk host object elemSize dataByteOrder chunked dp fuel arrays memory = some left)
    (second : copyChunk host object elemSize dataByteOrder chunked dp fuel' arrays memory = some right) : left = right := by
  obtain ⟨calls,ran,placed⟩ := Option.bind_eq_some_iff.mp first
  obtain ⟨calls',ran',placed'⟩ := Option.bind_eq_some_iff.mp second
  have same := IndexT.copyCalls_mono ran fuel'
  rw [Nat.add_comm,IndexT.copyCalls_mono ran' fuel] at same
  rw [← Option.some.inj same,placed'] at placed
  exact (Option.some.inj placed).symm

end Calls

section Chunk
open IndexT MixedRadix
variable {numDims : Nat} {dims chunkedDims : Nat → Int} {dp : DataPair} {p q : Nat → Int}

def Covered (numDims : Nat) (dims chunkedDims : Nat → Int) (dp : DataPair) (p : Nat → Int) : Prop :=
  ∀ j < numDims, 0 ≤ p j ∧ p j < min (chunkedDims j) (dims j-dp.start j)

theorem bufferPosition_value (p : Nat → Int) : bufferPosition numDims chunkedDims p = value chunkedDims p numDims :=
  (value_sum chunkedDims p numDims).symm

theorem datasetPosition_value (p : Nat → Int) :
    datasetPosition numDims dims dp p = value dims (fun j => dp.start j+p j) numDims :=
  (value_sum dims _ numDims).symm

theorem Covered.buffer (covered : Covered numDims dims chunkedDims dp p) : InRange chunkedDims p numDims := by
  intro j below
  have room := covered j below
  omega

theorem positions_congr (dims chunkedDims : Nat → Int) (dp : DataPair) (same : ∀ j < numDims, p j = q j) :
    datasetPosition numDims dims dp p = datasetPosition numDims dims dp q ∧
      bufferPosition numDims chunkedDims p = bufferPosition numDims chunkedDims q := by
  constructor <;>
  · refine Finset.sum_congr rfl fun j member => ?_
    rw [same j (Finset.mem_range.mp member)]

theorem dataset_injective (chunk : ChunkOf numDims dims chunkedDims dp) (left : Covered numDims dims chunkedDims dp p)
    (right : Covered numDims dims chunkedDims dp q)
    (same : datasetPosition numDims dims dp p = datasetPosition numDims dims dp q) : ∀ j < numDims, p j = q j := by
  rw [datasetPosition_value,datasetPosition_value] at same
  have digits : ∀ {r}, Covered numDims dims chunkedDims dp r → InRange dims (fun j => dp.start j+r j) numDims := by
    intro r covered j below
    have start := chunk.inside j below
    have room := covered j below
    constructor <;> dsimp only <;> omega
  intro j below
  have agree := value_injective (digits left) (digits right) same j below
  omega

theorem buffer_injective (left : Covered numDims dims chunkedDims dp p) (right : Covered numDims dims chunkedDims dp q)
    (same : bufferPosition numDims chunkedDims p = bufferPosition numDims chunkedDims q) : ∀ j < numDims, p j = q j := by
  rw [bufferPosition_value,bufferPosition_value] at same
  exact value_injective left.buffer right.buffer same

theorem row_length (chunk : ChunkOf numDims dims chunkedDims dp) (edges : EdgesFit numDims chunkedDims dp) :
    (planCopy (laidObject numDims dims chunkedDims) dp).theseChunkedDims 0 = min (chunkedDims 0) (dims 0-dp.start 0) := by
  rw [plan_dims]
  exact clipped_min chunk.laid (chunk.within edges) chunk.rank

-- Only the first row has elements that any of the calls reverses, and it is the
-- first call that copies them.
theorem copyChunk_exact (chunk : ChunkOf numDims dims chunkedDims dp)
    (fits : value dims dp.start numDims+weight dims numDims < 2^63) (differ : host ≠ dataByteOrder) (size : 1 ≤ elemSize)
    (object : MetaData) (arrays : Arrays) (memory : Memory) : ∃ fuel after placed,
      copyChunk host object elemSize dataByteOrder (laidObject numDims dims chunkedDims) dp fuel arrays memory =
        some (after,placed) ∧
      ∀ p, Covered numDims dims chunkedDims dp p → ∀ b < heldBytes object elemSize,
        held object placed elemSize (datasetPosition numDims dims dp p) b = some
          (if elemSize*bufferPosition numDims chunkedDims p < min (chunkedDims 0) (dims 0-dp.start 0)
            then memory (elemSize*bufferPosition numDims chunkedDims p+(elemSize-1-b))
            else memory (elemSize*bufferPosition numDims chunkedDims p+b)) := by
  have edges := edges_fit chunk fits
  have small := heldBytes_small object elemSize
  obtain ⟨fuel,calls,ran,once,pairs⟩ := copies_within chunk fits
  have width := row_length chunk edges
  have length := copyCalls_length ran
  rw [width] at length
  generalize rowLength : min (chunkedDims 0) (dims 0-dp.start 0) = numElems at length width
  have member : ∀ p, Covered numDims dims chunkedDims dp p →
      (datasetPosition numDims dims dp p,bufferPosition numDims chunkedDims p) ∈ copiedPairs calls :=
    fun p covered => (pairs _).mpr ⟨p,covered,rfl⟩
  have apart : ((copiedPairs calls).map Prod.fst).Nodup := by
    refine List.Nodup.map_on ?_ once
    intro left inLeft right inRight same
    obtain ⟨p,covered,rfl⟩ := (pairs _).mp inLeft
    obtain ⟨q,covered',rfl⟩ := (pairs _).mp inRight
    obtain ⟨dataset,buffer⟩ := positions_congr dims chunkedDims dp (dataset_injective chunk covered covered' same)
    rw [dataset,buffer]
  cases calls with
  | nil =>
    refine ⟨fuel,memory,arrays,?_,fun p covered => absurd (member p covered) List.not_mem_nil⟩
    simp only [copyChunk,ran,Option.bind_eq_bind,Option.bind_some,placeCalls]
  | cons call calls =>
    obtain rfl := copyCalls_first ran
    rw [width] at ran length pairs once apart member
    generalize (copyStart (laidObject numDims dims chunkedDims) dp).index = start at ran length pairs once apart member
    have front : (copyStart (laidObject numDims dims chunkedDims) dp).anchor = 0 := rfl
    rw [front] at ran length pairs once apart member
    have split_ : copiedPairs ((start,0,numElems)::calls) = rowPairs start 0 numElems++copiedPairs calls := rfl
    rw [split_,List.map_append,List.nodup_append] at apart
    rw [split_] at pairs member
    obtain ⟨_,later,disjoint⟩ := apart
    obtain ⟨middle,between,first,reversed,row⟩ := placeData_exact differ (.writable elemSize numElems) size object arrays
      memory start 0
    obtain ⟨after,placed,rest,_,frame,copied⟩ := placeCalls_exact differ size object calls
      (fun call behind => length call (List.mem_cons_of_mem _ behind)) later between middle
    refine ⟨fuel,after,placed,?_,fun p covered b within => ?_⟩
    · simp only [copyChunk,ran,Option.bind_eq_bind,Option.bind_some,placeCalls,first,rest]
    have nonneg : 0 ≤ bufferPosition numDims chunkedDims p := by
      rw [bufferPosition_value]
      exact (value_bounds covered.buffer).1
    rcases List.mem_append.mp (member p covered) with here | behind
    · obtain ⟨low,high,place⟩ := (rowPairs_mem ..).mp here
      have written : datasetPosition numDims dims dp p ∈ (rowPairs start 0 numElems).map Prod.fst :=
        List.mem_map.mpr ⟨_,here,rfl⟩
      rw [frame _ b within (fun again => disjoint _ written _ again rfl),row _ b within,if_pos ⟨low,high⟩,← place,
        reversed _ b (by omega)]
      simp only [nonneg,true_and]
    · -- A pair of a later row starts behind every element that is reversed.
      have skipped : Skipped elemSize numElems (bufferPosition numDims chunkedDims p) := by
        rintro ⟨_,early⟩
        have early : bufferPosition numDims chunkedDims p < numElems := by nlinarith
        have also_ : (start+bufferPosition numDims chunkedDims p,bufferPosition numDims chunkedDims p) ∈
            rowPairs start 0 numElems := (rowPairs_mem ..).mpr (by omega)
        obtain ⟨q,covered',same⟩ := (pairs _).mp (List.mem_append_left _ also_)
        obtain ⟨dataset,buffer⟩ := Prod.mk.inj same
        obtain ⟨agree,_⟩ := positions_congr dims chunkedDims dp (buffer_injective covered covered' buffer)
        exact disjoint _ (List.mem_map.mpr ⟨_,also_,rfl⟩) _ (List.mem_map.mpr ⟨_,behind,rfl⟩) (dataset.trans agree.symm)
      rw [copied _ _ b within behind skipped,reversed _ b (by omega),if_neg skipped,if_neg (fun early => skipped ⟨nonneg,early⟩)]

end Chunk

section Result
open IndexT MixedRadix

def PlacedReversed (host : ByteOrder) (protection : Protection) (object : MetaData) (arrays : Arrays) (memory : Memory)
    (dstInd srcInd numElems : Int) (elemSize : Nat) (dataByteOrder : ByteOrder) : Prop :=
  ∃ after placed, placeData host protection object arrays memory dstInd srcInd numElems elemSize dataByteOrder = some (after,placed) ∧
    ∀ k, 0 ≤ k → k < numElems → ∀ b < heldBytes object elemSize,
      held object placed elemSize (dstInd+k) b = some (memory (elemSize*(srcInd+k)+(elemSize-1-b)))

def ChunkReversed (host : ByteOrder) (object : MetaData) (arrays : Arrays) (memory : Memory) (numDims : Nat)
    (dims chunkedDims : Nat → Int) (dp : DataPair) (elemSize : Nat) (dataByteOrder : ByteOrder) : Prop :=
  ∃ fuel after placed, copyChunk host object elemSize dataByteOrder (laidObject numDims dims chunkedDims) dp fuel arrays memory =
      some (after,placed) ∧
    ∀ p, Covered numDims dims chunkedDims dp p → ∀ b < heldBytes object elemSize,
      held object placed elemSize (datasetPosition numDims dims dp p) b = some
        (memory (elemSize*bufferPosition numDims chunkedDims p+(elemSize-1-b)))

def SameBackwards (object : MetaData) (memory : Memory) (elemSize : Nat) (q : Int) : Prop :=
  ∀ b < heldBytes object elemSize, memory (elemSize*q+b) = memory (elemSize*q+(elemSize-1-b))

theorem placed_reversed_iff (differ : host ≠ dataByteOrder) (size : 1 ≤ elemSize) (protection : Protection) (object : MetaData)
    (arrays : Arrays) (memory : Memory) (dstInd srcInd numElems : Int) :
    PlacedReversed host protection object arrays memory dstInd srcInd numElems elemSize dataByteOrder ↔
      (protection = .readWrite ∨ elemSize = 1 ∨ numElems ≤ 0) ∧ ∀ k, 0 ≤ k → k < numElems →
        (0 ≤ srcInd+k ∧ elemSize*(srcInd+k) < numElems) ∨ SameBackwards object memory elemSize (srcInd+k) := by
  have allowed : (protection = .readWrite ∨ elemSize = 1 ∨ numElems ≤ 0) ↔ Reverses protection elemSize numElems := by
    unfold Reverses Turns
    rw [or_assoc,show elemSize ≤ 1 ↔ elemSize = 1 by omega]
  rw [allowed]
  by_cases reverses : Reverses protection elemSize numElems
  · obtain ⟨after,placed,runs,reversed,stored⟩ := placeData_exact differ reverses size object arrays memory dstInd srcInd
    have small := heldBytes_small object elemSize
    have value_ : ∀ k, 0 ≤ k → k < numElems → ∀ b < heldBytes object elemSize, held object placed elemSize (dstInd+k) b =
        some (if 0 ≤ srcInd+k ∧ elemSize*(srcInd+k) < numElems then memory (elemSize*(srcInd+k)+(elemSize-1-b))
          else memory (elemSize*(srcInd+k)+b)) := by
      intro k low high b within
      rw [stored _ b within,if_pos (by omega),show srcInd+(dstInd+k-dstInd) = srcInd+k by omega,reversed _ b (by omega)]
    constructor
    · rintro ⟨after',placed',ran,right⟩
      rw [runs] at ran
      obtain ⟨rfl,rfl⟩ := Prod.mk.inj (Option.some.inj ran)
      refine ⟨reverses,fun k low high => ?_⟩
      by_cases met : 0 ≤ srcInd+k ∧ elemSize*(srcInd+k) < numElems
      · exact .inl met
      · refine .inr fun b within => ?_
        have here := right k low high b within
        rw [value_ k low high b within,if_neg met] at here
        exact Option.some.inj here
    · rintro ⟨_,condition⟩
      refine ⟨after,placed,runs,fun k low high b within => ?_⟩
      rw [value_ k low high b within]
      rcases condition k low high with met | same
      · rw [if_pos met]
      · split
        · rfl
        · rw [same b within]
  · refine ⟨?_,fun condition => absurd condition.1 reverses⟩
    rintro ⟨after,placed,ran,_⟩
    rw [placeData_refused differ reverses] at ran
    cases ran

theorem chunk_reversed_iff (chunk : ChunkOf numDims dims chunkedDims dp)
    (fits : value dims dp.start numDims+weight dims numDims < 2^63) (differ : host ≠ dataByteOrder) (size : 1 ≤ elemSize)
    (object : MetaData) (arrays : Arrays) (memory : Memory) :
    ChunkReversed host object arrays memory numDims dims chunkedDims dp elemSize dataByteOrder ↔
      ∀ p, Covered numDims dims chunkedDims dp p →
        elemSize*bufferPosition numDims chunkedDims p < min (chunkedDims 0) (dims 0-dp.start 0) ∨
          SameBackwards object memory elemSize (bufferPosition numDims chunkedDims p) := by
  obtain ⟨fuel,after,placed,runs,stored⟩ := copyChunk_exact chunk fits differ size object arrays memory
  constructor
  · rintro ⟨fuel',after',placed',ran,right⟩ p covered
    obtain ⟨rfl,rfl⟩ := Prod.mk.inj (copyChunk_unique runs ran)
    by_cases met : elemSize*bufferPosition numDims chunkedDims p < min (chunkedDims 0) (dims 0-dp.start 0)
    · exact .inl met
    · refine .inr fun b within => ?_
      have here := right p covered b within
      rw [stored p covered b within,if_neg met] at here
      exact Option.some.inj here
  · intro condition
    refine ⟨fuel,after,placed,runs,fun p covered b within => ?_⟩
    rw [stored p covered b within]
    rcases condition p covered with met | same
    · rw [if_pos met]
    · split
      · rfl
      · rw [same b within]

-- Both for one call and for a whole chunk, the elements that start in the first
-- num_elems bytes of the buffer are reversed and the others are not. In a mapping of
-- the file not even these are.
theorem placeData_reverses (differ : host ≠ dataByteOrder) (size : 1 ≤ elemSize) (object : MetaData) (arrays : Arrays)
    (memory : Memory) :
    (∀ protection dstInd srcInd numElems,
      PlacedReversed host protection object arrays memory dstInd srcInd numElems elemSize dataByteOrder ↔
        (protection = .readWrite ∨ elemSize = 1 ∨ numElems ≤ 0) ∧ ∀ k, 0 ≤ k → k < numElems →
          (0 ≤ srcInd+k ∧ elemSize*(srcInd+k) < numElems) ∨ SameBackwards object memory elemSize (srcInd+k)) ∧
    ∀ numDims dims chunkedDims dp, ChunkOf numDims dims chunkedDims dp →
      value dims dp.start numDims+weight dims numDims < 2^63 →
      (ChunkReversed host object arrays memory numDims dims chunkedDims dp elemSize dataByteOrder ↔
        ∀ p, Covered numDims dims chunkedDims dp p →
          elemSize*bufferPosition numDims chunkedDims p < min (chunkedDims 0) (dims 0-dp.start 0) ∨
            SameBackwards object memory elemSize (bufferPosition numDims chunkedDims p)) :=
  ⟨fun protection dstInd srcInd numElems => placed_reversed_iff differ size protection object arrays memory dstInd srcInd numElems,
    fun _ _ _ _ chunk fits => chunk_reversed_iff chunk fits differ size object arrays memory⟩

-- Two elements of two bytes, of which only one byte is not 0.
def wideObject : MetaData := {initializeObject.toMetaData with matlabInternalType:=.uint16Class,elemSize:=2,numElems:=2}

def oneByte (position : Int) : Memory := fun p => if p = position then 1 else 0

theorem two_elements : ChunkOf 1 (fun _ => 2) (fun _ => 2) ⟨0,0,[0,0]⟩ :=
  ⟨by decide,by decide,by decide,by decide,by decide,by decide,by decide⟩

theorem two_elements_position (p : Nat → Int) : bufferPosition 1 (fun _ => 2) p = p 0 := by
  rw [bufferPosition_value]
  simp [value,combine,weight]

-- A byte of the first element is enough to see it reversed.
theorem placeData_first :
    PlacedReversed .littleEndian .readWrite wideObject ⟨fun _ => none,fun _ => none⟩ (oneByte 0) 0 0 2 2 .bigEndian ∧
    ChunkReversed .littleEndian wideObject ⟨fun _ => none,fun _ => none⟩ (oneByte 0) 1 (fun _ => 2) (fun _ => 2) ⟨0,0,[0,0]⟩
      2 .bigEndian := by
  obtain ⟨call,chunk⟩ := placeData_reverses (show ByteOrder.littleEndian ≠ ByteOrder.bigEndian by decide)
    (show 1 ≤ 2 by decide) wideObject ⟨fun _ => none,fun _ => none⟩ (oneByte 0)
  refine ⟨(call .readWrite 0 0 2).mpr ⟨.inl rfl,fun k low high => ?_⟩,
    (chunk 1 _ _ ⟨0,0,[0,0]⟩ two_elements (by decide)).mpr fun p covered => ?_⟩
  · obtain rfl | rfl : k = 0 ∨ k = 1 := by omega
    · exact .inl (by decide)
    · exact .inr (by unfold SameBackwards; decide)
  · have range : 0 ≤ p 0 ∧ p 0 < min 2 (2-0) := covered 0 (by decide)
    rw [two_elements_position]
    obtain first | second : p 0 = 0 ∨ p 0 = 1 := by omega
    · rw [first]
      exact .inl (by decide)
    · rw [second]
      exact .inr (by unfold SameBackwards; decide)

-- The second element of a row of two keeps its bytes as they are in the chunk, and from
-- a contiguous dataset nothing is stored at all.
theorem placeData_second :
    ¬PlacedReversed .littleEndian .read wideObject ⟨fun _ => none,fun _ => none⟩ (oneByte 2) 0 0 2 2 .bigEndian ∧
    ¬PlacedReversed .littleEndian .readWrite wideObject ⟨fun _ => none,fun _ => none⟩ (oneByte 2) 0 0 2 2 .bigEndian ∧
    ¬ChunkReversed .littleEndian wideObject ⟨fun _ => none,fun _ => none⟩ (oneByte 2) 1 (fun _ => 2) (fun _ => 2) ⟨0,0,[0,0]⟩
      2 .bigEndian := by
  rw [placed_reversed_iff (by decide) (by decide),placed_reversed_iff (by decide) (by decide),
    chunk_reversed_iff two_elements (by decide) (by decide) (by decide)]
  have differs : ¬SameBackwards wideObject (oneByte 2) 2 1 := by unfold SameBackwards; decide
  refine ⟨fun both => absurd both.1 (by decide),fun both => ?_,fun all_ => ?_⟩
  · exact (both.2 1 (by decide) (by decide)).elim (by decide) differs
  · have last := all_ (fun _ => 1) (by unfold Covered; decide)
    rw [two_elements_position] at last
    exact last.elim (by decide) differs

end Result

end PlaceData
end GetMatVar
