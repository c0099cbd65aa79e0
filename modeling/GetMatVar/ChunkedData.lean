import GetMatVar.FillNode
import GetMatVar.InflateCopies

namespace GetMatVar
open MixedRadix DoInflate PageObjects

-- getChunkedData on a dataset whose chunk tree is at this address: the result
-- and the destination array. A walk that fails ends it before anything is copied;
-- otherwise num_threads_to_use workers, at least one, run to their joins.
inductive GetChunkedData (file : MatFile) (pages : Nat → PageObject) (address : Nat) (object : ChunkedObject)
    (libdeflate : Libdeflate α) (numThreads : Nat) : Nat → (Int → Option α) → Prop where
  | rejected (walked : fillNode file object.numChunkedDims fuel .root address (emptyTables pages) = some (code,left,tables))
      (bad : code ≠ 0) : GetChunkedData file pages address object libdeflate numThreads code (fun _ => none)
  | inflated (walked : fillNode file object.numChunkedDims fuel .root address (emptyTables pages) = some (0,left,tables))
      (merging : mtMergeQueue mtInitQueue tables.buckets file.numPages = some (merged,restored))
      (path : Runs.Run (Step object libdeflate) (start α (max numThreads 1) merged) actions s)
      (joined : s.joined = max numThreads 1) :
      GetChunkedData file pages address object libdeflate numThreads s.ret s.data

section Results
variable {α : Type} {file : MatFile} {pages : Nat → PageObject} {object : ChunkedObject} {libdeflate : Libdeflate α}
  {records : List DataPair}

theorem GetChunkedData.parts (read : GetChunkedData file pages address object libdeflate numThreads code data)
    (walked : fillNode file object.numChunkedDims fuel .root address (emptyTables pages) = some (0,left,tables))
    (merging : mtMergeQueue mtInitQueue tables.buckets file.numPages = some (merged,restored)) :
    ∃ actions s, Runs.Run (Step object libdeflate) (start α (max numThreads 1) merged) actions s ∧
      (∀ w, s.workers w = .ended) ∧ code = s.ret ∧ data = s.data := by
  cases read with
  | rejected other bad => exact absurd (congrArg Prod.fst (fillNode_unique other walked)) bad
  | inflated other also_ path joined =>
    cases fillNode_unique other walked
    cases also_.symm.trans merging
    exact ⟨_,_,path,fun w => joined_run path w (by rw [joined]; exact w.isLt),rfl,rfl⟩

theorem read_completes (laid : object.Laid)
    (walked : fillNode file object.numChunkedDims fuel .root address (emptyTables pages) = some (0,left,tables))
    (registered : registerAll file (emptyTables pages) records = some tables)
    (fit : ∀ dp ∈ records, ChunkFits object dp) (decompressed : ∀ dp ∈ records, libdeflate.result dp = .success)
    (numThreads : Nat) : ∃ data, GetChunkedData file pages address object libdeflate numThreads 0 data := by
  obtain ⟨merged,restored,merging,tight,perm⟩ := merged_exact registered
  have listed : ∀ dp ∈ merged.live, ChunkFits object dp := fun dp member => fit dp (perm.mem_iff.mp member)
  have good : ∀ dp ∈ merged.live, libdeflate.result dp = .success :=
    fun dp member => decompressed dp (perm.mem_iff.mp member)
  obtain ⟨_,_,s,path,_,joined⟩ := inflate_completes (n:=max numThreads 1) laid tight listed good .nil
  have zero := (copying_run laid tight listed good path).clean.2
  exact ⟨s.data,zero ▸ .inflated walked merging path joined⟩

end Results

section Grid
variable {α : Type} {file : MatFile} {pages : Nat → PageObject} {object : ChunkedObject} {libdeflate : Libdeflate α}
  {records : List DataPair} {x : Nat → Int}

def covers (object : ChunkedObject) (x : Nat → Int) (dp : DataPair) : Bool :=
  decide (∀ j < object.numDims, dp.start j = object.chunkedDims j*(x j/object.chunkedDims j))

-- Exactly one record for every cell of the chunk grid, each aligned and inside.
structure Grid (object : ChunkedObject) (records : List DataPair) : Prop where
  inside : ∀ dp ∈ records, InRange object.dims dp.start object.numDims
  aligned : ∀ dp ∈ records, ∀ j < object.numDims, object.chunkedDims j ∣ dp.start j
  once : ∀ x, Element object x → records.countP (covers object x) = 1

def chunkElement (object : ChunkedObject) (libdeflate : Libdeflate α) (dp : DataPair) (x : Nat → Int) : α :=
  libdeflate.buffer dp (value object.chunkedDims (fun j => x j%object.chunkedDims j) object.numDims)

def Assembled (object : ChunkedObject) (libdeflate : Libdeflate α) (records : List DataPair)
    (data : Int → Option α) : Prop :=
  ∀ x, Element object x → ∃ dp ∈ records, covers object x dp = true ∧
    data (elementIndex object x) = some (chunkElement object libdeflate dp x)

theorem Grid.chunkFits (laid : object.Laid) (grid : Grid object records)
    (fits : ∀ dp ∈ records, indexBehind object dp < 2^63) (member : dp ∈ records) : ChunkFits object dp :=
  have edges := edges_aligned laid (grid.inside dp member) (grid.aligned dp member) (fits dp member)
  ⟨⟨grid.inside dp member,edges⟩,fits dp member⟩

theorem aligned_box (laid : object.Laid) (aligned : ∀ j < object.numDims, object.chunkedDims j ∣ dp.start j)
    (element : Element object x) : InBox object dp x ↔ covers object x dp = true := by
  simp only [covers,decide_eq_true_eq]
  refine forall₂_congr fun j below => ?_
  have chunk := laid.chunks j below
  obtain ⟨k,multiple⟩ := aligned j below
  obtain ⟨_,high⟩ := element j below
  have split := Int.mul_ediv_add_emod (x j) (object.chunkedDims j)
  have low := Int.emod_nonneg (x j) chunk.ne'
  have less := Int.emod_lt_of_pos (x j) chunk
  constructor
  · rintro ⟨lower,upper,_⟩
    rw [multiple] at upper lower ⊢
    have quotient : x j/object.chunkedDims j = k := by
      rw [Int.ediv_eq_iff_of_pos chunk]
      constructor <;> nlinarith
    rw [quotient]
  · intro same
    omega

theorem once_same (once : records.countP test = 1) (left : a ∈ records) (right : b ∈ records) (testA : test a = true)
    (testB : test b = true) : a = b := by
  rw [List.countP_eq_length_filter,List.length_eq_one_iff] at once
  obtain ⟨only,shape⟩ := once
  have first : a ∈ records.filter test := List.mem_filter.mpr ⟨left,testA⟩
  have second : b ∈ records.filter test := List.mem_filter.mpr ⟨right,testB⟩
  rw [shape,List.mem_singleton] at first second
  rw [first,second]

theorem chunk_element (covered : covers object x dp = true) (same : ∀ j < object.numDims, y j = x j) :
    libdeflate.buffer dp (bufferIndex object dp y) = chunkElement object libdeflate dp x := by
  simp only [covers,decide_eq_true_eq] at covered
  rw [bufferIndex,chunkElement]
  congr 1
  refine combine_congr _ fun j below => ?_
  have split := Int.mul_ediv_add_emod (x j) (object.chunkedDims j)
  simp only [relative,same j below,covered j below]
  omega

theorem copies_assembled {s : Threads α n} (laid : object.Laid) (grid : Grid object records)
    (fits : ∀ dp ∈ records, indexBehind object dp < 2^63) (valid : Copying object libdeflate order actions s)
    (perm : order.Perm records) (some_ : 0 < n)
    (ended : ∀ w, s.workers w = .ended) : Assembled object libdeflate records s.data := by
  intro x element
  obtain ⟨dp,member,covered⟩ := List.countP_pos_iff.mp (by rw [grid.once x element]; exact Nat.one_pos)
  refine ⟨dp,member,covered,?_⟩
  have box := (aligned_box laid (grid.aligned dp member) element).mpr covered
  have fit : ∀ dp ∈ order, ChunkFits object dp := fun dp listed => grid.chunkFits laid fits (perm.mem_iff.mp listed)
  have written := ((ended_copies laid fit valid some_ ended).2 (elementIndex object x)).mpr
    ⟨dp,perm.mem_iff.mpr member,x,box,rfl⟩
  rcases valid.sound (elementIndex object x) with none_ | ⟨other,listed,y,inBox,placed,value⟩
  · exact absurd none_ written
  · have listed := perm.mem_iff.mp listed
    have agree := element_injective (inBox.element (grid.chunkFits laid fits listed).toInside) element placed
    have same : other = dp := once_same (grid.once x element) listed member
      ((aligned_box laid (grid.aligned other listed) element).mp (inBox.congr agree)) covered
    subst same
    rw [value,chunk_element covered agree]

theorem position_element (laid : object.Laid) (positive : ∀ j < object.numDims, 0 < object.dims j) (low : 0 ≤ p)
    (high : p < object.numElems) : ∃ x, Element object x ∧ elementIndex object x = p := by
  refine ⟨digit object.dims p,digit_range positive p,?_⟩
  exact value_digits positive low (elems_exact laid positive ▸ high)

end Grid

section Pair

def leafNode (entriesUsed : UInt8) (keys : List UInt8) : List UInt8 :=
  [0x54,0x52,0x45,0x45,1,0,entriesUsed,0]++List.replicate 16 0xff++keys

def noPages : Nat → PageObject := fun _ => initializePageObject

end Pair

end GetMatVar
