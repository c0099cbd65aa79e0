import GetMatVar.ChunkTree
import GetMatVar.ChunkedData
import GetMatVar.DatasetHeader

namespace GetMatVar
open Arrangements DoInflate MixedRadix PageObjects

-- libdeflate_zlib_decompress without a place for the size that came out: from the
-- stream and the size of the buffer, its code and the bytes in the buffer.
abbrev ZlibDecompress := List UInt8 → Nat → LibdeflateResult × List UInt8

def chunkedObject (object : MetaData) : ChunkedObject where
  numDims := object.numDims
  dims k := (object.dims.getD []).getD k 0
  numElems := object.numElems
  numChunkedDims := object.chunkedInfo.numChunkedDims
  chunkedDims k := (object.chunkedInfo.chunkedDims.getD []).getD k 0
  numChunkedElems := object.chunkedInfo.numChunkedElems
  chunkUpdate k := (object.chunkedInfo.chunkUpdate.getD []).getD k 0

def elementAt (elemSize : Nat) (bytes : List UInt8) (i : Int) : List UInt8 := (bytes.drop (i.toNat*elemSize)).take elemSize

def maxEstDecompSize (object : MetaData) : Nat := (object.chunkedInfo.numChunkedElems*object.elemSize%2^64).toNat

-- The bytes of data_arrays.data; what no chunk was copied to is as it was allocated.
def arraysOf (object : MetaData) (data : Int → Option (List UInt8)) : DataArrays :=
  ⟨some ((List.range (object.numElems.toNat*object.elemSize)).map fun k =>
      (data (k/object.elemSize : Nat)).bind fun element => element[k%object.elemSize]?),object.subObjectHeaderOffsets⟩

section Model
variable (file : MatFile) (zlibDecompress : ZlibDecompress) (threads : MetaData → Nat)

def chunkBytes (dp : DataPair) : List UInt8 := (List.range dp.chunkSize).map fun k => file.bytes (dp.address+k)

def libdeflateOf (object : MetaData) : Libdeflate (List UInt8) where
  result dp := (zlibDecompress (chunkBytes file dp) (maxEstDecompSize object)).1
  buffer dp := elementAt object.elemSize (zlibDecompress (chunkBytes file dp) (maxEstDecompSize object)).2

def RanChunked (object : MetaData) (result : Nat × DataArrays) : Prop :=
  ∃ pages data, GetChunkedData file pages object.dataAddress (chunkedObject object)
    (libdeflateOf file zlibDecompress object) (threads object) result.1 data ∧ result.2 = arraysOf object data

-- chunked is getChunkedData on arrays in the order of the machine: where its threads
-- come to an end, the result of some order of their steps.
def ReadsChunks (chunked : MetaData → Option (Nat × DataArrays)) : Prop :=
  ∀ object, storageOf object.matlabInternalType = .elements → object.byteOrder = .littleEndian →
    (∃ result, RanChunked file zlibDecompress threads object result) →
    ∃ result, chunked object = some result ∧ RanChunked file zlibDecompress threads object result

end Model

def sizeAt (dims : List Nat) (j : Nat) : Int := (dims.getD j 0 : Nat)

def gridOf (dims chunkDims : List Nat) : ChunkedObject where
  numDims := dims.length
  dims := sizeAt dims
  numElems := (dims.prod : Nat)
  numChunkedDims := dims.length
  chunkedDims := sizeAt chunkDims
  numChunkedElems := (chunkDims.prod : Nat)
  chunkUpdate := makeChunkedUpdates (fun _ => 0) (sizeAt chunkDims) (sizeAt dims) dims.length

-- The layout message of an array in chunks, the slowest dimension first.
structure ChunkLayout (sBlock : Superblock) (m : Message) (chunkDims : List Nat) (treeAddress : Nat) : Prop where
  kind : m.kind = .dataLayout
  layout : m.byte 1 = 2
  rank : m.byte 2 = chunkDims.length+1
  dims : ((List.range chunkDims.length).map fun j => m.number (3+sBlock.sizeOfOffsets+4*j) 4) = chunkDims.reverse
  tree : m.statedAddress sBlock 3 = treeAddress

-- The records, one for each cell of the grid, and in the stream of each the elements
-- of the array that are in its cell.
structure Chunks (file : MatFile) (zlibDecompress : ZlibDecompress) (content : Content) (chunkDims : List Nat)
    (records : List DataPair) : Prop where
  grid : Grid (gridOf content.dims chunkDims) records
  inflates : ∀ dp ∈ records, (zlibDecompress (chunkBytes file dp) (chunkDims.prod*content.elemSize)).1 = .success
  elements : ∀ dp ∈ records, ∀ x, InRange (sizeAt content.dims) x content.dims.length →
    covers (gridOf content.dims chunkDims) x dp = true →
    elementAt content.elemSize (zlibDecompress (chunkBytes file dp) (chunkDims.prod*content.elemSize)).2
        (value (sizeAt chunkDims) (fun j => x j%sizeAt chunkDims j) content.dims.length) =
      elementAt content.elemSize content.data (value (sizeAt content.dims) x content.dims.length)

-- An array in chunks. Its dataspace has to come before its layout.
structure ChunkedDataset (file : MatFile) (zlibDecompress : ZlibDecompress) (address : Nat) (content : Content) : Prop where
  described : Described file address content
  rank : content.dims ≠ []
  half : content.dims.prod < 2^62
  length : content.data.length = content.dims.prod*content.elemSize
  chunks : ∃ layout chunkDims treeAddress level records,
    (∀ space ∈ file.messages (file.headerAt address), space.kind = .dataSpace →
      Before (file.messages (file.headerAt address)) space layout) ∧
    ChunkLayout file.sBlock layout chunkDims treeAddress ∧ chunkDims.length = content.dims.length ∧
    (∀ dim ∈ chunkDims, 0 < dim) ∧ chunkDims.prod*content.elemSize < 2^63 ∧
    ChunkBTree file content.dims.length level treeAddress records ∧ Chunks file zlibDecompress content chunkDims records

section Grids
variable {dims chunkDims : List Nat}

theorem sizes_getD (dims : List Nat) (k : Nat) : (dims.map (fun dim : Nat => (dim : Int))++[0]).getD k 0 = sizeAt dims k := by
  unfold sizeAt
  rw [List.getD_eq_getElem?_getD,List.getD_eq_getElem?_getD]
  rcases Nat.lt_trichotomy k dims.length with below | rfl | above
  · rw [List.getElem?_append_left (by simpa using below),List.getElem?_map,List.getElem?_eq_getElem below]
    rfl
  · simp
  · rw [List.getElem?_eq_none (by simp; omega),List.getElem?_eq_none (by omega)]
    rfl

theorem size_positive (full : ∀ dim ∈ dims, 0 < dim) (below : j < dims.length) : 0 < sizeAt dims j := by
  unfold sizeAt
  rw [List.getD_eq_getElem?_getD,List.getElem?_eq_getElem below]
  exact Int.natCast_pos.mpr (full _ (List.getElem_mem below))

theorem weight_sizes (dims : List Nat) : weight (sizeAt dims) dims.length = (dims.prod : Nat) := by
  have prefix_ (k : Nat) (inside : k ≤ dims.length) : weight (sizeAt dims) k = ((dims.take k).prod : Nat) := by
    induction k with
    | zero => rfl
    | succ k ih =>
      have below : k < dims.length := inside
      rw [weight,ih (Nat.le_of_succ_le inside),List.take_succ_eq_append_getElem below,List.prod_append,List.prod_singleton,
        Nat.cast_mul]
      unfold sizeAt
      rw [List.getD_eq_getElem?_getD,List.getElem?_eq_getElem below]
      rfl
  rw [prefix_ dims.length (Nat.le_refl _),List.take_length]

theorem grid_laid (rank : dims ≠ []) (small : dims.length ≤ hdf5MaxDims) (same : chunkDims.length = dims.length)
    (full : ∀ dim ∈ dims, 0 < dim) (chunks : ∀ dim ∈ chunkDims, 0 < dim) (half : dims.prod < 2^62)
    (few : chunkDims.prod < 2^63) : (gridOf dims chunkDims).Laid where
  rank := List.length_pos_iff.mpr rank
  small := small
  same := rfl
  counted := by
    have fits : weight (sizeAt dims) (0+dims.length) < 2^63 := by
      rw [Nat.zero_add,weight_sizes]
      omega
    have counted := countElems_exact dims.length 0 (fun j below => size_positive full (by omega)) fits
    rw [Nat.zero_add,weight_sizes] at counted
    exact counted.symm
  chunks := fun _ below => size_positive chunks (same ▸ below)
  total := by
    show ((chunkDims.prod : Nat) : Int) = product (sizeAt chunkDims) dims.length
    rw [product_exact,← same,weight_sizes]
    exact (wrapIndex_small (by omega) (by omega)).symm
  updates := fun _ _ => rfl
  elements := by
    change weight (sizeAt dims) dims.length < 2^63
    rw [weight_sizes]
    omega
  chunk := by
    change weight (sizeAt chunkDims) dims.length < 2^63
    rw [← same,weight_sizes]
    omega

theorem grid_fits (half : dims.prod < 2^62) (inside : InRange (sizeAt dims) dp.start dims.length) :
    indexBehind (gridOf dims chunkDims) dp < 2^63 := by
  have start := (value_bounds inside).2
  change value (sizeAt dims) dp.start dims.length+weight (sizeAt dims) dims.length < 2^63
  rw [weight_sizes] at start ⊢
  omega

end Grids

section Stated
variable {file : MatFile} {header : Header} {m space : Message} {dims chunkDims : List Nat}

theorem ChunkLayout.rank_exact (layout : ChunkLayout sBlock m chunkDims treeAddress) :
    (m.byte 2+255)%256 = chunkDims.length := by
  have byte : m.byte 2 < 256 := (m.bytes 2).toNat_lt
  have rank := layout.rank
  omega

theorem ChunkLayout.dims_exact (layout : ChunkLayout sBlock m chunkDims treeAddress) (full : ∀ dim ∈ chunkDims, 0 < dim)
    (few : chunkDims.prod < 2^63) :
    m.chunkDims sBlock.sizeOfOffsets = chunkDims.map (fun dim : Nat => (dim : Int))++[0] := by
  unfold Message.chunkDims
  rw [layout.rank_exact,reversed_range (fun i => toIndex (m.number (3+sBlock.sizeOfOffsets+4*i) 4)),← List.map_reverse]
  have listed := congrArg List.reverse layout.dims
  rw [List.reverse_reverse,← List.map_reverse] at listed
  refine congrArg (·++[0]) ?_
  calc
    (List.range chunkDims.length).reverse.map (fun j => toIndex (m.number (3+sBlock.sizeOfOffsets+4*j) 4))
    _ = ((List.range chunkDims.length).reverse.map fun j => m.number (3+sBlock.sizeOfOffsets+4*j) 4).map
        (fun dim : Nat => (dim : Int)) := by
      rw [List.map_map]
      refine List.map_congr_left fun j member => (toIndex_exact _).mpr (dim_small full few ?_)
      rw [← listed]
      exact List.mem_map_of_mem member
    _ = chunkDims.map (fun dim : Nat => (dim : Int)) := by rw [listed]

theorem effectOf_chunked (valid : m.Valid file.sBlock) (shown : Shown file pointer m)
    (layout : ChunkLayout file.sBlock m chunkDims treeAddress) (full : ∀ dim ∈ chunkDims, 0 < dim)
    (few : chunkDims.prod < 2^63) : effectOf file.sBlock m =
      .chunked treeAddress chunkDims.length (chunkDims.map (fun dim : Nat => (dim : Int))++[0]) := by
  have role : (effectOf file.sBlock m).role = .chunked :=
    (effectOf_does valid).role.trans (by simp [Message.role,layout.kind,layout.layout])
  have fits := valid
  simp only [Message.Valid,layout.kind,layout.layout] at fits
  obtain ⟨version,fits⟩ := fits
  have room : 3+file.sBlock.sizeOfOffsets+4*((m.byte 2+255)%256) ≤ m.body.length := by omega
  have first : file.byte (pointer+0) = m.byte 0 := byte_shown shown (by omega)
  have second : file.byte (pointer+1) = m.byte 1 := byte_shown shown (by omega)
  have rank : file.byte (pointer+2) = m.byte 2 := byte_shown shown (by omega)
  rw [Nat.add_zero,version] at first
  rw [layout.layout] at second
  obtain ⟨sizes,stored⟩ : ∃ sizes, sizes = chunkDims.map (fun dim : Nat => (dim : Int))++[0] := ⟨_,rfl⟩
  have listed := chunkDims_shown shown room
  rw [layout.rank_exact,layout.dims_exact full few,← stored] at listed
  rw [← stored]
  have read : readMessage file m.kind pointer blank = some (0,{blank with
      layoutClass:=2,dataAddress:=treeAddress
      chunkedInfo:={blank.chunkedInfo with
        numChunkedDims:=chunkDims.length,chunkedDims:=some sizes
        numChunkedElems:=(sizes.take chunkDims.length).foldl (fun elems dim => wrapIndex (elems*dim)) 1
        chunkUpdate:=some ((List.range (chunkDims.length+1)).map (Effect.updates sizes blank))}}) := by
    simp only [layout.kind,readMessage,readDataLayoutMessage,first,second,rank,ne_eq,not_true,if_false,
      address_shown shown (Nat.le_of_add_right_le room),layout.tree,layout.rank_exact,listed]
    exact if_pos (show 0 ≤ chunkDims.length+1 from Nat.zero_le _)
  obtain ⟨applied,stated⟩ := effectOf_reads valid shown read
  cases effect : effectOf file.sBlock m with
  | chunked other count dims =>
    rw [effect] at applied stated
    rw [Effect.apply] at applied
    split at applied
    · have fields := Option.some.inj applied
      have sameCount : count = chunkDims.length :=
        congrArg (fun fields : MetaData => fields.chunkedInfo.numChunkedDims) fields
      have sameSizes : some dims = some sizes := congrArg (fun fields : MetaData => fields.chunkedInfo.chunkedDims) fields
      have sameAddress : treeAddress = other := stated
      rw [sameCount,Option.some.inj sameSizes,sameAddress]
    · cases applied
  | _ =>
    rw [effect] at role
    cases role

theorem before_front {front back : List Message} (order : Before (front++m::back) a m) (once : (front++m::back).Nodup) :
    a ∈ front := by
  obtain ⟨_,tail,apart⟩ := List.nodup_append.mp once
  have absent : m ∉ back := (List.nodup_cons.mp tail).1
  obtain ⟨low,high,split,left,right⟩ := List.sublist_append_iff.mp order
  cases low with
  | cons first rest =>
    obtain ⟨rfl,_⟩ := List.cons.inj split
    exact left.subset List.mem_cons_self
  | nil =>
    rw [List.nil_append] at split
    subst split
    rcases List.sublist_cons_iff.mp right with inside | ⟨rest,same,inside⟩
    · exact absurd (inside.subset (List.mem_cons_of_mem _ List.mem_cons_self)) absent
    · obtain ⟨_,rfl⟩ := List.cons.inj same
      exact absurd (inside.subset List.mem_cons_self) absent

theorem wrapped_product (full : ∀ dim ∈ dims, 0 < dim) (few : elems*dims.prod < 2^63) :
    (dims.map fun dim : Nat => (dim : Int)).foldl (fun elems dim => wrapIndex (elems*dim)) (elems : Nat) =
      (elems*dims.prod : Nat) := by
  induction dims generalizing elems with
  | nil => rw [List.prod_nil,Nat.mul_one]; rfl
  | cons dim rest ih =>
    rw [List.prod_cons,← Nat.mul_assoc] at few
    have positive : 0 < rest.prod := Nat.pos_of_ne_zero fun zero =>
      absurd (full 0 (List.mem_cons_of_mem _ (List.prod_eq_zero_iff.mp zero))) (Nat.lt_irrefl 0)
    have small : elems*dim < 2^63 := Nat.lt_of_le_of_lt (Nat.le_mul_of_pos_right _ positive) few
    have step : wrapIndex ((elems : Int)*(dim : Int)) = ((elems*dim : Nat) : Int) := by
      rw [← Nat.cast_mul]
      exact wrapIndex_small (by omega) (by exact_mod_cast small)
    rw [List.map_cons,List.foldl_cons,step,ih (fun other member => full other (List.mem_cons_of_mem _ member)) few,
      List.prod_cons,Nat.mul_assoc]

theorem chunks_stated (valid : ValidHeader file header) (plain : ∀ m ∈ file.messages header, ordinary m.role = true)
    (ran : (file.messages header).foldl (act file.sBlock) (some (forget blank)) = some after)
    (kind : space.kind = .dataSpace) (stated : space.sizes file.sBlock.sizeOfLengths = dims.reverse)
    (full : ∀ dim ∈ dims, 0 < dim) (few : dims.prod < 2^63)
    (order : Before (file.messages header) space m) (layout : ChunkLayout file.sBlock m chunkDims treeAddress)
    (chunksFull : ∀ dim ∈ chunkDims, 0 < dim) (chunksFew : chunkDims.prod < 2^63) :
    after.layoutClass = 2 ∧ after.chunkedInfo.numChunkedDims = chunkDims.length ∧
      after.chunkedInfo.chunkedDims = some (chunkDims.map (fun dim : Nat => (dim : Int))++[0]) ∧
      after.chunkedInfo.numChunkedElems = (chunkDims.prod : Nat) ∧
      after.chunkedInfo.chunkUpdate = some ((List.range (chunkDims.length+1)).map
        (makeChunkedUpdates (fun _ => 0) (sizeAt chunkDims) (sizeAt dims) dims.length)) := by
  have listed : m ∈ file.messages header := order.subset (List.mem_cons_of_mem _ List.mem_cons_self)
  obtain ⟨pointer,shown⟩ := listed_shown valid listed
  obtain ⟨front,back,before,middle,split,reached,_,acted,after⟩ := foldl_stated only_layout valid plain (.refl _) ran listed
    (layout_alone valid listed layout.kind)
  have part : front.Sublist (file.messages header) := split ▸ List.sublist_append_left _ _
  have once := messages_nodup valid
  rw [split] at order once
  obtain ⟨numDims,dims_,_⟩ := sizes_stated valid plain part reached (before_front order once) kind stated full few
  rw [effectOf_chunked (messages_valid valid listed) shown layout chunksFull chunksFew,Effect.apply] at acted
  have updates : Effect.updates (chunkDims.map (fun dim : Nat => (dim : Int))++[0]) before =
      makeChunkedUpdates (fun _ => 0) (sizeAt chunkDims) (sizeAt dims) dims.length := by
    unfold Effect.updates
    simp only [numDims,dims_,Option.getD_some,sizes_getD]
  have product : ((chunkDims.map (fun dim : Nat => (dim : Int))++[0]).take chunkDims.length).foldl
      (fun elems dim => wrapIndex (elems*dim)) 1 = ((chunkDims.prod : Nat) : Int) := by
    rw [List.take_left' (List.length_map _)]
    have folded := @wrapped_product chunkDims 1 chunksFull (by rw [Nat.one_mul]; exact chunksFew)
    rw [Nat.one_mul] at folded
    exact folded
  split at acted
  · cases acted
    simp only [Prod.mk.injEq] at after
    obtain ⟨class_,count,sizes,elems,update⟩ := after
    rw [updates] at update
    exact ⟨class_,count,sizes,elems.trans product,update⟩
  · cases acted

end Stated

section Assembly
variable {file : MatFile} {content : Content} {chunkDims : List Nat} {records : List DataPair}

theorem ran_assembled {α : Type} {object : ChunkedObject} {libdeflate : Libdeflate α} {data : Int → Option α} (laid : object.Laid)
    (tree : ChunkNode file object.numChunkedDims level address records) (grid : Grid object records)
    (fits : ∀ dp ∈ records, indexBehind object dp < 2^63) (decompressed : ∀ dp ∈ records, libdeflate.result dp = .success)
    (read : GetChunkedData file pages address object libdeflate numThreads code data) :
    code = 0 ∧ Assembled object libdeflate records data := by
  obtain ⟨tables,walked,registered⟩ := fillNode_tree tree (Nat.lt_succ_self (level+1)) .root (emptyTables pages)
  obtain ⟨merged,restored,merging,tight,perm⟩ := merged_exact registered
  obtain ⟨actions,s,path,ended,rfl,rfl⟩ := read.parts walked merging
  have valid := copying_run laid tight (fun dp member => grid.chunkFits laid fits (perm.mem_iff.mp member))
    (fun dp member => decompressed dp (perm.mem_iff.mp member)) path
  exact ⟨valid.clean.2,copies_assembled laid grid fits valid perm (by omega) ended⟩

theorem bytes_of_elements {bytes : List UInt8} {data : Int → Option (List UInt8)} (size : 0 < elemSize)
    (length : bytes.length = count*elemSize) (elements : ∀ p : Nat, p < count → data p = some (elementAt elemSize bytes p)) :
    ((List.range (count*elemSize)).map fun k =>
      (data (k/elemSize : Nat)).bind fun element => element[k%elemSize]?) = bytes.map some := by
  apply List.ext_getElem
  · simp [length]
  · intro k left right
    have below : k < count*elemSize := by simpa using left
    have rest := Nat.mod_lt k size
    have element := elements (k/elemSize) ((Nat.div_lt_iff_lt_mul size).mpr below)
    have joined : k/elemSize*elemSize+k%elemSize = k := by
      rw [Nat.mul_comm]
      exact Nat.div_add_mod k elemSize
    rw [List.getElem_map,List.getElem_range,element,Option.bind_some]
    unfold elementAt
    rw [Int.toNat_natCast,List.getElem?_take_of_lt rest,List.getElem?_drop,joined,List.getElem_map,
      List.getElem?_eq_getElem (length ▸ below)]

theorem assembled_elements (laid : (gridOf content.dims chunkDims).Laid) (full : ∀ dim ∈ content.dims, 0 < dim)
    {libdeflate : Libdeflate (List UInt8)} (buffers : ∀ dp ∈ records, libdeflate.buffer dp =
      elementAt content.elemSize (zlibDecompress (chunkBytes file dp) (chunkDims.prod*content.elemSize)).2)
    (chunks : Chunks file zlibDecompress content chunkDims records)
    (assembled : Assembled (gridOf content.dims chunkDims) libdeflate records data) {p : Nat} (below : p < content.dims.prod) :
    data p = some (elementAt content.elemSize content.data p) := by
  have inside : (p : Int) < (gridOf content.dims chunkDims).numElems := Int.ofNat_lt.mpr below
  obtain ⟨x,element,here⟩ := position_element laid (fun _ below => size_positive full below) (Int.natCast_nonneg p) inside
  obtain ⟨dp,member,covered,value⟩ := assembled x element
  have stored := chunks.elements dp member x element covered
  unfold elementIndex at here value
  change MixedRadix.value (sizeAt content.dims) x content.dims.length = (p : Int) at here
  change data (MixedRadix.value (sizeAt content.dims) x content.dims.length) = _ at value
  rw [here] at value stored
  rw [value]
  unfold chunkElement
  rw [buffers dp member]
  exact congrArg some stored

theorem chunkedObject_grid {object : MetaData} {dims : List Nat} (numDims : object.numDims = dims.length)
    (sizes : object.dims = some (dims.map (fun dim : Nat => (dim : Int))++[0])) (numElems : object.numElems = (dims.prod : Nat))
    (count : object.chunkedInfo.numChunkedDims = dims.length)
    (chunkSizes : object.chunkedInfo.chunkedDims = some (chunkDims.map (fun dim : Nat => (dim : Int))++[0]))
    (elems : object.chunkedInfo.numChunkedElems = (chunkDims.prod : Nat))
    (updates : object.chunkedInfo.chunkUpdate = some ((List.range (dims.length+1)).map
      (makeChunkedUpdates (fun _ => 0) (sizeAt chunkDims) (sizeAt dims) dims.length))) :
    chunkedObject object = gridOf dims chunkDims := by
  have update (k : Nat) : ((List.range (dims.length+1)).map
      (makeChunkedUpdates (fun _ => 0) (sizeAt chunkDims) (sizeAt dims) dims.length)).getD k 0 =
        makeChunkedUpdates (fun _ => 0) (sizeAt chunkDims) (sizeAt dims) dims.length k := by
    rw [List.getD_eq_getElem?_getD]
    by_cases below : k < dims.length+1
    · rw [List.getElem?_map,List.getElem?_range below]
      rfl
    · rw [List.getElem?_eq_none (by simpa using below)]
      exact (if_neg (by omega)).symm
  unfold chunkedObject gridOf
  simp only [numDims,sizes,numElems,count,chunkSizes,elems,updates,Option.getD_some,sizes_getD,update]

theorem fetchData_chunked {object : MetaData} (layout : object.layoutClass = 2) : fetchData file chunked object =
    (chunked object).bind fun result => some (if result.1 ≠ 0 then 1 else 0,{object with
      data:=result.2.data,subObjectHeaderOffsets:=result.2.subObjectHeaderOffsets}) := by
  unfold fetchData
  rw [layout]
  rfl

theorem chunked_reads (gets : ReadsChunks file zlibDecompress threads chunked)
    (stored : ChunkedDataset file zlibDecompress address content) :
    ∃ fields, Reads file chunked address fields ∧ Carries fields content := by
  obtain ⟨described,rank,half,length,layout,chunkDims,treeAddress,level,records,order,stated,same,chunksFull,chunksFew,tree,chunks⟩ :=
    stored
  obtain ⟨fields,collected⟩ := described.collected
  obtain ⟨space,listed,kind,sizes⟩ := described.space
  have few : chunkDims.prod < 2^63 := Nat.lt_of_le_of_lt (Nat.le_mul_of_pos_right _ described.elemSize.1) chunksFew
  have before := order space listed kind
  obtain ⟨class_,count,chunkSizes,elems,updates⟩ := chunks_stated described.valid described.plain collected.acted kind sizes
    described.full described.few before stated chunksFull few
  rw [same] at count updates
  -- The address of the tree is what the layout states.
  have member := before.subset (List.mem_cons_of_mem _ List.mem_cons_self)
  obtain ⟨pointer,shown⟩ := listed_shown described.valid member
  have settled : fields.dataAddress = treeAddress := by
    refine collected.settled.trans (address_settled described.valid member stated.kind ?_ (fun _ _ => ?_) undefAddr)
    · simp [Message.compact,stated.layout]
    · rw [effectOf_chunked (messages_valid described.valid member) shown stated chunksFull few]
      rfl
  have small : content.dims.length ≤ hdf5MaxDims := by
    have valid := messages_valid described.valid listed
    simp only [Message.Valid,kind] at valid
    have counted := congrArg List.length sizes
    rw [Message.sizes,List.length_map,List.length_range,List.length_reverse] at counted
    exact counted ▸ valid.2.1
  have laid := grid_laid rank small same described.full chunksFull half few
  have fits (dp : DataPair) (member : dp ∈ records) : indexBehind (gridOf content.dims chunkDims) dp < 2^63 :=
    grid_fits half (chunks.grid.inside dp member)
  obtain ⟨allocated,whole⟩ : ∃ allocated : MetaData, allocated = {fields with
      data:=some (List.replicate (content.dims.prod*content.elemSize) none)} := ⟨_,rfl⟩
  have object : chunkedObject allocated = gridOf content.dims chunkDims := by
    rw [whole]
    exact chunkedObject_grid collected.numDims collected.dims collected.numElems count chunkSizes elems updates
  have size : maxEstDecompSize allocated = chunkDims.prod*content.elemSize := by
    rw [whole]
    change (fields.chunkedInfo.numChunkedElems*fields.elemSize%2^64).toNat = _
    rw [show fields.chunkedInfo.numChunkedElems = (chunkDims.prod : Nat) from elems,collected.elemSize,← Nat.cast_mul]
    omega
  have inflates : ∀ dp ∈ records, (libdeflateOf file zlibDecompress allocated).result dp = .success := by
    intro dp member
    change (zlibDecompress (chunkBytes file dp) (maxEstDecompSize allocated)).1 = .success
    rw [size]
    exact chunks.inflates dp member
  have elemSize : allocated.elemSize = content.elemSize := by rw [whole]; exact collected.elemSize
  have buffers : ∀ dp ∈ records, (libdeflateOf file zlibDecompress allocated).buffer dp =
      elementAt content.elemSize (zlibDecompress (chunkBytes file dp) (chunkDims.prod*content.elemSize)).2 := by
    intro dp _
    change elementAt allocated.elemSize (zlibDecompress (chunkBytes file dp) (maxEstDecompSize allocated)).2 = _
    rw [size,elemSize]
  have address_ : allocated.dataAddress = treeAddress := by rw [whole]; exact settled
  -- The read comes to an end, and so does chunked.
  obtain ⟨tables,walked,registered⟩ := fillNode_tree tree.1 (Nat.lt_succ_self (level+1)) .root (emptyTables noPages)
  obtain ⟨data,completes⟩ := read_completes laid walked registered
    (fun _ member => chunks.grid.chunkFits laid fits member) inflates (threads allocated)
  rw [← object,← address_] at completes
  obtain ⟨⟨code,arrays⟩,got,pages,data,ran,rfl⟩ := gets allocated
    (by rw [whole]; exact collected.classID ▸ described.elements) (by rw [whole]; exact collected.order)
    ⟨(0,arraysOf allocated data),noPages,data,completes,rfl⟩
  rw [object,address_] at ran
  obtain ⟨zero,assembled⟩ := ran_assembled laid tree.1 chunks.grid fits inflates ran
  have bytes := bytes_of_elements described.elemSize.1 length fun p below =>
    assembled_elements laid described.full buffers chunks assembled below
  have arrays : arraysOf allocated data = ⟨some (content.data.map some),fields.subObjectHeaderOffsets⟩ := by
    unfold arraysOf
    rw [elemSize,whole]
    change DataArrays.mk (some ((List.range (fields.numElems.toNat*content.elemSize)).map _)) fields.subObjectHeaderOffsets = _
    rw [collected.numElems,Int.toNat_natCast,bytes]
  obtain rfl : code = 0 := zero
  refine collected.carried described ?_
  rw [← whole,fetchData_chunked (by rw [whole]; exact class_),got,arrays,whole]
  rfl

-- An array as a file has it.
inductive StoredArray (file : MatFile) (zlibDecompress : ZlibDecompress) (address : Nat) (content : Content) : Prop where
  | whole (dataset : Dataset file address content)
  | chunked (dataset : ChunkedDataset file zlibDecompress address content)

theorem array_reads (gets : ReadsChunks file zlibDecompress threads chunked)
    (stored : StoredArray file zlibDecompress address content) :
    ∃ fields, Reads file chunked address fields ∧ Carries fields content := by
  cases stored with
  | whole dataset => exact dataset_reads dataset
  | chunked dataset => exact chunked_reads gets dataset

end Assembly

end GetMatVar
