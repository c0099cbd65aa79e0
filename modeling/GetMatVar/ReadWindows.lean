import GetMatVar.CreateDataObjects
import GetMatVar.FillNode
import GetMatVar.Library.Logged

namespace GetMatVar
namespace ReadWindows
open Logged

-- What st_navigateTo is asked for.
structure Window where
  address : Nat
  bytesNeeded : Nat
deriving DecidableEq,Repr

-- Bytes read through the pointer that st_navigateTo returns.
structure Read where
  window : Window
  offset : Nat
  size : Nat
deriving DecidableEq,Repr

def Read.Inside (read : Read) : Prop := read.offset+read.size ≤ read.window.bytesNeeded

def toSize (number : Int) : Nat := (number%2^64).toNat

section Reads
variable (file : MatFile)

namespace Window
variable (window : Window)

def number (offset size : Nat) : Logged Read Nat := do
  tell ⟨window,offset,size⟩
  pure (file.number (window.address+offset) size)

def storedAddress (offset : Nat) : Logged Read Nat := do
  tell ⟨window,offset,file.sBlock.sizeOfOffsets⟩
  pure (file.address (window.address+offset))

def shows (text : String) : Logged Read Bool := do
  tell ⟨window,0,4⟩
  pure (file.shows window.address text)

end Window

section Group
variable (visit : Nat → Nat → Nat → Heap → Logged Read (Nat × Heap)) (object : Nat)

def readSymbolsReads (snod : Window) (heapDataSegmentAddress : Nat) : Nat → Heap → Logged Read (Nat × Heap)
  | 0,heap => pure (0,heap)
  | i+1,heap => do
    let entry := 8+i*file.sBlock.symTableEntrySize
    let nameOffset ← snod.number file entry file.sBlock.sizeOfOffsets
    let subObjAddress ← snod.storedAddress file (entry+file.sBlock.sizeOfOffsets)
    let name ← lift (file.text (heapDataSegmentAddress+nameOffset))
    let cacheType ← snod.number file (entry+2*file.sBlock.sizeOfOffsets) 4
    let (subObject,heap) ← lift (connectSubObject heap object subObjAddress name)
    let heap := heap.register subObject
    if cacheType = 1 then do
      let subTreeAddress ← snod.storedAddress file (entry+2*file.sBlock.sizeOfOffsets+8)
      let subHeapAddress ← snod.storedAddress file (entry+3*file.sBlock.sizeOfOffsets+8)
      let (code,heap) ← visit subObject subTreeAddress subHeapAddress heap
      if code ≠ 0 then pure (1,heap) else readSymbolsReads snod heapDataSegmentAddress i heap
    else if cacheType = 2 then pure (1,heap)
    else readSymbolsReads snod heapDataSegmentAddress i heap

def totalSnodSize (numSymbols : Nat) : Nat :=
  toSize (8+(numSymbols-1)*file.sBlock.symTableEntrySize+3*file.sBlock.sizeOfOffsets+8+file.sBlock.sizeOfOffsets)

def readSnodReads (nodeAddress heapAddress : Nat) (heap : Heap) : Logged Read (Nat × Heap) := do
  let head : Window := ⟨nodeAddress,8⟩
  let isTree ← head.shows file "TREE"
  if isTree then do
    let (_,heap) ← visit object nodeAddress heapAddress heap
    pure (0,heap)
  else do
    let numSymbols ← head.number file 6 2
    let localHeap : Window := ⟨heapAddress,8+2*file.sBlock.sizeOfLengths+file.sBlock.sizeOfOffsets⟩
    let _ ← localHeap.number file 8 file.sBlock.sizeOfLengths
    let heapDataSegmentAddress ← localHeap.storedAddress file (8+2*file.sBlock.sizeOfLengths)
    readSymbolsReads file visit object ⟨nodeAddress,totalSnodSize file numSymbols⟩ heapDataSegmentAddress numSymbols heap

end Group

-- The first loop of readTreeNode; entries are left behind key_address.
def subNodesReads (nodeAddress totalSize : Nat) : Nat → Nat → Logged Read (List Nat)
  | 0,_ => pure []
  | left+1,keyAddress => do
    let key : Window := ⟨keyAddress,toSize (totalSize-(keyAddress-nodeAddress))⟩
    let address ← key.storedAddress file file.sBlock.sizeOfLengths
    let rest ← subNodesReads nodeAddress totalSize left (keyAddress+(file.sBlock.sizeOfLengths+file.sBlock.sizeOfOffsets))
    pure (address::rest)

def readSubNodesReads (visit : Nat → Nat → Nat → Heap → Logged Read (Nat × Heap)) (object heapAddress : Nat) :
    List Nat → Heap → Logged Read (Nat × Heap)
  | [],heap => pure (0,heap)
  | address::rest,heap => do
    let (code,heap) ← readSnodReads file visit object address heapAddress heap
    if code ≠ 0 then pure (1,heap) else readSubNodesReads visit object heapAddress rest heap

def totalSize (entriesUsed : Nat) : Nat :=
  toSize (entriesUsed*(file.sBlock.sizeOfLengths+file.sBlock.sizeOfOffsets)+8+2*file.sBlock.sizeOfOffsets)

def readTreeNodeReads : Nat → Nat → Nat → Nat → Heap → Logged Read (Nat × Heap)
  | 0,_,_,_,_ => stop
  | fuel+1,object,nodeAddress,heapAddress,heap => do
    let entriesUsed ← Window.number file ⟨nodeAddress,8⟩ 6 2
    if 0 < entriesUsed then do
      let addresses ← subNodesReads file nodeAddress (totalSize file entriesUsed) entriesUsed
        (nodeAddress+8+2*file.sBlock.sizeOfOffsets)
      readSubNodesReads file (readTreeNodeReads fuel) object heapAddress addresses heap
    else pure (1,heap)

section Chunks

def recordReads (keys : Window) (keyOffset address numChunkedDims : Nat) : Logged Read DataPair := do
  let _ ← keys.number file keyOffset 4
  tellAll ((List.range numChunkedDims).map fun j => ⟨keys,keyOffset+8+j*8,8⟩)
  pure (readRecord file (keys.address+keyOffset) address numChunkedDims)

-- key_pointer as an offset from where the keys begin.
def fillEntriesReads (visit : Nat → ChunkTables → Logged Read (Nat × NodeType × ChunkTables)) (numChunkedDims : Nat)
    (keys : Window) : Nat → Nat → ChunkTables → Logged Read (Nat × ChunkTables)
  | 0,_,tables => pure (0,tables)
  | left+1,keyOffset,tables => do
    let address ← keys.storedAddress file (keyOffset+keySize numChunkedDims)
    let (code,nodeType,tables) ← visit address tables
    if code ≠ 0 then pure (1,tables)
    else if nodeType = .rawData then do
      let dp ← recordReads file keys keyOffset address numChunkedDims
      let tables ← lift (registerRecord file tables dp)
      fillEntriesReads visit numChunkedDims keys left (keyOffset+keySize numChunkedDims+file.sBlock.sizeOfOffsets) tables
    else fillEntriesReads visit numChunkedDims keys left (keyOffset+keySize numChunkedDims+file.sBlock.sizeOfOffsets) tables

def totalBytesNeeded (numChunkedDims entriesUsed : Nat) : Nat :=
  toSize ((entriesUsed+1)*keySize numChunkedDims+entriesUsed*file.sBlock.sizeOfOffsets)

def fillNodeReads (numChunkedDims : Nat) : Nat → NodeType → Nat → ChunkTables → Logged Read (Nat × NodeType × ChunkTables)
  | 0,_,_,_ => stop
  | fuel+1,nodeType,address,tables =>
    if address = undefAddr then pure (0,nodeType,tables)
    else do
      let head : Window := ⟨address,file.allocGran⟩
      let isTree ← head.shows file "TREE"
      if isTree = false then do
        let isSymbols ← head.shows file "SNOD"
        pure (0,if isSymbols then .symbol else .rawData,tables)
      else do
        let stored ← head.number file 4 1
        let entriesUsed ← head.number file 6 2
        if nodeTypeOf stored ≠ .chunk then pure (1,nodeTypeOf stored,tables)
        else do
          let (code,tables) ← fillEntriesReads file (fillNodeReads numChunkedDims fuel .undefined) numChunkedDims
            ⟨address+8+2*file.sBlock.sizeOfOffsets,totalBytesNeeded file numChunkedDims entriesUsed⟩ entriesUsed 0 tables
          pure (code,nodeTypeOf stored,tables)

end Chunks
end Reads

section Erasure
variable {file : MatFile}

@[simp] theorem number_result (window : Window) (offset size : Nat) :
    (window.number file offset size).result = some (file.number (window.address+offset) size) := rfl

@[simp] theorem storedAddress_result (window : Window) (offset : Nat) :
    (window.storedAddress file offset).result = some (file.address (window.address+offset)) := rfl

@[simp] theorem shows_result (window : Window) (text : String) :
    (window.shows file text).result = some (file.shows window.address text) := rfl

section Group
variable {visit : Nat → Nat → Nat → Heap → Logged Read (Nat × Heap)} {visited : Nat → Nat → Nat → Heap → Option (Nat × Heap)}

theorem readSymbols_result (same : ∀ object node heapAddress heap,
      (visit object node heapAddress heap).result = visited object node heapAddress heap)
    (object nodeAddress heapAddress bytesNeeded count : Nat) (heap : Heap) :
    (readSymbolsReads file visit object ⟨nodeAddress,bytesNeeded⟩ (heapDataSegment file heapAddress) count heap).result =
      readSymbols file visited object nodeAddress heapAddress count heap := by
  induction count generalizing heap with
  | zero => rfl
  | succ i ih =>
    -- An offset from snod_pointer is a place in the file.
    have entry : nodeAddress+(8+i*file.sBlock.symTableEntrySize) = symbolEntry file nodeAddress i := by
      unfold symbolEntry
      omega
    have field (k : Nat) : nodeAddress+(8+i*file.sBlock.symTableEntrySize+k) = symbolEntry file nodeAddress i+k := by omega
    have scratch (k l : Nat) : nodeAddress+(8+i*file.sBlock.symTableEntrySize+k+l) = symbolEntry file nodeAddress i+k+l := by
      omega
    simp only [readSymbolsReads,readSymbols,bind_result,number_result,storedAddress_result,lift_result,Option.bind_some,
      Option.bind_eq_bind,field,entry]
    congr 1
    funext name
    congr 1
    funext connected
    split
    · simp only [bind_result,storedAddress_result,Option.bind_some,same,scratch]
      congr 1
      funext walked
      split
      · rfl
      · exact ih walked.2
    · split
      · rfl
      · exact ih _

theorem readSnod_result (same : ∀ object node heapAddress heap,
      (visit object node heapAddress heap).result = visited object node heapAddress heap)
    (object nodeAddress heapAddress : Nat) (heap : Heap) :
    (readSnodReads file visit object nodeAddress heapAddress heap).result =
      readSnod file visited object nodeAddress heapAddress heap := by
  simp only [readSnodReads,readSnod,bind_result,shows_result,Option.bind_some]
  split
  · simp only [bind_result,same]
    rfl
  · have segment : file.address (heapAddress+(8+2*file.sBlock.sizeOfLengths)) = heapDataSegment file heapAddress := by
      unfold heapDataSegment
      rw [Nat.add_assoc]
    simp only [bind_result,number_result,storedAddress_result,Option.bind_some,segment]
    exact readSymbols_result same object nodeAddress heapAddress _ _ heap

theorem readSubNodes_result (same : ∀ object node heapAddress heap,
      (visit object node heapAddress heap).result = visited object node heapAddress heap)
    (object heapAddress : Nat) (addresses : List Nat) (heap : Heap) :
    (readSubNodesReads file visit object heapAddress addresses heap).result =
      readSubNodes file visited object heapAddress addresses heap := by
  induction addresses generalizing heap with
  | nil => rfl
  | cons address rest ih =>
    simp only [readSubNodesReads,readSubNodes,bind_result,readSnod_result same,Option.bind_eq_bind]
    congr 1
    funext walked
    split
    · rfl
    · exact ih walked.2

theorem subNodes_result (nodeAddress totalSize left keyAddress : Nat) :
    (subNodesReads file nodeAddress totalSize left keyAddress).result = some ((List.range left).map fun i =>
      file.address (keyAddress+i*(file.sBlock.sizeOfLengths+file.sBlock.sizeOfOffsets)+file.sBlock.sizeOfLengths)) := by
  induction left generalizing keyAddress with
  | zero => rfl
  | succ left ih =>
    simp only [subNodesReads,bind_result,storedAddress_result,Option.bind_some,ih,pure_result]
    rw [List.range_succ_eq_map,List.map_cons,List.map_map,Nat.zero_mul,Nat.add_zero]
    congr 2
    apply List.map_congr_left
    intro i _
    simp only [Function.comp_apply,Nat.succ_mul]
    congr 1
    omega

end Group

theorem readTreeNode_result (fuel object nodeAddress heapAddress : Nat) (heap : Heap) :
    (readTreeNodeReads file fuel object nodeAddress heapAddress heap).result =
      readTreeNode file fuel object nodeAddress heapAddress heap := by
  induction fuel generalizing object nodeAddress heapAddress heap with
  | zero => rfl
  | succ fuel ih =>
    simp only [readTreeNodeReads,readTreeNode,bind_result,number_result,Option.bind_some]
    split
    · simp only [bind_result,subNodes_result,Option.bind_some]
      exact readSubNodes_result ih object heapAddress _ heap
    · rfl

theorem fillEntries_result {visit : Nat → ChunkTables → Logged Read (Nat × NodeType × ChunkTables)}
    {visited : Nat → ChunkTables → Option (Nat × NodeType × ChunkTables)}
    (same : ∀ address tables, (visit address tables).result = visited address tables)
    (numChunkedDims : Nat) (keys : Window) (left keyOffset : Nat) (tables : ChunkTables) :
    (fillEntriesReads file visit numChunkedDims keys left keyOffset tables).result =
      fillEntries file visited numChunkedDims left (keys.address+keyOffset) tables := by
  induction left generalizing keyOffset tables with
  | zero => rfl
  | succ left ih =>
    simp only [fillEntriesReads,fillEntries,bind_result,storedAddress_result,Option.bind_some,same,Option.bind_eq_bind,
      ← Nat.add_assoc]
    congr 1
    funext entry
    split
    · rfl
    · split
      · simp only [bind_result,recordReads,number_result,tellAll_result,pure_result,lift_result,Option.bind_some]
        congr 1
        funext registered
        rw [ih]
        congr 1
        omega
      · rw [ih]
        congr 1
        omega

theorem fillNode_result (numChunkedDims fuel : Nat) (nodeType : NodeType) (address : Nat) (tables : ChunkTables) :
    (fillNodeReads file numChunkedDims fuel nodeType address tables).result =
      fillNode file numChunkedDims fuel nodeType address tables := by
  induction fuel generalizing nodeType address tables with
  | zero => rfl
  | succ fuel ih =>
    rw [fillNodeReads,fillNode]
    split
    · rfl
    · simp only [bind_result,shows_result,Option.bind_some]
      split
      · rfl
      · simp only [bind_result,number_result,Option.bind_some]
        split
        · rfl
        · rw [bind_result,fillEntries_result fun address tables => ih .undefined address tables]
          rfl

end Erasure

section Inside
variable {file : MatFile}

theorem only_number (window : Window) (offset size : Nat) :
    Only Read.Inside (window.number file offset size) ↔ offset+size ≤ window.bytesNeeded := by
  unfold Window.number
  rw [only_tell_bind]
  exact and_iff_left (only_pure _)

theorem only_storedAddress (window : Window) (offset : Nat) :
    Only Read.Inside (window.storedAddress file offset) ↔ offset+file.sBlock.sizeOfOffsets ≤ window.bytesNeeded := by
  unfold Window.storedAddress
  rw [only_tell_bind]
  exact and_iff_left (only_pure _)

theorem only_shows (window : Window) (text : String) :
    Only Read.Inside (window.shows file text) ↔ 4 ≤ window.bytesNeeded := by
  unfold Window.shows
  rw [only_tell_bind]
  exact (and_iff_left (only_pure _)).trans (by simp [Read.Inside])

theorem toSize_small {number : Nat} (small : number < 2^64) : toSize number = number := by
  unfold toSize
  omega

-- The sizes that a superblock of a readable file gives, and a page that a node's head fits in.
structure Sized (file : MatFile) : Prop where
  offsets : file.sBlock.sizeOfOffsets ≤ 255
  lengths : file.sBlock.sizeOfLengths ≤ 255
  entry : file.sBlock.symTableEntrySize = 2*file.sBlock.sizeOfOffsets+24
  page : 8 ≤ file.allocGran

section Group
variable {visit : Nat → Nat → Nat → Heap → Logged Read (Nat × Heap)}

theorem number_two (pointer : Nat) : file.number pointer 2 < 65536 := littleEndian_bound file.bytes pointer 2

theorem totalSnodSize_exact (sized : Sized file) (few : numSymbols < 65536) (used : i < numSymbols) :
    totalSnodSize file numSymbols =
      8+(numSymbols-1)*file.sBlock.symTableEntrySize+4*file.sBlock.sizeOfOffsets+8 := by
  have offsets := sized.offsets
  have entry : file.sBlock.symTableEntrySize ≤ 534 := by
    rw [sized.entry]
    omega
  have product : (numSymbols-1)*file.sBlock.symTableEntrySize ≤ 65535*534 := Nat.mul_le_mul (by omega) entry
  have cast_ : ((numSymbols-1 : Nat) : Int) = (numSymbols : Int)-1 := by omega
  have total := @toSize_small (8+(numSymbols-1)*file.sBlock.symTableEntrySize+3*file.sBlock.sizeOfOffsets+8+
    file.sBlock.sizeOfOffsets) (by omega)
  unfold totalSnodSize
  push_cast [cast_] at total
  rw [total]
  omega

theorem readSymbols_inside (sized : Sized file) (few : numSymbols < 65536) (inside : ∀ object node heapAddress heap,
      Only Read.Inside (visit object node heapAddress heap))
    (object nodeAddress segment : Nat) (most : count ≤ numSymbols) (heap : Heap) :
    Only Read.Inside (readSymbolsReads file visit object ⟨nodeAddress,totalSnodSize file numSymbols⟩ segment count heap) := by
  induction count generalizing heap with
  | zero => exact only_pure _
  | succ i ih =>
    have total := totalSnodSize_exact sized few most
    have before : i*file.sBlock.symTableEntrySize ≤ (numSymbols-1)*file.sBlock.symTableEntrySize :=
      Nat.mul_le_mul_right _ (by omega)
    have next := ih (Nat.le_of_succ_le most)
    simp only [readSymbolsReads,only_bind,only_number,only_storedAddress,only_lift,true_and]
    refine ⟨by omega,fun _ _ => ⟨by omega,fun _ _ _ _ => ⟨by omega,fun _ _ connected _ => ?_⟩⟩⟩
    split
    · simp only [only_bind,only_storedAddress]
      refine ⟨by omega,fun _ _ => ⟨by omega,fun _ _ => ⟨inside _ _ _ _,fun walked _ => ?_⟩⟩⟩
      split
      · exact only_pure _
      · exact next walked.2
    · split
      · exact only_pure _
      · exact next _

theorem readSnod_inside (sized : Sized file) (inside : ∀ object node heapAddress heap,
      Only Read.Inside (visit object node heapAddress heap)) (object nodeAddress heapAddress : Nat) (heap : Heap) :
    Only Read.Inside (readSnodReads file visit object nodeAddress heapAddress heap) := by
  simp only [readSnodReads,only_bind,only_shows]
  refine ⟨by omega,fun isTree _ => ?_⟩
  split
  · rw [only_bind]
    exact ⟨inside _ _ _ _,fun _ _ => only_pure _⟩
  · simp only [only_bind,only_number,only_storedAddress]
    refine ⟨by omega,fun numSymbols stated => ⟨by omega,fun _ _ => ⟨by omega,fun segment _ => ?_⟩⟩⟩
    have few : numSymbols < 65536 := Option.some.inj stated ▸ number_two _
    exact readSymbols_inside sized few inside object nodeAddress segment (Nat.le_refl _) heap

theorem readSubNodes_inside (sized : Sized file) (inside : ∀ object node heapAddress heap,
      Only Read.Inside (visit object node heapAddress heap)) (object heapAddress : Nat) (addresses : List Nat) (heap : Heap) :
    Only Read.Inside (readSubNodesReads file visit object heapAddress addresses heap) := by
  induction addresses generalizing heap with
  | nil => exact only_pure _
  | cons address rest ih =>
    simp only [readSubNodesReads,only_bind]
    refine ⟨readSnod_inside sized inside object address heapAddress heap,fun walked _ => ?_⟩
    split
    · exact only_pure _
    · exact ih walked.2

theorem subNodes_inside (nodeAddress : Nat) (small : size < 2^64)
    (room : size = keyAddress-nodeAddress+left*(file.sBlock.sizeOfLengths+file.sBlock.sizeOfOffsets))
    (behind : nodeAddress ≤ keyAddress) : Only Read.Inside (subNodesReads file nodeAddress size left keyAddress) := by
  induction left generalizing keyAddress with
  | zero => exact only_pure _
  | succ left ih =>
    have product : (left+1)*(file.sBlock.sizeOfLengths+file.sBlock.sizeOfOffsets) =
        left*(file.sBlock.sizeOfLengths+file.sBlock.sizeOfOffsets)+(file.sBlock.sizeOfLengths+file.sBlock.sizeOfOffsets) :=
      Nat.succ_mul _ _
    have window : toSize (size-(keyAddress-nodeAddress)) =
        (left+1)*(file.sBlock.sizeOfLengths+file.sBlock.sizeOfOffsets) := by
      unfold toSize
      omega
    simp only [subNodesReads,only_bind,only_storedAddress,window]
    refine ⟨by omega,fun _ _ => ⟨?_,fun _ _ => only_pure _⟩⟩
    apply ih
    · omega
    · omega

end Group

theorem readTreeNode_inside (sized : Sized file) (fuel object nodeAddress heapAddress : Nat) (heap : Heap) :
    Only Read.Inside (readTreeNodeReads file fuel object nodeAddress heapAddress heap) := by
  induction fuel generalizing object nodeAddress heapAddress heap with
  | zero => exact only_stop
  | succ fuel ih =>
    simp only [readTreeNodeReads,only_bind,only_number]
    refine ⟨by omega,fun entriesUsed stated => ?_⟩
    have few : entriesUsed < 65536 := Option.some.inj stated ▸ number_two _
    split
    · rw [only_bind]
      refine ⟨?_,fun addresses _ => readSubNodes_inside sized ih object heapAddress addresses heap⟩
      have offsets := sized.offsets
      have lengths := sized.lengths
      have product : entriesUsed*(file.sBlock.sizeOfLengths+file.sBlock.sizeOfOffsets) ≤ 65535*510 :=
        Nat.mul_le_mul (by omega) (by omega)
      have total := @toSize_small (entriesUsed*(file.sBlock.sizeOfLengths+file.sBlock.sizeOfOffsets)+8+
        2*file.sBlock.sizeOfOffsets) (by omega)
      push_cast at total
      unfold totalSize
      rw [total]
      apply subNodes_inside
      · omega
      · omega
      · omega
    · exact only_pure _

theorem record_inside (keys : Window) (room : keyOffset+keySize numChunkedDims ≤ keys.bytesNeeded)
    (address : Nat) : Only Read.Inside (recordReads file keys keyOffset address numChunkedDims) := by
  unfold keySize at room
  simp only [recordReads,only_bind,only_number,only_tellAll]
  refine ⟨by omega,fun _ _ => ⟨fun event member => ?_,fun _ _ => only_pure _⟩⟩
  obtain ⟨j,below,rfl⟩ := List.mem_map.mp member
  have less := List.mem_range.mp below
  change keyOffset+8+j*8+8 ≤ keys.bytesNeeded
  omega

theorem fillEntries_inside {visit : Nat → ChunkTables → Logged Read (Nat × NodeType × ChunkTables)}
    (inside : ∀ address tables, Only Read.Inside (visit address tables)) (numChunkedDims : Nat) (keys : Window)
    (room : keyOffset+left*(keySize numChunkedDims+file.sBlock.sizeOfOffsets)+keySize numChunkedDims ≤ keys.bytesNeeded)
    (tables : ChunkTables) : Only Read.Inside (fillEntriesReads file visit numChunkedDims keys left keyOffset tables) := by
  induction left generalizing keyOffset tables with
  | zero => exact only_pure _
  | succ left ih =>
    have product : (left+1)*(keySize numChunkedDims+file.sBlock.sizeOfOffsets) =
        left*(keySize numChunkedDims+file.sBlock.sizeOfOffsets)+(keySize numChunkedDims+file.sBlock.sizeOfOffsets) :=
      Nat.succ_mul _ _
    have next := @ih (keyOffset+keySize numChunkedDims+file.sBlock.sizeOfOffsets) (by omega)
    simp only [fillEntriesReads,only_bind,only_storedAddress]
    refine ⟨by omega,fun address _ => ⟨inside _ _,fun entry _ => ?_⟩⟩
    split
    · exact only_pure _
    · split
      · simp only [only_bind,only_lift,true_and]
        exact ⟨record_inside keys (by omega) address,fun _ _ tables _ => next tables⟩
      · exact next _

theorem fillNode_inside (sized : Sized file) (few : numChunkedDims ≤ 255) (fuel : Nat) (nodeType : NodeType) (address : Nat)
    (tables : ChunkTables) : Only Read.Inside (fillNodeReads file numChunkedDims fuel nodeType address tables) := by
  induction fuel generalizing nodeType address tables with
  | zero => exact only_stop
  | succ fuel ih =>
    have page := sized.page
    rw [fillNodeReads]
    split
    · exact only_pure _
    · simp only [only_bind,only_shows]
      refine ⟨by omega,fun _ _ => ?_⟩
      split
      · simp only [only_bind,only_shows]
        exact ⟨by omega,fun _ _ => only_pure _⟩
      · simp only [only_bind,only_number]
        refine ⟨by omega,fun _ _ => ⟨by omega,fun entriesUsed stated => ?_⟩⟩
        have used : entriesUsed < 65536 := Option.some.inj stated ▸ number_two _
        split
        · exact only_pure _
        · rw [only_bind]
          refine ⟨?_,fun _ _ => only_pure _⟩
          apply fillEntries_inside fun address tables => ih .undefined address tables
          have offsets := sized.offsets
          have key : keySize numChunkedDims ≤ 2056 := by
            unfold keySize
            omega
          have keys : (entriesUsed+1)*keySize numChunkedDims ≤ 65536*2056 := Nat.mul_le_mul (by omega) key
          have stored : entriesUsed*file.sBlock.sizeOfOffsets ≤ 65535*255 := Nat.mul_le_mul (by omega) offsets
          have total := @toSize_small ((entriesUsed+1)*keySize numChunkedDims+entriesUsed*file.sBlock.sizeOfOffsets) (by omega)
          push_cast at total
          have more : (entriesUsed+1)*keySize numChunkedDims = entriesUsed*keySize numChunkedDims+keySize numChunkedDims :=
            Nat.succ_mul _ _
          change 0+_+_ ≤ totalBytesNeeded file numChunkedDims entriesUsed
          unfold totalBytesNeeded
          rw [total,Nat.mul_add,more]
          omega

end Inside

-- Every read of the three walks lies in the window that was asked for, also where a
-- walk does not come to an end.
theorem reads_inside (file : MatFile) (sized : Sized file) (fuel : Nat) :
    (∀ object nodeAddress heapAddress heap,
      Only Read.Inside (readTreeNodeReads file fuel object nodeAddress heapAddress heap)) ∧
    (∀ object nodeAddress heapAddress heap,
      Only Read.Inside (readSnodReads file (readTreeNodeReads file fuel) object nodeAddress heapAddress heap)) ∧
    ∀ numChunkedDims ≤ 255, ∀ nodeType address tables,
      Only Read.Inside (fillNodeReads file numChunkedDims fuel nodeType address tables) :=
  ⟨readTreeNode_inside sized fuel,readSnod_inside sized (readTreeNode_inside sized fuel),
    fun _ few => fillNode_inside sized few fuel⟩

theorem reads_inside_small : Sized smallFile ∧
    Only Read.Inside (readTreeNodeReads smallFile 3 virtualSuperObject 0 smallFile.sBlock.rootHeapAddress startHeap) := by
  have sized : Sized smallFile := by constructor <;> decide
  exact ⟨sized,(reads_inside smallFile sized 3).1 virtualSuperObject 0 _ startHeap⟩

end ReadWindows
end GetMatVar
