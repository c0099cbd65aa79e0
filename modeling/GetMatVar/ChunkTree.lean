import GetMatVar.FillNode
import GetMatVar.ReadMessage

namespace GetMatVar
open PageObjects

section Sentinel
variable {file : MatFile}

-- An address field with all its bytes 0xFF, the undefined address of the format.
def MatFile.StoresUndefined (file : MatFile) (pointer : Nat) : Prop :=
  ∀ k < file.sBlock.sizeOfOffsets, file.bytes (pointer+k) = 0xFF

-- The fields of a file that are decoded into an address, and what becomes of
-- them: the child of an entry in fillNode and the two layouts that name a place.
inductive Decodes (file : MatFile) : Nat → Nat → Prop where
  | child : Decodes file (keyPointer+keySize numChunkedDims) (file.address (keyPointer+keySize numChunkedDims))
  | contiguous : readDataLayoutMessage file msgPointer object = some (0,result) → result.layoutClass = 1 →
      Decodes file (msgPointer+2) result.dataAddress
  | chunked : readDataLayoutMessage file msgPointer object = some (0,result) → result.layoutClass = 2 →
      Decodes file (msgPointer+3) result.dataAddress

-- fillNode leaves an address alone: whatever the file holds, it returns 0, keeps
-- the node and registers nothing.
def LeftAlone (file : MatFile) (address : Nat) : Prop :=
  ∀ bytes numChunkedDims fuel nodeType tables,
    fillNode {file with bytes:=bytes} numChunkedDims (fuel+1) nodeType address tables = some (0,nodeType,tables)

theorem littleEndian_undefined (bytes : FileBytes) (pointer count : Nat)
    (stored : ∀ k < count, bytes (pointer+k) = 0xFF) : littleEndian bytes pointer count+1 = 256^count := by
  induction count generalizing pointer with
  | zero => rfl
  | succ count ih =>
    have first : bytes pointer = 0xFF := stored 0 (Nat.succ_pos count)
    have rest := ih (pointer+1) fun k below => by
      have byte := stored (k+1) (Nat.succ_lt_succ below)
      rwa [show pointer+(k+1) = pointer+1+k by omega] at byte
    have low : (0xFF : UInt8).toNat = 255 := rfl
    simp only [littleEndian,first,low,Nat.pow_succ]
    omega

theorem address_undefined (small : file.sBlock.sizeOfOffsets ≤ 8) (stored : file.StoresUndefined pointer) :
    file.address pointer = undefAddr ↔ (256^file.sBlock.sizeOfOffsets+file.sBlock.baseAddress)%2^addressBits = 0 := by
  have number := littleEndian_undefined file.bytes pointer file.sBlock.sizeOfOffsets stored
  simp only [MatFile.address,MatFile.number,getBytesAsNumber,Nat.min_eq_left small,undefAddr,addressBits]
  omega

theorem layout_address (ran : readDataLayoutMessage file msgPointer object = some (0,result)) :
    (result.layoutClass = 1 → result.dataAddress = file.address (msgPointer+2)) ∧
      (result.layoutClass = 2 → result.dataAddress = file.address (msgPointer+3)) := by
  unfold readDataLayoutMessage at ran
  split at ran
  · cases ran
  · dsimp only at ran
    split at ran
    · rename_i inside
      cases ran
      exact ⟨fun other => absurd (inside.symm.trans other) (by decide),
        fun other => absurd (inside.symm.trans other) (by decide)⟩
    · rename_i contiguous
      cases ran
      exact ⟨fun _ => rfl,fun other => absurd (contiguous.symm.trans other) (by decide)⟩
    · rename_i chunked
      split at ran
      · cases ran
        exact ⟨fun other => absurd (chunked.symm.trans other) (by decide),fun _ => rfl⟩
      · cases ran
    · cases ran

theorem decodes_address (decodes : Decodes file pointer address) : address = file.address pointer := by
  cases decodes with
  | child => rfl
  | contiguous ran layout => exact (layout_address ran).1 layout
  | chunked ran layout => exact (layout_address ran).2 layout

theorem leftAlone_exact : LeftAlone file address ↔ address = undefAddr := by
  constructor
  · intro alone
    apply Classical.byContradiction
    intro defined
    have left := alone (fun _ => 0) 0 0 .undefined (emptyTables fun _ => initializePageObject)
    rw [fillNode,if_neg defined] at left
    simp [MatFile.shows,bytesMatch] at left
  · intro same bytes numChunkedDims fuel nodeType tables
    rw [fillNode,if_pos same]

theorem wrapped_exact (small : file.sBlock.sizeOfOffsets ≤ 8)
    (fits : file.sBlock.baseAddress < 256^file.sBlock.sizeOfOffsets) :
    (256^file.sBlock.sizeOfOffsets+file.sBlock.baseAddress)%2^addressBits = 0 ↔
      file.sBlock.sizeOfOffsets = 8 ∧ file.sBlock.baseAddress = 0 := by
  generalize file.sBlock.sizeOfOffsets = width at small fits ⊢
  have widths : width = 8 ∨ 256^width ≤ 256^7 := by
    by_cases full : width = 8
    · exact .inl full
    · exact .inr (Nat.pow_le_pow_right (by decide) (by omega))
  have positive : 0 < 256^width := Nat.pow_pos (by decide)
  rcases widths with rfl | narrow
  · have full : 256^8 = 2^addressBits := by decide
    rw [full] at fits ⊢
    rw [Nat.add_mod_left,Nat.mod_eq_of_lt fits]
    exact (and_iff_right rfl).symm
  · have sum : 256^width+file.sBlock.baseAddress < 2^addressBits :=
      Nat.lt_of_lt_of_le (Nat.add_lt_add_of_le_of_lt narrow (Nat.lt_of_lt_of_le fits narrow)) (by decide)
    have notFull : width ≠ 8 := by
      rintro rfl
      exact absurd narrow (by decide)
    rw [Nat.mod_eq_of_lt sum]
    exact ⟨fun zero => by omega,fun both => absurd both.1 notFull⟩

-- Only offsets of eight bytes behind a base address of 0 keep the undefined
-- address through the decoding.
theorem undefinedAddress_exact (small : file.sBlock.sizeOfOffsets ≤ 8) (decodes : Decodes file pointer address)
    (stored : file.StoresUndefined pointer) :
    (address = undefAddr ∧ LeftAlone file address ↔
      (256^file.sBlock.sizeOfOffsets+file.sBlock.baseAddress)%2^addressBits = 0) ∧
    (file.sBlock.baseAddress < 256^file.sBlock.sizeOfOffsets →
      (address = undefAddr ∧ LeftAlone file address ↔
        file.sBlock.sizeOfOffsets = 8 ∧ file.sBlock.baseAddress = 0)) := by
  have exact_ : address = undefAddr ∧ LeftAlone file address ↔
      (256^file.sBlock.sizeOfOffsets+file.sBlock.baseAddress)%2^addressBits = 0 := by
    rw [leftAlone_exact,and_self,decodes_address decodes]
    exact address_undefined small stored
  exact ⟨exact_,fun fits => exact_.trans (wrapped_exact small fits)⟩

def blankFile (sBlock : Superblock) : MatFile := ⟨⟨4096,4096,page_granular⟩,fun _ => 0xFF,sBlock⟩

theorem undefinedAddress_blank : (0 : Nat) < 256^8 ∧
    undefAddr = (blankFile ⟨8,8,40,0,0,0⟩).address (0+keySize 2) ∧ LeftAlone (blankFile ⟨8,8,40,0,0,0⟩) undefAddr := by
  have child : Decodes (blankFile ⟨8,8,40,0,0,0⟩) (0+keySize 2) ((blankFile ⟨8,8,40,0,0,0⟩).address (0+keySize 2)) := .child
  have recognised := ((undefinedAddress_exact (by decide) child fun _ _ => rfl).2 (by decide)).mpr ⟨rfl,rfl⟩
  exact ⟨by decide,recognised.1.symm,recognised.1 ▸ recognised.2⟩

-- Behind a user block of 512 bytes the undefined child becomes address 511, and
-- the bytes there are taken for a chunk.
theorem userBlock_misread :
    (¬ ∀ (file : MatFile) (pointer address : Nat), file.sBlock.sizeOfOffsets ≤ 8 → Decodes file pointer address →
      file.StoresUndefined pointer → address = undefAddr ∧ LeftAlone file address) ∧
    (fillEntries (blankFile ⟨8,8,40,512,0,0⟩) (fillNode (blankFile ⟨8,8,40,512,0,0⟩) 2 1 .undefined) 2 1 0
      (emptyTables fun _ => initializePageObject)).map
        (fun walked => (walked.1,(walked.2.buckets 0).live.map DataPair.address)) = some (0,[511]) := by
  refine ⟨fun always => ?_,by decide⟩
  have child : Decodes (blankFile ⟨8,8,40,512,0,0⟩) (0+keySize 2)
      ((blankFile ⟨8,8,40,512,0,0⟩).address (0+keySize 2)) := .child
  have recognised := always _ _ _ (by decide) child fun _ _ => rfl
  exact absurd recognised.1 (by decide)

end Sentinel

-- One key of a chunk node: the size of the chunk behind it and the offsets of
-- the chunk as they are stored, the slowest dimension first.
structure ChunkKey where
  size : Nat
  offsets : List Nat
deriving DecidableEq,Repr

def ChunkKey.record (key : ChunkKey) (address : Nat) : DataPair :=
  ⟨address,key.size,(key.offsets.map toIndex).reverse++[0]⟩

section WellFormed
variable (file : MatFile) (numChunkedDims : Nat)

-- The first two bytes of a zlib stream: deflate with a window of at most 32 KiB,
-- and a multiple of 31 when they are read as a big-endian number.
def ZlibStream (address : Nat) : Prop :=
  file.byte address%16 = 8 ∧ file.byte address/16 ≤ 7 ∧ (256*file.byte address+file.byte (address+1))%31 = 0

def KeyAt (keyPointer : Nat) (key : ChunkKey) : Prop :=
  key.size = file.number keyPointer 4 ∧ key.offsets.length = numChunkedDims ∧
    ∀ j < numChunkedDims, key.offsets[j]? = some (file.number (keyPointer+8+j*8) 8)

def LeafAt (key : ChunkKey) (address : Nat) (records : List DataPair) : Prop :=
  address ≠ undefAddr ∧ address < file.fileSize ∧ ZlibStream file address ∧ records = [key.record address]

-- The entries of a node: keys and children alternate, and a child is stored
-- relative to the base address.
inductive EntriesAt (below : ChunkKey → Nat → List DataPair → Prop) : Nat → Nat → List DataPair → Prop where
  | nil : EntriesAt below 0 keyPointer []
  | cons : KeyAt file numChunkedDims keyPointer key →
      below key ((file.number (keyPointer+keySize numChunkedDims) file.sBlock.sizeOfOffsets+
        file.sBlock.baseAddress)%2^addressBits) records →
      EntriesAt below left (keyPointer+keySize numChunkedDims+file.sBlock.sizeOfOffsets) rest →
      EntriesAt below (left+1) keyPointer (records++rest)

structure NodeAt (below : ChunkKey → Nat → List DataPair → Prop) (level address : Nat) (records : List DataPair) : Prop where
  defined : address ≠ undefAddr
  signature : file.shows address "TREE" = true
  kind : file.number (address+4) 1 = 1
  height : file.number (address+5) 1 = level
  entries : EntriesAt file numChunkedDims below (file.number (address+6) 2) (address+8+2*file.sBlock.sizeOfOffsets) records

-- A chunk B-tree with its root at an address, and the records of its leaf
-- entries in the order of the tree.
def ChunkNode : Nat → Nat → List DataPair → Prop
  | 0,address,records => NodeAt file numChunkedDims (LeafAt file) 0 address records
  | level+1,address,records => NodeAt file numChunkedDims (fun _ => ChunkNode level) (level+1) address records

def ChunkBTree (level address : Nat) (records : List DataPair) : Prop :=
  ChunkNode file numChunkedDims level address records ∧ (records.map DataPair.address).Nodup

end WellFormed

section Walk
variable {file : MatFile}

theorem readRecord_key (stored : KeyAt file numChunkedDims keyPointer key) :
    readRecord file keyPointer address numChunkedDims = key.record address := by
  obtain ⟨size,length,offsets⟩ := stored
  have reversed : (List.range numChunkedDims).map
      (fun k => toIndex (file.number (keyPointer+8+(numChunkedDims-1-k)*8) 8)) = (key.offsets.map toIndex).reverse := by
    apply List.ext_getElem
    · simp [length]
    · intro k left _
      have below : k < numChunkedDims := by simpa using left
      have offset := offsets (numChunkedDims-1-k) (by omega)
      have here : numChunkedDims-1-k < key.offsets.length := by omega
      rw [List.getElem?_eq_getElem here,Option.some.injEq] at offset
      simp only [List.getElem_map,List.getElem_range,List.getElem_reverse,List.length_map,length,offset]
  simp only [readRecord,ChunkKey.record,size,reversed]

theorem zlib_shows (stream : ZlibStream file address) : file.shows address "TREE" = false ∧ file.shows address "SNOD" = false := by
  have first := stream.1
  have head (letter : UInt8) (other : letter.toNat%16 ≠ 8) : (file.bytes address == letter) = false := by
    apply beq_false_of_ne
    rintro same
    rw [MatFile.byte,same] at first
    exact other first
  have tree : "TREE".toList.map (fun char => UInt8.ofNat char.toNat) = [84,82,69,69] := by decide
  have snod : "SNOD".toList.map (fun char => UInt8.ofNat char.toNat) = [83,78,79,68] := by decide
  constructor
  · rw [MatFile.shows,tree,bytesMatch,head 84 (by decide),Bool.false_and]
  · rw [MatFile.shows,snod,bytesMatch,head 83 (by decide),Bool.false_and]

theorem fillEntries_wellFormed {visit : Nat → ChunkTables → Option (Nat × NodeType × ChunkTables)}
    (visits : ∀ keyPointer key address records tables, KeyAt file numChunkedDims keyPointer key → below key address records →
      ∃ nodeType visited added, visit address tables = some (0,nodeType,visited) ∧
        (if nodeType = .rawData then registerRecord file visited (readRecord file keyPointer address numChunkedDims)
          else some visited) = some added ∧ registerAll file tables records = some added)
    (entries : EntriesAt file numChunkedDims below left keyPointer records) (tables : ChunkTables) :
    ∃ after, fillEntries file visit numChunkedDims left keyPointer tables = some (0,after) ∧
      registerAll file tables records = some after := by
  induction entries generalizing tables with
  | nil => exact ⟨tables,rfl,rfl⟩
  | cons stored child _ ih =>
    obtain ⟨nodeType,visited,added,visiting,adding,registered⟩ :=
      visits _ _ (file.address _) _ tables stored child
    obtain ⟨after,walked,rest⟩ := ih added
    refine ⟨after,?_,?_⟩
    · simp only [fillEntries,visiting,Option.bind_eq_bind,Option.bind_some,ne_eq,not_true_eq_false,if_false]
      by_cases leaf : nodeType = .rawData
      · rw [if_pos leaf] at adding ⊢
        exact Option.bind_eq_some_iff.mpr ⟨added,adding,walked⟩
      · rw [if_neg leaf] at adding ⊢
        cases adding
        exact walked
    · rw [registerAll_append,registered]
      exact rest

theorem registerRecord_inside (inside : dp.address < file.fileSize) (tables : ChunkTables) :
    ∃ added, registerRecord file tables dp = some added :=
  ⟨_,if_pos (Nat.lt_succ_of_le (Nat.div_le_div_right (Nat.le_of_lt inside)))⟩

theorem leaf_registers (stored : KeyAt file numChunkedDims keyPointer key) (leaf : LeafAt file key address records)
    (tables : ChunkTables) : ∃ nodeType visited added,
      fillNode file numChunkedDims (fuel+1) .undefined address tables = some (0,nodeType,visited) ∧
        (if nodeType = .rawData then registerRecord file visited (readRecord file keyPointer address numChunkedDims)
          else some visited) = some added ∧ registerAll file tables records = some added := by
  obtain ⟨defined,inside,stream,rfl⟩ := leaf
  obtain ⟨noTree,noSymbols⟩ := zlib_shows stream
  have within : (key.record address).address < file.fileSize := inside
  obtain ⟨added,adding⟩ := registerRecord_inside within tables
  refine ⟨.rawData,tables,added,?_,?_,?_⟩
  · rw [fillNode,if_neg defined,if_pos noTree,noSymbols]
    rfl
  · rw [if_pos rfl,readRecord_key stored]
    exact adding
  · simp only [registerAll,List.foldlM_cons,adding,Option.bind_eq_bind,Option.bind_some]
    rfl

theorem node_registers (node : NodeAt file numChunkedDims below level address records)
    (walk : ∀ tables, ∃ after, fillEntries file (fillNode file numChunkedDims fuel .undefined) numChunkedDims
        (file.number (address+6) 2) (address+8+2*file.sBlock.sizeOfOffsets) tables = some (0,after) ∧
      registerAll file tables records = some after) (nodeType : NodeType) (tables : ChunkTables) :
    ∃ after, fillNode file numChunkedDims (fuel+1) nodeType address tables = some (0,.chunk,after) ∧
      registerAll file tables records = some after := by
  obtain ⟨after,entries,registered⟩ := walk tables
  refine ⟨after,?_,registered⟩
  have kind : nodeTypeOf (file.number (address+4) 1) = .chunk := by rw [node.kind]; rfl
  rw [fillNode,if_neg node.defined,node.signature,if_neg (by decide),kind]
  exact Option.bind_eq_some_iff.mpr ⟨(0,after),entries,rfl⟩

-- The induction is on the level: every entry of a leaf node registers its chunk,
-- every entry of an inner node what the tree below it holds.
theorem fillNode_tree (tree : ChunkNode file numChunkedDims level address records) (enough : level+1 < fuel)
    (nodeType : NodeType) (tables : ChunkTables) :
    ∃ after, fillNode file numChunkedDims fuel nodeType address tables = some (0,.chunk,after) ∧
      registerAll file tables records = some after := by
  induction level generalizing fuel nodeType address records tables with
  | zero =>
    obtain ⟨fuel,rfl⟩ : ∃ less, fuel = less+2 := ⟨fuel-2,by omega⟩
    refine node_registers tree (fun tables => fillEntries_wellFormed ?_ tree.entries tables) nodeType tables
    intro keyPointer key child found tables stored leaf
    exact leaf_registers stored leaf tables
  | succ level ih =>
    obtain ⟨fuel,rfl⟩ : ∃ less, fuel = less+1 := ⟨fuel-1,by omega⟩
    refine node_registers tree (fun tables => fillEntries_wellFormed ?_ tree.entries tables) nodeType tables
    clear tables
    intro keyPointer key child found tables _ below
    obtain ⟨after,visiting,registered⟩ := ih below (Nat.lt_of_succ_lt_succ enough) .undefined tables
    exact ⟨.chunk,after,after,visiting,if_neg (by decide),registered⟩

end Walk

section Statistics
variable {file : MatFile}

def onPage (file : MatFile) (page : Nat) (dp : DataPair) : Bool := pageOf file.toFileLayout dp.address == page

structure Gained (file : MatFile) (before after : ChunkTables) (records : List DataPair) : Prop where
  inside : ∀ dp ∈ records, pageOf file.toFileLayout dp.address < file.numPages
  buckets : ∀ page, (after.buckets page).live = (before.buckets page).live++records.filter (onPage file page)
  counted : ∀ page, (after.pages page).totalNumMappings%2^32 =
    ((before.pages page).totalNumMappings+records.countP (onPage file page))%2^32
  fits : ∀ page, (before.pages page).totalNumMappings+records.countP (onPage file page) < 2^32 →
    (after.pages page).totalNumMappings = (before.pages page).totalNumMappings+records.countP (onPage file page)
  covers : ∀ dp ∈ records, extent file.toFileLayout dp ≤ (after.pages (pageOf file.toFileLayout dp.address)).maxMapSize

theorem registerRecord_page (adding : registerRecord file tables dp = some added) (page : Nat) :
    added.pages page = if onPage file page dp then countMapping file.toFileLayout (tables.pages page) dp
      else tables.pages page := by
  unfold registerRecord at adding
  dsimp only at adding
  split at adding
  · cases adding
    by_cases same : pageOf file.toFileLayout dp.address = page
    · subst same
      simp [onPage]
    · have other : onPage file page dp = false := beq_false_of_ne same
      rw [other]
      exact Function.update_of_ne (Ne.symm same) ..
  · cases adding

theorem registerAll_counted (ran : registerAll file tables records = some after) (page : Nat) :
    (after.pages page).totalNumMappings%2^32 =
        ((tables.pages page).totalNumMappings+records.countP (onPage file page))%2^32 ∧
      ((tables.pages page).totalNumMappings+records.countP (onPage file page) < 2^32 →
        (after.pages page).totalNumMappings = (tables.pages page).totalNumMappings+records.countP (onPage file page)) ∧
      (tables.pages page).maxMapSize ≤ (after.pages page).maxMapSize ∧
      ∀ dp ∈ records, onPage file page dp = true → extent file.toFileLayout dp ≤ (after.pages page).maxMapSize := by
  induction records generalizing tables with
  | nil => cases ran; exact ⟨rfl,fun _ => rfl,Nat.le_refl _,by simp⟩
  | cons dp rest ih =>
    obtain ⟨added,adding,more⟩ := Option.bind_eq_some_iff.mp ran
    obtain ⟨counted,fits,grows,covers⟩ := ih more
    have here := registerRecord_page adding page
    rw [List.countP_cons]
    cases listed : onPage file page dp with
    | false =>
      rw [listed,if_neg (by decide)] at here
      rw [here] at counted fits grows
      refine ⟨counted,fits,grows,fun row member on => ?_⟩
      rcases List.mem_cons.mp member with rfl | later
      · rw [listed] at on
        cases on
      · exact covers row later on
    | true =>
      rw [listed,if_pos rfl] at here
      have total : (added.pages page).totalNumMappings = ((tables.pages page).totalNumMappings+1)%2^32 := by rw [here]; rfl
      have size : (added.pages page).maxMapSize = max (tables.pages page).maxMapSize (extent file.toFileLayout dp) := by
        rw [here]; rfl
      rw [total] at counted fits
      rw [size] at grows
      refine ⟨?_,?_,Nat.le_trans (Nat.le_max_left ..) grows,fun row member on => ?_⟩
      · simp only [if_pos]
        omega
      · intro room
        simp only [if_pos] at room ⊢
        rw [Nat.mod_eq_of_lt (by omega)] at fits
        have exact_ := fits (by omega)
        omega
      · rcases List.mem_cons.mp member with rfl | later
        · exact Nat.le_trans (Nat.le_max_right ..) grows
        · exact covers row later on

theorem registerAll_gained (ran : registerAll file tables records = some after)
    (tight : ∀ page, (tables.buckets page).Tight) : Gained file tables after records := by
  obtain ⟨_,buckets,inside⟩ := registerAll_buckets ran tight
  refine ⟨inside,buckets,fun page => (registerAll_counted ran page).1,fun page => (registerAll_counted ran page).2.1,?_⟩
  intro dp member
  exact (registerAll_counted ran _).2.2.2 dp member (beq_self_eq_true _)

theorem page_room {records : List DataPair} (distinct : (records.map DataPair.address).Nodup) (page : Nat) :
    records.countP (onPage file page) ≤ file.allocGran := by
  rw [List.countP_eq_length_filter]
  have positive := file.granular
  have addresses : (records.filter (onPage file page)).map DataPair.address ⊆
      List.range' (page*file.allocGran) file.allocGran := by
    intro address member
    obtain ⟨dp,listed,rfl⟩ := List.mem_map.mp member
    have on : dp.address/file.allocGran = page := beq_iff_eq.mp (List.mem_filter.mp listed).2
    have low := Nat.div_add_mod dp.address file.allocGran
    have high := Nat.mod_lt dp.address positive
    rw [on,Nat.mul_comm] at low
    rw [List.mem_range'_1]
    omega
  have apart : ((records.filter (onPage file page)).map DataPair.address).Nodup :=
    List.Nodup.sublist (List.filter_sublist.map _) distinct
  have bound := (apart.subperm addresses).length_le
  simpa using bound

theorem fillNode_exact (tree : ChunkBTree file numChunkedDims level address records)
    (tight : ∀ page, (tables.buckets page).Tight) :
    ∃ after, (∀ fuel nodeType, level+1 < fuel →
        fillNode file numChunkedDims fuel nodeType address tables = some (0,.chunk,after)) ∧
      Gained file tables after records ∧ ∀ page, records.countP (onPage file page) ≤ file.allocGran := by
  obtain ⟨after,first,registered⟩ := fillNode_tree tree.1 (Nat.lt_succ_self (level+1)) .root tables
  refine ⟨after,?_,registerAll_gained registered tight,page_room tree.2⟩
  intro fuel nodeType enough
  obtain ⟨other,walked,same⟩ := fillNode_tree tree.1 enough nodeType tables
  rw [registered] at same
  cases same
  exact walked

end Statistics

-- A root with one leaf node below it, and two chunks on the same page.
def chunkFile : MatFile := wordFile
  [0x0001010145455254,0,0,0,0,0,80,0,0,0,
   0x0002000145455254,0,0,5,0,0,192,6,4,0,200,0,0,0,0x9C78,0x9C78] ⟨8,8,40,0,0,0⟩

theorem chunkFile_tree : ChunkBTree chunkFile 1 1 0 [⟨192,5,[0,0]⟩,⟨200,6,[4,0]⟩] := by
  refine ⟨⟨by decide,by decide,by decide,by decide,?_⟩,by decide⟩
  have root : KeyAt chunkFile 1 24 ⟨0,[0]⟩ := by unfold KeyAt; decide
  have first : KeyAt chunkFile 1 104 ⟨5,[0]⟩ := by unfold KeyAt; decide
  have second : KeyAt chunkFile 1 136 ⟨6,[4]⟩ := by unfold KeyAt; decide
  have firstLeaf : LeafAt chunkFile ⟨5,[0]⟩ 192 [⟨192,5,[0,0]⟩] := by unfold LeafAt ZlibStream; decide
  have secondLeaf : LeafAt chunkFile ⟨6,[4]⟩ 200 [⟨200,6,[4,0]⟩] := by unfold LeafAt ZlibStream; decide
  have leafNode : ChunkNode chunkFile 1 0 80 [⟨192,5,[0,0]⟩,⟨200,6,[4,0]⟩] :=
    ⟨by decide,by decide,by decide,by decide,.cons first firstLeaf (.cons second secondLeaf .nil)⟩
  have entries : EntriesAt chunkFile 1 (fun _ => ChunkNode chunkFile 1 0) 1 24
      ([⟨192,5,[0,0]⟩,⟨200,6,[4,0]⟩]++[]) := .cons root leafNode .nil
  exact entries

theorem fillNode_chunkFile : ∃ after, fillNode chunkFile 1 3 .root 0 (emptyTables fun _ => initializePageObject) =
    some (0,.chunk,after) ∧ (after.buckets 0).live = [⟨192,5,[0,0]⟩,⟨200,6,[4,0]⟩] := by
  have start (page : Nat) : ((emptyTables fun _ => initializePageObject).buckets page).Tight := NodeList.init_tight
  obtain ⟨after,walked,gained,_⟩ := fillNode_exact chunkFile_tree start
  exact ⟨after,walked 3 .root (by decide),(gained.buckets 0).trans (by decide)⟩

end GetMatVar
