import GetMatVar.SkeletonHeap

namespace GetMatVar

section Codes
variable (file : MatFile)

-- The walk once more, with the codes that its calls of readTreeNode and readSnod
-- return, each behind the codes of the calls that it makes itself.
abbrev CodedVisit := Nat → Nat → Nat → Heap → Option (Nat × Heap × List Nat)

section Visit
variable (visit : CodedVisit) (object : Nat) (nodeAddress heapAddress : Nat)

def readSymbolsCodes : Nat → Heap → Option (Nat × Heap × List Nat)
  | 0,heap => some (0,heap,[])
  | i+1,heap => do
    let entry := symbolEntry file nodeAddress i
    let name ← file.text (heapDataSegment file heapAddress+file.number entry file.sBlock.sizeOfOffsets)
    let subObjAddress := file.address (entry+file.sBlock.sizeOfOffsets)
    let cacheType := file.number (entry+2*file.sBlock.sizeOfOffsets) 4
    let (subObject,heap) ← connectSubObject heap object subObjAddress name
    let heap := heap.register subObject
    if cacheType = 1 then
      let (code,heap,codes) ← visit subObject (file.address (entry+2*file.sBlock.sizeOfOffsets+8))
        (file.address (entry+3*file.sBlock.sizeOfOffsets+8)) heap
      if code ≠ 0 then some (1,heap,codes)
      else
        let (code,heap,later) ← readSymbolsCodes i heap
        some (code,heap,codes++later)
    else if cacheType = 2 then some (1,heap,[])
    else readSymbolsCodes i heap

def readSnodCodes (heap : Heap) : Option (Nat × Heap × List Nat) :=
  if file.shows nodeAddress "TREE" then do
    let (_,heap,codes) ← visit object nodeAddress heapAddress heap
    some (0,heap,codes++[0])
  else do
    let (code,heap,codes) ← readSymbolsCodes file visit object nodeAddress heapAddress (file.number (nodeAddress+6) 2) heap
    some (code,heap,codes++[code])

end Visit

def readSubNodesCodes (visit : CodedVisit) (object : Nat) (heapAddress : Nat) :
    List Nat → Heap → Option (Nat × Heap × List Nat)
  | [],heap => some (0,heap,[])
  | address::rest,heap => do
    let (code,heap,codes) ← readSnodCodes file visit object address heapAddress heap
    if code ≠ 0 then some (1,heap,codes)
    else
      let (code,heap,later) ← readSubNodesCodes visit object heapAddress rest heap
      some (code,heap,codes++later)

def readTreeNodeCodes : Nat → CodedVisit
  | 0,_,_,_,_ => none
  | fuel+1,object,nodeAddress,heapAddress,heap =>
    let entriesUsed := file.number (nodeAddress+6) 2
    if 0 < entriesUsed then do
      let (code,heap,codes) ← readSubNodesCodes file (readTreeNodeCodes fuel) object heapAddress
        ((List.range entriesUsed).map (subNodeAddress file nodeAddress)) heap
      some (code,heap,codes++[code])
    else some (1,heap,[1])

end Codes

section Erasure
variable {file : MatFile}

def dropCodes (ran : Nat × Heap × List Nat) : Nat × Heap := (ran.1,ran.2.1)

def SameWalk (coded : CodedVisit) (visit : Nat → Nat → Nat → Heap → Option (Nat × Heap)) : Prop :=
  ∀ object nodeAddress heapAddress heap,
    (coded object nodeAddress heapAddress heap).map dropCodes = visit object nodeAddress heapAddress heap

theorem readSymbols_codes (same : SameWalk coded visit) (object nodeAddress heapAddress count : Nat) (heap : Heap) :
    (readSymbolsCodes file coded object nodeAddress heapAddress count heap).map dropCodes =
      readSymbols file visit object nodeAddress heapAddress count heap := by
  induction count generalizing heap with
  | zero => rfl
  | succ count ih =>
    simp only [readSymbolsCodes,readSymbols,Option.bind_eq_bind]
    cases file.text (heapDataSegment file heapAddress+
        file.number (symbolEntry file nodeAddress count) file.sBlock.sizeOfOffsets) with
    | none => rfl
    | some name =>
    simp only [Option.bind_some]
    cases connectSubObject heap object (file.address (symbolEntry file nodeAddress count+file.sBlock.sizeOfOffsets)) name with
    | none => rfl
    | some connected =>
    simp only [Option.bind_some]
    split
    · rw [← same]
      cases coded connected.1 (file.address (symbolEntry file nodeAddress count+2*file.sBlock.sizeOfOffsets+8))
          (file.address (symbolEntry file nodeAddress count+3*file.sBlock.sizeOfOffsets+8))
          (connected.2.register connected.1) with
      | none => rfl
      | some ran =>
      simp only [Option.bind_some,Option.map_some,dropCodes]
      split
      · rfl
      · rw [← ih]
        cases readSymbolsCodes file coded object nodeAddress heapAddress count ran.2.1 <;> rfl
    · split
      · rfl
      · exact ih _

theorem readSnod_codes (same : SameWalk coded visit) (object nodeAddress heapAddress : Nat) (heap : Heap) :
    (readSnodCodes file coded object nodeAddress heapAddress heap).map dropCodes =
      readSnod file visit object nodeAddress heapAddress heap := by
  simp only [readSnodCodes,readSnod,Option.bind_eq_bind]
  split
  · rw [← same]
    cases coded object nodeAddress heapAddress heap <;> rfl
  · rw [← readSymbols_codes same]
    cases readSymbolsCodes file coded object nodeAddress heapAddress (file.number (nodeAddress+6) 2) heap <;> rfl

theorem readSubNodes_codes (same : SameWalk coded visit) (object heapAddress : Nat) (addresses : List Nat) (heap : Heap) :
    (readSubNodesCodes file coded object heapAddress addresses heap).map dropCodes =
      readSubNodes file visit object heapAddress addresses heap := by
  induction addresses generalizing heap with
  | nil => rfl
  | cons address addresses ih =>
    simp only [readSubNodesCodes,readSubNodes,Option.bind_eq_bind]
    rw [← readSnod_codes same]
    cases readSnodCodes file coded object address heapAddress heap with
    | none => rfl
    | some ran =>
      simp only [Option.bind_some,Option.map_some,dropCodes]
      split
      · rfl
      · rw [← ih]
        cases readSubNodesCodes file coded object heapAddress addresses ran.2.1 <;> rfl

theorem readTreeNode_codes (file : MatFile) (fuel : Nat) : SameWalk (readTreeNodeCodes file fuel) (readTreeNode file fuel) := by
  induction fuel with
  | zero =>
    intro object nodeAddress heapAddress heap
    rfl
  | succ fuel ih =>
    intro object nodeAddress heapAddress heap
    simp only [readTreeNodeCodes,readTreeNode,Option.bind_eq_bind]
    split
    · rw [← readSubNodes_codes ih]
      cases readSubNodesCodes file (readTreeNodeCodes file fuel) object heapAddress
        ((List.range (file.number (nodeAddress+6) 2)).map (subNodeAddress file nodeAddress)) heap <;> rfl
    · rfl

end Erasure

-- What is wrong in a file, told from the nodes alone.
section Faults
variable (file : MatFile)

def EntryBelow (nodeAddress entry : Nat) : Prop :=
  ∃ i < file.number (nodeAddress+6) 2, file.shows (subNodeAddress file nodeAddress i) "TREE" = false ∧
    ∃ k < file.number (subNodeAddress file nodeAddress i+6) 2, entry = symbolEntry file (subNodeAddress file nodeAddress i) k

def NodeBelow (nodeAddress subNode : Nat) : Prop :=
  ∃ i < file.number (nodeAddress+6) 2, subNode = subNodeAddress file nodeAddress i ∧ file.shows subNode "TREE" = true

def cacheType (entry : Nat) : Nat := file.number (entry+2*file.sBlock.sizeOfOffsets) 4

def subTreeAddress (entry : Nat) : Nat := file.address (entry+2*file.sBlock.sizeOfOffsets+8)

-- A B-tree node without entries or a symbolic link, here or in a group below that hangs
-- on the symbol nodes directly below its own B-tree's root.
inductive Loud : Nat → Prop where
  | empty : file.number (nodeAddress+6) 2 = 0 → Loud nodeAddress
  | link : EntryBelow file nodeAddress entry → cacheType file entry = 2 → Loud nodeAddress
  | group : EntryBelow file nodeAddress entry → cacheType file entry = 1 → Loud (subTreeAddress file entry) → Loud nodeAddress

-- The same at any depth of the B-trees.
inductive Faulty : Nat → Prop where
  | empty : file.number (nodeAddress+6) 2 = 0 → Faulty nodeAddress
  | link : EntryBelow file nodeAddress entry → cacheType file entry = 2 → Faulty nodeAddress
  | group : EntryBelow file nodeAddress entry → cacheType file entry = 1 → Faulty (subTreeAddress file entry) →
    Faulty nodeAddress
  | node : NodeBelow file nodeAddress subNode → Faulty subNode → Faulty nodeAddress

end Faults

section Codes
variable {file : MatFile}

theorem Loud.faulty (loud : Loud file nodeAddress) : Faulty file nodeAddress := by
  induction loud with
  | empty none_ => exact .empty none_
  | link entry cache => exact .link entry cache
  | group entry cache _ ih => exact .group entry cache ih

-- What the return code and the codes of a walk say about the node it starts at.
structure Tells (file : MatFile) (nodeAddress code : Nat) (codes : List Nat) : Prop where
  own : code ≠ 0 ↔ Loud file nodeAddress
  any : (∃ c ∈ codes, c ≠ 0) ↔ Faulty file nodeAddress

def Telling (file : MatFile) (coded : CodedVisit) : Prop :=
  ∀ object nodeAddress heapAddress heap code after codes,
    coded object nodeAddress heapAddress heap = some (code,after,codes) → Tells file nodeAddress code codes

def LoudEntry (file : MatFile) (entry : Nat) : Prop :=
  cacheType file entry = 2 ∨ (cacheType file entry = 1 ∧ Loud file (subTreeAddress file entry))

def FaultyEntry (file : MatFile) (entry : Nat) : Prop :=
  cacheType file entry = 2 ∨ (cacheType file entry = 1 ∧ Faulty file (subTreeAddress file entry))

def LoudChild (file : MatFile) (address : Nat) : Prop :=
  file.shows address "TREE" = false ∧ ∃ k < file.number (address+6) 2, LoudEntry file (symbolEntry file address k)

def FaultyChild (file : MatFile) (address : Nat) : Prop :=
  if file.shows address "TREE" then Faulty file address
  else ∃ k < file.number (address+6) 2, FaultyEntry file (symbolEntry file address k)

theorem LoudEntry.faulty (loud : LoudEntry file entry) : FaultyEntry file entry :=
  loud.imp id fun both => ⟨both.1,both.2.faulty⟩

theorem some_nonzero (codes later : List Nat) :
    (∃ c ∈ codes++later, c ≠ 0) ↔ (∃ c ∈ codes, c ≠ 0) ∨ ∃ c ∈ later, c ≠ 0 := by
  simp only [List.mem_append,or_and_right,exists_or]

-- The loop goes on exactly behind an entry that is no loud one.
theorem readSymbols_tell (telling : Telling file coded)
    (ran : readSymbolsCodes file coded object nodeAddress heapAddress count heap = some (code,after,codes)) :
    (code ≠ 0 ↔ ∃ k < count, LoudEntry file (symbolEntry file nodeAddress k)) ∧
      (code = 0 → ((∃ c ∈ codes, c ≠ 0) ↔ ∃ k < count, FaultyEntry file (symbolEntry file nodeAddress k))) := by
  induction count generalizing heap code after codes with
  | zero =>
    cases ran
    simp
  | succ count ih =>
    obtain ⟨name,_,rest⟩ := Option.bind_eq_some_iff.mp ran
    obtain ⟨⟨subObject,middle⟩,_,walked⟩ := Option.bind_eq_some_iff.mp rest
    dsimp only at walked
    rw [Nat.exists_lt_succ_right,Nat.exists_lt_succ_right]
    split at walked
    · rename_i group
      obtain ⟨⟨deepCode,deep,deepCodes⟩,visited,last⟩ := Option.bind_eq_some_iff.mp walked
      obtain ⟨own,any⟩ := telling _ _ _ _ _ _ _ visited
      have notLink : cacheType file (symbolEntry file nodeAddress count) ≠ 2 := by
        intro link
        rw [cacheType,group] at link
        cases link
      dsimp only at last
      split at last
      · rename_i failed
        cases last
        exact ⟨⟨fun _ => .inr (.inr ⟨group,own.mp failed⟩),fun _ => by decide⟩,fun none_ => by cases none_⟩
      · rename_i passed
        obtain ⟨⟨laterCode,later,laterCodes⟩,more,same⟩ := Option.bind_eq_some_iff.mp last
        cases same
        obtain ⟨ownRest,anyRest⟩ := ih more
        have quiet : ¬LoudEntry file (symbolEntry file nodeAddress count) := by
          rintro (link | ⟨_,loud⟩)
          · exact notLink link
          · exact passed (own.mpr loud)
        have fault : FaultyEntry file (symbolEntry file nodeAddress count) ↔ ∃ c ∈ deepCodes, c ≠ 0 := by
          rw [any]
          exact ⟨fun either => (either.resolve_left notLink).2,fun faulty => .inr ⟨group,faulty⟩⟩
        refine ⟨?_,fun none_ => ?_⟩
        · rw [ownRest]
          simp only [quiet,or_false]
        · rw [some_nonzero,anyRest none_,fault]
          exact or_comm
    · rename_i noGroup
      split at walked
      · rename_i link
        cases walked
        exact ⟨⟨fun _ => .inr (.inl link),fun _ => by decide⟩,fun none_ => by cases none_⟩
      · rename_i noLink
        obtain ⟨ownRest,anyRest⟩ := ih walked
        have harmless : ¬FaultyEntry file (symbolEntry file nodeAddress count) := by
          rintro (link | ⟨group,_⟩)
          · exact noLink link
          · exact noGroup group
        have quiet : ¬LoudEntry file (symbolEntry file nodeAddress count) := fun loud => harmless loud.faulty
        refine ⟨?_,fun none_ => ?_⟩
        · rw [ownRest]
          simp only [quiet,or_false]
        · rw [anyRest none_]
          simp only [harmless,or_false]

theorem readSnod_tell (telling : Telling file coded)
    (ran : readSnodCodes file coded object address heapAddress heap = some (code,after,codes)) :
    (code ≠ 0 ↔ LoudChild file address) ∧ ((∃ c ∈ codes, c ≠ 0) ↔ FaultyChild file address) := by
  unfold readSnodCodes at ran
  unfold LoudChild FaultyChild
  split at ran
  · rename_i tree
    obtain ⟨⟨deepCode,deep,deepCodes⟩,visited,last⟩ := Option.bind_eq_some_iff.mp ran
    cases last
    obtain ⟨own,any⟩ := telling _ _ _ _ _ _ _ visited
    rw [if_pos tree,some_nonzero,any,tree]
    simp
  · rename_i symbols
    obtain ⟨⟨ownCode,last,ownCodes⟩,walked,same⟩ := Option.bind_eq_some_iff.mp ran
    cases same
    obtain ⟨own,any⟩ := readSymbols_tell telling walked
    have noTree : file.shows address "TREE" = false := Bool.eq_false_iff.mpr symbols
    rw [if_neg symbols,some_nonzero,own]
    refine ⟨⟨fun loud => ⟨noTree,loud⟩,fun both => both.2⟩,?_⟩
    by_cases passed : code = 0
    · rw [any passed]
      simp [passed]
    · obtain ⟨k,below,loud⟩ := own.mp passed
      exact ⟨fun _ => ⟨k,below,loud.faulty⟩,fun _ => .inr ⟨code,List.mem_singleton.mpr rfl,passed⟩⟩

theorem LoudChild.faulty (loud : LoudChild file address) : FaultyChild file address := by
  obtain ⟨noTree,k,below,entry⟩ := loud
  rw [FaultyChild,if_neg (Bool.eq_false_iff.mp noTree)]
  exact ⟨k,below,entry.faulty⟩

theorem readSubNodes_tell (telling : Telling file coded)
    (ran : readSubNodesCodes file coded object heapAddress addresses heap = some (code,after,codes)) :
    (code ≠ 0 ↔ ∃ address ∈ addresses, LoudChild file address) ∧
      ((∃ c ∈ codes, c ≠ 0) ∨ code ≠ 0 ↔ ∃ address ∈ addresses, FaultyChild file address) := by
  induction addresses generalizing heap code after codes with
  | nil =>
    cases ran
    simp
  | cons address addresses ih =>
    obtain ⟨⟨nodeCode,middle,nodeCodes⟩,first,rest⟩ := Option.bind_eq_some_iff.mp ran
    obtain ⟨own,any⟩ := readSnod_tell telling first
    simp only [List.exists_mem_cons_iff]
    dsimp only at rest
    split at rest
    · rename_i failed
      cases rest
      have loud := own.mp failed
      exact ⟨⟨fun _ => .inl loud,fun _ => by decide⟩,⟨fun _ => .inl loud.faulty,fun _ => .inr (by decide)⟩⟩
    · rename_i passed
      obtain ⟨⟨laterCode,later,laterCodes⟩,more,same⟩ := Option.bind_eq_some_iff.mp rest
      cases same
      obtain ⟨ownRest,anyRest⟩ := ih more
      have quiet : ¬LoudChild file address := fun loud => passed (own.mpr loud)
      refine ⟨?_,?_⟩
      · rw [ownRest]
        simp only [quiet,false_or]
      · rw [some_nonzero,any,or_assoc,anyRest]

theorem loud_children (used : 0 < file.number (nodeAddress+6) 2) : Loud file nodeAddress ↔
    ∃ address ∈ (List.range (file.number (nodeAddress+6) 2)).map (subNodeAddress file nodeAddress), LoudChild file address := by
  simp only [List.mem_map,List.mem_range]
  constructor
  · intro loud
    cases loud with
    | empty none_ => omega
    | link below cache =>
      obtain ⟨i,inside,noTree,k,few,rfl⟩ := below
      exact ⟨_,⟨i,inside,rfl⟩,noTree,k,few,.inl cache⟩
    | group below cache loud =>
      obtain ⟨i,inside,noTree,k,few,rfl⟩ := below
      exact ⟨_,⟨i,inside,rfl⟩,noTree,k,few,.inr ⟨cache,loud⟩⟩
  · rintro ⟨_,⟨i,inside,rfl⟩,noTree,k,few,cache | ⟨cache,loud⟩⟩
    · exact .link ⟨i,inside,noTree,k,few,rfl⟩ cache
    · exact .group ⟨i,inside,noTree,k,few,rfl⟩ cache loud

theorem faulty_children (used : 0 < file.number (nodeAddress+6) 2) : Faulty file nodeAddress ↔
    ∃ address ∈ (List.range (file.number (nodeAddress+6) 2)).map (subNodeAddress file nodeAddress), FaultyChild file address := by
  simp only [List.mem_map,List.mem_range]
  constructor
  · intro faulty
    cases faulty with
    | empty none_ => omega
    | link below cache =>
      obtain ⟨i,inside,noTree,k,few,rfl⟩ := below
      refine ⟨_,⟨i,inside,rfl⟩,?_⟩
      rw [FaultyChild,if_neg (Bool.eq_false_iff.mp noTree)]
      exact ⟨k,few,.inl cache⟩
    | group below cache faulty =>
      obtain ⟨i,inside,noTree,k,few,rfl⟩ := below
      refine ⟨_,⟨i,inside,rfl⟩,?_⟩
      rw [FaultyChild,if_neg (Bool.eq_false_iff.mp noTree)]
      exact ⟨k,few,.inr ⟨cache,faulty⟩⟩
    | node below faulty =>
      obtain ⟨i,inside,rfl,tree⟩ := below
      refine ⟨_,⟨i,inside,rfl⟩,?_⟩
      rwa [FaultyChild,if_pos tree]
  · rintro ⟨_,⟨i,inside,rfl⟩,fault⟩
    unfold FaultyChild at fault
    split at fault
    · rename_i tree
      exact .node ⟨i,inside,rfl,tree⟩ fault
    · rename_i symbols
      have noTree := Bool.eq_false_iff.mpr symbols
      obtain ⟨k,few,cache | ⟨cache,faulty⟩⟩ := fault
      · exact .link ⟨i,inside,noTree,k,few,rfl⟩ cache
      · exact .group ⟨i,inside,noTree,k,few,rfl⟩ cache faulty

theorem readTreeNode_tells (file : MatFile) (fuel : Nat) : Telling file (readTreeNodeCodes file fuel) := by
  induction fuel with
  | zero =>
    intro object nodeAddress heapAddress heap code after codes ran
    cases ran
  | succ fuel ih =>
    intro object nodeAddress heapAddress heap code after codes ran
    simp only [readTreeNodeCodes] at ran
    split at ran
    · rename_i used
      obtain ⟨⟨ownCode,last,ownCodes⟩,walked,same⟩ := Option.bind_eq_some_iff.mp ran
      cases same
      obtain ⟨own,any⟩ := readSubNodes_tell ih walked
      refine ⟨by rw [own,loud_children used],?_⟩
      rw [faulty_children used,← any,some_nonzero]
      simp
    · rename_i unused
      cases ran
      have none_ : file.number (nodeAddress+6) 2 = 0 := by omega
      exact ⟨⟨fun _ => .empty none_,fun _ => by decide⟩,⟨fun _ => .empty none_,fun _ => ⟨1,by simp,by decide⟩⟩⟩

end Codes

def skeletonCodes (file : MatFile) (fuel : Nat) (heap : Heap) : Option (List Nat) :=
  (readTreeNodeCodes file fuel virtualSuperObject file.sBlock.rootTreeAddress file.sBlock.rootHeapAddress heap).map (·.2.2)

-- A walk shows that one of its calls has failed if and only if no fault lies below the
-- root, or one of them lies outside the B-tree nodes below B-tree nodes.
theorem makeObjectTreeSkeleton_shows (file : MatFile) (ran : makeObjectTreeSkeleton file fuel heap = some (code,after)) :
    ∃ codes, skeletonCodes file fuel heap = some codes ∧
      (((∃ c ∈ codes, c ≠ 0) → code ≠ 0) ↔
        (Faulty file file.sBlock.rootTreeAddress → Loud file file.sBlock.rootTreeAddress)) := by
  rw [makeObjectTreeSkeleton,← readTreeNode_codes] at ran
  obtain ⟨⟨ownCode,last,codes⟩,walked,same⟩ := Option.map_eq_some_iff.mp ran
  cases same
  obtain ⟨own,any⟩ := readTreeNode_tells file fuel _ _ _ _ _ _ _ walked
  exact ⟨codes,by rw [skeletonCodes,walked]; rfl,by rw [own,any]⟩

-- The variable x and the group g, whose B-tree node is without entries.
def loudFile : MatFile := wordFile
  [0x0001000045455254,0,0,0,48,0,
   0x00020001444f4e53,8,800,0,0,0,16,808,1,160,320,0,0,0,
   0x0000000045455254,0,0,0,208,0,
   0,0,0,0,0,0,0,0,0,0,0,0,0,0,
   0x50414548,32,0,352,0,120,103] ⟨8,8,40,0,0,320⟩

theorem makeObjectTreeSkeleton_shows_loud : ∃ code after codes, makeObjectTreeSkeleton loudFile 3 startHeap = some (code,after) ∧
    skeletonCodes loudFile 3 startHeap = some codes ∧ (∃ c ∈ codes, c ≠ 0) ∧ code ≠ 0 := by
  have walked : (makeObjectTreeSkeleton loudFile 3 startHeap).isSome = true := by decide +kernel
  obtain ⟨⟨code,after⟩,ran⟩ := Option.isSome_iff_exists.mp walked
  obtain ⟨codes,coded,shown⟩ := makeObjectTreeSkeleton_shows loudFile ran
  have entry : EntryBelow loudFile 0 96 := ⟨0,by decide,by decide,1,by decide,by decide⟩
  have loud : Loud loudFile 0 := .group entry (by decide) (.empty (by decide))
  have failed : skeletonCodes loudFile 3 startHeap = some [1,1,1] := by decide +kernel
  have failing : ∃ c ∈ codes, c ≠ 0 := by
    rw [failed] at coded
    cases coded
    exact ⟨1,List.mem_cons_self,Nat.one_ne_zero⟩
  exact ⟨code,after,codes,ran,coded,failing,shown.mpr (fun _ => loud) failing⟩

-- The root of the B-tree has one child, a B-tree node without entries.
def silentFile : MatFile := wordFile [0x0001000045455254,0,0,0,48,0,0x0000000045455254,0,0] ⟨8,8,40,0,0,0⟩

theorem silentFile_hidden : ¬ ∀ (file : MatFile) (fuel : Nat) (heap : Heap) (code : Nat) (after : Heap),
    makeObjectTreeSkeleton file fuel heap = some (code,after) →
    ∃ codes, skeletonCodes file fuel heap = some codes ∧ ((∃ c ∈ codes, c ≠ 0) → code ≠ 0) := by
  intro always
  have made : makeObjectTreeSkeleton silentFile 2 startHeap = some (0,skeletonHeap silentFile 2) :=
    skeletonHeap_made (by decide +kernel)
  obtain ⟨codes,coded,shown⟩ := always _ _ _ _ _ made
  have failed : skeletonCodes silentFile 2 startHeap = some [1,0,0] := by decide +kernel
  rw [failed] at coded
  cases coded
  exact shown ⟨1,by simp,by decide⟩ rfl

end GetMatVar
