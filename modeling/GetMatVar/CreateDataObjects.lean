import GetMatVar.DataObject

namespace GetMatVar

def hash : UInt8 := 35

def dot : UInt8 := 46

def cString (bytes : FileBytes) : Nat → Nat → Option Text
  | _,0 => none
  | pointer,left+1 =>
    if bytes pointer = 0 then some []
    else (cString bytes (pointer+1) left).map (bytes pointer::·)

def MatFile.text (file : MatFile) (pointer : Nat) : Option Text := cString file.bytes pointer (file.fileSize-pointer)

def isReferenceGroup (object : Data) : Bool := object.isReference || object.shortName.head? == some hash

def longNameUnder (superName shortName : Text) : Text :=
  if superName ≠ [] then superName++[dot]++shortName else shortName

-- A name whose length does not fit in 16 bits is written past its block.
def connectSubObject (heap : Heap) (superObject : Nat) (subObjAddress : Nat) (subObjName : Text) :
    Option (Nat × Heap) :=
  let longName := longNameUnder (heap.objects superObject).longName subObjName
  if subObjName.length < 2^16 ∧ longName.length < 2^16 then
    let subObject := heap.fresh
    let heap := heap.alloc {initializeObject with
      thisObjAddress:=subObjAddress,superObject:=some superObject,
      isReference:=isReferenceGroup (heap.objects superObject),shortName:=subObjName,longName:=longName}
    some (subObject,heap.update superObject fun object => {object with
      subObjects:=enqueue object.subObjects subObject,numSubObjs:=(object.numSubObjs+1)%2^32})
  else none

section Model
variable (file : MatFile)

def subNodeAddress (nodeAddress i : Nat) : Nat :=
  file.address (nodeAddress+8+2*file.sBlock.sizeOfOffsets+
    i*(file.sBlock.sizeOfLengths+file.sBlock.sizeOfOffsets)+file.sBlock.sizeOfLengths)

def symbolEntry (nodeAddress i : Nat) : Nat := nodeAddress+8+i*file.sBlock.symTableEntrySize

def heapDataSegment (heapAddress : Nat) : Nat := file.address (heapAddress+8+2*file.sBlock.sizeOfLengths)

section Visit
variable (visit : Nat → Nat → Nat → Heap → Option (Nat × Heap)) (object : Nat) (nodeAddress heapAddress : Nat)

-- The loop over the symbol table entries, from the last one down.
def readSymbols : Nat → Heap → Option (Nat × Heap)
  | 0,heap => some (0,heap)
  | i+1,heap => do
    let entry := symbolEntry file nodeAddress i
    let name ← file.text (heapDataSegment file heapAddress+file.number entry file.sBlock.sizeOfOffsets)
    let subObjAddress := file.address (entry+file.sBlock.sizeOfOffsets)
    let cacheType := file.number (entry+2*file.sBlock.sizeOfOffsets) 4
    let (subObject,heap) ← connectSubObject heap object subObjAddress name
    let heap := heap.register subObject
    if cacheType = 1 then
      let (code,heap) ← visit subObject (file.address (entry+2*file.sBlock.sizeOfOffsets+8))
        (file.address (entry+3*file.sBlock.sizeOfOffsets+8)) heap
      if code ≠ 0 then some (1,heap) else readSymbols i heap
    else if cacheType = 2 then some (1,heap)
    else readSymbols i heap

-- The code of the walk below a "TREE" signature is dropped.
def readSnod (heap : Heap) : Option (Nat × Heap) :=
  if file.shows nodeAddress "TREE" then do
    let (_,heap) ← visit object nodeAddress heapAddress heap
    some (0,heap)
  else readSymbols file visit object nodeAddress heapAddress (file.number (nodeAddress+6) 2) heap

end Visit

def readSubNodes (visit : Nat → Nat → Nat → Heap → Option (Nat × Heap)) (object : Nat) (heapAddress : Nat) :
    List Nat → Heap → Option (Nat × Heap)
  | [],heap => some (0,heap)
  | address::rest,heap => do
    let (code,heap) ← readSnod file visit object address heapAddress heap
    if code ≠ 0 then some (1,heap) else readSubNodes visit object heapAddress rest heap

-- A file can send the recursion down without end; fuel bounds its depth.
def readTreeNode : Nat → Nat → Nat → Nat → Heap → Option (Nat × Heap)
  | 0,_,_,_,_ => none
  | fuel+1,object,nodeAddress,heapAddress,heap =>
    let entriesUsed := file.number (nodeAddress+6) 2
    if 0 < entriesUsed then
      readSubNodes file (readTreeNode fuel) object heapAddress ((List.range entriesUsed).map (subNodeAddress file nodeAddress)) heap
    else some (1,heap)

def makeObjectTreeSkeleton (fuel : Nat) (heap : Heap) : Option (Nat × Heap) :=
  readTreeNode file fuel virtualSuperObject file.sBlock.rootTreeAddress file.sBlock.rootHeapAddress heap

end Model

-- What a group stores: its entries in the order in which the B-tree lists the
-- nodes and, in one node, from the last entry to the first. The members of an
-- entry that is no group are nil.
inductive Members where
  | nil
  | cons (name : Text) (address : Nat) (members rest : Members)

namespace Members

def append : Members → Members → Members
  | nil,later => later
  | cons name address members rest,later => cons name address members (rest.append later)

def length : Members → Nat
  | nil => 0
  | cons _ _ _ rest => rest.length+1

def size : Members → Nat
  | nil => 0
  | cons _ _ members rest => 1+members.size+rest.size

def Short : Text → Members → Prop
  | _,nil => True
  | path,cons name _ members rest => (longNameUnder path name).length < 2^16 ∧
      Short (longNameUnder path name) members ∧ Short path rest

def Narrow : Members → Prop
  | nil => True
  | cons _ _ members rest => members.length < 2^32 ∧ members.Narrow ∧ rest.Narrow

end Members

inductive Place where
  | tree (nodeAddress heapAddress : Nat)
  | child (nodeAddress heapAddress i : Nat)
  | node (nodeAddress heapAddress : Nat)
  | symbol (nodeAddress heapAddress count : Nat)

def MatFile.Names (file : MatFile) (pointer : Nat) (name : Text) : Prop :=
  pointer+name.length < file.fileSize ∧ file.bytes (pointer+name.length) = 0 ∧
    ∀ k (_ : k < name.length), file.bytes (pointer+k) = name[k] ∧ name[k] ≠ 0

instance (file : MatFile) (pointer : Nat) (name : Text) : Decidable (file.Names pointer name) :=
  inferInstanceAs (Decidable (_ ∧ _ ∧ _))

-- The file stores these members at this place: in a B-tree, in its children from
-- the i-th on, in one node below a B-tree, in the first entries of a symbol node.
-- A derivation is finite, so the groups it passes are nested without a cycle.
inductive Stores (file : MatFile) : Place → Members → Prop where
  | tree (used : 0 < file.number (nodeAddress+6) 2) (below : Stores file (.child nodeAddress heapAddress 0) members) :
      Stores file (.tree nodeAddress heapAddress) members
  | lastChild : Stores file (.child nodeAddress heapAddress (file.number (nodeAddress+6) 2)) .nil
  | child (more : i < file.number (nodeAddress+6) 2)
      (first : Stores file (.node (subNodeAddress file nodeAddress i) heapAddress) here)
      (others : Stores file (.child nodeAddress heapAddress (i+1)) later) :
      Stores file (.child nodeAddress heapAddress i) (here.append later)
  | inner (signature : file.shows nodeAddress "TREE" = true) (below : Stores file (.tree nodeAddress heapAddress) members) :
      Stores file (.node nodeAddress heapAddress) members
  | symbols (signature : file.shows nodeAddress "SNOD" = true) (used : 0 < file.number (nodeAddress+6) 2)
      (entries : Stores file (.symbol nodeAddress heapAddress (file.number (nodeAddress+6) 2)) members) :
      Stores file (.node nodeAddress heapAddress) members
  | noSymbol : Stores file (.symbol nodeAddress heapAddress 0) .nil
  | leaf (named : file.Names (heapDataSegment file heapAddress+
        file.number (symbolEntry file nodeAddress i) file.sBlock.sizeOfOffsets) name)
      (plain : file.number (symbolEntry file nodeAddress i+2*file.sBlock.sizeOfOffsets) 4 = 0)
      (others : Stores file (.symbol nodeAddress heapAddress i) rest) :
      Stores file (.symbol nodeAddress heapAddress (i+1))
        (.cons name (file.address (symbolEntry file nodeAddress i+file.sBlock.sizeOfOffsets)) .nil rest)
  | group (named : file.Names (heapDataSegment file heapAddress+
        file.number (symbolEntry file nodeAddress i) file.sBlock.sizeOfOffsets) name)
      (cached : file.number (symbolEntry file nodeAddress i+2*file.sBlock.sizeOfOffsets) 4 = 1)
      (below : Stores file (.tree (file.address (symbolEntry file nodeAddress i+2*file.sBlock.sizeOfOffsets+8))
        (file.address (symbolEntry file nodeAddress i+3*file.sBlock.sizeOfOffsets+8))) members)
      (others : Stores file (.symbol nodeAddress heapAddress i) rest) :
      Stores file (.symbol nodeAddress heapAddress (i+1))
        (.cons name (file.address (symbolEntry file nodeAddress i+file.sBlock.sizeOfOffsets)) members rest)

section Names
variable {file : MatFile}

theorem cString_exact {bytes : FileBytes} (bound : name.length < left) (ended : bytes (pointer+name.length) = 0)
    (shown : ∀ k (_ : k < name.length), bytes (pointer+k) = name[k] ∧ name[k] ≠ 0) :
    cString bytes pointer left = some name := by
  induction name generalizing pointer left with
  | nil =>
    obtain ⟨left,rfl⟩ : ∃ k, left = k+1 := ⟨left-1,by simp at bound; omega⟩
    simp only [cString,List.length_nil,Nat.add_zero] at ended ⊢
    rw [if_pos ended]
  | cons char name ih =>
    obtain ⟨left,rfl⟩ : ∃ k, left = k+1 := ⟨left-1,by simp at bound; omega⟩
    obtain ⟨here,used⟩ := shown 0 (by simp)
    simp only [Nat.add_zero,List.getElem_cons_zero] at here used
    have endedLater : bytes (pointer+1+name.length) = 0 := by
      rw [← ended]
      congr 1
      simp only [List.length_cons]
      omega
    have later := ih (Nat.lt_of_succ_lt_succ bound) endedLater
      (fun k below => by
        obtain ⟨same,nonzero⟩ := shown (k+1) (by simp; omega)
        simp only [List.getElem_cons_succ] at same nonzero
        exact ⟨by rw [← same]; congr 1; omega,nonzero⟩)
    rw [cString,here,if_neg used,later]
    rfl

theorem text_exact (named : file.Names pointer name) : file.text pointer = some name := by
  obtain ⟨inside,ended,shown⟩ := named
  exact cString_exact (by omega) ended shown

theorem longName_long (path name : Text) : name.length ≤ (longNameUnder path name).length := by
  unfold longNameUnder
  split
  · simp only [List.length_append,List.length_cons]; omega
  · exact Nat.le_refl _

theorem snod_no_tree (signature : file.shows pointer "SNOD" = true) : file.shows pointer "TREE" = false := by
  have first : file.bytes pointer = 83 := by
    simp [MatFile.shows,bytesMatch] at signature
    exact signature.1
  simp [MatFile.shows,bytesMatch,first]

end Names

namespace Members
variable {first later : Members}

theorem append_nil (first : Members) : first.append .nil = first := by
  induction first with
  | nil => rfl
  | cons _ _ _ _ _ ih => rw [append,ih]

theorem append_length (first later : Members) : (first.append later).length = first.length+later.length := by
  induction first with
  | nil => simp [append,length]
  | cons _ _ _ _ _ ih => simp only [append,length,ih]; omega

theorem append_size (first later : Members) : (first.append later).size = first.size+later.size := by
  induction first with
  | nil => simp [append,size]
  | cons _ _ _ _ _ ih => simp only [append,size,ih]; omega

theorem append_short : (first.append later).Short path ↔ first.Short path ∧ later.Short path := by
  induction first with
  | nil => simp [append,Short]
  | cons _ _ _ _ _ ih => simp only [append,Short,ih,and_assoc]

end Members

structure ShowsEntry (object : Data) (super : Nat) (path name : Text) (address count : Nat) : Prop where
  shortName : object.shortName = name
  longName : object.longName = longNameUnder path name
  thisObjAddress : object.thisObjAddress = address
  superObject : object.superObject = some super
  subObjects : object.subObjects.length = count
  numSubObjs : object.numSubObjs = count%2^32

-- The objects of these members, attached to super: entry after entry, each
-- followed by all that is below it, they are the objects numbered from first on.
inductive Built (heap : Heap) : Nat → Text → Nat → Members → List Nat → Prop where
  | nil : Built heap super path first .nil []
  | cons (entry : ShowsEntry (heap.objects first) super path name address members.length)
      (below : Built heap first (longNameUnder path name) (first+1) members (heap.children first))
      (others : Built heap super path (first+1+members.size) rest ptrs) :
      Built heap super path first (.cons name address members rest) (first::ptrs)

theorem Built.transport (built : Built heap super path first members ptrs)
    (same : ∀ ptr, first ≤ ptr → ptr < first+members.size → after.objects ptr = heap.objects ptr) :
    Built after super path first members ptrs := by
  induction built with
  | nil => exact .nil
  | @cons first super path name address members rest ptrs entry below others belowIh othersIh =>
    simp only [Members.size] at same
    have here : after.objects first = heap.objects first := same first (Nat.le_refl _) (by omega)
    refine .cons (here ▸ entry) ?_ (othersIh fun ptr low high => same ptr (by omega) (by omega))
    have kept : after.children first = heap.children first := by rw [Heap.children,here]; rfl
    rw [kept]
    exact belowIh fun ptr low high => same ptr (by omega) (by omega)

theorem Built.append (left : Built heap super path first here ptrs)
    (right : Built heap super path (first+here.size) later others) :
    Built heap super path first (here.append later) (ptrs++others) := by
  induction left with
  | nil => exact right
  | cons entry below others belowIh othersIh =>
    refine .cons entry below (othersIh ?_)
    rw [Members.size] at right
    rwa [show ∀ a b c : Nat, a+1+b+c = a+(1+b+c) by omega]

theorem Built.length (built : Built heap super path first members ptrs) : ptrs.length = members.length := by
  induction built with
  | nil => rfl
  | cons _ _ _ _ othersIh => simp only [List.length_cons,Members.length,othersIh]

structure Ready (heap : Heap) (object : Nat) (path : Text) : Prop where
  allocated : object < heap.fresh
  named : (heap.objects object).longName = path
  tight : (heap.objects object).subObjects.Tight
  queue : heap.objectQueue.Tight

-- All that attaching these members to an object has done to the heap.
structure Grown (heap : Heap) (object : Nat) (path : Text) (members : Members) (after : Heap) : Prop where
  fresh : after.fresh = heap.fresh+members.size
  queued : after.objectQueue.live = heap.objectQueue.live++List.range' heap.fresh members.size
  queue : after.objectQueue.Tight
  frame : ∀ other, other ≠ object → other < heap.fresh → after.objects other = heap.objects other
  parent : ∃ subObjects : Queue Nat, subObjects.Tight ∧ after.objects object = {heap.objects object with
    subObjects:=subObjects,numSubObjs:=((heap.objects object).numSubObjs+members.length)%2^32}
  attached : ∃ ptrs, after.children object = heap.children object++ptrs ∧
    Built after object path heap.fresh members ptrs

section Growth
variable {heap middle after : Heap}

theorem Grown.ready (ready : Ready heap object path) (grown : Grown heap object path members after) :
    Ready after object path := by
  obtain ⟨subObjects,tight,parent⟩ := grown.parent
  refine ⟨?_,?_,?_,grown.queue⟩
  · have := ready.allocated
    rw [grown.fresh]
    omega
  · rw [parent]; exact ready.named
  · rw [parent]; exact tight

theorem Grown.refl (ready : Ready heap object path) (count : (heap.objects object).numSubObjs < 2^32) :
    Grown heap object path .nil heap where
  fresh := rfl
  queued := (List.append_nil _).symm
  queue := ready.queue
  frame _ _ _ := rfl
  parent := ⟨_,ready.tight,by simp only [Members.length,Nat.add_zero,Nat.mod_eq_of_lt count]⟩
  attached := ⟨[],(List.append_nil _).symm,.nil⟩

theorem Grown.append (ready : Ready heap object path) (left : Grown heap object path here middle)
    (right : Grown middle object path later after) : Grown heap object path (here.append later) after := by
  have := ready.allocated
  obtain ⟨subObjects,tight,parent⟩ := left.parent
  obtain ⟨moreObjects,more,grandparent⟩ := right.parent
  obtain ⟨ptrs,attached,built⟩ := left.attached
  obtain ⟨others,added,rest⟩ := right.attached
  refine ⟨?_,?_,right.queue,?_,⟨moreObjects,more,?_⟩,⟨ptrs++others,?_,?_⟩⟩
  · rw [right.fresh,left.fresh,Members.append_size]
    omega
  · rw [right.queued,left.queued,left.fresh,Members.append_size,List.append_assoc,List.range'_append_1]
  · intro other different older
    rw [right.frame other different (by rw [left.fresh]; omega),left.frame other different older]
  · rw [grandparent,parent,Members.append_length]
    simp only [Nat.mod_add_mod,Nat.add_assoc]
  · rw [added,attached,List.append_assoc]
  · refine .append (built.transport fun ptr low high => ?_) (left.fresh ▸ rest)
    exact right.frame ptr (by omega) (by rw [left.fresh]; exact high)

theorem connect_exact (ready : Ready heap object path)
    (short : (longNameUnder path name).length < 2^16) (address : Nat) :
    ∃ middle, connectSubObject heap object address name = some (heap.fresh,middle) ∧
      Grown heap object path (.cons name address .nil .nil) (middle.register heap.fresh) ∧
      Ready (middle.register heap.fresh) heap.fresh (longNameUnder path name) := by
  have older : object ≠ heap.fresh := by have := ready.allocated; omega
  have fits : name.length < 2^16 ∧ (longNameUnder (heap.objects object).longName name).length < 2^16 :=
    ⟨Nat.lt_of_le_of_lt (longName_long path name) short,by rw [ready.named]; exact short⟩
  unfold connectSubObject
  simp only [if_pos fits]
  refine ⟨_,rfl,⟨rfl,?_,?_,?_,?_,?_⟩,?_⟩
  · exact NodeList.enqueue_live ready.queue _
  · exact NodeList.enqueue_tight ready.queue _
  · intro other different allocated
    rw [Heap.register_objects,Heap.update_other _ different,Heap.alloc_other _ (by omega)]
  · refine ⟨enqueue (heap.objects object).subObjects heap.fresh,NodeList.enqueue_tight ready.tight heap.fresh,?_⟩
    rw [Heap.register_objects,Heap.update_same,Heap.alloc_other _ older]
    rfl
  · refine ⟨[heap.fresh],?_,.cons ?_ ?_ .nil⟩
    · rw [Heap.children,Heap.register_objects,Heap.update_same,Heap.alloc_other _ older]
      exact NodeList.enqueue_live ready.tight _
    · rw [Heap.register_objects,Heap.update_other _ (Ne.symm older),Heap.alloc_same]
      exact ⟨rfl,by rw [ready.named],rfl,rfl,rfl,rfl⟩
    · rw [Heap.children,Heap.register_objects,Heap.update_other _ (Ne.symm older),Heap.alloc_same]
      exact .nil
  · refine ⟨Nat.lt_succ_self _,?_,?_,NodeList.enqueue_tight ready.queue _⟩
    · rw [Heap.register_objects,Heap.update_other _ (Ne.symm older),Heap.alloc_same,ready.named]
    · rw [Heap.register_objects,Heap.update_other _ (Ne.symm older),Heap.alloc_same]
      exact NodeList.init_tight

theorem Grown.group (entered : Grown heap object path (.cons name address .nil .nil) middle)
    (allocated : object < heap.fresh)
    (below : Grown middle heap.fresh (longNameUnder path name) members after) :
    Grown heap object path (.cons name address members .nil) after := by
  obtain ⟨subObjects,tight,parent⟩ := entered.parent
  obtain ⟨ptrs,attached,built⟩ := entered.attached
  obtain ⟨moreObjects,more,grown⟩ := below.parent
  obtain ⟨others,added,deeper⟩ := below.attached
  have fresh : middle.fresh = heap.fresh+1 := entered.fresh
  have here : after.objects object = middle.objects object := below.frame object (by omega) (by omega)
  cases built with
  | cons entry bare last =>
    cases last
    generalize alone : middle.children heap.fresh = none_ at bare
    cases bare
    rw [alone,List.nil_append] at added
    refine ⟨?_,?_,below.queue,?_,⟨subObjects,tight,?_⟩,[heap.fresh],?_,.cons ?_ ?_ .nil⟩
    · rw [below.fresh,fresh]
      simp only [Members.size]
      omega
    · rw [below.queued,entered.queued,List.append_assoc,fresh]
      simp only [Members.size]
      rw [show 1+members.size+0 = members.size+1 by omega,List.range'_succ]
      rfl
    · intro other different older
      rw [below.frame other (by omega) (by omega),entered.frame other different older]
    · rw [here,parent]
      simp only [Members.length]
    · rw [Heap.children,here]
      exact attached
    · rw [grown]
      refine ⟨entry.shortName,entry.longName,entry.thisObjAddress,entry.superObject,?_,?_⟩
      · have counted := more.counted
        rw [Heap.children,grown] at added
        rw [added,deeper.length] at counted
        exact counted
      · rw [entry.numSubObjs]
        simp only [Members.length,Nat.zero_mod,Nat.zero_add]
    · rw [added,← fresh]
      exact deeper

end Growth

section Walk
variable {file : MatFile}

def Place.walk (file : MatFile) (fuel object : Nat) : Place → Heap → Option (Nat × Heap)
  | .tree nodeAddress heapAddress => readTreeNode file fuel object nodeAddress heapAddress
  | .child nodeAddress heapAddress i => readSubNodes file (readTreeNode file fuel) object heapAddress
      ((List.range' i (file.number (nodeAddress+6) 2-i)).map (subNodeAddress file nodeAddress))
  | .node nodeAddress heapAddress => readSnod file (readTreeNode file fuel) object nodeAddress heapAddress
  | .symbol nodeAddress heapAddress count => readSymbols file (readTreeNode file fuel) object nodeAddress heapAddress count

def Walked (file : MatFile) (place : Place) (heap : Heap) (object : Nat) (path : Text) (members : Members) : Prop :=
  ∃ bound after, (∀ fuel, bound ≤ fuel → place.walk file fuel object heap = some (0,after)) ∧
    Grown heap object path members after

theorem numSubObjs_narrow (grown : Grown heap object path members after) : (after.objects object).numSubObjs < 2^32 := by
  obtain ⟨_,_,parent⟩ := grown.parent
  rw [parent]
  exact Nat.mod_lt _ (by decide)

theorem stored_walked (stored : Stores file place members) (ready : Ready heap object path)
    (count : (heap.objects object).numSubObjs < 2^32) (short : members.Short path) :
    Walked file place heap object path members := by
  induction stored generalizing heap object path with
  | @tree nodeAddress heapAddress members used below ih =>
    obtain ⟨bound,after,walked,grown⟩ := ih ready count short
    refine ⟨bound+1,after,fun fuel enough => ?_,grown⟩
    obtain ⟨fuel,rfl⟩ : ∃ k, fuel = k+1 := ⟨fuel-1,by omega⟩
    have walk := walked fuel (by omega)
    simp only [Place.walk,Nat.sub_zero,← List.range_eq_range'] at walk
    simp only [Place.walk,readTreeNode,if_pos used,walk]
  | lastChild =>
    refine ⟨0,heap,fun fuel _ => ?_,.refl ready count⟩
    simp only [Place.walk,Nat.sub_self,List.range'_zero,List.map_nil,readSubNodes]
  | @child i nodeAddress heapAddress here later more first others firstIh othersIh =>
    obtain ⟨hereShort,laterShort⟩ := Members.append_short.mp short
    obtain ⟨bound,middle,walked,grown⟩ := firstIh ready count hereShort
    obtain ⟨limit,after,walkedOn,grownOn⟩ := othersIh (grown.ready ready) (numSubObjs_narrow grown) laterShort
    refine ⟨max bound limit,after,fun fuel enough => ?_,grown.append ready grownOn⟩
    have walk := walked fuel (by omega)
    have walkOn := walkedOn fuel (by omega)
    simp only [Place.walk] at walk walkOn ⊢
    rw [show file.number (nodeAddress+6) 2-i = file.number (nodeAddress+6) 2-(i+1)+1 by omega,List.range'_succ,List.map_cons]
    simp only [readSubNodes,walk,Option.bind_eq_bind,Option.bind_some,walkOn]
    rfl
  | @inner nodeAddress heapAddress members signature below ih =>
    obtain ⟨bound,after,walked,grown⟩ := ih ready count short
    refine ⟨bound,after,fun fuel enough => ?_,grown⟩
    have walk := walked fuel enough
    simp only [Place.walk] at walk
    simp only [Place.walk,readSnod,signature,if_true,walk,Option.bind_eq_bind,Option.bind_some]
  | @symbols nodeAddress heapAddress members signature used entries ih =>
    obtain ⟨bound,after,walked,grown⟩ := ih ready count short
    refine ⟨bound,after,fun fuel enough => ?_,grown⟩
    have walk := walked fuel enough
    simp only [Place.walk] at walk
    simp only [Place.walk,readSnod,snod_no_tree signature,Bool.false_eq_true,if_false,walk]
  | noSymbol => exact ⟨0,heap,fun fuel _ => rfl,.refl ready count⟩
  | @leaf heapAddress nodeAddress i name rest named plain others ih =>
    obtain ⟨pathShort,_,restShort⟩ := short
    obtain ⟨middle,connected,entered,_⟩ := connect_exact ready pathShort
      (file.address (symbolEntry file nodeAddress i+file.sBlock.sizeOfOffsets))
    obtain ⟨bound,after,walked,grown⟩ := ih (entered.ready ready) (numSubObjs_narrow entered) restShort
    refine ⟨bound,after,fun fuel enough => ?_,entered.append ready grown⟩
    have walk := walked fuel enough
    simp only [Place.walk] at walk
    simp only [Place.walk,readSymbols,text_exact named,connected,Option.bind_eq_bind,Option.bind_some,plain,walk]
    rfl
  | @group heapAddress nodeAddress i name members rest named cached below others belowIh othersIh =>
    obtain ⟨pathShort,belowShort,restShort⟩ := short
    obtain ⟨middle,connected,entered,inside⟩ := connect_exact ready pathShort
      (file.address (symbolEntry file nodeAddress i+file.sBlock.sizeOfOffsets))
    have empty : ((middle.register heap.fresh).objects heap.fresh).numSubObjs < 2^32 := by
      obtain ⟨_,_,built⟩ := entered.attached
      cases built with
      | cons entry _ _ => rw [entry.numSubObjs]; exact Nat.mod_lt _ (by decide)
    obtain ⟨bound,deeper,walked,filled⟩ := belowIh inside empty belowShort
    have grouped := entered.group ready.allocated filled
    obtain ⟨limit,after,walkedOn,grown⟩ := othersIh (grouped.ready ready) (numSubObjs_narrow grouped) restShort
    refine ⟨max bound limit,after,fun fuel enough => ?_,grouped.append ready grown⟩
    have walk := walked fuel (by omega)
    have walkOn := walkedOn fuel (by omega)
    simp only [Place.walk] at walk walkOn
    simp only [Place.walk,readSymbols,text_exact named,connected,Option.bind_eq_bind,Option.bind_some,cached,walk,walkOn]
    rfl

theorem start_ready : Ready startHeap virtualSuperObject [] := by
  refine ⟨Nat.zero_lt_one,rfl,NodeList.init_tight,?_⟩
  exact NodeList.enqueue_tight NodeList.init_tight _

end Walk

theorem Built.counted (built : Built heap super path first members ptrs) (narrow : members.Narrow) (low : first ≤ ptr)
    (high : ptr < first+members.size) : (heap.objects ptr).numSubObjs = (heap.objects ptr).subObjects.length := by
  induction built with
  | nil => simp only [Members.size] at high; omega
  | @cons first super path name address members rest ptrs entry below others belowIh othersIh =>
    obtain ⟨few,belowNarrow,restNarrow⟩ := narrow
    simp only [Members.size] at high
    by_cases same : ptr = first
    · subst same
      rw [entry.numSubObjs,entry.subObjects,Nat.mod_eq_of_lt few]
    · by_cases inside : ptr < first+1+members.size
      · exact belowIh belowNarrow (by omega) (by omega)
      · exact othersIh restNarrow (by omega) (by omega)

-- The object tree of the file: one object for each entry, under virtual_super_object
-- and attached to the object of its group, all of them once in object_queue.
structure Skeleton (members : Members) (after : Heap) : Prop where
  built : Built after virtualSuperObject [] 1 members (after.children virtualSuperObject)
  fresh : after.fresh = 1+members.size
  queued : after.objectQueue.live = List.range (1+members.size)
  counted : ∀ ptr < after.fresh, (after.objects ptr).numSubObjs = (after.objects ptr).subObjects.length

theorem stored_skeleton {file : MatFile} (stored : Stores file (.tree file.sBlock.rootTreeAddress file.sBlock.rootHeapAddress) members)
    (short : members.Short []) :
    ∃ bound after, (∀ fuel, bound ≤ fuel → makeObjectTreeSkeleton file fuel startHeap = some (0,after)) ∧
      Grown startHeap virtualSuperObject [] members after :=
  stored_walked stored start_ready (by decide) short

theorem Grown.rootCount (grown : Grown startHeap virtualSuperObject [] members after) :
    (after.objects virtualSuperObject).numSubObjs = members.length%2^32 ∧
      (after.objects virtualSuperObject).subObjects.length = members.length := by
  obtain ⟨subObjects,tight,parent⟩ := grown.parent
  obtain ⟨ptrs,attached,built⟩ := grown.attached
  have counted := tight.counted
  have children : subObjects.live = ptrs := by
    rw [Heap.children,parent] at attached
    exact attached
  rw [parent]
  refine ⟨?_,?_⟩
  · show (0+members.length)%2^32 = _
    rw [Nat.zero_add]
  · rw [← built.length,← children]
    exact counted

theorem makeObjectTreeSkeleton_exact (file : MatFile) (members : Members)
    (stored : Stores file (.tree file.sBlock.rootTreeAddress file.sBlock.rootHeapAddress) members)
    (short : members.Short []) (few : members.length < 2^32) (narrow : members.Narrow) :
    ∃ bound after, (∀ fuel, bound ≤ fuel → makeObjectTreeSkeleton file fuel startHeap = some (0,after)) ∧
      Skeleton members after := by
  obtain ⟨bound,after,walked,grown⟩ := stored_skeleton stored short
  obtain ⟨ptrs,attached,built⟩ := grown.attached
  have children : after.children virtualSuperObject = ptrs := attached
  refine ⟨bound,after,walked,children ▸ built,grown.fresh,?_,?_⟩
  · rw [grown.queued,List.range_eq_range',Nat.add_comm,List.range'_succ]
    rfl
  · intro ptr allocated
    by_cases root : ptr = virtualSuperObject
    · rw [root,grown.rootCount.1,grown.rootCount.2,Nat.mod_eq_of_lt few]
    · exact built.counted narrow (Nat.one_le_iff_ne_zero.mpr root) (by rw [← grown.fresh]; exact allocated)

def wordFile (words : List Nat) (sBlock : Superblock) : MatFile :=
  ⟨⟨4096,8*words.length,page_granular⟩,fun a => UInt8.ofNat (words.getD (a/8) 0/256^(a%8)),sBlock⟩

-- One symbol node with the variable x and the group g, and below g the variable y.
def smallFile : MatFile := wordFile
  [0x0001000045455254,0,0,0,48,0,
   0x00020001444f4e53,8,800,0,0,0,16,808,1,160,320,0,0,0,
   0x0001000045455254,0,0,0,208,0,
   0x00010001444f4e53,24,816,0,0,0,0,0,0,0,0,0,0,0,
   0x50414548,32,0,352,0,120,103,121] ⟨8,8,40,0,0,320⟩

def smallMembers : Members := .cons (textOf "g") 808 (.cons (textOf "y") 816 .nil .nil) (.cons (textOf "x") 800 .nil .nil)

theorem Stores.single {file : MatFile} (used : file.number (nodeAddress+6) 2 = 1)
    (child : subNodeAddress file nodeAddress 0 = address) (below : Stores file (.node address heapAddress) members) :
    Stores file (.tree nodeAddress heapAddress) members := by
  have last := @Stores.lastChild file nodeAddress heapAddress
  rw [used] at last
  have whole := Stores.child (used ▸ Nat.zero_lt_one) (child ▸ below) last
  rw [members.append_nil] at whole
  exact .tree (used ▸ Nat.zero_lt_one) whole

theorem Stores.counted {file : MatFile} (signature : file.shows nodeAddress "SNOD" = true)
    (used : file.number (nodeAddress+6) 2 = count+1)
    (entries : Stores file (.symbol nodeAddress heapAddress (count+1)) members) :
    Stores file (.node nodeAddress heapAddress) members :=
  .symbols signature (used ▸ Nat.succ_pos count) (used ▸ entries)

theorem small_stored : Stores smallFile (.tree 0 320) smallMembers := by
  have y : Stores smallFile (.symbol 208 320 1) (.cons (textOf "y") 816 .nil .nil) := by
    have address : smallFile.address (symbolEntry smallFile 208 0+8) = 816 := by decide +kernel
    rw [← address]
    exact .leaf (by decide +kernel) (by decide +kernel) .noSymbol
  have below : Stores smallFile (.tree 160 320) (.cons (textOf "y") 816 .nil .nil) :=
    .single (by decide +kernel) (by decide +kernel) (.counted (by decide +kernel) (by decide +kernel) y)
  have x : Stores smallFile (.symbol 48 320 1) (.cons (textOf "x") 800 .nil .nil) := by
    have address : smallFile.address (symbolEntry smallFile 48 0+8) = 800 := by decide +kernel
    rw [← address]
    exact .leaf (by decide +kernel) (by decide +kernel) .noSymbol
  have g : Stores smallFile (.symbol 48 320 2) smallMembers := by
    have address : smallFile.address (symbolEntry smallFile 48 1+8) = 808 := by decide +kernel
    have tree : smallFile.address (symbolEntry smallFile 48 1+2*8+8) = 160 := by decide +kernel
    have heap : smallFile.address (symbolEntry smallFile 48 1+3*8+8) = 320 := by decide +kernel
    rw [← tree,← heap] at below
    rw [smallMembers,← address]
    exact .group (by decide +kernel) (by decide +kernel) below x
  exact .single (by decide +kernel) (by decide +kernel) (.counted (by decide +kernel) (by decide +kernel) g)

theorem makeObjectTreeSkeleton_small : ∃ bound after,
    (∀ fuel, bound ≤ fuel → makeObjectTreeSkeleton smallFile fuel startHeap = some (0,after)) ∧ Skeleton smallMembers after :=
  makeObjectTreeSkeleton_exact smallFile smallMembers small_stored (by simp [smallMembers,Members.Short,longNameUnder,textOf])
    (by decide) (by simp [smallMembers,Members.Narrow,Members.length])

-- Four levels of nodes below which the root group has 2^32 entries, each with a
-- name and an object header of its own. All fields are aligned words; the names
-- are behind them.
section Wide

def rootWord (w : Nat) : Nat :=
  if w = 0 then 0x0004020045455254 else if w%2 = 0 then 2^20*(1+(w-4)/2) else 0

def treeWord (tree w : Nat) : Nat :=
  if w = 0 then 0x8000010045455254 else if w%2 = 0 then 2^38+(tree*2^15+(w-4)/2)*2^21 else 0

def snodWord (node w : Nat) : Nat :=
  if w = 0 then 0x80000001444f4e53
  else if w%5 = 1 then 16*(node*2^15+w/5)
  else if w%5 = 2 then 2^44+256*(node*2^15+w/5)
  else 0

def wideWord (w : Nat) : Nat :=
  if w < 128 then rootWord w
  else if w < 2^17 then if w = 131 then 2^40 else 0
  else if w < 2^35 then treeWord (w/2^17-1) (w%2^17)
  else snodWord ((w-2^35)/2^18) (w%2^18)

def wideLetter (entry k : Nat) : UInt8 := UInt8.ofNat (97+entry/16^k%16)

def wideBytes (a : Nat) : UInt8 :=
  if a < 2^40 then UInt8.ofNat (wideWord (a/8)/256^(a%8))
  else if a%16 < 8 then wideLetter ((a-2^40)/16) (a%16) else 0

def wideFile : MatFile := ⟨⟨4096,2^60,page_granular⟩,wideBytes,⟨8,8,40,0,0,1024⟩⟩

def wideName (entry : Nat) : Text := (List.range 8).map (wideLetter entry)

def wideSymbols (node : Nat) : Nat → Members
  | 0 => .nil
  | i+1 => .cons (wideName (node*2^15+i)) (2^44+256*(node*2^15+i)) .nil (wideSymbols node i)

def wideNodes (node : Nat) : Nat → Members
  | 0 => .nil
  | left+1 => (wideSymbols node (2^15)).append (wideNodes (node+1) left)

def wideTrees (tree : Nat) : Nat → Members
  | 0 => .nil
  | left+1 => (wideNodes (tree*2^15) (2^15)).append (wideTrees (tree+1) left)

theorem wide_number (w : Nat) (low : w < 2^37) (fits : j+n ≤ 8) :
    getBytesAsNumber wideBytes (8*w+j) n = wideWord w/256^j%256^n := by
  rw [getBytesAsNumber,Nat.min_eq_left (by omega)]
  induction n generalizing j with
  | zero => simp [littleEndian,Nat.mod_one]
  | succ n ih =>
    have byte : (wideBytes (8*w+j)).toNat = wideWord w/256^j%256 := by
      rw [wideBytes,if_pos (by omega),show (8*w+j)/8 = w by omega,show (8*w+j)%8 = j by omega]
      simp
    rw [littleEndian,byte,Nat.add_assoc,ih (by omega),Nat.pow_succ 256 j,Nat.pow_succ' (m:=256),
      ← Nat.div_div_eq_div_mul,Nat.mod_mul]

theorem wide_field (w : Nat) (low : w < 2^37) (fits : n ≤ 8) : wideFile.number (8*w) n = wideWord w%256^n := by
  have number := wide_number (j:=0) (n:=n) w low (by omega)
  simp only [Nat.add_zero,Nat.pow_zero,Nat.div_one] at number
  exact number

theorem wide_address (w : Nat) (low : w < 2^37) (value : wideWord w < 2^64) :
    wideFile.address (8*w) = wideWord w := by
  rw [MatFile.address,show wideFile.sBlock.sizeOfOffsets = 8 from rfl,show wideFile.sBlock.baseAddress = 0 from rfl,
    wide_field w low (by omega),addressBits]
  omega

theorem wide_count (w : Nat) (low : w < 2^37) : wideFile.number (8*w+6) 2 = wideWord w/256^6%256^2 :=
  wide_number (j:=6) (n:=2) w low (by omega)

theorem wide_byte (w : Nat) (low : w < 2^37) (j : Nat) (fits : j < 8) :
    wideFile.bytes (8*w+j) = UInt8.ofNat (wideWord w/256^j) := by
  show wideBytes _ = _
  rw [wideBytes,if_pos (by omega),show (8*w+j)/8 = w by omega,show (8*w+j)%8 = j by omega]

theorem wide_shows (w : Nat) (low : w < 2^37) (text : String)
    (shown : [0,1,2,3].map (fun j => UInt8.ofNat (wideWord w/256^j)) = textOf text) : wideFile.shows (8*w) text = true := by
  have byte := fun j (fits : j < 8) => wide_byte w low j fits
  show bytesMatch wideFile.bytes (8*w) (textOf text) = true
  rw [← shown]
  simp only [List.map_cons,List.map_nil,bytesMatch,Nat.add_assoc,Nat.reduceAdd,
    ← byte 0 (by omega),← byte 1 (by omega),← byte 2 (by omega),← byte 3 (by omega),Nat.add_zero,beq_self_eq_true,Bool.and_self]

theorem wide_letter (entry : Nat) : wideLetter entry k ≠ 0 := by
  intro zero
  have value := congrArg UInt8.toNat zero
  rw [wideLetter,UInt8.toNat_ofNat_of_lt' (by simp only [UInt8.size]; omega)] at value
  simp at value

theorem wide_names (entry : Nat) (few : entry < 2^32) : wideFile.Names (2^40+16*entry) (wideName entry) := by
  have length : (wideName entry).length = 8 := by simp [wideName]
  refine ⟨?_,?_,fun k below => ?_⟩
  · rw [length]
    simp only [wideFile]
    omega
  · rw [length]
    show wideBytes _ = 0
    rw [wideBytes,if_neg (by omega),if_neg (by omega)]
  · rw [length] at below
    simp only [wideName,List.getElem_map,List.getElem_range]
    refine ⟨?_,wide_letter entry⟩
    show wideBytes _ = _
    rw [wideBytes,if_neg (by omega),if_pos (by omega),show (2^40+16*entry+k-2^40)/16 = entry by omega,
      show (2^40+16*entry+k)%16 = k by omega]

theorem wide_tree (tree w : Nat) (few : tree < 4) (inside : w < 2^17) :
    wideWord (2^17*(tree+1)+w) = treeWord tree w := by
  rw [wideWord,if_neg (by omega),if_neg (by omega),if_pos (by omega),show (2^17*(tree+1)+w)/2^17-1 = tree by omega,
    show (2^17*(tree+1)+w)%2^17 = w by omega]

theorem wide_snod (node w : Nat) (inside : w < 2^18) : wideWord (2^35+2^18*node+w) = snodWord node w := by
  rw [wideWord,if_neg (by omega),if_neg (by omega),if_neg (by omega),show (2^35+2^18*node+w-2^35)/2^18 = node by omega,
    show (2^35+2^18*node+w)%2^18 = w by omega]

theorem wide_symbols (node : Nat) (few : node < 2^17) (count : Nat) (fits : count ≤ 2^15) :
    Stores wideFile (.symbol (8*(2^35+2^18*node)) 1024 count) (wideSymbols node count) := by
  induction count with
  | zero => exact .noSymbol
  | succ i ih =>
    have entry : symbolEntry wideFile (8*(2^35+2^18*node)) i = 8*(2^35+2^18*node+(1+5*i)) := by
      simp only [symbolEntry,wideFile]
      omega
    have segment : heapDataSegment wideFile 1024 = 2^40 := wide_address 131 (by decide) (by decide)
    have name : wideWord (2^35+2^18*node+(1+5*i)) = 16*(node*2^15+i) := by
      rw [wide_snod node _ (by omega),snodWord,if_neg (by omega),if_pos (by omega)]
      omega
    have address : wideWord (2^35+2^18*node+(2+5*i)) = 2^44+256*(node*2^15+i) := by
      rw [wide_snod node _ (by omega),snodWord,if_neg (by omega),if_neg (by omega),if_pos (by omega)]
      omega
    have cache : wideWord (2^35+2^18*node+(3+5*i)) = 0 := by
      rw [wide_snod node _ (by omega),snodWord,if_neg (by omega),if_neg (by omega),if_neg (by omega)]
    have offset : wideFile.number (symbolEntry wideFile (8*(2^35+2^18*node)) i) 8 = 16*(node*2^15+i) := by
      rw [entry,wide_field _ (by omega) (by omega),name]
      omega
    have header : wideFile.address (symbolEntry wideFile (8*(2^35+2^18*node)) i+8) = 2^44+256*(node*2^15+i) := by
      rw [entry,show 8*(2^35+2^18*node+(1+5*i))+8 = 8*(2^35+2^18*node+(2+5*i)) by omega,
        wide_address _ (by omega) (by rw [address]; omega),address]
    have plain : wideFile.number (symbolEntry wideFile (8*(2^35+2^18*node)) i+2*8) 4 = 0 := by
      rw [entry,show 8*(2^35+2^18*node+(1+5*i))+2*8 = 8*(2^35+2^18*node+(3+5*i)) by omega,
        wide_field _ (by omega) (by omega),cache,Nat.zero_mod]
    have named : wideFile.Names (heapDataSegment wideFile 1024+
        wideFile.number (symbolEntry wideFile (8*(2^35+2^18*node)) i) 8) (wideName (node*2^15+i)) := by
      rw [segment,offset]
      exact wide_names _ (by omega)
    rw [wideSymbols,← header]
    exact .leaf named plain (ih (by omega))

theorem wide_node (node : Nat) (few : node < 2^17) :
    Stores wideFile (.node (8*(2^35+2^18*node)) 1024) (wideSymbols node (2^15)) := by
  have word : wideWord (2^35+2^18*node) = 0x80000001444f4e53 := wide_snod node 0 (by omega)
  have count : wideFile.number (8*(2^35+2^18*node)+6) 2 = 2^15 := by
    have number := wide_count (2^35+2^18*node) (by omega)
    rw [word] at number
    exact number
  refine .symbols ?_ (by omega) (by rw [count]; exact wide_symbols node few _ (Nat.le_refl _))
  exact wide_shows _ (by omega) "SNOD" (by rw [word]; rfl)

theorem wide_used (tree : Nat) (few : tree < 4) : wideFile.number (8*(2^17*(tree+1))+6) 2 = 2^15 := by
  have word : wideWord (2^17*(tree+1)) = 0x8000010045455254 := wide_tree tree 0 few (by omega)
  have number := wide_count (2^17*(tree+1)) (by omega)
  rw [word] at number
  exact number

theorem wide_children (tree : Nat) (few : tree < 4) (i left : Nat) (fits : i+left = 2^15) :
    Stores wideFile (.child (8*(2^17*(tree+1))) 1024 i) (wideNodes (tree*2^15+i) left) := by
  induction left generalizing i with
  | zero =>
    have last := @Stores.lastChild wideFile (8*(2^17*(tree+1))) 1024
    rw [wide_used tree few,← fits,Nat.add_zero] at last
    exact last
  | succ left ih =>
    have word : wideWord (2^17*(tree+1)+(4+2*i)) = 8*(2^35+2^18*(tree*2^15+i)) := by
      rw [wide_tree tree _ few (by omega),treeWord,if_neg (by omega),if_pos (by omega)]
      omega
    have position : 8*(2^17*(tree+1))+8+2*8+i*(8+8)+8 = 8*(2^17*(tree+1)+(4+2*i)) := by omega
    have child : subNodeAddress wideFile (8*(2^17*(tree+1))) i = 8*(2^35+2^18*(tree*2^15+i)) :=
      (congrArg wideFile.address position).trans ((wide_address _ (by omega) (by rw [word]; omega)).trans word)
    have later := ih (i+1) (by omega)
    rw [← Nat.add_assoc] at later
    refine .child (by rw [wide_used tree few]; omega) ?_ later
    rw [child]
    exact wide_node _ (by omega)

theorem wide_subtree (tree : Nat) (few : tree < 4) :
    Stores wideFile (.node (8*(2^17*(tree+1))) 1024) (wideNodes (tree*2^15) (2^15)) := by
  have word : wideWord (2^17*(tree+1)) = 0x8000010045455254 := wide_tree tree 0 few (by omega)
  have children := wide_children tree few 0 (2^15) (Nat.zero_add _)
  rw [Nat.add_zero (tree*2^15)] at children
  exact .inner (wide_shows _ (by omega) "TREE" (by rw [word]; rfl)) (.tree (by rw [wide_used tree few]; omega) children)

theorem wide_root (i left : Nat) (fits : i+left = 4) : Stores wideFile (.child 0 1024 i) (wideTrees i left) := by
  induction left generalizing i with
  | zero =>
    cases fits
    exact @Stores.lastChild wideFile 0 1024
  | succ left ih =>
    have word : wideWord (4+2*i) = 8*(2^17*(i+1)) := by
      rw [wideWord,if_pos (by omega),rootWord,if_neg (by omega),if_pos (by omega)]
      omega
    have position : 0+8+2*8+i*(8+8)+8 = 8*(4+2*i) := by omega
    have child : subNodeAddress wideFile 0 i = 8*(2^17*(i+1)) :=
      (congrArg wideFile.address position).trans ((wide_address _ (by omega) (by rw [word]; omega)).trans word)
    refine .child (by rw [show wideFile.number (0+6) 2 = 4 from rfl]; omega) ?_ (ih (i+1) (by omega))
    rw [child]
    exact wide_subtree _ (by omega)

theorem wide_stored : Stores wideFile (.tree wideFile.sBlock.rootTreeAddress wideFile.sBlock.rootHeapAddress) (wideTrees 0 4) :=
  .tree (show 0 < 4 by decide) (wide_root 0 4 rfl)

theorem wideSymbols_short (node i : Nat) : (wideSymbols node i).Short [] := by
  induction i with
  | zero => trivial
  | succ i ih => exact ⟨by simp [longNameUnder,wideName],trivial,ih⟩

theorem wideNodes_short (node left : Nat) : (wideNodes node left).Short [] := by
  induction left generalizing node with
  | zero => trivial
  | succ left ih => exact Members.append_short.mpr ⟨wideSymbols_short node _,ih _⟩

theorem wideTrees_short (tree left : Nat) : (wideTrees tree left).Short [] := by
  induction left generalizing tree with
  | zero => trivial
  | succ left ih => exact Members.append_short.mpr ⟨wideNodes_short _ _,ih _⟩

theorem wideSymbols_length (node i : Nat) : (wideSymbols node i).length = i := by
  induction i with
  | zero => rfl
  | succ i ih => rw [wideSymbols,Members.length,ih]

theorem wideNodes_length (node left : Nat) : (wideNodes node left).length = left*2^15 := by
  induction left generalizing node with
  | zero => rfl
  | succ left ih => rw [wideNodes,Members.append_length,wideSymbols_length,ih]; omega

theorem wideTrees_length (tree left : Nat) : (wideTrees tree left).length = left*2^30 := by
  induction left generalizing tree with
  | zero => rfl
  | succ left ih => rw [wideTrees,Members.append_length,wideNodes_length,ih]; omega

-- The counter of the root group is back at 0.
theorem wide_count_lost : ¬ ∀ (file : MatFile) (members : Members),
    Stores file (.tree file.sBlock.rootTreeAddress file.sBlock.rootHeapAddress) members → members.Short [] →
    ∃ bound after, (∀ fuel, bound ≤ fuel → makeObjectTreeSkeleton file fuel startHeap = some (0,after)) ∧
      Skeleton members after := by
  intro claimed
  obtain ⟨bound,after,walked,skeleton⟩ := claimed wideFile (wideTrees 0 4) wide_stored (wideTrees_short 0 4)
  obtain ⟨limit,other,again,grown⟩ := stored_skeleton wide_stored (wideTrees_short 0 4)
  have same : other = after := by
    have first := walked (max bound limit) (Nat.le_max_left _ _)
    have second := again (max bound limit) (Nat.le_max_right _ _)
    rw [first] at second
    cases second
    rfl
  subst same
  have allocated : virtualSuperObject < other.fresh := by
    rw [skeleton.fresh]
    exact Nat.lt_add_right _ Nat.zero_lt_one
  have counted := skeleton.counted virtualSuperObject allocated
  rw [grown.rootCount.1,grown.rootCount.2,wideTrees_length] at counted
  omega

end Wide

end GetMatVar
