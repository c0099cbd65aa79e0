import GetMatVar.CollectMetaData

namespace GetMatVar

def maxElemSize : Nat := 16

inductive Storage where
  | elements
  | cells
  | group
  | nothing
  | unknown
deriving DecidableEq,Repr

def storageOf : MxClassID → Storage
  | .int8Class => .elements
  | .uint8Class => .elements
  | .int16Class => .elements
  | .uint16Class => .elements
  | .int32Class => .elements
  | .uint32Class => .elements
  | .int64Class => .elements
  | .uint64Class => .elements
  | .singleClass => .elements
  | .doubleClass => .elements
  | .logicalClass => .elements
  | .charClass => .elements
  | .cellClass => .cells
  | .structClass => .group
  | .functionClass => .group
  | .objectClass => .nothing
  | .sparseClass => .nothing
  | .opaqueClass => .nothing
  | .unknownClass => .unknown

-- Number of bytes, or nothing for a size that cannot be allocated.
def blockSize (numElems : Int) (elemSize : Nat) : Option Nat :=
  if 0 ≤ numElems then some (numElems.toNat*elemSize) else none

def allocateSpace (object : MetaData) : Option (Nat × MetaData) :=
  match storageOf object.matlabInternalType with
  | .elements =>
    if object.elemSize > maxElemSize then some (1,object)
    else do
      let size ← blockSize object.numElems object.elemSize
      some (0,{object with data:=some (List.replicate size none)})
  | .cells =>
    if object.elemSize > maxElemSize then some (1,object)
    else do
      let count ← blockSize object.numElems 1
      some (0,{object with subObjectHeaderOffsets:=some (List.replicate count none)})
  | .group => some (0,{object with numElems:=1,numDims:=2,dims:=some [1,1,0]})
  | .nothing => some (0,object)
  | .unknown => some (1,object)

section Model
variable (file : MatFile)

-- placeData on the whole dataset, which st_navigateTo has mapped with PROT_READ. The
-- first swap of a reversal would write there; single bytes need none, and without a
-- size the loop does not end.
def placeWhole (object : MetaData) : Option MetaData :=
  if object.byteOrder = .bigEndian ∧ object.elemSize ≠ 1 ∧ 0 < object.numElems then none
  else match storageOf object.matlabInternalType with
  | .elements => some {object with
      data:=some ((List.range (object.numElems.toNat*object.elemSize)).map (fun k => some (file.bytes (object.dataAddress+k))))}
  | .cells => some {object with
      subObjectHeaderOffsets:=some ((List.range object.numElems.toNat).map
        (fun i => some (littleEndian (fun k => file.bytes (object.dataAddress+k)) (i*object.elemSize) 8)))}
  | _ => some object

-- What getChunkedData leaves in data_arrays, with its code.
structure DataArrays where
  data : Option (List (Option UInt8))
  subObjectHeaderOffsets : Option (List (Option Nat))
deriving DecidableEq,Repr

variable (chunked : MetaData → Option (Nat × DataArrays))

def fetchData (object : MetaData) : Option (Nat × MetaData) :=
  match object.layoutClass with
  | 0 => (placeWhole file object).map ((0,·))
  | 1 => (placeWhole file object).map ((0,·))
  | 2 => do
    let (code,arrays) ← chunked object
    let object := {object with data:=arrays.data,subObjectHeaderOffsets:=arrays.subObjectHeaderOffsets}
    some (if code ≠ 0 then 1 else 0,object)
  | 3 => some (0,object)
  | _ => some (1,object)

-- fillObject up to the references, on the fields of the object and of its
-- super_object. The code, if fillObject returns here. The one of
-- collectMetaData is not looked at.
def readObject (super : MetaData) (thisObjAddress : Nat) (object : MetaData) :
    Option (Option Nat × MetaData × MetaData) := do
  let headerLength := file.number (thisObjAddress+8) 4
  let numMsgs := file.number (thisObjAddress+2) 2
  let (_,object,super) ← collectMetaData file super (thisObjAddress+16) numMsgs headerLength object
  if object.matlabEmpty then some (some 0,object,super)
  else if object.hdf5InternalType = .unknown ∧ object.matlabInternalType = .unknownClass then some (some 1,object,super)
  else do
    let (code,object) ← allocateSpace object
    if code ≠ 0 then some (some 1,object,super)
    else do
      let (code,object) ← fetchData file chunked object
      if code ≠ 0 then some (some 1,object,super) else some (none,object,super)

def findObjectByHeaderAddress (heap : Heap) (objAddress : Nat) : Option Nat :=
  heap.objectQueue.live.find? (fun obj => (heap.objects obj).thisObjAddress == objAddress)

-- matlab_class is not copied. Of the offsets as many are copied as fit into
-- num_elems elements of elem_size bytes.
def clonedFields (object : MetaData) : MetaData := {object with
  matlabClass:=none
  subObjectHeaderOffsets:=object.subObjectHeaderOffsets.map (·.take (object.numElems.toNat*object.elemSize/8))
  dims:=object.dims.map (·.take (object.numDims+1))}

def cloneSubObjects (clone : Heap → Nat → Option (Nat × Heap)) (newObject : Nat) : List Nat → Heap → Option Heap
  | [],heap => some heap
  | oldSubObj::rest,heap => do
    let (copy,heap) ← clone heap oldSubObj
    cloneSubObjects clone newObject rest
      (heap.update newObject fun object => {object with subObjects:=enqueue object.subObjects copy})

-- The traversal of sub_objects sees the live items; nothing it calls moves them.
-- fuel bounds the depth, without end where an object is below itself.
def cloneData : Nat → Heap → Nat → Option (Nat × Heap)
  | 0,_,_ => none
  | fuel+1,heap,oldObject => do
    let old := heap.objects oldObject
    let newObject := heap.fresh
    let heap ← cloneSubObjects (cloneData fuel) newObject old.subObjects.live
      (heap.alloc {old with toMetaData:=clonedFields old.toMetaData,subObjects:=initQueue})
    some (newObject,heap.register newObject)

section References
variable (clone : Heap → Nat → Option (Nat × Heap)) (object : Nat)

def cloneIfSame (heap : Heap) (obj ref : Nat) : Option (Nat × Heap) :=
  if obj = ref then clone heap obj else some (ref,heap)

-- The loop that empties sub_objects in search of the object that was found; a
-- hit is replaced by a clone.
def scanSubObjects : Nat → Nat → Heap → Option (Nat × Heap)
  | 0,ref,heap => some (ref,heap)
  | left+1,ref,heap => do
    let (found,queue) := dequeue (heap.objects object).subObjects
    let obj ← found
    let heap := heap.update object fun data => {data with subObjects:=queue}
    let (ref,heap) ← cloneIfSame clone heap obj ref
    scanSubObjects left ref heap

def digits (number : Nat) : Text := (Nat.toDigits 10 number).map fun char => UInt8.ofNat char.toNat

-- short_name and long_name of element i. A name that was made empty just before,
-- because it belongs to ref, is NULL.
def elementNames (heap : Heap) (ref i : Nat) : Option (Text × Text) :=
  let parent := heap.objects object
  if ref = object then none
  else if parent.isStructArray then do
    let super ← parent.superObject
    if ref = super then none
    else some (parent.shortName,(heap.objects super).longName++textOf "("++digits (i+1)++textOf ")."++parent.shortName)
  else some (digits (i+1)++textOf "\x7d",parent.longName++textOf "\x7b"++digits (i+1)++textOf "\x7d")

-- Element i becomes this object, under names that fit their 16 bits.
def attachElement (ref i : Nat) (heap : Heap) : Option Heap := do
  let heap := heap.update ref fun data => {data with sCArrayIndex:=i}
  let heap := heap.update object fun data => {data with subObjects:=enqueue data.subObjects ref}
  let (shortName,longName) ← elementNames object heap ref i
  if i+1 < 2^31 ∧ shortName.length < 2^16 ∧ longName.length < 2^16 then
    some (heap.update ref fun data => {data with shortName:=shortName,longName:=longName,superObject:=some object})
  else none

def resolveReference (i offset : Nat) (heap : Heap) : Option (Nat × Heap) :=
  match findObjectByHeaderAddress heap ((offset+file.sBlock.baseAddress)%2^addressBits) with
  | none => some (1,heap)
  | some ref => do
    let (ref,heap) ← scanSubObjects clone object (heap.objects object).subObjects.length ref heap
    let heap := heap.update object fun data => {data with subObjects:=restartQueue data.subObjects}
    let heap ← attachElement object ref i heap
    some (0,heap)

def resolveReferences : Nat → Nat → Heap → Option (Nat × Heap)
  | 0,_,heap => some (0,heap)
  | left+1,i,heap => do
    let offsets ← (heap.objects object).subObjectHeaderOffsets
    let written ← offsets[i]?
    let offset ← written
    let (code,heap) ← resolveReference file clone object i offset heap
    if code ≠ 0 then some (1,heap) else resolveReferences left (i+1) heap

end References

-- fuel is for the clones. A header at UNDEF_ADDR cannot be mapped.
def fillObject (fuel : Nat) (heap : Heap) (object thisObjAddress : Nat) : Option (Nat × Heap) :=
  if (heap.objects object).isFilled then some (0,heap)
  else if thisObjAddress = undefAddr then none
  else do
    let superObject ← (heap.objects object).superObject
    let (returned,fields,superFields) ← readObject file chunked (heap.objects superObject).toMetaData thisObjAddress
      (heap.objects object).toMetaData
    let heap := heap.update superObject fun data => {data with toMetaData:=superFields}
    let heap := heap.update object fun data => {data with toMetaData:=fields,isFilled:=true,thisObjAddress:=thisObjAddress}
    match returned with
    | some code => some (code,heap)
    | none =>
      if fields.subObjectHeaderOffsets ≠ none ∧ fields.hdf5InternalType = .reference then
        let heap := heap.update object fun data => {data with
          subObjects:=(flushQueue data.subObjects).2,numSubObjs:=fields.numElems.toNat%2^32}
        resolveReferences file (cloneData fuel) object fields.numElems.toNat 0 heap
      else some (0,heap)

end Model

-- The loop over sub_objects. Behind the last item the traversal gives NULL.
def fillSubTrees (tree : Heap → Nat → Option (Nat × Heap)) : Nat → List Nat → Heap → Option (Nat × Heap)
  | 0,_,heap => some (0,heap)
  | _+1,[],_ => none
  | left+1,obj::rest,heap => do
    let (code,heap) ← tree heap obj
    if code ≠ 0 then some (1,heap) else fillSubTrees tree left rest heap

def fillDataTree (fill : Heap → Nat → Option (Nat × Heap)) : Nat → Heap → Nat → Option (Nat × Heap)
  | 0,_,_ => none
  | fuel+1,heap,object => do
    let (code,heap) ← fill heap object
    if code ≠ 0 then some (1,heap)
    else fillSubTrees (fillDataTree fill fuel) (heap.objects object).numSubObjs (heap.children object) heap

section Reading
variable {file : MatFile} {chunked : MetaData → Option (Nat × DataArrays)}

theorem readObject_exact (ran : readObject file chunked super address before = some (returned,after,superAfter)) :
    (returned = some 0 → after.subObjectHeaderOffsets = before.subObjectHeaderOffsets) ∧
      ∃ numDims dims, superAfter = {super with numDims:=numDims,dims:=dims} := by
  obtain ⟨⟨code,fields,superFields⟩,collected,rest⟩ := Option.bind_eq_some_iff.mp ran
  obtain ⟨_,offsets,dims⟩ := collectMetaData_exact collected
  simp only at rest
  split at rest
  · cases rest; exact ⟨fun _ => offsets,dims⟩
  · split at rest
    · cases rest; exact ⟨fun zero => absurd zero (by decide),dims⟩
    · obtain ⟨⟨allocCode,allocated⟩,_,later⟩ := Option.bind_eq_some_iff.mp rest
      simp only at later
      split at later
      · cases later; exact ⟨fun zero => absurd zero (by decide),dims⟩
      · obtain ⟨⟨fetchCode,fetched⟩,_,last⟩ := Option.bind_eq_some_iff.mp later
        simp only at last
        split at last
        · cases last; exact ⟨fun zero => absurd zero (by decide),dims⟩
        · cases last; exact ⟨fun zero => absurd zero (by decide),dims⟩

end Reading

end GetMatVar
