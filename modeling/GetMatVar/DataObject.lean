import GetMatVar.Ezq
import GetMatVar.NumberHelper
import Mathlib.Logic.Function.Basic

namespace GetMatVar

-- A char* string without its NUL.
abbrev Text := List UInt8

def textOf (text : String) : Text := text.toList.map fun char => UInt8.ofNat char.toNat

inductive HDF5Datatype where
  | fixedPoint
  | floatingPoint
  | time
  | string
  | bitField
  | opaqueData
  | compound
  | reference
  | enumerated
  | variableLength
  | array
  | unknown
  | other (value : Nat)
deriving DecidableEq,Repr

def hdf5DatatypeOf : Nat → HDF5Datatype
  | 0 => .fixedPoint
  | 1 => .floatingPoint
  | 2 => .time
  | 3 => .string
  | 4 => .bitField
  | 5 => .opaqueData
  | 6 => .compound
  | 7 => .reference
  | 8 => .enumerated
  | 9 => .variableLength
  | 10 => .array
  | 11 => .unknown
  | value => .other value

-- mxSPARSE_CLASS stands for mxVOID_CLASS.
inductive MxClassID where
  | unknownClass
  | cellClass
  | structClass
  | logicalClass
  | charClass
  | sparseClass
  | doubleClass
  | singleClass
  | int8Class
  | uint8Class
  | int16Class
  | uint16Class
  | int32Class
  | uint32Class
  | int64Class
  | uint64Class
  | functionClass
  | opaqueClass
  | objectClass
deriving DecidableEq,Repr

inductive ObjectDecodingHint where
  | noObjHint
  | functionHint
  | objectHint
  | opaqueHint
  | other (value : Nat)
deriving DecidableEq,Repr

def objectDecodingHintOf : Nat → ObjectDecodingHint
  | 0 => .noObjHint
  | 1 => .functionHint
  | 2 => .objectHint
  | 3 => .opaqueHint
  | value => .other value

inductive ByteOrder where
  | littleEndian
  | bigEndian
deriving DecidableEq,Repr

-- num_client_vals is the length of client_data.
structure Filter where
  filterId : Nat
  optionalFlag : Nat
  clientData : List Nat
deriving DecidableEq,Repr

structure ChunkedInfo where
  numFilters : Nat
  filters : List Filter
  numChunkedDims : Nat
  numChunkedElems : Int
  chunkedDims : Option (List Int)
  chunkUpdate : Option (List Int)
deriving DecidableEq,Repr

-- The fields of Data that the message readers and allocateSpace set. none is
-- NULL; the arrays of dimensions end with a 0. A byte or an offset that nothing
-- has been written to is none as well.
structure MetaData where
  hdf5InternalType : HDF5Datatype
  matlabInternalType : MxClassID
  matlabSparseType : MxClassID
  matlabSparse : Bool
  matlabEmpty : Bool
  matlabObjectDecode : ObjectDecodingHint
  isStructArray : Bool
  isComplex : Bool
  datatypeBitField : Nat
  byteOrder : ByteOrder
  matlabClass : Option Text
  chunkedInfo : ChunkedInfo
  dims : Option (List Int)
  numDims : Nat
  numElems : Int
  elemSize : Nat
  layoutClass : Nat
  dataAddress : Nat
  data : Option (List (Option UInt8))
  subObjectHeaderOffsets : Option (List (Option Nat))
deriving DecidableEq,Repr

-- The lengths kept beside the names are their lengths: what would not fit in the
-- 16 bits is refused where the name is made. A name never set is empty.
structure Data extends MetaData where
  isFilled : Bool
  isReference : Bool
  longName : Text
  shortName : Text
  sCArrayIndex : Int
  thisObjAddress : Nat
  superObject : Option Nat
  subObjects : Queue Nat
  numSubObjs : Nat

def initializeObject : Data where
  hdf5InternalType := .unknown
  matlabInternalType := .unknownClass
  matlabSparseType := .unknownClass
  matlabSparse := false
  matlabEmpty := false
  matlabObjectDecode := .noObjHint
  isStructArray := false
  isComplex := false
  datatypeBitField := 0
  byteOrder := .littleEndian
  matlabClass := none
  chunkedInfo := ⟨0,[],0,0,none,none⟩
  dims := none
  numDims := 0
  numElems := 0
  elemSize := 0
  layoutClass := 3
  dataAddress := undefAddr
  data := none
  subObjectHeaderOffsets := none
  isFilled := false
  isReference := false
  longName := []
  shortName := []
  sCArrayIndex := 0
  thisObjAddress := undefAddr
  superObject := none
  subObjects := initQueue
  numSubObjs := 0

-- All Data objects made so far, by the number of their allocation, which is what
-- a Data* is here; those from fresh on are not allocated.
structure Heap where
  objects : Nat → Data
  fresh : Nat
  objectQueue : Queue Nat

namespace Heap

def update (heap : Heap) (ptr : Nat) (change : Data → Data) : Heap :=
  {heap with objects:=Function.update heap.objects ptr (change (heap.objects ptr))}

def alloc (heap : Heap) (data : Data) : Heap :=
  {heap with objects:=Function.update heap.objects heap.fresh data,fresh:=heap.fresh+1}

def register (heap : Heap) (ptr : Nat) : Heap := {heap with objectQueue:=enqueue heap.objectQueue ptr}

def children (heap : Heap) (ptr : Nat) : List Nat := (heap.objects ptr).subObjects.live

variable {heap : Heap}

@[simp] theorem update_same (change : Data → Data) :
    (heap.update ptr change).objects ptr = change (heap.objects ptr) := by simp [update]

theorem update_other (change : Data → Data) (different : other ≠ ptr) :
    (heap.update ptr change).objects other = heap.objects other := by simp [update,different]

@[simp] theorem update_fresh (change : Data → Data) : (heap.update ptr change).fresh = heap.fresh := rfl

@[simp] theorem update_queue (change : Data → Data) : (heap.update ptr change).objectQueue = heap.objectQueue := rfl

theorem update_update (first second : Data → Data) :
    (heap.update ptr first).update ptr second = heap.update ptr (second ∘ first) := by
  simp [update,Function.update_idem]

theorem update_comm (different : other ≠ ptr) (first second : Data → Data) :
    (heap.update ptr first).update other second = (heap.update other second).update ptr first := by
  simp [update,different,Ne.symm different,Function.update_comm (Ne.symm different)]

@[simp] theorem alloc_same (data : Data) : (heap.alloc data).objects heap.fresh = data := by simp [alloc]

theorem alloc_other (data : Data) (older : ptr ≠ heap.fresh) : (heap.alloc data).objects ptr = heap.objects ptr := by
  simp [alloc,older]

@[simp] theorem alloc_fresh (data : Data) : (heap.alloc data).fresh = heap.fresh+1 := rfl

@[simp] theorem alloc_queue (data : Data) : (heap.alloc data).objectQueue = heap.objectQueue := rfl

@[simp] theorem register_objects (ptr : Nat) : (heap.register ptr).objects = heap.objects := rfl

@[simp] theorem register_fresh (ptr : Nat) : (heap.register ptr).fresh = heap.fresh := rfl

end Heap

-- The heap in which getDataObjects makes the skeleton: only virtual_super_object,
-- already in object_queue.
def virtualSuperObject : Nat := 0

def startHeap : Heap := ((⟨fun _ => initializeObject,0,initQueue⟩ : Heap).alloc initializeObject).register virtualSuperObject

end GetMatVar
