import GetMatVar.FillVariable

namespace GetMatVar

-- Where an array holds another one: an element of a cell array, or a field of an
-- element of a struct array.
structure MxSlot where
  index : Int
  fieldName : Option Text
deriving DecidableEq,Repr

-- What an mxArray says of itself. data is the object whose data array it took.
structure MxHeader where
  classID : MxClassID
  isSparse : Bool
  isComplex : Bool
  dims : List Int
  fieldNames : List Text
  data : Option Nat
deriving DecidableEq,Repr

-- A slot that holds NULL is none.
inductive MxArray where
  | array (header : MxHeader) (slots : MxSlot → Option MxArray)

namespace MxArray

def header : MxArray → MxHeader
  | array header _ => header

def slots : MxArray → MxSlot → Option MxArray
  | array _ slots => slots

def write (array : MxArray) (slot : MxSlot) (value : Option MxArray) : MxArray :=
  .array array.header (Function.update array.slots slot value)

end MxArray

-- An array without dimensions is empty.
def mxElements : List Int → Int
  | [] => 0
  | dims => dims.prod

def emptyArray (classID : MxClassID) (dims : List Int) (fieldNames : List Text) : MxArray :=
  .array ⟨classID,false,false,dims,fieldNames,none⟩ fun _ => none

def mxCreateCellArray (dims : List Int) : MxArray := emptyArray .cellClass dims []

def mxCreateStructArray (dims : List Int) (fieldNames : List Text) : MxArray := emptyArray .structClass dims fieldNames

-- An index that is not one of the array is out of bounds. A field that the array
-- does not have is not set.
def mxSetField (array : MxArray) (index : Int) (fieldName : Text) (value : Option MxArray) : Option MxArray :=
  if 0 ≤ index ∧ index < mxElements array.header.dims then
    some (if fieldName ∈ array.header.fieldNames then array.write ⟨index,some fieldName⟩ value else array)
  else none

def mxSetCell (array : MxArray) (index : Int) (value : Option MxArray) : Option MxArray :=
  if 0 ≤ index ∧ index < mxElements array.header.dims then some (array.write ⟨index,none⟩ value) else none

def isNumeric : MxClassID → Bool
  | .int8Class => true
  | .uint8Class => true
  | .int16Class => true
  | .uint16Class => true
  | .int32Class => true
  | .uint32Class => true
  | .int64Class => true
  | .uint64Class => true
  | .singleClass => true
  | .doubleClass => true
  | _ => false

section Model
variable (heap : Heap)

def makeObjDims (object : Data) : Option (List Int) :=
  if object.numDims ≤ (object.dims.getD []).length then some ((object.dims.getD []).take object.numDims) else none

-- The counter of the loop has 32 bits.
def rearrangeImaginaryData (object : Data) : Option Unit :=
  if isNumeric object.matlabInternalType ∧ object.numElems < 2^32 then some () else none

def splitImaginaryData (object dataset : Data) : Option Unit :=
  if object.isComplex then rearrangeImaginaryData dataset else some ()

-- The counter of the loop has 16 bits.
def getFieldNames (object : Data) : Option (List Text) :=
  if object.numSubObjs < 2^16 ∧ object.numSubObjs ≤ object.subObjects.live.length then
    some ((object.subObjects.live.take object.numSubObjs).map fun obj => (heap.objects obj).shortName)
  else none

def setIn (superStructureType : MxClassID) (returnStructure : MxArray) (object : Data) (value : Option MxArray) :
    Option MxArray :=
  match superStructureType with
  | .structClass => mxSetField returnStructure object.sCArrayIndex object.shortName value
  | .cellClass => mxSetCell returnStructure object.sCArrayIndex value
  | _ => some returnStructure

section Setters
variable (obj : Nat) (returnStructure : MxArray) (superStructureType : MxClassID)

def setNumericPtr : Option MxArray := do
  let object := heap.objects obj
  let dims ← makeObjDims object
  let _ ← splitImaginaryData object object
  setIn superStructureType returnStructure object
    (some (.array ⟨object.matlabInternalType,false,object.isComplex,dims,[],some obj⟩ fun _ => none))

def setRealPtr (classID : MxClassID) : Option MxArray := do
  let object := heap.objects obj
  let dims ← makeObjDims object
  setIn superStructureType returnStructure object (some (.array ⟨classID,false,false,dims,[],some obj⟩ fun _ => none))

def setLogicPtr : Option MxArray := setRealPtr heap obj returnStructure superStructureType .logicalClass

def setCharPtr : Option MxArray := setRealPtr heap obj returnStructure superStructureType .charClass

def firstDim (object : Data) : Option Int := (object.dims.getD []).head?

-- The array that mxCreateSparse makes, with as many column starts as jc has.
def sparseHeader : Option MxHeader := do
  let object := heap.objects obj
  let jc ← findSubObjectByShortName heap obj (textOf "jc")
  let rows ← firstDim object
  let starts ← firstDim (heap.objects jc)
  if 1 ≤ starts ∧ (heap.objects jc).numElems ≤ starts then
    let data := findSubObjectByShortName heap obj (textOf "data")
    match object.matlabSparseType with
    | .doubleClass => some ⟨.doubleClass,true,object.isComplex,[rows,starts-1],[],data⟩
    | .logicalClass => some ⟨.logicalClass,true,false,[rows,starts-1],[],data⟩
    | _ => none
  else none

-- A matrix without data has no row indices either.
def sparseData : Option Nat → Option Unit
  | none => some ()
  | some data => do
    let _ ← findSubObjectByShortName heap obj (textOf "ir")
    splitImaginaryData (heap.objects obj) (heap.objects data)

def setSpsPtr : Option MxArray := do
  let header ← sparseHeader heap obj
  let _ ← sparseData heap obj header.data
  setIn superStructureType returnStructure (heap.objects obj) (some (.array header fun _ => none))

variable (makeSubstructure : MxArray → Nat → List Nat → MxClassID → Option (Option MxArray × MxArray))

def setCellPtr : Option MxArray := do
  let object := heap.objects obj
  let dims ← makeObjDims object
  let (value,_) ← makeSubstructure (mxCreateCellArray dims) object.numSubObjs object.subObjects.live .cellClass
  setIn superStructureType returnStructure object value

-- getFieldNames empties sub_objects and restarts it.
def setStructPtr : Option MxArray := do
  let object := heap.objects obj
  let dims ← makeObjDims object
  let fieldNames ← getFieldNames heap object
  let (value,_) ← makeSubstructure (mxCreateStructArray dims fieldNames) object.numSubObjs
    (restartQueue object.subObjects).live .structClass
  setIn superStructureType returnStructure object value

end Setters

inductive Setter where
  | numeric
  | sparse
  | logical
  | char
  | cell
  | struct
  | nothing
deriving DecidableEq,Repr

def setterOf : MxClassID → Setter
  | .sparseClass => .sparse
  | .logicalClass => .logical
  | .charClass => .char
  | .cellClass => .cell
  | .structClass => .struct
  | other => if isNumeric other then .numeric else .nothing

def setObject (makeSubstructure : MxArray → Nat → List Nat → MxClassID → Option (Option MxArray × MxArray))
    (superStructureType : MxClassID) (returnStructure : MxArray) (obj : Nat) : Option MxArray :=
  match setterOf (heap.objects obj).matlabInternalType with
  | .numeric => setNumericPtr heap obj returnStructure superStructureType
  | .sparse => setSpsPtr heap obj returnStructure superStructureType
  | .logical => setLogicPtr heap obj returnStructure superStructureType
  | .char => setCharPtr heap obj returnStructure superStructureType
  | .cell => setCellPtr heap obj returnStructure superStructureType makeSubstructure
  | .struct => setStructPtr heap obj returnStructure superStructureType makeSubstructure
  | .nothing => some returnStructure

-- The pointer that is returned and returnStructure as it is left. fuel bounds the
-- depth, without end where an object is below itself.
def makeSubstructure : Nat → MxArray → Nat → List Nat → MxClassID → Option (Option MxArray × MxArray)
  | 0,_,_,_,_ => none
  | fuel+1,returnStructure,numElems,objects,superStructureType =>
    if numElems = 0 then some (none,returnStructure)
    else do
      let first ← objects.head?
      let returnStructure ←
        if (heap.objects first).isStructArray then
          objects.foldlM (fun returnStructure obj => do
            let (_,returnStructure) ← makeSubstructure fuel returnStructure (heap.objects obj).numSubObjs
              (heap.children obj) .structClass
            some returnStructure) returnStructure
        else objects.foldlM (setObject heap (makeSubstructure fuel) superStructureType) returnStructure
      some (some returnStructure,returnStructure)

end Model

end GetMatVar
