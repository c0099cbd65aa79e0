import GetMatVar.CreateDataObjects
import GetMatVar.CopyChunk

namespace GetMatVar

def roundUp8 (numToRound : Nat) : Nat :=
  if numToRound%8 = 0 then numToRound else numToRound+8-numToRound%8

-- Elements of an array of dimensions up to the first that is not positive; the
-- terminating 0 ends the loop at the latest.
def countDims : List Int → Int → Int
  | [],numElems => numElems
  | dim::rest,numElems => if 0 < dim then countDims rest (wrapIndex (numElems*dim)) else numElems

def maxNameLength : Nat := 200

def selectMatlabClass (matlabClass : Text) (internalType : MxClassID) : MxClassID :=
  if matlabClass = textOf "double" then .doubleClass
  else if matlabClass = textOf "char" then .charClass
  else if matlabClass = textOf "logical" then .logicalClass
  else if matlabClass = textOf "struct" then .structClass
  else if matlabClass = textOf "cell" then .cellClass
  else if matlabClass = textOf "function_handle" then .functionClass
  else if matlabClass = textOf "table" then .objectClass
  else if matlabClass = textOf "uint8" then .uint8Class
  else if matlabClass = textOf "uint16" then .uint16Class
  else if matlabClass = textOf "uint32" then .uint32Class
  else if matlabClass = textOf "uint64" then .uint64Class
  else if matlabClass = textOf "int8" then .int8Class
  else if matlabClass = textOf "int16" then .int16Class
  else if matlabClass = textOf "int32" then .int32Class
  else if matlabClass = textOf "int64" then .int64Class
  else if matlabClass = textOf "single" then .singleClass
  else if matlabClass = textOf "opaque" then .opaqueClass
  else internalType

section Readers
variable (file : MatFile)

def MatFile.byte (file : MatFile) (pointer : Nat) : Nat := (file.bytes pointer).toNat

-- Each reader gives the value it leaves in err_flag, 0 or 1, and the fields. A
-- reader that would run off its memory gives none.
def readDataSpaceMessage (msgPointer : Nat) (object : MetaData) : Option (Nat × MetaData) :=
  if file.byte msgPointer ≠ 1 then some (1,object)
  else
    let numDims := file.byte (msgPointer+1)
    if numDims > hdf5MaxDims then some (1,{object with numDims:=numDims})
    else
      let dim (i : Nat) := toIndex (file.number (msgPointer+8+i*file.sBlock.sizeOfLengths) file.sBlock.sizeOfLengths)
      let dims := (List.range numDims).map (fun k => dim (numDims-1-k))++[0]
      some (0,{object with numDims:=numDims,dims:=some dims,numElems:=countDims dims 1})

-- The members of a compound type follow one another, so the fuel is the part of
-- the file that is left.
def readDataTypeMessage : Nat → Nat → MetaData → Option (Nat × MetaData)
  | 0,_,_ => none
  | left+1,msgPointer,object =>
    if file.byte msgPointer/16 ≠ 1 then some (1,object)
    else
      let internalType := hdf5DatatypeOf (file.byte msgPointer%16)
      let bitField := file.number (msgPointer+1) 3
      let object := {object with
        hdf5InternalType:=internalType,datatypeBitField:=bitField
        elemSize:=if object.elemSize = 0 then file.number (msgPointer+4) 4 else object.elemSize}
      let order := if bitField%2 = 1 then ByteOrder.bigEndian else .littleEndian
      match internalType with
      | .fixedPoint => some (0,{object with byteOrder:=order})
      | .time => some (0,{object with byteOrder:=order})
      | .floatingPoint => some (0,{object with byteOrder:=order})
      | .compound => do
        let object := {object with isComplex:=object.isComplex || file.shows (msgPointer+8) "real"}
        let name ← file.text msgPointer
        readDataTypeMessage left (msgPointer+8+roundUp8 (name.length+1)+32) object
      | _ => some (0,{object with byteOrder:=.littleEndian})

-- A dataset with more dimensions than the layout has room for would be updated
-- past the end of chunk_update.
def readDataLayoutMessage (msgPointer : Nat) (object : MetaData) : Option (Nat × MetaData) :=
  if file.byte msgPointer ≠ 3 then some (1,object)
  else
    let object := {object with layoutClass:=file.byte (msgPointer+1)}
    match object.layoutClass with
    | 0 => some (0,{object with dataAddress:=msgPointer+4})
    | 1 => some (0,{object with dataAddress:=file.address (msgPointer+2)})
    | 2 =>
      let numChunkedDims := (file.byte (msgPointer+2)+255)%256
      let chunkedDim (j : Nat) := toIndex (file.number (msgPointer+3+file.sBlock.sizeOfOffsets+4*j) 4)
      let chunkedDims := (List.range numChunkedDims).map (fun k => chunkedDim (numChunkedDims-1-k))++[0]
      let update := makeChunkedUpdates (fun _ => 0) (fun k => chunkedDims.getD k 0)
        (fun k => (object.dims.getD []).getD k 0) object.numDims
      if object.numDims ≤ numChunkedDims+1 then
        some (0,{object with
          dataAddress:=file.address (msgPointer+3)
          chunkedInfo:={object.chunkedInfo with
            numChunkedDims:=numChunkedDims,chunkedDims:=some chunkedDims
            numChunkedElems:=(chunkedDims.take numChunkedDims).foldl (fun elems dim => wrapIndex (elems*dim)) 1
            chunkUpdate:=some ((List.range (numChunkedDims+1)).map update)}})
      else none
    | _ => some (1,object)

def readFilter (helperPointer flags count data : Nat) : Filter × Nat :=
  let numClientVals := file.number (helperPointer+count) 2
  (⟨file.number helperPointer 2,file.number (helperPointer+flags) 2%2,
    (List.range numClientVals).map (fun k => file.number (helperPointer+data+4*k) 4)⟩,helperPointer+data+4*numClientVals)

def readFilters (version : Nat) : Nat → Nat → List Filter
  | 0,_ => []
  | left+1,helperPointer =>
    let (filter,after) := if version = 1 then readFilter file helperPointer 4 6 (8+file.number (helperPointer+2) 2)
      else readFilter file helperPointer 2 4 6
    filter::readFilters version left after

-- The array of filters is allocated before the version is checked.
def readDataStoragePipelineMessage (msgPointer : Nat) (object : MetaData) : Option (Nat × MetaData) :=
  let numFilters := file.byte (msgPointer+1)
  let info (filters : List Filter) := {object with
    chunkedInfo:={object.chunkedInfo with numFilters:=numFilters,filters:=filters}}
  match file.byte msgPointer with
  | 1 => some (0,info (readFilters file 1 numFilters (msgPointer+8)))
  | 2 => some (0,info (readFilters file 2 numFilters (msgPointer+2)))
  | _ => some (1,info [])

-- strncpy into name: the characters before the first NUL.
def attributeName (msgPointer nameSize : Nat) : Text :=
  ((List.range nameSize).map (fun k => file.bytes (msgPointer+8+k))).takeWhile (· ≠ 0)

def readAttributeMessage (msgPointer : Nat) (object : MetaData) : Option (Nat × MetaData) :=
  if file.byte msgPointer ≠ 1 then some (1,object)
  else
    let nameSize := file.number (msgPointer+2) 2
    let datatypeSize := file.number (msgPointer+4) 2
    let dataspaceSize := file.number (msgPointer+6) 2
    let value := msgPointer+8+roundUp8 nameSize+roundUp8 datatypeSize+roundUp8 dataspaceSize
    let name := attributeName file msgPointer nameSize
    if nameSize > maxNameLength then none
    else if name = textOf "MATLAB_class" then
      let attributeDataSize := file.number (msgPointer+8+roundUp8 nameSize+4) 4
      let matlabClass := ((List.range attributeDataSize).map (fun k => file.bytes (value+k))).takeWhile (· ≠ 0)
      some (0,{object with
        matlabClass:=some matlabClass,matlabInternalType:=selectMatlabClass matlabClass object.matlabInternalType})
    else if name = textOf "MATLAB_sparse" then
      some (0,{object with matlabSparse:=true,dims:=some [toIndex (file.number value 8),0]})
    else if name = textOf "MATLAB_empty" then some (0,{object with matlabEmpty:=true})
    else if name = textOf "MATLAB_object_decode" then
      let hint := objectDecodingHintOf (file.number value 4)
      some (0,{object with
        matlabObjectDecode:=hint
        matlabInternalType:=match hint with
          | .functionHint => .functionClass
          | .objectHint => .objectClass
          | .opaqueHint => .opaqueClass
          | _ => object.matlabInternalType})
    else some (0,object)

end Readers

end GetMatVar
