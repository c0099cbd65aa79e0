import GetMatVar.ReadMessage

namespace GetMatVar

-- repeat_tracker, by value in every block of the header.
structure RepeatTracker where
  dataSpace : Bool
  dataType : Bool
  layout : Bool
  pipeline : Bool
deriving DecidableEq,Repr

inductive MessageType where
  | dataSpace
  | dataType
  | dataLayout
  | pipeline
  | attributeMsg
  | continuation
  | ignored
deriving DecidableEq,Repr

def messageTypeOf : Nat → MessageType
  | 1 => .dataSpace
  | 3 => .dataType
  | 8 => .dataLayout
  | 11 => .pipeline
  | 12 => .attributeMsg
  | 16 => .continuation
  | _ => .ignored

-- The reader a message goes to. A kind that is not to be repeated is passed
-- over the second time.
def RepeatTracker.skips (tracker : RepeatTracker) : MessageType → Bool
  | .dataSpace => tracker.dataSpace
  | .dataType => tracker.dataType
  | .dataLayout => tracker.layout
  | .pipeline => tracker.pipeline
  | .attributeMsg => false
  | .continuation => false
  | .ignored => true

def RepeatTracker.mark (tracker : RepeatTracker) : MessageType → RepeatTracker
  | .dataSpace => {tracker with dataSpace:=true}
  | .dataType => {tracker with dataType:=true}
  | .dataLayout => {tracker with layout:=true}
  | .pipeline => {tracker with pipeline:=true}
  | _ => tracker

def msgSubHeaderSize : Nat := 8

section Model
variable (file : MatFile)

def readMessage (msgType : MessageType) (msgPointer : Nat) (object : MetaData) : Option (Nat × MetaData) :=
  match msgType with
  | .dataSpace => readDataSpaceMessage file msgPointer object
  | .dataType => readDataTypeMessage file (file.fileSize-msgPointer) msgPointer object
  | .dataLayout => readDataLayoutMessage file msgPointer object
  | .pipeline => readDataStoragePipelineMessage file msgPointer object
  | .attributeMsg => readAttributeMessage file msgPointer object
  -- Only the version of a continuation message is checked here.
  | .continuation => some (if file.shows msgPointer "OCHK" then 1 else 0,object)
  | .ignored => some (0,object)

def takeMessage (tracker : RepeatTracker) (msgType : MessageType) (msgPointer : Nat) (object : MetaData) :
    Option (Nat × MetaData) :=
  if tracker.skips msgType then some (0,object) else readMessage file msgType msgPointer object

-- message_num that is returned, err_flag and the fields. left is num_msgs minus
-- message_num: every message in this block or in one that continues it counts.
def interpretMessages (numMsgs : Nat) : Nat → Nat → Nat → Nat → Nat → RepeatTracker → MetaData →
    Option (Nat × Nat × MetaData)
  | 0,_,_,messageNum,_,_,object => some ((messageNum+65535)%65536,0,object)
  | left+1,msgsStart,msgsLength,messageNum,bytesRead,tracker,object =>
    if messageNum < numMsgs ∧ bytesRead < msgsLength then do
      let msgType := messageTypeOf (file.number (msgsStart+bytesRead) 2)
      let msgSize := file.number (msgsStart+bytesRead+2) 2
      let msgPointer := msgsStart+bytesRead+msgSubHeaderSize
      let (errFlag,object) ← takeMessage file tracker msgType msgPointer object
      let bytesAfter := (bytesRead+msgSize+msgSubHeaderSize)%2^32
      if errFlag ≠ 0 then some (numMsgs,errFlag,object)
      else if msgType = .continuation then do
        let contHeaderAddress := file.address msgPointer
        let contHeaderLength := file.number (msgPointer+file.sBlock.sizeOfOffsets) file.sBlock.sizeOfLengths%2^32
        let (messageNum,errFlag,object) ←
          interpretMessages numMsgs left contHeaderAddress contHeaderLength (messageNum+1) 0 tracker object
        if errFlag ≠ 0 then some (numMsgs,errFlag,object)
        else interpretMessages numMsgs left msgsStart msgsLength (messageNum+1) bytesAfter tracker object
      else interpretMessages numMsgs left msgsStart msgsLength (messageNum+1) bytesAfter (tracker.mark msgType) object
    else some ((messageNum+65535)%65536,0,object)

def sparseFields (super object : MetaData) : MetaData :=
  if object.matlabSparse then {object with matlabSparseType:=object.matlabInternalType,matlabInternalType:=.sparseClass}
  else if super.matlabSparse then {object with matlabInternalType:=.uint64Class}
  else object

-- The fields of super_object that are read, and the dimensions that a field of a
-- struct array gives to it.
def collectMetaData (super : MetaData) (headerAddress numMsgs headerLength : Nat) (object : MetaData) :
    Option (Nat × MetaData × MetaData) := do
  let (_,errFlag,object) ← interpretMessages file numMsgs numMsgs headerAddress headerLength 0 0 ⟨false,false,false,false⟩ object
  if errFlag ≠ 0 then some (1,object,super)
  else if object.matlabEmpty then some (0,{object with numElems:=0,dims:=some [0],numDims:=0},super)
  else
    let arrayField := object.hdf5InternalType = .reference ∧ object.matlabInternalType = .unknownClass ∧
      super.matlabInternalType = .structClass
    let super := if arrayField then
        {super with numDims:=object.numDims,dims:=some ((object.dims.getD []).take object.numDims++[0])}
      else super
    let object := if arrayField then {object with isStructArray:=true,matlabInternalType:=.cellClass} else object
    some (0,sparseFields super object,super)

end Model

section Readers
variable {file : MatFile}

def SameArrays (before after : MetaData) : Prop :=
  after.data = before.data ∧ after.subObjectHeaderOffsets = before.subObjectHeaderOffsets ∧
    after.isStructArray = before.isStructArray

theorem SameArrays.trans (left : SameArrays before middle) (right : SameArrays middle after) : SameArrays before after :=
  ⟨right.1.trans left.1,right.2.1.trans left.2.1,right.2.2.trans left.2.2⟩

theorem readDataType_arrays (ran : readDataTypeMessage file left pointer before = some (code,after)) :
    SameArrays before after := by
  induction left generalizing pointer before with
  | zero => cases ran
  | succ left ih =>
    simp only [readDataTypeMessage] at ran
    split at ran
    · cases ran; exact ⟨rfl,rfl,rfl⟩
    · split at ran
      · cases ran; exact ⟨rfl,rfl,rfl⟩
      · cases ran; exact ⟨rfl,rfl,rfl⟩
      · cases ran; exact ⟨rfl,rfl,rfl⟩
      · obtain ⟨name,_,deeper⟩ := Option.bind_eq_some_iff.mp ran
        have inner := ih deeper
        exact ⟨inner.1,inner.2.1,inner.2.2⟩
      · cases ran; exact ⟨rfl,rfl,rfl⟩

theorem readMessage_arrays (ran : readMessage file msgType pointer before = some (code,after)) :
    SameArrays before after := by
  cases msgType with
  | dataSpace =>
    simp only [readMessage,readDataSpaceMessage] at ran
    split at ran
    · cases ran; exact ⟨rfl,rfl,rfl⟩
    · split at ran <;> cases ran <;> exact ⟨rfl,rfl,rfl⟩
  | dataType => exact readDataType_arrays ran
  | dataLayout =>
    simp only [readMessage,readDataLayoutMessage] at ran
    split at ran
    · cases ran; exact ⟨rfl,rfl,rfl⟩
    · split at ran
      · cases ran; exact ⟨rfl,rfl,rfl⟩
      · cases ran; exact ⟨rfl,rfl,rfl⟩
      · split at ran
        · cases ran; exact ⟨rfl,rfl,rfl⟩
        · cases ran
      · cases ran; exact ⟨rfl,rfl,rfl⟩
  | pipeline =>
    simp only [readMessage,readDataStoragePipelineMessage] at ran
    split at ran <;> cases ran <;> exact ⟨rfl,rfl,rfl⟩
  | attributeMsg =>
    simp only [readMessage,readAttributeMessage] at ran
    split at ran
    · cases ran; exact ⟨rfl,rfl,rfl⟩
    · split at ran
      · cases ran
      · split at ran
        · cases ran; exact ⟨rfl,rfl,rfl⟩
        · split at ran
          · cases ran; exact ⟨rfl,rfl,rfl⟩
          · split at ran
            · cases ran; exact ⟨rfl,rfl,rfl⟩
            · split at ran <;> cases ran <;> exact ⟨rfl,rfl,rfl⟩
  | continuation => cases ran; exact ⟨rfl,rfl,rfl⟩
  | ignored => cases ran; exact ⟨rfl,rfl,rfl⟩

theorem takeMessage_arrays (ran : takeMessage file tracker msgType pointer before = some (code,after)) :
    SameArrays before after := by
  simp only [takeMessage] at ran
  split at ran
  · cases ran; exact ⟨rfl,rfl,rfl⟩
  · exact readMessage_arrays ran

theorem interpretMessages_arrays
    (ran : interpretMessages file numMsgs left start length num bytes tracker before = some (last,code,after)) :
    SameArrays before after := by
  induction left generalizing start length num bytes tracker before last code after with
  | zero =>
    simp only [interpretMessages,Option.some.injEq,Prod.mk.injEq] at ran
    obtain ⟨_,_,rfl⟩ := ran
    exact ⟨rfl,rfl,rfl⟩
  | succ left ih =>
    simp only [interpretMessages] at ran
    split at ran
    · obtain ⟨⟨errFlag,middle⟩,reading,rest⟩ := Option.bind_eq_some_iff.mp ran
      have first := takeMessage_arrays reading
      simp only at rest
      split at rest
      · cases rest; exact first
      · split at rest
        · obtain ⟨⟨numAfter,errFlagAfter,inner⟩,nested,later⟩ := Option.bind_eq_some_iff.mp rest
          simp only at later
          split at later
          · cases later; exact first.trans (ih nested)
          · exact (first.trans (ih nested)).trans (ih later)
        · exact first.trans (ih rest)
    · simp only [Option.some.injEq,Prod.mk.injEq] at ran
      obtain ⟨_,_,rfl⟩ := ran
      exact ⟨rfl,rfl,rfl⟩

theorem sparseFields_arrays (super object : MetaData) : (sparseFields super object).data = object.data ∧
    (sparseFields super object).subObjectHeaderOffsets = object.subObjectHeaderOffsets := by
  unfold sparseFields
  split
  · exact ⟨rfl,rfl⟩
  · split <;> exact ⟨rfl,rfl⟩

theorem collectMetaData_exact (ran : collectMetaData file super address numMsgs length before = some (code,after,superAfter)) :
    after.data = before.data ∧ after.subObjectHeaderOffsets = before.subObjectHeaderOffsets ∧
      ∃ numDims dims, superAfter = {super with numDims:=numDims,dims:=dims} := by
  obtain ⟨⟨last,errFlag,fields⟩,reading,rest⟩ := Option.bind_eq_some_iff.mp ran
  obtain ⟨data,offsets,_⟩ := interpretMessages_arrays reading
  simp only at rest
  split at rest
  · cases rest; exact ⟨data,offsets,_,_,rfl⟩
  · split at rest
    · cases rest; exact ⟨data,offsets,_,_,rfl⟩
    · cases rest
      by_cases field : fields.hdf5InternalType = .reference ∧ fields.matlabInternalType = .unknownClass ∧
        super.matlabInternalType = .structClass
      · simp only [if_pos field]
        exact ⟨(sparseFields_arrays _ _).1.trans data,(sparseFields_arrays _ _).2.trans offsets,_,_,rfl⟩
      · simp only [if_neg field]
        exact ⟨(sparseFields_arrays _ _).1.trans data,(sparseFields_arrays _ _).2.trans offsets,_,_,rfl⟩

end Readers

end GetMatVar
