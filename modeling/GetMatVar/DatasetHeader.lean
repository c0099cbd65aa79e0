import GetMatVar.MessageOrder
import GetMatVar.DataSpace
import GetMatVar.FillObject

namespace GetMatVar

namespace Message

def sizes (m : Message) (size : Nat) : List Nat := (List.range (m.byte 1)).map fun i => m.number (8+i*size) size

def value (m : Message) : Text := ((List.range m.valueSize).map fun k => m.bytes (m.valueAt+k)).takeWhile (· ≠ 0)

-- Numbers in the order of the machine, whole or not.
structure Numbers (m : Message) (elemSize : Nat) : Prop where
  version : m.byte 0/16 = 1
  type : m.byte 0%16 ≤ 1
  order : m.number 1 3%2 = 0
  size : m.number 4 4 = elemSize

end Message

def className : MxClassID → Text
  | .doubleClass => textOf "double"
  | .singleClass => textOf "single"
  | .int8Class => textOf "int8"
  | .uint8Class => textOf "uint8"
  | .int16Class => textOf "int16"
  | .uint16Class => textOf "uint16"
  | .int32Class => textOf "int32"
  | .uint32Class => textOf "uint32"
  | .int64Class => textOf "int64"
  | .uint64Class => textOf "uint64"
  | .charClass => textOf "char"
  | .logicalClass => textOf "logical"
  | .structClass => textOf "struct"
  | .cellClass => textOf "cell"
  | .functionClass => textOf "function_handle"
  | .objectClass => textOf "table"
  | .opaqueClass => textOf "opaque"
  | .sparseClass => []
  | .unknownClass => []

-- An array as MATLAB has it, with the bytes of its elements column after column.
structure Content where
  classID : MxClassID
  dims : List Nat
  elemSize : Nat
  data : List UInt8
deriving DecidableEq,Repr

def MatFile.headerAt (file : MatFile) (address : Nat) : Header :=
  ⟨address+16,file.number (address+8) 4,file.number (address+2) 2⟩

def ordinary : Message.Role → Bool
  | .space => true
  | .type => true
  | .unchunked => true
  | .chunked => true
  | .pipeline => true
  | .matlabClass => true
  | .nothing => true
  | _ => false

-- Where the layout message of a header says that the data is: at an address, or
-- in the message itself.
inductive DataAt (file : MatFile) (header : Header) : Nat → Prop where
  | contiguous (listed : m ∈ file.messages header) (kind : m.kind = .dataLayout) (layout : m.byte 1 = 1) :
      DataAt file header (m.statedAddress file.sBlock 2)
  | compact (listed : entry ∈ file.places header) (inside : (file.messageAt entry.address).compact = true) :
      DataAt file header (entry.address+msgSubHeaderSize+4)

-- A header whose messages describe this array, apart from where its data is.
structure Described (file : MatFile) (address : Nat) (content : Content) : Prop where
  valid : ValidHeader file (file.headerAt address)
  plain : ∀ m ∈ file.messages (file.headerAt address), ordinary m.role = true
  space : ∃ m ∈ file.messages (file.headerAt address), m.kind = .dataSpace ∧
    m.sizes file.sBlock.sizeOfLengths = content.dims.reverse
  type : ∃ m ∈ file.messages (file.headerAt address), m.kind = .dataType ∧ m.Numbers content.elemSize
  matlabClass : ∃ m ∈ file.messages (file.headerAt address), m.kind = .attributeMsg ∧
    m.name = textOf "MATLAB_class" ∧ m.value = className content.classID
  elements : storageOf content.classID = .elements
  elemSize : 0 < content.elemSize ∧ content.elemSize ≤ maxElemSize
  full : ∀ dim ∈ content.dims, 0 < dim
  few : content.dims.prod < 2^63

structure Dataset (file : MatFile) (address : Nat) (content : Content) : Prop where
  described : Described file address content
  data : ∃ dataAddress, DataAt file (file.headerAt address) dataAddress ∧
    content.data = (List.range (content.dims.prod*content.elemSize)).map fun k => file.bytes (dataAddress+k)

structure StructHeader (file : MatFile) (address : Nat) : Prop where
  valid : ValidHeader file (file.headerAt address)
  plain : ∀ m ∈ file.messages (file.headerAt address), m.role = .matlabClass ∨ m.role = .nothing
  matlabClass : ∃ m ∈ file.messages (file.headerAt address), m.kind = .attributeMsg ∧
    m.name = textOf "MATLAB_class" ∧ m.value = textOf "struct"

section Stated
variable {file : MatFile} {header : Header} {sBlock : Superblock} {m : Message} {messages : List Message} {role : Message.Role}

theorem className_selects (other : MxClassID) (stored : storageOf classID = .elements ∨ classID = .structClass) :
    selectMatlabClass (className classID) other = classID := by
  cases classID with
  | cellClass | functionClass | objectClass | opaqueClass | sparseClass | unknownClass =>
    rcases stored with never | never <;> cases never
  | _ => simp [selectMatlabClass,className,textOf]

def SetOnlyBy (sets : Message.Role → Bool) (g : MetaData → α) : Prop :=
  ∀ (effect : Effect) (before after : MetaData), ordinary effect.role = true → sets effect.role = false →
    effect.apply before = some after → g after = g before

theorem foldl_keeps {g : MetaData → α} (only : SetOnlyBy sets g)
    (others : ∀ m ∈ messages, m.Valid sBlock ∧ ordinary m.role = true ∧ sets m.role = false)
    (ran : messages.foldl (act sBlock) (some start) = some after) : g after = g start := by
  induction messages generalizing start with
  | nil =>
    cases ran
    rfl
  | cons m messages ih =>
    obtain ⟨valid,plain,different⟩ := others m List.mem_cons_self
    have same := (effectOf_does valid).role
    rw [List.foldl_cons] at ran
    cases acted : act sBlock (some start) m with
    | none =>
      rw [acted,act_none] at ran
      cases ran
    | some middle =>
      rw [acted] at ran
      have rest := ih (fun other listed => others other (List.mem_cons_of_mem _ listed)) ran
      have first := only (effectOf sBlock m) start middle (same ▸ plain) (same ▸ different) acted
      exact rest.trans first

theorem foldl_stated {g : MetaData → α} (only : SetOnlyBy sets g) (valid : ValidHeader file header)
    (plain : ∀ m ∈ file.messages header, ordinary m.role = true) (part : messages.Sublist (file.messages header))
    (ran : messages.foldl (act file.sBlock) (some start) = some after) (member : m ∈ messages)
    (alone : ∀ other ∈ file.messages header, other ≠ m → sets other.role = false) :
    ∃ front back before middle, messages = front++m::back ∧ front.foldl (act file.sBlock) (some start) = some before ∧
      g before = g start ∧ (effectOf file.sBlock m).apply before = some middle ∧ g after = g middle := by
  have once := (messages_nodup valid).sublist part
  have good : ∀ other ∈ messages, other ≠ m →
      other.Valid file.sBlock ∧ ordinary other.role = true ∧ sets other.role = false := fun other listed different =>
    ⟨messages_valid valid (part.subset listed),plain other (part.subset listed),alone other (part.subset listed) different⟩
  obtain ⟨front,back,split⟩ := List.append_of_mem member
  rw [split] at once good ran
  obtain ⟨_,tail,apart⟩ := List.nodup_append.mp once
  have absent : m ∉ back := (List.nodup_cons.mp tail).1
  rw [List.foldl_append,List.foldl_cons] at ran
  cases reached : front.foldl (act file.sBlock) (some start) with
  | none =>
    rw [reached] at ran
    change back.foldl (act file.sBlock) none = _ at ran
    rw [act_none] at ran
    cases ran
  | some before =>
    rw [reached] at ran
    cases acted : act file.sBlock (some before) m with
    | none =>
      rw [acted,act_none] at ran
      cases ran
    | some middle =>
      rw [acted] at ran
      have earlier := foldl_keeps only (fun other listed => good other (List.mem_append_left _ listed)
        (apart other listed m List.mem_cons_self)) reached
      have later := foldl_keeps only (fun other listed => good other
        (List.mem_append_right _ (List.mem_cons_of_mem _ listed)) (fun same => absent (same ▸ listed))) ran
      exact ⟨front,back,before,middle,split,reached,earlier,acted,later⟩

theorem role_alone (valid : ValidHeader file header) (listed : m ∈ file.messages header) (states : m.role = role)
    (acts : role ≠ .nothing) : ∀ other ∈ file.messages header, other ≠ m → (other.role == role) = false := by
  intro other member different
  apply beq_false_of_ne
  intro same
  apply acts
  rw [← same]
  exact apart_roles (messages_apart valid member listed different) (same.trans states.symm)

def isLayout : Message.Role → Bool
  | .unchunked => true
  | .chunked => true
  | _ => false

theorem layout_alone (valid : ValidHeader file header) (listed : m ∈ file.messages header) (kind : m.kind = .dataLayout) :
    ∀ other ∈ file.messages header, other ≠ m → isLayout other.role = false := by
  intro other member different
  have elsewhere : other.kind ≠ .dataLayout := fun same =>
    (messages_apart valid member listed different).1 (by rw [same]; rfl) (same.trans kind.symm)
  cases role : other.role with
  | unchunked => exact absurd (layout_kind (.inl role)) elsewhere
  | chunked => exact absurd (layout_kind (.inr role)) elsewhere
  | _ => rfl

end Stated

section Effects
variable {file : MatFile} {header : Header} {m : Message}

def blank : MetaData := initializeObject.toMetaData

theorem listed_shown (valid : ValidHeader file header) (member : m ∈ file.messages header) : ∃ pointer, Shown file pointer m := by
  obtain ⟨place,listed,rfl⟩ := List.mem_map.mp (List.mem_filter.mp member).1
  exact ⟨_,messageAt_shown (valid.inside place listed)⟩

theorem effectOf_reads (valid : m.Valid file.sBlock) (shown : Shown file pointer m)
    (read : readMessage file m.kind pointer blank = some (0,after)) :
    (effectOf file.sBlock m).apply (forget blank) = some (forget after) ∧
      after.dataAddress = (effectOf file.sBlock m).address pointer undefAddr := by
  have reads := (effectOf_does valid).reads file pointer rfl shown blank
  rw [read] at reads
  obtain ⟨fields,applied,same⟩ := Option.map_eq_some_iff.mp reads.symm
  simp only [Prod.mk.injEq] at same
  obtain ⟨_,rfl,address⟩ := same
  exact ⟨applied,address.symm⟩

theorem effectOf_space (valid : m.Valid file.sBlock) (shown : Shown file pointer m) (kind : m.kind = .dataSpace) :
    effectOf file.sBlock m = .space (m.byte 1) (m.spaceDims file.sBlock.sizeOfLengths) := by
  have role : (effectOf file.sBlock m).role = .space := (effectOf_does valid).role.trans (by simp [Message.role,kind])
  have fits := valid
  simp only [Message.Valid,kind] at fits
  obtain ⟨version,few,fits⟩ := fits
  have first : file.byte (pointer+0) = m.byte 0 := byte_shown shown (by omega)
  have rank : file.byte (pointer+1) = m.byte 1 := byte_shown shown (by omega)
  rw [Nat.add_zero,version] at first
  have read : readMessage file m.kind pointer blank = some (0,{blank with
      numDims:=m.byte 1,dims:=some (m.spaceDims file.sBlock.sizeOfLengths)
      numElems:=countDims (m.spaceDims file.sBlock.sizeOfLengths) 1}) := by
    simp only [kind,readMessage,readDataSpaceMessage,first,rank,ne_eq,not_true,if_false,Nat.not_lt.mpr few,
      spaceDims_shown shown fits]
  obtain ⟨applied,_⟩ := effectOf_reads valid shown read
  cases effect : effectOf file.sBlock m with
  | space numDims dims =>
    rw [effect] at applied
    have fields := Option.some.inj applied
    have count : numDims = m.byte 1 := congrArg MetaData.numDims fields
    have stated : some dims = some (m.spaceDims file.sBlock.sizeOfLengths) := congrArg MetaData.dims fields
    rw [count,Option.some.inj stated]
  | _ =>
    rw [effect] at role
    cases role

theorem effectOf_numbers (valid : m.Valid file.sBlock) (shown : Shown file pointer m) (kind : m.kind = .dataType)
    (numbers : m.Numbers elemSize) : ∃ internalType bitField, internalType ≠ .reference ∧ internalType ≠ .unknown ∧
      effectOf file.sBlock m = .type internalType bitField elemSize .littleEndian false := by
  have role : (effectOf file.sBlock m).role = .type := (effectOf_does valid).role.trans (by simp [Message.role,kind])
  have fits := valid
  simp only [Message.Valid,kind] at fits
  have room : 0+8 ≤ m.body.length := by
    cases fits with
    | plain room _ _ => exact room
    | compound room _ _ _ _ => omega
  obtain ⟨version,type,order,size⟩ := numbers
  have first : file.byte (pointer+0) = m.byte 0 := byte_shown shown (by omega)
  rw [Nat.add_zero] at first
  have bits : file.number (pointer+1) 3 = m.number 1 3 := number_shown shown (by omega)
  have elems : file.number (pointer+4) 4 = m.number 4 4 := number_shown shown (by omega)
  obtain ⟨left,rest⟩ : ∃ left, file.fileSize-pointer = left+1 := ⟨file.fileSize-pointer-1,by have := shown.1; omega⟩
  have known : ∃ internalType, hdf5DatatypeOf (m.byte 0%16) = internalType ∧
      (internalType = .fixedPoint ∨ internalType = .floatingPoint) := by
    refine ⟨_,rfl,?_⟩
    have either : m.byte 0%16 = 0 ∨ m.byte 0%16 = 1 := by omega
    rcases either with zero | one
    · rw [zero]
      exact .inl rfl
    · rw [one]
      exact .inr rfl
  obtain ⟨internalType,stated,either⟩ := known
  have read : readMessage file m.kind pointer blank = some (0,{blank with
      hdf5InternalType:=internalType,datatypeBitField:=m.number 1 3,elemSize:=elemSize,byteOrder:=.littleEndian}) := by
    simp only [kind,readMessage,rest,readDataTypeMessage,first,version,ne_eq,not_true,if_false,bits,elems,size,stated,order]
    rcases either with rfl | rfl <;> rfl
  obtain ⟨applied,_⟩ := effectOf_reads valid shown read
  refine ⟨internalType,m.number 1 3,?_,?_,?_⟩
  · rcases either with rfl | rfl <;> decide
  · rcases either with rfl | rfl <;> decide
  cases effect : effectOf file.sBlock m with
  | type otherType bitField size order complex =>
    rw [effect] at applied
    have fields := Option.some.inj applied
    have same : otherType = internalType := congrArg MetaData.hdf5InternalType fields
    have sameBits : bitField = m.number 1 3 := congrArg MetaData.datatypeBitField fields
    have sameSize : size = elemSize := congrArg MetaData.elemSize fields
    have sameOrder : order = .littleEndian := congrArg MetaData.byteOrder fields
    have real : (false || complex) = false := congrArg MetaData.isComplex fields
    rw [Bool.false_or] at real
    rw [same,sameBits,sameSize,sameOrder,real]
  | _ =>
    rw [effect] at role
    cases role

theorem effectOf_contiguous (valid : m.Valid file.sBlock) (shown : Shown file pointer m) (kind : m.kind = .dataLayout)
    (layout : m.byte 1 = 1) :
    effectOf file.sBlock m = .unchunked 1 (some (m.statedAddress file.sBlock 2)) := by
  have role : (effectOf file.sBlock m).role = .unchunked :=
    (effectOf_does valid).role.trans (by simp [Message.role,kind,layout])
  have fits := valid
  simp only [Message.Valid,kind,layout] at fits
  obtain ⟨version,fits⟩ := fits
  have room : 2+file.sBlock.sizeOfOffsets ≤ m.body.length := by omega
  have first : file.byte (pointer+0) = m.byte 0 := byte_shown shown (by omega)
  have second : file.byte (pointer+1) = m.byte 1 := byte_shown shown (by omega)
  rw [Nat.add_zero,version] at first
  rw [layout] at second
  have read : readMessage file m.kind pointer blank = some (0,{blank with
      layoutClass:=1,dataAddress:=m.statedAddress file.sBlock 2}) := by
    simp only [kind,readMessage,readDataLayoutMessage,first,second,ne_eq,not_true,if_false,address_shown shown room]
  obtain ⟨applied,address⟩ := effectOf_reads valid shown read
  have whole := (effectOf_does valid).compact
  rw [show m.compact = false by simp [Message.compact,layout]] at whole
  cases effect : effectOf file.sBlock m with
  | unchunked layoutClass stated =>
    rw [effect] at applied address whole
    have fields := Option.some.inj applied
    have same : layoutClass = 1 := congrArg MetaData.layoutClass fields
    cases stated with
    | none => cases whole
    | some stated =>
      have here : m.statedAddress file.sBlock 2 = stated := address
      rw [same,here]
  | _ =>
    rw [effect] at role
    cases role

theorem effectOf_compact (valid : m.Valid file.sBlock) (shown : Shown file pointer m) (inside : m.compact = true) :
    effectOf file.sBlock m = .unchunked 0 none := by
  obtain ⟨kind,layout⟩ : m.kind = .dataLayout ∧ m.byte 1 = 0 := by simpa [Message.compact] using inside
  have role : (effectOf file.sBlock m).role = .unchunked :=
    (effectOf_does valid).role.trans (by simp [Message.role,kind,layout])
  have fits := valid
  simp only [Message.Valid,kind,layout] at fits
  obtain ⟨version,fits⟩ := fits
  have first : file.byte (pointer+0) = m.byte 0 := byte_shown shown (by omega)
  have second : file.byte (pointer+1) = m.byte 1 := byte_shown shown (by omega)
  rw [Nat.add_zero,version] at first
  rw [layout] at second
  have read : readMessage file m.kind pointer blank = some (0,{blank with layoutClass:=0,dataAddress:=pointer+4}) := by
    simp only [kind,readMessage,readDataLayoutMessage,first,second,ne_eq,not_true,if_false]
  obtain ⟨applied,_⟩ := effectOf_reads valid shown read
  have whole := (effectOf_does valid).compact.trans inside
  cases effect : effectOf file.sBlock m with
  | unchunked layoutClass stated =>
    rw [effect] at applied whole
    have same : layoutClass = 0 := congrArg MetaData.layoutClass (Option.some.inj applied)
    cases stated with
    | none => rw [same]
    | some => cases whole
  | _ =>
    rw [effect] at role
    cases role

theorem effectOf_matlabClass (valid : m.Valid file.sBlock) (shown : Shown file pointer m) (kind : m.kind = .attributeMsg)
    (name : m.name = textOf "MATLAB_class") : effectOf file.sBlock m = .matlabClass m.value := by
  have role : (effectOf file.sBlock m).role = .matlabClass := by
    rw [(effectOf_does valid).role]
    simp only [Message.role,kind,if_pos name]
  have fits := valid
  simp only [Message.Valid,kind] at fits
  obtain ⟨version,short,room,fits⟩ := fits
  have named := roundUp8_le m.nameSize
  have first : file.byte (pointer+0) = m.byte 0 := byte_shown shown (by omega)
  rw [Nat.add_zero,version] at first
  have nameSize : file.number (pointer+2) 2 = m.nameSize := number_shown shown (by omega)
  have type : file.number (pointer+4) 2 = m.number 4 2 := number_shown shown (by omega)
  have space : file.number (pointer+6) 2 = m.number 6 2 := number_shown shown (by omega)
  have text : attributeName file pointer m.nameSize = m.name := by
    unfold attributeName Message.name
    rw [bytes_shown shown (by omega)]
  have size : m.valueSize = m.number (8+roundUp8 m.nameSize+4) 4 := if_pos name
  have stated : file.number (pointer+8+roundUp8 m.nameSize+4) 4 = m.valueSize := by
    rw [show pointer+8+roundUp8 m.nameSize+4 = pointer+(8+roundUp8 m.nameSize+4) by omega,number_shown shown (by omega),size]
  have place : pointer+8+roundUp8 m.nameSize+roundUp8 (m.number 4 2)+roundUp8 (m.number 6 2) = pointer+m.valueAt := by
    unfold Message.valueAt
    omega
  have read : readMessage file m.kind pointer blank = some (0,{blank with
      matlabClass:=some m.value,matlabInternalType:=selectMatlabClass m.value .unknownClass}) := by
    simp only [kind,readMessage,readAttributeMessage,first,nameSize,type,space,text,name,stated,place,
      bytes_shown shown fits,ne_eq,not_true,if_false,if_true,Nat.not_lt.mpr short]
    rfl
  obtain ⟨applied,_⟩ := effectOf_reads valid shown read
  cases effect : effectOf file.sBlock m with
  | matlabClass found =>
    rw [effect] at applied
    have same : some found = some m.value := congrArg MetaData.matlabClass (Option.some.inj applied)
    rw [Option.some.inj same]
  | _ =>
    rw [effect] at role
    cases role

end Effects

-- The fields of an object that holds this array.
structure Carries (fields : MetaData) (content : Content) : Prop where
  classID : fields.matlabInternalType = content.classID
  elements : storageOf content.classID = .elements
  single : fields.isStructArray = false
  real : fields.isComplex = false
  full : fields.matlabSparse = false
  numDims : fields.numDims = content.dims.length
  dims : fields.dims = some (content.dims.map (fun dim : Nat => (dim : Int))++[0])
  numElems : fields.numElems = (content.dims.prod : Nat)
  elemSize : fields.elemSize = content.elemSize
  data : fields.data = some (content.data.map some)
  offsets : fields.subObjectHeaderOffsets = none

section Reading
variable {file : MatFile} {header : Header} {m : Message} {content : Content} {address : Nat}

theorem spaceDims_sizes (m : Message) (size : Nat) : m.spaceDims size = (m.sizes size).reverse.map toIndex++[0] := by
  unfold Message.spaceDims Message.sizes
  rw [reversed_range (fun i => toIndex (m.number (8+i*size) size)),← List.map_reverse,← List.map_reverse,List.map_map]
  rfl

theorem dim_small {dims : List Nat} (full : ∀ dim ∈ dims, 0 < dim) (few : dims.prod < 2^63) (member : dim ∈ dims) :
    dim < 2^63 := by
  have positive : 0 < dims.prod := Nat.pos_of_ne_zero fun zero =>
    absurd (full 0 (List.prod_eq_zero_iff.mp zero)) (Nat.lt_irrefl 0)
  exact Nat.lt_of_le_of_lt (Nat.le_of_dvd positive (List.dvd_prod member)) few

theorem counted_full {dims : List Nat} (full : ∀ dim ∈ dims, 0 < dim) (few : dims.prod < 2^63) :
    countDims (dims.map (fun dim : Nat => (dim : Int))++[0]) 1 = (dims.prod : Nat) := by
  have counted := countDims_exact dims 1
  have whole : dims.takeWhile (0 < ·) = dims := List.takeWhile_eq_self_iff.mpr fun dim member => by simpa using full dim member
  rw [show wrapIndex 1 = 1 from rfl,Int.one_mul,whole] at counted
  exact counted.trans (wrapIndex_small (by omega) (by exact_mod_cast few))

theorem ordinary_frame {effect : Effect} (plain : ordinary effect.role = true) (ran : effect.apply before = some after) :
    (effect.role ≠ .space → (after.numDims,after.dims,after.numElems) = (before.numDims,before.dims,before.numElems)) ∧
    (effect.role ≠ .type → (after.hdf5InternalType,after.byteOrder,after.elemSize,after.isComplex) =
      (before.hdf5InternalType,before.byteOrder,before.elemSize,before.isComplex)) ∧
    (isLayout effect.role = false → (after.layoutClass,after.chunkedInfo.numChunkedDims,after.chunkedInfo.chunkedDims,
        after.chunkedInfo.numChunkedElems,after.chunkedInfo.chunkUpdate) =
      (before.layoutClass,before.chunkedInfo.numChunkedDims,before.chunkedInfo.chunkedDims,
        before.chunkedInfo.numChunkedElems,before.chunkedInfo.chunkUpdate)) ∧
    (effect.role ≠ .matlabClass → after.matlabInternalType = before.matlabInternalType) ∧
    (after.matlabSparse,after.matlabEmpty,after.isStructArray,after.subObjectHeaderOffsets) =
      (before.matlabSparse,before.matlabEmpty,before.isStructArray,before.subObjectHeaderOffsets) := by
  cases effect with
  | sparse | empty | objectDecode => cases plain
  | space =>
    cases ran
    exact ⟨fun different => absurd rfl different,fun _ => rfl,fun _ => rfl,fun _ => rfl,rfl⟩
  | type =>
    cases ran
    exact ⟨fun _ => rfl,fun different => absurd rfl different,fun _ => rfl,fun _ => rfl,rfl⟩
  | unchunked =>
    cases ran
    exact ⟨fun _ => rfl,fun _ => rfl,fun layout => Bool.noConfusion layout,fun _ => rfl,rfl⟩
  | chunked =>
    rw [Effect.apply] at ran
    split at ran
    · cases ran
      exact ⟨fun _ => rfl,fun _ => rfl,fun layout => Bool.noConfusion layout,fun _ => rfl,rfl⟩
    · cases ran
  | matlabClass =>
    cases ran
    exact ⟨fun _ => rfl,fun _ => rfl,fun _ => rfl,fun different => absurd rfl different,rfl⟩
  | _ =>
    cases ran
    exact ⟨fun _ => rfl,fun _ => rfl,fun _ => rfl,fun _ => rfl,rfl⟩

theorem only_space : SetOnlyBy (· == .space) fun fields => (fields.numDims,fields.dims,fields.numElems) :=
  fun _ _ _ plain different ran => (ordinary_frame plain ran).1 (ne_of_beq_false different)

theorem only_type : SetOnlyBy (· == .type) fun fields => (fields.hdf5InternalType,fields.byteOrder,fields.elemSize,
    fields.isComplex) :=
  fun _ _ _ plain different ran => (ordinary_frame plain ran).2.1 (ne_of_beq_false different)

theorem only_layout : SetOnlyBy isLayout fun fields => (fields.layoutClass,fields.chunkedInfo.numChunkedDims,
    fields.chunkedInfo.chunkedDims,fields.chunkedInfo.numChunkedElems,fields.chunkedInfo.chunkUpdate) :=
  fun _ _ _ plain different ran => (ordinary_frame plain ran).2.2.1 different

theorem only_matlabClass : SetOnlyBy (· == .matlabClass) fun fields => fields.matlabInternalType :=
  fun _ _ _ plain different ran => (ordinary_frame plain ran).2.2.2.1 (ne_of_beq_false different)

theorem only_nothing : SetOnlyBy (fun _ => false) fun fields => (fields.matlabSparse,fields.matlabEmpty,fields.isStructArray,
    fields.subObjectHeaderOffsets) :=
  fun _ _ _ plain _ ran => (ordinary_frame plain ran).2.2.2.2

theorem nothing_set (valid : ValidHeader file header) (plain : ∀ m ∈ file.messages header, ordinary m.role = true)
    (ran : (file.messages header).foldl (act file.sBlock) (some start) = some after) :
    after.matlabSparse = start.matlabSparse ∧ after.matlabEmpty = start.matlabEmpty ∧
      after.isStructArray = start.isStructArray ∧ after.subObjectHeaderOffsets = start.subObjectHeaderOffsets := by
  have same := foldl_keeps only_nothing (fun other listed => ⟨messages_valid valid listed,plain other listed,rfl⟩) ran
  simpa using same

theorem messages_act_some (valid : ValidHeader file header) :
    ∃ fields, (file.messages header).foldl (act file.sBlock) (some (forget blank)) = some fields :=
  acts_fit (fun _ member => messages_valid valid member) valid.ranks _ (fun _ member => member) _ fun b _ _ =>
    Nat.zero_le (b.rank+1)

theorem class_stated (valid : ValidHeader file header) (plain : ∀ m ∈ file.messages header, ordinary m.role = true)
    (ran : (file.messages header).foldl (act file.sBlock) (some (forget blank)) = some after)
    (member : m ∈ file.messages header) (kind : m.kind = .attributeMsg) (name : m.name = textOf "MATLAB_class") :
    after.matlabInternalType = selectMatlabClass m.value .unknownClass := by
  obtain ⟨pointer,shown⟩ := listed_shown valid member
  have role : m.role = .matlabClass := by simp only [Message.role,kind,if_pos name]
  obtain ⟨_,_,before,middle,_,_,start,acted,after⟩ := foldl_stated only_matlabClass valid plain (.refl _) ran member
    (role_alone valid member role (by decide))
  rw [effectOf_matlabClass (messages_valid valid member) shown kind name] at acted
  cases acted
  rw [after,start]
  rfl

theorem address_settled (valid : ValidHeader file header) (listed : m ∈ file.messages header) (kind : m.kind = .dataLayout)
    (apart : m.compact = false) (states : ∀ pointer before, (effectOf file.sBlock m).address pointer before = stated)
    (before : Nat) : ((file.places header).map file.pointed).foldl (place file.sBlock) before = stated := by
  have alone : ∀ other ∈ file.messages header, other ≠ m → other.kind ≠ .dataLayout := fun other member different same =>
    (messages_apart valid member listed different).1 (by rw [same]; rfl) (same.trans kind.symm)
  have spread : ∀ other ∈ file.messages header, other.compact = false := by
    intro other member
    by_cases same : other = m
    · subst same
      exact apart
    · simp [Message.compact,alone other member same]
  rw [places_settle (valid_lies valid) spread]
  have once := messages_nodup valid
  have good : ∀ other ∈ file.messages header, other.Valid file.sBlock := fun other member => messages_valid valid member
  obtain ⟨front,back,split⟩ := List.append_of_mem listed
  rw [split] at once good alone ⊢
  obtain ⟨_,tail,_⟩ := List.nodup_append.mp once
  have absent : m ∉ back := (List.nodup_cons.mp tail).1
  have rest (messages : List Message) (inside : ∀ other ∈ messages, other ∈ back) (start : Nat) :
      messages.foldl (settle file.sBlock) start = start := by
    induction messages generalizing start with
    | nil => rfl
    | cons other messages ih =>
      have member := inside other List.mem_cons_self
      have whole : other ∈ front++m::back := List.mem_append_right _ (List.mem_cons_of_mem _ member)
      have kept : settle file.sBlock start other = start :=
        address_other (good other whole) (alone other whole fun same => absent (same ▸ member)) _ _
      rw [List.foldl_cons,kept]
      exact ih (fun next listed => inside next (List.mem_cons_of_mem _ listed)) start
  rw [List.foldl_append,List.foldl_cons,rest back fun _ member => member]
  exact states 0 _

theorem address_stated_by (valid : ValidHeader file header) (dataAt : DataAt file header dataAddress) (before : Nat) :
    ((file.places header).map file.pointed).foldl (place file.sBlock) before = dataAddress := by
  cases dataAt with
  | @contiguous m listed kind layout =>
    obtain ⟨pointer,shown⟩ := listed_shown valid listed
    refine address_settled valid listed kind (by simp [Message.compact,layout]) (fun _ _ => ?_) before
    rw [effectOf_contiguous (messages_valid valid listed) shown kind layout]
    rfl
  | compact listed inside => exact places_compact valid listed inside before

theorem layout_stated (valid : ValidHeader file header) (plain : ∀ m ∈ file.messages header, ordinary m.role = true)
    (ran : (file.messages header).foldl (act file.sBlock) (some (forget blank)) = some after)
    (dataAt : DataAt file header dataAddress) : after.layoutClass = 0 ∨ after.layoutClass = 1 := by
  cases dataAt with
  | @contiguous m listed kind layout =>
    obtain ⟨pointer,shown⟩ := listed_shown valid listed
    obtain ⟨_,_,before,middle,_,_,_,acted,after⟩ := foldl_stated only_layout valid plain (.refl _) ran listed
      (layout_alone valid listed kind)
    rw [effectOf_contiguous (messages_valid valid listed) shown kind layout] at acted
    cases acted
    exact .inr (congrArg Prod.fst after)
  | @compact entry listed inside =>
    obtain ⟨kind,layout⟩ : (file.messageAt entry.address).kind = .dataLayout ∧ (file.messageAt entry.address).byte 1 = 0 := by
      simpa [Message.compact] using inside
    have member : file.messageAt entry.address ∈ file.messages header :=
      List.mem_filter.mpr ⟨List.mem_map_of_mem listed,by rw [kind]; rfl⟩
    obtain ⟨_,_,before,middle,_,_,_,acted,after⟩ := foldl_stated only_layout valid plain (.refl _) ran member
      (layout_alone valid member kind)
    rw [effectOf_compact (messages_valid valid member) (messageAt_shown (valid.inside entry listed)) inside] at acted
    cases acted
    exact .inl (congrArg Prod.fst after)

theorem sizes_stated (valid : ValidHeader file header) (plain : ∀ m ∈ file.messages header, ordinary m.role = true)
    {messages : List Message} (part : messages.Sublist (file.messages header))
    (ran : messages.foldl (act file.sBlock) (some (forget blank)) = some after)
    (member : m ∈ messages) (kind : m.kind = .dataSpace) {dims : List Nat}
    (stated : m.sizes file.sBlock.sizeOfLengths = dims.reverse) (full : ∀ dim ∈ dims, 0 < dim) (few : dims.prod < 2^63) :
    after.numDims = dims.length ∧ after.dims = some (dims.map (fun dim : Nat => (dim : Int))++[0]) ∧
      after.numElems = (dims.prod : Nat) := by
  obtain ⟨pointer,shown⟩ := listed_shown valid (part.subset member)
  have role : m.role = .space := by simp [Message.role,kind]
  obtain ⟨_,_,before,middle,_,_,_,acted,after⟩ := foldl_stated only_space valid plain part ran member
    (role_alone valid (part.subset member) role (by decide))
  rw [effectOf_space (messages_valid valid (part.subset member)) shown kind] at acted
  cases acted
  have rank : m.byte 1 = dims.length := by
    have counted := congrArg List.length stated
    simpa [Message.sizes] using counted
  have listed : m.spaceDims file.sBlock.sizeOfLengths = dims.map (fun dim : Nat => (dim : Int))++[0] := by
    rw [spaceDims_sizes,stated,List.reverse_reverse]
    refine congrArg (·++[0]) (List.map_congr_left fun dim inside => ?_)
    exact (toIndex_exact dim).mpr (dim_small full few inside)
  simp only [Prod.mk.injEq] at after
  obtain ⟨numDims,same,numElems⟩ := after
  rw [listed] at same numElems
  exact ⟨numDims.trans rank,same,numElems.trans (counted_full full few)⟩

theorem numbers_stated (valid : ValidHeader file header) (plain : ∀ m ∈ file.messages header, ordinary m.role = true)
    (ran : (file.messages header).foldl (act file.sBlock) (some (forget blank)) = some after)
    (member : m ∈ file.messages header) (kind : m.kind = .dataType) (numbers : m.Numbers elemSize) :
    after.hdf5InternalType ≠ .reference ∧ after.hdf5InternalType ≠ .unknown ∧ after.byteOrder = .littleEndian ∧
      after.elemSize = elemSize ∧ after.isComplex = false := by
  obtain ⟨pointer,shown⟩ := listed_shown valid member
  have role : m.role = .type := by simp [Message.role,kind]
  obtain ⟨_,_,before,middle,_,_,start,acted,after⟩ := foldl_stated only_type valid plain (.refl _) ran member
    (role_alone valid member role (by decide))
  obtain ⟨internalType,bitField,reference,unknown,effect⟩ :=
    effectOf_numbers (messages_valid valid member) shown kind numbers
  rw [effect] at acted
  cases acted
  simp only [Prod.mk.injEq] at start after
  obtain ⟨_,_,size,complex⟩ := start
  obtain ⟨type,order,elems,real⟩ := after
  rw [size] at elems
  rw [complex] at real
  exact ⟨type ▸ reference,type ▸ unknown,order,elems,real⟩

theorem collectMetaData_plain (valid : ValidHeader file header)
    (ran : (file.messages header).foldl (act file.sBlock) (some (forget blank)) = some fields)
    (empty : fields.matlabEmpty = false) (sparse : fields.matlabSparse = false) (reference : fields.hdf5InternalType ≠ .reference) :
    ∃ after, (∀ super : MetaData, super.matlabSparse = false →
        collectMetaData file super header.start header.numMsgs header.length blank = some (0,after,super)) ∧
      forget after = fields ∧
      after.dataAddress = ((file.places header).map file.pointed).foldl (place file.sBlock) undefAddr := by
  have runs := header_acts valid blank
  rw [ran] at runs
  obtain ⟨⟨last,code,after⟩,interpreted,same⟩ := Option.map_eq_some_iff.mp runs
  simp only [Prod.mk.injEq] at same
  obtain ⟨rfl,rfl,address⟩ := same
  refine ⟨after,fun super full => ?_,rfl,address⟩
  have field : ¬(after.hdf5InternalType = .reference ∧ after.matlabInternalType = .unknownClass ∧
      super.matlabInternalType = .structClass) := fun both => reference both.1
  have done : concluded super after = (after,super) := by
    unfold concluded sparseFields
    simp only [show after.matlabEmpty = false from empty,show after.matlabSparse = false from sparse,full,if_neg field,
      Bool.false_eq_true,if_false]
  rw [collectMetaData_concluded,interpreted]
  simp only [Option.map_some,ne_eq,not_true,if_false,done]

end Reading

section Objects
variable {file : MatFile} {chunked : MetaData → Option (Nat × DataArrays)} {content : Content} {address : Nat} {super : MetaData}

theorem readObject_read (collected : collectMetaData file super (file.headerAt address).start (file.headerAt address).numMsgs
      (file.headerAt address).length blank = some (0,after,superAfter)) (full : after.matlabEmpty = false)
    (known : ¬(after.hdf5InternalType = .unknown ∧ after.matlabInternalType = .unknownClass))
    (allocates : allocateSpace after = some (0,allocated)) (fetches : fetchData file chunked allocated = some (0,fetched)) :
    readObject file chunked super address blank = some (none,fetched,superAfter) := by
  change collectMetaData file super (address+16) (file.number (address+2) 2) (file.number (address+8) 4) blank = _ at collected
  unfold readObject
  simp only [collected,full,if_neg known,allocates,fetches,Option.bind_eq_bind,Option.bind_some,Bool.false_eq_true,if_false,
    ne_eq,not_true]

theorem placeWhole_little {fields : MetaData} (elements : storageOf fields.matlabInternalType = .elements)
    (order : fields.byteOrder = .littleEndian) : placeWhole file fields = some {fields with
      data:=some ((List.range (fields.numElems.toNat*fields.elemSize)).map fun k => some (file.bytes (fields.dataAddress+k)))} := by
  have little : ¬(fields.byteOrder = .bigEndian ∧ fields.elemSize ≠ 1 ∧ 0 < fields.numElems) := fun both => by
    rw [order] at both
    cases both.1
  unfold placeWhole
  simp only [if_neg little,elements]

-- The fields that the header at an address gives, below any object that is not sparse.
structure Reads (file : MatFile) (chunked : MetaData → Option (Nat × DataArrays)) (address : Nat) (fields : MetaData) : Prop where
  read : ∀ super : MetaData, super.matlabSparse = false →
    readObject file chunked super address blank = some (none,fields,super)
  plain : fields.hdf5InternalType ≠ .reference
  full : fields.matlabSparse = false

-- What collectMetaData leaves for an array, wherever its data is.
structure Collected (file : MatFile) (address : Nat) (content : Content) (fields : MetaData) : Prop where
  collects : ∀ super : MetaData, super.matlabSparse = false → collectMetaData file super (file.headerAt address).start
    (file.headerAt address).numMsgs (file.headerAt address).length blank = some (0,fields,super)
  acted : (file.messages (file.headerAt address)).foldl (act file.sBlock) (some (forget blank)) = some (forget fields)
  settled : fields.dataAddress =
    ((file.places (file.headerAt address)).map file.pointed).foldl (place file.sBlock) undefAddr
  type : fields.hdf5InternalType ≠ .reference ∧ fields.hdf5InternalType ≠ .unknown
  order : fields.byteOrder = .littleEndian
  empty : fields.matlabEmpty = false
  classID : fields.matlabInternalType = content.classID
  single : fields.isStructArray = false
  real : fields.isComplex = false
  sparse : fields.matlabSparse = false
  numDims : fields.numDims = content.dims.length
  dims : fields.dims = some (content.dims.map (fun dim : Nat => (dim : Int))++[0])
  numElems : fields.numElems = (content.dims.prod : Nat)
  elemSize : fields.elemSize = content.elemSize
  offsets : fields.subObjectHeaderOffsets = none

theorem Described.collected (described : Described file address content) : ∃ fields, Collected file address content fields := by
  obtain ⟨acted,ran⟩ := messages_act_some described.valid
  obtain ⟨space,spaceListed,spaceKind,sizes⟩ := described.space
  obtain ⟨type,typeListed,typeKind,numbers⟩ := described.type
  obtain ⟨attr,attrListed,attrKind,name,text⟩ := described.matlabClass
  obtain ⟨numDims,dims,numElems⟩ := sizes_stated described.valid described.plain (.refl _) ran spaceListed spaceKind sizes
    described.full described.few
  obtain ⟨reference,unknown,order,elemSize,real⟩ := numbers_stated described.valid described.plain ran typeListed typeKind
    numbers
  have classID := class_stated described.valid described.plain ran attrListed attrKind name
  rw [text,className_selects _ (.inl described.elements)] at classID
  obtain ⟨sparse,empty,single,offsets⟩ := nothing_set described.valid described.plain ran
  obtain ⟨fields,collects,forgotten,settled⟩ := collectMetaData_plain described.valid ran empty sparse reference
  subst forgotten
  exact ⟨fields,collects,ran,settled,⟨reference,unknown⟩,order,empty,classID,single,real,sparse,numDims,dims,numElems,
    elemSize,offsets⟩

theorem Collected.carried {fields : MetaData} (collected : Collected file address content fields)
    (described : Described file address content) (fetches : fetchData file chunked {fields with
        data:=some (List.replicate (content.dims.prod*content.elemSize) none)} =
      some (0,{fields with data:=some (content.data.map some)})) :
    ∃ fields, Reads file chunked address fields ∧ Carries fields content := by
  have block : blockSize fields.numElems fields.elemSize = some (content.dims.prod*content.elemSize) := by
    unfold blockSize
    rw [collected.numElems,collected.elemSize,if_pos (Int.natCast_nonneg _)]
    rfl
  have allocates : allocateSpace fields =
      some (0,{fields with data:=some (List.replicate (content.dims.prod*content.elemSize) none)}) := by
    have small : ¬fields.elemSize > maxElemSize := by
      rw [collected.elemSize]
      exact Nat.not_lt.mpr described.elemSize.2
    unfold allocateSpace
    simp only [collected.classID,described.elements,if_neg small,block,Option.bind_eq_bind,Option.bind_some]
  have known : ¬(fields.hdf5InternalType = .unknown ∧ fields.matlabInternalType = .unknownClass) := fun both =>
    collected.type.2 both.1
  exact ⟨_,⟨fun super full => readObject_read (collected.collects super full) collected.empty known allocates fetches,
    collected.type.1,collected.sparse⟩,collected.classID,described.elements,collected.single,collected.real,collected.sparse,
    collected.numDims,collected.dims,collected.numElems,collected.elemSize,rfl,collected.offsets⟩

theorem dataset_reads (stored : Dataset file address content) : ∃ fields, Reads file chunked address fields ∧
    Carries fields content := by
  obtain ⟨described,dataAddress,dataAt,data⟩ := stored
  obtain ⟨fields,collected⟩ := described.collected
  have layout := layout_stated described.valid described.plain collected.acted dataAt
  have settled := collected.settled.trans (address_stated_by described.valid dataAt undefAddr)
  refine collected.carried described ?_
  obtain ⟨allocated,same⟩ : ∃ allocated : MetaData, allocated = {fields with
      data:=some (List.replicate (content.dims.prod*content.elemSize) none)} := ⟨_,rfl⟩
  have placed := @placeWhole_little file allocated (by rw [same]; exact collected.classID ▸ described.elements)
    (by rw [same]; exact collected.order)
  have bytes : (List.range (allocated.numElems.toNat*allocated.elemSize)).map
      (fun k => some (file.bytes (allocated.dataAddress+k))) = content.data.map some := by
    rw [same]
    change (List.range (fields.numElems.toNat*fields.elemSize)).map (fun k => some (file.bytes (fields.dataAddress+k))) = _
    rw [collected.numElems,Int.toNat_natCast,collected.elemSize,settled,data,List.map_map]
    rfl
  rw [bytes] at placed
  have stated : allocated.layoutClass = fields.layoutClass := by rw [same]
  change fields.layoutClass = 0 ∨ fields.layoutClass = 1 at layout
  rw [← same]
  unfold fetchData
  rw [placed,stated]
  rcases layout with zero | one
  · rw [zero,same]
    rfl
  · rw [one,same]
    rfl

structure CarriesStruct (fields : MetaData) : Prop where
  classID : fields.matlabInternalType = .structClass
  single : fields.isStructArray = false
  full : fields.matlabSparse = false
  numDims : fields.numDims = 2
  dims : fields.dims = some [1,1,0]

theorem struct_reads (stored : StructHeader file address) : ∃ fields, Reads file chunked address fields ∧
    CarriesStruct fields := by
  have plain : ∀ m ∈ file.messages (file.headerAt address), ordinary m.role = true := by
    intro m listed
    rcases stored.plain m listed with role | role <;> rw [role] <;> rfl
  have absent (sets : Message.Role → Bool) (other : sets .matlabClass = false ∧ sets .nothing = false) :
      ∀ m ∈ file.messages (file.headerAt address), m.Valid file.sBlock ∧ ordinary m.role = true ∧ sets m.role = false := by
    intro m listed
    refine ⟨messages_valid stored.valid listed,plain m listed,?_⟩
    rcases stored.plain m listed with role | role <;> rw [role]
    · exact other.1
    · exact other.2
  obtain ⟨acted,ran⟩ := messages_act_some stored.valid
  obtain ⟨attr,attrListed,attrKind,name,text⟩ := stored.matlabClass
  have classID := class_stated stored.valid plain ran attrListed attrKind name
  rw [text,show textOf "struct" = className .structClass from rfl,className_selects _ (.inr rfl)] at classID
  obtain ⟨sparse,empty,single,_⟩ := nothing_set stored.valid plain ran
  have typed := foldl_keeps only_type (absent (· == .type) (by decide)) ran
  have layout : acted.layoutClass = 3 := congrArg Prod.fst (foldl_keeps only_layout (absent isLayout (by decide)) ran)
  simp only [Prod.mk.injEq] at typed
  have type : acted.hdf5InternalType = .unknown := typed.1
  have reference : acted.hdf5InternalType ≠ .reference := by
    rw [type]
    decide
  obtain ⟨after,collected,forgotten,_⟩ := collectMetaData_plain stored.valid ran empty sparse reference
  subst forgotten
  have known : ¬(after.hdf5InternalType = .unknown ∧ after.matlabInternalType = .unknownClass) := fun both => by
    have class_ : after.matlabInternalType = .structClass := classID
    rw [class_] at both
    cases both.2
  have allocates : allocateSpace after = some (0,{after with numElems:=1,numDims:=2,dims:=some [1,1,0]}) := by
    unfold allocateSpace
    rw [show after.matlabInternalType = .structClass from classID]
    rfl
  have fetches : fetchData file chunked {after with numElems:=1,numDims:=2,dims:=some [1,1,0]} =
      some (0,{after with numElems:=1,numDims:=2,dims:=some [1,1,0]}) := by
    unfold fetchData
    simp only [show after.layoutClass = 3 from layout]
  exact ⟨_,⟨fun super full => readObject_read (collected super full) empty known allocates fetches,reference,sparse⟩,
    classID,single,sparse,rfl,rfl⟩

end Objects

end GetMatVar
