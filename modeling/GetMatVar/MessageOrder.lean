import GetMatVar.InterpretMessages
import GetMatVar.Library.Arrangements

namespace GetMatVar
open Arrangements

-- A message apart from where it lies: its kind and its msg_size bytes.
structure Message where
  kind : MessageType
  body : List UInt8
deriving DecidableEq

namespace Message

def bytes (m : Message) : FileBytes := fun k => m.body.getD k 0

def byte (m : Message) (k : Nat) : Nat := (m.bytes k).toNat

def number (m : Message) (k n : Nat) : Nat := getBytesAsNumber m.bytes k n

def NamedTo (m : Message) (k left : Nat) : Prop :=
  k+left < m.body.length ∧ m.bytes (k+left) = 0 ∧ ∀ i < left, m.bytes (k+i) ≠ 0

-- A datatype description at k, with the members of a compound type behind it.
inductive ValidDatatype (m : Message) : Nat → Prop where
  | plain : k+8 ≤ m.body.length → m.byte k/16 = 1 → m.byte k%16 ≠ 6 → ValidDatatype m k
  | compound : k+12 ≤ m.body.length → m.byte k/16 = 1 → m.byte k%16 = 6 → m.NamedTo k left →
      ValidDatatype m (k+8+roundUp8 (left+1)+32) → ValidDatatype m k

def nameSize (m : Message) : Nat := m.number 2 2

def valueAt (m : Message) : Nat := 8+roundUp8 m.nameSize+roundUp8 (m.number 4 2)+roundUp8 (m.number 6 2)

def name (m : Message) : Text := ((List.range m.nameSize).map (fun k => m.bytes (8+k))).takeWhile (· ≠ 0)

def valueSize (m : Message) : Nat :=
  if m.name = textOf "MATLAB_class" then m.number (8+roundUp8 m.nameSize+4) 4
  else if m.name = textOf "MATLAB_sparse" then 8
  else if m.name = textOf "MATLAB_object_decode" then 4
  else 0

def Valid (sBlock : Superblock) (m : Message) : Prop :=
  match m.kind with
  | .dataSpace => m.byte 0 = 1 ∧ m.byte 1 ≤ hdf5MaxDims ∧ 8+m.byte 1*sBlock.sizeOfLengths ≤ m.body.length
  | .dataType => m.ValidDatatype 0
  | .dataLayout => m.byte 0 = 3 ∧ (m.byte 1 = 0 ∧ 4 ≤ m.body.length ∨
      m.byte 1 = 1 ∧ 2+sBlock.sizeOfOffsets ≤ m.body.length ∨
      m.byte 1 = 2 ∧ 3+sBlock.sizeOfOffsets+4*((m.byte 2+255)%256) ≤ m.body.length)
  | .pipeline => (m.byte 0 = 1 ∨ m.byte 0 = 2) ∧ 2 ≤ m.body.length
  | .attributeMsg => m.byte 0 = 1 ∧ m.nameSize ≤ maxNameLength ∧ 8+roundUp8 m.nameSize+8 ≤ m.body.length ∧
      m.valueAt+m.valueSize ≤ m.body.length
  | .continuation => bytesMatch m.bytes 0 (textOf "OCHK") = false ∧ 4 ≤ m.body.length
  | .ignored => True

-- What a message does to the fields of an object.
inductive Role where
  | space
  | type
  | unchunked
  | chunked
  | pipeline
  | matlabClass
  | sparse
  | empty
  | objectDecode
  | nothing
deriving DecidableEq

def role (m : Message) : Role :=
  match m.kind with
  | .dataSpace => .space
  | .dataType => .type
  | .dataLayout => if m.byte 1 = 2 then .chunked else .unchunked
  | .pipeline => .pipeline
  | .attributeMsg =>
    if m.name = textOf "MATLAB_class" then .matlabClass
    else if m.name = textOf "MATLAB_sparse" then .sparse
    else if m.name = textOf "MATLAB_empty" then .empty
    else if m.name = textOf "MATLAB_object_decode" then .objectDecode
    else .nothing
  | _ => .nothing

-- The pairs whose order matters: who sets the dimensions last, and with which
-- dimensions the chunk updates are computed; who sets the class last. Of the two
-- layouts a header has one at most.
def Role.interferes : Role → Role → Bool
  | .unchunked,.chunked => true
  | .chunked,.unchunked => true
  | .space,.chunked => true
  | .chunked,.space => true
  | .space,.sparse => true
  | .sparse,.space => true
  | .chunked,.sparse => true
  | .sparse,.chunked => true
  | .matlabClass,.objectDecode => true
  | .objectDecode,.matlabClass => true
  | _,_ => false

def Apart (a b : Message) : Prop :=
  (nonRepeated a.kind = true → a.kind ≠ b.kind) ∧ (a.kind = .attributeMsg → b.kind = .attributeMsg → a.name ≠ b.name)

def compact (m : Message) : Bool := m.kind = .dataLayout ∧ m.byte 1 = 0

def rank (m : Message) : Nat :=
  match m.role with
  | .space => m.byte 1
  | .chunked => (m.byte 2+255)%256
  | _ => 0

end Message

-- An object header as collectMetaData gets it.
structure Header where
  start : Nat
  length : Nat
  numMsgs : Nat
deriving DecidableEq

section Headers
variable (file : MatFile)

def MatFile.messageAt (file : MatFile) (address : Nat) : Message :=
  ⟨file.typeAt address,(List.range (file.sizeAt address)).map fun k => file.bytes (address+msgSubHeaderSize+k)⟩

def MatFile.places (file : MatFile) (header : Header) : List MessagePlace :=
  expand file wrap32 header.numMsgs [⟨header.start,header.length,0⟩]

def MatFile.messages (file : MatFile) (header : Header) : List Message :=
  ((file.places header).map fun place => file.messageAt place.address).filter fun m =>
    m.kind ≠ .continuation && m.kind ≠ .ignored

-- Valid messages, and room in chunk_update for every dimension of the dataspace.
structure ValidHeader (header : Header) : Prop where
  count : header.numMsgs < 65536
  inside : ∀ place ∈ file.places header,
    place.address+msgSubHeaderSize+file.sizeAt place.address ≤ file.fileSize
  valid : ∀ place ∈ file.places header, (file.messageAt place.address).Valid file.sBlock
  apart : (file.messages header).Pairwise Message.Apart
  ranks : ∀ a ∈ file.messages header, ∀ b ∈ file.messages header, a.role = .space → b.role = .chunked →
    a.rank ≤ b.rank+1

end Headers

section Shown

def Shown (file : MatFile) (pointer : Nat) (m : Message) : Prop :=
  pointer+m.body.length ≤ file.fileSize ∧ ∀ k < m.body.length, file.bytes (pointer+k) = m.bytes k

theorem messageAt_shown (inside : address+msgSubHeaderSize+file.sizeAt address ≤ file.fileSize) :
    Shown file (address+msgSubHeaderSize) (file.messageAt address) := by
  have size : (file.messageAt address).body.length = file.sizeAt address := by simp [MatFile.messageAt]
  refine ⟨size ▸ inside,fun k below => ?_⟩
  rw [size] at below
  simp [Message.bytes,MatFile.messageAt,below]

variable {file : MatFile} {m : Message}

theorem littleEndian_shown (shown : Shown file pointer m) (fits : k+n ≤ m.body.length) :
    littleEndian file.bytes (pointer+k) n = littleEndian m.bytes k n := by
  induction n generalizing k with
  | zero => rfl
  | succ n ih =>
    have first := shown.2 k (by omega)
    have rest := ih (show k+1+n ≤ m.body.length by omega)
    rw [← Nat.add_assoc] at rest
    simp only [littleEndian,first,rest]

theorem number_shown (shown : Shown file pointer m) (fits : k+n ≤ m.body.length) :
    file.number (pointer+k) n = m.number k n :=
  littleEndian_shown shown (Nat.le_trans (Nat.add_le_add_left (Nat.min_le_left n 8) k) fits)

theorem byte_shown (shown : Shown file pointer m) (fits : k < m.body.length) : file.byte (pointer+k) = m.byte k := by
  unfold MatFile.byte Message.byte
  rw [shown.2 k fits]

theorem match_shown (shown : Shown file pointer m) (fits : k+text.length ≤ m.body.length) :
    bytesMatch file.bytes (pointer+k) text = bytesMatch m.bytes k text := by
  induction text generalizing k with
  | nil => rfl
  | cons char text ih =>
    simp only [List.length_cons] at fits
    have first := shown.2 k (by omega)
    have rest := ih (show k+1+text.length ≤ m.body.length by omega)
    rw [← Nat.add_assoc] at rest
    simp only [bytesMatch,first,rest]

end Shown

-- The fields without the filters and without data_address, which may depend on
-- where a message lies.
def forget (object : MetaData) : MetaData :=
  {object with dataAddress:=0,chunkedInfo:={object.chunkedInfo with filters:=[]}}

-- What a valid message does, in values taken from its own bytes. A compact layout
-- states no address.
inductive Effect where
  | space (numDims : Nat) (dims : List Int)
  | type (internalType : HDF5Datatype) (bitField size : Nat) (order : ByteOrder) (complex : Bool)
  | unchunked (layoutClass : Nat) (stated : Option Nat)
  | chunked (stated numChunkedDims : Nat) (chunkedDims : List Int)
  | pipeline (numFilters : Nat)
  | matlabClass (text : Text)
  | sparse (dim : Int)
  | empty
  | objectDecode (hint : ObjectDecodingHint)
  | nothing

namespace Effect

def role : Effect → Message.Role
  | .space .. => .space
  | .type .. => .type
  | .unchunked .. => .unchunked
  | .chunked .. => .chunked
  | .pipeline _ => .pipeline
  | .matlabClass _ => .matlabClass
  | .sparse _ => .sparse
  | .empty => .empty
  | .objectDecode _ => .objectDecode
  | .nothing => .nothing

def compact : Effect → Bool
  | .unchunked _ none => true
  | _ => false

def rank : Effect → Nat
  | .space numDims _ => numDims
  | .chunked _ numChunkedDims _ => numChunkedDims
  | _ => 0

def address (pointer before : Nat) : Effect → Nat
  | .unchunked _ none => pointer+4
  | .unchunked _ (some stated) => stated
  | .chunked stated _ _ => stated
  | _ => before

def updates (chunkedDims : List Int) (object : MetaData) : Nat → Int :=
  makeChunkedUpdates (fun _ => 0) (fun k => chunkedDims.getD k 0) (fun k => (object.dims.getD []).getD k 0) object.numDims

def apply (object : MetaData) : Effect → Option MetaData
  | .space numDims dims => some {object with numDims:=numDims,dims:=some dims,numElems:=countDims dims 1}
  | .type internalType bitField size order complex => some {object with
      hdf5InternalType:=internalType,datatypeBitField:=bitField,byteOrder:=order
      elemSize:=if object.elemSize = 0 then size else object.elemSize
      isComplex:=object.isComplex || complex}
  | .unchunked layoutClass _ => some {object with layoutClass:=layoutClass}
  | .chunked _ numChunkedDims chunkedDims =>
    if object.numDims ≤ numChunkedDims+1 then
      some {object with
        layoutClass:=2
        chunkedInfo:={object.chunkedInfo with
          numChunkedDims:=numChunkedDims,chunkedDims:=some chunkedDims
          numChunkedElems:=(chunkedDims.take numChunkedDims).foldl (fun elems dim => wrapIndex (elems*dim)) 1
          chunkUpdate:=some ((List.range (numChunkedDims+1)).map (updates chunkedDims object))}}
    else none
  | .pipeline numFilters => some {object with chunkedInfo:={object.chunkedInfo with numFilters:=numFilters}}
  | .matlabClass text => some {object with
      matlabClass:=some text,matlabInternalType:=selectMatlabClass text object.matlabInternalType}
  | .sparse dim => some {object with matlabSparse:=true,dims:=some [dim,0]}
  | .empty => some {object with matlabEmpty:=true}
  | .objectDecode hint => some {object with
      matlabObjectDecode:=hint
      matlabInternalType:=match hint with
        | .functionHint => .functionClass
        | .objectHint => .objectClass
        | .opaqueHint => .opaqueClass
        | _ => object.matlabInternalType}
  | .nothing => some object

-- The chunk updates need the dimensions only, so the rest may be set before or after.
theorem chunked_swap (effect : Effect) (different : effect.role ≠ .chunked)
    (free : Message.Role.interferes .chunked effect.role = false) (object : MetaData) :
    ((chunked stated numChunkedDims chunkedDims).apply object).bind effect.apply =
      (effect.apply object).bind (chunked stated numChunkedDims chunkedDims).apply := by
  cases effect with
  | chunked => exact absurd rfl different
  | space | sparse | unchunked => cases free
  | _ =>
    simp only [apply,Option.bind_some]
    split <;> rfl

theorem swap (left right : Effect) (different : left.role ≠ right.role)
    (free : left.role.interferes right.role = false) (object : MetaData) :
    (left.apply object).bind right.apply = (right.apply object).bind left.apply := by
  cases left with
  | chunked => exact chunked_swap right (Ne.symm different) free object
  | _ =>
    cases right with
    | chunked => exact (chunked_swap _ different (by first | rfl | cases free) object).symm
    | _ =>
      first
      | rfl
      | exact absurd rfl different
      | cases free

end Effect

section Readers
variable {file : MatFile} {m : Message}

-- Wherever the message lies, its reader takes it and has this effect.
structure Does (sBlock : Superblock) (m : Message) (effect : Effect) : Prop where
  role : effect.role = m.role
  compact : effect.compact = m.compact
  rank : effect.rank = m.rank
  reads : ∀ (file : MatFile) (pointer : Nat), file.sBlock = sBlock → Shown file pointer m → ∀ object,
    (readMessage file m.kind pointer object).map (fun read => (read.1,forget read.2,read.2.dataAddress)) =
      (effect.apply (forget object)).map fun fields => (0,fields,effect.address pointer object.dataAddress)

def Message.spaceDims (m : Message) (size : Nat) : List Int :=
  (List.range (m.byte 1)).map (fun k => toIndex (m.number (8+(m.byte 1-1-k)*size) size))++[0]

theorem spaceDims_shown (shown : Shown file pointer m) (fits : 8+m.byte 1*size ≤ m.body.length) :
    (List.range (m.byte 1)).map (fun k => toIndex (file.number (pointer+8+(m.byte 1-1-k)*size) size))++[0] =
      m.spaceDims size := by
  refine congrArg (·++[0]) (List.map_congr_left fun k member => ?_)
  have below := List.mem_range.mp member
  have place : (m.byte 1-1-k)*size+size ≤ m.byte 1*size := by
    rw [← Nat.succ_mul]
    exact Nat.mul_le_mul_right size (by omega)
  rw [Nat.add_assoc,number_shown shown (by omega)]

theorem dataSpace_does (kind : m.kind = .dataSpace) (valid : m.Valid sBlock) :
    ∃ effect, Does sBlock m effect := by
  simp only [Message.Valid,kind] at valid
  obtain ⟨version,few,fits⟩ := valid
  have role : m.role = .space := by simp [Message.role,kind]
  refine ⟨.space (m.byte 1) (m.spaceDims sBlock.sizeOfLengths),role.symm,by simp [Effect.compact,Message.compact,kind],
    by simp [Effect.rank,Message.rank,role],?_⟩
  rintro file pointer rfl shown object
  have first : file.byte (pointer+0) = m.byte 0 := byte_shown shown (by omega)
  have rank : file.byte (pointer+1) = m.byte 1 := byte_shown shown (by omega)
  rw [Nat.add_zero,version] at first
  simp only [kind,readMessage,readDataSpaceMessage,first,rank,ne_eq,not_true,if_false,Nat.not_lt.mpr few,
    spaceDims_shown shown fits]
  rfl

def plainOrder (internalType : HDF5Datatype) (bitField : Nat) : ByteOrder :=
  match internalType with
  | .fixedPoint | .time | .floatingPoint => if bitField%2 = 1 then .bigEndian else .littleEndian
  | _ => .littleEndian

theorem compound_code (code : Nat) : hdf5DatatypeOf code = .compound ↔ code = 6 := by
  unfold hdf5DatatypeOf
  split <;> simp_all

theorem dataType_reads (valid : m.ValidDatatype k) : ∃ internalType bitField size order complex,
    ∀ (file : MatFile) (pointer left : Nat), Shown file pointer m → m.body.length ≤ k+left → ∀ object,
      readDataTypeMessage file left (pointer+k) object = some (0,{object with
        hdf5InternalType:=internalType,datatypeBitField:=bitField,byteOrder:=order
        elemSize:=if object.elemSize = 0 then size else object.elemSize
        isComplex:=object.isComplex || complex}) := by
  induction valid with
  | @plain k fits version code =>
    refine ⟨hdf5DatatypeOf (m.byte k%16),m.number (k+1) 3,m.number (k+4) 4,
      plainOrder (hdf5DatatypeOf (m.byte k%16)) (m.number (k+1) 3),false,fun file pointer left shown enough object => ?_⟩
    obtain ⟨left,rfl⟩ : ∃ rest, left = rest+1 := ⟨left-1,by omega⟩
    have first : file.byte (pointer+k) = m.byte k := byte_shown shown (by omega)
    have bits : file.number (pointer+k+1) 3 = m.number (k+1) 3 := by
      rw [Nat.add_assoc]
      exact number_shown shown (by omega)
    have size : file.number (pointer+k+4) 4 = m.number (k+4) 4 := by
      rw [Nat.add_assoc]
      exact number_shown shown (by omega)
    have other : hdf5DatatypeOf (m.byte k%16) ≠ .compound := fun same =>
      code ((compound_code _).mp same)
    simp only [readDataTypeMessage,first,bits,size,version,ne_eq,not_true,if_false,Bool.or_false]
    generalize hdf5DatatypeOf (m.byte k%16) = internalType at other
    generalize m.number (k+1) 3 = bitField,m.number (k+4) 4 = elems
    cases internalType <;> first | exact absurd rfl other | rfl
  | @compound k named fits version code name _ ih =>
    obtain ⟨internalType,bitField,size,order,complex,reads⟩ := ih
    refine ⟨internalType,bitField,if m.number (k+4) 4 = 0 then size else m.number (k+4) 4,order,
      bytesMatch m.bytes (k+8) (textOf "real") || complex,fun file pointer left shown enough object => ?_⟩
    obtain ⟨left,rfl⟩ : ∃ rest, left = rest+1 := ⟨left-1,by omega⟩
    have first : file.byte (pointer+k) = m.byte k := byte_shown shown (by omega)
    have real : file.shows (pointer+k+8) "real" = bytesMatch m.bytes (k+8) (textOf "real") := by
      unfold MatFile.shows
      rw [Nat.add_assoc]
      exact match_shown shown (by simpa [textOf] using fits)
    have elems : file.number (pointer+k+4) 4 = m.number (k+4) 4 := by
      rw [Nat.add_assoc]
      exact number_shown shown (by omega)
    obtain ⟨inside,nul,before⟩ := name
    have ended : file.text (pointer+k) = some ((List.range named).map fun i => m.bytes (k+i)) := by
      have room := shown.1
      refine cString_exact (by simp; omega) ?_ fun i below => ?_
      · rw [List.length_map,List.length_range,Nat.add_assoc,shown.2 _ inside,nul]
      · simp only [List.length_map,List.length_range] at below
        rw [Nat.add_assoc,shown.2 _ (by omega),List.getElem_map,List.getElem_range]
        exact ⟨rfl,before i below⟩
    have next := reads file pointer left shown (by omega)
    have compound := (compound_code _).mpr code
    have place : pointer+k+8+roundUp8 (named+1)+32 = pointer+(k+8+roundUp8 (named+1)+32) := by omega
    simp only [readDataTypeMessage,first,real,elems,version,ne_eq,not_true,if_false,compound,ended,Option.bind_eq_bind,
      Option.bind_some,List.length_map,List.length_range,place,next,Bool.or_assoc]
    by_cases unset : object.elemSize = 0 <;> simp [unset]

theorem dataType_does (kind : m.kind = .dataType) (valid : m.Valid sBlock) :
    ∃ effect, Does sBlock m effect := by
  simp only [Message.Valid,kind] at valid
  obtain ⟨internalType,bitField,size,order,complex,reads⟩ := dataType_reads valid
  have role : m.role = .type := by simp [Message.role,kind]
  refine ⟨.type internalType bitField size order complex,role.symm,by simp [Effect.compact,Message.compact,kind],
    by simp [Effect.rank,Message.rank,role],?_⟩
  rintro file pointer - shown object
  have room := shown.1
  have read := reads file pointer (file.fileSize-pointer) shown (by omega) object
  rw [Nat.add_zero] at read
  rw [kind,readMessage,read]
  rfl

def Message.chunkDims (m : Message) (size : Nat) : List Int :=
  (List.range ((m.byte 2+255)%256)).map (fun k => toIndex (m.number (3+size+4*((m.byte 2+255)%256-1-k)) 4))++[0]

theorem chunkDims_shown (shown : Shown file pointer m) (fits : 3+size+4*((m.byte 2+255)%256) ≤ m.body.length) :
    (List.range ((m.byte 2+255)%256)).map (fun k =>
      toIndex (file.number (pointer+3+size+4*((m.byte 2+255)%256-1-k)) 4))++[0] = m.chunkDims size := by
  refine congrArg (·++[0]) (List.map_congr_left fun k member => ?_)
  have below := List.mem_range.mp member
  rw [show pointer+3+size+4*((m.byte 2+255)%256-1-k) = pointer+(3+size+4*((m.byte 2+255)%256-1-k)) by omega,
    number_shown shown (by omega)]

def Message.statedAddress (m : Message) (sBlock : Superblock) (k : Nat) : Nat :=
  (m.number k sBlock.sizeOfOffsets+sBlock.baseAddress)%2^addressBits

theorem address_shown (shown : Shown file pointer m) (fits : k+file.sBlock.sizeOfOffsets ≤ m.body.length) :
    file.address (pointer+k) = m.statedAddress file.sBlock k := by
  unfold MatFile.address Message.statedAddress
  rw [number_shown shown fits]

theorem dataLayout_does (kind : m.kind = .dataLayout) (valid : m.Valid sBlock) :
    ∃ effect, Does sBlock m effect := by
  simp only [Message.Valid,kind] at valid
  obtain ⟨version,stored⟩ := valid
  have reads (file : MatFile) (pointer : Nat) (shown : Shown file pointer m) :
      file.byte pointer = 3 ∧ file.byte (pointer+1) = m.byte 1 := by
    have first : file.byte (pointer+0) = m.byte 0 := byte_shown shown (by omega)
    exact ⟨first.trans version,byte_shown shown (by omega)⟩
  rcases stored with ⟨layout,_⟩ | ⟨layout,fits⟩ | ⟨layout,fits⟩
  · have role : m.role = .unchunked := by simp [Message.role,kind,layout]
    refine ⟨.unchunked 0 none,role.symm,by simp [Effect.compact,Message.compact,kind,layout],
      by simp [Effect.rank,Message.rank,role],fun file pointer _ shown object => ?_⟩
    obtain ⟨first,second⟩ := reads file pointer shown
    simp only [kind,readMessage,readDataLayoutMessage,first,second,layout,ne_eq,not_true,if_false]
    rfl
  · have role : m.role = .unchunked := by simp [Message.role,kind,layout]
    refine ⟨.unchunked 1 (some (m.statedAddress sBlock 2)),role.symm,by simp [Effect.compact,Message.compact,kind,layout],
      by simp [Effect.rank,Message.rank,role],?_⟩
    rintro file pointer rfl shown object
    obtain ⟨first,second⟩ := reads file pointer shown
    simp only [kind,readMessage,readDataLayoutMessage,first,second,layout,ne_eq,not_true,if_false,address_shown shown fits]
    rfl
  · have role : m.role = .chunked := by simp [Message.role,kind,layout]
    refine ⟨.chunked (m.statedAddress sBlock 3) ((m.byte 2+255)%256) (m.chunkDims sBlock.sizeOfOffsets),role.symm,
      by simp [Effect.compact,Message.compact,kind,layout],by simp [Effect.rank,Message.rank,role],?_⟩
    rintro file pointer rfl shown object
    obtain ⟨first,second⟩ := reads file pointer shown
    have rank : file.byte (pointer+2) = m.byte 2 := byte_shown shown (by omega)
    simp only [kind,readMessage,readDataLayoutMessage,first,second,layout,rank,ne_eq,not_true,if_false,
      chunkDims_shown shown fits,address_shown shown (Nat.le_of_add_right_le fits),Effect.apply]
    by_cases room : object.numDims ≤ (m.byte 2+255)%256+1
    · rw [if_pos room,if_pos (show (forget object).numDims ≤ _ from room)]
      rfl
    · rw [if_neg room,if_neg (show ¬(forget object).numDims ≤ _ from room)]
      rfl

theorem pipeline_does (kind : m.kind = .pipeline) (valid : m.Valid sBlock) :
    ∃ effect, Does sBlock m effect := by
  simp only [Message.Valid,kind] at valid
  obtain ⟨version,fits⟩ := valid
  have role : m.role = .pipeline := by simp [Message.role,kind]
  refine ⟨.pipeline (m.byte 1),role.symm,by simp [Effect.compact,Message.compact,kind],by simp [Effect.rank,Message.rank,role],
    fun file pointer _ shown object => ?_⟩
  have first : file.byte (pointer+0) = m.byte 0 := byte_shown shown (by omega)
  have count : file.byte (pointer+1) = m.byte 1 := byte_shown shown (by omega)
  rw [Nat.add_zero] at first
  rcases version with version | version
  · rw [version] at first
    simp only [kind,readMessage,readDataStoragePipelineMessage,first,count]
    rfl
  · rw [version] at first
    simp only [kind,readMessage,readDataStoragePipelineMessage,first,count]
    rfl

theorem bytes_shown (shown : Shown file pointer m) (fits : start+count ≤ m.body.length) :
    (List.range count).map (fun k => file.bytes (pointer+start+k)) =
      (List.range count).map (fun k => m.bytes (start+k)) := by
  refine List.map_congr_left fun k member => ?_
  have below := List.mem_range.mp member
  rw [Nat.add_assoc,shown.2 _ (by omega)]

theorem roundUp8_le (n : Nat) : n ≤ roundUp8 n := by
  unfold roundUp8
  split <;> omega

theorem attribute_does (kind : m.kind = .attributeMsg) (valid : m.Valid sBlock) :
    ∃ effect, Does sBlock m effect := by
  simp only [Message.Valid,kind] at valid
  obtain ⟨version,short,header,fits⟩ := valid
  have named := roundUp8_le m.nameSize
  -- What the reader looks at first is the same wherever the message lies.
  have reads (file : MatFile) (pointer : Nat) (shown : Shown file pointer m) : file.byte pointer = 1 ∧
      file.number (pointer+2) 2 = m.nameSize ∧ attributeName file pointer m.nameSize = m.name ∧
      pointer+8+roundUp8 m.nameSize+roundUp8 (file.number (pointer+4) 2)+roundUp8 (file.number (pointer+6) 2) =
        pointer+m.valueAt := by
    have first : file.byte (pointer+0) = m.byte 0 := byte_shown shown (by omega)
    have type : file.number (pointer+4) 2 = m.number 4 2 := number_shown shown (by omega)
    have space : file.number (pointer+6) 2 = m.number 6 2 := number_shown shown (by omega)
    refine ⟨first.trans version,number_shown shown (by omega),?_,?_⟩
    · unfold attributeName Message.name
      rw [bytes_shown shown (by omega)]
    · rw [type,space]
      unfold Message.valueAt
      omega
  have long : ¬m.nameSize > maxNameLength := Nat.not_lt.mpr short
  have stored : false = m.compact := by simp [Message.compact,kind]
  by_cases isClass : m.name = textOf "MATLAB_class"
  · have role : m.role = .matlabClass := by simp only [Message.role,kind,if_pos isClass]
    have size : m.valueSize = m.number (8+roundUp8 m.nameSize+4) 4 := if_pos isClass
    refine ⟨.matlabClass (((List.range m.valueSize).map fun k => m.bytes (m.valueAt+k)).takeWhile (· ≠ 0)),
      role.symm,stored,by simp [Effect.rank,Message.rank,role],fun file pointer _ shown object => ?_⟩
    obtain ⟨first,name,text,value⟩ := reads file pointer shown
    have stated : file.number (pointer+8+roundUp8 m.nameSize+4) 4 = m.valueSize := by
      rw [show pointer+8+roundUp8 m.nameSize+4 = pointer+(8+roundUp8 m.nameSize+4) by omega,
        number_shown shown (by omega),size]
    simp only [kind,readMessage,readAttributeMessage,first,name,text,value,ne_eq,not_true,if_false,long,if_pos isClass,
      stated,bytes_shown shown fits]
    rfl
  by_cases isSparse : m.name = textOf "MATLAB_sparse"
  · have role : m.role = .sparse := by simp only [Message.role,kind,if_neg isClass,if_pos isSparse]
    have size : m.valueSize = 8 := (if_neg isClass).trans (if_pos isSparse)
    refine ⟨.sparse (toIndex (m.number m.valueAt 8)),role.symm,stored,by simp [Effect.rank,Message.rank,role],
      fun file pointer _ shown object => ?_⟩
    obtain ⟨first,name,text,value⟩ := reads file pointer shown
    have rows : file.number (pointer+m.valueAt) 8 = m.number m.valueAt 8 := number_shown shown (by omega)
    simp only [kind,readMessage,readAttributeMessage,first,name,text,value,ne_eq,not_true,if_false,long,
      if_neg isClass,if_pos isSparse,rows]
    rfl
  by_cases isEmpty : m.name = textOf "MATLAB_empty"
  · have role : m.role = .empty := by simp only [Message.role,kind,if_neg isClass,if_neg isSparse,if_pos isEmpty]
    refine ⟨.empty,role.symm,stored,by simp [Effect.rank,Message.rank,role],
      fun file pointer _ shown object => ?_⟩
    obtain ⟨first,name,text,value⟩ := reads file pointer shown
    simp only [kind,readMessage,readAttributeMessage,first,name,text,ne_eq,not_true,if_false,long,if_neg isClass,
      if_neg isSparse,if_pos isEmpty]
    rfl
  by_cases isDecode : m.name = textOf "MATLAB_object_decode"
  · have role : m.role = .objectDecode := by
      simp only [Message.role,kind,if_neg isClass,if_neg isSparse,if_neg isEmpty,if_pos isDecode]
    have size : m.valueSize = 4 := (if_neg isClass).trans ((if_neg isSparse).trans (if_pos isDecode))
    refine ⟨.objectDecode (objectDecodingHintOf (m.number m.valueAt 4)),
      role.symm,stored,by simp [Effect.rank,Message.rank,role],
      fun file pointer _ shown object => ?_⟩
    obtain ⟨first,name,text,value⟩ := reads file pointer shown
    have hint : file.number (pointer+m.valueAt) 4 = m.number m.valueAt 4 := number_shown shown (by omega)
    simp only [kind,readMessage,readAttributeMessage,first,name,text,value,ne_eq,not_true,if_false,long,
      if_neg isClass,if_neg isSparse,if_neg isEmpty,if_pos isDecode,hint]
    rfl
  · have role : m.role = .nothing := by
      simp only [Message.role,kind,if_neg isClass,if_neg isSparse,if_neg isEmpty,if_neg isDecode]
    refine ⟨.nothing,role.symm,stored,by simp [Effect.rank,Message.rank,role],
      fun file pointer _ shown object => ?_⟩
    obtain ⟨first,name,text,value⟩ := reads file pointer shown
    simp only [kind,readMessage,readAttributeMessage,first,name,text,ne_eq,not_true,if_false,long,if_neg isClass,
      if_neg isSparse,if_neg isEmpty,if_neg isDecode]
    rfl

theorem valid_does (valid : m.Valid sBlock) : ∃ effect, Does sBlock m effect := by
  cases kind : m.kind with
  | dataSpace => exact dataSpace_does kind valid
  | dataType => exact dataType_does kind valid
  | dataLayout => exact dataLayout_does kind valid
  | pipeline => exact pipeline_does kind valid
  | attributeMsg => exact attribute_does kind valid
  | continuation =>
    simp only [Message.Valid,kind] at valid
    have role : m.role = .nothing := by simp [Message.role,kind]
    refine ⟨.nothing,role.symm,by simp [Effect.compact,Message.compact,kind],by simp [Effect.rank,Message.rank,role],
      fun file pointer _ shown object => ?_⟩
    have version : bytesMatch file.bytes (pointer+0) (textOf "OCHK") = bytesMatch m.bytes 0 (textOf "OCHK") :=
      match_shown shown (by simpa [textOf] using valid.2)
    have plain : file.shows pointer "OCHK" = false := version.trans valid.1
    simp only [kind,readMessage,plain]
    rfl
  | ignored =>
    have role : m.role = .nothing := by simp [Message.role,kind]
    refine ⟨.nothing,role.symm,by simp [Effect.compact,Message.compact,kind],by simp [Effect.rank,Message.rank,role],fun _ _ _ _ _ => ?_⟩
    rw [kind]
    rfl

end Readers

section Runs
variable {file : MatFile}

-- The messages that go to no reader leave no trace in the object.
theorem readAll_dispatched {log : List Dispatch} (object : MetaData)
    (known : ∀ dispatch ∈ log, file.typeAt dispatch.address ≠ .ignored → dispatch.applied = true) :
    readAll file (log.map Dispatch.toMessagePlace) object = readAll file (dispatched log) object := by
  unfold dispatched
  induction log generalizing object with
  | nil => rfl
  | cons dispatch rest ih =>
    have later := fun middle => ih middle fun other member => known other (List.mem_cons_of_mem _ member)
    by_cases applied : dispatch.applied = true
    · rw [List.filter_cons_of_pos applied,List.map_cons,List.map_cons,readAll,readAll]
      simp only [later]
    · have ignored : file.typeAt dispatch.address = .ignored := by
        by_contra reader
        exact applied (known dispatch List.mem_cons_self reader)
      rw [List.filter_cons_of_neg applied,List.map_cons,readAll,ignored,← later]
      rfl

def Unrepeated (file : MatFile) (a b : MessagePlace) : Prop :=
  nonRepeated (file.typeAt a.address) = true → file.typeAt a.address ≠ file.typeAt b.address

theorem interprets_reads (run : Interprets file numMsgs 0 block messageNum freshTracker object log result)
    (once : (log.map Dispatch.toMessagePlace).Pairwise (Unrepeated file)) :
    readAll file (log.map Dispatch.toMessagePlace) object = result.map Prod.snd := by
  refine (readAll_dispatched object fun dispatch member known => ?_).trans (interprets_dispatched run)
  obtain ⟨earlier,later,split⟩ := List.append_of_mem member
  refine interprets_first run earlier dispatch later split known fun rule other before same => ?_
  rw [split,List.map_append,List.map_cons] at once
  have apart := (List.pairwise_append.mp once).2.2 _ (List.mem_map_of_mem before) _ List.mem_cons_self
  exact apart (by rw [same]; exact rule) same

end Runs

section Effects

open Classical in
noncomputable def effectOf (sBlock : Superblock) (m : Message) : Effect :=
  if valid : m.Valid sBlock then (valid_does valid).choose else .nothing

theorem effectOf_does {m : Message} (valid : m.Valid sBlock) : Does sBlock m (effectOf sBlock m) := by
  unfold effectOf
  rw [dif_pos valid]
  exact (valid_does valid).choose_spec

noncomputable def act (sBlock : Superblock) (state : Option MetaData) (m : Message) : Option MetaData :=
  state.bind fun fields => (effectOf sBlock m).apply fields

noncomputable def place (sBlock : Superblock) (address : Nat) (pointed : Nat × Message) : Nat :=
  (effectOf sBlock pointed.2).address pointed.1 address

theorem act_none (sBlock : Superblock) (messages : List Message) : messages.foldl (act sBlock) none = none := by
  induction messages with
  | nil => rfl
  | cons m messages ih => exact ih

variable {file : MatFile}

def Lies (file : MatFile) (places : List MessagePlace) : Prop :=
  ∀ place ∈ places, place.address+msgSubHeaderSize+file.sizeAt place.address ≤ file.fileSize ∧
    (file.messageAt place.address).Valid file.sBlock

def MatFile.pointed (file : MatFile) (place : MessagePlace) : Nat × Message :=
  (place.address+msgSubHeaderSize,file.messageAt place.address)

theorem readAll_acts (lies : Lies file places) (object : MetaData) :
    (readAll file places object).map (fun read => (read.1,forget read.2,read.2.dataAddress)) =
      ((places.map fun place => file.messageAt place.address).foldl (act file.sBlock) (some (forget object))).map fun fields =>
        (0,fields,(places.map file.pointed).foldl (place file.sBlock) object.dataAddress) := by
  induction places generalizing object with
  | nil => rfl
  | cons first rest ih =>
    obtain ⟨inside,valid⟩ := lies first List.mem_cons_self
    have reads := (effectOf_does valid).reads file _ rfl (messageAt_shown inside) object
    have later := ih fun place member => lies place (List.mem_cons_of_mem _ member)
    simp only [readAll,List.map_cons,List.foldl_cons]
    change (readMessage file (file.typeAt first.address) _ object).map _ = _ at reads
    have acted : act file.sBlock (some (forget object)) (file.messageAt first.address) =
        (effectOf file.sBlock (file.messageAt first.address)).apply (forget object) := rfl
    have placed : place file.sBlock object.dataAddress (file.pointed first) =
        (effectOf file.sBlock (file.messageAt first.address)).address (first.address+msgSubHeaderSize) object.dataAddress := rfl
    rw [acted,placed]
    generalize readMessage file _ _ _ = taken,Effect.apply _ _ = applied at reads
    cases taken with
    | none =>
      cases applied with
      | none => rw [act_none]; rfl
      | some fields => cases reads
    | some read =>
      obtain ⟨code,after⟩ := read
      cases applied with
      | none => cases reads
      | some fields =>
        simp only [Option.map_some,Option.some.injEq,Prod.mk.injEq] at reads
        obtain ⟨rfl,rfl,address⟩ := reads
        rw [Option.bind_some,if_neg (by simp),later,address]

theorem act_idle {m : Message} (valid : m.Valid sBlock) (idle : m.role = .nothing) (state : Option MetaData) :
    act sBlock state m = state := by
  have role := (effectOf_does valid).role.trans idle
  unfold act
  cases effect : effectOf sBlock m with
  | nothing => cases state <;> rfl
  | _ =>
    rw [effect] at role
    cases role

theorem messages_act (lies : Lies file (file.places header)) (state : Option MetaData) :
    ((file.places header).map fun place => file.messageAt place.address).foldl (act file.sBlock) state =
      (file.messages header).foldl (act file.sBlock) state := by
  unfold MatFile.messages
  rw [List.foldl_filter]
  refine List.foldl_ext _ _ _ fun state m member => ?_
  obtain ⟨place,listed,rfl⟩ := List.mem_map.mp member
  split
  · rfl
  · rename_i passed
    refine act_idle (lies place listed).2 ?_ state
    unfold Message.role
    cases kind : (file.messageAt place.address).kind <;> simp [kind] at passed ⊢

theorem valid_lies (valid : ValidHeader file header) : Lies file (file.places header) :=
  fun place member => ⟨valid.inside place member,valid.valid place member⟩

theorem valid_once (valid : ValidHeader file header) : (file.places header).Pairwise (Unrepeated file) := by
  have apart := valid.apart
  unfold MatFile.messages at apart
  rw [List.pairwise_filter,List.pairwise_map] at apart
  refine apart.imp fun {a b} separate rule same => ?_
  have kept (place : MessagePlace) (once : nonRepeated (file.typeAt place.address) = true) :
      ((file.messageAt place.address).kind ≠ .continuation && (file.messageAt place.address).kind ≠ .ignored) = true := by
    change ((file.typeAt place.address) ≠ .continuation && (file.typeAt place.address) ≠ .ignored) = true
    cases kind : file.typeAt place.address <;> simp [kind,nonRepeated] at once ⊢
  exact (separate (kept a rule) (kept b (same ▸ rule))).1 rule same

theorem header_acts (valid : ValidHeader file header) (object : MetaData) :
    (interpretMessages file header.numMsgs header.numMsgs header.start header.length 0 0 freshTracker object).map
        (fun returned => (returned.2.1,forget returned.2.2,returned.2.2.dataAddress)) =
      ((file.messages header).foldl (act file.sBlock) (some (forget object))).map fun fields =>
        (0,fields,((file.places header).map file.pointed).foldl (place file.sBlock) object.dataAddress) := by
  have lies := valid_lies valid
  have enough : header.numMsgs ≤ 0+header.numMsgs := Nat.le_of_eq (Nat.zero_add _).symm
  obtain ⟨log,run⟩ := @interprets_ends file _ _ _ valid.count (Nat.zero_le header.numMsgs) enough
    ⟨header.start,header.length,0⟩ 0 freshTracker object
  change Interprets file _ _ _ _ _ _ _
    (interpretMessages file header.numMsgs header.numMsgs header.start header.length 0 0 freshTracker object) at run
  obtain ⟨tail,whole,ends⟩ := interprets_expands run valid.count (Nat.zero_le _) [] rfl
  change file.places header = log.map Dispatch.toMessagePlace++tail at whole
  have once := valid_once valid
  rw [whole] at once
  have reads := interprets_reads run (List.pairwise_append.mp once).1
  rw [← messages_act lies,← readAll_acts lies,whole,readAll_append,reads]
  generalize interpretMessages file _ _ _ _ _ _ _ _ = result at run ends reads
  cases result with
  | none => rfl
  | some returned =>
    obtain ⟨last,code,after⟩ := returned
    have front := readAll_acts (fun place member => lies place (by rw [whole]; exact List.mem_append_left _ member)) object
    rw [reads] at front
    obtain ⟨fields,_,same⟩ := Option.map_eq_some_iff.mp front.symm
    obtain rfl : 0 = code := congrArg Prod.fst same
    obtain ⟨final,_,_,_,rest⟩ := ends last after rfl
    have nothing : tail = [] := by
      rw [rest]
      cases header.numMsgs-final <;> rfl
    rw [nothing]
    rfl

end Effects

section Order
variable {file : MatFile} {header : Header} {m a b : Message}

theorem Message.Apart.symm (apart : a.Apart b) : b.Apart a := by
  refine ⟨fun rule same => ?_,fun left right same => apart.2 right left same.symm⟩
  rw [same] at rule
  exact apart.1 rule same.symm

namespace Message

def Role.kind : Role → MessageType
  | .space => .dataSpace
  | .type => .dataType
  | .unchunked | .chunked => .dataLayout
  | .pipeline => .pipeline
  | .nothing => .ignored
  | _ => .attributeMsg

def Role.name : Role → Text
  | .matlabClass => textOf "MATLAB_class"
  | .sparse => textOf "MATLAB_sparse"
  | .empty => textOf "MATLAB_empty"
  | .objectDecode => textOf "MATLAB_object_decode"
  | _ => []

theorem attribute_role (kind : m.kind = .attributeMsg) (acts : m.role ≠ .nothing) :
    m.role.kind = .attributeMsg ∧ m.name = m.role.name := by
  unfold Message.role at acts ⊢
  simp only [kind] at acts ⊢
  by_cases isClass : m.name = textOf "MATLAB_class"
  · rw [if_pos isClass]
    exact ⟨rfl,isClass⟩
  by_cases isSparse : m.name = textOf "MATLAB_sparse"
  · rw [if_neg isClass,if_pos isSparse]
    exact ⟨rfl,isSparse⟩
  by_cases isEmpty : m.name = textOf "MATLAB_empty"
  · rw [if_neg isClass,if_neg isSparse,if_pos isEmpty]
    exact ⟨rfl,isEmpty⟩
  by_cases isDecode : m.name = textOf "MATLAB_object_decode"
  · rw [if_neg isClass,if_neg isSparse,if_neg isEmpty,if_pos isDecode]
    exact ⟨rfl,isDecode⟩
  · rw [if_neg isClass,if_neg isSparse,if_neg isEmpty,if_neg isDecode] at acts
    exact absurd rfl acts

theorem role_kind (acts : m.role ≠ .nothing) : m.kind = m.role.kind := by
  cases kind : m.kind with
  | attributeMsg => exact (attribute_role kind acts).1.symm
  | dataLayout =>
    unfold Message.role
    rw [kind]
    dsimp only
    split <;> rfl
  | continuation | ignored =>
    unfold Message.role at acts
    rw [kind] at acts
    exact absurd rfl acts
  | _ =>
    unfold Message.role
    rw [kind]
    rfl

end Message

theorem apart_roles (apart : a.Apart b) (same : a.role = b.role) : a.role = .nothing := by
  apply Classical.byContradiction
  intro acts
  have other : b.role ≠ .nothing := same ▸ acts
  have kinds : a.kind = b.kind := by rw [Message.role_kind acts,Message.role_kind other,same]
  cases kind : a.kind with
  | attributeMsg =>
    have right := kinds.symm.trans kind
    have left := (Message.attribute_role kind acts).2
    exact apart.2 kind right (left.trans (same ▸ (Message.attribute_role right other).2.symm))
  | continuation | ignored =>
    unfold Message.role at acts
    rw [kind] at acts
    exact absurd rfl acts
  | _ => exact apart.1 (by rw [kind]; rfl) kinds

theorem messages_kept (member : m ∈ file.messages header) : m.kind ≠ .continuation ∧ m.kind ≠ .ignored := by
  have kept := (List.mem_filter.mp member).2
  simpa using kept

theorem messages_valid (valid : ValidHeader file header) (member : m ∈ file.messages header) : m.Valid file.sBlock := by
  obtain ⟨place,listed,rfl⟩ := List.mem_map.mp (List.mem_filter.mp member).1
  exact valid.valid place listed

theorem messages_nodup (valid : ValidHeader file header) : (file.messages header).Nodup := by
  refine valid.apart.imp_of_mem fun {a b} left _ apart => ?_
  rintro rfl
  have kept := messages_kept left
  cases kind : a.kind with
  | attributeMsg => exact apart.2 kind kind rfl
  | continuation => exact kept.1 kind
  | ignored => exact kept.2 kind
  | _ => exact apart.1 (by rw [kind]; rfl) rfl

theorem messages_apart (valid : ValidHeader file header) (left : a ∈ file.messages header) (right : b ∈ file.messages header)
    (different : a ≠ b) : a.Apart b :=
  have : Std.Symm Message.Apart := ⟨fun _ _ apart => apart.symm⟩
  valid.apart.forall left right different

theorem act_commutes (valid : a.Valid sBlock) (other : b.Valid sBlock) (apart : a.Apart b)
    (free : a.role.interferes b.role = false) : Commute (act sBlock) a b := by
  rintro (_ | fields)
  · rfl
  · by_cases same : a.role = b.role
    · have idle := apart_roles apart same
      rw [act_idle valid idle,act_idle other (same ▸ idle),act_idle valid idle]
    · have left := (effectOf_does valid).role
      have right := (effectOf_does other).role
      exact Effect.swap _ _ (by rw [left,right]; exact same) (by rw [left,right]; exact free) fields

-- Messages that interfere come in the same order in both lists.
def SameOrder (first second : List Message) : Prop :=
  ∀ a ∈ first, ∀ b ∈ first, a.role.interferes b.role = true → (Before first a b ↔ Before second a b)

theorem acts_arranged (valid : ValidHeader file header) (perm : (file.messages header).Perm second)
    (order : SameOrder (file.messages header) second) (state : Option MetaData) :
    (file.messages header).foldl (act file.sBlock) state = second.foldl (act file.sBlock) state := by
  refine foldl_arranged perm (messages_nodup valid) (fun a left b right different => ?_) state
  cases free : a.role.interferes b.role with
  | true => exact .inr (order a left b right free)
  | false =>
    exact .inl (act_commutes (messages_valid valid left) (messages_valid valid right)
      (messages_apart valid left right different) free)

noncomputable def settle (sBlock : Superblock) (address : Nat) (m : Message) : Nat :=
  (effectOf sBlock m).address 0 address

theorem address_kept {effect : Effect} (unchunked : effect.role ≠ .unchunked) (chunked : effect.role ≠ .chunked)
    (pointer before : Nat) : effect.address pointer before = before := by
  cases effect with
  | unchunked => exact absurd rfl unchunked
  | chunked => exact absurd rfl chunked
  | _ => rfl

theorem address_stated {effect : Effect} (stated : effect.compact = false) (pointer before : Nat) :
    effect.address pointer before = effect.address 0 before := by
  cases effect with
  | unchunked _ address =>
    cases address with
    | none => cases stated
    | some => rfl
  | _ => rfl

theorem layout_kind (role : m.role = .unchunked ∨ m.role = .chunked) : m.kind = .dataLayout := by
  rcases role with role | role
  · rw [Message.role_kind (by rw [role]; decide),role]
    rfl
  · rw [Message.role_kind (by rw [role]; decide),role]
    rfl

theorem address_other (valid : m.Valid sBlock) (kind : m.kind ≠ .dataLayout) (pointer before : Nat) :
    (effectOf sBlock m).address pointer before = before := by
  have role := (effectOf_does valid).role
  exact address_kept (fun same => kind (layout_kind (.inl (role.symm.trans same))))
    (fun same => kind (layout_kind (.inr (role.symm.trans same)))) pointer before

theorem settle_commutes (valid : a.Valid sBlock) (other : b.Valid sBlock) (apart : a.Apart b) :
    Commute (settle sBlock) a b := by
  intro address
  unfold settle
  by_cases left : a.kind = .dataLayout
  · have right : b.kind ≠ .dataLayout := fun same => apart.1 (by rw [left]; rfl) (left.trans same.symm)
    rw [address_other other right,address_other other right]
  · rw [address_other valid left,address_other valid left]

theorem places_settle (lies : Lies file (file.places header)) (stated : ∀ m ∈ file.messages header, m.compact = false)
    (address : Nat) : ((file.places header).map file.pointed).foldl (place file.sBlock) address =
      (file.messages header).foldl (settle file.sBlock) address := by
  unfold MatFile.messages
  rw [List.foldl_filter,List.foldl_map,List.foldl_map]
  refine List.foldl_ext _ _ _ fun address place member => ?_
  have valid := (lies place member).2
  change (effectOf file.sBlock (file.messageAt place.address)).address _ address = _
  split
  · rename_i kept
    have plain := stated _ (List.mem_filter.mpr ⟨List.mem_map_of_mem member,kept⟩)
    exact address_stated ((effectOf_does valid).compact.trans plain) _ _
  · rename_i passed
    refine address_other valid (fun layout => passed ?_) _ _
    rw [layout]
    rfl

theorem places_compact (valid : ValidHeader file header) (member : entry ∈ file.places header)
    (compact : (file.messageAt entry.address).compact = true) (address : Nat) :
    ((file.places header).map file.pointed).foldl (place file.sBlock) address = entry.address+msgSubHeaderSize+4 := by
  have lies := valid_lies valid
  have once := valid_once valid
  obtain ⟨front,back,split⟩ := List.append_of_mem member
  have layout : file.typeAt entry.address = .dataLayout := by
    have parts : (file.messageAt entry.address).kind = .dataLayout ∧ (file.messageAt entry.address).byte 1 = 0 := by
      simpa [Message.compact] using compact
    exact parts.1
  rw [split] at lies once ⊢
  have here := (effectOf_does (lies entry (by simp)).2).compact.trans compact
  have later : ∀ other ∈ back, file.typeAt other.address ≠ .dataLayout := by
    intro other listed same
    have apart := (List.pairwise_cons.mp (List.pairwise_append.mp once).2.1).1 other listed
    exact apart (by rw [layout]; rfl) (layout.trans same.symm)
  have rest (places : List MessagePlace) (inside : ∀ other ∈ places, other ∈ back) (before : Nat) :
      (places.map file.pointed).foldl (place file.sBlock) before = before := by
    induction places generalizing before with
    | nil => rfl
    | cons other places ih =>
      have listed := inside other List.mem_cons_self
      have kept : place file.sBlock before (file.pointed other) = before :=
        address_other (lies other (by simp [listed])).2 (later other listed) _ _
      rw [List.map_cons,List.foldl_cons,kept]
      exact ih (fun next member => inside next (List.mem_cons_of_mem _ member)) before
  rw [List.map_append,List.foldl_append,List.map_cons,List.foldl_cons,rest back (fun _ member => member)]
  generalize ((front.map file.pointed).foldl (place file.sBlock) address) = before
  unfold place MatFile.pointed
  dsimp only
  cases effect : effectOf file.sBlock (file.messageAt entry.address) with
  | unchunked _ stated =>
    rw [effect] at here
    cases stated with
    | none => rfl
    | some => cases here
  | _ =>
    rw [effect] at here
    cases here

def concluded (super object : MetaData) : MetaData × MetaData :=
  if object.matlabEmpty then ({object with numElems:=0,dims:=some [0],numDims:=0},super)
  else
    let arrayField := object.hdf5InternalType = .reference ∧ object.matlabInternalType = .unknownClass ∧
      super.matlabInternalType = .structClass
    let super := if arrayField then
        {super with numDims:=object.numDims,dims:=some ((object.dims.getD []).take object.numDims++[0])}
      else super
    let object := if arrayField then {object with isStructArray:=true,matlabInternalType:=.cellClass} else object
    (sparseFields super object,super)

theorem collectMetaData_concluded (super object : MetaData) :
    collectMetaData file super header.start header.numMsgs header.length object =
      (interpretMessages file header.numMsgs header.numMsgs header.start header.length 0 0 freshTracker object).map
        fun returned => if returned.2.1 ≠ 0 then (1,returned.2.2,super) else (0,concluded super returned.2.2) := by
  unfold collectMetaData concluded freshTracker
  cases interpretMessages file header.numMsgs header.numMsgs header.start header.length 0 0 ⟨false,false,false,false⟩ object with
  | none => rfl
  | some returned =>
    obtain ⟨last,code,after⟩ := returned
    simp only [Option.bind_eq_bind,Option.bind_some,Option.map_some]
    split
    · rfl
    · split <;> rfl

theorem sparseFields_forget (super object : MetaData) : forget (sparseFields super object) = sparseFields super (forget object) ∧
    (sparseFields super object).dataAddress = object.dataAddress := by
  unfold sparseFields
  have same : (forget object).matlabSparse = object.matlabSparse := rfl
  rw [same]
  split
  · exact ⟨rfl,rfl⟩
  · split <;> exact ⟨rfl,rfl⟩

theorem concluded_forget (super object : MetaData) :
    forget (concluded super object).1 = (concluded super (forget object)).1 ∧
      (concluded super object).2 = (concluded super (forget object)).2 ∧
      (concluded super object).1.dataAddress = object.dataAddress := by
  unfold concluded
  have empty : (forget object).matlabEmpty = object.matlabEmpty := rfl
  rw [empty]
  split
  · exact ⟨rfl,rfl,rfl⟩
  · by_cases field : object.hdf5InternalType = .reference ∧ object.matlabInternalType = .unknownClass ∧
      super.matlabInternalType = .structClass
    · have kept : (forget object).hdf5InternalType = .reference ∧ (forget object).matlabInternalType = .unknownClass ∧
        super.matlabInternalType = .structClass := field
      simp only [if_pos field,if_pos kept]
      exact ⟨(sparseFields_forget _ _).1,rfl,(sparseFields_forget _ _).2⟩
    · have kept : ¬((forget object).hdf5InternalType = .reference ∧ (forget object).matlabInternalType = .unknownClass ∧
        super.matlabInternalType = .structClass) := field
      simp only [if_neg field,if_neg kept]
      exact ⟨(sparseFields_forget _ _).1,trivial,(sparseFields_forget _ _).2⟩

theorem collectMetaData_acts (valid : ValidHeader file header) (super object : MetaData) :
    (collectMetaData file super header.start header.numMsgs header.length object).map
        (fun collected => (collected.1,forget collected.2.1,collected.2.2,collected.2.1.dataAddress)) =
      ((file.messages header).foldl (act file.sBlock) (some (forget object))).map fun fields =>
        (0,(concluded super fields).1,(concluded super fields).2,
          ((file.places header).map file.pointed).foldl (place file.sBlock) object.dataAddress) := by
  have runs := header_acts valid object
  rw [collectMetaData_concluded]
  generalize interpretMessages file _ _ _ _ _ _ _ _ = returned at runs
  generalize List.foldl (act file.sBlock) _ _ = acted at runs
  cases returned with
  | none =>
    cases acted with
    | none => rfl
    | some => cases runs
  | some returned =>
    cases acted with
    | none => cases runs
    | some fields =>
      obtain ⟨last,code,after⟩ := returned
      simp only [Option.map_some,Option.some.injEq,Prod.mk.injEq] at runs
      obtain ⟨rfl,rfl,address⟩ := runs
      obtain ⟨forgotten,supers,kept⟩ := concluded_forget super after
      simp only [Option.map_some,ne_eq,not_true,if_false,forgotten,supers,kept,address]

theorem acts_fit {messages : List Message} (valid : ∀ m ∈ messages, m.Valid sBlock)
    (ranks : ∀ a ∈ messages, ∀ b ∈ messages, a.role = .space → b.role = .chunked → a.rank ≤ b.rank+1)
    (rest : List Message) (inside : ∀ m ∈ rest, m ∈ messages) (fields : MetaData)
    (small : ∀ b ∈ messages, b.role = .chunked → fields.numDims ≤ b.rank+1) :
    ∃ after, rest.foldl (act sBlock) (some fields) = some after := by
  induction rest generalizing fields with
  | nil => exact ⟨fields,rfl⟩
  | cons m rest ih =>
    have member := inside m List.mem_cons_self
    have does := effectOf_does (valid m member)
    have later : ∀ next ∈ rest, next ∈ messages := fun next listed => inside next (List.mem_cons_of_mem _ listed)
    rw [List.foldl_cons]
    change ∃ after, List.foldl _ ((effectOf sBlock m).apply fields) rest = some after
    obtain ⟨role,rank⟩ := And.intro does.role does.rank
    cases effect : effectOf sBlock m with
    | space numDims dims =>
      rw [effect] at role rank
      refine ih later _ fun b listed chunked => ?_
      change numDims ≤ _
      rw [show numDims = m.rank from rank]
      exact ranks m member b listed role.symm chunked
    | chunked stated numChunkedDims chunkedDims =>
      rw [effect] at role rank
      have room := small m member role.symm
      have room : fields.numDims ≤ numChunkedDims+1 := by
        rw [← rank] at room
        exact room
      simp only [Effect.apply,if_pos room]
      exact ih later _ small
    | _ => exact ih later _ small

structure SameFields (left right : MetaData) : Prop where
  dims : left.dims = right.dims
  numDims : left.numDims = right.numDims
  numElems : left.numElems = right.numElems
  elemSize : left.elemSize = right.elemSize
  byteOrder : left.byteOrder = right.byteOrder
  layoutClass : left.layoutClass = right.layoutClass
  chunkedDims : left.chunkedInfo.chunkedDims = right.chunkedInfo.chunkedDims
  numChunkedElems : left.chunkedInfo.numChunkedElems = right.chunkedInfo.numChunkedElems
  chunkUpdate : left.chunkedInfo.chunkUpdate = right.chunkedInfo.chunkUpdate
  matlabInternalType : left.matlabInternalType = right.matlabInternalType

theorem sameFields_of_forget {left right : MetaData} (same : forget left = forget right) : SameFields left right where
  dims := (congrArg MetaData.dims same : _)
  numDims := (congrArg MetaData.numDims same : _)
  numElems := (congrArg MetaData.numElems same : _)
  elemSize := (congrArg MetaData.elemSize same : _)
  byteOrder := (congrArg MetaData.byteOrder same : _)
  layoutClass := (congrArg MetaData.layoutClass same : _)
  chunkedDims := (congrArg (ChunkedInfo.chunkedDims ∘ MetaData.chunkedInfo) same : _)
  numChunkedElems := (congrArg (ChunkedInfo.numChunkedElems ∘ MetaData.chunkedInfo) same : _)
  chunkUpdate := (congrArg (ChunkedInfo.chunkUpdate ∘ MetaData.chunkedInfo) same : _)
  matlabInternalType := (congrArg MetaData.matlabInternalType same : _)

-- Two headers with the same messages leave the same object, as long as the
-- messages that interfere come in the same order. The address of compact data is
-- that of its own header.
theorem collectMetaData_order {other : MatFile} {otherHeader : Header} (valid : ValidHeader file header)
    (otherValid : ValidHeader other otherHeader) (sizes : file.sBlock = other.sBlock)
    (perm : (file.messages header).Perm (other.messages otherHeader))
    (order : SameOrder (file.messages header) (other.messages otherHeader)) (super object : MetaData) :
    (object.numDims = 0 → ∃ after superAfter,
      collectMetaData file super header.start header.numMsgs header.length object = some (0,after,superAfter)) ∧
    ∀ code after superAfter,
      collectMetaData file super header.start header.numMsgs header.length object = some (code,after,superAfter) →
      ∃ otherAfter, collectMetaData other super otherHeader.start otherHeader.numMsgs otherHeader.length object =
          some (code,otherAfter,superAfter) ∧ SameFields after otherAfter ∧
        ((∀ m ∈ file.messages header, m.compact = false) → after.dataAddress = otherAfter.dataAddress) ∧
        (∀ place ∈ file.places header, (file.messageAt place.address).compact = true →
          after.dataAddress = place.address+msgSubHeaderSize+4) ∧
        (∀ place ∈ other.places otherHeader, (other.messageAt place.address).compact = true →
          otherAfter.dataAddress = place.address+msgSubHeaderSize+4) := by
  have collects := collectMetaData_acts valid super object
  have otherCollects := collectMetaData_acts otherValid super object
  have arranged := acts_arranged valid perm order (some (forget object))
  constructor
  · intro fresh
    have none_ : ∀ b ∈ file.messages header, b.role = .chunked → (forget object).numDims ≤ b.rank+1 := by
      intro b _ _
      change object.numDims ≤ _
      omega
    obtain ⟨fields,acted⟩ := acts_fit (fun m member => messages_valid valid member) valid.ranks _ (fun _ member => member) _ none_
    rw [acted] at collects
    obtain ⟨⟨code,after,superAfter⟩,ran,same⟩ := Option.map_eq_some_iff.mp collects
    obtain rfl : code = 0 := congrArg Prod.fst same
    exact ⟨after,superAfter,ran⟩
  · intro code after superAfter ran
    rw [ran] at collects
    rw [← sizes,← arranged] at otherCollects
    obtain ⟨fields,acted,same⟩ := Option.map_eq_some_iff.mp collects.symm
    rw [acted] at otherCollects
    obtain ⟨⟨otherCode,otherAfter,otherSuper⟩,otherRan,otherSame⟩ := Option.map_eq_some_iff.mp otherCollects
    simp only [Prod.mk.injEq] at same otherSame
    obtain ⟨rfl,forgotten,rfl,address⟩ := same
    obtain ⟨rfl,otherForgotten,rfl,otherAddress⟩ := otherSame
    refine ⟨otherAfter,otherRan,sameFields_of_forget (forgotten.symm.trans otherForgotten.symm),?_,?_,?_⟩
    · intro stated
      have otherStated : ∀ m ∈ other.messages otherHeader, m.compact = false := fun m member =>
        stated m (perm.mem_iff.mpr member)
      rw [← address,otherAddress,places_settle (valid_lies valid) stated,sizes,
        places_settle (valid_lies otherValid) otherStated]
      refine foldl_arranged perm (messages_nodup valid) (fun a left b right different => .inl ?_) _
      rw [← sizes]
      exact settle_commutes (messages_valid valid left) (messages_valid valid right) (messages_apart valid left right different)
    · intro place member compact
      exact address.symm.trans (places_compact valid member compact _)
    · intro place member compact
      rw [otherAddress,sizes]
      exact places_compact otherValid member compact _

instance : Decidable (Message.Apart a b) := inferInstanceAs (Decidable (_ ∧ _))

theorem valid_dataSpace (kind : m.kind = .dataSpace) (fits : m.byte 0 = 1 ∧ m.byte 1 ≤ hdf5MaxDims ∧
    8+m.byte 1*sBlock.sizeOfLengths ≤ m.body.length) : m.Valid sBlock := by
  unfold Message.Valid
  rw [kind]
  exact fits

theorem valid_contiguous (kind : m.kind = .dataLayout)
    (fits : m.byte 0 = 3 ∧ m.byte 1 = 1 ∧ 2+sBlock.sizeOfOffsets ≤ m.body.length) : m.Valid sBlock := by
  unfold Message.Valid
  rw [kind]
  exact ⟨fits.1,.inr (.inl fits.2)⟩

theorem valid_attribute (kind : m.kind = .attributeMsg) (fits : m.byte 0 = 1 ∧ m.nameSize ≤ maxNameLength ∧
    8+roundUp8 m.nameSize+8 ≤ m.body.length ∧ m.valueAt+m.valueSize ≤ m.body.length) : m.Valid sBlock := by
  unfold Message.Valid
  rw [kind]
  exact fits

-- Two headers with a dataspace and a contiguous layout, the second the other way
-- round.
def storedFile : MatFile := wordFile
  [0x100001,0x101,3,0x180008,0x2800103,0x180000,0,0x180008,0x2800103,0x180000,0,0x100001,0x101,3] ⟨8,8,40,0,0,0⟩

theorem collectMetaData_storedFile : ∃ after otherAfter superAfter,
    collectMetaData storedFile initializeObject.toMetaData 0 2 56 initializeObject.toMetaData = some (0,after,superAfter) ∧
    collectMetaData storedFile initializeObject.toMetaData 56 2 56 initializeObject.toMetaData =
      some (0,otherAfter,superAfter) ∧
    SameFields after otherAfter ∧ after.dataAddress = otherAfter.dataAddress := by
  have first : ValidHeader storedFile ⟨0,56,2⟩ := by
    refine ⟨by decide,by decide,?_,by decide,by decide⟩
    rw [show storedFile.places ⟨0,56,2⟩ = [⟨0,0⟩,⟨24,0⟩] by decide]
    simp only [List.forall_mem_cons,List.not_mem_nil,false_implies,implies_true,and_true]
    exact ⟨valid_dataSpace (by decide) (by decide),valid_contiguous (by decide) (by decide)⟩
  have second : ValidHeader storedFile ⟨56,56,2⟩ := by
    refine ⟨by decide,by decide,?_,by decide,by decide⟩
    rw [show storedFile.places ⟨56,56,2⟩ = [⟨56,0⟩,⟨88,0⟩] by decide]
    simp only [List.forall_mem_cons,List.not_mem_nil,false_implies,implies_true,and_true]
    exact ⟨valid_contiguous (by decide) (by decide),valid_dataSpace (by decide) (by decide)⟩
  have order : SameOrder (storedFile.messages ⟨0,56,2⟩) (storedFile.messages ⟨56,56,2⟩) := by
    unfold SameOrder
    decide
  have runs := collectMetaData_order first second rfl (by decide) order initializeObject.toMetaData
    initializeObject.toMetaData
  obtain ⟨after,superAfter,ran⟩ := runs.1 rfl
  obtain ⟨otherAfter,otherRan,same,address,_⟩ := runs.2 _ _ _ ran
  exact ⟨after,otherAfter,superAfter,ran,otherRan,same,address (by decide)⟩

-- A table stored as an opaque object: MATLAB_class before MATLAB_object_decode
-- and, at 120, behind it.
def tableFile : MatFile := wordFile
  [0x30000c,0x80008000d0001,0x635f42414c54414d,0x7373616c,0x500000013,1,0x656c626174,
   0x38000c,0x8000800150001,0x6f5f42414c54414d,0x65645f7463656a62,0x65646f63,0x400000010,1,3,
   0x38000c,0x8000800150001,0x6f5f42414c54414d,0x65645f7463656a62,0x65646f63,0x400000010,1,3,
   0x30000c,0x80008000d0001,0x635f42414c54414d,0x7373616c,0x500000013,1,0x656c626174] ⟨8,8,40,0,0,0⟩

-- The first becomes an opaque object, the second a table.
theorem table_order : ¬ ∀ (file other : MatFile) (header otherHeader : Header), ValidHeader file header →
    ValidHeader other otherHeader → file.sBlock = other.sBlock →
    (file.messages header).Perm (other.messages otherHeader) → ∀ super object after superAfter otherAfter otherSuper,
    collectMetaData file super header.start header.numMsgs header.length object = some (0,after,superAfter) →
    collectMetaData other super otherHeader.start otherHeader.numMsgs otherHeader.length object =
      some (0,otherAfter,otherSuper) →
    SameFields after otherAfter ∧ after.dataAddress = otherAfter.dataAddress := by
  intro always
  have first : ValidHeader tableFile ⟨0,120,2⟩ := by
    refine ⟨by decide,by decide,?_,by decide +kernel,by decide +kernel⟩
    rw [show tableFile.places ⟨0,120,2⟩ = [⟨0,0⟩,⟨56,0⟩] by decide]
    simp only [List.forall_mem_cons,List.not_mem_nil,false_implies,implies_true,and_true]
    exact ⟨valid_attribute (by decide) (by decide +kernel),valid_attribute (by decide) (by decide +kernel)⟩
  have second : ValidHeader tableFile ⟨120,120,2⟩ := by
    refine ⟨by decide,by decide,?_,by decide +kernel,by decide +kernel⟩
    rw [show tableFile.places ⟨120,120,2⟩ = [⟨120,0⟩,⟨184,0⟩] by decide]
    simp only [List.forall_mem_cons,List.not_mem_nil,false_implies,implies_true,and_true]
    exact ⟨valid_attribute (by decide) (by decide +kernel),valid_attribute (by decide) (by decide +kernel)⟩
  have object (start : Nat) (internalType : MxClassID)
      (type : (collectMetaData tableFile initializeObject.toMetaData start 2 120 initializeObject.toMetaData).map
        (fun collected => (collected.1,collected.2.1.matlabInternalType)) = some (0,internalType)) : ∃ after superAfter,
      collectMetaData tableFile initializeObject.toMetaData start 2 120 initializeObject.toMetaData = some (0,after,superAfter) ∧
        after.matlabInternalType = internalType := by
    obtain ⟨⟨code,after,superAfter⟩,ran,same⟩ := Option.map_eq_some_iff.mp type
    cases same
    exact ⟨after,superAfter,ran,rfl⟩
  obtain ⟨after,superAfter,ran,decoded⟩ := object 0 .opaqueClass (by decide +kernel)
  obtain ⟨otherAfter,otherSuper,otherRan,table⟩ := object 120 .objectClass (by decide +kernel)
  have same := (always _ _ _ _ first second rfl (by decide +kernel) _ _ _ _ _ _ ran otherRan).1.matlabInternalType
  rw [decoded,table] at same
  cases same

end Order

end GetMatVar
