import GetMatVar.AttributeMessage
import GetMatVar.MessageOrder

namespace GetMatVar
namespace CompoundTypes
open AttributeMessage Logged

def real : Text := textOf "real"

-- A datatype of version 1. Of a compound type only the first member counts here.
inductive StoredType where
  | plain (code bitField size : Nat)
  | compound (members size : Nat) (name : Text) (first : StoredType)
deriving DecidableEq

namespace StoredType

def names : StoredType → List Text
  | .plain .. => []
  | .compound _ _ name first => name::first.names

def size : StoredType → Nat
  | .plain _ _ size => size
  | .compound _ size _ _ => size

def innerSizes : StoredType → List Nat
  | .plain .. => []
  | .compound _ _ _ first => first.size::first.innerSizes

def innermostCode : StoredType → Nat
  | .plain code .. => code
  | .compound _ _ _ first => first.innermostCode

def innermostBitField : StoredType → Nat
  | .plain _ bitField _ => bitField
  | .compound _ _ _ first => first.innermostBitField

-- Behind the name with its NUL, filled up, come 32 bytes about the member and then its type.
def memberOffset (name : Text) : Nat := 8+padded (name.length+1)+32

def places (pointer : Nat) : StoredType → List Nat
  | .plain .. => [pointer]
  | .compound _ _ name first => pointer::first.places (pointer+memberOffset name)

end StoredType

inductive Encodes (file : MatFile) : Nat → StoredType → Prop where
  | plain : code < 16 → code ≠ 6 → file.byte pointer = 16+code → file.number (pointer+1) 3 = bitField →
      file.number (pointer+4) 4 = size → pointer+8 ≤ file.fileSize → Encodes file pointer (.plain code bitField size)
  | compound : file.byte pointer = 16+6 → file.number (pointer+1) 2 = members → file.byte (pointer+3) = 0 →
      file.number (pointer+4) 4 = size → (∀ k < name.length, file.bytes (pointer+8+k) = name.getD k 0) → 0 ∉ name →
      file.bytes (pointer+8+name.length) = 0 → pointer+8 ≤ file.fileSize →
      Encodes file (pointer+StoredType.memberOffset name) first → Encodes file pointer (.compound members size name first)

def readDataTypePlaces (file : MatFile) : Nat → Nat → MetaData → Logged Nat (Nat × MetaData)
  | 0,_,_ => stop
  | left+1,msgPointer,object => do
    tell msgPointer
    if file.byte msgPointer/16 ≠ 1 then pure (1,object)
    else
      let internalType := hdf5DatatypeOf (file.byte msgPointer%16)
      let bitField := file.number (msgPointer+1) 3
      let object := {object with
        hdf5InternalType:=internalType,datatypeBitField:=bitField
        elemSize:=if object.elemSize = 0 then file.number (msgPointer+4) 4 else object.elemSize}
      let order := if bitField%2 = 1 then ByteOrder.bigEndian else .littleEndian
      match internalType with
      | .fixedPoint => pure (0,{object with byteOrder:=order})
      | .time => pure (0,{object with byteOrder:=order})
      | .floatingPoint => pure (0,{object with byteOrder:=order})
      | .compound => do
        let object := {object with isComplex:=object.isComplex || file.shows (msgPointer+8) "real"}
        let name ← lift (file.text msgPointer)
        readDataTypePlaces file left (msgPointer+8+roundUp8 (name.length+1)+32) object
      | _ => pure (0,{object with byteOrder:=.littleEndian})

theorem readDataTypePlaces_result (file : MatFile) (left msgPointer : Nat) (object : MetaData) :
    (readDataTypePlaces file left msgPointer object).result = readDataTypeMessage file left msgPointer object := by
  induction left generalizing msgPointer object with
  | zero => rfl
  | succ left ih =>
    rw [readDataTypePlaces,bind_result,tell_result,Option.bind_some,readDataTypeMessage]
    split
    · rfl
    · cases hdf5DatatypeOf (file.byte msgPointer%16) with
      | compound =>
        simp only [bind_result,lift_result,ih]
        rfl
      | _ => rfl

def keptSize (before : Nat) : StoredType → Nat
  | .plain _ _ size => if before = 0 then size else before
  | .compound _ size _ first => keptSize (if before = 0 then size else before) first

def described (object : MetaData) (type : StoredType) (elemSize : Nat) (complex : Bool) : MetaData :=
  {object with
    hdf5InternalType:=hdf5DatatypeOf type.innermostCode
    datatypeBitField:=type.innermostBitField
    byteOrder:=plainOrder (hdf5DatatypeOf type.innermostCode) type.innermostBitField
    elemSize:=elemSize
    isComplex:=complex}

section Steps
variable {file : MatFile} {pointer left : Nat} {object : MetaData}

theorem cString_ends {bytes : FileBytes} (zero : bytes (pointer+k) = 0) (inside : k < left) :
    ∃ name, cString bytes pointer left = some name ∧ name.length ≤ k := by
  induction k generalizing pointer left with
  | zero =>
    obtain ⟨left,rfl⟩ := Nat.exists_eq_add_one_of_ne_zero (Nat.ne_of_gt inside)
    exact ⟨[],if_pos zero,Nat.le_refl 0⟩
  | succ k ih =>
    obtain ⟨left,rfl⟩ := Nat.exists_eq_add_one_of_ne_zero (Nat.ne_of_gt (Nat.zero_lt_of_lt inside))
    by_cases ended : bytes pointer = 0
    · exact ⟨[],if_pos ended,Nat.zero_le (k+1)⟩
    · rw [← Nat.add_assoc,Nat.add_right_comm] at zero
      obtain ⟨name,read,short⟩ := ih zero (Nat.lt_of_succ_lt_succ inside)
      exact ⟨bytes pointer::name,by rw [cString,if_neg ended,read]; rfl,Nat.succ_le_succ short⟩

theorem bytesMatch_prefix {bytes : FileBytes} {text name : Text} (shown : ∀ k < name.length, bytes (pointer+k) = name.getD k 0)
    (ended : bytes (pointer+name.length) = 0) (used : 0 ∉ text) :
    bytesMatch bytes pointer text = text.isPrefixOf name := by
  induction text generalizing pointer name with
  | nil => simp [bytesMatch]
  | cons char text ih =>
    have char_ : char ≠ 0 := fun zero => used (zero ▸ List.mem_cons_self)
    cases name with
    | nil =>
      rw [List.length_nil,Nat.add_zero] at ended
      simp [bytesMatch,ended,char_.symm]
    | cons first name =>
      have here : bytes pointer = first := shown 0 (Nat.succ_pos _)
      have rest := @ih (pointer+1) name (fun k below => by
        have byte := shown (k+1) (Nat.succ_lt_succ below)
        rwa [← Nat.add_assoc,Nat.add_right_comm] at byte) (by
        rw [Nat.add_assoc,Nat.add_comm 1]
        exact ended) (fun member => used (List.mem_cons_of_mem _ member))
      rw [bytesMatch,here,rest,List.isPrefixOf]
      rw [Bool.beq_comm]

theorem plain_run (encodes : Encodes file pointer (.plain code bitField size)) : readDataTypePlaces file (left+1) pointer object =
    ⟨[pointer],some (0,described object (.plain code bitField size) (if object.elemSize = 0 then size else object.elemSize)
      object.isComplex)⟩ := by
  cases encodes with
  | plain few other class_ bits elems _ =>
    have version : file.byte pointer/16 = 1 := by omega
    have kind : file.byte pointer%16 = code := by omega
    have type : hdf5DatatypeOf code ≠ .compound := fun same => other ((compound_code code).mp same)
    rw [readDataTypePlaces,tell_bind]
    simp only [version,kind,bits,elems,ne_eq,not_true,if_false]
    unfold described
    simp only [StoredType.innermostCode,StoredType.innermostBitField]
    generalize hdf5DatatypeOf code = internalType at type
    cases internalType <;> first | exact absurd rfl type | rfl

-- strlen starts at the class byte and ends at the reserved byte at the latest, so the
-- next datatype is always looked for 48 bytes further.
theorem compound_run (encodes : Encodes file pointer (.compound members size name first)) :
    readDataTypePlaces file (left+1) pointer object =
      let rest := readDataTypePlaces file left (pointer+48) {object with
        hdf5InternalType:=.compound,datatypeBitField:=file.number (pointer+1) 3
        elemSize:=if object.elemSize = 0 then size else object.elemSize
        isComplex:=object.isComplex || real.isPrefixOf name}
      ⟨pointer::rest.log,rest.result⟩ := by
  cases encodes with
  | compound class_ count reserved elems shown used ended inside _ =>
    have version : file.byte pointer/16 = 1 := by omega
    have kind : hdf5DatatypeOf (file.byte pointer%16) = .compound := (compound_code _).mpr (by omega)
    have zero : file.bytes (pointer+3) = 0 := UInt8.toNat_inj.mp reserved
    obtain ⟨text,read,short⟩ := cString_ends zero (show 3 < file.fileSize-pointer by omega)
    have next : pointer+8+roundUp8 (text.length+1)+32 = pointer+48 := by
      unfold roundUp8
      split <;> omega
    have complex : file.shows (pointer+8) "real" = real.isPrefixOf name :=
      bytesMatch_prefix shown ended (by simp)
    have named : file.text pointer = some text := read
    rw [readDataTypePlaces,tell_bind]
    simp only [version,kind,elems,complex,named,next,ne_eq,not_true,if_false,lift_some_bind]

theorem encodes_inside (encodes : Encodes file pointer type) : pointer+8 ≤ file.fileSize := by
  cases encodes <;> assumption

theorem some_left (encodes : Encodes file pointer type) (enough : file.fileSize ≤ pointer+left) :
    ∃ rest, left = rest+1 := by
  have inside := encodes_inside encodes
  exact ⟨left-1,by omega⟩

end Steps

section Runs
variable {file : MatFile} {pointer left : Nat} {type : StoredType}

def Short (type : StoredType) : Prop := ∀ name ∈ type.names, name.length ≤ 7

theorem memberOffset_short (name : Text) : StoredType.memberOffset name = 48 ↔ name.length ≤ 7 := by
  unfold StoredType.memberOffset padded
  omega

-- The induction is on the datatype; each first member is read where it lies.
theorem short_run (encodes : Encodes file pointer type) (short : Short type) (enough : file.fileSize ≤ pointer+left)
    (object : MetaData) : readDataTypePlaces file left pointer object =
      ⟨type.places pointer,some (0,described object type (keptSize object.elemSize type)
        (object.isComplex || type.names.any real.isPrefixOf))⟩ := by
  induction type generalizing pointer left object with
  | plain code bitField size =>
    obtain ⟨left,rfl⟩ := some_left encodes enough
    rw [plain_run encodes,StoredType.names,List.any_nil,Bool.or_false]
    rfl
  | compound members size name first ih =>
    obtain ⟨left,rfl⟩ := some_left encodes enough
    have offset := (memberOffset_short name).mpr (short name List.mem_cons_self)
    rw [compound_run encodes]
    cases encodes with
    | compound _ _ _ _ _ _ _ _ inner_ =>
      rw [offset] at inner_
      rw [ih inner_ (fun other member => short other (List.mem_cons_of_mem _ member)) (by omega)]
      simp only [StoredType.places,offset,StoredType.names,List.any_cons,keptSize,Bool.or_assoc]
      rfl

theorem places_head (type : StoredType) (pointer : Nat) : (type.places pointer).head? = some pointer := by
  cases type <;> rfl

theorem run_head (left : Nat) (object : MetaData) :
    (readDataTypePlaces file (left+1) pointer object).log.head? = some pointer := by
  rw [readDataTypePlaces,tell_bind]
  rfl

theorem places_short (encodes : Encodes file pointer type) (enough : file.fileSize ≤ pointer+left) (object : MetaData)
    (places : (readDataTypePlaces file left pointer object).log = type.places pointer) : Short type := by
  induction type generalizing pointer left object with
  | plain code bitField size => exact fun name member => by cases member
  | compound members size name first ih =>
    have inside := encodes_inside encodes
    obtain ⟨left,rfl⟩ : ∃ rest, left = rest+2 := ⟨left-2,by omega⟩
    rw [compound_run encodes,StoredType.places,List.cons.injEq] at places
    have next := congrArg List.head? places.2
    rw [run_head,places_head,Option.some.injEq,Nat.add_left_cancel_iff] at next
    have named := (memberOffset_short name).mp next.symm
    cases encodes with
    | compound _ _ _ _ _ _ _ _ inner_ =>
      rw [← next] at inner_ places
      intro other member
      rcases List.mem_cons.mp member with rfl | later
      · exact named
      · exact ih inner_ (by omega) _ places.2 other later

end Runs

-- elem_size is still to be set and the outermost size is there, or the sizes agree anyway.
def SizeKept (object : MetaData) (type : StoredType) : Prop :=
  if object.elemSize = 0 then type.size = 0 → ∀ size ∈ type.innerSizes, size = 0 else object.elemSize = type.size

theorem keptSize_set (positive : before ≠ 0) (type : StoredType) : keptSize before type = before := by
  induction type with
  | plain => exact if_neg positive
  | compound _ _ _ _ ih =>
    rw [keptSize,if_neg positive]
    exact ih

theorem keptSize_zero (type : StoredType) :
    keptSize 0 type = 0 ↔ type.size = 0 ∧ ∀ size ∈ type.innerSizes, size = 0 := by
  induction type with
  | plain code bitField size => simp [keptSize,StoredType.size,StoredType.innerSizes]
  | compound members size name first ih =>
    have outer : (StoredType.compound members size name first).size = size := rfl
    rw [keptSize,if_pos rfl,outer,StoredType.innerSizes,List.forall_mem_cons]
    by_cases zero : size = 0
    · rw [zero,ih]
      simp
    · rw [keptSize_set zero]
      simp [zero]

theorem keptSize_exact (object : MetaData) (type : StoredType) :
    keptSize object.elemSize type = type.size ↔ SizeKept object type := by
  unfold SizeKept
  by_cases fresh : object.elemSize = 0
  · rw [fresh,if_pos rfl]
    by_cases empty : type.size = 0
    · rw [empty,keptSize_zero]
      simp [empty]
    · have first : keptSize 0 type = type.size := by
        cases type with
        | plain => rfl
        | compound _ size _ first => exact keptSize_set empty first
      simp [first,empty]
  · rw [keptSize_set fresh,if_neg fresh]

-- complexity_flag is only set for a first member with the name real.
def OnlyReal (object : MetaData) (type : StoredType) : Prop :=
  object.isComplex = true ∨ real ∈ type.names ∨ ∀ name ∈ type.names, ¬real <+: name

-- The datatypes are read where they lie, and the object ends with the type, the bit
-- field and the order of the innermost one and with the size of the outermost one.
def ReadsType (file : MatFile) (msgPointer : Nat) (type : StoredType) (object : MetaData) : Prop :=
  let run := readDataTypePlaces file (file.fileSize-msgPointer) msgPointer object
  run.log = type.places msgPointer ∧
    ∃ complex, run.result = some (0,described object type type.size complex) ∧
      (complex = true → object.isComplex = true ∨ real ∈ type.names)

theorem flag_exact (object : MetaData) (type : StoredType) : (object.isComplex || type.names.any real.isPrefixOf) = true ↔
    object.isComplex = true ∨ ∃ name ∈ type.names, real <+: name := by
  simp

-- A datatype message is read so exactly if every first member's name has at most 7
-- characters, none begins with real without one that is real, and the size is set.
theorem readDataTypeMessage_exact (file : MatFile) (msgPointer : Nat) (type : StoredType) (object : MetaData)
    (encodes : Encodes file msgPointer type) :
    ReadsType file msgPointer type object ↔ Short type ∧ OnlyReal object type ∧ SizeKept object type := by
  have enough : file.fileSize ≤ msgPointer+(file.fileSize-msgPointer) := by omega
  unfold ReadsType
  constructor
  · rintro ⟨places,complex,ran,only⟩
    have short := places_short encodes enough object places
    rw [short_run encodes short enough,Option.some.injEq,Prod.mk.injEq] at ran
    have size : keptSize object.elemSize type = type.size := congrArg (fun o => o.elemSize) ran.2
    have flag : (object.isComplex || type.names.any real.isPrefixOf) = complex := congrArg (fun o => o.isComplex) ran.2
    refine ⟨short,?_,(keptSize_exact object type).mp size⟩
    by_cases begun : ∃ name ∈ type.names, real <+: name
    · have set_ := flag.symm.trans ((flag_exact object type).mpr (.inr begun))
      exact (only set_).imp_right .inl
    · exact .inr (.inr fun name member here => begun ⟨name,member,here⟩)
  · rintro ⟨short,only,size⟩
    rw [short_run encodes short enough,(keptSize_exact object type).mpr size]
    refine ⟨rfl,_,rfl,fun flag => ?_⟩
    rcases only with set_ | named | begun
    · exact .inl set_
    · exact .inr named
    · obtain ⟨name,member,here⟩ | set_ := ((flag_exact object type).mp flag).symm
      · exact absurd here (begun name member)
      · exact .inl set_

-- A complex double: the member real comes first.
def complexFile : MatFile := wordFile [0x0000001000000216,0x6c616572,0,0,0,0,0x00000008003f2011] ⟨8,8,40,0,0,0⟩

def complexType : StoredType := .compound 2 16 real (.plain 1 0x3f20 8)

theorem complexFile_encodes : Encodes complexFile 0 complexType := by
  apply Encodes.compound
  any_goals decide
  apply Encodes.plain
  all_goals decide

theorem readDataTypeMessage_complex : ReadsType complexFile 0 complexType initializeObject.toMetaData ∧
    complexType.names = [real] :=
  ⟨(readDataTypeMessage_exact complexFile 0 complexType initializeObject.toMetaData complexFile_encodes).mpr
    ⟨by unfold Short; decide,by unfold OnlyReal; decide,by unfold SizeKept; decide⟩,rfl⟩

-- The first member has the name position.
def positionFile : MatFile := wordFile [0x0000001000000216,0x6e6f697469736f70,0,0,0,0,0,0x00000008003f2011] ⟨8,8,40,0,0,0⟩

def positionType : StoredType := .compound 2 16 (textOf "position") (.plain 1 0x3f20 8)

theorem positionFile_encodes : Encodes positionFile 0 positionType := by
  apply Encodes.compound
  any_goals decide
  apply Encodes.plain
  all_goals decide

theorem readDataTypeMessage_position : ¬∀ (file : MatFile) (msgPointer : Nat) (type : StoredType) (object : MetaData),
    Encodes file msgPointer type → ReadsType file msgPointer type object := by
  intro reads
  have position := reads positionFile 0 positionType initializeObject.toMetaData positionFile_encodes
  have short := places_short positionFile_encodes (by decide) _ position.1
  exact absurd (short _ List.mem_cons_self) (by decide)

end CompoundTypes
end GetMatVar
