import GetMatVar.ByteNumbers
import GetMatVar.ReadMessage

namespace GetMatVar
namespace FilterPipeline

-- A filter description as it is stored. The name is only there in version 1, filled
-- up to a multiple of eight bytes.
structure StoredFilter where
  filterId : Nat
  flags : Nat
  nameLength : Nat
  clientData : List Nat
  padded : 8 ∣ nameLength
deriving DecidableEq

namespace StoredFilter
variable (version : Nat) (stored : StoredFilter)

-- The lowest flag says that the filter is optional.
def decoded : Filter := ⟨stored.filterId,stored.flags%2,stored.clientData⟩

def flagsAt : Nat := if version = 1 then 4 else 2

def countAt : Nat := if version = 1 then 6 else 4

def valuesAt : Nat := if version = 1 then 8+stored.nameLength else 6

def valuesEnd : Nat := stored.valuesAt version+4*stored.clientData.length

-- In version 1 four bytes fill up after an odd number of values.
def size : Nat := stored.valuesEnd version+if version = 1 then 4*(stored.clientData.length%2) else 0

end StoredFilter

section Format
variable (file : MatFile) (version : Nat)

structure Described (pointer : Nat) (stored : StoredFilter) : Prop where
  filterId : file.number pointer 2 = stored.filterId
  nameLength : version = 1 → file.number (pointer+2) 2 = stored.nameLength
  predefined : version = 2 → stored.filterId < 256
  flags : file.number (pointer+StoredFilter.flagsAt version) 2 = stored.flags
  count : file.number (pointer+StoredFilter.countAt version) 2 = stored.clientData.length
  clientData : ∀ k < stored.clientData.length,
    file.number (pointer+stored.valuesAt version+4*k) 4 = stored.clientData.getD k 0
  filling : version = 1 → stored.clientData.length%2 = 1 → file.number (pointer+stored.valuesEnd version) 4 = 0

-- The descriptions one behind the other.
inductive Listed : Nat → List StoredFilter → Prop where
  | done : Listed pointer []
  | more : Described file version pointer stored → Listed (pointer+stored.size version) rest →
      Listed pointer (stored::rest)

structure Encodes (msgPointer : Nat) (filters : List StoredFilter) : Prop where
  known : version = 1 ∨ version = 2
  stated : file.byte msgPointer = version
  count : file.byte (msgPointer+1) = filters.length
  listed : Listed file version (if version = 1 then msgPointer+8 else msgPointer+2) filters

end Format

def withFilters (object : MetaData) (filters : List StoredFilter) : MetaData :=
  {object with
    chunkedInfo:={object.chunkedInfo with numFilters:=filters.length,filters:=filters.map (·.decoded)}}

def Recovers (file : MatFile) (msgPointer : Nat) (filters : List StoredFilter) (object : MetaData) : Prop :=
  readDataStoragePipelineMessage file msgPointer object = some (0,withFilters object filters)

def Unfilled (version : Nat) (filters : List StoredFilter) : Prop :=
  version = 2 ∨ ∀ stored ∈ filters.dropLast, stored.clientData.length%2 = 0

section Steps
variable {file : MatFile} {version pointer : Nat} {stored : StoredFilter}

theorem described_filter (described : Described file version pointer stored) (place : data = stored.valuesAt version) :
    readFilter file pointer (StoredFilter.flagsAt version) (StoredFilter.countAt version) data =
      (stored.decoded,pointer+stored.valuesEnd version) := by
  have values : (List.range stored.clientData.length).map
      (fun k => file.number (pointer+stored.valuesAt version+4*k) 4) = stored.clientData := by
    apply List.ext_getElem
    · simp
    · intro k _ below
      simpa [below] using described.clientData k below
  simp only [readFilter,described.filterId,described.flags,described.count,place,values,StoredFilter.decoded]
  rw [StoredFilter.valuesEnd,Nat.add_assoc]

theorem readFilters_described (known : version = 1 ∨ version = 2) (described : Described file version pointer stored)
    (left : Nat) : readFilters file version (left+1) pointer =
      stored.decoded::readFilters file version left (pointer+stored.valuesEnd version) := by
  rcases known with rfl | rfl
  · have name := described.nameLength rfl
    have read := described_filter described (show 8+file.number (pointer+2) 2 = stored.valuesAt 1 by rw [name]; rfl)
    change readFilter file pointer 4 6 (8+file.number (pointer+2) 2) = _ at read
    rw [readFilters,if_pos rfl,read]
  · have read := described_filter described (show 6 = stored.valuesAt 2 from rfl)
    change readFilter file pointer 2 4 6 = _ at read
    rw [readFilters,if_neg (by decide),read]

theorem unfilled_size (even : version = 2 ∨ stored.clientData.length%2 = 0) :
    stored.size version = stored.valuesEnd version := by
  unfold StoredFilter.size
  split
  · next first =>
    rcases even with second | even
    · omega
    · rw [even]
      rfl
  · rfl

-- The induction follows the list; behind the last filter nothing is read.
theorem readFilters_unfilled (known : version = 1 ∨ version = 2) (listed : Listed file version pointer filters)
    (unfilled : Unfilled version filters) :
    readFilters file version filters.length pointer = filters.map (·.decoded) := by
  induction listed with
  | done => rfl
  | more described listed ih =>
    rename_i pointer stored rest
    rw [List.length_cons,readFilters_described known described,List.map_cons]
    cases rest with
    | nil => rfl
    | cons next rest =>
      have even : version = 2 ∨ stored.clientData.length%2 = 0 :=
        unfilled.imp_right fun even => even stored List.mem_cons_self
      rw [← unfilled_size even,ih (unfilled.imp_right fun even other member => even other (List.mem_cons_of_mem _ member))]

-- Where something was filled up, the zeros are taken for the id of the next filter.
theorem readFilters_filled (listed : Listed file 1 pointer filters) (used : ∀ stored ∈ filters, stored.filterId ≠ 0)
    (recovered : readFilters file 1 filters.length pointer = filters.map (·.decoded)) : Unfilled 1 filters := by
  right
  induction listed with
  | done => exact fun _ member => by cases member
  | more described listed ih =>
    rename_i pointer stored rest
    rw [List.length_cons,readFilters_described (.inl rfl) described,List.map_cons,List.cons.injEq] at recovered
    cases rest with
    | nil => exact fun _ member => by cases member
    | cons next rest =>
      have even : stored.clientData.length%2 = 0 := by
        by_contra odd
        have filling := described.filling rfl (by omega)
        have first : file.number (pointer+stored.valuesEnd 1) 2 = 0 := by
          apply littleEndian_zero_exact.mpr
          exact fun i below => littleEndian_zero_exact.mp filling i (Nat.lt_trans below (by decide))
        have id : file.number (pointer+stored.valuesEnd 1) 2 = next.filterId := by
          have head := congrArg (fun filters => filters.head?.map (·.filterId)) recovered.2
          simpa [readFilters,readFilter,StoredFilter.decoded] using head
        exact used next (by simp) (id.symm.trans first)
      have rest_ := ih (fun other member => used other (List.mem_cons_of_mem _ member)) (by
        rw [unfilled_size (.inr even)]
        exact recovered.2)
      intro other member
      rcases List.mem_cons.mp member with rfl | later
      · exact even
      · exact rest_ other later

theorem recovers_exact (object : MetaData) (encodes : Encodes file version msgPointer filters) :
    Recovers file msgPointer filters object ↔
      readFilters file version filters.length (if version = 1 then msgPointer+8 else msgPointer+2) =
        filters.map (·.decoded) := by
  have stated := encodes.stated
  unfold Recovers withFilters readDataStoragePipelineMessage
  rcases encodes.known with rfl | rfl
  · simp [stated,encodes.count]
  · simp [stated,encodes.count]

end Steps

-- With version 2, or where no filter but the last has an odd number of client values,
-- the filters are recovered; otherwise they are not if they have ids.
theorem readDataStoragePipelineMessage_exact (file : MatFile) (version msgPointer : Nat) (filters : List StoredFilter)
    (object : MetaData) (encodes : Encodes file version msgPointer filters) :
    (Unfilled version filters → Recovers file msgPointer filters object) ∧
      ((∀ stored ∈ filters, stored.filterId ≠ 0) → Recovers file msgPointer filters object → Unfilled version filters) := by
  rw [recovers_exact object encodes]
  have listed := encodes.listed
  refine ⟨readFilters_unfilled encodes.known listed,fun used recovered => ?_⟩
  rcases encodes.known with rfl | rfl
  · exact readFilters_filled listed used recovered
  · exact .inl rfl

def shuffle : StoredFilter := ⟨2,1,0,[8],by decide⟩

def deflate : StoredFilter := ⟨1,1,8,[6],by decide⟩

-- A shuffle filter and behind it a deflate filter, each with one client value.
def shuffledFile : MatFile := wordFile
  [0x0201,0x0001000100000002,8,0x0001000100080001,0x006574616c666564,6] ⟨8,8,40,0,0,0⟩

theorem shuffledFile_encodes : Encodes shuffledFile 1 0 [shuffle,deflate] where
  known := .inl rfl
  stated := by decide
  count := by decide
  listed := by
    apply Listed.more
    · constructor <;> decide
    · apply Listed.more
      · constructor <;> decide
      · exact .done

def plainFile : MatFile := wordFile
  [0x0201,0x0000000100000003,0x0001000100080001,0x006574616c666564,6] ⟨8,8,40,0,0,0⟩

def fletcher : StoredFilter := ⟨3,1,0,[],by decide⟩

theorem plainFile_encodes : Encodes plainFile 1 0 [fletcher,deflate] where
  known := .inl rfl
  stated := by decide
  count := by decide
  listed := by
    apply Listed.more
    · constructor <;> decide
    · apply Listed.more
      · constructor <;> decide
      · exact .done

theorem readDataStoragePipelineMessage_plain : Recovers plainFile 0 [fletcher,deflate] initializeObject.toMetaData ∧
    ¬Recovers shuffledFile 0 [shuffle,deflate] initializeObject.toMetaData := by
  obtain ⟨right,_⟩ := readDataStoragePipelineMessage_exact plainFile 1 0 [fletcher,deflate] initializeObject.toMetaData
    plainFile_encodes
  obtain ⟨_,wrong⟩ := readDataStoragePipelineMessage_exact shuffledFile 1 0 [shuffle,deflate] initializeObject.toMetaData
    shuffledFile_encodes
  refine ⟨right (.inr (by decide)),fun recovered => ?_⟩
  have unfilled := wrong (by decide) recovered
  exact absurd unfilled (by unfold Unfilled; decide)

theorem readDataStoragePipelineMessage_shifts : ¬∀ (file : MatFile) (version msgPointer : Nat)
    (filters : List StoredFilter) (object : MetaData),
    Encodes file version msgPointer filters → Recovers file msgPointer filters object := by
  intro recovers
  have both := recovers shuffledFile 1 0 [shuffle,deflate] initializeObject.toMetaData shuffledFile_encodes
  rw [recovers_exact _ shuffledFile_encodes] at both
  exact absurd both (by decide +kernel)

end FilterPipeline
end GetMatVar
