import GetMatVar.ByteNumbers

namespace GetMatVar
namespace FillSuperblock

-- Superblock with the two K values. The casts to narrower types keep every number.
structure ReadSuperblock extends Superblock where
  leafNodeK : Nat
  internalNodeK : Nat
deriving DecidableEq,Repr

-- The scratch pad of the root group is looked for at one place.
def fillSuperblock (bytes : FileBytes) (superblockPointer : Nat) : ReadSuperblock :=
  let sizeOfOffsets := getBytesAsNumber bytes (superblockPointer+13) 1
  let baseAddress := getBytesAsNumber bytes (superblockPointer+24) sizeOfOffsets
  let spsStart := superblockPointer+80
  { sizeOfOffsets:=sizeOfOffsets
    sizeOfLengths:=getBytesAsNumber bytes (superblockPointer+14) 1
    leafNodeK:=getBytesAsNumber bytes (superblockPointer+16) 2
    internalNodeK:=getBytesAsNumber bytes (superblockPointer+18) 2
    baseAddress:=baseAddress
    rootTreeAddress:=(getBytesAsNumber bytes spsStart sizeOfOffsets+baseAddress)%2^addressBits
    rootHeapAddress:=(getBytesAsNumber bytes (spsStart+sizeOfOffsets) sizeOfOffsets+baseAddress)%2^addressBits
    symTableEntrySize:=2*sizeOfOffsets+4+4+16 }

-- What a superblock of version 0 says, with the addresses as they are stored.
structure StoredSuperblock where
  sizeOfOffsets : Nat
  sizeOfLengths : Nat
  leafNodeK : Nat
  internalNodeK : Nat
  baseAddress : Nat
  treeAddress : Nat
  heapAddress : Nat
  offsets : 1 ≤ sizeOfOffsets ∧ sizeOfOffsets ≤ 8
  lengths : 1 ≤ sizeOfLengths ∧ sizeOfLengths ≤ 8
  leafFits : leafNodeK < 2^16
  internalFits : internalNodeK < 2^16
  baseFits : baseAddress < 256^sizeOfOffsets
  treeFits : treeAddress < 256^sizeOfOffsets
  heapFits : heapAddress < 256^sizeOfOffsets

def formatSignature : Nat := 0x0A1A0A0D46444889

-- The root group's symbol table entry comes behind four addresses, and its scratch
-- pad behind two more and the cache type, which is 1.
structure Stores (bytes : FileBytes) (pointer : Nat) (stored : StoredSuperblock) : Prop where
  signature : littleEndian bytes pointer 8 = formatSignature
  version : littleEndian bytes (pointer+8) 1 = 0
  sizeOfOffsets : littleEndian bytes (pointer+13) 1 = stored.sizeOfOffsets
  sizeOfLengths : littleEndian bytes (pointer+14) 1 = stored.sizeOfLengths
  leafNodeK : littleEndian bytes (pointer+16) 2 = stored.leafNodeK
  internalNodeK : littleEndian bytes (pointer+18) 2 = stored.internalNodeK
  baseAddress : littleEndian bytes (pointer+24) stored.sizeOfOffsets = stored.baseAddress
  cacheType : littleEndian bytes (pointer+24+6*stored.sizeOfOffsets) 4 = 1
  treeAddress : littleEndian bytes (pointer+32+6*stored.sizeOfOffsets) stored.sizeOfOffsets = stored.treeAddress
  heapAddress : littleEndian bytes (pointer+32+7*stored.sizeOfOffsets) stored.sizeOfOffsets = stored.heapAddress

namespace StoredSuperblock

def decoded (stored : StoredSuperblock) : ReadSuperblock where
  sizeOfOffsets := stored.sizeOfOffsets
  sizeOfLengths := stored.sizeOfLengths
  leafNodeK := stored.leafNodeK
  internalNodeK := stored.internalNodeK
  baseAddress := stored.baseAddress
  rootTreeAddress := (stored.treeAddress+stored.baseAddress)%2^addressBits
  rootHeapAddress := (stored.heapAddress+stored.baseAddress)%2^addressBits
  symTableEntrySize := 2*stored.sizeOfOffsets+24

def laid (stored : StoredSuperblock) (pointer : Nat) (rest : FileBytes) : FileBytes :=
  putNumber pointer 8 formatSignature <| putNumber (pointer+8) 1 0 <|
  putNumber (pointer+13) 1 stored.sizeOfOffsets <| putNumber (pointer+14) 1 stored.sizeOfLengths <|
  putNumber (pointer+16) 2 stored.leafNodeK <| putNumber (pointer+18) 2 stored.internalNodeK <|
  putNumber (pointer+24) stored.sizeOfOffsets stored.baseAddress <|
  putNumber (pointer+24+6*stored.sizeOfOffsets) 4 1 <|
  putNumber (pointer+32+6*stored.sizeOfOffsets) stored.sizeOfOffsets stored.treeAddress <|
  putNumber (pointer+32+7*stored.sizeOfOffsets) stored.sizeOfOffsets stored.heapAddress rest

theorem laid_stores (stored : StoredSuperblock) (pointer : Nat) (rest : FileBytes) :
    Stores (stored.laid pointer rest) pointer stored := by
  obtain ⟨positive,narrow⟩ := stored.offsets
  obtain ⟨_,lengths⟩ := stored.lengths
  constructor <;> unfold laid
  · exact putNumber_read (by decide)
  · repeat rw [putNumber_kept (by omega)]
    exact putNumber_read (by decide)
  · repeat rw [putNumber_kept (by omega)]
    exact putNumber_read (by omega)
  · repeat rw [putNumber_kept (by omega)]
    exact putNumber_read (by omega)
  · repeat rw [putNumber_kept (by omega)]
    exact putNumber_read stored.leafFits
  · repeat rw [putNumber_kept (by omega)]
    exact putNumber_read stored.internalFits
  · repeat rw [putNumber_kept (by omega)]
    exact putNumber_read stored.baseFits
  · repeat rw [putNumber_kept (by omega)]
    exact putNumber_read (by decide)
  · repeat rw [putNumber_kept (by omega)]
    exact putNumber_read stored.treeFits
  · repeat rw [putNumber_kept (by omega)]
    exact putNumber_read stored.heapFits

theorem laid_behind (stored : StoredSuperblock) (pointer : Nat) (rest : FileBytes)
    (behind : pointer+32+8*stored.sizeOfOffsets ≤ p) : stored.laid pointer rest p = rest p := by
  obtain ⟨positive,_⟩ := stored.offsets
  unfold laid
  repeat rw [putNumber_other (by omega)]

end StoredSuperblock

section Decoding
variable {bytes : FileBytes} {pointer : Nat} {stored : StoredSuperblock}

theorem fillSuperblock_stored (stores : Stores bytes pointer stored) : fillSuperblock bytes pointer =
    {stored.decoded with
      rootTreeAddress:=(littleEndian bytes (pointer+80) stored.sizeOfOffsets+stored.baseAddress)%2^addressBits
      rootHeapAddress:=(littleEndian bytes (pointer+80+stored.sizeOfOffsets) stored.sizeOfOffsets+
        stored.baseAddress)%2^addressBits} := by
  have narrow := Nat.min_eq_left stored.offsets.2
  have size : getBytesAsNumber bytes (pointer+13) 1 = stored.sizeOfOffsets := stores.sizeOfOffsets
  have lengths : getBytesAsNumber bytes (pointer+14) 1 = stored.sizeOfLengths := stores.sizeOfLengths
  have leaf : getBytesAsNumber bytes (pointer+16) 2 = stored.leafNodeK := stores.leafNodeK
  have internal : getBytesAsNumber bytes (pointer+18) 2 = stored.internalNodeK := stores.internalNodeK
  have base : getBytesAsNumber bytes (pointer+24) stored.sizeOfOffsets = stored.baseAddress := by
    rw [getBytesAsNumber,narrow,stores.baseAddress]
  simp only [fillSuperblock,size,lengths,leaf,internal,base,StoredSuperblock.decoded]
  simp only [getBytesAsNumber,narrow]

theorem fillSuperblock_wide (stores : Stores bytes pointer stored) (wide : stored.sizeOfOffsets = 8) :
    fillSuperblock bytes pointer = stored.decoded := by
  have tree := stores.treeAddress
  have heap := stores.heapAddress
  rw [fillSuperblock_stored stores]
  rw [wide] at tree heap ⊢
  rw [show pointer+80+8 = pointer+32+7*8 by rfl,show pointer+80 = pointer+32+6*8 by rfl,tree,heap]
  rfl

-- With narrower addresses, a byte that means nothing is read as part of the heap address.
theorem fillSuperblock_narrow (stored : StoredSuperblock) (narrow : stored.sizeOfOffsets ≠ 8) (pointer : Nat) :
    ∃ bytes, Stores bytes pointer stored ∧ fillSuperblock bytes pointer ≠ stored.decoded := by
  obtain ⟨positive,most⟩ := stored.offsets
  have few : stored.sizeOfOffsets ≤ 7 := by omega
  have heapFits := Nat.lt_of_lt_of_le stored.heapFits (Nat.pow_le_pow_right (n:=256) (by decide) few)
  let read (fill : UInt8) := littleEndian (stored.laid pointer fun _ => fill) (pointer+80+stored.sizeOfOffsets)
    stored.sizeOfOffsets
  have readFits (fill : UInt8) : read fill < 256^7 :=
    Nat.lt_of_lt_of_le (littleEndian_bound _ _ _) (Nat.pow_le_pow_right (n:=256) (by decide) few)
  have right (fill : UInt8) (same : fillSuperblock (stored.laid pointer fun _ => fill) pointer = stored.decoded) :
      read fill = stored.heapAddress := by
    have heap := congrArg (fun s => s.rootHeapAddress) same
    rw [fillSuperblock_stored (stored.laid_stores pointer _)] at heap
    have fits := readFits fill
    change (read fill+stored.baseAddress)%2^64 = (stored.heapAddress+stored.baseAddress)%2^64 at heap
    omega
  have differ : read 0 ≠ read 1 := by
    intro same
    have last := littleEndian_same same (stored.sizeOfOffsets-1) (by omega)
    rw [stored.laid_behind pointer _ (by omega),stored.laid_behind pointer _ (by omega)] at last
    exact absurd last (by decide)
  by_cases first : fillSuperblock (stored.laid pointer fun _ => 0) pointer = stored.decoded
  · refine ⟨_,stored.laid_stores pointer fun _ => 1,fun second => differ ?_⟩
    exact (right 0 first).trans (right 1 second).symm
  · exact ⟨_,stored.laid_stores pointer fun _ => 0,first⟩

end Decoding

-- A superblock is decoded whatever lies around it exactly if its addresses take
-- eight bytes.
theorem fillSuperblock_decodes (stored : StoredSuperblock) (pointer : Nat) :
    (∀ bytes, Stores bytes pointer stored → fillSuperblock bytes pointer = stored.decoded) ↔
      stored.sizeOfOffsets = 8 := by
  constructor
  · intro decodes
    by_contra narrow
    obtain ⟨bytes,stores,other⟩ := fillSuperblock_narrow stored narrow pointer
    exact other (decodes bytes stores)
  · exact fun wide bytes stores => fillSuperblock_wide stores wide

-- The group tree at 136 and the heap at 680, with addresses of four bytes.
def fourByteSuperblock : StoredSuperblock where
  sizeOfOffsets := 4
  sizeOfLengths := 4
  leafNodeK := 4
  internalNodeK := 16
  baseAddress := 512
  treeAddress := 136
  heapAddress := 680
  offsets := by decide
  lengths := by decide
  leafFits := by decide
  internalFits := by decide
  baseFits := by decide
  treeFits := by decide
  heapFits := by decide

theorem fillSuperblock_fourBytes : ¬∀ (stored : StoredSuperblock) (pointer : Nat) (bytes : FileBytes),
    Stores bytes pointer stored → fillSuperblock bytes pointer = stored.decoded := by
  intro decodes
  have four := decodes fourByteSuperblock 0 _ (fourByteSuperblock.laid_stores 0 fun _ => 0)
  have tree : (fillSuperblock (fourByteSuperblock.laid 0 fun _ => 0) 0).rootTreeAddress = 512 := by decide +kernel
  rw [four] at tree
  exact absurd tree (by decide)

end FillSuperblock
end GetMatVar
