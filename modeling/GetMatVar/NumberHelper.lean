import GetMatVar.System
import Mathlib.Algebra.Group.Int.Defs
import Mathlib.Algebra.Group.Nat.Defs

namespace GetMatVar

-- The bytes of the file by offset. A pointer into a mapping is kept as the file
-- offset it shows.
abbrev FileBytes := Nat → UInt8

section Numbers
variable (bytes : FileBytes)

def littleEndian (pointer : Nat) : Nat → Nat
  | 0 => 0
  | count+1 => (bytes pointer).toNat+256*littleEndian (pointer+1) count

-- On a little-endian host, for META_DATA_BYTE_ORDER: a size_t takes eight bytes.
def getBytesAsNumber (pointer numBytes : Nat) : Nat := littleEndian bytes pointer (min numBytes 8)

def bytesMatch (pointer : Nat) : List UInt8 → Bool
  | [] => true
  | byte::rest => bytes pointer == byte && bytesMatch (pointer+1) rest

-- The cast of a size_t to index_t.
def toIndex (number : Nat) : Int := if number < 2^63 then number else number-2^64

theorem littleEndian_bound (pointer count : Nat) : littleEndian bytes pointer count < 256^count := by
  induction count generalizing pointer with
  | zero => exact Nat.zero_lt_one
  | succ count ih =>
    have low := (bytes pointer).toNat_lt
    have high := ih (pointer+1)
    simp only [littleEndian,Nat.pow_succ]
    omega

end Numbers

-- What an index_t keeps of a sum or product that it does not hold. It is enough to
-- cut the result of several of them.
def wrapIndex (value : Int) : Int := toIndex (value%2^64).toNat

section Wrap

theorem wrapIndex_bmod (number : Int) : wrapIndex number = number.bmod (2^64) := by
  have low := Int.emod_nonneg number (by decide : (2^64 : Int) ≠ 0)
  have high := Int.emod_lt_of_pos number (by decide : (0 : Int) < 2^64)
  have cast : ((number%2^64).toNat : Int) = number%2^64 := Int.toNat_of_nonneg low
  simp only [wrapIndex,toIndex,Int.bmod]
  split <;> split <;> omega

theorem wrapIndex_small (low : -2^63 ≤ number) (high : number < 2^63) : wrapIndex number = number := by
  rw [wrapIndex_bmod]
  exact Int.bmod_eq_of_le_mul_two (by omega) (by omega)

theorem wrapIndex_over (low : 2^63 ≤ number) (high : number < 2^64) : wrapIndex number = number-2^64 := by
  simp only [wrapIndex,toIndex,Int.emod_eq_of_lt (show 0 ≤ number by omega) high]
  split <;> omega

theorem wrapIndex_add (left right : Int) : wrapIndex (wrapIndex left+right) = wrapIndex (left+right) := by
  simp only [wrapIndex_bmod,Int.bmod_add_bmod]

theorem wrapIndex_add_right (left right : Int) : wrapIndex (left+wrapIndex right) = wrapIndex (left+right) := by
  simp only [wrapIndex_bmod,Int.add_bmod_bmod]

theorem wrapIndex_sub (left right : Int) : wrapIndex (wrapIndex left-wrapIndex right) = wrapIndex (left-right) := by
  simp only [wrapIndex_bmod,Int.sub_bmod_bmod,Int.bmod_sub_bmod]

theorem wrapIndex_mul (left right : Int) : wrapIndex (left*wrapIndex right) = wrapIndex (left*right) := by
  simp only [wrapIndex_bmod,Int.mul_bmod_bmod]

theorem wrapIndex_mul_left (left right : Int) : wrapIndex (wrapIndex left*right) = wrapIndex (left*right) := by
  simp only [wrapIndex_bmod,Int.bmod_mul_bmod]

end Wrap

structure Superblock where
  sizeOfOffsets : Nat
  sizeOfLengths : Nat
  symTableEntrySize : Nat
  baseAddress : Nat
  rootTreeAddress : Nat
  rootHeapAddress : Nat
deriving DecidableEq,Repr

-- The open file: fd, file_size and alloc_gran, and what was read from the
-- superblock. Addresses are 64-bit and wrap.
structure MatFile extends FileLayout where
  bytes : FileBytes
  sBlock : Superblock

def addressBits : Nat := 64

def undefAddr : Nat := 2^64-1

def MatFile.numPages (file : MatFile) : Nat := file.fileSize/file.allocGran+1

def MatFile.number (file : MatFile) (pointer numBytes : Nat) : Nat := getBytesAsNumber file.bytes pointer numBytes

-- An address stored in the file, relative to the base address.
def MatFile.address (file : MatFile) (pointer : Nat) : Nat :=
  (file.number pointer file.sBlock.sizeOfOffsets+file.sBlock.baseAddress)%2^addressBits

def MatFile.shows (file : MatFile) (pointer : Nat) (text : String) : Bool :=
  bytesMatch file.bytes pointer (text.toList.map fun char => UInt8.ofNat char.toNat)

end GetMatVar
