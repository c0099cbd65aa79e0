import GetMatVar.CreateDataObjects
import GetMatVar.FillSuperblock

namespace GetMatVar
namespace OpenFile
open FillSuperblock

def superblockInterval : Nat := 512

def formatSig : Text := [137,72,68,70,13,10,26,10]

def matfileSig : Text := textOf "MATLAB 7.3 MAT-file"

-- error_id and error_message
structure Failure where
  errorId : String
  errorMessage : Text
deriving DecidableEq,Repr

def fileNotFoundError (filename : Text) : Failure :=
  ⟨"getmatvar:fileNotFoundError",textOf "No file found with name '"++filename++textOf "'.\n\n"⟩

def lseekFailureError (errno : Text) : Failure :=
  ⟨"getmatvar:_lseekFailureError",textOf "_lseek failed, check errno "++errno++textOf ".\n\n"⟩

def nullFileError : Failure := ⟨"getmatvar:nullFileError",textOf "The file specified is empty.\n\n"⟩

def superblockNotFoundError : Failure := ⟨"getmatvar:superblockNotFoundError",
  textOf "Unable to find the superblock of this file. Data may have been corrupted.\n\n"⟩

-- What _open and _lseek find under the name of a file.
inductive Opened where
  | missing
  | unseekable (errno : Text)
  | found (fileSize : Nat) (bytes : FileBytes)

section Model
variable (bytes : FileBytes)

def fileType : Text := ((List.range matfileSig.length).map bytes).takeWhile (· ≠ 0)

def wrongFormatError : Failure := ⟨"getmatvar:wrongFormatError",
  textOf "The input file must be a Version 7.3+ MAT-file. This is "++
    if bytesMatch bytes 0 (textOf "MATLAB") then textOf "a "++fileType bytes++textOf ".\n\n"
    else textOf "an unknown file format.\n\n"⟩

-- fuel bounds the number of intervals.
def findSuperblockFrom (fileSize : Nat) : Nat → Nat → Option Nat
  | 0,_ => none
  | fuel+1,chunkAddress =>
    if chunkAddress < fileSize then
      if bytesMatch bytes chunkAddress formatSig then some chunkAddress
      else findSuperblockFrom fileSize fuel (chunkAddress+superblockInterval)
    else none

def findSuperblock (fileSize : Nat) : Option Nat := findSuperblockFrom bytes fileSize (fileSize/superblockInterval+1) 0

def getSuperblock (fileSize : Nat) : Except Failure Superblock :=
  match findSuperblock bytes fileSize with
  | none => .error superblockNotFoundError
  | some pointer => .ok (fillSuperblock bytes pointer).toSuperblock

end Model

def openFile (filename : Text) (allocGran : Nat) (granular : 0 < allocGran) : Opened → Except Failure MatFile
  | .missing => .error (fileNotFoundError filename)
  | .unseekable errno => .error (lseekFailureError errno)
  | .found fileSize bytes => do
    if fileSize = 0 then .error nullFileError
    else if bytesMatch bytes 0 matfileSig = false then .error (wrongFormatError bytes)
    else
      let sBlock ← getSuperblock bytes fileSize
      .ok ⟨⟨allocGran,fileSize,granular⟩,bytes,sBlock⟩

section Search
variable {bytes : FileBytes} {fileSize : Nat}

def Signed (bytes : FileBytes) (block : Nat) : Prop := bytesMatch bytes (superblockInterval*block) formatSig = true

structure FirstSigned (bytes : FileBytes) (fileSize block : Nat) : Prop where
  inside : superblockInterval*block < fileSize
  signed : Signed bytes block
  first : ∀ earlier < block, ¬Signed bytes earlier

theorem findSuperblockFrom_some (found : findSuperblockFrom bytes fileSize fuel (superblockInterval*start) = some pointer) :
    ∃ block, pointer = superblockInterval*block ∧ superblockInterval*block < fileSize ∧ Signed bytes block ∧
      ∀ earlier, start ≤ earlier → earlier < block → ¬Signed bytes earlier := by
  induction fuel generalizing start with
  | zero => cases found
  | succ fuel ih =>
    unfold findSuperblockFrom at found
    split at found
    · rename_i inside
      split at found
      · rename_i signed
        cases found
        exact ⟨start,rfl,inside,signed,fun earlier low high => absurd high (Nat.not_lt.mpr low)⟩
      · rename_i unsigned
        rw [← Nat.mul_succ] at found
        obtain ⟨block,same,below,signed,first⟩ := ih found
        refine ⟨block,same,below,signed,fun earlier low high => ?_⟩
        rcases Nat.eq_or_lt_of_le low with rfl | more
        · exact unsigned
        · exact first earlier more high
    · cases found

theorem findSuperblockFrom_none (enough : fileSize < superblockInterval*(start+fuel))
    (searched : findSuperblockFrom bytes fileSize fuel (superblockInterval*start) = none) :
    ∀ block, start ≤ block → superblockInterval*block < fileSize → ¬Signed bytes block := by
  induction fuel generalizing start with
  | zero =>
    intro block low inside
    have := Nat.mul_le_mul_left superblockInterval low
    rw [Nat.add_zero] at enough
    omega
  | succ fuel ih =>
    unfold findSuperblockFrom at searched
    split at searched
    · split at searched
      · cases searched
      · rename_i unsigned
        rw [← Nat.mul_succ] at searched
        intro block low inside
        rcases Nat.eq_or_lt_of_le low with rfl | more
        · exact unsigned
        · refine ih ?_ searched block more inside
          rwa [Nat.succ_add]
    · rename_i outside
      intro block low inside
      have := Nat.mul_le_mul_left superblockInterval low
      omega

theorem FirstSigned.unique (one : FirstSigned bytes fileSize block) (two : FirstSigned bytes fileSize other) : block = other := by
  rcases Nat.lt_trichotomy block other with low | same | high
  · exact absurd one.signed (two.first block low)
  · exact same
  · exact absurd two.signed (one.first other high)

theorem findSuperblock_found (found : findSuperblock bytes fileSize = some pointer) :
    ∃ block, pointer = superblockInterval*block ∧ FirstSigned bytes fileSize block := by
  obtain ⟨block,same,inside,signed,first⟩ := @findSuperblockFrom_some bytes fileSize _ 0 _ found
  exact ⟨block,same,inside,signed,fun earlier => first earlier (Nat.zero_le _)⟩

theorem findSuperblock_none : findSuperblock bytes fileSize = none ↔
    ∀ block, superblockInterval*block < fileSize → ¬Signed bytes block := by
  have enough : fileSize < superblockInterval*(0+(fileSize/superblockInterval+1)) := by
    rw [Nat.zero_add]
    exact Nat.lt_mul_div_succ fileSize (by decide)
  constructor
  · exact fun search block => findSuperblockFrom_none enough search block (Nat.zero_le _)
  · intro unsigned
    cases search : findSuperblock bytes fileSize with
    | none => rfl
    | some found =>
      obtain ⟨block,_,first⟩ := findSuperblock_found search
      exact absurd first.signed (unsigned block first.inside)

theorem findSuperblock_first (first : FirstSigned bytes fileSize block) :
    findSuperblock bytes fileSize = some (superblockInterval*block) := by
  cases search : findSuperblock bytes fileSize with
  | none => exact absurd first.signed (findSuperblock_none.mp search block first.inside)
  | some found =>
    obtain ⟨other,same,otherFirst⟩ := findSuperblock_found search
    rw [same,first.unique otherFirst]

end Search

section Opening
variable {filename : Text} {allocGran fileSize : Nat} {granular : 0 < allocGran} {bytes : FileBytes}

def openedAt (allocGran fileSize : Nat) (granular : 0 < allocGran) (bytes : FileBytes) (block : Nat) : MatFile :=
  ⟨⟨allocGran,fileSize,granular⟩,bytes,(fillSuperblock bytes (superblockInterval*block)).toSuperblock⟩

-- The ways in which a file that is there can open. Only a MAT-file of version 7.3 is
-- searched, and what is read is the first block that looks like a superblock.
inductive Opens (allocGran : Nat) (granular : 0 < allocGran) (fileSize : Nat) (bytes : FileBytes) :
    Except Failure MatFile → Prop where
  | null (empty : fileSize = 0) : Opens allocGran granular fileSize bytes (.error nullFileError)
  | wrongFormat (some_ : fileSize ≠ 0) (other : bytesMatch bytes 0 matfileSig = false) :
      Opens allocGran granular fileSize bytes (.error (wrongFormatError bytes))
  | noSuperblock (some_ : fileSize ≠ 0) (header : bytesMatch bytes 0 matfileSig = true)
      (unsigned : ∀ block, superblockInterval*block < fileSize → ¬Signed bytes block) :
      Opens allocGran granular fileSize bytes (.error superblockNotFoundError)
  | opened (some_ : fileSize ≠ 0) (header : bytesMatch bytes 0 matfileSig = true) (first : FirstSigned bytes fileSize block) :
      Opens allocGran granular fileSize bytes (.ok (openedAt allocGran fileSize granular bytes block))

theorem openFile_found (some_ : fileSize ≠ 0) (header : bytesMatch bytes 0 matfileSig = true) (filename : Text) :
    openFile filename allocGran granular (.found fileSize bytes) = match findSuperblock bytes fileSize with
      | none => .error superblockNotFoundError
      | some pointer => .ok ⟨⟨allocGran,fileSize,granular⟩,bytes,(fillSuperblock bytes pointer).toSuperblock⟩ := by
  have checked : ¬bytesMatch bytes 0 matfileSig = false := by
    rw [header]
    exact Bool.noConfusion
  show (if fileSize = 0 then _ else if bytesMatch bytes 0 matfileSig = false then _ else _) = _
  rw [if_neg some_,if_neg checked,getSuperblock]
  cases findSuperblock bytes fileSize <;> rfl

theorem openFile_exact (filename : Text) (allocGran : Nat) (granular : 0 < allocGran) (fileSize : Nat) (bytes : FileBytes)
    (result : Except Failure MatFile) :
    openFile filename allocGran granular (.found fileSize bytes) = result ↔
      Opens allocGran granular fileSize bytes result := by
  constructor
  · rintro rfl
    by_cases empty : fileSize = 0
    · subst empty
      exact .null rfl
    cases header : bytesMatch bytes 0 matfileSig with
    | false =>
      show Opens _ _ _ _ (if fileSize = 0 then _ else if bytesMatch bytes 0 matfileSig = false then _ else _)
      rw [if_neg empty,if_pos header]
      exact .wrongFormat empty header
    | true =>
      rw [openFile_found empty header]
      cases search : findSuperblock bytes fileSize with
      | none => exact .noSuperblock empty header (findSuperblock_none.mp search)
      | some pointer =>
        obtain ⟨block,rfl,first⟩ := findSuperblock_found search
        exact .opened empty header first
  · intro opens
    cases opens with
    | null empty =>
      subst empty
      rfl
    | wrongFormat some_ other =>
      show (if fileSize = 0 then _ else if bytesMatch bytes 0 matfileSig = false then _ else _) = _
      rw [if_neg some_,if_pos other]
    | noSuperblock some_ header unsigned => rw [openFile_found some_ header,findSuperblock_none.mpr unsigned]
    | opened some_ header first =>
      rw [openFile_found some_ header,findSuperblock_first first]
      rfl

def signedBytes : FileBytes := fun a => if a < 512 then matfileSig.getD a 0 else formatSig.getD (a-512) 0

theorem openFile_signed : openFile (textOf "f.mat") 4096 page_granular (.found 1024 signedBytes) =
    .ok (openedAt 4096 1024 page_granular signedBytes 1) := by
  refine (openFile_exact (textOf "f.mat") 4096 page_granular 1024 signedBytes _).mpr
    (.opened (by decide) (by decide +kernel) ⟨by decide,?_,fun earlier before => ?_⟩)
  · unfold Signed
    decide +kernel
  · rw [Nat.lt_one_iff.mp before]
    unfold Signed
    decide +kernel

end Opening

end OpenFile
end GetMatVar
