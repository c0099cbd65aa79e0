import GetMatVar.Library.Logged
import GetMatVar.ReadMessage

namespace GetMatVar
namespace AttributeMessage
open Logged

-- A place in name that is written, and one in matlab_class with the size that is
-- allocated for it.
inductive Write where
  | name (place : Nat)
  | matlabClass (place allocated : Nat)
deriving DecidableEq,Repr

def Write.Inside : Write → Prop
  | .name place => place < maxNameLength
  | .matlabClass place allocated => place < allocated

-- strncpy into name, which holds zeros: behind the first NUL of the source the rest of
-- the count is filled with zeros.
def strncpy (bytes : FileBytes) (source : Nat) : Nat → Logged Write (Nat → UInt8)
  | 0 => pure fun _ => 0
  | count+1 => do
    let name ← strncpy bytes source count
    tell (.name count)
    pure (Function.update name count (if ∀ k < count, bytes (source+k) ≠ 0 then bytes (source+count) else 0))

def shownIn (name : Nat → UInt8) : Text := ((List.range maxNameLength).map name).takeWhile (· ≠ 0)

-- The size for the value and its NUL is a uint32_t.
def copyClass (name : Text) (attributeDataSize : Nat) : Logged Write Unit :=
  if name = textOf "MATLAB_class" then
    ⟨(List.range (attributeDataSize+1)).map fun k => .matlabClass k ((attributeDataSize+1)%2^32),some ()⟩
  else pure ()

-- The copies are made here; readAttributeMessage has what the object becomes.
def readAttributeMessageWrites (file : MatFile) (msgPointer : Nat) (object : MetaData) : Logged Write (Nat × MetaData) :=
  if file.byte msgPointer ≠ 1 then pure (1,object)
  else do
    let nameSize := file.number (msgPointer+2) 2
    let name ← strncpy file.bytes (msgPointer+8) nameSize
    copyClass (shownIn name) (file.number (msgPointer+8+roundUp8 nameSize+4) 4)
    lift (readAttributeMessage file msgPointer object)

section Copy
variable (bytes : FileBytes) (source : Nat)

def copied (count : Nat) : Nat → UInt8 := fun p =>
  if p < count ∧ ∀ k < p, bytes (source+k) ≠ 0 then bytes (source+p) else 0

theorem strncpy_result (count : Nat) : (strncpy bytes source count).result = some (copied bytes source count) := by
  induction count with
  | zero =>
    unfold copied
    simp [strncpy]
  | succ count ih =>
    simp only [strncpy,bind_result,ih,Option.bind_some,tell_result,pure_result]
    congr 1
    funext p
    unfold copied Function.update
    by_cases last : p = count
    · subst last
      simp
    · have before : p < count+1 ↔ p < count := by omega
      rw [dif_neg last]
      simp only [before]

theorem strncpy_only (good : Write → Prop) (count : Nat) :
    Only good (strncpy bytes source count) ↔ ∀ k < count, good (.name k) := by
  induction count with
  | zero => simp [strncpy]
  | succ count ih =>
    rw [strncpy,only_bind,ih,strncpy_result]
    simp only [only_tell_bind,only_pure,and_true,Option.some.injEq,forall_eq']
    exact Nat.forall_lt_succ_right.symm

theorem copyClass_only (bounded : size < 2^32) :
    Only Write.Inside (copyClass name size) ↔ (name = textOf "MATLAB_class" → size+1 < 2^32) := by
  unfold copyClass
  split
  · next isClass =>
    have places : Only Write.Inside (⟨(List.range (size+1)).map fun k => .matlabClass k ((size+1)%2^32),some ()⟩ :
        Logged Write Unit) ↔ ∀ k < size+1, k < (size+1)%2^32 := by
      simp [Only,Write.Inside]
    rw [places]
    constructor
    · intro fits _
      have first := fits 0 (Nat.succ_pos size)
      omega
    · intro fits k below
      rwa [Nat.mod_eq_of_lt (fits isClass)]
  · next other => exact ⟨fun _ isClass => absurd isClass other,fun _ => only_pure ()⟩

theorem copyClass_result (name : Text) (size : Nat) : (copyClass name size).result = some () := by
  unfold copyClass
  split <;> rfl

end Copy

theorem takeWhile_agree (agree : ∀ p < count, (∀ k < p, f k ≠ 0) → g p = f p) (zero : ∀ p, count ≤ p → g p = (0 : UInt8))
    (more : Nat) : ((List.range (count+more)).map g).takeWhile (· ≠ 0) = ((List.range count).map f).takeWhile (· ≠ 0) := by
  induction count generalizing f g with
  | zero =>
    cases more with
    | zero => rfl
    | succ more =>
      have first : g 0 = 0 := zero 0 (Nat.le_refl 0)
      rw [Nat.zero_add,List.range_succ_eq_map]
      simp [first]
  | succ count ih =>
    have first : g 0 = f 0 := agree 0 (Nat.succ_pos count) fun k below => absurd below (Nat.not_lt_zero k)
    rw [Nat.succ_add,List.range_succ_eq_map,List.range_succ_eq_map]
    simp only [List.map_cons,List.map_map,first]
    by_cases ended : f 0 = 0
    · simp [ended]
    · have rest := @ih (f ∘ Nat.succ) (g ∘ Nat.succ) (fun p below before => agree (p+1) (Nat.succ_lt_succ below) fun k less => by
        cases k with
        | zero => exact ended
        | succ k => exact before k (Nat.lt_of_succ_lt_succ less)) fun p far => zero (p+1) (Nat.succ_le_succ far)
      rw [List.takeWhile_cons_of_pos (by simpa using ended),List.takeWhile_cons_of_pos (by simpa using ended),rest]

theorem strncpy_shown (file : MatFile) (msgPointer : Nat) (short : nameSize ≤ maxNameLength) :
    shownIn (copied file.bytes (msgPointer+8) nameSize) = attributeName file msgPointer nameSize := by
  unfold shownIn attributeName
  rw [show maxNameLength = nameSize+(maxNameLength-nameSize) by omega]
  apply takeWhile_agree
  · intro p below before
    exact if_pos ⟨below,before⟩
  · intro p far
    exact if_neg fun both => absurd both.1 (Nat.not_lt.mpr far)

inductive Recognized where
  | matlabClass
  | matlabSparse
  | matlabEmpty
  | matlabObjectDecode
deriving DecidableEq,Repr

def Recognized.name : Recognized → Text
  | .matlabClass => textOf "MATLAB_class"
  | .matlabSparse => textOf "MATLAB_sparse"
  | .matlabEmpty => textOf "MATLAB_empty"
  | .matlabObjectDecode => textOf "MATLAB_object_decode"

section Format
variable (file : MatFile) (msgPointer : Nat)

-- The three parts of a message of version 1 are filled up to multiples of eight bytes.
def padded (size : Nat) : Nat := 8*((size+7)/8)

def valuePlace : Nat :=
  msgPointer+8+padded (file.number (msgPointer+2) 2)+padded (file.number (msgPointer+4) 2)+
    padded (file.number (msgPointer+6) 2)

def valueSize : Nat := file.number (msgPointer+8+padded (file.number (msgPointer+2) 2)+4) 4

def classText : Text :=
  ((List.range (valueSize file msgPointer)).map fun k => file.bytes (valuePlace file msgPointer+k)).takeWhile (· ≠ 0)

def hintClass (internalType : MxClassID) : ObjectDecodingHint → MxClassID
  | .functionHint => .functionClass
  | .objectHint => .objectClass
  | .opaqueHint => .opaqueClass
  | _ => internalType

-- What an attribute says of the object it belongs to.
def Recognized.effect (object : MetaData) : Recognized → MetaData
  | .matlabClass => {object with
      matlabClass:=some (classText file msgPointer)
      matlabInternalType:=selectMatlabClass (classText file msgPointer) object.matlabInternalType}
  | .matlabSparse => {object with
      matlabSparse:=true
      dims:=some [toIndex (file.number (valuePlace file msgPointer) 8),0]}
  | .matlabEmpty => {object with matlabEmpty:=true}
  | .matlabObjectDecode =>
    let hint := objectDecodingHintOf (file.number (valuePlace file msgPointer) 4)
    {object with matlabObjectDecode:=hint,matlabInternalType:=hintClass object.matlabInternalType hint}

-- The reader stays inside what it copies to and does what the name asks for, and
-- nothing for any other name.
structure ReadsAttribute (object : MetaData) : Prop where
  inside : Only Write.Inside (readAttributeMessageWrites file msgPointer object)
  acts : ∃ result, (readAttributeMessageWrites file msgPointer object).result = some (0,result) ∧
    (∀ which : Recognized, attributeName file msgPointer (file.number (msgPointer+2) 2) = which.name →
      result = which.effect file msgPointer object) ∧
    ((∀ which : Recognized, attributeName file msgPointer (file.number (msgPointer+2) 2) ≠ which.name) →
      result = object)

-- The sizes that the copies have room for.
def FitsBuffers : Prop :=
  file.number (msgPointer+2) 2 ≤ maxNameLength ∧
    (attributeName file msgPointer (file.number (msgPointer+2) 2) = Recognized.matlabClass.name →
      valueSize file msgPointer+1 < 2^32)

end Format

theorem roundUp8_padded (size : Nat) : roundUp8 size = padded size := by
  unfold roundUp8 padded
  split <;> omega

theorem name_injective {first second : Recognized} (same : first.name = second.name) : first = second := by
  cases first <;> cases second
  all_goals first | rfl | exact absurd same (by decide)

section Reader
variable {file : MatFile} {msgPointer : Nat} {object : MetaData}

theorem value_place : msgPointer+8+roundUp8 (file.number (msgPointer+2) 2)+roundUp8 (file.number (msgPointer+4) 2)+
    roundUp8 (file.number (msgPointer+6) 2) = valuePlace file msgPointer := by
  simp only [roundUp8_padded,valuePlace]

theorem readAttributeMessage_recognized (which : Recognized) (version : file.byte msgPointer = 1)
    (short : file.number (msgPointer+2) 2 ≤ maxNameLength)
    (name : attributeName file msgPointer (file.number (msgPointer+2) 2) = which.name) :
    readAttributeMessage file msgPointer object = some (0,which.effect file msgPointer object) := by
  have fits : ¬file.number (msgPointer+2) 2 > maxNameLength := Nat.not_lt.mpr short
  simp only [readAttributeMessage,version,ne_eq,not_true,if_false,if_neg fits,name,value_place]
  cases which with
  | matlabClass =>
    apply (if_pos rfl).trans
    rw [roundUp8_padded]
    rfl
  | matlabSparse =>
    apply (if_neg (by decide)).trans
    exact if_pos rfl
  | matlabEmpty =>
    apply (if_neg (by decide)).trans
    apply (if_neg (by decide)).trans
    exact if_pos rfl
  | matlabObjectDecode =>
    apply (if_neg (by decide)).trans
    apply (if_neg (by decide)).trans
    apply (if_neg (by decide)).trans
    exact if_pos rfl

theorem readAttributeMessage_other (version : file.byte msgPointer = 1)
    (short : file.number (msgPointer+2) 2 ≤ maxNameLength)
    (other : ∀ which : Recognized, attributeName file msgPointer (file.number (msgPointer+2) 2) ≠ which.name) :
    readAttributeMessage file msgPointer object = some (0,object) := by
  have fits : ¬file.number (msgPointer+2) 2 > maxNameLength := Nat.not_lt.mpr short
  simp only [readAttributeMessage,version,ne_eq,not_true,if_false,if_neg fits]
  apply (if_neg (other .matlabClass)).trans
  apply (if_neg (other .matlabSparse)).trans
  apply (if_neg (other .matlabEmpty)).trans
  exact if_neg (other .matlabObjectDecode)

theorem writes_only (version : file.byte msgPointer = 1) :
    Only Write.Inside (readAttributeMessageWrites file msgPointer object) ↔ FitsBuffers file msgPointer := by
  have bounded : valueSize file msgPointer < 2^32 := littleEndian_bound _ _ _
  unfold readAttributeMessageWrites FitsBuffers
  simp only [version,ne_eq,not_true,if_false,only_bind,strncpy_only,strncpy_result,Option.some.injEq,forall_eq',
    copyClass_result,only_lift,forall_const,and_true,roundUp8_padded]
  change (∀ k < _,k < maxNameLength) ∧ Only Write.Inside (copyClass _ (valueSize file msgPointer)) ↔ _
  rw [copyClass_only bounded]
  have inside : (∀ k < file.number (msgPointer+2) 2,k < maxNameLength) ↔ file.number (msgPointer+2) 2 ≤ maxNameLength :=
    ⟨fun inside => Nat.not_lt.mp fun long => absurd (inside _ long) (Nat.lt_irrefl _),
      fun short k below => Nat.lt_of_lt_of_le below short⟩
  rw [inside]
  exact and_congr_right fun short => by rw [strncpy_shown file msgPointer short]; rfl

theorem writes_result (version : file.byte msgPointer = 1) :
    (readAttributeMessageWrites file msgPointer object).result = readAttributeMessage file msgPointer object := by
  unfold readAttributeMessageWrites
  rw [if_neg (not_not.mpr version)]
  simp only [bind_result,strncpy_result,copyClass_result,Option.bind_some,lift_result]

end Reader

-- A message of version 1 is read as its name asks for exactly if there is room for what is copied.
theorem readAttributeMessage_exact (file : MatFile) (msgPointer : Nat) (object : MetaData)
    (version : file.byte msgPointer = 1) :
    ReadsAttribute file msgPointer object ↔ FitsBuffers file msgPointer := by
  constructor
  · exact fun reads => (writes_only version).mp reads.inside
  · intro fits
    have short := fits.1
    refine ⟨(writes_only version).mpr fits,?_⟩
    rw [writes_result version]
    by_cases known : ∃ which : Recognized,
        attributeName file msgPointer (file.number (msgPointer+2) 2) = which.name
    · obtain ⟨which,name⟩ := known
      refine ⟨_,readAttributeMessage_recognized which version short name,fun same also => ?_,fun other => ?_⟩
      · rw [name_injective (name.symm.trans also)]
      · exact absurd name (other which)
    · have other := not_exists.mp known
      exact ⟨object,readAttributeMessage_other version short other,fun same also => absurd also (other same),fun _ => rfl⟩

-- An attribute with the name MATLAB_empty.
def emptyFile : MatFile := wordFile [0x00080008000d0001,0x655f42414c54414d,0x7974706d,0,0] ⟨8,8,40,0,0,0⟩

theorem readAttributeMessage_empty : ReadsAttribute emptyFile 0 initializeObject.toMetaData ∧ emptyFile.number 2 2 = 13 := by
  have other : attributeName emptyFile 0 (emptyFile.number 2 2) ≠ Recognized.matlabClass.name := by decide +kernel
  exact ⟨(readAttributeMessage_exact emptyFile 0 _ (by decide)).mpr ⟨by decide,fun same => absurd same other⟩,by decide⟩

-- An attribute whose name takes 201 bytes.
def longNameFile : MatFile := wordFile [0x0000000000c90001] ⟨8,8,40,0,0,0⟩

theorem readAttributeMessage_long : ¬∀ (file : MatFile) (msgPointer : Nat) (object : MetaData),
    file.byte msgPointer = 1 → ReadsAttribute file msgPointer object := by
  intro reads
  have long := reads longNameFile 0 initializeObject.toMetaData (by decide)
  exact absurd ((writes_only (by decide)).mp long.inside).1 (by decide)

end AttributeMessage
end GetMatVar
