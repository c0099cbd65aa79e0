import GetMatVar.SelectWorkspace
import GetMatVar.LoadsEverything
import GetMatVar.MakeSubstructure
import GetMatVar.OpenFile

namespace GetMatVar

-- makeReturnStructure, the structure beside the objects whose data it took. code is
-- that of an error.
def makeReturnStructure (file : MatFile) (chunked : MetaData → Option (Nat × DataArrays)) (depth fuel : Nat)
    (variableNames : List Text) : Option (Except Nat (Heap × MxArray)) := do
  let (code,heap) ← getDataObjects file chunked depth fuel variableNames
  if code ≠ 0 then some (.error code)
  else do
    let object := heap.objects virtualSuperObject
    let fieldNames ← getFieldNames heap object
    let (_,superStructure) ← makeSubstructure heap fuel (mxCreateStructArray [1] fieldNames) object.numSubObjs
      (restartQueue object.subObjects).live .structClass
    some (.ok (heap,superStructure))

section Shown
variable (heap : Heap)

end Shown

namespace Workspace

-- Names that a struct can have for its fields, and some.
structure Fields (workspace : Workspace) : Prop where
  some_ : workspace.names ≠ []
  few : workspace.names.length < 2^16
  distinct : workspace.names.Nodup

end Workspace

section Values
variable {heap : Heap} {inside : Nat → Prop}

def Valued (heap : Heap) (obj : Nat) (value : MxArray) : Prop :=
  ∃ bound, ∀ fuel, bound ≤ fuel → valueOf heap (makeSubstructure heap fuel) obj = some (some value)

theorem Valued.unique (one : Valued heap obj value) (two : Valued heap obj other) : value = other := by
  obtain ⟨bound,valued⟩ := one
  obtain ⟨limit,again⟩ := two
  have first := valued (max bound limit) (Nat.le_max_left _ _)
  rw [again _ (Nat.le_max_right _ _)] at first
  cases first
  rfl

theorem Valued.shown (valued : Valued heap obj value) : setterOf (heap.objects obj).matlabInternalType ≠ .nothing := by
  intro nothing
  obtain ⟨bound,valued⟩ := valued
  have none_ := valued bound (Nat.le_refl _)
  unfold valueOf at none_
  dsimp only at none_
  rw [nothing] at none_
  cases none_

theorem fields_placed {objects : List Nat} {dims : List Int} {fieldNames : List Text} (room : 0 < mxElements dims)
    (some_ : objects ≠ []) (plain : ∀ obj ∈ objects, (heap.objects obj).isStructArray = false)
    (index : ∀ obj ∈ objects, (heap.objects obj).sCArrayIndex = 0)
    (named : objects.map (fun obj => (heap.objects obj).shortName) = fieldNames) (distinct : fieldNames.Nodup)
    (each : ∀ obj ∈ objects, ∃ value, Valued heap obj value) : ∃ bound array,
    (∀ fuel, bound ≤ fuel → makeSubstructure heap fuel (mxCreateStructArray dims fieldNames) objects.length objects
      .structClass = some (some array,array)) ∧ array.header = ⟨.structClass,false,false,dims,fieldNames,none⟩ ∧
    ∀ obj ∈ objects, ∀ value, Valued heap obj value → array.slots ⟨0,some (heap.objects obj).shortName⟩ = some value := by
  have slots : ∀ obj ∈ objects, slotOf .structClass (heap.objects obj) = ⟨0,some (heap.objects obj).shortName⟩ := by
    intro obj member
    unfold slotOf
    rw [index obj member]
    rfl
  have apart : Distinct heap .structClass objects := by
    intro obj member other also_ _ _ same
    rw [slots obj member,slots other also_] at same
    rw [← named] at distinct
    exact List.inj_on_of_nodup_map distinct member also_ (Option.some.inj (congrArg MxSlot.fieldName same))
  have some_array : Nonempty MxArray := ⟨mxCreateCellArray []⟩
  choose! value valued using each
  obtain ⟨bound,all⟩ := common_bound valued
  have same (fuel : Nat) (enough : bound ≤ fuel) (array : MxArray) : objects.foldlM
      (setObject heap (makeSubstructure heap fuel) .structClass) array =
      objects.foldlM (setObject heap (makeSubstructure heap bound) .structClass) array := by
    refine foldlM_same fun obj member middle => ?_
    rw [setObject_value (valued obj member).shown,setObject_value (valued obj member).shown,all fuel enough obj member,
      all bound (Nat.le_refl _) obj member]
  obtain ⟨array,set⟩ := @foldlM_total heap (makeSubstructure heap bound) objects (mxCreateStructArray dims fieldNames)
    .structClass rfl fun obj member _ => by
      rw [all bound (Nat.le_refl _) obj member,index obj member]
      exact ⟨rfl,Int.le_refl _,room⟩
  obtain ⟨header,placed,_⟩ := foldlM_placed rfl apart set
  refine ⟨bound+1,array,fun fuel enough => ?_,header,fun obj member found valuedHere => ?_⟩
  · obtain ⟨fuel,rfl⟩ : ∃ less, fuel = less+1 := ⟨fuel-1,by omega⟩
    obtain ⟨left,counted⟩ := Nat.exists_eq_succ_of_ne_zero fun none_ => some_ (List.length_eq_zero_iff.mp none_)
    rw [counted]
    exact (makeSubstructure_plain plain some_).mpr ⟨rfl,(same fuel (by omega) _).trans set⟩
  · obtain ⟨stored,here,slot⟩ := placed obj member valuedHere.shown
    rw [all bound (Nat.le_refl _) obj member] at here
    have accepted : Accepted .structClass (mxCreateStructArray dims fieldNames).header (heap.objects obj) := by
      intro _
      show (heap.objects obj).shortName ∈ fieldNames
      rw [← named]
      exact List.mem_map_of_mem member
    rw [if_pos accepted,slots obj member,← Option.some.inj here,(valued obj member).unique valuedHere] at slot
    exact slot

theorem Loaded.named (loaded : Loaded heap inside ptrs workspace) :
    ptrs.map (fun obj => (heap.objects obj).shortName) = workspace.names := by
  induction loaded with
  | nil => rfl
  | array _ named _ _ _ ih => rw [List.map_cons,named,ih,Workspace.names]
  | struct _ named _ _ _ _ _ _ _ ih => rw [List.map_cons,named,ih,Workspace.names]

theorem Loaded.plain (loaded : Loaded heap inside ptrs workspace) : ∀ obj ∈ ptrs, (heap.objects obj).isStructArray = false := by
  induction loaded with
  | nil => exact fun obj member => by cases member
  | array _ _ _ carries _ ih => exact List.forall_mem_cons.mpr ⟨carries.single,ih⟩
  | struct _ _ _ carries _ _ _ _ _ ih => exact List.forall_mem_cons.mpr ⟨carries.single,ih⟩

theorem Loaded.placed (loaded : Loaded heap inside ptrs workspace) (dims : List Int) (fields : workspace.Fields)
    (room : 0 < mxElements dims) (each : ∀ obj ∈ ptrs, ∃ value, Valued heap obj value) : ∃ bound array,
    (∀ fuel, bound ≤ fuel → makeSubstructure heap fuel (mxCreateStructArray dims workspace.names) ptrs.length ptrs .structClass =
      some (some array,array)) ∧ array.header = ⟨.structClass,false,false,dims,workspace.names,none⟩ ∧
    ∀ obj ∈ ptrs, ∀ value, Valued heap obj value → array.slots ⟨0,some (heap.objects obj).shortName⟩ = some value := by
  refine fields_placed room ?_ loaded.plain (fun obj member => loaded.index member) loaded.named fields.distinct each
  rintro rfl
  exact fields.some_ (List.length_eq_zero_iff.mp loaded.length.symm)

theorem Loaded.fieldNames (loaded : Loaded heap inside (heap.children obj) workspace) (few : workspace.names.length < 2^16)
    (counted : (heap.objects obj).numSubObjs = (heap.children obj).length) :
    getFieldNames heap (heap.objects obj) = some workspace.names := by
  have length := loaded.length
  unfold getFieldNames
  rw [counted,if_pos ⟨by omega,Nat.le_refl _⟩,← loaded.named]
  exact congrArg (fun objs => some (List.map _ objs)) List.take_length

end Values

-- How a call of getmatvar_ ends: with an error of its arguments, of opening the file
-- or of reading it, or with the struct.
inductive Ending where
  | stopped (stop : ReadInput.Stop)
  | failed (failure : OpenFile.Failure)
  | refused (code : Nat)
  | returned (heap : Heap) (superStructure : MxArray)

def slotText : ReadInput.Slot → Option Text
  | .name text => some text
  | _ => none

def variableNames (input : ReadInput.InputState) : Option (List Text) :=
  (input.fullVariableNames.take input.numVars).mapM slotText

section Program
variable (disk : Text → OpenFile.Opened) (allocGran : Nat) (granular : 0 < allocGran)
  (chunked : ReadInput.InputState → MatFile → MetaData → Option (Nat × DataArrays)) (depth fuel : Nat)

end Program

section Whole
variable {filename : ReadInput.MxArray} {args : List ReadInput.MxArray} {input : ReadInput.InputState}

end Whole

-- A user block with the signature, the superblock at 512, and the variables z, three
-- numbers in two compressed chunks, x, a double, and g, a struct with the field y of
-- two numbers.
def loadWords : List Nat :=
  [0x1000045455254,0,0,0,144,0,
   0x30001444f4e53,8,752,1,272,368,16,440,0,0,0,32,824,0,0,0,
   0x1000045455254,0,0,0,320,0,
   0x10001444f4e53,24,608,0,0,0,
   0x50414548,40,0,400,0,103,120,121,122,
   0x40001,152,0x180001,0x201,1,1,0x180003,0x8003f2011,0x34000b3400400000,1023,0x180008,0x4a00103,0x80000,0,
   0x30000c,0x80008000d0001,0x635f42414c54414d,0x7373616c,0x600000013,1,0x656c62756f64,
   0x40001,128,0x30000c,0x80008000d0001,0x635f42414c54414d,0x7373616c,0x500000013,1,0x38746e6975,
   0x80008,0x90700020003,0x100003,0x100000010,0x80000,0x180001,0x201,1,2,
   0x10001,56,0x30000c,0x80008000d0001,0x635f42414c54414d,0x7373616c,0x600000013,1,0x746375727473,
   0x50001,176,0x180001,0x201,1,3,0x100003,0x100000010,0x80000,
   0x30000c,0x80008000d0001,0x635f42414c54414d,0x7373616c,0x500000013,1,0x38746e6975,
   0x180008,0x3f8030203,0x200000001000000,0x1000000,0x18000b,0x101,0x1000000000001,9,
   0x2000145455254,0,0,13,0,0,0,1152,13,0,2,0,1168,0,0,4,0,
   0x7fffd0002010178,0x1100190009,0x4fffd0002010178,0x5000a0000,0x3ff0000000000000]

def loadSuperblock : FillSuperblock.StoredSuperblock where
  sizeOfOffsets := 8
  sizeOfLengths := 8
  leafNodeK := 4
  internalNodeK := 16
  baseAddress := 512
  treeAddress := 96
  heapAddress := 368
  offsets := ⟨Nat.le_of_ble_eq_true rfl,Nat.le_of_ble_eq_true rfl⟩
  lengths := ⟨Nat.le_of_ble_eq_true rfl,Nat.le_of_ble_eq_true rfl⟩
  leafFits := Nat.le_of_ble_eq_true rfl
  internalFits := Nat.le_of_ble_eq_true rfl
  baseFits := Nat.le_of_ble_eq_true rfl
  treeFits := Nat.le_of_ble_eq_true rfl
  heapFits := Nat.le_of_ble_eq_true rfl

def loadBytes : FileBytes := loadSuperblock.laid 512 fun a =>
  if a < 608 then OpenFile.matfileSig.getD a 0 else UInt8.ofNat (loadWords.getD ((a-608)/8) 0/256^(a%8))

def loadFile : MatFile := ⟨⟨4096,1704,page_granular⟩,loadBytes,loadSuperblock.decoded.toSuperblock⟩

section Selections
variable {heap : Heap} {workspace value : Workspace} {values : List Workspace} {paths : List (List Text)}

end Selections

end GetMatVar
