import GetMatVar.MexSet
import GetMatVar.FillFrames

namespace GetMatVar

def isContainer (classID : MxClassID) : Bool := classID == .cellClass || classID == .structClass

def ownDims (object : Data) : List Int := (object.dims.getD []).take object.numDims

def slotOf (superStructureType : MxClassID) (object : Data) : MxSlot :=
  ⟨object.sCArrayIndex,if superStructureType = .cellClass then none else some object.shortName⟩

section Statement
variable (heap : Heap)

-- The objects that belong into the slots of an array, where the field of a struct
-- array stands for its elements.
def entries (objects : List Nat) : List Nat :=
  objects.flatMap fun obj => if (heap.objects obj).isStructArray then heap.children obj else [obj]

def Displayed (objects : List Nat) (sub : Nat) : Prop :=
  sub ∈ entries heap objects ∧ setterOf (heap.objects sub).matlabInternalType ≠ .nothing

-- The class, dimensions and data of the array that stands for an object. A sparse
-- matrix has the columns that its jc starts.
def OwnHeader (obj : Nat) (header : MxHeader) : Prop :=
  if (heap.objects obj).matlabInternalType = .sparseClass then
    header.classID = (heap.objects obj).matlabSparseType ∧ header.isSparse = true ∧
      header.data = findSubObjectByShortName heap obj (textOf "data") ∧
      ∃ jc rows starts, findSubObjectByShortName heap obj (textOf "jc") = some jc ∧
        firstDim (heap.objects obj) = some rows ∧ firstDim (heap.objects jc) = some starts ∧ header.dims = [rows,starts-1]
  else
    header.classID = (heap.objects obj).matlabInternalType ∧ header.isSparse = false ∧
      header.dims = ownDims (heap.objects obj) ∧
      header.data = if isContainer (heap.objects obj).matlabInternalType then none else some obj

def Holds (obj sub : Nat) : Prop :=
  isContainer (heap.objects obj).matlabInternalType = true ∧ Displayed heap (heap.children obj) sub

inductive Mirrors : Nat → MxArray → Prop where
  | node (own : OwnHeader heap obj array.header) (values : Nat → MxArray)
      (set : ∀ sub, Holds heap obj sub →
        array.slots (slotOf (heap.objects obj).matlabInternalType (heap.objects sub)) = some (values sub))
      (below : ∀ sub, Holds heap obj sub → Mirrors sub (values sub))
      (nothingElse : ∀ slot value, array.slots slot = some value →
        ∃ sub, Holds heap obj sub ∧ slotOf (heap.objects obj).matlabInternalType (heap.objects sub) = slot) :
      Mirrors obj array

def Mirrored (superStructureType : MxClassID) (objects : List Nat) (array : MxArray) : Prop :=
  (∀ sub, Displayed heap objects sub → ∃ value,
    array.slots (slotOf superStructureType (heap.objects sub)) = some value ∧ Mirrors heap sub value) ∧
  ∀ slot value, array.slots slot = some value → ∃ sub, Displayed heap objects sub ∧
    slotOf superStructureType (heap.objects sub) = slot

-- Filled sub_objects: each has a slot of its own, inside the array.
structure Siblings (superStructureType : MxClassID) (dims : List Int) (objects : List Nat) : Prop where
  counted : ∀ obj ∈ objects, (heap.objects obj).isStructArray = true →
    (heap.objects obj).numSubObjs = (heap.children obj).length%2^32
  inside : ∀ sub, Displayed heap objects sub →
    0 ≤ (heap.objects sub).sCArrayIndex ∧ (heap.objects sub).sCArrayIndex < mxElements dims
  distinct : ∀ sub other, Displayed heap objects sub → Displayed heap objects other →
    slotOf superStructureType (heap.objects sub) = slotOf superStructureType (heap.objects other) → sub = other

-- The parts of a filled sparse object.
structure SparseParts (obj : Nat) : Prop where
  type : (heap.objects obj).matlabSparseType = .doubleClass ∨ (heap.objects obj).matlabSparseType = .logicalClass
  columns : ∃ jc rows starts, findSubObjectByShortName heap obj (textOf "jc") = some jc ∧
    firstDim (heap.objects obj) = some rows ∧ firstDim (heap.objects jc) = some starts ∧ 1 ≤ starts ∧
    (heap.objects jc).numElems ≤ starts
  data : ∀ data, findSubObjectByShortName heap obj (textOf "data") = some data →
    (∃ ir, findSubObjectByShortName heap obj (textOf "ir") = some ir) ∧
      ((heap.objects obj).isComplex = true → isNumeric (heap.objects data).matlabInternalType = true)

structure Formed (obj : Nat) : Prop where
  dims : (heap.objects obj).numDims ≤ ((heap.objects obj).dims.getD []).length
  sparse : (heap.objects obj).matlabInternalType = .sparseClass → SparseParts heap obj
  counted : (heap.objects obj).numSubObjs = (heap.children obj).length%2^32
  whole : heap.Whole obj
  siblings : isContainer (heap.objects obj).matlabInternalType = true →
    Siblings heap (heap.objects obj).matlabInternalType (ownDims (heap.objects obj)) (heap.children obj)

inductive FilledTree : Nat → Prop where
  | node (formed : Formed heap obj) (below : ∀ sub, Holds heap obj sub → FilledTree sub) : FilledTree obj

-- Of the sub_objects of a struct all are fields of a struct array or none, and
-- nowhere else is there one.
def Uniform (superStructureType : MxClassID) (objects : List Nat) : Prop :=
  (∀ obj ∈ objects, (heap.objects obj).isStructArray = false) ∨
  superStructureType = .structClass ∧ ∀ obj ∈ objects, (heap.objects obj).isStructArray = true ∧
    ∀ sub ∈ heap.children obj, (heap.objects sub).isStructArray = false

inductive Regular : Nat → Prop where
  | node (uniform : isContainer (heap.objects obj).matlabInternalType = true →
        Uniform heap (heap.objects obj).matlabInternalType (heap.children obj))
      (below : ∀ sub, Holds heap obj sub → Regular sub) : Regular obj

-- Those that are reached: a field of a struct array that counts no sub_objects is
-- passed over.
def visited (objects : List Nat) : List Nat :=
  objects.flatMap fun obj =>
    if (heap.objects obj).isStructArray then
      if (heap.objects obj).numSubObjs = 0 then [] else heap.children obj
    else [obj]

-- What makeSubstructure needs to find of the objects it is given: some, with fields
-- for all of them.
structure Passes (superStructureType : MxClassID) (fieldNames : List Text) (numElems : Nat) (objects : List Nat) : Prop where
  nonzero : numElems ≠ 0
  named : superStructureType = .structClass → ∀ sub, Displayed heap objects sub → (heap.objects sub).shortName ∈ fieldNames
  reached : ∀ sub, Displayed heap objects sub → sub ∈ visited heap objects

-- The fields that the counter of getFieldNames reaches.
def fieldNamesOf (object : Data) : List Text :=
  (object.subObjects.live.take object.numSubObjs).map fun obj => (heap.objects obj).shortName

inductive Sound : Nat → Prop where
  | node (complex : isNumeric (heap.objects obj).matlabInternalType = true → (heap.objects obj).isComplex = true →
        (heap.objects obj).numElems < 2^32)
      (sparse : (heap.objects obj).matlabInternalType = .sparseClass → (heap.objects obj).isComplex = true →
        ∀ data, findSubObjectByShortName heap obj (textOf "data") = some data → (heap.objects data).numElems < 2^32)
      (fields : (heap.objects obj).matlabInternalType = .structClass → (heap.objects obj).numSubObjs < 2^16)
      (passes : isContainer (heap.objects obj).matlabInternalType = true →
        Passes heap (heap.objects obj).matlabInternalType (fieldNamesOf heap (heap.objects obj)) (heap.objects obj).numSubObjs
          (heap.children obj))
      (below : ∀ sub, Holds heap obj sub → Sound sub) : Sound obj

end Statement

section Loop
variable {heap : Heap} {sub : MxArray → Nat → List Nat → MxClassID → Option (Option MxArray × MxArray)}
  {objects : List Nat} {array after : MxArray}

def valueOf (heap : Heap) (sub : MxArray → Nat → List Nat → MxClassID → Option (Option MxArray × MxArray)) (obj : Nat) :
    Option (Option MxArray) :=
  let object := heap.objects obj
  match setterOf object.matlabInternalType with
  | .numeric => do
    let dims ← makeObjDims object
    let _ ← splitImaginaryData object object
    some (some (.array ⟨object.matlabInternalType,false,object.isComplex,dims,[],some obj⟩ fun _ => none))
  | .sparse => do
    let header ← sparseHeader heap obj
    let _ ← sparseData heap obj header.data
    some (some (.array header fun _ => none))
  | .logical => do
    let dims ← makeObjDims object
    some (some (.array ⟨.logicalClass,false,false,dims,[],some obj⟩ fun _ => none))
  | .char => do
    let dims ← makeObjDims object
    some (some (.array ⟨.charClass,false,false,dims,[],some obj⟩ fun _ => none))
  | .cell => do
    let dims ← makeObjDims object
    let (value,_) ← sub (mxCreateCellArray dims) object.numSubObjs object.subObjects.live .cellClass
    some value
  | .struct => do
    let dims ← makeObjDims object
    let fieldNames ← getFieldNames heap object
    let (value,_) ← sub (mxCreateStructArray dims fieldNames) object.numSubObjs (restartQueue object.subObjects).live
      .structClass
    some value
  | .nothing => none

theorem setObject_value (shown : setterOf (heap.objects obj).matlabInternalType ≠ .nothing) :
    setObject heap sub superStructureType returnStructure obj =
      (valueOf heap sub obj).bind (setIn superStructureType returnStructure (heap.objects obj)) := by
  unfold setObject valueOf
  dsimp only
  cases setter : setterOf (heap.objects obj).matlabInternalType with
  | nothing => exact absurd setter shown
  | numeric => simp only [setNumericPtr,Option.bind_eq_bind,Option.bind_assoc,Option.bind_some]
  | sparse => simp only [setSpsPtr,Option.bind_eq_bind,Option.bind_assoc,Option.bind_some]
  | logical => simp only [setLogicPtr,setRealPtr,Option.bind_eq_bind,Option.bind_assoc,Option.bind_some]
  | char => simp only [setCharPtr,setRealPtr,Option.bind_eq_bind,Option.bind_assoc,Option.bind_some]
  | cell => simp only [setCellPtr,Option.bind_eq_bind,Option.bind_assoc,Option.bind_some]
  | struct => simp only [setStructPtr,Option.bind_eq_bind,Option.bind_assoc,Option.bind_some]

def Accepted (superStructureType : MxClassID) (header : MxHeader) (object : Data) : Prop :=
  superStructureType = .structClass → object.shortName ∈ header.fieldNames

instance (superStructureType : MxClassID) (header : MxHeader) (object : Data) :
    Decidable (Accepted superStructureType header object) := inferInstanceAs (Decidable (_ → _))

theorem setIn_exact (container : isContainer superStructureType = true) :
    setIn superStructureType returnStructure object value = some after ↔
      (0 ≤ object.sCArrayIndex ∧ object.sCArrayIndex < mxElements returnStructure.header.dims) ∧
      after = if Accepted superStructureType returnStructure.header object then
        returnStructure.write (slotOf superStructureType object) value else returnStructure := by
  cases superStructureType with
  | structClass =>
    unfold setIn mxSetField
    by_cases inside : 0 ≤ object.sCArrayIndex ∧ object.sCArrayIndex < mxElements returnStructure.header.dims
    · simp [inside,Accepted,slotOf,eq_comm]
    · simp [inside]
  | cellClass =>
    unfold setIn mxSetCell
    by_cases inside : 0 ≤ object.sCArrayIndex ∧ object.sCArrayIndex < mxElements returnStructure.header.dims
    · simp [inside,Accepted,slotOf,eq_comm]
    · simp [inside]
  | _ => cases container

-- What the loop over the objects leaves in their slots.
structure Placed (heap : Heap) (sub : MxArray → Nat → List Nat → MxClassID → Option (Option MxArray × MxArray))
    (superStructureType : MxClassID) (array : MxArray) (objects : List Nat) (after : MxArray) : Prop where
  header : after.header = array.header
  placed : ∀ obj ∈ objects, setterOf (heap.objects obj).matlabInternalType ≠ .nothing → ∃ value,
    valueOf heap sub obj = some value ∧ after.slots (slotOf superStructureType (heap.objects obj)) =
      if Accepted superStructureType array.header (heap.objects obj) then value
      else array.slots (slotOf superStructureType (heap.objects obj))
  rest : ∀ slot, (∀ obj ∈ objects, setterOf (heap.objects obj).matlabInternalType ≠ .nothing →
    slotOf superStructureType (heap.objects obj) ≠ slot) → after.slots slot = array.slots slot

def Distinct (heap : Heap) (superStructureType : MxClassID) (objects : List Nat) : Prop :=
  ∀ obj ∈ objects, ∀ other ∈ objects, setterOf (heap.objects obj).matlabInternalType ≠ .nothing →
    setterOf (heap.objects other).matlabInternalType ≠ .nothing →
    slotOf superStructureType (heap.objects obj) = slotOf superStructureType (heap.objects other) → obj = other

theorem foldlM_placed (container : isContainer superStructureType = true) (distinct : Distinct heap superStructureType objects)
    (ran : objects.foldlM (setObject heap sub superStructureType) array = some after) :
    Placed heap sub superStructureType array objects after := by
  induction objects generalizing array with
  | nil =>
    cases ran
    exact ⟨rfl,fun obj member => (by cases member),fun _ _ => rfl⟩
  | cons obj objects ih =>
    rw [List.foldlM_cons] at ran
    obtain ⟨middle,first,later⟩ := Option.bind_eq_some_iff.mp ran
    have apart : Distinct heap superStructureType objects := fun one listed other also_ =>
      distinct one (List.mem_cons_of_mem _ listed) other (List.mem_cons_of_mem _ also_)
    obtain ⟨header,placed,rest⟩ := ih apart later
    by_cases shown : setterOf (heap.objects obj).matlabInternalType = .nothing
    · -- Nothing is set for an object without a setter.
      have same : middle = array := by
        unfold setObject at first
        rw [shown] at first
        exact (Option.some.inj first).symm
      rw [same] at header placed rest
      refine ⟨header,fun one listed visible => ?_,fun slot free => ?_⟩
      · rcases List.mem_cons.mp listed with rfl | listed
        · exact absurd shown visible
        · exact placed one listed visible
      · exact rest slot fun one listed => free one (List.mem_cons_of_mem _ listed)
    · rw [setObject_value shown] at first
      obtain ⟨value,valued,set⟩ := Option.bind_eq_some_iff.mp first
      obtain ⟨_,same⟩ := (setIn_exact container).mp set
      have kept : middle.header = array.header := by
        rw [same]
        split <;> rfl
      have slots : ∀ slot, slot ≠ slotOf superStructureType (heap.objects obj) → middle.slots slot = array.slots slot := by
        intro slot different
        rw [same]
        split
        · exact Function.update_of_ne different _ _
        · rfl
      have here : middle.slots (slotOf superStructureType (heap.objects obj)) =
          if Accepted superStructureType array.header (heap.objects obj) then value
          else array.slots (slotOf superStructureType (heap.objects obj)) := by
        rw [same]
        split
        · exact Function.update_self _ _ _
        · rfl
      refine ⟨header.trans kept,fun one listed visible => ?_,fun slot free => ?_⟩
      · by_cases again : one ∈ objects
        · obtain ⟨found,valuedAgain,set⟩ := placed one again visible
          refine ⟨found,valuedAgain,set.trans ?_⟩
          rw [kept]
          split
          · rfl
          · rename_i refused
            by_cases atObj : one = obj
            · subst atObj
              rw [here,if_neg refused]
            · exact slots _ fun equal => atObj (distinct one listed obj List.mem_cons_self visible shown equal)
        · obtain rfl : one = obj := (List.mem_cons.mp listed).resolve_right again
          refine ⟨value,valued,?_⟩
          rw [rest _ fun other member otherVisible equal => again
            (distinct other (List.mem_cons_of_mem _ member) one listed otherVisible shown equal ▸ member)]
          exact here
      · rw [rest slot fun one listed => free one (List.mem_cons_of_mem _ listed)]
        exact slots slot (Ne.symm (free obj List.mem_cons_self shown))

-- The loop gets through when every object has a value and a place inside the array.
theorem foldlM_total (container : isContainer superStructureType = true)
    (valued : ∀ obj ∈ objects, setterOf (heap.objects obj).matlabInternalType ≠ .nothing →
      (valueOf heap sub obj).isSome = true ∧ 0 ≤ (heap.objects obj).sCArrayIndex ∧
      (heap.objects obj).sCArrayIndex < mxElements array.header.dims) :
    ∃ after, objects.foldlM (setObject heap sub superStructureType) array = some after := by
  induction objects generalizing array with
  | nil => exact ⟨array,rfl⟩
  | cons obj objects ih =>
    have step : ∃ middle, setObject heap sub superStructureType array obj = some middle ∧ middle.header = array.header := by
      by_cases shown : setterOf (heap.objects obj).matlabInternalType = .nothing
      · refine ⟨array,?_,rfl⟩
        unfold setObject
        rw [shown]
      · obtain ⟨some_,inside⟩ := valued obj List.mem_cons_self shown
        obtain ⟨value,found⟩ := Option.isSome_iff_exists.mp some_
        refine ⟨if Accepted superStructureType array.header (heap.objects obj) then
          array.write (slotOf superStructureType (heap.objects obj)) value else array,?_,?_⟩
        · rw [setObject_value shown,found]
          exact (setIn_exact container).mpr ⟨inside,rfl⟩
        · split <;> rfl
    obtain ⟨middle,first,header⟩ := step
    obtain ⟨after,later⟩ := ih fun other listed => by
      rw [header]
      exact valued other (List.mem_cons_of_mem _ listed)
    refine ⟨after,?_⟩
    rw [List.foldlM_cons]
    exact Option.bind_eq_some_iff.mpr ⟨middle,first,later⟩

end Loop

section Call
variable {heap : Heap} {objects : List Nat} {array after left : MxArray}

theorem visited_entries (member : obj ∈ visited heap objects) : obj ∈ entries heap objects := by
  obtain ⟨top,listed,inside⟩ := List.mem_flatMap.mp member
  refine List.mem_flatMap.mpr ⟨top,listed,?_⟩
  split at inside
  · rename_i field
    rw [if_pos field]
    split at inside
    · cases inside
    · exact inside
  · rename_i plain
    rw [if_neg plain]
    exact inside

theorem visited_plain (plain : ∀ obj ∈ objects, (heap.objects obj).isStructArray = false) : visited heap objects = objects := by
  induction objects with
  | nil => rfl
  | cons obj objects ih =>
    have rest := ih fun other listed => plain other (List.mem_cons_of_mem _ listed)
    unfold visited at rest ⊢
    rw [List.flatMap_cons,plain obj List.mem_cons_self,rest]
    rfl

theorem makeSubstructure_plain (plain : ∀ obj ∈ objects, (heap.objects obj).isStructArray = false) (some_ : objects ≠ []) :
    makeSubstructure heap (fuel+1) array (numElems+1) objects superStructureType = some (result,left) ↔
      result = some left ∧ objects.foldlM (setObject heap (makeSubstructure heap fuel) superStructureType) array = some left := by
  obtain ⟨first,rest,rfl⟩ := List.exists_cons_of_ne_nil some_
  rw [makeSubstructure,if_neg (Nat.succ_ne_zero _)]
  simp only [List.head?_cons,Option.bind_eq_bind,Option.bind_some,plain first List.mem_cons_self,Bool.false_eq_true,if_false]
  constructor
  · intro ran
    obtain ⟨after,set,same⟩ := Option.bind_eq_some_iff.mp ran
    cases same
    exact ⟨rfl,set⟩
  · rintro ⟨rfl,ran⟩
    exact Option.bind_eq_some_iff.mpr ⟨left,ran,rfl⟩

theorem foldlM_fields (fields : ∀ obj ∈ objects, (heap.objects obj).isStructArray = true ∧
      ∀ sub ∈ heap.children obj, (heap.objects sub).isStructArray = false)
    (counted : ∀ obj ∈ objects, (heap.objects obj).numSubObjs = (heap.children obj).length%2^32) :
    objects.foldlM (fun returnStructure obj => do
      let (_,returnStructure) ← makeSubstructure heap (fuel+1) returnStructure (heap.objects obj).numSubObjs
        (heap.children obj) .structClass
      some returnStructure) array =
    (visited heap objects).foldlM (setObject heap (makeSubstructure heap fuel) .structClass) array := by
  induction objects generalizing array with
  | nil => rfl
  | cons obj objects ih =>
    obtain ⟨field,plain⟩ := fields obj List.mem_cons_self
    have rest (middle : MxArray) := @ih middle (fun other listed => fields other (List.mem_cons_of_mem _ listed))
      (fun other listed => counted other (List.mem_cons_of_mem _ listed))
    unfold visited at rest ⊢
    rw [List.flatMap_cons,List.foldlM_append,List.foldlM_cons,if_pos field]
    have count := counted obj List.mem_cons_self
    have here : (makeSubstructure heap (fuel+1) array (heap.objects obj).numSubObjs (heap.children obj) .structClass).bind
        (fun made => some made.2) = (if (heap.objects obj).numSubObjs = 0 then [] else heap.children obj).foldlM
          (setObject heap (makeSubstructure heap fuel) .structClass) array := by
      cases numElems : (heap.objects obj).numSubObjs with
      | zero =>
        rw [makeSubstructure,if_pos rfl,if_pos rfl]
        rfl
      | succ numElems =>
        have some_ : heap.children obj ≠ [] := by
          intro empty
          rw [empty,numElems] at count
          cases count
        rw [if_neg (Nat.succ_ne_zero _)]
        refine Option.ext fun after => ?_
        rw [Option.bind_eq_some_iff]
        constructor
        · rintro ⟨⟨result,left⟩,ran,same⟩
          cases same
          exact ((makeSubstructure_plain plain some_).mp ran).2
        · intro ran
          exact ⟨(some after,after),(makeSubstructure_plain plain some_).mpr ⟨rfl,ran⟩,rfl⟩
    have step : (do
        let (_,returnStructure) ← makeSubstructure heap (fuel+1) array (heap.objects obj).numSubObjs
          (heap.children obj) .structClass
        some returnStructure) = (if (heap.objects obj).numSubObjs = 0 then [] else heap.children obj).foldlM
          (setObject heap (makeSubstructure heap fuel) .structClass) array := here
    rw [step]
    exact congrArg _ (funext rest)

theorem makeSubstructure_ran (uniform : Uniform heap superStructureType objects)
    (counted : ∀ obj ∈ objects, (heap.objects obj).isStructArray = true →
      (heap.objects obj).numSubObjs = (heap.children obj).length%2^32)
    (ran : makeSubstructure heap fuel array numElems objects superStructureType = some (some after,left)) :
    numElems ≠ 0 ∧ ∃ less, (visited heap objects).foldlM (setObject heap (makeSubstructure heap less) superStructureType)
      array = some after := by
  cases fuel with
  | zero => cases ran
  | succ fuel =>
    cases numElems with
    | zero =>
      rw [makeSubstructure,if_pos rfl] at ran
      cases ran
    | succ numElems =>
      refine ⟨Nat.succ_ne_zero _,?_⟩
      have some_ : objects ≠ [] := by
        rintro rfl
        cases ran
      rcases uniform with plain | ⟨rfl,fields⟩
      · obtain ⟨same,set⟩ := (makeSubstructure_plain plain some_).mp ran
        cases same
        exact ⟨fuel,by rw [visited_plain plain]; exact set⟩
      · obtain ⟨first,rest,rfl⟩ := List.exists_cons_of_ne_nil some_
        rw [makeSubstructure,if_neg (Nat.succ_ne_zero _)] at ran
        simp only [List.head?_cons,Option.bind_eq_bind,Option.bind_some,(fields first List.mem_cons_self).1,if_true] at ran
        obtain ⟨made,set,same⟩ := Option.bind_eq_some_iff.mp ran
        cases same
        cases fuel with
        | zero => cases set
        | succ fuel =>
          refine ⟨fuel,?_⟩
          rw [← foldlM_fields fields fun obj listed => counted obj listed (fields obj listed).1]
          exact set

theorem makeSubstructure_runs (uniform : Uniform heap superStructureType objects)
    (counted : ∀ obj ∈ objects, (heap.objects obj).isStructArray = true →
      (heap.objects obj).numSubObjs = (heap.children obj).length%2^32) (nonzero : numElems ≠ 0) (some_ : objects ≠ []) (fuel : Nat) :
    ∃ less, fuel ≤ less ∧ ∀ after,
      (visited heap objects).foldlM (setObject heap (makeSubstructure heap less) superStructureType) array = some after →
      makeSubstructure heap (fuel+2) array numElems objects superStructureType = some (some after,after) := by
  obtain ⟨numElems,rfl⟩ := Nat.exists_eq_succ_of_ne_zero nonzero
  rcases uniform with plain | ⟨rfl,fields⟩
  · refine ⟨fuel+1,Nat.le_succ _,fun after set => ?_⟩
    rw [visited_plain plain] at set
    exact (makeSubstructure_plain plain some_).mpr ⟨rfl,set⟩
  · refine ⟨fuel,Nat.le_refl _,fun after set => ?_⟩
    rw [← foldlM_fields fields fun obj listed => counted obj listed (fields obj listed).1] at set
    obtain ⟨first,rest,rfl⟩ := List.exists_cons_of_ne_nil some_
    rw [makeSubstructure,if_neg (Nat.succ_ne_zero _)]
    simp only [List.head?_cons,Option.bind_eq_bind,Option.bind_some,(fields first List.mem_cons_self).1,if_true]
    exact Option.bind_eq_some_iff.mpr ⟨after,set,rfl⟩

theorem common_bound {P : Nat → Nat → Prop} (each : ∀ obj ∈ objects, ∃ bound, ∀ fuel, bound ≤ fuel → P obj fuel) :
    ∃ bound, ∀ fuel, bound ≤ fuel → ∀ obj ∈ objects, P obj fuel := by
  induction objects with
  | nil => exact ⟨0,fun _ _ obj member => (by cases member)⟩
  | cons obj objects ih =>
    obtain ⟨here,first⟩ := each obj List.mem_cons_self
    obtain ⟨later,rest⟩ := ih fun other listed => each other (List.mem_cons_of_mem _ listed)
    refine ⟨max here later,fun fuel enough other listed => ?_⟩
    rcases List.mem_cons.mp listed with rfl | listed
    · exact first fuel (by omega)
    · exact rest fuel (by omega) other listed

theorem foldlM_same {step other : MxArray → Nat → Option MxArray}
    (same : ∀ obj ∈ objects, ∀ array, step array obj = other array obj) :
    objects.foldlM step array = objects.foldlM other array := by
  induction objects generalizing array with
  | nil => rfl
  | cons obj objects ih =>
    rw [List.foldlM_cons,List.foldlM_cons,same obj List.mem_cons_self]
    exact congrArg _ (funext fun middle => ih fun one listed => same one (List.mem_cons_of_mem _ listed))

theorem Siblings.apart (siblings : Siblings heap superStructureType dims objects) :
    Distinct heap superStructureType (visited heap objects) := fun one listed other also_ visible otherVisible =>
  siblings.distinct one other ⟨visited_entries listed,visible⟩ ⟨visited_entries also_,otherVisible⟩

theorem call_mirrored (container : isContainer superStructureType = true) (uniform : Uniform heap superStructureType objects)
    (count : numElems = objects.length%2^32) (siblings : Siblings heap superStructureType dims objects)
    (passes : Passes heap superStructureType fieldNames numElems objects)
    (values : ∀ sub, Displayed heap objects sub → ∃ bound value,
      (∀ fuel, bound ≤ fuel → valueOf heap (makeSubstructure heap fuel) sub = some (some value)) ∧ Mirrors heap sub value) :
    ∃ bound array, (∀ fuel, bound ≤ fuel → makeSubstructure heap fuel (emptyArray superStructureType dims fieldNames) numElems
        objects superStructureType = some (some array,array)) ∧
      array.header = ⟨superStructureType,false,false,dims,fieldNames,none⟩ ∧ Mirrored heap superStructureType objects array := by
  have found (sub : Nat) : ∃ value, Displayed heap objects sub →
      (∃ bound, ∀ fuel, bound ≤ fuel → valueOf heap (makeSubstructure heap fuel) sub = some (some value)) ∧
      Mirrors heap sub value := by
    by_cases shown : Displayed heap objects sub
    · obtain ⟨bound,value,valued,mirrors⟩ := values sub shown
      exact ⟨value,fun _ => ⟨⟨bound,valued⟩,mirrors⟩⟩
    · exact ⟨mxCreateCellArray [],fun visible => absurd visible shown⟩
  choose value valued using found
  obtain ⟨bound,all⟩ := @common_bound (visited heap objects)
    (fun sub fuel => setterOf (heap.objects sub).matlabInternalType ≠ .nothing →
      valueOf heap (makeSubstructure heap fuel) sub = some (some (value sub))) (fun sub listed => by
    by_cases visible : setterOf (heap.objects sub).matlabInternalType = .nothing
    · exact ⟨0,fun _ _ shown => absurd visible shown⟩
    · obtain ⟨⟨bound,valued⟩,_⟩ := valued sub ⟨visited_entries listed,visible⟩
      exact ⟨bound,fun fuel enough _ => valued fuel enough⟩)
  obtain ⟨array,set⟩ := @foldlM_total heap (makeSubstructure heap bound) (visited heap objects)
    (emptyArray superStructureType dims fieldNames) superStructureType container fun sub listed visible => by
      rw [all bound (Nat.le_refl _) sub listed visible]
      exact ⟨rfl,siblings.inside sub ⟨visited_entries listed,visible⟩⟩
  have same (fuel : Nat) (enough : bound ≤ fuel) : (visited heap objects).foldlM
      (setObject heap (makeSubstructure heap fuel) superStructureType) (emptyArray superStructureType dims fieldNames) =
      some array := by
    rw [← set]
    refine foldlM_same fun sub listed middle => ?_
    by_cases visible : setterOf (heap.objects sub).matlabInternalType = .nothing
    · unfold setObject
      rw [visible]
    · rw [setObject_value visible,setObject_value visible,all fuel enough sub listed visible,
        all bound (Nat.le_refl _) sub listed visible]
  obtain ⟨header,placed,rest⟩ := foldlM_placed container siblings.apart set
  refine ⟨bound+2,array,fun fuel enough => ?_,header,fun sub shown => ?_,fun slot stored filled => ?_⟩
  · have some_ : objects ≠ [] := by
      rintro rfl
      exact passes.nonzero count
    obtain ⟨less,large,runs⟩ := @makeSubstructure_runs heap objects (emptyArray superStructureType dims fieldNames)
      superStructureType numElems uniform siblings.counted passes.nonzero some_ (fuel-2)
    rw [show fuel = fuel-2+2 by omega]
    exact runs array (same less (by omega))
  · have listed := passes.reached sub shown
    obtain ⟨stored,valuedHere,set⟩ := placed sub listed shown.2
    have accepted : Accepted superStructureType (emptyArray superStructureType dims fieldNames).header (heap.objects sub) :=
      fun struct => passes.named struct sub shown
    rw [if_pos accepted] at set
    rw [all bound (Nat.le_refl _) sub listed shown.2] at valuedHere
    cases valuedHere
    exact ⟨value sub,set,(valued sub shown).2⟩
  · by_contra free
    rw [rest slot fun sub listed visible same => free ⟨sub,⟨visited_entries listed,visible⟩,same⟩] at filled
    cases filled

theorem call_passes (container : isContainer superStructureType = true) (uniform : Uniform heap superStructureType objects)
    (siblings : Siblings heap superStructureType dims objects)
    (ran : makeSubstructure heap fuel (emptyArray superStructureType dims fieldNames) numElems objects superStructureType =
      some (some array,left)) (mirrored : Mirrored heap superStructureType objects array) :
    Passes heap superStructureType fieldNames numElems objects ∧ ∃ less, ∀ sub, Displayed heap objects sub →
      ∃ value, valueOf heap (makeSubstructure heap less) sub = some (some value) ∧ Mirrors heap sub value := by
  obtain ⟨nonzero,less,set⟩ := makeSubstructure_ran uniform siblings.counted ran
  obtain ⟨header,placed,rest⟩ := foldlM_placed container siblings.apart set
  -- What is shown was visited, since nothing else is written to its slot.
  have reached (sub : Nat) (shown : Displayed heap objects sub) : sub ∈ visited heap objects := by
    obtain ⟨value,stored,_⟩ := mirrored.1 sub shown
    by_contra missed
    rw [rest _ fun other listed visible same => missed
      (siblings.distinct other sub ⟨visited_entries listed,visible⟩ shown same ▸ listed)] at stored
    cases stored
  have valued (sub : Nat) (shown : Displayed heap objects sub) :
      Accepted superStructureType (emptyArray superStructureType dims fieldNames).header (heap.objects sub) ∧
      ∃ value, valueOf heap (makeSubstructure heap less) sub = some (some value) ∧ Mirrors heap sub value := by
    obtain ⟨value,stored,mirrors⟩ := mirrored.1 sub shown
    obtain ⟨found,valuedHere,set⟩ := placed sub (reached sub shown) shown.2
    rw [stored] at set
    split at set
    · rename_i accepted
      rw [← set] at valuedHere
      exact ⟨accepted,value,valuedHere,mirrors⟩
    · cases set
  exact ⟨⟨nonzero,fun struct sub shown => (valued sub shown).1 struct,reached⟩,less,fun sub shown => (valued sub shown).2⟩

end Call

section Value
variable {heap : Heap} {obj : Nat} {array left : MxArray}
  {sub : MxArray → Nat → List Nat → MxClassID → Option (Option MxArray × MxArray)}

theorem setter_facts (classID : MxClassID) : (setterOf classID = .numeric ↔ isNumeric classID = true) ∧
    (setterOf classID = .sparse ↔ classID = .sparseClass) ∧ (setterOf classID = .logical ↔ classID = .logicalClass) ∧
    (setterOf classID = .char ↔ classID = .charClass) ∧ (setterOf classID = .cell ↔ classID = .cellClass) ∧
    (setterOf classID = .struct ↔ classID = .structClass) := by
  cases classID <;> decide

theorem makeObjDims_exact (dims : object.numDims ≤ (object.dims.getD []).length) :
    makeObjDims object = some (ownDims object) := if_pos dims

theorem splitImaginaryData_exact (numeric : object.isComplex = true → isNumeric dataset.matlabInternalType = true) :
    splitImaginaryData object dataset = some () ↔ (object.isComplex = true → dataset.numElems < 2^32) := by
  unfold splitImaginaryData rearrangeImaginaryData
  by_cases complex : object.isComplex = true
  · simp [complex,numeric complex]
  · simp [complex]

-- What a matrix needs for its value: the data of a complex one is not too long.
structure Rearranged (heap : Heap) (obj : Nat) : Prop where
  complex : isNumeric (heap.objects obj).matlabInternalType = true → (heap.objects obj).isComplex = true →
    (heap.objects obj).numElems < 2^32
  sparse : (heap.objects obj).matlabInternalType = .sparseClass → (heap.objects obj).isComplex = true →
    ∀ data, findSubObjectByShortName heap obj (textOf "data") = some data → (heap.objects data).numElems < 2^32

theorem sparseHeader_exact (parts : SparseParts heap obj) (type : (heap.objects obj).matlabInternalType = .sparseClass) :
    ∃ header, sparseHeader heap obj = some header ∧ OwnHeader heap obj header := by
  obtain ⟨jc,rows,starts,found,rows_,starts_,some_,few⟩ := parts.columns
  unfold sparseHeader OwnHeader
  simp only [found,rows_,starts_,Option.bind_eq_bind,Option.bind_some,if_pos (And.intro some_ few),if_pos type]
  rcases parts.type with double | logical
  · rw [double]
    exact ⟨_,rfl,rfl,rfl,rfl,jc,rows,starts,rfl,rfl,starts_,rfl⟩
  · rw [logical]
    exact ⟨_,rfl,rfl,rfl,rfl,jc,rows,starts,rfl,rfl,starts_,rfl⟩

theorem sparseData_exact (parts : SparseParts heap obj) :
    sparseData heap obj (findSubObjectByShortName heap obj (textOf "data")) = some () ↔
      ((heap.objects obj).isComplex = true → ∀ data, findSubObjectByShortName heap obj (textOf "data") = some data →
        (heap.objects data).numElems < 2^32) := by
  have parts := parts.data
  cases found : findSubObjectByShortName heap obj (textOf "data") with
  | none =>
    refine ⟨fun _ _ data none_ => ?_,fun _ => rfl⟩
    cases none_
  | some data =>
    obtain ⟨⟨ir,rows⟩,numeric⟩ := parts data found
    unfold sparseData
    rw [rows]
    refine (splitImaginaryData_exact numeric).trans ?_
    simp

theorem leaf_value (formed : Formed heap obj) (shown : setterOf (heap.objects obj).matlabInternalType ≠ .nothing)
    (leaf : isContainer (heap.objects obj).matlabInternalType = false) :
    ∃ array, OwnHeader heap obj array.header ∧ (∀ slot, array.slots slot = none) ∧
      ∀ sub, (Rearranged heap obj → valueOf heap sub obj = some (some array)) ∧
        (valueOf heap sub obj ≠ none → Rearranged heap obj) := by
  obtain ⟨numeric,sparse,logical,char,cell,struct⟩ := setter_facts (heap.objects obj).matlabInternalType
  have dims := makeObjDims_exact formed.dims
  have real (classID : MxClassID) (type : (heap.objects obj).matlabInternalType = classID)
      (plain : isNumeric classID = false) (full : classID ≠ .sparseClass) (alone : isContainer classID = false) :
      Rearranged heap obj ∧ OwnHeader heap obj ⟨classID,false,false,ownDims (heap.objects obj),[],some obj⟩ := by
    refine ⟨⟨fun numeric => ?_,fun sparse => ?_⟩,?_⟩
    · rw [type,plain] at numeric
      cases numeric
    · exact absurd (type.symm.trans sparse) full
    · unfold OwnHeader
      rw [type,if_neg full,if_neg (by rw [alone]; decide)]
      exact ⟨rfl,rfl,rfl,rfl⟩
  cases setter : setterOf (heap.objects obj).matlabInternalType with
  | nothing => exact absurd setter shown
  | cell =>
    rw [cell.mp setter] at leaf
    cases leaf
  | struct =>
    rw [struct.mp setter] at leaf
    cases leaf
  | numeric =>
    have type := numeric.mp setter
    have full : (heap.objects obj).matlabInternalType ≠ .sparseClass := fun sparse => by
      rw [sparse] at type
      cases type
    have rearranged : Rearranged heap obj ↔ splitImaginaryData (heap.objects obj) (heap.objects obj) = some () := by
      rw [splitImaginaryData_exact fun _ => type]
      exact ⟨fun all => all.complex type,fun few => ⟨fun _ => few,fun sparse => absurd sparse full⟩⟩
    refine ⟨.array ⟨(heap.objects obj).matlabInternalType,false,(heap.objects obj).isComplex,ownDims (heap.objects obj),[],some obj⟩
      fun _ => none,?_,fun _ => rfl,fun sub => ?_⟩
    · unfold OwnHeader
      rw [if_neg full,if_neg (by rw [leaf]; decide)]
      exact ⟨rfl,rfl,rfl,rfl⟩
    · unfold valueOf
      simp only [setter,dims,Option.bind_eq_bind,Option.bind_some,rearranged]
      cases splitImaginaryData (heap.objects obj) (heap.objects obj) with
      | none => exact ⟨fun never => (by cases never),fun some_ => absurd rfl some_⟩
      | some _ => exact ⟨fun _ => rfl,fun _ => rfl⟩
  | sparse =>
    have type := sparse.mp setter
    have parts := formed.sparse type
    obtain ⟨header,made,own⟩ := sparseHeader_exact parts type
    have data : header.data = findSubObjectByShortName heap obj (textOf "data") := by
      unfold OwnHeader at own
      rw [if_pos type] at own
      exact own.2.2.1
    have rearranged : Rearranged heap obj ↔ sparseData heap obj header.data = some () := by
      rw [data,sparseData_exact parts]
      refine ⟨fun all => all.sparse type,fun few => ⟨fun numeric => ?_,fun _ => few⟩⟩
      rw [type] at numeric
      cases numeric
    refine ⟨.array header fun _ => none,own,fun _ => rfl,fun sub => ?_⟩
    unfold valueOf
    simp only [setter,made,Option.bind_eq_bind,Option.bind_some,rearranged]
    cases sparseData heap obj header.data with
    | none => exact ⟨fun never => (by cases never),fun some_ => absurd rfl some_⟩
    | some _ => exact ⟨fun _ => rfl,fun _ => rfl⟩
  | logical =>
    obtain ⟨rearranged,own⟩ := real .logicalClass (logical.mp setter) rfl (by decide) rfl
    refine ⟨.array ⟨.logicalClass,false,false,ownDims (heap.objects obj),[],some obj⟩ fun _ => none,own,fun _ => rfl,
      fun sub => ⟨fun _ => ?_,fun _ => rearranged⟩⟩
    unfold valueOf
    simp only [setter,dims,Option.bind_eq_bind,Option.bind_some]
  | char =>
    obtain ⟨rearranged,own⟩ := real .charClass (char.mp setter) rfl (by decide) rfl
    refine ⟨.array ⟨.charClass,false,false,ownDims (heap.objects obj),[],some obj⟩ fun _ => none,own,fun _ => rfl,
      fun sub => ⟨fun _ => ?_,fun _ => rearranged⟩⟩
    unfold valueOf
    simp only [setter,dims,Option.bind_eq_bind,Option.bind_some]

def fieldsMade (heap : Heap) (obj : Nat) : List Text :=
  if (heap.objects obj).matlabInternalType = .structClass then fieldNamesOf heap (heap.objects obj) else []

theorem container_value (formed : Formed heap obj) (container : isContainer (heap.objects obj).matlabInternalType = true) :
    valueOf heap sub obj = some (some array) ↔
      ((heap.objects obj).matlabInternalType = .structClass → (heap.objects obj).numSubObjs < 2^16) ∧
      ∃ left, sub (emptyArray (heap.objects obj).matlabInternalType (ownDims (heap.objects obj)) (fieldsMade heap obj))
        (heap.objects obj).numSubObjs (heap.children obj) (heap.objects obj).matlabInternalType = some (some array,left) := by
  have cell : setterOf .cellClass = .cell := rfl
  have struct : setterOf .structClass = .struct := rfl
  have dims := makeObjDims_exact formed.dims
  have either : (heap.objects obj).matlabInternalType = .cellClass ∨ (heap.objects obj).matlabInternalType = .structClass := by
    simpa [isContainer] using container
  rcases either with type | type
  · unfold valueOf fieldsMade
    simp only [cell,dims,Option.bind_eq_bind,Option.bind_some,type,reduceCtorEq,false_implies,true_and,if_false]
    rw [Option.bind_eq_some_iff]
    constructor
    · rintro ⟨⟨value,left⟩,ran,same⟩
      cases same
      exact ⟨left,ran⟩
    · rintro ⟨left,ran⟩
      exact ⟨_,ran,rfl⟩
  · have live : (restartQueue (heap.objects obj).subObjects).live = heap.children obj :=
      (NodeList.restart_exact (heap.objects obj).subObjects.toNodeList).1.trans formed.whole
    have few : (heap.objects obj).numSubObjs ≤ (heap.objects obj).subObjects.live.length := by
      rw [formed.counted]
      exact Nat.mod_le _ _
    unfold valueOf fieldsMade getFieldNames
    simp only [struct,dims,Option.bind_eq_bind,Option.bind_some,type,if_true,true_implies,live,few,and_true]
    by_cases short : (heap.objects obj).numSubObjs < 2^16
    · rw [if_pos short,Option.bind_some,Option.bind_eq_some_iff]
      constructor
      · rintro ⟨⟨value,left⟩,ran,same⟩
        cases same
        exact ⟨short,left,ran⟩
      · rintro ⟨_,left,ran⟩
        exact ⟨_,ran,rfl⟩
    · rw [if_neg short]
      exact ⟨fun never => (by cases never),fun both => absurd both.1 short⟩

theorem mirrors_leaf (leaf : isContainer (heap.objects obj).matlabInternalType = false) (own : OwnHeader heap obj array.header)
    (empty : ∀ slot, array.slots slot = none) : Mirrors heap obj array := by
  have none_ : ∀ sub, ¬Holds heap obj sub := fun sub holds => by
    rw [holds.1] at leaf
    cases leaf
  refine .node own (fun _ => array) (fun sub holds => absurd holds (none_ sub)) (fun sub holds => absurd holds (none_ sub))
    fun slot value stored => ?_
  rw [empty] at stored
  cases stored

theorem mirrors_container (container : isContainer (heap.objects obj).matlabInternalType = true) :
    Mirrors heap obj array ↔ OwnHeader heap obj array.header ∧
      Mirrored heap (heap.objects obj).matlabInternalType (heap.children obj) array := by
  constructor
  · rintro ⟨own,values,set,below,nothingElse⟩
    refine ⟨own,fun sub shown => ⟨values sub,set sub ⟨container,shown⟩,below sub ⟨container,shown⟩⟩,fun slot value stored => ?_⟩
    obtain ⟨sub,holds,same⟩ := nothingElse slot value stored
    exact ⟨sub,holds.2,same⟩
  · rintro ⟨own,each,nothingElse⟩
    have found (sub : Nat) : ∃ value, Holds heap obj sub →
        array.slots (slotOf (heap.objects obj).matlabInternalType (heap.objects sub)) = some value ∧ Mirrors heap sub value := by
      by_cases holds : Holds heap obj sub
      · obtain ⟨value,both⟩ := each sub holds.2
        exact ⟨value,fun _ => both⟩
      · exact ⟨array,fun never => absurd never holds⟩
    choose value all using found
    refine .node own value (fun sub holds => (all sub holds).1) (fun sub holds => (all sub holds).2) fun slot stored filled => ?_
    obtain ⟨sub,shown,same⟩ := nothingElse slot stored filled
    exact ⟨sub,⟨container,shown⟩,same⟩

theorem own_container (container : isContainer (heap.objects obj).matlabInternalType = true)
    (header : array.header = ⟨(heap.objects obj).matlabInternalType,false,false,ownDims (heap.objects obj),fieldNames,none⟩) :
    OwnHeader heap obj array.header := by
  have full : (heap.objects obj).matlabInternalType ≠ .sparseClass := fun sparse => by
    rw [sparse] at container
    cases container
  unfold OwnHeader
  rw [header,if_neg full,if_pos container]
  exact ⟨rfl,rfl,rfl,rfl⟩

theorem Passes.fields (passes : Passes heap superStructureType fieldNames numElems objects)
    (same : superStructureType = .structClass → other = fieldNames) : Passes heap superStructureType other numElems objects :=
  ⟨passes.nonzero,fun struct => same struct ▸ passes.named struct,passes.reached⟩

theorem fieldsMade_struct (struct : (heap.objects obj).matlabInternalType = .structClass) :
    fieldsMade heap obj = fieldNamesOf heap (heap.objects obj) := if_pos struct

-- Induction on the tree: what is shown of a sound tree has a value that mirrors it.
theorem Sound.value (sound : Sound heap obj) (filled : FilledTree heap obj) (regular : Regular heap obj)
    (shown : setterOf (heap.objects obj).matlabInternalType ≠ .nothing) : ∃ bound value,
      (∀ fuel, bound ≤ fuel → valueOf heap (makeSubstructure heap fuel) obj = some (some value)) ∧ Mirrors heap obj value := by
  induction filled with
  | @node obj formed below ih =>
    obtain ⟨complex,sparse,fields,passes,sounds⟩ := sound
    obtain ⟨uniform,regulars⟩ := regular
    cases kind : isContainer (heap.objects obj).matlabInternalType with
    | false =>
      obtain ⟨value,own,empty,valued⟩ := leaf_value formed shown kind
      exact ⟨0,value,fun fuel _ => (valued _).1 ⟨complex,sparse⟩,mirrors_leaf kind own empty⟩
    | true =>
      obtain ⟨bound,array,ran,header,mirrored⟩ := call_mirrored kind (uniform kind) formed.counted (formed.siblings kind)
        ((passes kind).fields fieldsMade_struct) fun sub visible =>
          ih sub ⟨kind,visible⟩ (sounds sub ⟨kind,visible⟩) (regulars sub ⟨kind,visible⟩) visible.2
      exact ⟨bound,array,fun fuel enough => (container_value formed kind).mpr ⟨fields,array,ran fuel enough⟩,
        (mirrors_container kind).mpr ⟨own_container kind header,mirrored⟩⟩

theorem sound_of_value (filled : FilledTree heap obj) (regular : Regular heap obj)
    (shown : setterOf (heap.objects obj).matlabInternalType ≠ .nothing)
    (valued : valueOf heap (makeSubstructure heap fuel) obj = some (some value)) (mirrors : Mirrors heap obj value) :
    Sound heap obj := by
  induction filled generalizing fuel value with
  | @node obj formed below ih =>
    obtain ⟨uniform,regulars⟩ := regular
    cases kind : isContainer (heap.objects obj).matlabInternalType with
    | false =>
      obtain ⟨_,_,_,found⟩ := leaf_value formed shown kind
      have rearranged := (found (makeSubstructure heap fuel)).2 (by rw [valued]; exact Option.some_ne_none _)
      refine .node rearranged.complex rearranged.sparse (fun struct => ?_) (fun container => ?_) fun sub holds => ?_
      · rw [struct] at kind
        cases kind
      · rw [kind] at container
        cases container
      · rw [holds.1] at kind
        cases kind
    | true =>
      obtain ⟨few,left,ran⟩ := (container_value formed kind).mp valued
      obtain ⟨passes,less,each⟩ := call_passes kind (uniform kind) (formed.siblings kind) ran
        ((mirrors_container kind).mp mirrors).2
      refine .node (fun numeric => ?_) (fun sparse => ?_) few
        (fun _ => passes.fields fun struct => (fieldsMade_struct struct).symm) fun sub holds => ?_
      · exfalso
        revert numeric kind
        cases (heap.objects obj).matlabInternalType <;> decide
      · rw [sparse] at kind
        cases kind
      · obtain ⟨value,valued,mirrors⟩ := each sub holds.2
        exact ih sub holds (regulars sub holds) holds.2.2 valued mirrors

end Value

-- The value that makeSubstructure builds in an array just made mirrors the filled
-- objects below it, with enough fuel, if and only if no cell or struct among them
-- is without sub_objects, and none has more than the counters hold.
theorem makeSubstructure_mirrors (heap : Heap) (superStructureType : MxClassID) (container : isContainer superStructureType = true)
    (dims : List Int) (fieldNames : List Text) (numElems : Nat) (objects : List Nat) (counted : numElems = objects.length%2^32)
    (siblings : Siblings heap superStructureType dims objects) (filled : ∀ sub, Displayed heap objects sub → FilledTree heap sub)
    (uniform : Uniform heap superStructureType objects) (regular : ∀ sub, Displayed heap objects sub → Regular heap sub) :
    (∃ bound array, (∀ fuel, bound ≤ fuel → makeSubstructure heap fuel (emptyArray superStructureType dims fieldNames) numElems
        objects superStructureType = some (some array,array)) ∧
      array.header = ⟨superStructureType,false,false,dims,fieldNames,none⟩ ∧ Mirrored heap superStructureType objects array) ↔
    Passes heap superStructureType fieldNames numElems objects ∧ ∀ sub, Displayed heap objects sub → Sound heap sub := by
  constructor
  · rintro ⟨bound,array,ran,_,mirrored⟩
    obtain ⟨passes,less,each⟩ := call_passes container uniform siblings (ran bound (Nat.le_refl _)) mirrored
    refine ⟨passes,fun sub shown => ?_⟩
    obtain ⟨value,valued,mirrors⟩ := each sub shown
    exact sound_of_value (filled sub shown) (regular sub shown) shown.2 valued mirrors
  · rintro ⟨passes,sound⟩
    exact call_mirrored container uniform counted siblings passes fun sub shown =>
      (sound sub shown).value (filled sub shown) (regular sub shown) shown.2

def heapOf (objects : List Data) : Heap := ⟨fun ptr => objects.getD ptr initializeObject,objects.length,initQueue⟩

-- The variables a, a column of two numbers, and b, a cell with the character that
-- is object 2.
def pairHeap : Heap := heapOf [
  {initializeObject with
    matlabInternalType:=.doubleClass,numDims:=2,dims:=some [2,1,0],numElems:=2,shortName:=textOf "a",isFilled:=true},
  {initializeObject with
    matlabInternalType:=.cellClass,numDims:=2,dims:=some [1,1,0],numElems:=1,shortName:=textOf "b",isFilled:=true,
    subObjects:=enqueue initQueue 2,numSubObjs:=1},
  {initializeObject with
    matlabInternalType:=.charClass,numDims:=2,dims:=some [1,1,0],numElems:=1,isFilled:=true}]

theorem pair_siblings : Siblings pairHeap .structClass [1] [0,1] ∧ Siblings pairHeap .cellClass [1,1] [2] := by
  have pair : entries pairHeap [0,1] = [0,1] := by decide
  have single : entries pairHeap [2] = [2] := by decide
  refine ⟨⟨by decide,?_,?_⟩,⟨by decide,?_,?_⟩⟩
  · rintro sub ⟨member,_⟩
    rw [pair] at member
    revert member sub
    decide
  · rintro sub other ⟨member,_⟩ ⟨also_,_⟩ same
    rw [pair] at member also_
    revert same
    rcases List.mem_pair.mp member with rfl | rfl <;> rcases List.mem_pair.mp also_ with rfl | rfl <;> decide
  · rintro sub ⟨member,_⟩
    rw [single] at member
    revert member sub
    decide
  · rintro sub other ⟨member,_⟩ ⟨also_,_⟩ _
    rw [single,List.mem_singleton] at member also_
    rw [member,also_]

theorem pair_holds (holds : Holds pairHeap obj sub) (either : obj = 0 ∨ obj = 1 ∨ obj = 2) : obj = 1 ∧ sub = 2 := by
  obtain ⟨container,member,_⟩ := holds
  rcases either with rfl | rfl | rfl
  · cases container
  · rw [show entries pairHeap (pairHeap.children 1) = [2] by decide,List.mem_singleton] at member
    exact ⟨rfl,member⟩
  · cases container

theorem pair_formed (either : obj = 0 ∨ obj = 1 ∨ obj = 2) : Formed pairHeap obj := by
  refine ⟨?_,?_,?_,?_,?_⟩
  · rcases either with rfl | rfl | rfl <;> decide
  · rcases either with rfl | rfl | rfl <;> exact fun never => by cases never
  · rcases either with rfl | rfl | rfl <;> decide
  · rcases either with rfl | rfl | rfl <;> rfl
  · rcases either with rfl | rfl | rfl
    · exact fun never => by cases never
    · exact fun _ => pair_siblings.2
    · exact fun never => by cases never

theorem pair_tree : FilledTree pairHeap 0 ∧ FilledTree pairHeap 1 := by
  have char : FilledTree pairHeap 2 := .node (pair_formed (.inr (.inr rfl))) fun sub holds =>
    absurd (pair_holds holds (.inr (.inr rfl))).1 (by decide)
  refine ⟨.node (pair_formed (.inl rfl)) fun sub holds => absurd (pair_holds holds (.inl rfl)).1 (by decide),
    .node (pair_formed (.inr (.inl rfl))) fun sub holds => ?_⟩
  obtain ⟨_,rfl⟩ := pair_holds holds (.inr (.inl rfl))
  exact char

theorem pair_regular : Regular pairHeap 0 ∧ Regular pairHeap 1 := by
  have plain : ∀ obj ∈ pairHeap.children 1, (pairHeap.objects obj).isStructArray = false := by decide
  have char : Regular pairHeap 2 := .node (fun never => by cases never) fun sub holds =>
    absurd (pair_holds holds (.inr (.inr rfl))).1 (by decide)
  refine ⟨.node (fun never => by cases never) fun sub holds => absurd (pair_holds holds (.inl rfl)).1 (by decide),
    .node (fun _ => .inl plain) fun sub holds => ?_⟩
  obtain ⟨_,rfl⟩ := pair_holds holds (.inr (.inl rfl))
  exact char

theorem makeSubstructure_pair : ∃ bound array, (∀ fuel, bound ≤ fuel →
      makeSubstructure pairHeap fuel (emptyArray .structClass [1] [textOf "a",textOf "b"]) 2 [0,1] .structClass =
        some (some array,array)) ∧
    array.header = ⟨.structClass,false,false,[1],[textOf "a",textOf "b"],none⟩ ∧ Mirrored pairHeap .structClass [0,1] array := by
  have pair : ∀ sub, Displayed pairHeap [0,1] sub → sub = 0 ∨ sub = 1 := by
    rintro sub ⟨member,_⟩
    rw [show entries pairHeap [0,1] = [0,1] by decide] at member
    exact List.mem_pair.mp member
  have char : Sound pairHeap 2 := by
    refine .node (fun never => by cases never) (fun never => by cases never) (fun never => by cases never)
      (fun never => by cases never) fun sub holds => ?_
    exact absurd (pair_holds holds (.inr (.inr rfl))).1 (by decide)
  refine (makeSubstructure_mirrors pairHeap .structClass rfl [1] [textOf "a",textOf "b"] 2 [0,1] rfl pair_siblings.1 ?_
    (.inl (by decide)) ?_).mpr ⟨⟨by decide,fun _ sub shown => ?_,fun sub shown => ?_⟩,fun sub shown => ?_⟩
  · intro sub shown
    rcases pair sub shown with rfl | rfl
    · exact pair_tree.1
    · exact pair_tree.2
  · intro sub shown
    rcases pair sub shown with rfl | rfl
    · exact pair_regular.1
    · exact pair_regular.2
  · rcases pair sub shown with rfl | rfl <;> decide
  · rcases pair sub shown with rfl | rfl <;> decide
  · rcases pair sub shown with rfl | rfl
    · refine .node (fun _ never => by cases never) (fun never => by cases never) (fun never => by cases never)
        (fun never => by cases never) fun sub holds => absurd (pair_holds holds (.inl rfl)).1 (by decide)
    · refine .node (fun never => by cases never) (fun never => by cases never) (fun never => by cases never)
        (fun _ => ⟨by decide,fun never => (by cases never),fun sub shown => ?_⟩) fun sub holds => ?_
      · obtain ⟨_,rfl⟩ := pair_holds ⟨rfl,shown⟩ (.inr (.inl rfl))
        decide
      · obtain ⟨_,rfl⟩ := pair_holds holds (.inr (.inl rfl))
        exact char

def emptyCellHeap : Heap := heapOf [
  {initializeObject with
    matlabInternalType:=.cellClass,matlabEmpty:=true,dims:=some [0],shortName:=textOf "e",isFilled:=true}]

theorem emptyCell_lost : ¬ ∀ (heap : Heap) (superStructureType : MxClassID), isContainer superStructureType = true →
    ∀ (dims : List Int) (fieldNames : List Text) (numElems : Nat) (objects : List Nat), numElems = objects.length%2^32 →
    Siblings heap superStructureType dims objects → (∀ sub, Displayed heap objects sub → FilledTree heap sub) →
    Uniform heap superStructureType objects → (∀ sub, Displayed heap objects sub → Regular heap sub) →
    fieldNames = objects.map (fun obj => (heap.objects obj).shortName) →
    ∃ bound array, (∀ fuel, bound ≤ fuel → makeSubstructure heap fuel (emptyArray superStructureType dims fieldNames) numElems
        objects superStructureType = some (some array,array)) ∧ Mirrored heap superStructureType objects array := by
  intro always
  have single : ∀ sub, Displayed emptyCellHeap [0] sub → sub = 0 := by
    rintro sub ⟨member,_⟩
    rw [show entries emptyCellHeap [0] = [0] by decide] at member
    exact List.mem_singleton.mp member
  have none_ : ∀ sub, ¬Holds emptyCellHeap 0 sub := by
    rintro sub ⟨_,member,_⟩
    cases member
  have siblings : Siblings emptyCellHeap .structClass [1] [0] := by
    refine ⟨by decide,fun sub shown => ?_,fun sub other shown also_ _ => (single sub shown).trans (single other also_).symm⟩
    rw [single sub shown]
    decide
  have formed : Formed emptyCellHeap 0 := by
    refine ⟨by decide,fun never => (by cases never),rfl,rfl,fun _ => ⟨fun obj member => (by cases member),fun sub shown => ?_,
      fun sub other shown => ?_⟩⟩
    · exact absurd ⟨rfl,shown⟩ (none_ sub)
    · exact absurd ⟨rfl,shown⟩ (none_ sub)
  have filled : FilledTree emptyCellHeap 0 := .node formed fun sub holds => absurd holds (none_ sub)
  have regular : Regular emptyCellHeap 0 :=
    .node (fun _ => .inl fun obj member => (by cases member)) fun sub holds => absurd holds (none_ sub)
  have uniform : Uniform emptyCellHeap .structClass [0] := .inl (by decide)
  have visible : Displayed emptyCellHeap [0] 0 := by
    unfold Displayed
    decide
  obtain ⟨bound,array,ran,mirrored⟩ := always emptyCellHeap .structClass rfl [1] [textOf "e"] 1 [0] rfl siblings
    (fun sub shown => single sub shown ▸ filled) uniform (fun sub shown => single sub shown ▸ regular) (by decide)
  obtain ⟨_,less,each⟩ := call_passes rfl uniform siblings (ran bound (Nat.le_refl _)) mirrored
  obtain ⟨value,valued,mirrors⟩ := each 0 visible
  cases sound_of_value filled regular visible.2 valued mirrors with
  | node _ _ _ passes _ => exact (passes rfl).nonzero rfl

end GetMatVar
