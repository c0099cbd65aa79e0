import GetMatVar.SkeletonHeap

namespace GetMatVar

-- What two objects have to agree on: types, dimensions, data and place.
structure SameNode (left right : Data) : Prop where
  hdf5InternalType : left.hdf5InternalType = right.hdf5InternalType
  matlabInternalType : left.matlabInternalType = right.matlabInternalType
  matlabSparseType : left.matlabSparseType = right.matlabSparseType
  isComplex : left.isComplex = right.isComplex
  numDims : left.numDims = right.numDims
  dims : left.dims = right.dims
  data : left.data = right.data
  sCArrayIndex : left.sCArrayIndex = right.sCArrayIndex

-- The trees below two objects agree at every node and in the order of sub_objects.
def SameTree (left right : Heap) (one other : Nat) : Prop :=
  ∃ pairs : Nat → Nat → Prop, pairs one other ∧ ∀ x y, pairs x y →
    SameNode (left.objects x) (right.objects y) ∧ List.Forall₂ pairs (left.children x) (right.children y)

section Statement
variable (file : MatFile) (chunked : MetaData → Option (Nat × DataArrays)) (heap : Heap) (object : Nat)

-- The fill of the clone, in the heap after cloneData, against the fill of the
-- object in the heap before it.
structure FillsAlike (copy : Nat) (cloned : Heap) : Prop where
  succeeds : (∃ fuel after, fillTree file chunked fuel cloned copy = some (0,after)) ↔
    ∃ fuel after, fillTree file chunked fuel heap object = some (0,after)
  equal : ∀ fuel after copyFuel copyAfter, fillTree file chunked fuel heap object = some (0,after) →
    fillTree file chunked copyFuel cloned copy = some (0,copyAfter) → SameTree after copyAfter object copy
  inside : ∀ fuel after, fillTree file chunked fuel cloned copy = some (0,after) → ∀ sub, after.Below copy sub → sub ≠ copy →
    ∃ super, (after.objects sub).superObject = some super ∧ after.Below copy super
  apart : ∀ fuel after copyFuel copyAfter, fillTree file chunked fuel heap object = some (0,after) →
    fillTree file chunked copyFuel cloned copy = some (0,copyAfter) → ∀ ptr < heap.fresh, after.Below object ptr →
      ¬copyAfter.Below copy ptr

-- An object that has not been filled: its header is not read, and dims has no
-- room for more than num_dims and the 0 that ends it.
structure Skeletal : Prop where
  made : object < heap.fresh
  unfilled : (heap.objects object).isFilled = false
  unread : (heap.objects object).matlabClass = none
  ended : ∀ dims, (heap.objects object).dims = some dims → dims.length ≤ (heap.objects object).numDims+1

def Linked : Prop := ∀ child ∈ heap.children object, (heap.objects child).superObject = some object

-- The header of an object can be read, with these fields as the outcome.
structure Reading (superObject : Nat) (returned : Option Nat) (fields superFields : MetaData) : Prop where
  mapped : (heap.objects object).thisObjAddress ≠ undefAddr
  owned : (heap.objects object).superObject = some superObject
  read : readObject file chunked (heap.objects superObject).toMetaData (heap.objects object).thisObjAddress
    (heap.objects object).toMetaData = some (returned,fields,superFields)

-- Nothing comes below the object: no elements if its header makes it a reference
-- dataset, no sub_objects otherwise.
def Bare : Prop :=
  ∀ superObject returned fields superFields, Reading file chunked heap object superObject returned fields superFields →
    (returned = some 0 → heap.children object = []) ∧
    (returned = none → if Refers fields then fields.numElems ≤ 0 else heap.children object = [])

end Statement

section Bare
variable {file : MatFile} {chunked : MetaData → Option (Nat × DataArrays)} {heap after : Heap} {object : Nat}

def settledHeap (heap : Heap) (object superObject : Nat) (returned : Option Nat) (fields superFields : MetaData) : Heap :=
  if returned = none ∧ Refers fields then
    emptied (opened heap superObject object (heap.objects object).thisObjAddress superFields fields) object fields
  else opened heap superObject object (heap.objects object).thisObjAddress superFields fields

theorem reading_of_fill (unfilled : (heap.objects object).isFilled = false)
    (ran : fillTree file chunked fuel heap object = some (0,after)) :
    ∃ superObject returned fields superFields, Reading file chunked heap object superObject returned fields superFields ∧
      (returned = none ∨ returned = some 0) := by
  cases fuel with
  | zero => cases ran
  | succ fuel =>
    obtain ⟨middle,first,_⟩ := fillDataTree_exact.mp ran
    obtain ⟨superObject,returned,fields,superFields,filling⟩ := (fillObject_exact unfilled).mp first
    refine ⟨superObject,returned,fields,superFields,⟨filling.mapped,filling.owned,filling.read⟩,?_⟩
    cases returned with
    | none => exact .inl rfl
    | some early =>
      obtain ⟨rfl,_⟩ := filling.ended
      exact .inr rfl

theorem opened_subObjects (heap : Heap) (superObject object thisObjAddress : Nat) (superFields fields : MetaData) :
    ((opened heap superObject object thisObjAddress superFields fields).objects object).numSubObjs =
      (heap.objects object).numSubObjs ∧
    (opened heap superObject object thisObjAddress superFields fields).children object = heap.children object := by
  unfold opened Heap.children
  rw [Heap.update_same]
  by_cases same : object = superObject
  · subst same
    rw [Heap.update_same]
    exact ⟨rfl,rfl⟩
  · rw [Heap.update_other _ same]
    exact ⟨rfl,rfl⟩

theorem fillSubTrees_nil (tree : Heap → Nat → Option (Nat × Heap)) (count : Nat) :
    fillSubTrees tree count [] heap = some (0,after) ↔ count = 0 ∧ after = heap := by
  cases count with
  | zero => simp [fillSubTrees,eq_comm]
  | succ count => simp [fillSubTrees]

theorem fillAt_reading (unfilled : (heap.objects object).isFilled = false)
    (reading : Reading file chunked heap object superObject returned fields superFields) :
    fillAt file chunked fuel heap object = some (code,after) ↔ EndsWith file fuel object
      (opened heap superObject object (heap.objects object).thisObjAddress superFields fields) fields code after returned := by
  unfold fillAt
  rw [fillObject_exact unfilled]
  constructor
  · rintro ⟨superObject',returned',fields',superFields',filling⟩
    obtain rfl : superObject = superObject' := Option.some.inj (reading.owned.symm.trans filling.owned)
    have same := Option.some.inj (reading.read.symm.trans filling.read)
    simp only [Prod.mk.injEq] at same
    obtain ⟨rfl,rfl,rfl⟩ := same
    exact filling.ended
  · intro ended
    exact ⟨superObject,returned,fields,superFields,reading.mapped,reading.owned,reading.read,ended⟩

theorem bare_fill (unfilled : (heap.objects object).isFilled = false) (bare : Bare file chunked heap object)
    (reading : Reading file chunked heap object superObject returned fields superFields) :
    fillTree file chunked fuel heap object = some (0,after) ↔ fuel ≠ 0 ∧ (returned = none ∨ returned = some 0) ∧
      (returned = none ∧ Refers fields ∨ (heap.objects object).numSubObjs = 0) ∧
      after = settledHeap heap object superObject returned fields superFields := by
  obtain ⟨early,late⟩ := bare _ _ _ _ reading
  unfold fillTree settledHeap
  cases fuel with
  | zero =>
    simp only [fillDataTree,ne_eq,not_true,false_and,iff_false]
    intro ran
    cases ran
  | succ fuel =>
    rw [fillDataTree_exact]
    simp only [fillAt_reading unfilled reading]
    obtain ⟨count,children⟩ := opened_subObjects heap superObject object (heap.objects object).thisObjAddress superFields fields
    generalize opened heap superObject object (heap.objects object).thisObjAddress superFields fields = base at *
    have alone (empty : heap.children object = []) : fillSubTrees (fillDataTree (fillAt file chunked (fuel+1)) fuel)
        (base.objects object).numSubObjs (base.children object) base = some (0,after) ↔
        (heap.objects object).numSubObjs = 0 ∧ after = base := by
      rw [count,children,empty]
      exact fillSubTrees_nil _ _
    cases returned with
    | some code =>
      have plain : ¬((some code : Option Nat) = none ∧ Refers fields) := fun both => nomatch both.1
      rw [if_neg plain]
      constructor
      · rintro ⟨middle,⟨rfl,rfl⟩,rest⟩
        obtain ⟨zero,rfl⟩ := (alone (early rfl)).mp rest
        exact ⟨by simp,.inr rfl,.inr zero,rfl⟩
      · rintro ⟨_,ended,zero,rfl⟩
        obtain rfl : code = 0 := by
          rcases ended with never | same
          · cases never
          · exact Option.some.inj same
        have none_ : (heap.objects object).numSubObjs = 0 := zero.resolve_left plain
        exact ⟨_,⟨rfl,rfl⟩,(alone (early rfl)).mpr ⟨none_,rfl⟩⟩
    | none =>
      have content := late rfl
      by_cases refers : Refers fields
      · rw [if_pos refers] at content
        rw [if_pos ⟨rfl,refers⟩]
        have none_ : fields.numElems.toNat = 0 := Int.toNat_eq_zero.mpr content
        have dropped : ((emptied base object fields).objects object).numSubObjs = 0 := by
          unfold emptied
          rw [Heap.update_same]
          show fields.numElems.toNat%2^32 = 0
          rw [none_]
          exact Nat.zero_mod _
        simp only [EndsWith,if_pos refers,none_]
        constructor
        · rintro ⟨middle,resolved,rest⟩
          cases resolved
          rw [dropped] at rest
          cases rest
          exact ⟨by simp,.inl trivial,.inl ⟨trivial,refers⟩,rfl⟩
        · rintro ⟨_,_,_,rfl⟩
          refine ⟨emptied base object fields,rfl,?_⟩
          rw [dropped]
          rfl
      · rw [if_neg refers] at content
        rw [if_neg fun both => refers both.2]
        simp only [EndsWith,if_neg refers]
        constructor
        · rintro ⟨middle,⟨_,rfl⟩,rest⟩
          obtain ⟨zero,rfl⟩ := (alone content).mp rest
          exact ⟨by simp,.inl trivial,.inr zero,rfl⟩
        · rintro ⟨_,_,zero,rfl⟩
          exact ⟨_,⟨trivial,rfl⟩,(alone content).mpr ⟨zero.resolve_left fun both => refers both.2,rfl⟩⟩

theorem settled_object : ((settledHeap heap object superObject returned fields superFields).objects object).toMetaData = fields ∧
    ((settledHeap heap object superObject returned fields superFields).objects object).sCArrayIndex =
      (heap.objects object).sCArrayIndex := by
  have base : ((opened heap superObject object (heap.objects object).thisObjAddress superFields fields).objects
      object).toMetaData = fields ∧ ((opened heap superObject object (heap.objects object).thisObjAddress superFields
      fields).objects object).sCArrayIndex = (heap.objects object).sCArrayIndex := by
    unfold opened
    rw [Heap.update_same]
    by_cases same : object = superObject
    · subst same
      rw [Heap.update_same]
      exact ⟨rfl,rfl⟩
    · rw [Heap.update_other _ same]
      exact ⟨rfl,rfl⟩
  unfold settledHeap
  split
  · unfold emptied
    rw [Heap.update_same]
    exact base
  · exact base

theorem settled_children (bare : Bare file chunked heap object)
    (reading : Reading file chunked heap object superObject returned fields superFields)
    (ended : returned = none ∨ returned = some 0) :
    (settledHeap heap object superObject returned fields superFields).children object = [] := by
  obtain ⟨early,late⟩ := bare _ _ _ _ reading
  have kept := (opened_subObjects heap superObject object (heap.objects object).thisObjAddress superFields fields).2
  unfold settledHeap
  split
  · unfold emptied Heap.children
    rw [Heap.update_same]
    rfl
  · rename_i plain
    rw [kept]
    rcases ended with rfl | rfl
    · have content := late rfl
      rw [if_neg fun refers => plain ⟨rfl,refers⟩] at content
      exact content
    · exact early rfl

end Bare

section Clone
variable {file : MatFile} {chunked : MetaData → Option (Nat × DataArrays)} {heap after cloned : Heap} {object copy : Nat}

theorem unread_fields (valid : heap.Valid) (skeletal : Skeletal heap object) :
    clonedFields (heap.objects object).toMetaData = (heap.objects object).toMetaData := by
  have offsets := valid.pristine object skeletal.made skeletal.unfilled
  have class_ := skeletal.unread
  have ended := skeletal.ended
  generalize (heap.objects object).toMetaData = fields at *
  unfold clonedFields
  have dims : fields.dims.map (·.take (fields.numDims+1)) = fields.dims := by
    cases stored : fields.dims with
    | none => rfl
    | some dims => rw [Option.map_some,List.take_of_length_le (ended dims stored)]
  rw [dims,offsets,Option.map_none,← offsets,← class_]

theorem forall₂_source {R : Nat → Nat → Prop} (all : List.Forall₂ R items elements) (member : element ∈ elements) :
    ∃ item ∈ items, R item element := by
  induction all with
  | nil => cases member
  | cons here _ ih =>
    rcases List.mem_cons.mp member with rfl | later
    · exact ⟨_,List.mem_cons_self,here⟩
    · obtain ⟨item,listed,related⟩ := ih later
      exact ⟨item,List.mem_cons_of_mem _ listed,related⟩

-- What the clone has in common with the object, and where it stands.
structure Twin (heap : Heap) (object copy : Nat) (cloned : Heap) : Prop where
  valid : cloned.Valid
  kept : Kept (fun _ => False) heap cloned
  same : ∀ ptr < heap.fresh, cloned.objects ptr = heap.objects ptr
  new : copy = heap.fresh
  made : copy < cloned.fresh
  content : ∃ queue : Queue Nat, cloned.objects copy = {heap.objects object with subObjects:=queue}
  length : (cloned.children copy).length = (heap.children object).length
  children : ∀ child ∈ cloned.children copy, copy < child ∧ child < cloned.fresh ∧ Shadowed cloned child ∧
    ∃ old ∈ heap.children object, (cloned.objects child).superObject = (heap.objects old).superObject

theorem cloneData_twin (valid : heap.Valid) (skeletal : Skeletal heap object)
    (ran : cloneData depth heap object = some (copy,cloned)) : Twin heap object copy cloned := by
  obtain ⟨rfl,more⟩ := cloneData_extends ran
  have copies := cloneData_cloned valid.closed (Extends.refl heap) valid.queue skeletal.made ran
  have validCloned := valid.clone skeletal.made ran
  obtain ⟨extra,queued,registered⟩ := copies.queued
  have kept : Kept (fun _ => False) heap cloned :=
    ⟨more.grows,fun ptr below => by rw [more.frame ptr below],⟨extra,queued⟩,
      fun ptr below filled => by rw [more.frame ptr below]; exact filled,fun ptr below _ _ => more.children below,
      fun ptr below _ => by rw [more.frame ptr below]⟩
  obtain ⟨queue,_,fields⟩ := copies.top.fields
  rw [unread_fields valid skeletal] at fields
  refine ⟨validCloned,kept,more.frame,rfl,copies.grows,⟨queue,fields⟩,copies.top.items.length_eq.symm,fun child member => ?_⟩
  have inner := copies.batch.inner heap.fresh (Nat.le_refl _) copies.grows child member
  obtain ⟨old,listed,address,_,super⟩ := forall₂_source copies.top.items member
  have older := valid.closed object skeletal.made old listed
  refine ⟨inner.1,inner.2,?_,old,listed,super⟩
  -- The object with this address that a search finds was there before the clone.
  have present : ∃ obj ∈ heap.objectQueue.live, ((heap.objects obj).thisObjAddress == (heap.objects old).thisObjAddress) = true :=
    ⟨old,(valid.registered old).mpr older,by simp⟩
  obtain ⟨first,found⟩ := Option.isSome_iff_exists.mp (List.find?_isSome.mpr present)
  have below := find_below valid found
  refine ⟨first,by omega,?_⟩
  rw [address]
  exact kept.find valid found

theorem Twin.reading (twin : Twin heap object copy cloned) (valid : heap.Valid) (skeletal : Skeletal heap object) :
    Reading file chunked cloned copy superObject returned fields superFields ↔
      Reading file chunked heap object superObject returned fields superFields := by
  obtain ⟨queue,same⟩ := twin.content
  constructor
  · rintro ⟨mapped,owned,read⟩
    rw [same] at mapped owned read
    have older := valid.supers object skeletal.made superObject owned
    rw [twin.same superObject older] at read
    exact ⟨mapped,owned,read⟩
  · rintro ⟨mapped,owned,read⟩
    have older := valid.supers object skeletal.made superObject owned
    refine ⟨?_,?_,?_⟩
    · rw [same]
      exact mapped
    · rw [same]
      exact owned
    · rw [same,twin.same superObject older]
      exact read

theorem Twin.empty (twin : Twin heap object copy cloned) : cloned.children copy = [] ↔ heap.children object = [] := by
  rw [← List.length_eq_zero_iff,twin.length,List.length_eq_zero_iff]

theorem Twin.bare (twin : Twin heap object copy cloned) (valid : heap.Valid) (skeletal : Skeletal heap object)
    (bare : Bare file chunked heap object) : Bare file chunked cloned copy := by
  intro superObject returned fields superFields reading
  obtain ⟨early,late⟩ := bare _ _ _ _ ((twin.reading valid skeletal).mp reading)
  rw [twin.empty]
  exact ⟨early,late⟩

theorem Twin.unfilled (twin : Twin heap object copy cloned) (skeletal : Skeletal heap object) :
    (cloned.objects copy).isFilled = false := by
  obtain ⟨queue,same⟩ := twin.content
  rw [same]
  exact skeletal.unfilled

theorem Twin.older (twin : Twin heap object copy cloned) (skeletal : Skeletal heap object) : object ≠ copy := by
  rw [twin.new]
  exact Nat.ne_of_lt skeletal.made

theorem below_alone (empty : heap.children object = []) (below : heap.Below object ptr) : ptr = object := by
  rcases Relation.ReflTransGen.cases_head below with same | ⟨child,member,_⟩
  · exact same.symm
  · rw [empty] at member
    cases member

theorem Twin.alike (twin : Twin heap object copy cloned) (valid : heap.Valid) (skeletal : Skeletal heap object)
    (bare : Bare file chunked heap object) : FillsAlike file chunked heap object copy cloned := by
  have copyBare := twin.bare valid skeletal bare
  have copyUnfilled := twin.unfilled skeletal
  obtain ⟨queue,same⟩ := twin.content
  have fills (superObject : Nat) (returned : Option Nat) (fields superFields : MetaData)
      (reading : Reading file chunked heap object superObject returned fields superFields) :
      ∀ fuel after, fillTree file chunked fuel heap object = some (0,after) ↔ _ :=
    fun fuel after => bare_fill skeletal.unfilled bare reading
  have copyFills (superObject : Nat) (returned : Option Nat) (fields superFields : MetaData)
      (reading : Reading file chunked heap object superObject returned fields superFields) :
      ∀ fuel after, fillTree file chunked fuel cloned copy = some (0,after) ↔ _ :=
    fun fuel after => bare_fill copyUnfilled copyBare ((twin.reading valid skeletal).mpr reading)
  have counts : (cloned.objects copy).numSubObjs = (heap.objects object).numSubObjs := by rw [same]
  -- What a fill of the clone leaves.
  have copyEmpty : ∀ fuel after, fillTree file chunked fuel cloned copy = some (0,after) → after.children copy = [] := by
    intro fuel after ran
    obtain ⟨superObject,returned,fields,superFields,reading,ended⟩ := reading_of_fill copyUnfilled ran
    obtain ⟨_,_,_,rfl⟩ := (copyFills _ _ _ _ ((twin.reading valid skeletal).mp reading) fuel after).mp ran
    exact settled_children copyBare reading ended
  refine ⟨⟨?_,?_⟩,?_,?_,?_⟩
  · rintro ⟨fuel,after,ran⟩
    obtain ⟨superObject,returned,fields,superFields,copyReading,_⟩ := reading_of_fill copyUnfilled ran
    have reading := (twin.reading valid skeletal).mp copyReading
    obtain ⟨enough,ended,count,_⟩ := (copyFills _ _ _ _ reading fuel after).mp ran
    rw [counts] at count
    exact ⟨fuel,_,(fills _ _ _ _ reading fuel _).mpr ⟨enough,ended,count,rfl⟩⟩
  · rintro ⟨fuel,after,ran⟩
    obtain ⟨superObject,returned,fields,superFields,reading,_⟩ := reading_of_fill skeletal.unfilled ran
    obtain ⟨enough,ended,count,_⟩ := (fills _ _ _ _ reading fuel after).mp ran
    rw [← counts] at count
    exact ⟨fuel,_,(copyFills _ _ _ _ reading fuel _).mpr ⟨enough,ended,count,rfl⟩⟩
  · intro fuel after copyFuel copyAfter ran copyRan
    obtain ⟨superObject,returned,fields,superFields,reading,ended⟩ := reading_of_fill skeletal.unfilled ran
    obtain ⟨_,_,_,rfl⟩ := (fills _ _ _ _ reading fuel after).mp ran
    have copyChildren := copyEmpty copyFuel copyAfter copyRan
    obtain ⟨_,_,_,rfl⟩ := (copyFills _ _ _ _ reading copyFuel copyAfter).mp copyRan
    obtain ⟨left,leftIndex⟩ := @settled_object heap object superObject returned fields superFields
    obtain ⟨right,rightIndex⟩ := @settled_object cloned copy superObject returned fields superFields
    refine ⟨fun x y => x = object ∧ y = copy,⟨rfl,rfl⟩,?_⟩
    rintro x y ⟨rfl,rfl⟩
    refine ⟨⟨?_,?_,?_,?_,?_,?_,?_,?_⟩,?_⟩
    · rw [left,right]
    · rw [left,right]
    · rw [left,right]
    · rw [left,right]
    · rw [left,right]
    · rw [left,right]
    · rw [left,right]
    · rw [leftIndex,rightIndex,same]
    · rw [settled_children bare reading ended,copyChildren]
      exact .nil
  · intro fuel after ran sub below different
    exact absurd (below_alone (copyEmpty fuel after ran) below) different
  · intro fuel after copyFuel copyAfter ran copyRan ptr older _ copyBelow
    have at_ := below_alone (copyEmpty copyFuel copyAfter copyRan) copyBelow
    rw [at_,twin.new] at older
    exact Nat.lt_irrefl _ older

theorem Reading.unique (left : Reading file chunked heap object superObject returned fields superFields)
    (right : Reading file chunked heap object superObject' returned' fields' superFields') :
    superObject = superObject' ∧ returned = returned' ∧ fields = fields' ∧ superFields = superFields' := by
  obtain rfl := Option.some.inj (left.owned.symm.trans right.owned)
  have same := Option.some.inj (left.read.symm.trans right.read)
  simp only [Prod.mk.injEq] at same
  exact ⟨rfl,same⟩

theorem fillTree_parts (valid : heap.Valid) (made : object < heap.fresh) (unfilled : (heap.objects object).isFilled = false)
    (reading : Reading file chunked heap object superObject returned fields superFields)
    (ran : fillTree file chunked fuel heap object = some (0,after)) : ∃ middle, EndsWith file fuel object
      (opened heap superObject object (heap.objects object).thisObjAddress superFields fields) fields 0 middle returned ∧
      middle.Valid ∧ object < middle.fresh ∧ Kept (fun _ => False) middle after ∧
      after.children object = middle.children object := by
  unfold fillTree at ran
  cases fuel with
  | zero => cases ran
  | succ fuel =>
    obtain ⟨middle,first,rest⟩ := fillDataTree_exact.mp ran
    have filled := fillAt_filled valid made first
    have madeMiddle : object < middle.fresh := Nat.lt_of_lt_of_le made filled.kept.grows
    obtain ⟨_,kept⟩ := fillSubTrees_kept (fun heap object after valid made ran =>
      ⟨(fillDataTree_filled valid made ran).valid,(fillDataTree_filled valid made ran).kept⟩) filled.valid
      (filled.valid.closed object madeMiddle) rest
    exact ⟨middle,(fillAt_reading unfilled reading).mp first,filled.valid,madeMiddle,kept,
      kept.children object madeMiddle filled.filled not_false⟩

theorem fillTree_children (valid : heap.Valid) (made : object < heap.fresh) (unfilled : (heap.objects object).isFilled = false)
    (reading : Reading file chunked heap object superObject returned fields superFields)
    (plain : returned = none → ¬Refers fields) (ran : fillTree file chunked fuel heap object = some (0,after)) :
    after.children object = heap.children object := by
  obtain ⟨middle,ended,_,_,_,kept⟩ := fillTree_parts valid made unfilled reading ran
  have opens := (opened_subObjects heap superObject object (heap.objects object).thisObjAddress superFields fields).2
  cases returned with
  | some early =>
    obtain ⟨_,rfl⟩ := ended
    exact kept.trans opens
  | none =>
    unfold EndsWith at ended
    rw [if_neg (plain rfl)] at ended
    obtain ⟨_,rfl⟩ := ended
    exact kept.trans opens

theorem find_same (queue : after.objectQueue = heap.objectQueue)
    (address : ∀ ptr, (after.objects ptr).thisObjAddress = (heap.objects ptr).thisObjAddress) :
    findObjectByHeaderAddress after wanted = findObjectByHeaderAddress heap wanted := by
  unfold findObjectByHeaderAddress
  rw [queue]
  simp only [address]

theorem fillTree_element (valid : heap.Valid) (made : object < heap.fresh) (unfilled : (heap.objects object).isFilled = false)
    (reading : Reading file chunked heap object superObject none fields superFields) (refers : Refers fields)
    (some_ : 0 < fields.numElems) (ran : fillTree file chunked fuel heap object = some (0,after)) :
    ∃ offset ref, StoredFirst fields offset ∧ ref < heap.fresh ∧
      findObjectByHeaderAddress heap ((offset+file.sBlock.baseAddress)%2^addressBits) = some ref ∧
      after.Below object ref := by
  obtain ⟨middle,ended,_,_,_,same⟩ := fillTree_parts valid made unfilled reading ran
  have supers := (readObject_exact reading.read).2
  have openedValid : (opened heap superObject object (heap.objects object).thisObjAddress superFields fields).Valid :=
    opened_valid valid made reading.mapped reading.owned supers
  have openedFilled : ((opened heap superObject object (heap.objects object).thisObjAddress superFields fields).objects
      object).isFilled = true := by
    unfold opened
    rw [Heap.update_same]
  have openedFields : ((opened heap superObject object (heap.objects object).thisObjAddress superFields fields).objects
      object).toMetaData = fields := by
    unfold opened
    rw [Heap.update_same]
  have openedAddress : ∀ ptr, ((opened heap superObject object (heap.objects object).thisObjAddress superFields
      fields).objects ptr).thisObjAddress = (heap.objects ptr).thisObjAddress := fun ptr => by
    unfold opened
    by_cases atObject : ptr = object
    · subst atObject
      rw [Heap.update_same]
    · rw [Heap.update_other _ atObject]
      by_cases atSuper : ptr = superObject
      · subst atSuper
        rw [Heap.update_same]
      · rw [Heap.update_other _ atSuper]
  have openedQueue : (opened heap superObject object (heap.objects object).thisObjAddress superFields fields).objectQueue =
      heap.objectQueue := rfl
  have openedFresh : (opened heap superObject object (heap.objects object).thisObjAddress superFields fields).fresh =
      heap.fresh := rfl
  generalize opened heap superObject object (heap.objects object).thisObjAddress superFields fields = base at *
  unfold EndsWith at ended
  rw [if_pos refers] at ended
  obtain ⟨count,counts⟩ : ∃ count, fields.numElems.toNat = count+1 := ⟨fields.numElems.toNat-1,by omega⟩
  rw [counts] at ended
  have madeBase : object < base.fresh := by omega
  obtain ⟨_,whole,empty,emptiedFields⟩ := emptied_kept base object fields
  have emptiedValid : (emptied base object fields).Valid := emptied_valid openedValid madeBase openedFilled
  obtain ⟨offset,stored,ref,below,found,member⟩ := resolveReferences_first emptiedValid madeBase whole empty ended
  rw [emptiedFields,openedFields] at stored
  have emptiedAddress : ∀ ptr, ((emptied base object fields).objects ptr).thisObjAddress = (base.objects ptr).thisObjAddress :=
    fun ptr => by
      unfold emptied
      by_cases atObject : ptr = object
      · subst atObject
        rw [Heap.update_same]
      · rw [Heap.update_other _ atObject]
  have emptiedQueue : (emptied base object fields).objectQueue = base.objectQueue := rfl
  rw [find_same emptiedQueue emptiedAddress,find_same openedQueue openedAddress] at found
  have older : ref < heap.fresh := find_below valid found
  refine ⟨offset,ref,stored,older,found,.single ?_⟩
  rw [same]
  exact member

theorem StoredFirst.unique (left : StoredFirst fields offset) (right : StoredFirst fields other) : offset = other := by
  obtain ⟨offsets,stored,at_⟩ := left
  obtain ⟨offsets',stored',at'⟩ := right
  obtain rfl := Option.some.inj (stored.symm.trans stored')
  exact Option.some.inj (Option.some.inj (at_.symm.trans at'))

theorem Twin.empty_of_alike (twin : Twin heap object copy cloned) (valid : heap.Valid) (skeletal : Skeletal heap object)
    (linked : Linked heap object)
    (reading : Reading file chunked heap object superObject returned fields superFields)
    (plain : returned = none → ¬Refers fields) (ran : fillTree file chunked fuel heap object = some (0,after))
    (alike : FillsAlike file chunked heap object copy cloned) : heap.children object = [] := by
  obtain ⟨copyFuel,copyAfter,copyRan⟩ := alike.succeeds.mpr ⟨fuel,after,ran⟩
  have copyReading := (twin.reading valid skeletal).mpr reading
  have children : copyAfter.children copy = cloned.children copy :=
    fillTree_children twin.valid twin.made (twin.unfilled skeletal) copyReading plain copyRan
  rw [← twin.empty]
  refine List.eq_nil_iff_forall_not_mem.mpr fun child member => ?_
  obtain ⟨above,made,shadowed,old,listed,same⟩ := twin.children child member
  have owner : (cloned.objects child).superObject = some object := same.trans (linked old listed)
  have filled := fillDataTree_filled twin.valid twin.made copyRan
  have below : copyAfter.Below copy child := by
    refine .single ?_
    rw [children]
    exact member
  obtain ⟨super,owned,inside⟩ := alike.inside copyFuel copyAfter copyRan child below (Nat.ne_of_gt above)
  rw [filled.kept.shadowed child made shadowed,owner] at owned
  obtain rfl := Option.some.inj owned
  exact alike.apart fuel after copyFuel copyAfter ran copyRan object skeletal.made .refl inside

theorem Twin.elements_of_alike (twin : Twin heap object copy cloned) (valid : heap.Valid) (skeletal : Skeletal heap object)
    (reading : Reading file chunked heap object superObject none fields superFields) (refers : Refers fields)
    (ran : fillTree file chunked fuel heap object = some (0,after))
    (alike : FillsAlike file chunked heap object copy cloned) : fields.numElems ≤ 0 := by
  obtain ⟨copyFuel,copyAfter,copyRan⟩ := alike.succeeds.mpr ⟨fuel,after,ran⟩
  have copyReading := (twin.reading valid skeletal).mpr reading
  by_contra some_
  obtain ⟨offset,ref,stored,older,found,below⟩ :=
    fillTree_element valid skeletal.made skeletal.unfilled reading refers (by omega) ran
  obtain ⟨offset',ref',stored',_,found',below'⟩ :=
    fillTree_element twin.valid twin.made (twin.unfilled skeletal) copyReading refers (by omega) copyRan
  obtain rfl := stored.unique stored'
  obtain rfl := Option.some.inj ((twin.kept.find valid found).symm.trans found')
  exact alike.apart fuel after copyFuel copyAfter ran copyRan ref older below below'

theorem Twin.bare_of_alike (twin : Twin heap object copy cloned) (valid : heap.Valid) (skeletal : Skeletal heap object)
    (linked : Linked heap object)
    (ran : fillTree file chunked fuel heap object = some (0,after))
    (alike : FillsAlike file chunked heap object copy cloned) : Bare file chunked heap object := by
  intro superObject returned fields superFields reading
  refine ⟨?_,?_⟩
  · rintro rfl
    exact twin.empty_of_alike valid skeletal linked reading (fun never => nomatch never) ran alike
  · rintro rfl
    split
    · rename_i refers
      exact twin.elements_of_alike valid skeletal reading refers ran alike
    · rename_i plain
      exact twin.empty_of_alike valid skeletal linked reading (fun _ => plain) ran alike

end Clone

-- The clone of an object is filled as the object is when nothing comes below the
-- object, and, where the object can be filled, only then.
theorem cloneData_fills (file : MatFile) (chunked : MetaData → Option (Nat × DataArrays)) (heap : Heap) (valid : heap.Valid)
    (object : Nat) (skeletal : Skeletal heap object) (depth copy : Nat) (cloned : Heap)
    (ran : cloneData depth heap object = some (copy,cloned)) :
    (Bare file chunked heap object → FillsAlike file chunked heap object copy cloned) ∧
    (Linked heap object → (∃ fuel after, fillTree file chunked fuel heap object = some (0,after)) →
      (FillsAlike file chunked heap object copy cloned ↔ Bare file chunked heap object)) := by
  have twin := cloneData_twin valid skeletal ran
  have enough : Bare file chunked heap object → FillsAlike file chunked heap object copy cloned :=
    twin.alike valid skeletal
  refine ⟨enough,fun linked filled => ⟨fun alike => ?_,enough⟩⟩
  obtain ⟨fuel,after,ran⟩ := filled
  exact twin.bare_of_alike valid skeletal linked ran alike

-- A struct g with the field x, a struct without fields.
def structFile : MatFile := wordFile
  [0x0001000045455254,0,0,0,48,0,
   0x00010001444f4e53,8,248,1,96,192,
   0x0001000045455254,0,0,0,144,0,
   0x00010001444f4e53,16,320,0,0,0,
   0x50414548,32,0,224,0,103,120,
   0x10001,56,0x30000c,0x80008000d0001,0x635f42414c54414d,0x7373616c,0x600000013,1,0x746375727473,
   0x10001,56,0x30000c,0x80008000d0001,0x635f42414c54414d,0x7373616c,0x600000013,1,0x746375727473] ⟨8,8,40,0,0,192⟩

def structHeap : Heap := skeletonHeap structFile 3

theorem structHeap_made : makeObjectTreeSkeleton structFile 3 startHeap = some (0,structHeap) :=
  skeletonHeap_made (by decide +kernel)

theorem Heap.Untouched.skeletal (untouched : heap.Untouched) (made : object < heap.fresh) : Skeletal heap object := by
  refine ⟨made,untouched.unfilled object,?_,fun dims some_ => ?_⟩
  · rw [untouched.unread]
    rfl
  · rw [untouched.unread] at some_
    cases some_

theorem structHeap_fills (object : Nat) (either : object = 1 ∨ object = 2) :
    (∃ fuel after, fillTree structFile (fun _ => none) fuel structHeap object = some (0,after)) ∧
    ∀ superObject returned fields superFields,
      Reading structFile (fun _ => none) structHeap object superObject returned fields superFields → ¬Refers fields := by
  refine ⟨?_,fun superObject returned fields superFields reading refers => ?_⟩
  · have code : (fillTree structFile (fun _ => none) 3 structHeap object).map (·.1) = some 0 := by
      rcases either with rfl | rfl <;> decide +kernel
    obtain ⟨⟨_,after⟩,ran,same⟩ := Option.map_eq_some_iff.mp code
    cases same
    exact ⟨3,after,ran⟩
  · have type : ((readObject structFile (fun _ => none) initializeObject.toMetaData (structHeap.objects object).thisObjAddress
        initializeObject.toMetaData).map fun read => read.2.1.hdf5InternalType) = some .unknown := by
      rcases either with rfl | rfl <;> decide +kernel
    have untouched := makeObjectTreeSkeleton_untouched structHeap_made
    have read := reading.read
    rw [untouched.unread,untouched.unread] at read
    rw [read] at type
    rw [Option.map_some,refers.2] at type
    cases type

theorem cloneData_fills_field : ∃ copy cloned, cloneData 3 structHeap 2 = some (copy,cloned) ∧
    FillsAlike structFile (fun _ => none) structHeap 2 copy cloned := by
  have untouched := makeObjectTreeSkeleton_untouched structHeap_made
  have made : 2 < structHeap.fresh := by decide +kernel
  obtain ⟨⟨copy,cloned⟩,ran⟩ := Option.isSome_iff_exists.mp (show (cloneData 3 structHeap 2).isSome = true by decide +kernel)
  obtain ⟨filled,plain⟩ := structHeap_fills 2 (.inr rfl)
  have empty : structHeap.children 2 = [] := by decide +kernel
  have same := (cloneData_fills structFile (fun _ => none) structHeap untouched.valid 2 (untouched.skeletal made) 3 copy cloned
    ran).2 (untouched.linked 2 made) filled
  refine ⟨copy,cloned,ran,same.mpr fun superObject returned fields superFields reading => ⟨fun _ => empty,fun _ => ?_⟩⟩
  rw [if_neg (plain _ _ _ _ reading)]
  exact empty

-- The field of the clone of g has g as its super_object.
theorem clone_keeps_superObject : ¬ ∀ (file : MatFile) (chunked : MetaData → Option (Nat × DataArrays)) (fuel : Nat)
    (heap : Heap) (object depth copy : Nat) (cloned : Heap), makeObjectTreeSkeleton file fuel startHeap = some (0,heap) →
    object < heap.fresh → cloneData depth heap object = some (copy,cloned) →
    FillsAlike file chunked heap object copy cloned := by
  intro always
  have untouched := makeObjectTreeSkeleton_untouched structHeap_made
  have made : 1 < structHeap.fresh := by decide +kernel
  obtain ⟨⟨copy,cloned⟩,ran⟩ := Option.isSome_iff_exists.mp (show (cloneData 3 structHeap 1).isSome = true by decide +kernel)
  have alike := always structFile (fun _ => none) 3 structHeap 1 3 copy cloned structHeap_made made ran
  have skeletal := untouched.skeletal made
  have twin := cloneData_twin untouched.valid skeletal ran
  obtain ⟨⟨fuel,after,filled⟩,plain⟩ := structHeap_fills 1 (.inl rfl)
  obtain ⟨superObject,returned,fields,superFields,reading,_⟩ := reading_of_fill skeletal.unfilled filled
  have empty := twin.empty_of_alike untouched.valid skeletal (untouched.linked 1 made) reading
    (fun _ => plain _ _ _ _ reading) filled alike
  have field : structHeap.children 1 = [2] := by decide +kernel
  rw [field] at empty
  cases empty

end GetMatVar
