import GetMatVar.CloneFill
import GetMatVar.FillCalls
import GetMatVar.Library.Runs

namespace GetMatVar

section Reading
variable {file : MatFile} {chunked : MetaData → Option (Nat × DataArrays)}

theorem allocateSpace_counted (ran : allocateSpace object = some (0,after)) :
    after.matlabInternalType = object.matlabInternalType ∧ (object.matlabInternalType = .cellClass → 0 ≤ after.numElems) := by
  unfold allocateSpace at ran
  split at ran
  · rename_i storage
    split at ran
    · cases ran
    obtain ⟨size,_,last⟩ := Option.bind_eq_some_iff.mp ran
    cases last
    refine ⟨rfl,fun cell => ?_⟩
    rw [cell] at storage
    cases storage
  · split at ran
    · cases ran
    obtain ⟨count,size,last⟩ := Option.bind_eq_some_iff.mp ran
    cases last
    refine ⟨rfl,fun _ => ?_⟩
    unfold blockSize at size
    split at size
    · assumption
    · cases size
  · cases ran
    exact ⟨rfl,fun _ => Int.one_nonneg⟩
  · rename_i storage
    cases ran
    refine ⟨rfl,fun cell => ?_⟩
    rw [cell] at storage
    cases storage
  · cases ran

theorem placeWhole_counted (ran : placeWhole file object = some after) :
    after.matlabInternalType = object.matlabInternalType ∧ after.numElems = object.numElems := by
  unfold placeWhole at ran
  split at ran
  · cases ran
  · split at ran <;> cases ran <;> exact ⟨rfl,rfl⟩

theorem fetchData_counted (ran : fetchData file chunked object = some (code,after)) :
    after.matlabInternalType = object.matlabInternalType ∧ after.numElems = object.numElems := by
  unfold fetchData at ran
  split at ran
  · obtain ⟨placed,whole,last⟩ := Option.map_eq_some_iff.mp ran
    cases last
    exact placeWhole_counted whole
  · obtain ⟨placed,whole,last⟩ := Option.map_eq_some_iff.mp ran
    cases last
    exact placeWhole_counted whole
  · obtain ⟨⟨chunkCode,arrays⟩,_,last⟩ := Option.bind_eq_some_iff.mp ran
    cases last
    exact ⟨rfl,rfl⟩
  · cases ran
    exact ⟨rfl,rfl⟩
  · cases ran
    exact ⟨rfl,rfl⟩

theorem readObject_counted (read : readObject file chunked super address before = some (none,after,superAfter))
    (cell : after.matlabInternalType = .cellClass) : 0 ≤ after.numElems := by
  obtain ⟨⟨_,fields,superFields⟩,_,rest⟩ := Option.bind_eq_some_iff.mp read
  dsimp only at rest
  split at rest
  · cases rest
  split at rest
  · cases rest
  obtain ⟨⟨code,allocated⟩,allocating,later⟩ := Option.bind_eq_some_iff.mp rest
  dsimp only at later
  split at later
  · cases later
  rename_i zero
  obtain rfl : code = 0 := Decidable.not_not.mp zero
  obtain ⟨⟨fetchCode,fetched⟩,fetching,last⟩ := Option.bind_eq_some_iff.mp later
  dsimp only at last
  split at last
  · cases last
  cases last
  obtain ⟨type,count⟩ := fetchData_counted fetching
  obtain ⟨before,counted⟩ := allocateSpace_counted allocating
  rw [count]
  exact counted (before.symm.trans (type.symm.trans cell))

end Reading

-- What a fill does to a heap before the references of the object are resolved.
structure SameReferences (object : Nat) (heap after : Heap) : Prop where
  fresh : after.fresh = heap.fresh
  queue : after.objectQueue = heap.objectQueue
  places : ∀ ptr, (after.objects ptr).thisObjAddress = (heap.objects ptr).thisObjAddress ∧
    (after.objects ptr).sCArrayIndex = (heap.objects ptr).sCArrayIndex
  queues : ∀ ptr, ptr ≠ object → (after.objects ptr).subObjects = (heap.objects ptr).subObjects
  others : ∀ ptr, ptr ≠ object → (after.objects ptr).numElems = (heap.objects ptr).numElems ∧
    (after.objects ptr).elemSize = (heap.objects ptr).elemSize ∧
    (after.objects ptr).subObjectHeaderOffsets = (heap.objects ptr).subObjectHeaderOffsets ∧
    ((after.objects ptr).HoldsReferences ↔ (heap.objects ptr).HoldsReferences)

section Same
variable {file : MatFile} {heap middle after first : Heap} {object : Nat}

theorem SameReferences.trans (left : SameReferences object heap middle) (right : SameReferences object middle after) :
    SameReferences object heap after where
  fresh := right.fresh.trans left.fresh
  queue := right.queue.trans left.queue
  places ptr := ⟨(right.places ptr).1.trans (left.places ptr).1,(right.places ptr).2.trans (left.places ptr).2⟩
  queues ptr different := (right.queues ptr different).trans (left.queues ptr different)
  others ptr different := by
    obtain ⟨count,size,offsets,holds⟩ := left.others ptr different
    obtain ⟨count',size',offsets',holds'⟩ := right.others ptr different
    exact ⟨count'.trans count,size'.trans size,offsets'.trans offsets,holds'.trans holds⟩

theorem opened_references (supers : ∃ numDims dims, superFields =
    {(heap.objects superObject).toMetaData with numDims:=numDims,dims:=dims}) :
    SameReferences object heap (opened heap superObject object (heap.objects object).thisObjAddress superFields fields) ∧
      (opened heap superObject object (heap.objects object).thisObjAddress superFields fields).children object =
        heap.children object := by
  generalize same : opened heap superObject object (heap.objects object).thisObjAddress superFields fields = after
  have parts : ∀ ptr, (after.objects ptr).thisObjAddress = (heap.objects ptr).thisObjAddress ∧
      (after.objects ptr).sCArrayIndex = (heap.objects ptr).sCArrayIndex ∧
      (after.objects ptr).subObjects = (heap.objects ptr).subObjects := fun ptr => by
    rw [← same]
    unfold opened
    by_cases atObject : ptr = object
    · subst atObject
      rw [Heap.update_same]
      by_cases atSuper : ptr = superObject
      · subst atSuper
        rw [Heap.update_same]
        exact ⟨rfl,rfl,rfl⟩
      · rw [Heap.update_other _ atSuper]
        exact ⟨rfl,rfl,rfl⟩
    · rw [Heap.update_other _ atObject]
      by_cases atSuper : ptr = superObject
      · subst atSuper
        rw [Heap.update_same]
        exact ⟨rfl,rfl,rfl⟩
      · rw [Heap.update_other _ atSuper]
        exact ⟨rfl,rfl,rfl⟩
  refine ⟨⟨by rw [← same]; rfl,by rw [← same]; rfl,fun ptr => ⟨(parts ptr).1,(parts ptr).2.1⟩,
    fun ptr _ => (parts ptr).2.2,fun ptr different => ?_⟩,?_⟩
  · obtain ⟨numDims,dims,rfl⟩ := supers
    rw [← same]
    unfold opened
    rw [Heap.update_other _ different]
    by_cases atSuper : ptr = superObject
    · subst atSuper
      rw [Heap.update_same]
      exact ⟨rfl,rfl,rfl,Iff.rfl⟩
    · rw [Heap.update_other _ atSuper]
      exact ⟨rfl,rfl,rfl,Iff.rfl⟩
  · unfold Heap.children
    rw [(parts object).2.2]

theorem emptied_references (heap : Heap) (object : Nat) (fields : MetaData) :
    SameReferences object heap (emptied heap object fields) where
  fresh := rfl
  queue := rfl
  places ptr := by
    unfold emptied
    by_cases atObject : ptr = object
    · subst atObject
      rw [Heap.update_same]
      exact ⟨rfl,rfl⟩
    · rw [Heap.update_other _ atObject]
      exact ⟨rfl,rfl⟩
  queues ptr different := by
    unfold emptied
    rw [Heap.update_other _ different]
  others ptr different := by
    unfold emptied
    rw [Heap.update_other _ different]
    exact ⟨rfl,rfl,rfl,Iff.rfl⟩

theorem SameReferences.children (same : SameReferences object heap after) (different : ptr ≠ object) :
    after.children ptr = heap.children ptr := by
  unfold Heap.children
  rw [same.queues ptr different]

theorem SameReferences.complete (same : SameReferences object heap after) (correct : Correct file heap)
    (below : other < after.fresh) (different : other ≠ object) (holds : (after.objects other).HoldsReferences) :
    Complete file after other := by
  obtain ⟨count,_,offsets,holding⟩ := same.others other different
  have complete := correct.complete other (same.fresh ▸ below) (holding.mp holds)
  exact complete.transport count offsets (same.children different) fun obj _ => same.places obj

theorem SameReferences.apart (same : SameReferences object heap after) (correct : Correct file heap)
    (below : one < after.fresh) (below' : other < after.fresh) (distinct : one ≠ other) (atOne : one ≠ object)
    (atOther : other ≠ object) (holdsOne : (after.objects one).HoldsReferences)
    (holdsOther : (after.objects other).HoldsReferences) (member : obj ∈ after.children one) : obj ∉ after.children other := by
  rw [same.children atOne] at member
  rw [same.children atOther]
  exact correct.apart one (same.fresh ▸ below) other (same.fresh ▸ below') distinct
    ((same.others one atOne).2.2.2.mp holdsOne) ((same.others other atOther).2.2.2.mp holdsOther) obj member

theorem SameReferences.correct (same : SameReferences object heap after) (correct : Correct file heap)
    (plain : ¬(after.objects object).HoldsReferences) : Correct file after where
  complete other below holds := by
    refine same.complete correct below ?_ holds
    rintro rfl
    exact plain holds
  apart one below other below' distinct holdsOne holdsOther obj member := by
    refine same.apart correct below below' distinct ?_ ?_ holdsOne holdsOther member
    · rintro rfl
      exact plain holdsOne
    · rintro rfl
      exact plain holdsOther

theorem SameReferences.find (same : SameReferences object heap after) (wanted : Nat) :
    findObjectByHeaderAddress after wanted = findObjectByHeaderAddress heap wanted := by
  unfold findObjectByHeaderAddress
  rw [same.queue]
  congr 1
  funext obj
  rw [(same.places obj).1]

theorem SameReferences.below (same : SameReferences object heap after) (empty : after.children object = [])
    (below : after.Below ref item) : heap.Below ref item := by
  induction below with
  | refl => exact .refl
  | @tail item child _ member ih =>
    refine ih.tail ?_
    by_cases atObject : item = object
    · rw [atObject,empty] at member
      cases member
    · rwa [same.children atObject] at member

theorem Harmless.transport (harmless : Harmless file heap object fields) (same : SameReferences object heap after)
    (empty : after.children object = []) : Harmless file after object fields := by
  have leads : ∀ i ref, Leads file after fields i ref → Leads file heap fields i ref := by
    rintro i ref ⟨offset,stored,found⟩
    exact ⟨offset,stored,(same.find _).symm.trans found⟩
  refine ⟨fun i ref few led other below different holds => ?_,fun i k ref before few ledBefore led => ?_⟩
  · rw [same.children different]
    exact harmless.free i ref few (leads i ref led) other (same.fresh ▸ below) different
      ((same.others other different).2.2.2.mp holds)
  · obtain ⟨copyable,off⟩ := harmless.again i k ref before few (leads k ref ledBefore) (leads i ref led)
    refine ⟨fun item below holds => ?_,fun below => off (same.below empty below)⟩
    have path := same.below empty below
    have different : item ≠ object := fun atObject => off (atObject ▸ path)
    obtain ⟨count,size,_,holding⟩ := same.others item different
    rw [count,size]
    exact copyable item path (holding.mp holds)

theorem Resolving.start (valid : first.Valid) (same : SameReferences object heap first) (correct : Correct file heap)
    (whole : first.Whole object) (empty : first.children object = []) : Resolving file first object 0 first where
  valid := valid
  grows := Nat.le_refl _
  queued := ⟨[],(List.append_nil _).symm⟩
  fields _ _ := ⟨rfl,rfl,rfl⟩
  queues _ _ _ := rfl
  added ptr newer below := by omega
  whole := whole
  count := by rw [empty]; rfl
  elements k obj at_ := by
    rw [empty] at at_
    cases at_
  led obj member := by
    rw [empty] at member
    cases member
  complete other below different holds := same.complete correct below different holds
  apart one below other below' distinct holdsOne holdsOther obj member := by
    have atOne : one ≠ object := by
      rintro rfl
      rw [empty] at member
      cases member
    by_cases atOther : other = object
    · rw [atOther,empty]
      exact List.not_mem_nil
    · exact same.apart correct below below' distinct atOne atOther (holdsOne.resolve_left atOne)
        (holdsOther.resolve_left atOther) member

end Same

structure Resolved (file : MatFile) (heap : Heap) : Prop where
  valid : heap.Valid
  correct : Correct file heap
  listed : ∀ obj ∈ (heap.objects virtualSuperObject).subObjects.nodes, obj < heap.fresh

-- Where fillObject resolves the references of an object, that does no harm.
def HarmlessFill (file : MatFile) (chunked : MetaData → Option (Nat × DataArrays)) (heap : Heap) (object : Nat) : Prop :=
  (heap.objects object).isFilled = false → ∀ superObject fields superFields,
    Reading file chunked heap object superObject none fields superFields → Refers fields → Harmless file heap object fields

section Fill
variable {file : MatFile} {chunked : MetaData → Option (Nat × DataArrays)} {heap after : Heap} {object : Nat}

theorem fillAt_resolved (good : Resolved file heap) (made : object < heap.fresh)
    (harmless : HarmlessFill file chunked heap object) (ran : fillAt file chunked fuel heap object = some (0,after)) :
    Resolved file after ∧ heap.fresh ≤ after.fresh := by
  have whole := fillAt_filled good.valid made ran
  cases unread : (heap.objects object).isFilled with
  | true =>
    unfold fillAt fillObject at ran
    rw [unread,if_pos rfl] at ran
    cases ran
    exact ⟨good,Nat.le_refl _⟩
  | false =>
    refine ⟨?_,whole.kept.grows⟩
    obtain ⟨superObject,returned,fields,superFields,filling⟩ := (fillObject_exact unread).mp ran
    obtain ⟨plain,supers⟩ := readObject_exact filling.read
    have ended := filling.ended
    have validBase : (opened heap superObject object _ superFields fields).Valid :=
      opened_valid good.valid made filling.mapped filling.owned supers
    have same : SameReferences object heap (opened heap superObject object _ superFields fields) :=
      (opened_references supers).1
    have here : ((opened heap superObject object (heap.objects object).thisObjAddress superFields fields).objects
        object).toMetaData = fields ∧ ((opened heap superObject object (heap.objects object).thisObjAddress superFields
        fields).objects object).isFilled = true := by
      unfold opened
      rw [Heap.update_same]
      exact ⟨rfl,rfl⟩
    generalize opened heap superObject object (heap.objects object).thisObjAddress superFields fields = base at *
    obtain ⟨read,filled⟩ := here
    have root : virtualSuperObject ≠ object := fun atObject => filling.mapped (atObject ▸ good.valid.unmapped)
    have alone (quiet : ¬(base.objects object).HoldsReferences) : Resolved file base := by
      refine ⟨validBase,same.correct good.correct quiet,?_⟩
      rw [same.queues _ root,same.fresh]
      exact good.listed
    cases returned with
    | some early =>
      obtain ⟨rfl,rfl⟩ := ended
      refine alone fun holds => holds.2.2.2 ?_
      rw [read,plain rfl]
      exact good.valid.pristine object made unread
    | none =>
      unfold EndsWith at ended
      by_cases refers : Refers fields
      · rw [if_pos refers] at ended
        have madeBase : object < base.fresh := same.fresh ▸ made
        have validFirst : (emptied base object fields).Valid := emptied_valid validBase madeBase filled
        obtain ⟨_,wholeFirst,empty,readFirst⟩ := emptied_kept base object fields
        have sameFirst := same.trans (emptied_references base object fields)
        generalize emptied base object fields = first at *
        have madeFirst : object < first.fresh := sameFirst.fresh ▸ made
        have reads : (first.objects object).toMetaData = fields := readFirst.trans read
        have safe := harmless unread superObject fields superFields ⟨filling.mapped,filling.owned,filling.read⟩ refers
        have start := Resolving.start validFirst sameFirst good.correct wholeFirst empty
        have state := resolveReferences_resolving start validFirst madeFirst
          (by rw [reads]; exact safe.transport sameFirst empty) (by rw [reads,Nat.zero_add]) ended
        rw [Nat.zero_add] at state
        have fieldsAfter := (state.fields object madeFirst).1.trans reads
        rw [← reads] at state
        have counted (holds : (after.objects object).HoldsReferences) : 0 ≤ (first.objects object).numElems := by
          rw [reads]
          refine readObject_counted filling.read ?_
          have cell := holds.2.1
          rwa [fieldsAfter] at cell
        refine ⟨whole.valid,state.correct madeFirst counted,?_⟩
        have inside : virtualSuperObject < first.fresh := sameFirst.fresh ▸ good.valid.root
        rw [state.queues _ inside root,sameFirst.queues _ root]
        exact fun obj member => Nat.lt_of_lt_of_le (good.listed obj member) whole.kept.grows
      · rw [if_neg refers] at ended
        obtain ⟨_,rfl⟩ := ended
        refine alone fun holds => refers ?_
        rw [← read]
        exact ⟨holds.2.2.2,holds.2.2.1⟩

theorem cloneData_resolved (good : Resolved file heap) (made : object < heap.fresh) (copyable : Copyable heap object)
    (ran : cloneData fuel heap object = some (copy,after)) : Resolved file after := by
  have valid := good.valid
  have cloned := cloneData_cloned valid.closed (Extends.refl heap) valid.queue made ran
  obtain ⟨_,more⟩ := cloneData_extends ran
  have grows := cloned.grows
  refine ⟨valid.clone made ran,⟨fun other below holds => ?_,fun one below other below' distinct holdsOne holdsOther obj
    member => ?_⟩,?_⟩
  · by_cases old : other < heap.fresh
    · have same := more.frame other old
      rw [same] at holds
      have complete := good.correct.complete other old holds
      refine complete.transport (by rw [same]) (by rw [same]) (more.children old) fun obj member => ?_
      rw [more.frame obj (valid.closed other old obj member)]
      exact ⟨rfl,rfl⟩
    · obtain ⟨item,path,copied⟩ := cloned.batch.copies other (by omega) below
      have inside := valid.below made path
      have holdsItem := copied.holds holds
      exact (good.correct.complete item inside holdsItem).copied rfl (fun _ => ⟨rfl,rfl⟩) copied
        (copyable item path holdsItem)
  · by_cases oldOne : one < heap.fresh
    · rw [more.children oldOne] at member
      have early := valid.closed one oldOne obj member
      by_cases oldOther : other < heap.fresh
      · rw [more.frame one oldOne] at holdsOne
        rw [more.frame other oldOther] at holdsOther
        rw [more.children oldOther]
        exact good.correct.apart one oldOne other oldOther distinct holdsOne holdsOther obj member
      · intro also_
        have := (cloned.batch.inner other (by omega) below' obj also_).1
        omega
    · by_cases oldOther : other < heap.fresh
      · intro also_
        rw [more.children oldOther] at also_
        have := valid.closed other oldOther obj also_
        have := (cloned.batch.inner one (by omega) below obj member).1
        omega
      · exact cloned.batch.apart one other (by omega) below (by omega) below' distinct obj member
  · rw [more.frame _ valid.root]
    exact fun obj member => Nat.lt_trans (good.listed obj member) grows

theorem resolved_keeping (file : MatFile) (chunked : MetaData → Option (Nat × DataArrays)) (fuel : Nat) :
    Keeping (fillAt file chunked fuel) (cloneData fuel) (HarmlessFill file chunked) Copyable (Resolved file) where
  valid _ good := good.valid
  listed _ good := good.listed
  fills _ _ _ good made harmless ran := fillAt_resolved good made harmless ran
  clones _ _ _ _ good made copyable ran := cloneData_resolved good made copyable ran
  requeues heap queue good tight listed := by
    have older : ∀ obj ∈ queue.live, obj < heap.fresh := fun obj member =>
      listed obj ((NodeList.live_sublist _).subset member)
    have valid := good.valid.requeue good.valid.root tight older
    have same : SameReferences virtualSuperObject heap
        (heap.update virtualSuperObject fun data => {data with subObjects:=queue}) := by
      refine ⟨rfl,rfl,fun ptr => ?_,fun ptr different => ?_,fun ptr different => ?_⟩
      · by_cases atRoot : ptr = virtualSuperObject
        · rw [atRoot,Heap.update_same]
          exact ⟨rfl,rfl⟩
        · rw [Heap.update_other _ atRoot]
          exact ⟨rfl,rfl⟩
      · rw [Heap.update_other _ different]
      · rw [Heap.update_other _ different]
        exact ⟨rfl,rfl,rfl,Iff.rfl⟩
    refine ⟨valid,same.correct good.correct fun holds => ?_,?_⟩
    · have filled := holds.1
      rw [valid.rootUnfilled] at filled
      cases filled
    · rw [Heap.update_same]
      exact listed

end Fill

-- The calls that fill objects, with the objects that were made so far.
inductive FillCall where
  | request (variableName : Text)
  | fill (object : Nat)
deriving DecidableEq,Repr

section Calls
variable (file : MatFile) (chunked : MetaData → Option (Nat × DataArrays)) (depth fuel : Nat)

inductive Fills : Session → FillCall → Session → Prop where
  | request (ran : fillVariable (fillAt file chunked depth) (cloneData depth) fuel variableName s = some (0,next)) :
      Fills s (.request variableName) next
  | fill (made : object < s.heap.fresh) (ran : fillAt file chunked depth s.heap object = some (0,heap)) :
      Fills s (.fill object) {s with heap:=heap}

def HarmlessCall (s : Session) : FillCall → Prop
  | .request variableName =>
    (∀ heap object, VariableCall (fillAt file chunked depth) fuel variableName s heap object →
      HarmlessFill file chunked heap object) ∧
    ∀ heap object, VariableClone (fillAt file chunked depth) fuel variableName s heap object → Copyable heap object
  | .fill object => HarmlessFill file chunked s.heap object

end Calls

def openSession (heap : Heap) : Session := ⟨heap,initQueue,false,false⟩

section Listing
variable {fill : Heap → Nat → Option (Nat × Heap)}

def subTreeCalls (calls : Heap → Nat → List (Heap × Nat)) (tree : Heap → Nat → Option (Nat × Heap)) :
    Nat → List Nat → Heap → List (Heap × Nat)
  | left+1,obj::rest,heap =>
    calls heap obj++match tree heap obj with
      | some (0,next) => subTreeCalls calls tree left rest next
      | _ => []
  | _,_,_ => []

-- The calls of fillObject that fillDataTree makes, one after another.
def treeCalls (fill : Heap → Nat → Option (Nat × Heap)) : Nat → Heap → Nat → List (Heap × Nat)
  | 0,_,_ => []
  | fuel+1,heap,object =>
    (heap,object)::match fill heap object with
      | some (0,middle) => subTreeCalls (treeCalls fill fuel) (fillDataTree fill fuel) (middle.objects object).numSubObjs
          (middle.children object) middle
      | _ => []

theorem subTreeCalls_listed {calls : Heap → Nat → List (Heap × Nat)} {tree : Heap → Nat → Option (Nat × Heap)}
    (few : k < count) (done : fillSubTrees tree k objects heap = some (0,before)) (sub : objects[k]? = some obj)
    (listed : call ∈ calls before obj) : call ∈ subTreeCalls calls tree count objects heap := by
  obtain ⟨left,rfl⟩ := Nat.exists_eq_add_of_lt few
  induction k generalizing objects heap with
  | zero =>
    cases done
    cases objects with
    | nil => cases sub
    | cons first rest =>
      cases sub
      exact List.mem_append_left _ listed
  | succ k ih =>
    cases objects with
    | nil => cases sub
    | cons first rest =>
      obtain ⟨⟨code,middle⟩,ran,later⟩ := Option.bind_eq_some_iff.mp done
      dsimp only at later
      split at later
      · cases later
      · rename_i zero
        obtain rfl : code = 0 := not_not.mp zero
        have inside := ih later sub (by omega)
        have same : k+1+left+1 = (k+left+1)+1 := by omega
        rw [same]
        unfold subTreeCalls
        rw [ran]
        exact List.mem_append_right _ inside

theorem TreeCall.listed (call : TreeCall fill fuel heap object called target) :
    (called,target) ∈ treeCalls fill fuel heap object := by
  induction call with
  | own => exact List.mem_cons_self
  | subTree first few done sub _ ih =>
    unfold treeCalls
    rw [first]
    exact List.mem_cons_of_mem _ (subTreeCalls_listed few done sub ih)

end Listing

section Plain
variable (file : MatFile) (chunked : MetaData → Option (Nat × DataArrays)) (heap : Heap) (object : Nat)

-- fillObject resolves no references here.
def plainFill : Bool :=
  (heap.objects object).isFilled ||
    (heap.objects object).superObject.all fun superObject =>
      (readObject file chunked (heap.objects superObject).toMetaData (heap.objects object).thisObjAddress
        (heap.objects object).toMetaData).all fun read => !decide (Refers read.2.1)

theorem plainFill_harmless (plain : plainFill file chunked heap object = true) : HarmlessFill file chunked heap object := by
  intro unfilled superObject fields superFields reading refers
  unfold plainFill at plain
  rw [unfilled,Bool.false_or,reading.owned,Option.all_some,reading.read,Option.all_some,decide_eq_true refers] at plain
  cases plain

end Plain

section Runs
variable {file : MatFile} {chunked : MetaData → Option (Nat × DataArrays)}

theorem fills_resolved {s next : Session} (good : Resolved file s.heap) (fills : Fills file chunked depth fuel s call next)
    (harmless : HarmlessCall file chunked depth fuel s call) : Resolved file next.heap := by
  cases fills with
  | request ran => exact fillVariable_keeps (resolved_keeping file chunked depth) good harmless.1 harmless.2 ran
  | fill made ran => exact (fillAt_resolved good made harmless ran).1

theorem skeleton_resolved (made : makeObjectTreeSkeleton file fuel startHeap = some (code,heap)) : Resolved file heap := by
  have untouched := makeObjectTreeSkeleton_untouched made
  have unfilled : ∀ ptr, ¬(heap.objects ptr).HoldsReferences := fun ptr holds => by
    have filled := holds.1
    rw [untouched.unfilled ptr] at filled
    cases filled
  refine ⟨untouched.valid,⟨fun dataset _ holds => ?_,fun dataset _ _ _ _ holds => ?_⟩,?_⟩
  · exact absurd holds (unfilled dataset)
  · exact absurd holds (unfilled dataset)
  · rw [makeObjectTreeSkeleton_whole made]
    exact untouched.valid.closed virtualSuperObject untouched.valid.root

-- In every run in which no reference leads to an element of another dataset, and
-- clones are made only of what cloneData copies, all filled datasets are correct.
theorem filled_correct (file : MatFile) (chunked : MetaData → Option (Nat × DataArrays)) (fuel code : Nat) (heap : Heap)
    (made : makeObjectTreeSkeleton file fuel startHeap = some (code,heap)) (calls : List FillCall) (s : Session)
    (path : Runs.Run (fun s call next => ∃ depth fuel, Fills file chunked depth fuel s call next ∧
      HarmlessCall file chunked depth fuel s call) (openSession heap) calls s) : Correct file s.heap := by
  have start : Resolved file (openSession heap).heap := skeleton_resolved made
  have good := path.invariant (fun s => Resolved file s.heap) (fun s call next good step => by
    obtain ⟨depth,fuel,fills,harmless⟩ := step
    exact fills_resolved good fills harmless) start
  exact good.correct

end Runs

-- The cell a, whose two elements are the same struct x.
def twiceFile : MatFile := wordFile
  [0x0001000045455254,0,0,0,48,0,
   0x00020001444f4e53,8,264,0,0,0,16,192,0,0,0,
   0x50414548,32,0,168,0,97,120,
   0x10001,56,0x30000c,0x80008000d0001,0x635f42414c54414d,0x7373616c,0x600000013,1,0x746375727473,
   0x40001,136,0x30000c,0x80008000d0001,0x635f42414c54414d,0x7373616c,0x400000013,1,0x6c6c6563,
   0x80003,0x800000017,0x180001,0x201,2,1,0x180008,0xc000100003,0xc000000000,0] ⟨8,8,40,0,0,136⟩

def twiceHeap : Heap := skeletonHeap twiceFile 3

theorem twiceHeap_made : makeObjectTreeSkeleton twiceFile 3 startHeap = some (0,twiceHeap) :=
  skeletonHeap_made (by decide +kernel)

theorem twice_harmless : HarmlessFill twiceFile (fun _ => none) twiceHeap 2 := by
  have untouched := makeObjectTreeSkeleton_untouched twiceHeap_made
  intro _ superObject fields superFields reading _
  have unheld (item : Nat) : ¬(twiceHeap.objects item).HoldsReferences := fun holds => by
    have unread := holds.1
    rw [untouched.unfilled item] at unread
    cases unread
  have read : (readObject twiceFile (fun _ => none) initializeObject.toMetaData (twiceHeap.objects 2).thisObjAddress
      initializeObject.toMetaData).map (fun read => (read.2.1.numElems,read.2.1.subObjectHeaderOffsets)) =
      some (2,some [some 192,some 192]) := by decide +kernel
  have same := reading.read
  rw [untouched.unread,untouched.unread] at same
  rw [same,Option.map_some,Option.some.injEq,Prod.mk.injEq] at read
  refine ⟨fun _ _ _ _ other _ _ holds => absurd holds (unheld other),fun i k ref before few first second => ?_⟩
  have two : fields.numElems = 2 := read.1
  obtain rfl : k = 0 := by omega
  obtain ⟨offset,⟨offsets,stored,at_⟩,led⟩ := first
  have all_ : offsets = [some 192,some 192] := Option.some.inj (stored.symm.trans read.2)
  subst all_
  cases at_
  have found : findObjectByHeaderAddress twiceHeap 192 = some 1 := by decide +kernel
  have led : findObjectByHeaderAddress twiceHeap 192 = some ref := led
  obtain rfl : 1 = ref := Option.some.inj (found.symm.trans led)
  have alone : twiceHeap.children 1 = [] := by decide +kernel
  refine ⟨fun item _ holds => absurd holds (unheld item),fun below => ?_⟩
  exact absurd (below_alone alone below) (by decide)

theorem twice_harmless_a : HarmlessCall twiceFile (fun _ => none) 3 3 (openSession twiceHeap) (.request (textOf "a")) := by
  have asked : makeVarnameQueue (textOf "a") = some [⟨.localName,textOf "a"⟩] := by decide +kernel
  have named : findSubObjectByShortName twiceHeap virtualSuperObject (textOf "a") = some 2 := by decide +kernel
  have selects : ∃ heap, selectObject (fillAt twiceFile (fun _ => none) 3) 1 twiceHeap virtualSuperObject
      [⟨.localName,textOf "a"⟩] = some (0,2,heap) ∧
      (treeCalls (fillAt twiceFile (fun _ => none) 3) 3 heap 2).all (fun call =>
        plainFill twiceFile (fun _ => none) call.1 call.2) = true := by
    have ran : (selectObject (fillAt twiceFile (fun _ => none) 3) 1 twiceHeap virtualSuperObject
        [⟨.localName,textOf "a"⟩]).map (fun selected => (selected.1,selected.2.1,
          (treeCalls (fillAt twiceFile (fun _ => none) 3) 3 selected.2.2 2).all fun call =>
            plainFill twiceFile (fun _ => none) call.1 call.2)) = some (0,2,true) := by decide +kernel
    obtain ⟨⟨_,_,heap⟩,selected,same⟩ := Option.map_eq_some_iff.mp ran
    simp only [Prod.mk.injEq] at same
    obtain ⟨rfl,rfl,plain⟩ := same
    exact ⟨heap,selected,plain⟩
  obtain ⟨heap,selects,plain⟩ := selects
  refine ⟨fun called target call => ?_,fun called target clone => ?_⟩
  · cases call with
    | everything _ all_ _ => cases all_
    | selecting _ _ read _ inside =>
      cases Option.some.inj (asked.symm.trans read)
      cases inside with
      | token here =>
        cases here with
        | name _ found =>
          cases Option.some.inj (named.symm.trans found)
          exact twice_harmless
        | element type => exact absurd rfl type
        | field type _ _ _ _ => exact absurd rfl type
      | later _ inside => cases inside
    | selected _ _ read _ selected inside =>
      cases Option.some.inj (asked.symm.trans read)
      cases Option.some.inj (selects.symm.trans selected)
      exact plainFill_harmless _ _ _ _ (List.all_eq_true.mp plain _ inside.listed)
  · cases clone with
    | shared _ _ _ _ _ _ checked => cases checked

theorem filled_correct_twice : ∃ s, Runs.Run (fun s call next => ∃ depth fuel, Fills twiceFile (fun _ => none) depth fuel s call
      next ∧ HarmlessCall twiceFile (fun _ => none) depth fuel s call) (openSession twiceHeap) [.request (textOf "a")] s ∧
    (s.heap.objects 2).HoldsReferences ∧ s.heap.children 2 = [1,3] ∧ Correct twiceFile s.heap := by
  have code : (fillVariable (fillAt twiceFile (fun _ => none) 3) (cloneData 3) 3 (textOf "a") (openSession twiceHeap)).map
      (fun ran => (ran.1,decide (ran.2.heap.objects 2).HoldsReferences,ran.2.heap.children 2)) = some (0,true,[1,3]) := by
    decide +kernel
  obtain ⟨⟨_,s⟩,ran,same⟩ := Option.map_eq_some_iff.mp code
  simp only [Prod.mk.injEq,decide_eq_true_eq] at same
  obtain ⟨rfl,holds,children⟩ := same
  have path : Runs.Run (fun s call next => ∃ depth fuel, Fills twiceFile (fun _ => none) depth fuel s call next ∧
      HarmlessCall twiceFile (fun _ => none) depth fuel s call) (openSession twiceHeap) [.request (textOf "a")] s :=
    .single ⟨3,3,.request ran,twice_harmless_a⟩
  exact ⟨s,path,holds,children,filled_correct twiceFile (fun _ => none) 3 0 twiceHeap twiceHeap_made _ _ path⟩

-- The cells a and b, whose only element is in both the struct x.
def sharedFile : MatFile := wordFile
  [0x0001000045455254,0,0,0,48,0,
   0x00030001444f4e53,8,312,0,0,0,16,456,0,0,0,24,240,0,0,0,
   0x50414548,32,0,208,0,97,98,120,
   0x10001,56,0x30000c,0x80008000d0001,0x635f42414c54414d,0x7373616c,0x600000013,1,0x746375727473,
   0x40001,128,0x30000c,0x80008000d0001,0x635f42414c54414d,0x7373616c,0x400000013,1,0x6c6c6563,
   0x80003,0x800000017,0x180001,0x201,1,1,0x100008,0xf000080003,0,
   0x40001,128,0x30000c,0x80008000d0001,0x635f42414c54414d,0x7373616c,0x400000013,1,0x6c6c6563,
   0x80003,0x800000017,0x180001,0x201,1,1,0x100008,0xf000080003,0] ⟨8,8,40,0,0,176⟩

def sharedHeap : Heap := skeletonHeap sharedFile 3

theorem sharedHeap_made : makeObjectTreeSkeleton sharedFile 3 startHeap = some (0,sharedHeap) :=
  skeletonHeap_made (by decide +kernel)

-- Once both are filled, x is in the sub_objects of a and of b.
theorem filled_shared : ¬ ∀ (file : MatFile) (chunked : MetaData → Option (Nat × DataArrays)) (fuel code : Nat) (heap : Heap),
    makeObjectTreeSkeleton file fuel startHeap = some (code,heap) → ∀ (calls : List FillCall) (s : Session),
    Runs.Run (fun s call next => ∃ depth fuel, Fills file chunked depth fuel s call next) (openSession heap) calls s →
    Correct file s.heap := by
  intro always
  have both : (fillVariable (fillAt sharedFile (fun _ => none) 3) (cloneData 3) 3 [] (openSession sharedHeap)).map
      (fun ran => (ran.1,decide (3 < ran.2.heap.fresh ∧ (ran.2.heap.objects 2).HoldsReferences ∧
        (ran.2.heap.objects 3).HoldsReferences ∧ 1 ∈ ran.2.heap.children 2 ∧ 1 ∈ ran.2.heap.children 3))) =
      some (0,true) := by decide +kernel
  obtain ⟨⟨_,s⟩,ran,same⟩ := Option.map_eq_some_iff.mp both
  simp only [Prod.mk.injEq,decide_eq_true_eq] at same
  obtain ⟨rfl,made,holdsB,holdsA,elementB,elementA⟩ := same
  have correct := always sharedFile (fun _ => none) 3 0 sharedHeap sharedHeap_made [.request []] s (.single ⟨3,3,.request ran⟩)
  exact correct.apart 2 (by omega) 3 made (by decide) holdsB holdsA 1 elementB elementA

end GetMatVar
