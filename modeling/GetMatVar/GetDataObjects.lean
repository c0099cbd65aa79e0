import GetMatVar.ObjectQueue
import GetMatVar.ReferenceRuns
import GetMatVar.VarnamePrint

namespace GetMatVar

def selectionSig : Text := textOf "R2VuZSBIYXJ2ZXkgOik"

-- sprintf(..., "%s%d", SELECTION_SIG, (int)i), for no more objects than an int counts.
def selectionName (i : Nat) : Text := selectionSig++digits i

section Model
variable (fill clone : Heap → Nat → Option (Nat × Heap)) (fuel : Nat)

def fillVariables : List Text → Session → Option (Nat × Session)
  | [],s => some (0,s)
  | variableName::names,s => do
    let (code,s) ← fillVariable fill clone fuel variableName s
    if code ≠ 0 then some (1,s) else fillVariables names s

def nameSelection (i : Nat) (heap : Heap) (object : Nat) : Heap :=
  heap.update object fun data => {data with shortName:=selectionName i,longName:=selectionName i}

def nameSelections : Nat → List Nat → Heap → Heap
  | _,[],heap => heap
  | i,object::rest,heap => nameSelections (i+1) rest (nameSelection i heap object)

def moveObject (heap : Heap) (obj : Nat) : Heap :=
  (heap.update virtualSuperObject fun data => {data with subObjects:=enqueue data.subObjects obj}).update obj
    fun data => {data with superObject:=none,sCArrayIndex:=0}

def moveObjects (topLevelObjects : Queue Nat) (heap : Heap) : Heap :=
  let numSubObjs := topLevelObjects.length%2^32
  let heap := heap.update virtualSuperObject fun data => {data with numSubObjs:=numSubObjs}
  if numSubObjs > 0 then
    topLevelObjects.live.foldl moveObject
      (heap.update virtualSuperObject fun data => {data with subObjects:=(flushQueue data.subObjects).2})
  else heap

def returnObjects (s : Session) : Heap :=
  moveObjects s.topLevelObjects
    (if s.isGettingEverything then s.heap else nameSelections 0 s.topLevelObjects.live s.heap)

end Model

def getDataObjects (file : MatFile) (chunked : MetaData → Option (Nat × DataArrays)) (depth fuel : Nat) (variableNames : List Text) :
    Option (Nat × Heap) := do
  let (code,heap) ← makeObjectTreeSkeleton file fuel startHeap
  if code ≠ 0 then some (1,heap)
  else do
    let (code,s) ← fillVariables (fillAt file chunked depth) (cloneData depth) fuel variableNames (openSession heap)
    if code ≠ 0 then some (1,s.heap) else some (0,returnObjects s)

def Heap.InTree (heap : Heap) (top object : Nat) : Prop :=
  Relation.ReflTransGen (fun parent child => (heap.objects parent).numSubObjs ≠ 0 ∧ child ∈ heap.children parent) top object

section CheckTree
variable {heap : Heap}

theorem inTree_exact : heap.InTree top object ↔
    ((heap.objects top).numSubObjs ≠ 0 ∧ ∃ sub ∈ heap.children top, heap.InTree sub object) ∨ top = object := by
  unfold Heap.InTree
  rw [Relation.ReflTransGen.cases_head_iff]
  constructor
  · rintro (same | ⟨sub,⟨counted,member⟩,below⟩)
    · exact .inr same
    · exact .inl ⟨counted,sub,member,below⟩
  · rintro (⟨counted,sub,member,below⟩ | same)
    · exact .inr ⟨sub,⟨counted,member⟩,below⟩
    · exact .inl same

theorem checkSubTrees_exact {tree : Nat → Option Bool} {inside : Nat → Prop}
    (exact_ : ∀ sub found, tree sub = some found → (found = true ↔ inside sub))
    (ran : checkSubTrees tree subs = some found) : found = true ↔ ∃ sub ∈ subs, inside sub := by
  induction subs with
  | nil =>
    cases ran
    simp
  | cons sub rest ih =>
    obtain ⟨first,tested,later⟩ := Option.bind_eq_some_iff.mp ran
    have head := exact_ sub first tested
    split at later
    · rename_i hit
      cases later
      exact ⟨fun _ => ⟨sub,List.mem_cons_self,head.mp hit⟩,fun _ => rfl⟩
    · rename_i miss
      rw [ih later]
      constructor
      · rintro ⟨other,member,here⟩
        exact ⟨other,List.mem_cons_of_mem _ member,here⟩
      · rintro ⟨other,member,here⟩
        rcases List.mem_cons.mp member with rfl | member
        · exact absurd (head.mpr here) miss
        · exact ⟨other,member,here⟩

-- By induction on the fuel, which bounds the depth of the tree.
theorem checkTree_exact (ran : checkTree heap object fuel top = some found) :
    found = true ↔ heap.InTree top object := by
  induction fuel generalizing top found with
  | zero => cases ran
  | succ fuel ih =>
    rw [checkTree] at ran
    rw [inTree_exact]
    split at ran
    · rename_i counted
      obtain ⟨below,subs,last⟩ := Option.bind_eq_some_iff.mp ran
      cases last
      rw [Bool.or_eq_true,beq_iff_eq,checkSubTrees_exact (fun _ _ => ih) subs]
      exact or_congr ⟨fun some_ => ⟨counted,some_⟩,And.right⟩ Iff.rfl
    · rename_i alone
      cases ran
      rw [Bool.or_eq_true,beq_iff_eq]
      exact or_congr ⟨fun no => Bool.noConfusion no,fun some_ => absurd some_.1 alone⟩ Iff.rfl

theorem checkTopLevel_exact (ran : checkTopLevel heap fuel object tops = some shared) :
    shared = true ↔ ∃ top ∈ tops, heap.InTree top object := by
  unfold checkTopLevel at ran
  exact checkSubTrees_exact (fun _ _ => checkTree_exact) ran

end CheckTree

section Picking
variable (file : MatFile) (chunked : MetaData → Option (Nat × DataArrays)) (depth fuel : Nat)

-- What one name puts into top_level_objects: the object that it selects, with all
-- below it filled, or a clone of it if one of the trees selected before has it.
inductive Picked (variableName : Text) (s : Session) : Nat → Session → Prop where
  | itself (read : makeVarnameQueue variableName = some tokens)
      (selected : selectObject (fillAt file chunked depth) tokens.length s.heap virtualSuperObject tokens = some (0,object,heap))
      (filled : fillDataTree (fillAt file chunked depth) fuel heap object = some (0,middle))
      (apart : ∀ top ∈ s.topLevelObjects.live, ¬middle.InTree top object) :
      Picked variableName s object {s with
        isGettingEverything:=false,heap:=middle,topLevelObjects:=enqueue s.topLevelObjects object}
  | clone (read : makeVarnameQueue variableName = some tokens)
      (selected : selectObject (fillAt file chunked depth) tokens.length s.heap virtualSuperObject tokens = some (0,object,heap))
      (filled : fillDataTree (fillAt file chunked depth) fuel heap object = some (0,middle))
      (shared : ∃ top ∈ s.topLevelObjects.live, middle.InTree top object)
      (cloned : cloneData depth middle object = some (copy,after)) :
      Picked variableName s copy {s with
        isGettingEverything:=false,heap:=after,topLevelObjects:=enqueue s.topLevelObjects copy}

inductive Picks : Session → List Text → List Nat → Session → Prop where
  | nil : Picks s [] [] s
  | cons (first : Picked file chunked depth fuel variableName s object middle) (rest : Picks middle names objects next) :
      Picks s (variableName::names) (object::objects) next

end Picking

-- What a heap keeps in which names are selected, and the objects selected so far.
structure Selecting (s : Session) : Prop where
  open_ : s.isDone = false
  valid : s.heap.Valid
  listed : ∀ obj ∈ (s.heap.objects virtualSuperObject).subObjects.nodes, obj < s.heap.fresh
  tight : s.topLevelObjects.Tight
  made : ∀ top ∈ s.topLevelObjects.live, top < s.heap.fresh ∧ top ≠ virtualSuperObject
  distinct : s.topLevelObjects.live.Nodup

section Selecting
variable {file : MatFile} {chunked : MetaData → Option (Nat × DataArrays)} {depth fuel : Nat}

-- A fill changes the sub_objects and the class of no other object.
structure Elsewhere (object : Nat) (before after : Heap) : Prop where
  grows : before.fresh ≤ after.fresh
  kept : ∀ ptr < before.fresh, ptr ≠ object → (after.objects ptr).subObjects = (before.objects ptr).subObjects ∧
    (after.objects ptr).matlabInternalType = (before.objects ptr).matlabInternalType

theorem Elsewhere.trans (left : Elsewhere object before middle) (right : Elsewhere object middle after) :
    Elsewhere object before after := by
  refine ⟨left.grows.trans right.grows,fun ptr below different => ?_⟩
  obtain ⟨queueAfter,classAfter⟩ := right.kept ptr (Nat.lt_of_lt_of_le below left.grows) different
  obtain ⟨queue,class_⟩ := left.kept ptr below different
  exact ⟨queueAfter.trans queue,classAfter.trans class_⟩

theorem Elsewhere.update (heap : Heap) (object : Nat) (change : Data → Data) : Elsewhere object heap (heap.update object change) :=
  ⟨Nat.le_refl _,fun ptr _ different => by rw [Heap.update_other _ different]; exact ⟨rfl,rfl⟩⟩

theorem attachElement_elsewhere (attached : attachElement object element i heap = some after) : Elsewhere object heap after := by
  obtain ⟨_,shortName,longName,rfl⟩ := attachElement_exact attached
  refine ⟨Nat.le_refl _,fun ptr _ different => ?_⟩
  by_cases atElement : ptr = element
  · subst atElement
    rw [Heap.update_same,Heap.update_other _ different]
    exact ⟨rfl,rfl⟩
  · rw [Heap.update_other _ atElement,Heap.update_other _ different]
    exact ⟨rfl,rfl⟩

theorem resolveReferences_elsewhere (valid : heap.Valid) (made : object < heap.fresh) (whole : heap.Whole object)
    (ran : resolveReferences file (cloneData depth) object left i heap = some (0,after)) : Elsewhere object heap after := by
  induction left generalizing i heap with
  | zero =>
    cases ran
    exact ⟨Nat.le_refl _,fun _ _ _ => ⟨rfl,rfl⟩⟩
  | succ left ih =>
    obtain ⟨_,_,middle,_,_,first,rest⟩ := resolveReferences_parts ran
    have one := resolveReference_exact (fun _ _ _ _ => cloneData_extends) made (valid.tight object made)
      (valid.closed object made) first
    obtain ⟨round,_⟩ := resolvedOne_rounds valid made whole one
    obtain ⟨ref,element,ready,_,prepared,_,attaching⟩ := resolvedOne_parts valid made whole one
    have here : Elsewhere object heap ready :=
      ⟨prepared.grows,fun ptr below different => by rw [prepared.frame ptr below different]; exact ⟨rfl,rfl⟩⟩
    have later := ih round.valid (Nat.lt_of_lt_of_le made round.kept.grows) round.whole rest
    exact (here.trans (attachElement_elsewhere attaching)).trans later

-- Of the super_object only the dimensions are read.
theorem opened_class (supers : ∃ numDims dims, superFields =
    {(heap.objects superObject).toMetaData with numDims:=numDims,dims:=dims}) (different : ptr ≠ object) :
    ((opened heap superObject object address superFields fields).objects ptr).matlabInternalType =
      (heap.objects ptr).matlabInternalType := by
  obtain ⟨numDims,dims,rfl⟩ := supers
  unfold opened
  rw [Heap.update_other _ different]
  by_cases atSuper : ptr = superObject
  · subst atSuper
    rw [Heap.update_same]
  · rw [Heap.update_other _ atSuper]

theorem fillAt_elsewhere (valid : heap.Valid) (made : object < heap.fresh)
    (ran : fillAt file chunked depth heap object = some (0,after)) : Elsewhere object heap after := by
  cases unread : (heap.objects object).isFilled with
  | true =>
    unfold fillAt fillObject at ran
    rw [unread,if_pos rfl] at ran
    cases ran
    exact ⟨Nat.le_refl _,fun _ _ _ => ⟨rfl,rfl⟩⟩
  | false =>
    obtain ⟨superObject,returned,fields,superFields,filling⟩ := (fillObject_exact unread).mp ran
    have supers := (readObject_exact filling.read).2
    have ended := filling.ended
    have validBase : (opened heap superObject object _ superFields fields).Valid :=
      opened_valid valid made filling.mapped filling.owned supers
    have base : Elsewhere object heap (opened heap superObject object (heap.objects object).thisObjAddress superFields fields) :=
      ⟨Nat.le_refl _,fun ptr _ different => ⟨(opened_references supers).1.queues ptr different,opened_class supers different⟩⟩
    have filledBase : ((opened heap superObject object (heap.objects object).thisObjAddress superFields fields).objects
        object).isFilled = true := by
      unfold opened
      rw [Heap.update_same]
    generalize opened heap superObject object (heap.objects object).thisObjAddress superFields fields = first at *
    cases returned with
    | some early =>
      obtain ⟨_,rfl⟩ := ended
      exact base
    | none =>
      unfold EndsWith at ended
      by_cases refers : Refers fields
      · rw [if_pos refers] at ended
        have madeFirst := Nat.lt_of_lt_of_le made base.grows
        have whole := (emptied_kept first object fields).2.1
        have resolved := resolveReferences_elsewhere (emptied_valid validBase madeFirst filledBase) madeFirst whole ended
        exact (base.trans (.update first object _)).trans resolved
      · rw [if_neg refers] at ended
        obtain ⟨_,rfl⟩ := ended
        exact base

theorem fillAt_root (valid : heap.Valid) (made : object < heap.fresh)
    (ran : fillAt file chunked depth heap object = some (0,after)) : virtualSuperObject ≠ object := by
  rintro rfl
  have filled := fillAt_filled valid made ran
  have unfilled := filled.valid.rootUnfilled
  rw [filled.filled] at unfilled
  cases unfilled

theorem valid_keeping (file : MatFile) (chunked : MetaData → Option (Nat × DataArrays)) (depth : Nat) :
    Keeping (fillAt file chunked depth) (cloneData depth) (fun _ _ => True) (fun _ _ => True)
      (fun heap => heap.Valid ∧ ∀ obj ∈ (heap.objects virtualSuperObject).subObjects.nodes, obj < heap.fresh) where
  valid _ good := good.1
  listed _ good := good.2
  fills heap object after good made _ ran := by
    have filled := fillAt_filled good.1 made ran
    have elsewhere := fillAt_elsewhere good.1 made ran
    have root := fillAt_root good.1 made ran
    refine ⟨⟨filled.valid,fun obj member => ?_⟩,elsewhere.grows⟩
    rw [(elsewhere.kept _ good.1.root root).1] at member
    exact Nat.lt_of_lt_of_le (good.2 obj member) elsewhere.grows
  clones heap object copy after good made _ ran := by
    obtain ⟨_,more⟩ := cloneData_extends ran
    refine ⟨good.1.clone made ran,fun obj member => ?_⟩
    rw [more.frame _ good.1.root] at member
    exact Nat.lt_of_lt_of_le (good.2 obj member) more.grows
  requeues heap queue good tight listed := by
    have older : ∀ obj ∈ queue.live, obj < heap.fresh := fun obj member =>
      listed obj ((NodeList.live_sublist _).subset member)
    refine ⟨good.1.requeue good.1.root tight older,fun obj member => ?_⟩
    rw [Heap.update_same] at member
    exact listed obj member

theorem root_keeping (file : MatFile) (chunked : MetaData → Option (Nat × DataArrays)) (depth : Nat) :
    Keeping (fillAt file chunked depth) (cloneData depth) (fun _ _ => True) (fun _ _ => True)
      (fun heap => (heap.Valid ∧ ∀ obj ∈ (heap.objects virtualSuperObject).subObjects.nodes, obj < heap.fresh) ∧
        (heap.objects virtualSuperObject).matlabInternalType = .unknownClass) where
  valid _ good := good.1.1
  listed _ good := good.1.2
  fills heap object after good made meets ran := by
    obtain ⟨valid,grows⟩ := (valid_keeping file chunked depth).fills heap object after good.1 made meets ran
    have elsewhere := fillAt_elsewhere good.1.1 made ran
    have kept := (elsewhere.kept _ good.1.1.root (fillAt_root good.1.1 made ran)).2
    exact ⟨⟨valid,kept.trans good.2⟩,grows⟩
  clones heap object copy after good made meets ran := by
    have valid := (valid_keeping file chunked depth).clones heap object copy after good.1 made meets ran
    obtain ⟨_,more⟩ := cloneData_extends ran
    refine ⟨valid,?_⟩
    rw [more.frame _ good.1.1.root]
    exact good.2
  requeues heap queue good tight listed := by
    have valid := (valid_keeping file chunked depth).requeues heap queue good.1 tight listed
    refine ⟨valid,?_⟩
    rw [Heap.update_same]
    exact good.2

theorem filled_not_root (valid : heap.Valid) (made : object < heap.fresh)
    (ran : fillDataTree (fillAt file chunked depth) fuel heap object = some (0,after)) :
    after.Valid ∧ object < after.fresh ∧ heap.fresh ≤ after.fresh ∧ object ≠ virtualSuperObject := by
  have filled := fillDataTree_filled valid made ran
  refine ⟨filled.valid,Nat.lt_of_lt_of_le made filled.kept.grows,filled.kept.grows,?_⟩
  rintro rfl
  have unfilled := filled.valid.rootUnfilled
  rw [filled.filled] at unfilled
  cases unfilled

theorem Selecting.select (selecting : Selecting s) (open_ : s.isDone = false) (valid : after.Valid)
    (listed : ∀ obj ∈ (after.objects virtualSuperObject).subObjects.nodes, obj < after.fresh) (grows : s.heap.fresh ≤ after.fresh)
    (made : object < after.fresh) (root : object ≠ virtualSuperObject) (new : object ∉ s.topLevelObjects.live) :
    Selecting {s with isGettingEverything:=false,heap:=after,topLevelObjects:=enqueue s.topLevelObjects object} := by
  have live : (enqueue s.topLevelObjects object).live = s.topLevelObjects.live++[object] :=
    NodeList.enqueue_live selecting.tight object
  refine ⟨open_,valid,listed,NodeList.enqueue_tight selecting.tight object,?_,?_⟩
  · intro top member
    rcases List.mem_append.mp (live ▸ member) with earlier | last
    · obtain ⟨below,different⟩ := selecting.made top earlier
      exact ⟨Nat.lt_of_lt_of_le below grows,different⟩
    · rw [List.mem_singleton.mp last]
      exact ⟨made,root⟩
  · show (enqueue s.topLevelObjects object).live.Nodup
    rw [live]
    refine selecting.distinct.append (List.nodup_singleton _) ?_
    rwa [List.disjoint_singleton]

theorem fillVariable_picks (selecting : Selecting s) (named : variableName ≠ [])
    (ran : fillVariable (fillAt file chunked depth) (cloneData depth) fuel variableName s = some (0,next)) :
    ∃ object, Picked file chunked depth fuel variableName s object next ∧ Selecting next ∧
      next.topLevelObjects.live = s.topLevelObjects.live++[object] := by
  have keeping := valid_keeping file chunked depth
  obtain ⟨goodHeap,goodListed⟩ : next.heap.Valid ∧ _ := fillVariable_keeps keeping ⟨selecting.valid,selecting.listed⟩
    (fun _ _ _ => trivial) (fun _ _ _ => trivial) ran
  cases fillVariable_exact.mp ran with
  | done closed => exact absurd closed (by rw [selecting.open_]; exact Bool.noConfusion)
  | everything _ all => exact absurd all named
  | @selected tokens object heap middle shared copy after open_ one read some_ selected filled checked taken =>
    obtain ⟨⟨validHeap,_⟩,made,grows⟩ := selectObject_keeps keeping ⟨selecting.valid,selecting.listed⟩ selecting.valid.root
      (fun _ _ _ => trivial) selected
    obtain ⟨validMiddle,madeMiddle,more,root⟩ := filled_not_root validHeap made filled
    have sharing := checkTopLevel_exact checked
    have live : ∀ top, (enqueue s.topLevelObjects top).live = s.topLevelObjects.live++[top] :=
      NodeList.enqueue_live selecting.tight
    unfold cloneIfShared at taken
    split at taken
    · rename_i present
      obtain ⟨rfl,_⟩ := cloneData_extends taken
      have cloned := cloneData_cloned validMiddle.closed (Extends.refl _) validMiddle.queue madeMiddle taken
      have further : middle.fresh < after.fresh := cloned.grows
      refine ⟨middle.fresh,.clone read selected filled (sharing.mp present) taken,?_,live _⟩
      apply selecting.select open_ goodHeap goodListed ((grows.trans more).trans (Nat.le_of_lt further)) further
      · exact Nat.ne_of_gt (Nat.lt_of_le_of_lt (Nat.zero_le object) madeMiddle)
      · intro member
        have := (selecting.made _ member).1
        omega
    · rename_i absent
      cases taken
      have apart : ∀ top ∈ s.topLevelObjects.live, ¬middle.InTree top object := fun top member inside =>
        absent (sharing.mpr ⟨top,member,inside⟩)
      refine ⟨object,.itself read selected filled apart,?_,live _⟩
      apply selecting.select open_ goodHeap goodListed (grows.trans more) madeMiddle root
      exact fun member => apart object member .refl

theorem fillVariables_picks (selecting : Selecting s) (named : ∀ variableName ∈ names, variableName ≠ [])
    (ran : fillVariables (fillAt file chunked depth) (cloneData depth) fuel names s = some (0,next)) :
    ∃ objects, Picks file chunked depth fuel s names objects next ∧ Selecting next ∧
      next.topLevelObjects.live = s.topLevelObjects.live++objects := by
  induction names generalizing s with
  | nil =>
    cases ran
    exact ⟨[],.nil,selecting,(List.append_nil _).symm⟩
  | cons variableName names ih =>
    obtain ⟨⟨code,middle⟩,first,later⟩ := Option.bind_eq_some_iff.mp ran
    dsimp only at later
    split at later
    · cases later
    · rename_i zero
      obtain rfl : code = 0 := Decidable.not_not.mp zero
      obtain ⟨object,picked,selectingMiddle,live⟩ := fillVariable_picks selecting (named _ List.mem_cons_self) first
      obtain ⟨objects,picks,selectingNext,more⟩ := ih selectingMiddle
        (fun other member => named other (List.mem_cons_of_mem _ member)) later
      refine ⟨object::objects,.cons picked picks,selectingNext,?_⟩
      rw [more,live,List.append_assoc]
      rfl

end Selecting

section Returning
variable {heap : Heap}

def Renamed (heap after : Heap) (objects : List Nat) (first : Nat) : Prop :=
  (∀ i object, objects[i]? = some object → after.objects object =
    {heap.objects object with shortName:=selectionName (first+i),longName:=selectionName (first+i)}) ∧
  ∀ ptr, ptr ∉ objects → after.objects ptr = heap.objects ptr

theorem nameSelections_exact (distinct : objects.Nodup) (first : Nat) (heap : Heap) :
    Renamed heap (nameSelections first objects heap) objects first ∧
      (nameSelections first objects heap).fresh = heap.fresh ∧
      (nameSelections first objects heap).objectQueue = heap.objectQueue := by
  induction objects generalizing first heap with
  | nil => exact ⟨⟨fun i object at_ => by simp at at_,fun ptr _ => rfl⟩,rfl,rfl⟩
  | cons object rest ih =>
    obtain ⟨absent,others⟩ := List.nodup_cons.mp distinct
    obtain ⟨⟨named,same⟩,fresh,queue⟩ := ih others (first+1) (nameSelection first heap object)
    refine ⟨⟨fun i other at_ => ?_,fun ptr outside => ?_⟩,fresh,queue⟩
    · cases i with
      | zero =>
        cases at_
        rw [nameSelections,same object absent]
        exact Heap.update_same _
      | succ i =>
        have member : other ∈ rest := List.mem_of_getElem? at_
        have different : other ≠ object := fun here => absent (here ▸ member)
        rw [nameSelections,named i other at_,nameSelection,Heap.update_other _ different,Nat.add_right_comm]
        rfl
    · obtain ⟨different,outside⟩ := List.ne_and_not_mem_of_not_mem_cons outside
      rw [nameSelections,same ptr outside,nameSelection,Heap.update_other _ different]

-- All objects but virtual_super_object and those that it gets are as they were.
structure Moved (heap after : Heap) (objects : List Nat) : Prop where
  fresh : after.fresh = heap.fresh
  queue : after.objectQueue = heap.objectQueue
  children : after.children virtualSuperObject = heap.children virtualSuperObject++objects
  nodes : (after.objects virtualSuperObject).subObjects.nodes = (heap.objects virtualSuperObject).subObjects.nodes++objects
  root : ∃ queue : Queue Nat, queue.Tight ∧
    after.objects virtualSuperObject = {heap.objects virtualSuperObject with subObjects:=queue}
  moved : ∀ object ∈ objects, after.objects object = {heap.objects object with superObject:=none,sCArrayIndex:=0}
  others : ∀ ptr, ptr ≠ virtualSuperObject → ptr ∉ objects → after.objects ptr = heap.objects ptr

theorem moveObject_foldl (distinct : objects.Nodup) (root : ∀ object ∈ objects, object ≠ virtualSuperObject)
    (tight : (heap.objects virtualSuperObject).subObjects.Tight) : Moved heap (objects.foldl moveObject heap) objects := by
  induction objects generalizing heap with
  | nil =>
    exact ⟨rfl,rfl,(List.append_nil _).symm,(List.append_nil _).symm,⟨_,tight,rfl⟩,
      fun _ member => absurd member List.not_mem_nil,fun _ _ _ => rfl⟩
  | cons object rest ih =>
    obtain ⟨absent,others⟩ := List.nodup_cons.mp distinct
    have different := root object List.mem_cons_self
    have atRoot : (moveObject heap object).objects virtualSuperObject = {heap.objects virtualSuperObject with
        subObjects:=enqueue (heap.objects virtualSuperObject).subObjects object} := by
      rw [moveObject,Heap.update_other _ (Ne.symm different),Heap.update_same]
    have here : (moveObject heap object).objects object = {heap.objects object with superObject:=none,sCArrayIndex:=0} := by
      rw [moveObject,Heap.update_same,Heap.update_other _ different]
    have elsewhere : ∀ ptr, ptr ≠ virtualSuperObject → ptr ≠ object → (moveObject heap object).objects ptr = heap.objects ptr :=
      fun ptr notRoot notHere => by rw [moveObject,Heap.update_other _ notHere,Heap.update_other _ notRoot]
    have nextTight : ((moveObject heap object).objects virtualSuperObject).subObjects.Tight := by
      rw [atRoot]
      exact NodeList.enqueue_tight tight object
    have moved := ih others (fun other member => root other (List.mem_cons_of_mem _ member)) nextTight
    obtain ⟨queue,queueTight,rootAfter⟩ := moved.root
    refine ⟨moved.fresh,moved.queue,?_,?_,⟨queue,queueTight,?_⟩,fun other member => ?_,fun ptr notRoot outside => ?_⟩
    · have grown : (moveObject heap object).children virtualSuperObject = heap.children virtualSuperObject++[object] := by
        unfold Heap.children
        rw [atRoot]
        exact NodeList.enqueue_live tight object
      rw [List.foldl_cons,moved.children,grown,List.append_assoc]
      rfl
    · rw [List.foldl_cons,moved.nodes,atRoot,List.append_cons]
      rfl
    · rw [List.foldl_cons,rootAfter,atRoot]
    · rcases List.mem_cons.mp member with rfl | member
      · rw [List.foldl_cons,moved.others other (root other List.mem_cons_self) absent,here]
      · have apart : other ≠ object := fun same => absent (same ▸ member)
        rw [List.foldl_cons,moved.moved other member,elsewhere other (root other (List.mem_cons_of_mem _ member)) apart]
    · obtain ⟨apart,outside⟩ := List.ne_and_not_mem_of_not_mem_cons outside
      rw [List.foldl_cons,moved.others ptr notRoot outside,elsewhere ptr notRoot apart]

-- What virtual_super_object shows of the objects that it gets instead of its own.
structure Returns (heap after : Heap) (objects : List Nat) : Prop where
  fresh : after.fresh = heap.fresh
  queue : after.objectQueue = heap.objectQueue
  children : after.children virtualSuperObject = objects
  whole : after.Whole virtualSuperObject
  tight : (after.objects virtualSuperObject).subObjects.Tight
  numSubObjs : (after.objects virtualSuperObject).numSubObjs = objects.length
  root : (after.objects virtualSuperObject).toMetaData = (heap.objects virtualSuperObject).toMetaData
  moved : ∀ object ∈ objects, after.objects object = {heap.objects object with superObject:=none,sCArrayIndex:=0}
  others : ∀ ptr, ptr ≠ virtualSuperObject → ptr ∉ objects → after.objects ptr = heap.objects ptr

theorem moveObjects_exact {topLevelObjects : Queue Nat} (tight : topLevelObjects.Tight) (distinct : topLevelObjects.live.Nodup)
    (root : ∀ object ∈ topLevelObjects.live, object ≠ virtualSuperObject) (some_ : topLevelObjects.live ≠ [])
    (few : topLevelObjects.live.length < 2^32) : Returns heap (moveObjects topLevelObjects heap) topLevelObjects.live := by
  have count : topLevelObjects.length%2^32 = topLevelObjects.live.length := by
    rw [tight.counted,Nat.mod_eq_of_lt few]
  have positive : 0 < topLevelObjects.live.length := List.length_pos_iff.mpr some_
  have start : moveObjects topLevelObjects heap = topLevelObjects.live.foldl moveObject (heap.update virtualSuperObject
      fun data => {data with numSubObjs:=topLevelObjects.live.length,subObjects:=(flushQueue data.subObjects).2}) := by
    unfold moveObjects
    rw [count]
    dsimp only
    rw [if_pos positive,Heap.update_update]
    rfl
  generalize first : (heap.update virtualSuperObject fun data =>
    {data with numSubObjs:=topLevelObjects.live.length,subObjects:=(flushQueue data.subObjects).2}) = flushed at start
  have atRoot : flushed.objects virtualSuperObject = {heap.objects virtualSuperObject with
      numSubObjs:=topLevelObjects.live.length,subObjects:=(flushQueue (heap.objects virtualSuperObject).subObjects).2} := by
    rw [← first,Heap.update_same]
  have elsewhere : ∀ ptr, ptr ≠ virtualSuperObject → flushed.objects ptr = heap.objects ptr := fun ptr different => by
    rw [← first,Heap.update_other _ different]
  have moved : Moved flushed (topLevelObjects.live.foldl moveObject flushed) topLevelObjects.live := by
    apply moveObject_foldl distinct root
    rw [atRoot]
    exact NodeList.init_tight
  obtain ⟨queue,queueTight,rootAfter⟩ := moved.root
  have empty : flushed.children virtualSuperObject = [] := by
    unfold Heap.children
    rw [atRoot]
    rfl
  rw [start]
  have children := moved.children
  rw [empty,List.nil_append] at children
  refine ⟨moved.fresh.trans ?_,moved.queue.trans ?_,children,?_,?_,?_,?_,fun object member => ?_,fun ptr notRoot outside => ?_⟩
  · rw [← first]
    rfl
  · rw [← first]
    rfl
  · unfold Heap.Whole
    rw [children,moved.nodes,atRoot]
    exact List.nil_append _
  · rw [rootAfter]
    exact queueTight
  · rw [rootAfter,atRoot]
  · rw [rootAfter,atRoot]
  · rw [moved.moved object member,elsewhere object (root object member)]
  · rw [moved.others ptr notRoot outside,elsewhere ptr notRoot]

end Returning

def selectedAs (i : Nat) (object : Data) : Data := {object with
  shortName:=selectionName i,longName:=selectionName i,superObject:=none,sCArrayIndex:=0}

section Selection
variable {file : MatFile} {chunked : MetaData → Option (Nat × DataArrays)} {depth fuel : Nat}

theorem opened_selecting (made : makeObjectTreeSkeleton file fuel startHeap = some (code,heap)) : Selecting (openSession heap) := by
  have untouched := makeObjectTreeSkeleton_untouched made
  refine ⟨rfl,untouched.valid,fun obj member => ?_,NodeList.init_tight,fun top member => absurd member List.not_mem_nil,
    List.nodup_nil⟩
  have whole := makeObjectTreeSkeleton_whole made
  exact untouched.valid.closed _ untouched.valid.root obj (whole ▸ member)

theorem picks_selective (picks : Picks file chunked depth fuel s names objects next) (some_ : names ≠ []) :
    next.isGettingEverything = false ∧ objects.length = names.length := by
  induction picks with
  | nil => exact absurd rfl some_
  | @cons name s object middle names objects next first rest ih =>
    cases rest with
    | nil =>
      refine ⟨?_,rfl⟩
      cases first <;> rfl
    | cons second others =>
      obtain ⟨selective,count⟩ := ih (List.cons_ne_nil _ _)
      exact ⟨selective,congrArg Nat.succ count⟩

theorem picks_return (picks : Picks file chunked depth fuel s names objects last) (selecting : Selecting last)
    (live : last.topLevelObjects.live = s.topLevelObjects.live++objects) (none_ : s.topLevelObjects.live = [])
    (some_ : names ≠ []) (few : names.length < 2^31) :
    objects.length = names.length ∧ objects.Nodup ∧ (∀ object ∈ objects, object < last.heap.fresh ∧ object ≠ virtualSuperObject) ∧
    Renamed last.heap (nameSelections 0 objects last.heap) objects 0 ∧
    Returns (nameSelections 0 objects last.heap) (returnObjects last) objects ∧
    (returnObjects last).fresh = last.heap.fresh := by
  obtain ⟨selective,count⟩ := picks_selective picks some_
  have top : last.topLevelObjects.live = objects := by
    rw [live,none_,List.nil_append]
  have distinct : objects.Nodup := top ▸ selecting.distinct
  obtain ⟨renamed,fresh,_⟩ := nameSelections_exact distinct 0 last.heap
  have nonempty : objects ≠ [] := List.ne_nil_of_length_pos (count ▸ List.length_pos_iff.mpr some_)
  have made : ∀ object ∈ objects, object < last.heap.fresh ∧ object ≠ virtualSuperObject :=
    fun object member => selecting.made object (top ▸ member)
  have returns : Returns (nameSelections 0 objects last.heap) (returnObjects last) objects := by
    unfold returnObjects
    rw [selective,if_neg Bool.false_ne_true,← top]
    apply moveObjects_exact selecting.tight selecting.distinct
    · intro object member
      exact (selecting.made object member).2
    · rwa [top]
    · rw [top]
      omega
  exact ⟨count,distinct,made,renamed,returns,returns.fresh.trans fresh⟩

theorem getDataObjects_parts (ran : getDataObjects file chunked depth fuel names = some (0,after)) : ∃ skeleton last,
    makeObjectTreeSkeleton file fuel startHeap = some (0,skeleton) ∧
    fillVariables (fillAt file chunked depth) (cloneData depth) fuel names (openSession skeleton) = some (0,last) ∧
    returnObjects last = after := by
  obtain ⟨⟨code,skeleton⟩,made,ran⟩ := Option.bind_eq_some_iff.mp ran
  dsimp only at ran
  split at ran
  · cases ran
  rename_i zero
  obtain rfl : code = 0 := Decidable.not_not.mp zero
  obtain ⟨⟨code,last⟩,filled,ran⟩ := Option.bind_eq_some_iff.mp ran
  dsimp only at ran
  split at ran
  · cases ran
  rename_i zero
  obtain rfl : code = 0 := Decidable.not_not.mp zero
  cases ran
  exact ⟨skeleton,last,made,filled,rfl⟩

theorem getDataObjects_unmade (some_ : names ≠ []) (few : names.length < 2^31) (named : ∀ name ∈ names, name ≠ [])
    (ran : getDataObjects file chunked depth fuel names = some (0,after)) (unmade : after.fresh ≤ ptr) :
    after.objects ptr = initializeObject := by
  obtain ⟨skeleton,last,made,filled,rfl⟩ := getDataObjects_parts ran
  obtain ⟨objects,picks,selecting,live⟩ := fillVariables_picks (opened_selecting made) named filled
  obtain ⟨_,_,inside,renamed,returns,fresh⟩ := picks_return picks selecting live rfl some_ few
  rw [fresh] at unmade
  have notRoot : ptr ≠ virtualSuperObject := Nat.ne_of_gt (Nat.lt_of_lt_of_le selecting.valid.root unmade)
  have outside : ptr ∉ objects := fun member => Nat.not_lt_of_le unmade (inside ptr member).1
  rw [returns.others ptr notRoot outside,renamed.2 ptr outside]
  exact selecting.valid.blank ptr unmade

theorem fillVariables_root {s next : Session}
    (good : (s.heap.Valid ∧ ∀ obj ∈ (s.heap.objects virtualSuperObject).subObjects.nodes, obj < s.heap.fresh) ∧
      (s.heap.objects virtualSuperObject).matlabInternalType = .unknownClass)
    (ran : fillVariables (fillAt file chunked depth) (cloneData depth) fuel names s = some (0,next)) :
    (next.heap.objects virtualSuperObject).matlabInternalType = .unknownClass := by
  induction names generalizing s with
  | nil =>
    cases ran
    exact good.2
  | cons variableName names ih =>
    obtain ⟨⟨code,middle⟩,first,later⟩ := Option.bind_eq_some_iff.mp ran
    dsimp only at later
    split at later
    · cases later
    · rename_i zero
      obtain rfl : code = 0 := Decidable.not_not.mp zero
      have between := fillVariable_keeps (root_keeping file chunked depth) good (fun _ _ _ => trivial) (fun _ _ _ => trivial) first
      exact ih between later

theorem update_class {heap : Heap} {change : Data → Data} (same : ∀ data, (change data).matlabInternalType = data.matlabInternalType)
    (object ptr : Nat) : ((heap.update object change).objects ptr).matlabInternalType = (heap.objects ptr).matlabInternalType := by
  by_cases here : ptr = object
  · subst here
    rw [Heap.update_same]
    exact same _
  · rw [Heap.update_other _ here]

theorem nameSelections_class (i : Nat) (objects : List Nat) (heap : Heap) (ptr : Nat) :
    ((nameSelections i objects heap).objects ptr).matlabInternalType = (heap.objects ptr).matlabInternalType := by
  induction objects generalizing i heap with
  | nil => rfl
  | cons object rest ih =>
    have later := ih (i+1) (nameSelection i heap object)
    have named : ((nameSelection i heap object).objects ptr).matlabInternalType = (heap.objects ptr).matlabInternalType := by
      apply update_class
      exact fun _ => rfl
    exact later.trans named

theorem moveObjects_class (objects : List Nat) (heap : Heap) (ptr : Nat) :
    ((objects.foldl moveObject heap).objects ptr).matlabInternalType = (heap.objects ptr).matlabInternalType := by
  induction objects generalizing heap with
  | nil => rfl
  | cons object rest ih =>
    have moved : ((moveObject heap object).objects ptr).matlabInternalType = (heap.objects ptr).matlabInternalType := by
      unfold moveObject
      rw [update_class,update_class]
      all_goals exact fun _ => rfl
    exact (ih (moveObject heap object)).trans moved

theorem returnObjects_class (s : Session) (ptr : Nat) :
    ((returnObjects s).objects ptr).matlabInternalType = (s.heap.objects ptr).matlabInternalType := by
  have named : ((if s.isGettingEverything then s.heap else nameSelections 0 s.topLevelObjects.live s.heap).objects
      ptr).matlabInternalType = (s.heap.objects ptr).matlabInternalType := by
    split
    · rfl
    · exact nameSelections_class 0 _ _ ptr
  rw [← named]
  unfold returnObjects moveObjects
  dsimp only
  split
  · rw [moveObjects_class,update_class,update_class]
    all_goals exact fun _ => rfl
  · rw [update_class]
    exact fun _ => rfl

theorem getDataObjects_root (ran : getDataObjects file chunked depth fuel names = some (0,after)) :
    (after.objects virtualSuperObject).matlabInternalType = .unknownClass := by
  obtain ⟨skeleton,last,made,filled,rfl⟩ := getDataObjects_parts ran
  have start := opened_selecting made
  have unread := (makeObjectTreeSkeleton_untouched made).unread virtualSuperObject
  have class_ : (skeleton.objects virtualSuperObject).matlabInternalType = .unknownClass := by
    rw [unread]
    rfl
  rw [returnObjects_class]
  exact fillVariables_root ⟨⟨start.valid,start.listed⟩,class_⟩ filled

-- What getDataObjects returns for some names: under virtual_super_object there is one
-- object for each name, in order and no object twice, and nothing else is changed
-- since the last name was filled.
theorem getDataObjects_selects (file : MatFile) (chunked : MetaData → Option (Nat × DataArrays)) (depth fuel : Nat)
    (variableNames : List Text) (after : Heap) (some_ : variableNames ≠ []) (few : variableNames.length < 2^31)
    (named : ∀ variableName ∈ variableNames, variableName ≠ [])
    (ran : getDataObjects file chunked depth fuel variableNames = some (0,after)) :
    ∃ skeleton objects last, makeObjectTreeSkeleton file fuel startHeap = some (0,skeleton) ∧
      Picks file chunked depth fuel (openSession skeleton) variableNames objects last ∧
      objects.Nodup ∧ objects.length = variableNames.length ∧ after.children virtualSuperObject = objects ∧
      (after.objects virtualSuperObject).numSubObjs = objects.length ∧
      (∀ i object, objects[i]? = some object → after.objects object = selectedAs i (last.heap.objects object)) ∧
      ∀ ptr, ptr ≠ virtualSuperObject → ptr ∉ objects → after.objects ptr = last.heap.objects ptr := by
  obtain ⟨skeleton,last,made,filled,rfl⟩ := getDataObjects_parts ran
  obtain ⟨objects,picks,selecting,live⟩ := fillVariables_picks (opened_selecting made) named filled
  obtain ⟨count,distinct,_,renamed,returns,_⟩ := picks_return picks selecting live rfl some_ few
  refine ⟨skeleton,objects,last,made,picks,distinct,count,returns.children,returns.numSubObjs,fun i object at_ => ?_,
    fun ptr notRoot outside => ?_⟩
  · rw [returns.moved object (List.mem_of_getElem? at_),renamed.1 i object at_,Nat.zero_add]
    rfl
  · rw [returns.others ptr notRoot outside,renamed.2 ptr outside]

-- The field, the struct that has it, and a clone of the struct.
theorem getDataObjects_g : ∃ after objects, getDataObjects structFile (fun _ => none) 3 3
      [textOf "g.x",textOf "g",textOf "g"] = some (0,after) ∧
    objects.Nodup ∧ objects.length = 3 ∧ after.children virtualSuperObject = objects ∧ objects = [2,1,3] := by
  have code : (getDataObjects structFile (fun _ => none) 3 3 [textOf "g.x",textOf "g",textOf "g"]).map
      (fun ran => (ran.1,ran.2.children virtualSuperObject)) = some (0,[2,1,3]) := by decide +kernel
  obtain ⟨⟨_,after⟩,ran,same⟩ := Option.map_eq_some_iff.mp code
  simp only [Prod.mk.injEq] at same
  obtain ⟨rfl,children⟩ := same
  obtain ⟨_,objects,_,_,_,distinct,count,returned,_⟩ := getDataObjects_selects structFile (fun _ => none) 3 3 _ after
    (List.cons_ne_nil _ _) (by decide) (by simp [textOf]) ran
  exact ⟨after,objects,ran,distinct,count,returned,returned.symm.trans children⟩

theorem fillVariables_enrolls {s next : Session}
    (ran : fillVariables (fillAt file chunked depth) (cloneData depth) fuel names s = some (code,next)) :
    Enrolls s.heap next.heap := by
  induction names generalizing s with
  | nil =>
    cases ran
    exact .refl _
  | cons variableName names ih =>
    obtain ⟨⟨code,middle⟩,first,later⟩ := Option.bind_eq_some_iff.mp ran
    have one := fillVariable_enrolls (fillAt_enrolls file chunked depth) (cloneData_enrolls depth) first
    dsimp only at later
    split at later
    · cases later
      exact one
    · exact one.trans (ih later)

theorem nameSelections_enrolls (first : Nat) (objects : List Nat) (heap : Heap) :
    Enrolls heap (nameSelections first objects heap) := by
  induction objects generalizing first heap with
  | nil => exact .refl _
  | cons object rest ih =>
    have named : Enrolls heap (nameSelection first heap object) := .update _ _ _
    exact named.trans (ih _ _)

theorem moveObjects_enrolls (topLevelObjects : Queue Nat) (heap : Heap) : Enrolls heap (moveObjects topLevelObjects heap) := by
  have moves : ∀ (objects : List Nat) (heap : Heap), Enrolls heap (objects.foldl moveObject heap) := by
    intro objects
    induction objects with
    | nil => exact fun heap => .refl _
    | cons object rest ih =>
      intro heap
      have moved : Enrolls heap (moveObject heap object) := .same rfl rfl
      exact moved.trans (ih _)
  unfold moveObjects
  dsimp only
  split
  · apply Enrolls.trans (.update _ _ _)
    apply Enrolls.trans (.update _ _ _)
    exact moves _ _
  · exact .update _ _ _

theorem getDataObjects_enrolled (file : MatFile) (chunked : MetaData → Option (Nat × DataArrays)) (depth fuel : Nat)
    (variableNames : List Text) (code : Nat) (after : Heap)
    (ran : getDataObjects file chunked depth fuel variableNames = some (code,after)) : after.Enrolled := by
  obtain ⟨⟨skeletonCode,skeleton⟩,made,ran⟩ := Option.bind_eq_some_iff.mp ran
  have start := makeObjectTreeSkeleton_enrolled made
  dsimp only at ran
  split at ran
  · cases ran
    exact start
  obtain ⟨⟨fillCode,last⟩,filled,ran⟩ := Option.bind_eq_some_iff.mp ran
  have whole := (fillVariables_enrolls filled).enrolled start
  dsimp only at ran
  split at ran
  · cases ran
    exact whole
  cases ran
  unfold returnObjects
  apply Enrolls.enrolled (moveObjects_enrolls _ _)
  split
  · exact whole
  · exact (nameSelections_enrolls _ _ _).enrolled whole

end Selection

end GetMatVar
