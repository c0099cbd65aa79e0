import GetMatVar.CreateDataObjects
import GetMatVar.FillFrames

namespace GetMatVar

-- A heap in which no header is read yet, and every object is linked to the one
-- whose sub_object it is.
structure Heap.Untouched (heap : Heap) : Prop where
  valid : heap.Valid
  unfilled : ∀ ptr, (heap.objects ptr).isFilled = false
  unread : ∀ ptr, (heap.objects ptr).toMetaData = initializeObject.toMetaData
  linked : ∀ ptr < heap.fresh, ∀ child ∈ heap.children ptr, (heap.objects child).superObject = some ptr

section Walk
variable {heap after : Heap} {file : MatFile}

theorem start_object (ptr : Nat) : startHeap.objects ptr = initializeObject := by
  by_cases root : ptr = virtualSuperObject
  · rw [root]
    rfl
  · exact Heap.alloc_other initializeObject root

theorem start_untouched : startHeap.Untouched where
  valid := by
    refine ⟨by decide,rfl,rfl,fun ptr => ?_,NodeList.enqueue_tight NodeList.init_tight _,fun ptr _ => ?_,fun ptr _ child member => ?_,fun ptr _ super owned => ?_,
      fun ptr _ _ => ?_,fun ptr above => ?_⟩
    · show ptr ∈ [virtualSuperObject] ↔ ptr < 1
      rw [List.mem_singleton]
      exact Nat.lt_one_iff.symm
    · exact start_object ptr ▸ NodeList.init_tight
    · rw [Heap.children,start_object] at member
      cases member
    · rw [start_object] at owned
      cases owned
    · rw [start_object]
      rfl
    · exact start_object ptr
  unfilled ptr := by
    rw [start_object]
    rfl
  unread ptr := by
    rw [start_object]
  linked ptr _ child member := by
    rw [Heap.children,start_object] at member
    cases member

theorem Heap.Valid.enter (valid : heap.Valid) (data : Data) (empty : data.subObjects = initQueue)
    (owned : data.superObject = some superObject) (made : superObject < heap.fresh)
    (unread : data.subObjectHeaderOffsets = none) : ((heap.alloc data).register heap.fresh).Valid := by
  have objects : ∀ ptr, ptr ≠ heap.fresh → ((heap.alloc data).register heap.fresh).objects ptr = heap.objects ptr :=
    fun ptr different => Heap.alloc_other data different
  have here : ((heap.alloc data).register heap.fresh).objects heap.fresh = data := Heap.alloc_same data
  have fresh : ((heap.alloc data).register heap.fresh).fresh = heap.fresh+1 := rfl
  have live : ((heap.alloc data).register heap.fresh).objectQueue.live = heap.objectQueue.live++[heap.fresh] :=
    NodeList.enqueue_live valid.queue heap.fresh
  have root : virtualSuperObject ≠ heap.fresh := Nat.ne_of_lt valid.root
  refine ⟨Nat.lt_succ_of_lt valid.root,?_,?_,fun ptr => ?_,NodeList.enqueue_tight valid.queue heap.fresh,fun ptr below => ?_,
    fun ptr below child member => ?_,fun ptr below super owner => ?_,fun ptr below unfilled => ?_,fun ptr above => ?_⟩
  · rw [objects _ root]
    exact valid.unmapped
  · rw [objects _ root]
    exact valid.rootUnfilled
  · rw [live,List.mem_append,List.mem_singleton,valid.registered,fresh]
    omega
  · by_cases new : ptr = heap.fresh
    · rw [new,here,empty]
      exact NodeList.init_tight
    · rw [objects ptr new]
      exact valid.tight ptr (by omega)
  · rw [Heap.children] at member
    by_cases new : ptr = heap.fresh
    · rw [new,here,empty] at member
      cases member
    · rw [objects ptr new] at member
      exact Nat.lt_succ_of_lt (valid.closed ptr (by omega) child member)
  · by_cases new : ptr = heap.fresh
    · rw [new,here,owned] at owner
      cases owner
      exact Nat.lt_succ_of_lt made
    · rw [objects ptr new] at owner
      exact Nat.lt_succ_of_lt (valid.supers ptr (by omega) super owner)
  · by_cases new : ptr = heap.fresh
    · rw [new,here]
      exact unread
    · rw [objects ptr new] at unfilled ⊢
      exact valid.pristine ptr (by omega) unfilled
  · rw [objects ptr (by omega)]
    exact valid.blank ptr (by omega)

def withSubObject (subObject : Nat) (object : Data) : Data := {object with
  subObjects:=enqueue object.subObjects subObject,numSubObjs:=(object.numSubObjs+1)%2^32}

theorem connected_untouched (untouched : heap.Untouched) (made : superObject < heap.fresh)
    (ran : connectSubObject heap superObject address name = some (subObject,after)) :
    (after.register subObject).Untouched ∧ subObject = heap.fresh ∧ (after.register subObject).fresh = heap.fresh+1 := by
  unfold connectSubObject at ran
  dsimp only at ran
  split at ran
  · simp only [Option.some.injEq,Prod.mk.injEq] at ran
    obtain ⟨rfl,rfl⟩ := ran
    refine ⟨?_,rfl,rfl⟩
    generalize same : ({initializeObject with
      thisObjAddress:=address,superObject:=some superObject,
      isReference:=isReferenceGroup (heap.objects superObject),shortName:=name,
      longName:=longNameUnder (heap.objects superObject).longName name} : Data) = data
    have entered : ((heap.alloc data).register heap.fresh).Valid :=
      untouched.valid.enter data (by rw [← same]; rfl) (by rw [← same]) made (by rw [← same]; rfl)
    have older : superObject ≠ heap.fresh := Nat.ne_of_lt made
    have parent : ((heap.alloc data).register heap.fresh).objects superObject = heap.objects superObject :=
      Heap.alloc_other data older
    have live : (enqueue (heap.objects superObject).subObjects heap.fresh).live = heap.children superObject++[heap.fresh] :=
      NodeList.enqueue_live (untouched.valid.tight superObject made) heap.fresh
    show (((heap.alloc data).register heap.fresh).update superObject (withSubObject heap.fresh)).Untouched
    have objects : ∀ ptr, ptr ≠ superObject → ptr ≠ heap.fresh →
        (((heap.alloc data).register heap.fresh).update superObject (withSubObject heap.fresh)).objects ptr =
          heap.objects ptr := fun ptr atSuper new => by
      rw [Heap.update_other _ atSuper]
      exact Heap.alloc_other data new
    have first : (((heap.alloc data).register heap.fresh).update superObject (withSubObject heap.fresh)).objects superObject =
        withSubObject heap.fresh (heap.objects superObject) := by
      rw [Heap.update_same,parent]
    have last : (((heap.alloc data).register heap.fresh).update superObject (withSubObject heap.fresh)).objects heap.fresh =
        data := by
      rw [Heap.update_other _ (Ne.symm older)]
      exact Heap.alloc_same data
    refine ⟨?_,fun ptr => ?_,fun ptr => ?_,fun ptr below child member => ?_⟩
    · refine entered.change (Nat.lt_succ_of_lt made) _ ?_ ?_ (entered.supers superObject (Nat.lt_succ_of_lt made))
        (entered.pristine superObject (Nat.lt_succ_of_lt made)) ?_
      · rw [parent]
        exact NodeList.enqueue_tight (untouched.valid.tight superObject made) heap.fresh
      · intro child member
        rw [parent] at member
        change child ∈ (enqueue (heap.objects superObject).subObjects heap.fresh).live at member
        rw [live,List.mem_append,List.mem_singleton] at member
        rcases member with old | rfl
        · exact Nat.lt_succ_of_lt (untouched.valid.closed superObject made child old)
        · exact Nat.lt_succ_self _
      · rintro rfl
        exact ⟨entered.unmapped,entered.rootUnfilled⟩
    · by_cases atSuper : ptr = superObject
      · rw [atSuper,first]
        exact untouched.unfilled superObject
      · by_cases new : ptr = heap.fresh
        · rw [new,last,← same]
          rfl
        · rw [objects ptr atSuper new]
          exact untouched.unfilled ptr
    · by_cases atSuper : ptr = superObject
      · rw [atSuper,first]
        exact untouched.unread superObject
      · by_cases new : ptr = heap.fresh
        · rw [new,last,← same]
        · rw [objects ptr atSuper new]
          exact untouched.unread ptr
    · have owner : ∀ old < heap.fresh, ∀ super, (heap.objects old).superObject = some super →
          ((((heap.alloc data).register heap.fresh).update superObject (withSubObject heap.fresh)).objects old).superObject =
            some super := fun old early super owned => by
        by_cases atSuper : old = superObject
        · rw [atSuper] at owned ⊢
          rw [first]
          exact owned
        · rw [objects old atSuper (Nat.ne_of_lt early)]
          exact owned
      rw [Heap.children] at member
      by_cases atSuper : ptr = superObject
      · rw [atSuper,first] at member
        change child ∈ (enqueue (heap.objects superObject).subObjects heap.fresh).live at member
        rw [live,List.mem_append,List.mem_singleton] at member
        rcases member with old | rfl
        · have early := untouched.valid.closed superObject made child old
          rw [atSuper]
          exact owner child early superObject (untouched.linked superObject made child old)
        · rw [last,atSuper,← same]
      · by_cases new : ptr = heap.fresh
        · rw [new,last,← same] at member
          cases member
        · rw [objects ptr atSuper new] at member
          have early : ptr < heap.fresh := by
            simp only [Heap.update_fresh,Heap.register_fresh,Heap.alloc_fresh] at below
            omega
          exact owner child (untouched.valid.closed ptr early child member) ptr (untouched.linked ptr early child member)
  · cases ran

def Walks (kept : Heap → Prop) (visit : Nat → Nat → Nat → Heap → Option (Nat × Heap)) : Prop :=
  ∀ object nodeAddress heapAddress heap code after, kept heap → object < heap.fresh →
    visit object nodeAddress heapAddress heap = some (code,after) → kept after ∧ heap.fresh ≤ after.fresh

def Connects (kept : Heap → Prop) : Prop :=
  ∀ heap superObject address name subObject after, kept heap → superObject < heap.fresh →
    connectSubObject heap superObject address name = some (subObject,after) →
    kept (after.register subObject) ∧ subObject = heap.fresh ∧ (after.register subObject).fresh = heap.fresh+1

section Visit
variable {kept : Heap → Prop} {visit : Nat → Nat → Nat → Heap → Option (Nat × Heap)}

theorem readSymbols_walks (connects : Connects kept) (walks : Walks kept visit) (good : kept heap)
    (made : object < heap.fresh)
    (ran : readSymbols file visit object nodeAddress heapAddress count heap = some (code,after)) :
    kept after ∧ heap.fresh ≤ after.fresh := by
  induction count generalizing heap with
  | zero =>
    cases ran
    exact ⟨good,Nat.le_refl _⟩
  | succ count ih =>
    obtain ⟨name,_,rest⟩ := Option.bind_eq_some_iff.mp ran
    obtain ⟨⟨subObject,middle⟩,connected,walked⟩ := Option.bind_eq_some_iff.mp rest
    obtain ⟨entered,rfl,fresh⟩ := connects _ _ _ _ _ _ good made connected
    dsimp only at walked
    split at walked
    · obtain ⟨⟨deepCode,deep⟩,visited,last⟩ := Option.bind_eq_some_iff.mp walked
      obtain ⟨goodDeep,grows⟩ := walks _ _ _ _ _ _ entered (by omega) visited
      dsimp only at last
      split at last
      · cases last
        exact ⟨goodDeep,by omega⟩
      · obtain ⟨whole,more⟩ := ih goodDeep (by omega) last
        exact ⟨whole,by omega⟩
    · split at walked
      · cases walked
        exact ⟨entered,by omega⟩
      · obtain ⟨whole,more⟩ := ih entered (by omega) walked
        exact ⟨whole,by omega⟩

theorem readSnod_walks (connects : Connects kept) (walks : Walks kept visit) (good : kept heap) (made : object < heap.fresh)
    (ran : readSnod file visit object nodeAddress heapAddress heap = some (code,after)) :
    kept after ∧ heap.fresh ≤ after.fresh := by
  unfold readSnod at ran
  split at ran
  · obtain ⟨⟨deepCode,deep⟩,visited,last⟩ := Option.bind_eq_some_iff.mp ran
    cases last
    exact walks _ _ _ _ _ _ good made visited
  · exact readSymbols_walks connects walks good made ran

theorem readSubNodes_walks (connects : Connects kept) (walks : Walks kept visit) (good : kept heap)
    (made : object < heap.fresh)
    (ran : readSubNodes file visit object heapAddress addresses heap = some (code,after)) :
    kept after ∧ heap.fresh ≤ after.fresh := by
  induction addresses generalizing heap with
  | nil =>
    cases ran
    exact ⟨good,Nat.le_refl _⟩
  | cons address addresses ih =>
    obtain ⟨⟨nodeCode,middle⟩,first,rest⟩ := Option.bind_eq_some_iff.mp ran
    obtain ⟨goodMiddle,grows⟩ := readSnod_walks connects walks good made first
    dsimp only at rest
    split at rest
    · cases rest
      exact ⟨goodMiddle,grows⟩
    · obtain ⟨whole,more⟩ := ih goodMiddle (by omega) rest
      exact ⟨whole,by omega⟩

theorem readTreeNode_walks (connects : Connects kept) (fuel : Nat) : Walks kept (readTreeNode file fuel) := by
  induction fuel with
  | zero =>
    intro object nodeAddress heapAddress heap code after good made ran
    cases ran
  | succ fuel ih =>
    intro object nodeAddress heapAddress heap code after good made ran
    unfold readTreeNode at ran
    dsimp only at ran
    split at ran
    · exact readSubNodes_walks connects ih good made ran
    · cases ran
      exact ⟨good,Nat.le_refl _⟩

end Visit

theorem untouched_connects : Connects Heap.Untouched :=
  fun _ _ _ _ _ _ untouched made ran => connected_untouched untouched made ran

theorem makeObjectTreeSkeleton_untouched (ran : makeObjectTreeSkeleton file fuel startHeap = some (code,after)) :
    after.Untouched := by
  unfold makeObjectTreeSkeleton at ran
  exact (readTreeNode_walks untouched_connects fuel _ _ _ _ _ _ start_untouched start_untouched.valid.root ran).1

theorem connected_whole (untouched : heap.Untouched) (whole : heap.Whole virtualSuperObject) (made : superObject < heap.fresh)
    (ran : connectSubObject heap superObject address name = some (subObject,after)) :
    (after.register subObject).Whole virtualSuperObject := by
  unfold connectSubObject at ran
  dsimp only at ran
  split at ran
  · simp only [Option.some.injEq,Prod.mk.injEq] at ran
    obtain ⟨rfl,rfl⟩ := ran
    have root : virtualSuperObject ≠ heap.fresh := Nat.ne_of_lt untouched.valid.root
    unfold Heap.Whole Heap.children
    rw [Heap.register_objects]
    by_cases atRoot : virtualSuperObject = superObject
    · subst atRoot
      rw [Heap.update_same,Heap.alloc_other _ root]
      show (heap.objects virtualSuperObject).subObjects.nodes++[heap.fresh] = (NodeList.enqueue _ _).live
      rw [NodeList.enqueue_live (untouched.valid.tight virtualSuperObject made),whole]
      rfl
    · rw [Heap.update_other _ atRoot,Heap.alloc_other _ root]
      exact whole
  · cases ran

theorem whole_connects : Connects fun heap => heap.Untouched ∧ heap.Whole virtualSuperObject := by
  intro heap superObject address name subObject after good made ran
  obtain ⟨untouched,fresh⟩ := connected_untouched good.1 made ran
  exact ⟨⟨untouched,connected_whole good.1 good.2 made ran⟩,fresh⟩

theorem makeObjectTreeSkeleton_whole (ran : makeObjectTreeSkeleton file fuel startHeap = some (code,after)) :
    after.Whole virtualSuperObject := by
  unfold makeObjectTreeSkeleton at ran
  exact (readTreeNode_walks whole_connects fuel _ _ _ _ _ _ ⟨start_untouched,rfl⟩ start_untouched.valid.root ran).1.2

end Walk

def skeletonHeap (file : MatFile) (fuel : Nat) : Heap := ((makeObjectTreeSkeleton file fuel startHeap).map (·.2)).getD startHeap

theorem skeletonHeap_made (code : (makeObjectTreeSkeleton file fuel startHeap).map (·.1) = some 0) :
    makeObjectTreeSkeleton file fuel startHeap = some (0,skeletonHeap file fuel) := by
  obtain ⟨⟨_,heap⟩,ran,same⟩ := Option.map_eq_some_iff.mp code
  cases same
  unfold skeletonHeap
  rw [ran]
  rfl

end GetMatVar
