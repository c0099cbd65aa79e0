import GetMatVar.FillCalls
import GetMatVar.SkeletonHeap

namespace GetMatVar

-- All objects made on the way from one heap to another have been put into
-- object_queue, each once.
structure Enrolls (before after : Heap) : Prop where
  grows : before.fresh ≤ after.fresh
  made : ∃ made, after.objectQueue.nodes = before.objectQueue.nodes++made ∧
    made.Perm (List.range' before.fresh (after.fresh-before.fresh))

section Enrolls
variable {before middle after heap : Heap}

theorem Enrolls.same (fresh : after.fresh = before.fresh) (queue : after.objectQueue = before.objectQueue) :
    Enrolls before after := by
  refine ⟨Nat.le_of_eq fresh.symm,[],?_,?_⟩
  · rw [queue,List.append_nil]
  · rw [fresh,Nat.sub_self]
    exact .refl _

theorem Enrolls.refl (heap : Heap) : Enrolls heap heap := .same rfl rfl

theorem Enrolls.update (heap : Heap) (ptr : Nat) (change : Data → Data) : Enrolls heap (heap.update ptr change) := .same rfl rfl

theorem Enrolls.trans (left : Enrolls before middle) (right : Enrolls middle after) : Enrolls before after := by
  obtain ⟨first,nodes,here⟩ := left.made
  obtain ⟨second,more,later⟩ := right.made
  have grown := left.grows
  have growing := right.grows
  refine ⟨grown.trans growing,first++second,by rw [more,nodes,List.append_assoc],?_⟩
  have joined := here.append later
  rwa [← Nat.add_sub_cancel' grown,Nat.add_sub_cancel_left,List.range'_append_1,
    show middle.fresh-before.fresh+(after.fresh-(before.fresh+(middle.fresh-before.fresh))) = after.fresh-before.fresh by omega]
    at joined

theorem Enrolls.register (rest : Enrolls middle after) (fresh : middle.fresh = heap.fresh+1)
    (queue : middle.objectQueue = heap.objectQueue) : Enrolls heap (after.register heap.fresh) := by
  obtain ⟨made,nodes,others⟩ := rest.made
  have grown := rest.grows
  rw [fresh] at grown others
  refine ⟨Nat.le_of_succ_le grown,made++[heap.fresh],?_,?_⟩
  · show after.objectQueue.nodes++[heap.fresh] = _
    rw [nodes,queue,List.append_assoc]
  · show (made++[heap.fresh]).Perm (List.range' heap.fresh (after.fresh-heap.fresh))
    rw [show after.fresh-heap.fresh = after.fresh-(heap.fresh+1)+1 by omega,List.range'_succ]
    exact (List.perm_append_singleton _ _).trans (others.cons _)

end Enrolls

def EnrollsAll (act : Heap → Nat → Option (Nat × Heap)) : Prop :=
  ∀ heap object code after, act heap object = some (code,after) → Enrolls heap after

section Cloning
variable {heap after : Heap} {clone : Heap → Nat → Option (Nat × Heap)}

theorem cloneSubObjects_enrolls (clones : EnrollsAll clone) (ran : cloneSubObjects clone newObject olds heap = some after) :
    Enrolls heap after := by
  induction olds generalizing heap with
  | nil =>
    cases ran
    exact .refl _
  | cons old rest ih =>
    obtain ⟨⟨copy,middle⟩,first,later⟩ := Option.bind_eq_some_iff.mp ran
    have cloned := clones heap old copy middle first
    exact (cloned.trans (.update _ _ _)).trans (ih later)

theorem cloneData_enrolls (fuel : Nat) : EnrollsAll (cloneData fuel) := by
  induction fuel with
  | zero =>
    intro heap old copy after ran
    cases ran
  | succ fuel ih =>
    intro heap old copy after ran
    obtain ⟨middle,items,last⟩ := Option.bind_eq_some_iff.mp ran
    cases last
    exact .register (cloneSubObjects_enrolls ih items) rfl rfl

theorem scanSubObjects_enrolls (clones : EnrollsAll clone)
    (ran : scanSubObjects clone object left ref heap = some (element,after)) : Enrolls heap after := by
  induction left generalizing heap ref with
  | zero =>
    cases ran
    exact .refl _
  | succ left ih =>
    obtain ⟨obj,_,rest⟩ := Option.bind_eq_some_iff.mp ran
    obtain ⟨⟨next,middle⟩,chosen,later⟩ := Option.bind_eq_some_iff.mp rest
    refine Enrolls.trans ?_ (ih later)
    unfold cloneIfSame at chosen
    split at chosen
    · have cloned := clones _ _ _ _ chosen
      exact (Enrolls.update _ _ _).trans cloned
    · cases chosen
      exact .update _ _ _

theorem resolveReference_enrolls (clones : EnrollsAll clone)
    (ran : resolveReference file clone object i offset heap = some (code,after)) : Enrolls heap after := by
  unfold resolveReference at ran
  split at ran
  · cases ran
    exact .refl _
  · obtain ⟨⟨element,scan⟩,scanned,rest⟩ := Option.bind_eq_some_iff.mp ran
    obtain ⟨attached,attaching,last⟩ := Option.bind_eq_some_iff.mp rest
    cases last
    obtain ⟨_,shortName,longName,rfl⟩ := attachElement_exact attaching
    exact (scanSubObjects_enrolls clones scanned).trans (.same rfl rfl)

theorem resolveReferences_enrolls (clones : EnrollsAll clone)
    (ran : resolveReferences file clone object left i heap = some (code,after)) : Enrolls heap after := by
  induction left generalizing heap i with
  | zero =>
    cases ran
    exact .refl _
  | succ left ih =>
    obtain ⟨offsets,_,rest⟩ := Option.bind_eq_some_iff.mp ran
    obtain ⟨written,_,rest⟩ := Option.bind_eq_some_iff.mp rest
    obtain ⟨offset,_,rest⟩ := Option.bind_eq_some_iff.mp rest
    obtain ⟨⟨code,middle⟩,first,later⟩ := Option.bind_eq_some_iff.mp rest
    have one := resolveReference_enrolls clones first
    dsimp only at later
    split at later
    · cases later
      exact one
    · exact one.trans (ih later)

theorem fillAt_enrolls (file : MatFile) (chunked : MetaData → Option (Nat × DataArrays)) (depth : Nat) :
    EnrollsAll (fillAt file chunked depth) := by
  intro heap object code after ran
  unfold fillAt at ran
  cases filled : (heap.objects object).isFilled with
  | true =>
    unfold fillObject at ran
    rw [filled,if_pos rfl] at ran
    cases ran
    exact .refl _
  | false =>
    obtain ⟨superObject,returned,fields,superFields,filling⟩ := (fillObject_exact filled).mp ran
    have ended := filling.ended
    have base : Enrolls heap (opened heap superObject object (heap.objects object).thisObjAddress superFields fields) :=
      .same rfl rfl
    generalize opened heap superObject object (heap.objects object).thisObjAddress superFields fields = first at *
    cases returned with
    | some early =>
      obtain ⟨_,rfl⟩ := ended
      exact base
    | none =>
      unfold EndsWith at ended
      by_cases refers : Refers fields
      · rw [if_pos refers] at ended
        have resolved := resolveReferences_enrolls (cloneData_enrolls depth) ended
        exact (base.trans (.update _ _ _)).trans resolved
      · rw [if_neg refers] at ended
        obtain ⟨_,rfl⟩ := ended
        exact base

end Cloning

section Filling
variable {fill clone : Heap → Nat → Option (Nat × Heap)} {heap after : Heap}

theorem fillSubTrees_enrolls {tree : Heap → Nat → Option (Nat × Heap)} (trees : EnrollsAll tree)
    (ran : fillSubTrees tree left objects heap = some (code,after)) : Enrolls heap after := by
  induction left generalizing heap objects with
  | zero =>
    cases ran
    exact .refl _
  | succ left ih =>
    cases objects with
    | nil => cases ran
    | cons obj rest =>
      obtain ⟨⟨code,middle⟩,first,later⟩ := Option.bind_eq_some_iff.mp ran
      have one := trees _ _ _ _ first
      dsimp only at later
      split at later
      · cases later
        exact one
      · exact one.trans (ih later)

theorem fillDataTree_enrolls (fills : EnrollsAll fill) (fuel : Nat) : EnrollsAll (fillDataTree fill fuel) := by
  induction fuel with
  | zero =>
    intro heap object code after ran
    cases ran
  | succ fuel ih =>
    intro heap object code after ran
    obtain ⟨⟨code,middle⟩,first,later⟩ := Option.bind_eq_some_iff.mp ran
    have one := fills _ _ _ _ first
    dsimp only at later
    split at later
    · cases later
      exact one
    · exact one.trans (fillSubTrees_enrolls ih later)

theorem selectToken_enrolls (fills : EnrollsAll fill)
    (ran : selectToken fill heap object token rest = some (code,sub,tokens,after)) : Enrolls heap after := by
  unfold selectToken at ran
  split at ran
  · obtain ⟨found,_,ran⟩ := Option.bind_eq_some_iff.mp ran
    obtain ⟨⟨code,filled⟩,filling,ran⟩ := Option.bind_eq_some_iff.mp ran
    have one := fills _ _ _ _ filling
    dsimp only at ran
    split at ran
    · cases ran
      exact one
    split at ran
    · cases ran
    · cases ran
      exact one
  · obtain ⟨⟨code,middle⟩,first,ran⟩ := Option.bind_eq_some_iff.mp ran
    have one := fills _ _ _ _ first
    dsimp only at ran
    split at ran
    · cases ran
      exact one
    split at ran
    · split at ran
      · cases ran
      obtain ⟨found,_,ran⟩ := Option.bind_eq_some_iff.mp ran
      obtain ⟨⟨code,filled⟩,filling,ran⟩ := Option.bind_eq_some_iff.mp ran
      have both := one.trans (fills _ _ _ _ filling)
      dsimp only at ran
      split at ran
      · cases ran
        exact both
      split at ran
      · obtain ⟨element,_,ran⟩ := Option.bind_eq_some_iff.mp ran
        cases ran
        exact both
      · cases ran
        exact both
    · obtain ⟨element,_,ran⟩ := Option.bind_eq_some_iff.mp ran
      cases ran
      exact one

theorem selectObject_enrolls (fills : EnrollsAll fill)
    (ran : selectObject fill fuel heap object tokens = some (code,sub,after)) : Enrolls heap after := by
  induction fuel generalizing heap object tokens with
  | zero =>
    cases tokens with
    | nil =>
      cases ran
      exact .refl _
    | cons token rest => cases ran
  | succ fuel ih =>
    cases tokens with
    | nil =>
      cases ran
      exact .refl _
    | cons token rest =>
      obtain ⟨⟨code,next,left,middle⟩,selected,later⟩ := Option.bind_eq_some_iff.mp ran
      have one := selectToken_enrolls fills selected
      dsimp only at later
      split at later
      · cases later
        exact one
      · exact one.trans (ih later)

theorem fillVariableNames_enrolls (fills : EnrollsAll fill) {s next : Session}
    (ran : fillVariableNames fill fuel left s = some (code,next)) : Enrolls s.heap next.heap := by
  induction left generalizing s with
  | zero =>
    cases ran
    exact .refl _
  | succ left ih =>
    rw [fillVariableNames] at ran
    cases taken : dequeue (s.heap.objects virtualSuperObject).subObjects with
    | mk found queue =>
      rw [taken] at ran
      obtain ⟨obj,_,rest⟩ := Option.bind_eq_some_iff.mp ran
      have taking : Enrolls s.heap (s.heap.update virtualSuperObject fun data => {data with subObjects:=queue}) := .same rfl rfl
      dsimp only at rest
      split at rest
      · exact taking.trans (ih rest)
      · obtain ⟨⟨code,middle⟩,tree,later⟩ := Option.bind_eq_some_iff.mp rest
        have one := taking.trans (fillDataTree_enrolls fills fuel _ _ _ _ tree)
        dsimp only at later
        split at later
        · cases later
          exact one
        · have last := ih later
          exact one.trans last

theorem fillVariable_enrolls (fills : EnrollsAll fill) (clones : EnrollsAll clone) {s next : Session}
    (ran : fillVariable fill clone fuel variableName s = some (code,next)) : Enrolls s.heap next.heap := by
  unfold fillVariable at ran
  split at ran
  · cases ran
    exact .refl _
  split at ran
  · obtain ⟨⟨code,middle⟩,names,ran⟩ := Option.bind_eq_some_iff.mp ran
    have all := fillVariableNames_enrolls fills names
    dsimp only at ran
    split at ran
    · cases ran
      exact all
    · cases ran
      exact all.trans (.same rfl rfl)
  · obtain ⟨tokens,_,ran⟩ := Option.bind_eq_some_iff.mp ran
    split at ran
    · cases ran
    obtain ⟨⟨code,object,heap⟩,selected,ran⟩ := Option.bind_eq_some_iff.mp ran
    have one := selectObject_enrolls fills selected
    dsimp only at ran
    split at ran
    · cases ran
      exact one
    obtain ⟨⟨code,middle⟩,filled,ran⟩ := Option.bind_eq_some_iff.mp ran
    have both := one.trans (fillDataTree_enrolls fills fuel _ _ _ _ filled)
    dsimp only at ran
    split at ran
    · cases ran
      exact both
    obtain ⟨shared,_,ran⟩ := Option.bind_eq_some_iff.mp ran
    obtain ⟨⟨copy,after⟩,taken,ran⟩ := Option.bind_eq_some_iff.mp ran
    cases ran
    unfold cloneIfShared at taken
    split at taken
    · exact both.trans (clones _ _ _ _ taken)
    · cases taken
      exact both

end Filling

-- object_queue lists every object that was made, each once.
def Heap.Enrolled (heap : Heap) : Prop := heap.objectQueue.nodes.Perm (List.range heap.fresh)

section Skeleton
variable {heap after : Heap}

theorem Enrolls.enrolled (enrolls : Enrolls heap after) (good : heap.Enrolled) : after.Enrolled := by
  obtain ⟨made,nodes,rest⟩ := enrolls.made
  have joined := good.append rest
  have whole : List.range heap.fresh++List.range' heap.fresh (after.fresh-heap.fresh) = List.range after.fresh := by
    have ranges := List.range'_append_1 (s:=0) (m:=heap.fresh) (n:=after.fresh-heap.fresh)
    rwa [Nat.zero_add,Nat.add_sub_cancel' enrolls.grows,← List.range_eq_range',← List.range_eq_range'] at ranges
  unfold Heap.Enrolled
  rwa [nodes,← whole]

theorem enrolled_connects : Connects Heap.Enrolled := by
  intro heap superObject address name subObject after good made ran
  unfold connectSubObject at ran
  dsimp only at ran
  split at ran
  · cases ran
    refine ⟨?_,rfl,rfl⟩
    apply Enrolls.enrolled _ good
    exact .register (.refl _) rfl rfl
  · cases ran

theorem makeObjectTreeSkeleton_enrolled (ran : makeObjectTreeSkeleton file fuel startHeap = some (code,after)) :
    after.Enrolled := by
  have start : startHeap.Enrolled := List.Perm.refl [virtualSuperObject]
  exact (readTreeNode_walks enrolled_connects fuel _ _ _ _ _ _ start start_untouched.valid.root ran).1

end Skeleton

end GetMatVar
