import GetMatVar.CloneData

namespace GetMatVar

section Scan
variable {clone : Heap → Nat → Option (Nat × Heap)}

theorem dequeue_parts {queue : Queue Nat} (tight : queue.Tight) :
    (dequeue queue).1 = queue.live.head? ∧ (dequeue queue).2.live = queue.live.tail ∧
      (dequeue queue).2.Tight ∧ (dequeue queue).2.nodes = queue.nodes := by
  obtain ⟨head,tail,after⟩ := NodeList.dequeue_exact tight
  exact ⟨head,tail,after,NodeList.dequeue_nodes _⟩

theorem update_queue_twice (heap : Heap) (ptr : Nat) (first second : Queue Nat) :
    (heap.update ptr fun data => {data with subObjects:=first}).update ptr (fun data => {data with subObjects:=second}) =
      heap.update ptr fun data => {data with subObjects:=second} := Heap.update_update _ _

-- What the scan leaves: the object that was found, or a clone of it where it is an
-- element already, and behind it sub_objects with all its nodes.
inductive Scanned (clone : Heap → Nat → Option (Nat × Heap)) (heap : Heap) (object ref : Nat) : Nat → Heap → Prop where
  | missed (absent : ref ∉ heap.children object) (queue : Queue Nat)
      (nodes : queue.nodes = (heap.objects object).subObjects.nodes) :
      Scanned clone heap object ref ref (heap.update object fun data => {data with subObjects:=queue})
  | hit (present : ref ∈ heap.children object) (part queue : Queue Nat) (tight : part.Tight)
      (less : ∀ child ∈ part.live, child ∈ heap.children object)
      (cloned : clone (heap.update object fun data => {data with subObjects:=part}) ref = some (copy,middle))
      (nodes : queue.nodes = (heap.objects object).subObjects.nodes) :
      Scanned clone heap object ref copy (middle.update object fun data => {data with subObjects:=queue})

theorem scanSubObjects_exact
    (frame : ∀ heap old copy after, clone heap old = some (copy,after) → copy = heap.fresh ∧ Extends heap after)
    (made : object < heap.fresh) (tight : (heap.objects object).subObjects.Tight)
    (older : ∀ child ∈ heap.children object, child < heap.fresh) (all : left = (heap.children object).length)
    (ran : scanSubObjects clone object left ref heap = some (found,after)) : Scanned clone heap object ref found after := by
  induction left generalizing heap ref found after with
  | zero =>
    cases ran
    have empty : heap.children object = [] := List.eq_nil_of_length_eq_zero all.symm
    have same : heap = heap.update object fun data => {data with subObjects:=(heap.objects object).subObjects} := by
      simp [Heap.update]
    have absent : ref ∉ heap.children object := by
      rw [empty]
      exact List.not_mem_nil
    have missed := @Scanned.missed clone heap object ref absent (heap.objects object).subObjects rfl
    rw [← same] at missed
    exact missed
  | succ left ih =>
    obtain ⟨head,tail,tightAfter,nodes⟩ := dequeue_parts tight
    obtain ⟨first,rest,listed⟩ := List.exists_cons_of_length_eq_add_one all.symm
    have live : (heap.objects object).subObjects.live = first::rest := listed
    rw [live] at head tail
    simp only [scanSubObjects] at ran
    obtain ⟨obj,dequeued,scan⟩ := Option.bind_eq_some_iff.mp ran
    rw [head,List.head?_cons,Option.some.injEq] at dequeued
    subst dequeued
    generalize (dequeue (heap.objects object).subObjects).2 = part at *
    obtain ⟨⟨refAfter,heapAfter⟩,cloning,later⟩ := Option.bind_eq_some_iff.mp scan
    have children : (heap.update object fun data => {data with subObjects:=part}).children object = rest := by
      rw [Heap.children,Heap.update_same]
      exact tail
    have count : left = rest.length := by
      rw [listed] at all
      simpa using all
    by_cases same : first = ref
    · subst same
      rw [cloneIfSame,if_pos rfl] at cloning
      obtain ⟨rfl,more⟩ := frame _ _ _ _ cloning
      have kept : heapAfter.objects object = {heap.objects object with subObjects:=part} := by
        rw [more.frame object made,Heap.update_same]
      have restChildren : heapAfter.children object = rest := by
        rw [more.children made,children]
      have scanned := ih (Nat.lt_of_lt_of_le made more.grows) (by rw [kept]; exact tightAfter)
        (fun child member => by
          rw [restChildren] at member
          have older := older child (by rw [listed]; exact List.mem_cons_of_mem _ member)
          exact Nat.lt_of_lt_of_le older more.grows)
        (by rw [restChildren]; exact count) later
      have absent : heap.fresh ∉ heapAfter.children object := by
        rw [restChildren]
        intro member
        exact Nat.lt_irrefl _ (older _ (by rw [listed]; exact List.mem_cons_of_mem _ member))
      cases scanned with
      | missed _ queue kept_ =>
        refine .hit (by rw [listed]; exact List.mem_cons_self) part queue tightAfter ?_ cloning ?_
        · intro child member
          rw [tail] at member
          rw [listed]
          exact List.mem_cons_of_mem _ member
        · rw [kept_,kept]
          exact nodes
      | hit present => exact absurd present absent
    · rw [cloneIfSame,if_neg same] at cloning
      cases cloning
      have scanned := ih (show object < (heap.update object fun data => {data with subObjects:=part}).fresh from made)
        (by rw [Heap.update_same]; exact tightAfter)
        (fun child member => by
          rw [children] at member
          exact older child (by rw [listed]; exact List.mem_cons_of_mem _ member))
        (by rw [children]; exact count) later
      cases scanned with
      | missed absent queue kept_ =>
        rw [update_queue_twice]
        refine .missed ?_ queue ?_
        · rw [listed,List.mem_cons]
          rw [children] at absent
          rintro (rfl | member)
          · exact same rfl
          · exact absent member
        · rw [kept_,Heap.update_same]
          exact nodes
      | hit present further queue tightPart less cloned kept_ =>
        rw [update_queue_twice] at cloned
        rw [children] at present less
        refine .hit ?_ further queue tightPart ?_ cloned ?_
        · rw [listed]
          exact List.mem_cons_of_mem _ present
        · intro child member
          rw [listed]
          exact List.mem_cons_of_mem _ (less child member)
        · rw [kept_,Heap.update_same]
          exact nodes

end Scan

def placed (object i : Nat) (shortName longName : Text) (data : Data) : Data :=
  {data with sCArrayIndex:=i,shortName:=shortName,longName:=longName,superObject:=some object}

theorem attachElement_exact (ran : attachElement object ref i heap = some after) :
    ref ≠ object ∧ ∃ shortName longName, after = (heap.update object fun data => {data with
      subObjects:=enqueue data.subObjects ref}).update ref (placed object i shortName longName) := by
  obtain ⟨⟨shortName,longName⟩,named,rest⟩ := Option.bind_eq_some_iff.mp ran
  have different : ref ≠ object := by
    intro same
    simp [elementNames,same] at named
  simp only at rest
  split at rest
  · cases rest
    refine ⟨different,shortName,longName,?_⟩
    rw [Heap.update_comm (Ne.symm different),Heap.update_update]
    rfl
  · cases rest

section Resolve
variable {file : MatFile} {clone : Heap → Nat → Option (Nat × Heap)}

-- One round of the loop over the references, as far as it succeeds.
inductive ResolvedOne (file : MatFile) (clone : Heap → Nat → Option (Nat × Heap)) (heap : Heap) (object i offset : Nat) :
    Heap → Prop where
  | one (found : findObjectByHeaderAddress heap ((offset+file.sBlock.baseAddress)%2^addressBits) = some ref)
      (scanned : Scanned clone heap object ref element scan)
      (attached : attachElement object element i (scan.update object fun data => {data with
        subObjects:=restartQueue data.subObjects}) = some after) : ResolvedOne file clone heap object i offset after

theorem resolveReference_exact
    (frame : ∀ heap old copy after, clone heap old = some (copy,after) → copy = heap.fresh ∧ Extends heap after)
    (made : object < heap.fresh) (tight : (heap.objects object).subObjects.Tight)
    (older : ∀ child ∈ heap.children object, child < heap.fresh)
    (ran : resolveReference file clone object i offset heap = some (0,after)) :
    ResolvedOne file clone heap object i offset after := by
  simp only [resolveReference] at ran
  split at ran
  · cases ran
  · rename_i ref found
    obtain ⟨⟨element,scan⟩,scanning,rest⟩ := Option.bind_eq_some_iff.mp ran
    obtain ⟨attached,attaching,last⟩ := Option.bind_eq_some_iff.mp rest
    cases last
    have count : (heap.objects object).subObjects.length = (heap.children object).length := tight.counted
    exact .one found (scanSubObjects_exact frame made tight older count scanning) attaching

theorem resolveReferences_parts (ran : resolveReferences file clone object (left+1) i heap = some (0,after)) :
    ∃ offsets offset middle, (heap.objects object).subObjectHeaderOffsets = some offsets ∧ offsets[i]? = some (some offset) ∧
      resolveReference file clone object i offset heap = some (0,middle) ∧
      resolveReferences file clone object left (i+1) middle = some (0,after) := by
  simp only [resolveReferences] at ran
  obtain ⟨offsets,stored,rest⟩ := Option.bind_eq_some_iff.mp ran
  obtain ⟨written,at_,rest⟩ := Option.bind_eq_some_iff.mp rest
  obtain ⟨offset,read,rest⟩ := Option.bind_eq_some_iff.mp rest
  obtain ⟨⟨code,middle⟩,resolving,later⟩ := Option.bind_eq_some_iff.mp rest
  simp only at later
  split at later
  · cases later
  · rename_i zero
    rw [Decidable.not_not] at zero
    subst zero
    exact ⟨offsets,offset,middle,stored,by rw [at_,read],resolving,later⟩

end Resolve

end GetMatVar
