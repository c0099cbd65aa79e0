import GetMatVar.FillObject
import Mathlib.Logic.Relation

namespace GetMatVar

def Heap.Below (heap : Heap) (root object : Nat) : Prop :=
  Relation.ReflTransGen (fun parent child => child ∈ heap.children parent) root object

-- What every heap of a run satisfies: all objects are in object_queue, and what
-- one of them points to is allocated.
structure Heap.Valid (heap : Heap) : Prop where
  root : virtualSuperObject < heap.fresh
  unmapped : (heap.objects virtualSuperObject).thisObjAddress = undefAddr
  rootUnfilled : (heap.objects virtualSuperObject).isFilled = false
  registered : ∀ ptr, ptr ∈ heap.objectQueue.live ↔ ptr < heap.fresh
  queue : heap.objectQueue.Tight
  tight : ∀ ptr < heap.fresh, (heap.objects ptr).subObjects.Tight
  closed : ∀ ptr < heap.fresh, ∀ child ∈ heap.children ptr, child < heap.fresh
  supers : ∀ ptr < heap.fresh, ∀ super, (heap.objects ptr).superObject = some super → super < heap.fresh
  pristine : ∀ ptr < heap.fresh, (heap.objects ptr).isFilled = false → (heap.objects ptr).subObjectHeaderOffsets = none
  blank : ∀ ptr, heap.fresh ≤ ptr → heap.objects ptr = initializeObject

-- Nothing that was there before is touched by a clone.
structure Extends (heap after : Heap) : Prop where
  grows : heap.fresh ≤ after.fresh
  frame : ∀ ptr < heap.fresh, after.objects ptr = heap.objects ptr

theorem Extends.refl (heap : Heap) : Extends heap heap := ⟨Nat.le_refl _,fun _ _ => rfl⟩

theorem Extends.trans (left : Extends heap middle) (right : Extends middle after) : Extends heap after :=
  ⟨left.grows.trans right.grows,fun ptr older =>
    (right.frame ptr (Nat.lt_of_lt_of_le older left.grows)).trans (left.frame ptr older)⟩

theorem Extends.children (more : Extends heap after) (older : ptr < heap.fresh) : after.children ptr = heap.children ptr := by
  unfold Heap.children
  rw [more.frame ptr older]

section Frame
variable {clone : Heap → Nat → Option (Nat × Heap)}

theorem cloneSubObjects_extends
    (clones : ∀ heap old copy after, clone heap old = some (copy,after) → Extends heap after)
    (ran : cloneSubObjects clone newObject subs heap = some after) (newer : bound ≤ newObject) (wide : bound ≤ heap.fresh) :
    bound ≤ after.fresh ∧ ∀ ptr < bound, after.objects ptr = heap.objects ptr := by
  induction subs generalizing heap with
  | nil => cases ran; exact ⟨wide,fun _ _ => rfl⟩
  | cons sub rest ih =>
    obtain ⟨⟨copy,middle⟩,first,later⟩ := Option.bind_eq_some_iff.mp ran
    have step := clones _ _ _ _ first
    obtain ⟨grows,frame⟩ := ih later (wide.trans step.grows)
    refine ⟨grows,fun ptr older => ?_⟩
    rw [frame ptr older,Heap.update_other _ (by omega),step.frame ptr (by omega)]

theorem cloneData_extends (ran : cloneData fuel heap old = some (copy,after)) :
    copy = heap.fresh ∧ Extends heap after := by
  induction fuel generalizing heap old copy after with
  | zero => cases ran
  | succ fuel ih =>
    simp only [cloneData] at ran
    obtain ⟨middle,cloned,rest⟩ := Option.bind_eq_some_iff.mp ran
    cases rest
    obtain ⟨grows,frame⟩ := cloneSubObjects_extends (fun _ _ _ _ ran => (ih ran).2) cloned (Nat.le_refl heap.fresh)
      (Nat.le_succ _)
    exact ⟨rfl,grows,fun ptr older => (frame ptr older).trans (Heap.alloc_other _ (by omega))⟩

end Frame

def SameElement (heap after : Heap) (item copy : Nat) : Prop :=
  (after.objects copy).thisObjAddress = (heap.objects item).thisObjAddress ∧
    (after.objects copy).sCArrayIndex = (heap.objects item).sCArrayIndex ∧
    (after.objects copy).superObject = (heap.objects item).superObject

-- copy is a clone of the object that the heap had: the same fields, and clones of
-- its sub_objects in their order.
structure Copies (heap after : Heap) (old copy : Nat) : Prop where
  fields : ∃ queue : Queue Nat, queue.Tight ∧ after.objects copy = {heap.objects old with
    toMetaData:=clonedFields (heap.objects old).toMetaData,subObjects:=queue}
  items : List.Forall₂ (SameElement heap after) (heap.children old) (after.children copy)

-- The objects numbered from low to high are clones, and each is below at most one
-- of them, whose number is smaller.
structure Batch (heap after : Heap) (source : Nat → Prop) (low high : Nat) : Prop where
  copies : ∀ copy, low ≤ copy → copy < high → ∃ item, source item ∧ Copies heap after item copy
  inner : ∀ copy, low ≤ copy → copy < high → ∀ child ∈ after.children copy, copy < child ∧ child < high
  apart : ∀ copy other, low ≤ copy → copy < high → low ≤ other → other < high → copy ≠ other →
    ∀ child ∈ after.children copy, child ∉ after.children other

section Batch
variable {heap after later : Heap}

theorem forall₂_kept {R S : Nat → Nat → Prop} (all : List.Forall₂ R items elements)
    (kept : ∀ item, ∀ element ∈ elements, R item element → S item element) : List.Forall₂ S items elements := by
  induction all with
  | nil => exact .nil
  | cons here _ ih =>
    refine .cons (kept _ _ (by simp) here) (ih fun item element member => kept item element ?_)
    exact List.mem_cons_of_mem _ member

theorem Copies.transport (copied : Copies heap after old copy) (same : later.objects copy = after.objects copy)
    (inside : ∀ child ∈ after.children copy, later.objects child = after.objects child) : Copies heap later old copy := by
  have children : later.children copy = after.children copy := by rw [Heap.children,same]; rfl
  obtain ⟨queue,tight,fields⟩ := copied.fields
  refine ⟨⟨queue,tight,same.trans fields⟩,?_⟩
  rw [children]
  refine forall₂_kept copied.items fun item element member => ?_
  rintro ⟨address,index,super⟩
  have kept := inside element member
  exact ⟨by rw [kept,address],by rw [kept,index],by rw [kept,super]⟩

theorem Batch.empty (low : Nat) : Batch heap after source low low :=
  ⟨fun _ _ _ => by omega,fun _ _ _ => by omega,fun _ _ _ _ _ _ => by omega⟩

theorem Batch.transport (batch : Batch heap after source low high)
    (same : ∀ copy, low ≤ copy → copy < high → later.objects copy = after.objects copy) :
    Batch heap later source low high := by
  have children : ∀ copy, low ≤ copy → copy < high → later.children copy = after.children copy := by
    intro copy above below
    rw [Heap.children,same copy above below]
    rfl
  refine ⟨?_,?_,?_⟩
  · intro copy above below
    obtain ⟨item,from_,copied⟩ := batch.copies copy above below
    refine ⟨item,from_,copied.transport (same copy above below) fun child member => ?_⟩
    have inner := batch.inner copy above below child member
    exact same child (by omega) (by omega)
  · intro copy above below
    rw [children copy above below]
    exact batch.inner copy above below
  · intro copy other above below above' below'
    rw [children copy above below,children other above' below']
    exact batch.apart copy other above below above' below'

theorem Batch.widen (batch : Batch heap after source low high) (wider : ∀ item, source item → more item) :
    Batch heap after more low high :=
  ⟨fun copy above below => (batch.copies copy above below).imp fun item found => ⟨wider item found.1,found.2⟩,
    batch.inner,batch.apart⟩

theorem Batch.append (left : Batch heap after source low middle) (right : Batch heap after source middle high)
    (upper : middle ≤ high) : Batch heap after source low high := by
  refine ⟨?_,?_,?_⟩
  · intro copy above below
    by_cases first : copy < middle
    · exact left.copies copy above first
    · exact right.copies copy (by omega) below
  · intro copy above below child member
    by_cases first : copy < middle
    · have inner := left.inner copy above first child member
      omega
    · exact right.inner copy (by omega) below child member
  · intro copy other above below above' below' different child member also_
    by_cases first : copy < middle
    · by_cases second : other < middle
      · exact left.apart copy other above first above' second different child member also_
      · have := left.inner copy above first child member
        have := right.inner other (by omega) below' child also_
        omega
    · by_cases second : other < middle
      · have := right.inner copy (by omega) below child member
        have := left.inner other above' second child also_
        omega
      · exact right.apart copy other (by omega) below (by omega) below' different child member also_

end Batch

-- What one cloneData has added to the heap, seen from the heap base in which the
-- object that was cloned and all below it were made.
structure Cloned (base heap : Heap) (old : Nat) (after : Heap) : Prop where
  grows : heap.fresh < after.fresh
  batch : Batch base after (base.Below old) heap.fresh after.fresh
  top : Copies base after old heap.fresh
  queued : ∃ extra, after.objectQueue.live = heap.objectQueue.live++extra ∧
    ∀ ptr, ptr ∈ extra ↔ heap.fresh ≤ ptr ∧ ptr < after.fresh
  queue : after.objectQueue.Tight
  blank : ∀ ptr, after.fresh ≤ ptr → after.objects ptr = heap.objects ptr

-- The same for the loop over sub_objects that fills the queue of newObject.
structure ClonedItems (base heap : Heap) (newObject : Nat) (olds : List Nat) (after : Heap) : Prop where
  grows : heap.fresh ≤ after.fresh
  frame : ∀ ptr < heap.fresh, ptr ≠ newObject → after.objects ptr = heap.objects ptr
  parent : ∃ queue : Queue Nat, queue.Tight ∧ after.objects newObject = {heap.objects newObject with subObjects:=queue}
  items : ∃ copies, after.children newObject = heap.children newObject++copies ∧
    List.Forall₂ (SameElement base after) olds copies ∧
    ∀ copy ∈ copies, heap.fresh ≤ copy ∧ copy < after.fresh ∧
      ∀ other, heap.fresh ≤ other → other < after.fresh → copy ∉ after.children other
  batch : Batch base after (fun item => ∃ old ∈ olds, base.Below old item) heap.fresh after.fresh
  queued : ∃ extra, after.objectQueue.live = heap.objectQueue.live++extra ∧
    ∀ ptr, ptr ∈ extra ↔ heap.fresh ≤ ptr ∧ ptr < after.fresh
  queue : after.objectQueue.Tight
  blank : ∀ ptr, after.fresh ≤ ptr → after.objects ptr = heap.objects ptr

section Cloning
variable {base heap after : Heap}

theorem clonedItems_nil (tight : heap.objectQueue.Tight) (parent : (heap.objects newObject).subObjects.Tight) :
    ClonedItems base heap newObject [] heap where
  grows := Nat.le_refl _
  frame _ _ _ := rfl
  parent := ⟨_,parent,rfl⟩
  items := ⟨[],(List.append_nil _).symm,.nil,fun _ member => absurd member List.not_mem_nil⟩
  batch := .empty _
  queued := ⟨[],(List.append_nil _).symm,fun ptr => ⟨fun member => absurd member List.not_mem_nil,fun _ => by omega⟩⟩
  queue := tight
  blank _ _ := rfl

theorem clonedItems_cons (first : Extends heap middle) (cloned : Cloned base heap old middle) (made : newObject < heap.fresh)
    (parent : (heap.objects newObject).subObjects.Tight)
    (later : ClonedItems base (middle.update newObject fun object => {object with
      subObjects:=enqueue object.subObjects heap.fresh}) newObject olds after) :
    ClonedItems base heap newObject (old::olds) after := by
  have grows := cloned.grows
  have further : middle.fresh ≤ after.fresh := later.grows
  have kept : ∀ ptr < middle.fresh, ptr ≠ newObject → after.objects ptr = middle.objects ptr := fun ptr older different =>
    (later.frame ptr older different).trans (Heap.update_other _ different)
  have same : ∀ ptr, heap.fresh ≤ ptr → ptr < middle.fresh → after.objects ptr = middle.objects ptr :=
    fun ptr _ older => kept ptr older (by omega)
  have here := cloned.batch.transport same
  obtain ⟨queue,tight,object⟩ := later.parent
  obtain ⟨copies,children,elements,roots⟩ := later.items
  obtain ⟨extra,live,registered⟩ := cloned.queued
  obtain ⟨more,liveMore,registeredMore⟩ := later.queued
  have unmoved : middle.objects newObject = heap.objects newObject := first.frame newObject made
  refine ⟨by omega,?_,⟨queue,tight,?_⟩,⟨heap.fresh::copies,?_,.cons ?_ elements,?_⟩,?_,⟨extra++more,?_,?_⟩,later.queue,?_⟩
  · intro ptr older different
    exact (kept ptr (by omega) different).trans (first.frame ptr older)
  · rw [object,Heap.update_same,unmoved]
  · rw [children,Heap.children,Heap.update_same,unmoved]
    show (NodeList.enqueue _ _).live++copies = _
    rw [NodeList.enqueue_live parent,List.append_assoc]
    rfl
  · obtain ⟨_,_,fields⟩ := cloned.top.fields
    have copy := same heap.fresh (Nat.le_refl _) grows
    rw [fields] at copy
    exact ⟨by rw [copy],by rw [copy],by rw [copy]⟩
  · intro copy member
    rcases List.mem_cons.mp member with rfl | member
    · refine ⟨Nat.le_refl _,by omega,fun other above below child => ?_⟩
      by_cases inside : other < middle.fresh
      · have := here.inner other above inside _ child
        omega
      · have := later.batch.inner other (by simp only [Heap.update_fresh]; omega) below _ child
        omega
    · obtain ⟨above,below,alone⟩ := roots copy member
      simp only [Heap.update_fresh] at above alone
      refine ⟨by omega,below,fun other low high child => ?_⟩
      by_cases inside : other < middle.fresh
      · have := here.inner other low inside _ child
        omega
      · exact alone other (by omega) high child
  · refine Batch.append (here.widen ?_) (later.batch.widen ?_) further
    · exact fun item below => ⟨old,List.mem_cons_self,below⟩
    · rintro item ⟨other,member,below⟩
      exact ⟨other,List.mem_cons_of_mem _ member,below⟩
  · rw [liveMore,Heap.update_queue,live,List.append_assoc]
  · intro ptr
    rw [List.mem_append,registered,registeredMore,Heap.update_fresh]
    omega
  · intro ptr above
    rw [later.blank ptr above,Heap.update_other _ (by omega),cloned.blank ptr (by omega)]

theorem cloneSubObjects_items {clone : Heap → Nat → Option (Nat × Heap)}
    (clones : ∀ heap old copy after, Extends base heap → heap.objectQueue.Tight → old < base.fresh →
      clone heap old = some (copy,after) → copy = heap.fresh ∧ Extends heap after ∧ Cloned base heap old after)
    (ran : cloneSubObjects clone newObject olds heap = some after) (older : ∀ old ∈ olds, old < base.fresh)
    (agree : Extends base heap) (tight : heap.objectQueue.Tight) (newer : base.fresh ≤ newObject) (made : newObject < heap.fresh)
    (parent : (heap.objects newObject).subObjects.Tight) : ClonedItems base heap newObject olds after := by
  induction olds generalizing heap with
  | nil => cases ran; exact clonedItems_nil tight parent
  | cons old olds ih =>
    obtain ⟨⟨copy,middle⟩,first,rest⟩ := Option.bind_eq_some_iff.mp ran
    obtain ⟨rfl,more,cloned⟩ := clones _ _ _ _ agree tight (older old List.mem_cons_self) first
    have grows := cloned.grows
    refine clonedItems_cons more cloned made parent (ih rest ?_ ?_ cloned.queue ?_ ?_)
    · exact fun old member => older old (List.mem_cons_of_mem _ member)
    · refine ⟨agree.grows.trans more.grows,fun ptr below => ?_⟩
      rw [Heap.update_other _ (by omega)]
      exact (agree.trans more).frame ptr below
    · simp only [Heap.update_fresh]
      omega
    · rw [Heap.update_same,more.frame newObject made]
      exact NodeList.enqueue_tight parent _

theorem cloneData_cloned (closed : ∀ ptr < base.fresh, ∀ child ∈ base.children ptr, child < base.fresh)
    (agree : Extends base heap) (tight : heap.objectQueue.Tight) (older : old < base.fresh)
    (ran : cloneData fuel heap old = some (copy,after)) : Cloned base heap old after := by
  induction fuel generalizing heap old copy after with
  | zero => cases ran
  | succ fuel ih =>
    simp only [cloneData] at ran
    obtain ⟨middle,cloned,rest⟩ := Option.bind_eq_some_iff.mp ran
    cases rest
    have object := agree.frame old older
    have grows := agree.grows
    rw [object] at cloned
    have clones : ∀ heap old copy after, Extends base heap → heap.objectQueue.Tight → old < base.fresh →
        cloneData fuel heap old = some (copy,after) → copy = heap.fresh ∧ Extends heap after ∧ Cloned base heap old after :=
      fun _ _ _ _ agree tight older ran => ⟨(cloneData_extends ran).1,(cloneData_extends ran).2,ih agree tight older ran⟩
    have items := cloneSubObjects_items clones cloned
      (closed old older) ⟨by simp only [Heap.alloc_fresh]; omega,fun ptr below =>
        (Heap.alloc_other _ (by omega)).trans (agree.frame ptr below)⟩ tight grows (Nat.lt_succ_self _)
      (by rw [Heap.alloc_same]; exact NodeList.init_tight)
    obtain ⟨queue,filled,parent⟩ := items.parent
    obtain ⟨copies,children,elements,roots⟩ := items.items
    obtain ⟨extra,live,registered⟩ := items.queued
    have further : heap.fresh+1 ≤ middle.fresh := items.grows
    rw [Heap.alloc_same] at parent
    have listed : middle.children heap.fresh = copies := by
      rw [children,Heap.children,Heap.alloc_same]
      rfl
    simp only [Heap.alloc_fresh] at roots registered
    have top : Copies base (middle.register heap.fresh) old heap.fresh :=
      ⟨⟨queue,filled,parent⟩,by rw [← listed] at elements; exact elements⟩
    refine ⟨further,⟨?_,?_,?_⟩,top,⟨extra++[heap.fresh],?_,?_⟩,NodeList.enqueue_tight items.queue _,?_⟩
    · intro copy above below
      by_cases root : copy = heap.fresh
      · exact ⟨old,.refl,root ▸ top⟩
      · obtain ⟨item,⟨child,member,deeper⟩,copied⟩ := items.batch.copies copy (by simp only [Heap.alloc_fresh]; omega) below
        exact ⟨item,.head member deeper,copied.transport rfl fun _ _ => rfl⟩
    · intro copy above below child member
      by_cases root : copy = heap.fresh
      · subst root
        have inside := roots child (listed ▸ member)
        exact ⟨by omega,inside.2.1⟩
      · exact items.batch.inner copy (by simp only [Heap.alloc_fresh]; omega) below child member
    · intro copy other above below above' below' different child member also_
      have alone : ∀ ptr, heap.fresh < ptr → ptr < middle.fresh → ∀ child ∈ middle.children heap.fresh,
          child ∉ middle.children ptr := fun ptr newer made child member =>
        (roots child (listed ▸ member)).2.2 ptr newer made
      by_cases root : copy = heap.fresh
      · exact alone other (by omega) below' child (root ▸ member) also_
      · by_cases second : other = heap.fresh
        · exact alone copy (by omega) below child (second ▸ also_) member
        · exact items.batch.apart copy other (by simp only [Heap.alloc_fresh]; omega) below
            (by simp only [Heap.alloc_fresh]; omega) below' different child member also_
    · show (NodeList.enqueue _ _).live = _
      rw [NodeList.enqueue_live items.queue,live,List.append_assoc]
      rfl
    · intro ptr
      rw [List.mem_append,registered,List.mem_singleton]
      show _ ↔ _ ∧ ptr < middle.fresh
      omega
    · intro ptr above
      have made : middle.fresh ≤ ptr := above
      exact (items.blank ptr made).trans (Heap.alloc_other _ (by omega))

end Cloning

end GetMatVar
