import GetMatVar.ResolveReferences
import Mathlib.Data.List.Find

namespace GetMatVar

section Valid
variable {heap after : Heap} {object : Nat}

theorem Heap.Valid.change (valid : heap.Valid) (made : object < heap.fresh) (change : Data → Data)
    (tight : (change (heap.objects object)).subObjects.Tight)
    (closed : ∀ child ∈ (change (heap.objects object)).subObjects.live, child < heap.fresh)
    (supers : ∀ super, (change (heap.objects object)).superObject = some super → super < heap.fresh)
    (pristine : (change (heap.objects object)).isFilled = false →
      (change (heap.objects object)).subObjectHeaderOffsets = none)
    (root : object = virtualSuperObject → (change (heap.objects object)).thisObjAddress = undefAddr ∧
      (change (heap.objects object)).isFilled = false) : (heap.update object change).Valid where
  root := valid.root
  unmapped := by
    by_cases same : virtualSuperObject = object
    · subst same
      rw [Heap.update_same]
      exact (root rfl).1
    · rw [Heap.update_other _ same]
      exact valid.unmapped
  rootUnfilled := by
    by_cases same : virtualSuperObject = object
    · subst same
      rw [Heap.update_same]
      exact (root rfl).2
    · rw [Heap.update_other _ same]
      exact valid.rootUnfilled
  registered := valid.registered
  queue := valid.queue
  tight ptr below := by
    by_cases same : ptr = object
    · subst same
      rw [Heap.update_same]
      exact tight
    · rw [Heap.update_other _ same]
      exact valid.tight ptr below
  closed ptr below := by
    unfold Heap.children
    by_cases same : ptr = object
    · subst same
      rw [Heap.update_same]
      exact closed
    · rw [Heap.update_other _ same]
      exact valid.closed ptr below
  supers ptr below := by
    by_cases same : ptr = object
    · subst same
      rw [Heap.update_same]
      exact supers
    · rw [Heap.update_other _ same]
      exact valid.supers ptr below
  pristine ptr below := by
    by_cases same : ptr = object
    · subst same
      rw [Heap.update_same]
      exact pristine
    · rw [Heap.update_other _ same]
      exact valid.pristine ptr below
  blank ptr above := by
    rw [Heap.update_other _ (Nat.ne_of_gt (Nat.lt_of_lt_of_le made above))]
    exact valid.blank ptr above

theorem Heap.Valid.requeue (valid : heap.Valid) (made : object < heap.fresh) {queue : Queue Nat} (tight : queue.Tight)
    (closed : ∀ child ∈ queue.live, child < heap.fresh) :
    (heap.update object fun data => {data with subObjects:=queue}).Valid := by
  refine valid.change made _ tight closed (valid.supers object made) (valid.pristine object made) ?_
  rintro rfl
  exact ⟨valid.unmapped,valid.rootUnfilled⟩

theorem Heap.Valid.below (valid : heap.Valid) (older : top < heap.fresh) (below : heap.Below top item) : item < heap.fresh := by
  induction below with
  | refl => exact older
  | tail _ child ih => exact valid.closed _ ih _ child

theorem Heap.Valid.clone (valid : heap.Valid) (older : old < heap.fresh) (ran : cloneData fuel heap old = some (copy,after)) :
    after.Valid := by
  obtain ⟨_,more⟩ := cloneData_extends ran
  have cloned := cloneData_cloned valid.closed (Extends.refl heap) valid.queue older ran
  obtain ⟨extra,live,registered⟩ := cloned.queued
  have grows := more.grows
  -- Every object of the clone comes from one that was there.
  have source : ∀ ptr, heap.fresh ≤ ptr → ptr < after.fresh → ∃ item < heap.fresh, Copies heap after item ptr :=
    fun ptr newer made => by
      obtain ⟨item,below,copied⟩ := cloned.batch.copies ptr newer made
      exact ⟨item,valid.below older below,copied⟩
  refine ⟨Nat.lt_of_lt_of_le valid.root grows,?_,?_,?_,cloned.queue,?_,?_,?_,?_,?_⟩
  · rw [more.frame _ valid.root]
    exact valid.unmapped
  · rw [more.frame _ valid.root]
    exact valid.rootUnfilled
  · intro ptr
    rw [live,List.mem_append,valid.registered,registered]
    omega
  · intro ptr made
    by_cases first : ptr < heap.fresh
    · rw [more.frame ptr first]
      exact valid.tight ptr first
    · obtain ⟨item,_,copied⟩ := source ptr (by omega) made
      obtain ⟨queue,tight,fields⟩ := copied.fields
      rw [fields]
      exact tight
  · intro ptr made child member
    by_cases first : ptr < heap.fresh
    · rw [more.children first] at member
      have inside := valid.closed ptr first child member
      omega
    · exact (cloned.batch.inner ptr (by omega) made child member).2
  · intro ptr made super owned
    by_cases first : ptr < heap.fresh
    · rw [more.frame ptr first] at owned
      have inside := valid.supers ptr first super owned
      omega
    · obtain ⟨item,early,copied⟩ := source ptr (by omega) made
      obtain ⟨queue,_,fields⟩ := copied.fields
      rw [fields] at owned
      have inside := valid.supers item early super owned
      omega
  · intro ptr made unfilled
    by_cases first : ptr < heap.fresh
    · rw [more.frame ptr first] at unfilled ⊢
      exact valid.pristine ptr first unfilled
    · obtain ⟨item,early,copied⟩ := source ptr (by omega) made
      obtain ⟨queue,_,fields⟩ := copied.fields
      rw [fields] at unfilled ⊢
      have none_ := valid.pristine item early unfilled
      simp only [clonedFields,none_,Option.map_none]
  · intro ptr above
    rw [cloned.blank ptr above]
    exact valid.blank ptr (by omega)

end Valid

-- All nodes of sub_objects are in use: what a scan dequeues comes back.
def Heap.Whole (heap : Heap) (object : Nat) : Prop := (heap.objects object).subObjects.nodes = heap.children object

-- What a scan and the restart behind it leave for the element to be attached.
structure Prepared (heap : Heap) (object ref element : Nat) (ready : Heap) : Prop where
  valid : ready.Valid
  grows : heap.fresh ≤ ready.fresh
  allocated : element < ready.fresh
  frame : ∀ ptr < heap.fresh, ptr ≠ object → ready.objects ptr = heap.objects ptr
  parent : ∃ queue : Queue Nat, ready.objects object = {heap.objects object with subObjects:=queue}
  children : ready.children object = heap.children object
  whole : ready.Whole object
  queued : ∃ extra, ready.objectQueue.live = heap.objectQueue.live++extra ∧
    ∀ ptr, ptr ∈ extra ↔ heap.fresh ≤ ptr ∧ ptr < ready.fresh

-- The object itself, or its clone where it is an element already.
inductive Chosen (fuel : Nat) (heap : Heap) (object ref : Nat) : Nat → Heap → Prop where
  | itself (absent : ref ∉ heap.children object) (fresh : ready.fresh = heap.fresh) : Chosen fuel heap object ref ref ready
  | copied (present : ref ∈ heap.children object) (part : Queue Nat) (tight : part.Tight)
      (less : ∀ child ∈ part.live, child ∈ heap.children object)
      (cloned : Cloned (heap.update object fun data => {data with subObjects:=part})
        (heap.update object fun data => {data with subObjects:=part}) ref middle)
      (same : ∀ ptr, ptr ≠ object → ready.objects ptr = middle.objects ptr) (fresh : ready.fresh = middle.fresh) :
      Chosen fuel heap object ref heap.fresh ready

section Prepare
variable {heap scan : Heap}

theorem scanned_prepared (valid : heap.Valid) (made : object < heap.fresh) (whole : heap.Whole object) (older : ref < heap.fresh)
    (scanned : Scanned (cloneData fuel) heap object ref element scan) :
    Prepared heap object ref element (scan.update object fun data => {data with subObjects:=restartQueue data.subObjects}) ∧
      Chosen fuel heap object ref element
        (scan.update object fun data => {data with subObjects:=restartQueue data.subObjects}) := by
  cases scanned with
  | missed absent queue nodes =>
    obtain ⟨live,tight⟩ := NodeList.restart_exact queue.toNodeList
    have all : (restartQueue queue).live = heap.children object := live.trans (nodes.trans whole)
    rw [Heap.update_update]
    have again : ((fun data : Data => {data with subObjects:=restartQueue data.subObjects}) ∘
        fun data : Data => {data with subObjects:=queue}) = fun data : Data => {data with subObjects:=restartQueue queue} := rfl
    rw [again]
    have next := valid.requeue made (show (restartQueue queue).Tight from tight) (by rw [all]; exact valid.closed object made)
    refine ⟨⟨next,Nat.le_refl _,older,fun ptr _ different => Heap.update_other _ different,⟨_,Heap.update_same _⟩,?_,?_,
      ⟨[],(List.append_nil _).symm,fun ptr => ⟨fun member => absurd member List.not_mem_nil,fun between => ?_⟩⟩⟩,.itself absent rfl⟩
    · unfold Heap.children
      rw [Heap.update_same]
      exact all
    · unfold Heap.Whole Heap.children
      rw [Heap.update_same]
      exact live.symm
    · simp only [Heap.update_fresh] at between
      omega
  | @hit _ middle present part queue tightPart less cloned nodes =>
    obtain ⟨live,tight⟩ := NodeList.restart_exact queue.toNodeList
    have all : (restartQueue queue).live = heap.children object := live.trans (nodes.trans whole)
    have partial_ := valid.requeue made tightPart fun child member => valid.closed object made child (less child member)
    have copies := cloneData_cloned partial_.closed (Extends.refl _) partial_.queue older cloned
    have further := partial_.clone older cloned
    obtain ⟨rfl,more⟩ := cloneData_extends cloned
    have grows : heap.fresh < middle.fresh := copies.grows
    rw [Heap.update_update]
    have again : ((fun data : Data => {data with subObjects:=restartQueue data.subObjects}) ∘
        fun data : Data => {data with subObjects:=queue}) = fun data : Data => {data with subObjects:=restartQueue queue} := rfl
    rw [again]
    have next := further.requeue (Nat.lt_trans made grows) (show (restartQueue queue).Tight from tight) (by
      rw [all]
      exact fun child member => Nat.lt_trans (valid.closed object made child member) grows)
    obtain ⟨extra,queued,registered⟩ := copies.queued
    refine ⟨⟨next,Nat.le_of_lt grows,grows,?_,⟨restartQueue queue,?_⟩,?_,?_,⟨extra,queued,registered⟩⟩,
      .copied present part tightPart less copies (fun ptr different => Heap.update_other _ different) rfl⟩
    · intro ptr below different
      rw [Heap.update_other _ different,more.frame ptr below,Heap.update_other _ different]
    · rw [Heap.update_same,more.frame object made,Heap.update_same]
    · unfold Heap.children
      rw [Heap.update_same]
      exact all
    · unfold Heap.Whole Heap.children
      rw [Heap.update_same]
      exact live.symm

theorem find_below (valid : heap.Valid) (found : findObjectByHeaderAddress heap address = some ref) : ref < heap.fresh :=
  (valid.registered ref).mp (List.mem_of_find?_eq_some found)

theorem find_address (found : findObjectByHeaderAddress heap address = some ref) :
    (heap.objects ref).thisObjAddress = address := by
  have same := List.find?_some found
  simpa using same

theorem resolvedOne_parts (valid : heap.Valid) (made : object < heap.fresh) (whole : heap.Whole object)
    (one : ResolvedOne file (cloneData fuel) heap object i offset after) : ∃ ref element ready,
      findObjectByHeaderAddress heap ((offset+file.sBlock.baseAddress)%2^addressBits) = some ref ∧
      Prepared heap object ref element ready ∧ Chosen fuel heap object ref element ready ∧
      attachElement object element i ready = some after := by
  cases one with
  | one found scanned attached =>
    obtain ⟨prepared,chosen⟩ := scanned_prepared valid made whole (find_below valid found) scanned
    exact ⟨_,_,_,found,prepared,chosen,attached⟩

end Prepare

-- An object that a search by its address does not find, because another one with
-- the address comes before it.
def Shadowed (heap : Heap) (ptr : Nat) : Prop :=
  ∃ first, first ≠ ptr ∧ findObjectByHeaderAddress heap (heap.objects ptr).thisObjAddress = some first

-- What a fill leaves as it was, except at the object whose references it resolves.
structure Kept (open_ : Nat → Prop) (before after : Heap) : Prop where
  grows : before.fresh ≤ after.fresh
  address : ∀ ptr < before.fresh, (after.objects ptr).thisObjAddress = (before.objects ptr).thisObjAddress
  queued : ∃ extra, after.objectQueue.live = before.objectQueue.live++extra
  filled : ∀ ptr < before.fresh, (before.objects ptr).isFilled = true → (after.objects ptr).isFilled = true
  children : ∀ ptr < before.fresh, (before.objects ptr).isFilled = true → ¬open_ ptr →
    after.children ptr = before.children ptr
  shadowed : ∀ ptr < before.fresh, Shadowed before ptr → (after.objects ptr).superObject = (before.objects ptr).superObject

section Kept
variable {before middle after : Heap} {open_ : Nat → Prop}

theorem Kept.refl (heap : Heap) : Kept open_ heap heap :=
  ⟨Nat.le_refl _,fun _ _ => rfl,⟨[],(List.append_nil _).symm⟩,fun _ _ filled => filled,fun _ _ _ _ => rfl,fun _ _ _ => rfl⟩

theorem Kept.find (kept : Kept open_ before after) (valid : before.Valid)
    (found : findObjectByHeaderAddress before wanted = some ref) :
    findObjectByHeaderAddress after wanted = some ref := by
  obtain ⟨extra,queued⟩ := kept.queued
  unfold findObjectByHeaderAddress at found ⊢
  rw [queued,List.find?_append]
  have same : ∀ obj ∈ before.objectQueue.live, ((after.objects obj).thisObjAddress == wanted) =
      ((before.objects obj).thisObjAddress == wanted) := fun obj member => by
    rw [kept.address obj ((valid.registered obj).mp member)]
  rw [List.find?_congr same,found]
  rfl

theorem Kept.trans (left : Kept open_ before middle) (valid : before.Valid) (right : Kept open_ middle after) :
    Kept open_ before after where
  grows := left.grows.trans right.grows
  address ptr below := by
    have later := right.address ptr (Nat.lt_of_lt_of_le below left.grows)
    exact later.trans (left.address ptr below)
  queued := by
    obtain ⟨first,queued⟩ := left.queued
    obtain ⟨second,more⟩ := right.queued
    exact ⟨first++second,by rw [more,queued,List.append_assoc]⟩
  filled ptr below filled := right.filled ptr (Nat.lt_of_lt_of_le below left.grows) (left.filled ptr below filled)
  children ptr below filled closed := by
    have later := right.children ptr (Nat.lt_of_lt_of_le below left.grows) (left.filled ptr below filled) closed
    exact later.trans (left.children ptr below filled closed)
  shadowed ptr below shadow := by
    obtain ⟨first,different,found⟩ := shadow
    have still : Shadowed middle ptr := by
      refine ⟨first,different,?_⟩
      rw [left.address ptr below]
      exact left.find valid found
    have later := right.shadowed ptr (Nat.lt_of_lt_of_le below left.grows) still
    exact later.trans (left.shadowed ptr below ⟨first,different,found⟩)

theorem Heap.Valid.attach (valid : before.Valid) (made : object < before.fresh) (allocated : element < before.fresh)
    (attached : attachElement object element i before = some after) : after.Valid := by
  obtain ⟨different,shortName,longName,rfl⟩ := attachElement_exact attached
  have queue := NodeList.enqueue_tight (valid.tight object made) element
  have live : (enqueue (before.objects object).subObjects element).live = before.children object++[element] :=
    NodeList.enqueue_live (valid.tight object made) element
  have listed := valid.change made (fun data => {data with subObjects:=enqueue data.subObjects element}) queue
    (fun child member => by
      change child ∈ (enqueue (before.objects object).subObjects element).live at member
      rw [live,List.mem_append,List.mem_singleton] at member
      rcases member with old | rfl
      · exact valid.closed object made child old
      · exact allocated)
    (valid.supers object made) (valid.pristine object made) (by
      rintro rfl
      exact ⟨valid.unmapped,valid.rootUnfilled⟩)
  refine listed.change allocated (placed object i shortName longName) (listed.tight element allocated)
    (listed.closed element allocated) ?_ (listed.pristine element allocated) ?_
  · intro super owned
    cases owned
    exact made
  · rintro rfl
    exact ⟨listed.unmapped,listed.rootUnfilled⟩

variable {file : MatFile} {chunked : MetaData → Option (Nat × DataArrays)}

structure Attached (object element : Nat) (before after : Heap) : Prop where
  fresh : after.fresh = before.fresh
  queue : after.objectQueue = before.objectQueue
  fields : ∀ ptr, (after.objects ptr).toMetaData = (before.objects ptr).toMetaData ∧
    (after.objects ptr).isFilled = (before.objects ptr).isFilled ∧
    (after.objects ptr).thisObjAddress = (before.objects ptr).thisObjAddress
  others : ∀ ptr, ptr ≠ object → after.children ptr = before.children ptr
  grown : after.children object = before.children object++[element]
  nodes : (after.objects object).subObjects.nodes = (before.objects object).subObjects.nodes++[element]
  supers : ∀ ptr, ptr ≠ element → (after.objects ptr).superObject = (before.objects ptr).superObject

theorem attachElement_frame (valid : before.Valid) (made : object < before.fresh)
    (attached : attachElement object element i before = some after) : Attached object element before after := by
  obtain ⟨different,shortName,longName,rfl⟩ := attachElement_exact attached
  refine ⟨rfl,rfl,fun ptr => ?_,fun ptr atObject => ?_,?_,?_,fun ptr atElement => ?_⟩
  · by_cases atElement : ptr = element
    · subst atElement
      rw [Heap.update_same,Heap.update_other _ different]
      exact ⟨rfl,rfl,rfl⟩
    · rw [Heap.update_other _ atElement]
      by_cases atObject : ptr = object
      · subst atObject
        rw [Heap.update_same]
        exact ⟨rfl,rfl,rfl⟩
      · rw [Heap.update_other _ atObject]
        exact ⟨rfl,rfl,rfl⟩
  · unfold Heap.children
    by_cases atElement : ptr = element
    · subst atElement
      rw [Heap.update_same,Heap.update_other _ different]
      rfl
    · rw [Heap.update_other _ atElement,Heap.update_other _ atObject]
  · unfold Heap.children
    rw [Heap.update_other _ (Ne.symm different),Heap.update_same]
    exact NodeList.enqueue_live (valid.tight object made) element
  · rw [Heap.update_other _ (Ne.symm different),Heap.update_same]
    rfl
  · rw [Heap.update_other _ atElement]
    by_cases atObject : ptr = object
    · subst atObject
      rw [Heap.update_same]
    · rw [Heap.update_other _ atObject]

theorem Prepared.kept (prepared : Prepared before object ref element middle) (made : object < before.fresh) :
    Kept (· = object) before middle := by
  obtain ⟨queue,parent⟩ := prepared.parent
  obtain ⟨extra,queued,_⟩ := prepared.queued
  refine ⟨prepared.grows,fun ptr below => ?_,⟨extra,queued⟩,fun ptr below filled => ?_,fun ptr below _ closed => ?_,
    fun ptr below _ => ?_⟩
  · by_cases atObject : ptr = object
    · subst atObject
      rw [parent]
    · rw [prepared.frame ptr below atObject]
  · by_cases atObject : ptr = object
    · subst atObject
      rw [parent]
      exact filled
    · rw [prepared.frame ptr below atObject]
      exact filled
  · unfold Heap.children
    rw [prepared.frame ptr below closed]
  · by_cases atObject : ptr = object
    · subst atObject
      rw [parent]
    · rw [prepared.frame ptr below atObject]

-- What one round, and then the loop, does around the object.
structure Rounds (object : Nat) (before after : Heap) : Prop where
  valid : after.Valid
  whole : after.Whole object
  kept : Kept (· = object) before after
  grown : ∃ elements, after.children object = before.children object++elements
  fields : (after.objects object).toMetaData = (before.objects object).toMetaData

theorem Rounds.trans (left : Rounds object before middle) (valid : before.Valid) (right : Rounds object middle after) :
    Rounds object before after := by
  obtain ⟨first,grown⟩ := left.grown
  obtain ⟨second,more⟩ := right.grown
  refine ⟨right.valid,right.whole,left.kept.trans valid right.kept,⟨first++second,?_⟩,right.fields.trans left.fields⟩
  rw [more,grown,List.append_assoc]

def StoredFirst (fields : MetaData) (offset : Nat) : Prop :=
  ∃ offsets, fields.subObjectHeaderOffsets = some offsets ∧ offsets[0]? = some (some offset)

theorem resolvedOne_rounds (valid : before.Valid) (made : object < before.fresh) (whole : before.Whole object)
    (one : ResolvedOne file (cloneData fuel) before object i offset after) : Rounds object before after ∧
      (before.children object = [] → ∃ ref < before.fresh,
        findObjectByHeaderAddress before ((offset+file.sBlock.baseAddress)%2^addressBits) = some ref ∧
        after.children object = [ref]) := by
  obtain ⟨ref,element,ready,found,prepared,chosen,attaching⟩ := resolvedOne_parts valid made whole one
  have madeReady : object < ready.fresh := Nat.lt_of_lt_of_le made prepared.grows
  have kept := prepared.kept made
  have attached := attachElement_frame prepared.valid madeReady attaching
  -- The element is the object that a search finds, or new.
  have unshadowed : ∀ ptr < before.fresh, Shadowed before ptr → ptr ≠ element := by
    rintro ptr below ⟨first,different,shadow⟩ rfl
    cases chosen with
    | itself _ _ =>
      rw [find_address found,found] at shadow
      exact different (Option.some.inj shadow).symm
    | copied => exact Nat.lt_irrefl _ below
  obtain ⟨extra,queued⟩ := kept.queued
  obtain ⟨queue,parent⟩ := prepared.parent
  refine ⟨⟨prepared.valid.attach madeReady prepared.allocated attaching,?_,⟨?_,?_,⟨extra,?_⟩,?_,?_,?_⟩,⟨[element],?_⟩,?_⟩,?_⟩
  · unfold Heap.Whole
    rw [attached.nodes,attached.grown,prepared.whole]
  · rw [attached.fresh]
    exact kept.grows
  · intro ptr below
    exact (attached.fields ptr).2.2.trans (kept.address ptr below)
  · rw [attached.queue,queued]
  · intro ptr below filled
    exact (attached.fields ptr).2.1.trans (kept.filled ptr below filled)
  · intro ptr below filled closed
    exact (attached.others ptr closed).trans (kept.children ptr below filled closed)
  · intro ptr below shadow
    exact (attached.supers ptr (unshadowed ptr below shadow)).trans (kept.shadowed ptr below shadow)
  · rw [attached.grown,prepared.children]
  · rw [(attached.fields object).1,parent]
  · intro empty
    rw [attached.grown,prepared.children,empty]
    cases chosen with
    | itself _ _ => exact ⟨ref,find_below valid found,found,rfl⟩
    | copied present =>
      rw [empty] at present
      cases present

theorem resolveReferences_rounds (valid : before.Valid) (made : object < before.fresh) (whole : before.Whole object)
    (ran : resolveReferences file (cloneData fuel) object left i before = some (0,after)) : Rounds object before after := by
  induction left generalizing i before with
  | zero =>
    cases ran
    exact ⟨valid,whole,.refl _,⟨[],(List.append_nil _).symm⟩,rfl⟩
  | succ left ih =>
    obtain ⟨_,_,middle,_,_,first,rest⟩ := resolveReferences_parts ran
    have one := resolveReference_exact (fun _ _ _ _ => cloneData_extends) made (valid.tight object made)
      (valid.closed object made) first
    obtain ⟨round,_⟩ := resolvedOne_rounds valid made whole one
    have later := ih round.valid (Nat.lt_of_lt_of_le made round.kept.grows) round.whole rest
    exact round.trans valid later

theorem resolveReferences_first (valid : before.Valid) (made : object < before.fresh) (whole : before.Whole object)
    (empty : before.children object = [])
    (ran : resolveReferences file (cloneData fuel) object (left+1) 0 before = some (0,after)) :
    ∃ offset, StoredFirst (before.objects object).toMetaData offset ∧ ∃ ref < before.fresh,
      findObjectByHeaderAddress before ((offset+file.sBlock.baseAddress)%2^addressBits) = some ref ∧
      ref ∈ after.children object := by
  obtain ⟨offsets,offset,middle,stored,at_,first,rest⟩ := resolveReferences_parts ran
  have one := resolveReference_exact (fun _ _ _ _ => cloneData_extends) made (valid.tight object made)
    (valid.closed object made) first
  obtain ⟨round,start⟩ := resolvedOne_rounds valid made whole one
  obtain ⟨ref,below,found,alone⟩ := start empty
  have later := resolveReferences_rounds round.valid (Nat.lt_of_lt_of_le made round.kept.grows) round.whole rest
  obtain ⟨elements,grown⟩ := later.grown
  refine ⟨offset,⟨offsets,stored,at_⟩,ref,below,found,?_⟩
  rw [grown,alone]
  simp

end Kept

-- A cell array or the field of a struct array, by its fields.
def Refers (fields : MetaData) : Prop := fields.subObjectHeaderOffsets ≠ none ∧ fields.hdf5InternalType = .reference

instance (fields : MetaData) : Decidable (Refers fields) := inferInstanceAs (Decidable (_ ∧ _))

def opened (heap : Heap) (superObject object thisObjAddress : Nat) (superFields fields : MetaData) : Heap :=
  (heap.update superObject fun data => {data with toMetaData:=superFields}).update object fun data =>
    {data with toMetaData:=fields,isFilled:=true,thisObjAddress:=thisObjAddress}

def emptied (heap : Heap) (object : Nat) (fields : MetaData) : Heap :=
  heap.update object fun data => {data with
    subObjects:=(flushQueue data.subObjects).2,numSubObjs:=fields.numElems.toNat%2^32}

def fillAt (file : MatFile) (chunked : MetaData → Option (Nat × DataArrays)) (fuel : Nat) (heap : Heap) (object : Nat) :
    Option (Nat × Heap) := fillObject file chunked fuel heap object (heap.objects object).thisObjAddress

def fillTree (file : MatFile) (chunked : MetaData → Option (Nat × DataArrays)) (fuel : Nat) (heap : Heap) (object : Nat) :
    Option (Nat × Heap) := fillDataTree (fillAt file chunked fuel) fuel heap object

section Fill
variable {file : MatFile} {chunked : MetaData → Option (Nat × DataArrays)} {heap after : Heap}

-- What fillObject does behind readObject, in the heap base that it has opened.
def EndsWith (file : MatFile) (fuel : Nat) (object : Nat) (base : Heap) (fields : MetaData) (code : Nat) (after : Heap) :
    Option Nat → Prop
  | some early => code = early ∧ after = base
  | none =>
    if Refers fields then
      resolveReferences file (cloneData fuel) object fields.numElems.toNat 0 (emptied base object fields) = some (code,after)
    else code = 0 ∧ after = base

structure Filling (file : MatFile) (chunked : MetaData → Option (Nat × DataArrays)) (fuel : Nat) (heap : Heap)
    (object thisObjAddress code : Nat) (superObject : Nat) (returned : Option Nat) (fields superFields : MetaData)
    (after : Heap) : Prop where
  mapped : thisObjAddress ≠ undefAddr
  owned : (heap.objects object).superObject = some superObject
  read : readObject file chunked (heap.objects superObject).toMetaData thisObjAddress (heap.objects object).toMetaData =
    some (returned,fields,superFields)
  ended : EndsWith file fuel object (opened heap superObject object thisObjAddress superFields fields) fields code after
    returned

theorem fillObject_exact (unfilled : (heap.objects object).isFilled = false) :
    fillObject file chunked fuel heap object thisObjAddress = some (code,after) ↔
      ∃ superObject returned fields superFields,
        Filling file chunked fuel heap object thisObjAddress code superObject returned fields superFields after := by
  unfold fillObject
  rw [unfilled,if_neg (by decide)]
  constructor
  · intro ran
    split at ran
    · cases ran
    rename_i mapped
    obtain ⟨superObject,owned,rest⟩ := Option.bind_eq_some_iff.mp ran
    obtain ⟨⟨returned,fields,superFields⟩,read,ended⟩ := Option.bind_eq_some_iff.mp rest
    refine ⟨superObject,returned,fields,superFields,mapped,owned,read,?_⟩
    cases returned with
    | some early =>
      cases ended
      exact ⟨rfl,rfl⟩
    | none =>
      unfold EndsWith
      dsimp only at ended ⊢
      by_cases refers : Refers fields
      · rw [if_pos refers]
        rw [if_pos (show _ ∧ _ from refers)] at ended
        exact ended
      · rw [if_neg refers]
        rw [if_neg (show ¬(_ ∧ _) from refers)] at ended
        cases ended
        exact ⟨rfl,rfl⟩
  · rintro ⟨superObject,returned,fields,superFields,mapped,owned,read,ended⟩
    rw [if_neg mapped]
    refine Option.bind_eq_some_iff.mpr ⟨superObject,owned,Option.bind_eq_some_iff.mpr ⟨_,read,?_⟩⟩
    cases returned with
    | some early =>
      obtain ⟨rfl,rfl⟩ := ended
      rfl
    | none =>
      unfold EndsWith at ended
      dsimp only at ended ⊢
      by_cases refers : Refers fields
      · rw [if_pos refers] at ended
        rw [if_pos (show _ ∧ _ from refers)]
        exact ended
      · rw [if_neg refers] at ended
        rw [if_neg (show ¬(_ ∧ _) from refers)]
        obtain ⟨rfl,rfl⟩ := ended
        rfl

theorem opened_valid (valid : heap.Valid) (made : object < heap.fresh) (mapped : (heap.objects object).thisObjAddress ≠ undefAddr)
    (owned : (heap.objects object).superObject = some superObject)
    (supers : ∃ numDims dims, superFields = {(heap.objects superObject).toMetaData with numDims:=numDims,dims:=dims}) :
    (opened heap superObject object (heap.objects object).thisObjAddress superFields fields).Valid := by
  obtain ⟨numDims,dims,rfl⟩ := supers
  have superMade := valid.supers object made superObject owned
  have parent := valid.change superMade (fun data => {data with
    toMetaData:={(heap.objects superObject).toMetaData with numDims:=numDims,dims:=dims}})
    (valid.tight superObject superMade) (valid.closed superObject superMade) (valid.supers superObject superMade)
    (valid.pristine superObject superMade) (by
      rintro rfl
      exact ⟨valid.unmapped,valid.rootUnfilled⟩)
  refine parent.change made _ (parent.tight object made) (parent.closed object made) (parent.supers object made) ?_ ?_
  · intro unfilled
    cases unfilled
  · rintro rfl
    exact absurd valid.unmapped mapped

theorem opened_kept (made : object < heap.fresh) (unfilled : (heap.objects object).isFilled = false)
    (owned : (heap.objects object).superObject = some superObject) :
    Kept (fun _ => False) heap
      (opened heap superObject object (heap.objects object).thisObjAddress superFields fields) ∧
    ∀ ptr, (opened heap superObject object (heap.objects object).thisObjAddress superFields fields).children ptr =
      heap.children ptr := by
  have parts : ∀ ptr, ((opened heap superObject object (heap.objects object).thisObjAddress superFields fields).objects
      ptr).thisObjAddress = (heap.objects ptr).thisObjAddress ∧
      ((opened heap superObject object (heap.objects object).thisObjAddress superFields fields).objects ptr).superObject =
        (heap.objects ptr).superObject ∧
      ((opened heap superObject object (heap.objects object).thisObjAddress superFields fields).objects ptr).subObjects =
        (heap.objects ptr).subObjects ∧
      ((heap.objects ptr).isFilled = true →
        ((opened heap superObject object (heap.objects object).thisObjAddress superFields fields).objects ptr).isFilled =
          true) := by
    intro ptr
    unfold opened
    by_cases atObject : ptr = object
    · subst atObject
      rw [Heap.update_same]
      by_cases atSuper : ptr = superObject
      · subst atSuper
        rw [Heap.update_same]
        exact ⟨rfl,rfl,rfl,fun _ => rfl⟩
      · rw [Heap.update_other _ atSuper]
        exact ⟨rfl,rfl,rfl,fun _ => rfl⟩
    · rw [Heap.update_other _ atObject]
      by_cases atSuper : ptr = superObject
      · subst atSuper
        rw [Heap.update_same]
        exact ⟨rfl,rfl,rfl,fun filled => filled⟩
      · rw [Heap.update_other _ atSuper]
        exact ⟨rfl,rfl,rfl,fun filled => filled⟩
  have children : ∀ ptr, (opened heap superObject object (heap.objects object).thisObjAddress superFields
      fields).children ptr = heap.children ptr := by
    intro ptr
    unfold Heap.children
    rw [(parts ptr).2.2.1]
  exact ⟨⟨Nat.le_refl _,fun ptr _ => (parts ptr).1,⟨[],(List.append_nil _).symm⟩,fun ptr _ => (parts ptr).2.2.2,
    fun ptr _ _ _ => children ptr,fun ptr _ _ => (parts ptr).2.1⟩,children⟩

theorem emptied_valid (valid : heap.Valid) (made : object < heap.fresh) (filled : (heap.objects object).isFilled = true) :
    (emptied heap object fields).Valid := by
  refine valid.change made _ NodeList.init_tight (fun child member => by cases member) (valid.supers object made)
    (valid.pristine object made) ?_
  rintro rfl
  rw [valid.rootUnfilled] at filled
  cases filled

theorem emptied_kept (heap : Heap) (object : Nat) (fields : MetaData) : Kept (· = object) heap (emptied heap object fields) ∧ (emptied heap object fields).Whole object ∧
    (emptied heap object fields).children object = [] ∧
    ((emptied heap object fields).objects object).toMetaData = (heap.objects object).toMetaData := by
  have parts : ∀ ptr, ((emptied heap object fields).objects ptr).thisObjAddress = (heap.objects ptr).thisObjAddress ∧
      ((emptied heap object fields).objects ptr).superObject = (heap.objects ptr).superObject ∧
      ((emptied heap object fields).objects ptr).isFilled = (heap.objects ptr).isFilled := by
    intro ptr
    unfold emptied
    by_cases atObject : ptr = object
    · subst atObject
      rw [Heap.update_same]
      exact ⟨rfl,rfl,rfl⟩
    · rw [Heap.update_other _ atObject]
      exact ⟨rfl,rfl,rfl⟩
  have empty : (emptied heap object fields).children object = [] := by
    unfold emptied Heap.children
    rw [Heap.update_same]
    rfl
  refine ⟨⟨Nat.le_refl _,fun ptr _ => (parts ptr).1,⟨[],(List.append_nil _).symm⟩,fun ptr _ filled =>
    (parts ptr).2.2.trans filled,fun ptr _ _ closed => ?_,fun ptr _ _ => (parts ptr).2.1⟩,?_,empty,?_⟩
  · unfold emptied Heap.children
    rw [Heap.update_other _ closed]
  · unfold Heap.Whole
    rw [empty]
    unfold emptied
    rw [Heap.update_same]
    rfl
  · unfold emptied
    rw [Heap.update_same]

-- A successful fillObject keeps the heap in order and touches no other object that
-- is filled already.
structure Filled (heap : Heap) (object : Nat) (after : Heap) : Prop where
  valid : after.Valid
  kept : Kept (fun _ => False) heap after
  filled : (after.objects object).isFilled = true

theorem kept_close (valid : heap.Valid) (unfilled : (heap.objects object).isFilled = false)
    (first : Kept (fun _ => False) heap middle) (rest : Kept (· = object) middle after) :
    Kept (fun _ => False) heap after := by
  have opens : Kept (· = object) heap middle :=
    ⟨first.grows,first.address,first.queued,first.filled,fun ptr below filled _ => first.children ptr below filled (by simp),
      first.shadowed⟩
  have whole := opens.trans valid rest
  refine ⟨whole.grows,whole.address,whole.queued,whole.filled,fun ptr below filled _ => ?_,whole.shadowed⟩
  refine whole.children ptr below filled ?_
  rintro rfl
  rw [unfilled] at filled
  cases filled

theorem fillAt_filled (valid : heap.Valid) (made : object < heap.fresh)
    (ran : fillAt file chunked fuel heap object = some (0,after)) : Filled heap object after := by
  unfold fillAt at ran
  cases filled : (heap.objects object).isFilled with
  | true =>
    unfold fillObject at ran
    rw [filled,if_pos rfl] at ran
    cases ran
    exact ⟨valid,.refl _,filled⟩
  | false =>
    obtain ⟨superObject,returned,fields,superFields,filling⟩ := (fillObject_exact filled).mp ran
    have supers := (readObject_exact filling.read).2
    have ended := filling.ended
    have validOpened : (opened heap superObject object _ superFields fields).Valid :=
      opened_valid valid made filling.mapped filling.owned supers
    have keptOpened : Kept (fun _ => False) heap (opened heap superObject object _ superFields fields) :=
      (opened_kept made filled filling.owned).1
    have filledOpened : ((opened heap superObject object (heap.objects object).thisObjAddress superFields fields).objects
        object).isFilled = true := by
      unfold opened
      rw [Heap.update_same]
    generalize opened heap superObject object (heap.objects object).thisObjAddress superFields fields = base at *
    cases returned with
    | some early =>
      obtain ⟨_,rfl⟩ := ended
      exact ⟨validOpened,keptOpened,filledOpened⟩
    | none =>
      unfold EndsWith at ended
      by_cases refers : Refers fields
      · rw [if_pos refers] at ended
        have madeBase : object < base.fresh := Nat.lt_of_lt_of_le made keptOpened.grows
        have validEmptied : (emptied base object fields).Valid := emptied_valid validOpened madeBase filledOpened
        obtain ⟨keptEmptied,whole,_⟩ := emptied_kept base object fields
        have rounds := resolveReferences_rounds validEmptied madeBase whole ended
        have rest := keptEmptied.trans validOpened rounds.kept
        have kept := kept_close valid filled keptOpened rest
        exact ⟨rounds.valid,kept,rest.filled object madeBase filledOpened⟩
      · rw [if_neg refers] at ended
        obtain ⟨_,rfl⟩ := ended
        exact ⟨validOpened,keptOpened,filledOpened⟩

theorem Filled.trans (first : Filled heap object middle) (valid : heap.Valid) (rest : Kept (fun _ => False) middle after)
    (validAfter : after.Valid) (made : object < heap.fresh) : Filled heap object after :=
  ⟨validAfter,first.kept.trans valid rest,rest.filled object (Nat.lt_of_lt_of_le made first.kept.grows) first.filled⟩

theorem fillSubTrees_kept {tree : Heap → Nat → Option (Nat × Heap)}
    (fills : ∀ heap object after, heap.Valid → object < heap.fresh → tree heap object = some (0,after) →
      after.Valid ∧ Kept (fun _ => False) heap after)
    (valid : heap.Valid) (made : ∀ obj ∈ objects, obj < heap.fresh)
    (ran : fillSubTrees tree left objects heap = some (0,after)) : after.Valid ∧ Kept (fun _ => False) heap after := by
  induction left generalizing heap objects with
  | zero =>
    cases ran
    exact ⟨valid,.refl _⟩
  | succ left ih =>
    cases objects with
    | nil => cases ran
    | cons obj rest =>
      obtain ⟨⟨code,middle⟩,first,later⟩ := Option.bind_eq_some_iff.mp ran
      dsimp only at later
      split at later
      · cases later
      · rename_i zero
        obtain rfl : code = 0 := Decidable.not_not.mp zero
        obtain ⟨validMiddle,kept⟩ := fills heap obj middle valid (made obj List.mem_cons_self) first
        obtain ⟨validAfter,more⟩ := ih validMiddle (fun other member =>
          Nat.lt_of_lt_of_le (made other (List.mem_cons_of_mem _ member)) kept.grows) later
        exact ⟨validAfter,kept.trans valid more⟩

theorem fillDataTree_exact {fill : Heap → Nat → Option (Nat × Heap)} :
    fillDataTree fill (fuel+1) heap object = some (0,after) ↔ ∃ middle, fill heap object = some (0,middle) ∧
      fillSubTrees (fillDataTree fill fuel) (middle.objects object).numSubObjs (middle.children object) middle =
        some (0,after) := by
  unfold fillDataTree
  constructor
  · intro ran
    obtain ⟨⟨code,middle⟩,first,rest⟩ := Option.bind_eq_some_iff.mp ran
    dsimp only at rest
    split at rest
    · cases rest
    · rename_i zero
      obtain rfl : code = 0 := Decidable.not_not.mp zero
      exact ⟨middle,first,rest⟩
  · rintro ⟨middle,first,rest⟩
    exact Option.bind_eq_some_iff.mpr ⟨(0,middle),first,rest⟩

theorem fillDataTree_filled (valid : heap.Valid) (made : object < heap.fresh)
    (ran : fillDataTree (fillAt file chunked depth) fuel heap object = some (0,after)) : Filled heap object after := by
  induction fuel generalizing heap object after with
  | zero => cases ran
  | succ fuel ih =>
    obtain ⟨middle,first,rest⟩ := fillDataTree_exact.mp ran
    have filled := fillAt_filled valid made first
    have madeMiddle := Nat.lt_of_lt_of_le made filled.kept.grows
    obtain ⟨validAfter,kept⟩ := fillSubTrees_kept (fun heap object after valid made ran =>
      ⟨(ih valid made ran).valid,(ih valid made ran).kept⟩) filled.valid (filled.valid.closed object madeMiddle) rest
    exact filled.trans valid kept validAfter made

end Fill

end GetMatVar
