import GetMatVar.FillDescent

namespace GetMatVar
namespace FillSteps
open FillWalks FillDescent

def Between (low high ptr : Nat) : Prop := low ≤ ptr ∧ ptr < high

theorem forall₂_right {R : α → β → Prop} {holds : α → Prop} {shows : β → Prop} (all : List.Forall₂ R olds copies)
    (each : ∀ old ∈ olds, holds old) (step : ∀ old copy, R old copy → holds old → shows copy) :
    ∀ copy ∈ copies, shows copy := by
  induction all with
  | nil => exact fun copy member => absurd member List.not_mem_nil
  | cons here _ ih =>
    intro copy member
    rcases List.mem_cons.mp member with rfl | later
    · exact step _ _ here (each _ List.mem_cons_self)
    · exact ih (fun old listed => each old (List.mem_cons_of_mem _ listed)) copy later

section Cloning
variable {base heap after : Heap}

def Settles (base heap after : Heap) (old copy : Nat) : Prop :=
  Settled (· < base.fresh) base old → Settled (Between heap.fresh after.fresh) after copy

structure Copying (base heap : Heap) (newObject : Nat) (olds : List Nat) (after : Heap) : Prop where
  grows : heap.fresh ≤ after.fresh
  frame : ∀ ptr < heap.fresh, ptr ≠ newObject → after.objects ptr = heap.objects ptr
  parent : ∃ queue : Queue Nat, after.objects newObject = {heap.objects newObject with subObjects:=queue}
  items : ∃ copies, after.children newObject = heap.children newObject++copies ∧
    List.Forall₂ (Settles base heap after) olds copies

theorem cloneSubObjects_copying {clone : Heap → Nat → Option (Nat × Heap)}
    (clones : ∀ heap old copy after, Extends base heap → old < base.fresh → clone heap old = some (copy,after) →
      Extends heap after ∧ Settles base heap after old copy)
    (ran : cloneSubObjects clone newObject olds heap = some after) (older : ∀ old ∈ olds, old < base.fresh)
    (agree : Extends base heap) (newer : base.fresh ≤ newObject) (made : newObject < heap.fresh)
    (tight : (heap.objects newObject).subObjects.Tight) : Copying base heap newObject olds after := by
  induction olds generalizing heap with
  | nil =>
    cases ran
    exact ⟨Nat.le_refl _,fun _ _ _ => rfl,⟨_,rfl⟩,[],(List.append_nil _).symm,.nil⟩
  | cons old olds ih =>
    obtain ⟨⟨copy,middle⟩,first,rest⟩ := Option.bind_eq_some_iff.mp ran
    obtain ⟨more,settles⟩ := clones _ _ _ _ agree (older old List.mem_cons_self) first
    have unmoved := more.frame newObject made
    have later := ih rest (fun old member => older old (List.mem_cons_of_mem _ member))
      ⟨agree.grows.trans more.grows,fun ptr below => by
        rw [Heap.update_other _ (Nat.ne_of_lt (Nat.lt_of_lt_of_le below newer))]
        exact (agree.trans more).frame ptr below⟩
      (Nat.lt_of_lt_of_le made more.grows) (by
        rw [Heap.update_same,unmoved]
        exact NodeList.enqueue_tight tight _)
    have grows : middle.fresh ≤ after.fresh := later.grows
    have kept : ∀ ptr < middle.fresh, ptr ≠ newObject → after.objects ptr = middle.objects ptr := fun ptr below other =>
      (later.frame ptr below other).trans (Heap.update_other _ other)
    obtain ⟨queue,parent⟩ := later.parent
    obtain ⟨copies,children,items⟩ := later.items
    refine ⟨more.grows.trans grows,fun ptr below other => ?_,⟨queue,?_⟩,copy::copies,?_,.cons (fun settled => ?_) ?_⟩
    · exact (kept ptr (Nat.lt_of_lt_of_le below more.grows) other).trans (more.frame ptr below)
    · rw [parent,Heap.update_same,unmoved]
    · have grown : (middle.update newObject fun object => {object with subObjects:=enqueue object.subObjects copy}).children
          newObject = heap.children newObject++[copy] := by
        unfold Heap.children
        rw [Heap.update_same,unmoved]
        exact NodeList.enqueue_live tight copy
      rw [children,grown,List.append_assoc]
      rfl
    · refine (settles settled).transport (fun ptr inside _ => ?_)
        fun ptr inside => ⟨inside.1,Nat.lt_of_lt_of_le inside.2 grows⟩
      exact .of_eq (kept ptr inside.2 (Nat.ne_of_gt (Nat.lt_of_lt_of_le made inside.1)))
    · refine items.imp fun old copy settles settled => ?_
      refine (settles settled).transport (fun ptr _ _ => .refl _ ptr) fun ptr inside => ⟨?_,inside.2⟩
      exact more.grows.trans inside.1

theorem cloneData_settles (closed : ∀ ptr < base.fresh, ∀ child ∈ base.children ptr, child < base.fresh)
    (agree : Extends base heap) (older : old < base.fresh) (ran : cloneData fuel heap old = some (copy,after)) :
    Settles base heap after old copy := by
  induction fuel generalizing heap old copy after with
  | zero => cases ran
  | succ fuel ih =>
    simp only [cloneData] at ran
    obtain ⟨middle,cloned,rest⟩ := Option.bind_eq_some_iff.mp ran
    cases rest
    have object := agree.frame old older
    rw [object] at cloned
    have copying := cloneSubObjects_copying
      (fun heap old copy after agree older ran => ⟨(cloneData_extends ran).2,ih agree older ran⟩) cloned (closed old older)
      ⟨agree.grows.trans (Nat.le_succ _),fun ptr below =>
        (Heap.alloc_other _ (Nat.ne_of_lt (Nat.lt_of_lt_of_le below agree.grows))).trans (agree.frame ptr below)⟩
      agree.grows (Nat.lt_succ_self _) (by rw [Heap.alloc_same]; exact NodeList.init_tight)
    obtain ⟨queue,parent⟩ := copying.parent
    obtain ⟨copies,children,items⟩ := copying.items
    rw [Heap.alloc_same] at parent
    have further : heap.fresh+1 ≤ middle.fresh := copying.grows
    intro settled
    cases settled with
    | intro _ filled enough below =>
      have count : ((middle.register heap.fresh).objects heap.fresh).numSubObjs = (base.objects old).numSubObjs := by
        show (middle.objects heap.fresh).numSubObjs = _
        rw [parent]
      have listed : (middle.register heap.fresh).children heap.fresh = copies := by
        show middle.children heap.fresh = _
        rw [children,Heap.children,Heap.alloc_same]
        rfl
      refine .intro ⟨Nat.le_refl _,further⟩ ?_ ?_ ?_
      · show (middle.objects heap.fresh).isFilled = true
        rw [parent]
        exact filled
      · rw [count,listed,← items.length_eq]
        exact enough
      · rw [count,listed]
        refine forall₂_right (List.forall₂_take _ items) below fun old copy settles settled => ?_
        refine (settles settled).transport (fun ptr _ _ => ⟨id,rfl,rfl⟩) fun ptr inside => ⟨?_,inside.2⟩
        exact (Nat.le_succ _).trans inside.1

end Cloning

-- A heap that fills have made of start: whatever has an address has it from an older
-- object, and below a newer object are older and larger ones.
structure Grown (start heap : Heap) : Prop where
  valid : heap.Valid
  grows : start.fresh ≤ heap.fresh
  queued : ∃ extra, heap.objectQueue.live = start.objectQueue.live++extra
  twins : ∀ ptr < heap.fresh, ∃ old < start.fresh, (heap.objects old).thisObjAddress = (heap.objects ptr).thisObjAddress
  ascending : ∀ ptr, start.fresh ≤ ptr → ptr < heap.fresh → ∀ child ∈ heap.children ptr, start.fresh ≤ child →
    ptr < child

section Rounds
variable {start before after : Heap}

theorem Grown.refl (valid : start.Valid) : Grown start start :=
  ⟨valid,Nat.le_refl _,⟨[],(List.append_nil _).symm⟩,fun ptr made => ⟨ptr,made,rfl⟩,
    fun _ above below => absurd below (Nat.not_lt_of_le above)⟩

theorem Grown.found (grown : Grown start before) (valid : start.Valid)
    (found : findObjectByHeaderAddress before address = some ref) : ref < start.fresh := by
  obtain ⟨extra,queued⟩ := grown.queued
  obtain ⟨old,older,twin⟩ := grown.twins ref (find_below grown.valid found)
  rw [find_address found] at twin
  unfold findObjectByHeaderAddress at found
  rw [queued,List.find?_append] at found
  have listed : old ∈ start.objectQueue.live := (valid.registered old).mpr older
  cases first : start.objectQueue.live.find? (fun obj => (before.objects obj).thisObjAddress == address) with
  | none =>
    have other := List.find?_eq_none.mp first old listed
    exact absurd (beq_iff_eq.mpr twin) other
  | some hit =>
    rw [first] at found
    cases found
    exact (valid.registered ref).mp (List.mem_of_find?_eq_some first)

-- What the choice of an element leaves: the object that was found or a clone of it,
-- and the objects of the clone.
structure Choice (before : Heap) (object ref element : Nat) (ready : Heap) : Prop where
  new : ∀ ptr, before.fresh ≤ ptr → ptr < ready.fresh →
    (∃ item < before.fresh, (ready.objects ptr).thisObjAddress = (before.objects item).thisObjAddress) ∧
      ∀ child ∈ ready.children ptr, ptr < child
  element : element = ref ∨ element = before.fresh ∧ ref ∈ before.children object ∧
    (Settled (fun ptr => ptr < before.fresh ∧ ptr ≠ object) before ref →
      Settled (Between before.fresh ready.fresh) ready element)

theorem scanned_choice (valid : before.Valid) (made : object < before.fresh) (older : ref < before.fresh)
    (scanned : Scanned (cloneData fuel) before object ref element scan) :
    Choice before object ref element (scan.update object fun data => {data with subObjects:=restartQueue data.subObjects}) := by
  cases scanned with
  | missed absent queue nodes =>
    exact ⟨fun ptr above below => absurd below (Nat.not_lt_of_le above),.inl rfl⟩
  | @hit _ middle present part queue tight less cloned nodes =>
    have partial_ := valid.requeue made tight fun child member => valid.closed object made child (less child member)
    have copies := cloneData_cloned partial_.closed (Extends.refl _) partial_.queue older cloned
    obtain ⟨rfl,_⟩ := cloneData_extends cloned
    rw [Heap.update_update]
    have frame : ∀ ptr, before.fresh ≤ ptr → (middle.update object ((fun data : Data => {data with
        subObjects:=restartQueue data.subObjects}) ∘ fun data : Data => {data with subObjects:=queue})).objects ptr =
        middle.objects ptr := fun ptr above => Heap.update_other _ (Nat.ne_of_gt (Nat.lt_of_lt_of_le made above))
    refine ⟨fun ptr above below => ⟨?_,fun child member => ?_⟩,.inr ⟨rfl,present,fun settled => ?_⟩⟩
    · obtain ⟨item,under,copied⟩ := copies.batch.copies ptr above below
      obtain ⟨_,_,fields⟩ := copied.fields
      refine ⟨item,partial_.below older under,?_⟩
      rw [frame ptr above,fields]
      by_cases same : item = object
      · subst same
        rw [Heap.update_same]
      · rw [Heap.update_other _ same]
    · unfold Heap.children at member
      rw [frame ptr above] at member
      exact (copies.batch.inner ptr above below child member).1
    · have inside : Settled (· < (before.update object fun data => {data with subObjects:=part}).fresh)
          (before.update object fun data => {data with subObjects:=part}) ref := by
        exact settled.transport (fun ptr allowed _ => .of_eq (Heap.update_other _ allowed.2)) fun ptr allowed => allowed.1
      have copy := cloneData_settles partial_.closed (Extends.refl _) older cloned inside
      exact copy.transport (fun ptr allowed _ => .of_eq (frame ptr allowed.1)) fun ptr allowed => allowed

theorem attachElement_counts (attached : attachElement object element i before = some after) (ptr : Nat) :
    (after.objects ptr).numSubObjs = (before.objects ptr).numSubObjs := by
  obtain ⟨different,shortName,longName,rfl⟩ := attachElement_exact attached
  by_cases atElement : ptr = element
  · subst atElement
    rw [Heap.update_same,Heap.update_other _ different]
    rfl
  · rw [Heap.update_other _ atElement]
    by_cases atObject : ptr = object
    · subst atObject
      rw [Heap.update_same]
    · rw [Heap.update_other _ atObject]

structure Round (start before : Heap) (object element : Nat) (after : Heap) : Prop where
  grown : Grown start after
  whole : after.Whole object
  grows : before.fresh ≤ after.fresh
  same : ∀ ptr < before.fresh, ptr ≠ object → Same before after ptr
  filled : (after.objects object).isFilled = (before.objects object).isFilled
  count : (after.objects object).numSubObjs = (before.objects object).numSubObjs
  children : after.children object = before.children object++[element]
  element : element < start.fresh ∨ ∃ ref < start.fresh, ref ∈ before.children object ∧
    (Settled (fun ptr => ptr < before.fresh ∧ ptr ≠ object) before ref →
      Settled (Between before.fresh after.fresh) after element)

theorem resolvedOne_round (valid : start.Valid) (grown : Grown start before) (made : object < before.fresh)
    (whole : before.Whole object) (one : ResolvedOne file (cloneData fuel) before object i offset after) :
    ∃ element, Round start before object element after := by
  have rounds := (resolvedOne_rounds grown.valid made whole one).1
  cases one with
  | @one ref element scan _ found scanned attaching =>
    have older := grown.found valid found
    have listed := find_below grown.valid found
    obtain ⟨prepared,_⟩ := scanned_prepared grown.valid made whole listed scanned
    have choice := scanned_choice grown.valid made listed scanned
    generalize (scan.update object fun data => {data with subObjects:=restartQueue data.subObjects}) = ready at *
    have madeReady := Nat.lt_of_lt_of_le made prepared.grows
    have attached := attachElement_frame prepared.valid madeReady attaching
    have counts := attachElement_counts attaching
    obtain ⟨queue,parent⟩ := prepared.parent
    obtain ⟨extra,queued⟩ := grown.queued
    obtain ⟨added,more⟩ := rounds.kept.queued
    have same : ∀ ptr < ready.fresh, ptr ≠ object → Same ready after ptr := fun ptr _ other =>
      ⟨fun filled => (attached.fields ptr).2.1.trans filled,counts ptr,attached.others ptr other⟩
    have children : after.children object = before.children object++[element] := by
      rw [attached.grown,prepared.children]
    refine ⟨element,⟨⟨rounds.valid,grown.grows.trans rounds.kept.grows,⟨extra++added,?_⟩,fun ptr below => ?_,
      fun ptr above below child member clone => ?_⟩,rounds.whole,rounds.kept.grows,fun ptr below other => ?_,?_,?_,
      children,?_⟩⟩
    · rw [more,queued,List.append_assoc]
    · have kept : ∀ old < start.fresh, (after.objects old).thisObjAddress = (before.objects old).thisObjAddress :=
        fun old below => rounds.kept.address old (Nat.lt_of_lt_of_le below grown.grows)
      by_cases first : ptr < before.fresh
      · obtain ⟨old,under,twin⟩ := grown.twins ptr first
        exact ⟨old,under,(kept old under).trans (twin.trans (rounds.kept.address ptr first).symm)⟩
      · obtain ⟨⟨item,under,copied⟩,_⟩ := choice.new ptr (Nat.le_of_not_lt first) (attached.fresh ▸ below)
        obtain ⟨old,lower,twin⟩ := grown.twins item under
        exact ⟨old,lower,(kept old lower).trans (twin.trans (copied.symm.trans (attached.fields ptr).2.2.symm))⟩
    · by_cases own : ptr = object
      · subst own
        rw [children] at member
        rcases List.mem_append.mp member with old | last
        · exact grown.ascending ptr above made child old clone
        · obtain rfl := List.mem_singleton.mp last
          rcases choice.element with rfl | ⟨rfl,_⟩
          · exact absurd older (Nat.not_lt_of_le clone)
          · exact made
      · rw [attached.others ptr own] at member
        by_cases first : ptr < before.fresh
        · unfold Heap.children at member
          rw [prepared.frame ptr first own] at member
          exact grown.ascending ptr above first child member clone
        · exact (choice.new ptr (Nat.le_of_not_lt first) (attached.fresh ▸ below)).2 child member
    · exact (Same.of_eq (prepared.frame ptr below other)).trans (same ptr (Nat.lt_of_lt_of_le below prepared.grows) other)
    · rw [(attached.fields object).2.1,parent]
    · rw [counts,parent]
    · rcases choice.element with rfl | ⟨_,present,settles⟩
      · exact .inl older
      · refine .inr ⟨ref,older,present,fun settled => ?_⟩
        refine (settles settled).transport (fun ptr allowed _ => ?_)
          fun ptr allowed => ⟨allowed.1,attached.fresh ▸ allowed.2⟩
        exact same ptr allowed.2 (Nat.ne_of_gt (Nat.lt_of_lt_of_le made allowed.1))

structure Resolved (start before : Heap) (object : Nat) (after : Heap) : Prop where
  grown : Grown start after
  grows : before.fresh ≤ after.fresh
  same : ∀ ptr < before.fresh, ptr ≠ object → Same before after ptr
  filled : (after.objects object).isFilled = (before.objects object).isFilled
  longer : ∃ elements, after.children object = before.children object++elements
  elements : ∀ (k child : Nat), (after.children object)[k]? = some child → (before.children object)[k]? = some child ∨
    child < start.fresh ∨ ∃ i < k, ∃ ref < start.fresh, (after.children object)[i]? = some ref ∧
      (Settled (fun ptr => ptr < before.fresh ∧ ptr ≠ object) before ref → Settled (· < after.fresh) after child)

-- By induction on the references that are left.
theorem resolveReferences_resolved (valid : start.Valid) (grown : Grown start before) (made : object < before.fresh)
    (whole : before.Whole object) (ran : resolveReferences file (cloneData fuel) object left i before = some (0,after)) :
    Resolved start before object after := by
  induction left generalizing i before with
  | zero =>
    cases ran
    exact ⟨grown,Nat.le_refl _,fun ptr _ _ => .refl _ ptr,rfl,⟨[],(List.append_nil _).symm⟩,fun k child at_ => .inl at_⟩
  | succ left ih =>
    obtain ⟨_,offset,middle,_,_,first,rest⟩ := resolveReferences_parts ran
    have one := resolveReference_exact (fun _ _ _ _ => cloneData_extends) made (grown.valid.tight object made)
      (grown.valid.closed object made) first
    obtain ⟨element,round⟩ := resolvedOne_round valid grown made whole one
    have later := ih round.grown (Nat.lt_of_lt_of_le made round.grows) round.whole rest
    obtain ⟨elements,longer⟩ := later.longer
    have keeps : ∀ ref, Settled (fun ptr => ptr < before.fresh ∧ ptr ≠ object) before ref →
        Settled (fun ptr => ptr < middle.fresh ∧ ptr ≠ object) middle ref := fun ref settled =>
      settled.transport (fun ptr allowed _ => round.same ptr allowed.1 allowed.2)
        fun ptr allowed => ⟨Nat.lt_of_lt_of_le allowed.1 round.grows,allowed.2⟩
    refine ⟨later.grown,round.grows.trans later.grows,fun ptr below other => ?_,later.filled.trans round.filled,
      ⟨element::elements,?_⟩,fun k child at_ => ?_⟩
    · exact (round.same ptr below other).trans (later.same ptr (Nat.lt_of_lt_of_le below round.grows) other)
    · rw [longer,round.children,List.append_assoc]
      rfl
    · rcases later.elements k child at_ with earlier | old | ⟨i,less,ref,under,before_,settles⟩
      · rw [round.children] at earlier
        by_cases inside : k < (before.children object).length
        · rw [List.getElem?_append_left inside] at earlier
          exact .inl earlier
        · have above := Nat.le_of_not_lt inside
          rw [List.getElem?_append_right above] at earlier
          have last : child = element ∧ k = (before.children object).length := by
            obtain ⟨short,same⟩ := List.getElem?_eq_some_iff.mp earlier
            simp only [List.length_singleton,Nat.lt_one_iff] at short
            refine ⟨?_,Nat.le_antisymm (Nat.le_of_sub_eq_zero short) above⟩
            simpa [short] using same.symm
          obtain ⟨rfl,rfl⟩ := last
          rcases round.element with old | ⟨ref,under,present,settles⟩
          · exact .inr (.inl old)
          obtain ⟨i,less,same⟩ := List.mem_iff_getElem.mp present
          refine .inr (.inr ⟨i,less,ref,under,?_,fun settled => ?_⟩)
          · rw [longer,round.children,List.append_assoc,List.getElem?_append_left less,List.getElem?_eq_getElem less,same]
          · refine (settles settled).transport (fun ptr allowed _ => ?_)
              fun ptr allowed => Nat.lt_of_lt_of_le allowed.2 later.grows
            exact later.same ptr allowed.2 (Nat.ne_of_gt (Nat.lt_of_lt_of_le made allowed.1))
      · exact .inr (.inl old)
      · exact .inr (.inr ⟨i,less,ref,under,before_,fun settled => settles (keeps ref settled)⟩)

end Rounds

section Steps
variable {start heap after : Heap} {file : MatFile} {chunked : MetaData → Option (Nat × DataArrays)}

theorem opened_same (heap : Heap) (superObject object address : Nat) (superFields fields : MetaData) (ptr : Nat) :
    Same heap (opened heap superObject object address superFields fields) ptr := by
  have parent : Same heap (heap.update superObject fun data => {data with toMetaData:=superFields}) ptr := by
    by_cases atSuper : ptr = superObject
    · subst atSuper
      refine ⟨fun filled => ?_,?_,?_⟩
      · rw [Heap.update_same]
        exact filled
      · rw [Heap.update_same]
      · unfold Heap.children
        rw [Heap.update_same]
    · exact .of_eq (Heap.update_other _ atSuper)
  refine parent.trans ?_
  unfold opened
  by_cases atObject : ptr = object
  · subst atObject
    refine ⟨fun _ => ?_,?_,?_⟩
    · rw [Heap.update_same]
    · rw [Heap.update_same]
    · unfold Heap.children
      rw [Heap.update_same]
  · exact .of_eq (Heap.update_other _ atObject)

theorem Grown.edit (grown : Grown start heap) (valid : after.Valid) (fresh : after.fresh = heap.fresh)
    (queue : after.objectQueue = heap.objectQueue)
    (address : ∀ ptr < heap.fresh, (after.objects ptr).thisObjAddress = (heap.objects ptr).thisObjAddress)
    (less : ∀ ptr, ∀ child ∈ after.children ptr, child ∈ heap.children ptr) : Grown start after := by
  refine ⟨valid,fresh ▸ grown.grows,queue ▸ grown.queued,fun ptr below => ?_,fun ptr above below child member clone => ?_⟩
  · have made : ptr < heap.fresh := fresh ▸ below
    obtain ⟨old,under,twin⟩ := grown.twins ptr made
    refine ⟨old,under,?_⟩
    rw [address old (Nat.lt_of_lt_of_le under grown.grows),address ptr made]
    exact twin
  · exact grown.ascending ptr above (fresh ▸ below) child (less ptr child member) clone

-- fillObject on an object that is not filled yet touches no other one that is, and
-- attaches older objects and clones of them only.
theorem fillAt_step (valid : start.Valid) (grown : Grown start heap) (made : object < heap.fresh)
    (ran : fillAt file chunked depth heap object = some (0,after)) : Step (Grown start) heap object after ∧
      ∀ (k child : Nat), (after.children object)[k]? = some child → child ∈ heap.children object ∨ child < start.fresh ∨
        ∃ i < k, ∃ ref < start.fresh, (after.children object)[i]? = some ref ∧ (Done heap ref → Done after child) := by
  unfold fillAt at ran
  cases filled : (heap.objects object).isFilled with
  | true =>
    unfold fillObject at ran
    rw [filled,if_pos rfl] at ran
    cases ran
    exact ⟨⟨grown,Nat.le_refl _,filled,fun ptr _ _ => .refl _ ptr⟩,fun k child at_ => .inl (List.mem_of_getElem? at_)⟩
  | false =>
    obtain ⟨superObject,returned,fields,superFields,filling⟩ := (fillObject_exact filled).mp ran
    have supers := (readObject_exact filling.read).2
    have ended := filling.ended
    have same := opened_same heap superObject object (heap.objects object).thisObjAddress superFields fields
    have validOpened : (opened heap superObject object _ superFields fields).Valid :=
      opened_valid grown.valid made filling.mapped filling.owned supers
    have keptOpened : Kept (fun _ => False) heap (opened heap superObject object _ superFields fields) :=
      (opened_kept made filled filling.owned).1
    have filledOpened : ((opened heap superObject object (heap.objects object).thisObjAddress superFields fields).objects
        object).isFilled = true := by
      unfold opened
      rw [Heap.update_same]
    have grownOpened : Grown start (opened heap superObject object (heap.objects object).thisObjAddress superFields fields) :=
      grown.edit validOpened rfl rfl keptOpened.address fun ptr child member => (same ptr).children ▸ member
    have early : ∀ k child, ((opened heap superObject object (heap.objects object).thisObjAddress superFields
        fields).children object)[k]? = some child → child ∈ heap.children object := fun k child at_ =>
      (same object).children ▸ List.mem_of_getElem? at_
    have fresh : (opened heap superObject object (heap.objects object).thisObjAddress superFields fields).fresh =
        heap.fresh := rfl
    generalize opened heap superObject object (heap.objects object).thisObjAddress superFields fields = base at *
    have plain : Step (Grown start) heap object base :=
      ⟨grownOpened,Nat.le_of_eq fresh.symm,filledOpened,fun ptr _ _ => same ptr⟩
    cases returned with
    | some code =>
      obtain ⟨_,rfl⟩ := ended
      exact ⟨plain,fun k child at_ => .inl (early k child at_)⟩
    | none =>
      unfold EndsWith at ended
      by_cases refers : Refers fields
      · rw [if_pos refers] at ended
        have madeBase : object < base.fresh := fresh ▸ made
        have validEmptied : (emptied base object fields).Valid := emptied_valid grownOpened.valid madeBase filledOpened
        obtain ⟨keptEmptied,whole,empty,_⟩ := emptied_kept base object fields
        have others : ∀ ptr, ptr ≠ object → Same base (emptied base object fields) ptr := fun ptr other =>
          .of_eq (Heap.update_other _ other)
        have grownEmptied : Grown start (emptied base object fields) := by
          refine grownOpened.edit validEmptied rfl rfl keptEmptied.address fun ptr child member => ?_
          by_cases own : ptr = object
          · rw [own,empty] at member
            exact absurd member List.not_mem_nil
          · exact (others ptr own).children ▸ member
        have resolved := resolveReferences_resolved valid grownEmptied madeBase whole ended
        refine ⟨⟨resolved.grown,fresh ▸ resolved.grows,?_,fun ptr older known => ?_⟩,fun k child at_ => ?_⟩
        · exact resolved.filled.trans (keptEmptied.filled object madeBase filledOpened)
        · have other : ptr ≠ object := by
            rintro rfl
            rcases known with known | different
            · rw [filled] at known
              cases known
            · exact different rfl
          exact ((same ptr).trans (others ptr other)).trans (resolved.same ptr (fresh ▸ older) other)
        · rcases resolved.elements k child at_ with none_ | old | ⟨i,less,ref,under,before_,settles⟩
          · rw [empty] at none_
            cases none_
          · exact .inr (.inl old)
          refine .inr (.inr ⟨i,less,ref,under,before_,fun done => ?_⟩)
          have refMade := Nat.lt_of_lt_of_le under grown.grows
          have settled : Settled (fun ptr => ptr < (emptied base object fields).fresh ∧ ptr ≠ object)
              (emptied base object fields) ref := by
            have apart : ∀ ptr, (heap.objects ptr).isFilled = true → ptr ≠ object := by
              rintro ptr known rfl
              rw [filled] at known
              cases known
            refine (done.within grown.valid refMade).transport (fun ptr allowed known => ?_) fun ptr allowed => ⟨?_,?_⟩
            · exact (same ptr).trans (others ptr (apart ptr known))
            · exact fresh ▸ allowed.1
            · exact apart ptr allowed.2
          exact (settles settled).transport (fun ptr _ _ => .refl _ ptr) fun _ _ => trivial
      · rw [if_neg refers] at ended
        obtain ⟨_,rfl⟩ := ended
        exact ⟨plain,fun k child at_ => .inl (early k child at_)⟩

end Steps

end FillSteps
end GetMatVar
