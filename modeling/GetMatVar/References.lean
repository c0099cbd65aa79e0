import GetMatVar.FillFrames

namespace GetMatVar

-- A cell array or the field of a struct array, which is taken for a cell, whose
-- references were resolved.
def Data.HoldsReferences (object : Data) : Prop :=
  object.isFilled = true ∧ object.matlabInternalType = .cellClass ∧ object.hdf5InternalType = .reference ∧
    object.subObjectHeaderOffsets ≠ none

instance (object : Data) : Decidable object.HoldsReferences := inferInstanceAs (Decidable (_ ∧ _ ∧ _ ∧ _))

def StoredOffset (fields : MetaData) (i offset : Nat) : Prop :=
  ∃ offsets, fields.subObjectHeaderOffsets = some offsets ∧ offsets[i]? = some (some offset)

section Statement
variable (file : MatFile) (heap : Heap)

def ElementOf (fields : MetaData) (i : Nat) (element : Data) : Prop :=
  (∃ offset, StoredOffset fields i offset ∧ element.thisObjAddress = (offset+file.sBlock.baseAddress)%2^addressBits) ∧
    element.sCArrayIndex = i

structure Complete (dataset : Nat) : Prop where
  count : ((heap.children dataset).length : Int) = (heap.objects dataset).numElems
  elements : ∀ (i obj : Nat), (heap.children dataset)[i]? = some obj →
    ElementOf file (heap.objects dataset).toMetaData i (heap.objects obj)

-- Every filled reference dataset has its elements, and none of them is an element
-- of another one.
structure Correct : Prop where
  complete : ∀ dataset < heap.fresh, (heap.objects dataset).HoldsReferences → Complete file heap dataset
  apart : ∀ dataset < heap.fresh, ∀ other < heap.fresh, dataset ≠ other → (heap.objects dataset).HoldsReferences →
    (heap.objects other).HoldsReferences → ∀ obj ∈ heap.children dataset, obj ∉ heap.children other

def Leads (fields : MetaData) (i ref : Nat) : Prop :=
  ∃ offset, StoredOffset fields i offset ∧
    findObjectByHeaderAddress heap ((offset+file.sBlock.baseAddress)%2^addressBits) = some ref

-- A clone of this object keeps all offsets of the reference datasets below it.
def Copyable (ref : Nat) : Prop :=
  ∀ item, heap.Below ref item → (heap.objects item).HoldsReferences →
    (heap.objects item).numElems ≤ 0 ∨ 8 ≤ (heap.objects item).elemSize

-- Resolving the references of a dataset does no harm: none leads to an element of
-- another dataset, and what is cloned because it is referred to twice can be.
structure Harmless (dataset : Nat) (fields : MetaData) : Prop where
  free : ∀ (i ref : Nat), (i : Int) < fields.numElems → Leads file heap fields i ref →
    ∀ other < heap.fresh, other ≠ dataset → (heap.objects other).HoldsReferences → ref ∉ heap.children other
  again : ∀ (i k ref : Nat), k < i → (i : Int) < fields.numElems → Leads file heap fields k ref → Leads file heap fields i ref →
    Copyable heap ref ∧ ¬ heap.Below ref dataset

end Statement

def Heap.Holding (heap : Heap) (dataset ptr : Nat) : Prop := ptr = dataset ∨ (heap.objects ptr).HoldsReferences

-- The state after i references of a dataset, seen from the heap first in which the
-- loop over them began.
structure Resolving (file : MatFile) (first : Heap) (dataset i : Nat) (heap : Heap) : Prop where
  valid : heap.Valid
  grows : first.fresh ≤ heap.fresh
  queued : ∃ extra, heap.objectQueue.live = first.objectQueue.live++extra
  fields : ∀ ptr < first.fresh, (heap.objects ptr).toMetaData = (first.objects ptr).toMetaData ∧
    (heap.objects ptr).isFilled = (first.objects ptr).isFilled ∧
    (heap.objects ptr).thisObjAddress = (first.objects ptr).thisObjAddress
  queues : ∀ ptr < first.fresh, ptr ≠ dataset → (heap.objects ptr).subObjects = (first.objects ptr).subObjects
  added : ∀ ptr, first.fresh ≤ ptr → ptr < heap.fresh →
    (∃ old < first.fresh, (heap.objects ptr).thisObjAddress = (first.objects old).thisObjAddress) ∧
      ∀ child ∈ heap.children ptr, first.fresh ≤ child
  whole : heap.Whole dataset
  count : (heap.children dataset).length = i
  elements : ∀ (k obj : Nat), (heap.children dataset)[k]? = some obj →
    ElementOf file (heap.objects dataset).toMetaData k (heap.objects obj)
  led : ∀ obj ∈ heap.children dataset, obj < first.fresh →
    ∃ k < i, Leads file first (first.objects dataset).toMetaData k obj
  complete : ∀ other < heap.fresh, other ≠ dataset → (heap.objects other).HoldsReferences → Complete file heap other
  apart : ∀ one < heap.fresh, ∀ other < heap.fresh, one ≠ other → heap.Holding dataset one → heap.Holding dataset other →
    ∀ obj ∈ heap.children one, obj ∉ heap.children other

section Attach
variable {file : MatFile} {first heap after : Heap}

theorem HoldsReferences.congr {left right : Data} (fields : right.toMetaData = left.toMetaData)
    (filled : right.isFilled = left.isFilled) : right.HoldsReferences ↔ left.HoldsReferences := by
  unfold Data.HoldsReferences
  rw [fields,filled]

theorem Complete.transport (complete : Complete file heap dataset)
    (count : (after.objects dataset).numElems = (heap.objects dataset).numElems)
    (stored : (after.objects dataset).subObjectHeaderOffsets = (heap.objects dataset).subObjectHeaderOffsets)
    (children : after.children dataset = heap.children dataset)
    (same : ∀ obj ∈ heap.children dataset, (after.objects obj).thisObjAddress = (heap.objects obj).thisObjAddress ∧
      (after.objects obj).sCArrayIndex = (heap.objects obj).sCArrayIndex) : Complete file after dataset := by
  refine ⟨?_,fun i obj at_ => ?_⟩
  · rw [children,complete.count,count]
  · rw [children] at at_
    obtain ⟨⟨offset,⟨offsets,all,one⟩,address⟩,index⟩ := complete.elements i obj at_
    obtain ⟨sameAddress,sameIndex⟩ := same obj (List.mem_of_getElem? at_)
    exact ⟨⟨offset,⟨offsets,stored.trans all,one⟩,sameAddress.trans address⟩,sameIndex.trans index⟩

theorem attachElement_places (attached : attachElement dataset element i heap = some after) :
    (after.objects element).sCArrayIndex = i ∧
      (∀ obj, obj ≠ element → (after.objects obj).sCArrayIndex = (heap.objects obj).sCArrayIndex) ∧
      ∀ ptr, ptr ≠ dataset → (after.objects ptr).subObjects = (heap.objects ptr).subObjects := by
  obtain ⟨different,shortName,longName,rfl⟩ := attachElement_exact attached
  refine ⟨?_,fun obj atElement => ?_,fun ptr atDataset => ?_⟩
  · rw [Heap.update_same]
    rfl
  · rw [Heap.update_other _ atElement]
    by_cases atDataset : obj = dataset
    · subst atDataset
      rw [Heap.update_same]
    · rw [Heap.update_other _ atDataset]
  · by_cases atElement : ptr = element
    · subst atElement
      rw [Heap.update_same,Heap.update_other _ different]
      rfl
    · rw [Heap.update_other _ atElement,Heap.update_other _ atDataset]

theorem Resolving.attach (state : Resolving file first dataset i heap) (made : dataset < first.fresh)
    (allocated : element < heap.fresh) (stored : StoredOffset (heap.objects dataset).toMetaData i offset)
    (address : (heap.objects element).thisObjAddress = (offset+file.sBlock.baseAddress)%2^addressBits)
    (free : ∀ other < heap.fresh, heap.Holding dataset other → element ∉ heap.children other)
    (led : element < first.fresh → Leads file first (first.objects dataset).toMetaData i element)
    (attaching : attachElement dataset element i heap = some after) : Resolving file first dataset (i+1) after := by
  have valid := state.valid
  have grows := state.grows
  have madeHere : dataset < heap.fresh := Nat.lt_of_lt_of_le made grows
  have attached := attachElement_frame valid madeHere attaching
  obtain ⟨placed,indices,queues⟩ := attachElement_places attaching
  have holding : ∀ ptr, after.Holding dataset ptr ↔ heap.Holding dataset ptr := fun ptr =>
    or_congr_right (HoldsReferences.congr (attached.fields ptr).1 (attached.fields ptr).2.1)
  refine ⟨valid.attach madeHere allocated attaching,?_,?_,?_,?_,?_,?_,?_,?_,?_,?_,?_⟩
  · rw [attached.fresh]
    exact grows
  · rw [attached.queue]
    exact state.queued
  · intro ptr older
    obtain ⟨fields,filled,address⟩ := attached.fields ptr
    rw [fields,filled,address]
    exact state.fields ptr older
  · intro ptr older atDataset
    exact (queues ptr atDataset).trans (state.queues ptr older atDataset)
  · intro ptr newer below
    rw [attached.fresh] at below
    rw [(attached.fields ptr).2.2,attached.others ptr (by omega)]
    exact state.added ptr newer below
  · unfold Heap.Whole
    rw [attached.nodes,attached.grown,state.whole]
  · rw [attached.grown,List.length_append,state.count]
    rfl
  · intro k obj at_
    rw [(attached.fields dataset).1]
    rw [attached.grown] at at_
    by_cases old : k < (heap.children dataset).length
    · rw [List.getElem?_append_left old] at at_
      have member := List.mem_of_getElem? at_
      obtain ⟨⟨offset,stored,address⟩,place⟩ := state.elements k obj at_
      have atElement : obj ≠ element := fun same => free dataset madeHere (.inl rfl) (same ▸ member)
      exact ⟨⟨offset,stored,(attached.fields obj).2.2.trans address⟩,(indices obj atElement).trans place⟩
    · rw [List.getElem?_append_right (Nat.le_of_not_lt old),List.getElem?_singleton] at at_
      split at at_
      · rename_i zero
        cases at_
        have last : k = i := by have := state.count; omega
        subst last
        exact ⟨⟨offset,stored,(attached.fields element).2.2.trans address⟩,placed⟩
      · cases at_
  · intro obj member older
    rw [attached.grown,List.mem_append,List.mem_singleton] at member
    rcases member with member | rfl
    · obtain ⟨k,before,leads⟩ := state.led obj member older
      exact ⟨k,by omega,leads⟩
    · exact ⟨i,Nat.lt_succ_self i,led older⟩
  · intro other below atDataset holds
    rw [attached.fresh] at below
    obtain ⟨fields,filled,_⟩ := attached.fields other
    rw [HoldsReferences.congr fields filled] at holds
    have complete := state.complete other below atDataset holds
    refine complete.transport (by rw [fields]) (by rw [fields]) (attached.others other atDataset) fun obj member => ?_
    have atElement : obj ≠ element := fun same => free other below (.inr holds) (same ▸ member)
    exact ⟨(attached.fields obj).2.2,indices obj atElement⟩
  · intro one below other below' distinct holdsOne holdsOther obj member
    rw [attached.fresh] at below below'
    rw [holding] at holdsOne holdsOther
    have apart := state.apart one below other below' distinct holdsOne holdsOther obj
    by_cases left : one = dataset
    · subst left
      rw [attached.others other (Ne.symm distinct)]
      rw [attached.grown,List.mem_append,List.mem_singleton] at member
      rcases member with member | rfl
      · exact apart member
      · exact free other below' holdsOther
    · rw [attached.others one left] at member
      by_cases right : other = dataset
      · subst right
        rw [attached.grown,List.mem_append,List.mem_singleton]
        rintro (also_ | rfl)
        · exact apart member also_
        · exact free one below holdsOne member
      · rw [attached.others other right]
        exact apart member

end Attach

section Prepare
variable {file : MatFile} {first heap base middle ready : Heap}

-- In the middle of the loop a search finds what it found before.
theorem Resolving.found (state : Resolving file first dataset i heap) (validFirst : first.Valid)
    (found : findObjectByHeaderAddress heap wanted = some ref) :
    findObjectByHeaderAddress first wanted = some ref ∧ ref < first.fresh := by
  obtain ⟨extra,queued⟩ := state.queued
  have same : ∀ obj ∈ first.objectQueue.live, ((heap.objects obj).thisObjAddress == wanted) =
      ((first.objects obj).thisObjAddress == wanted) := fun obj member => by
    rw [(state.fields obj ((validFirst.registered obj).mp member)).2.2]
  have address := find_address found
  have below := find_below state.valid found
  unfold findObjectByHeaderAddress at found ⊢
  rw [queued,List.find?_append,List.find?_congr same] at found
  cases early : first.objectQueue.live.find? (fun obj => (first.objects obj).thisObjAddress == wanted) with
  | some other =>
    rw [early] at found
    cases found
    exact ⟨rfl,(validFirst.registered _).mp (List.mem_of_find?_eq_some early)⟩
  | none =>
    exfalso
    have nowhere : ∀ old < first.fresh, (first.objects old).thisObjAddress ≠ wanted := fun old older => by
      have missed := List.find?_eq_none.mp early old ((validFirst.registered old).mpr older)
      simpa using missed
    by_cases older : ref < first.fresh
    · exact nowhere ref older ((state.fields ref older).2.2.symm.trans address)
    · obtain ⟨⟨old,inside,same⟩,_⟩ := state.added ref (by omega) below
      exact nowhere old inside (same.symm.trans address)

theorem Resolving.below (state : Resolving file first dataset i heap) (validFirst : first.Valid) (older : ref < first.fresh)
    (off : ¬first.Below ref dataset) (less : ∀ ptr, ∀ child ∈ base.children ptr, child ∈ heap.children ptr)
    (below : base.Below ref item) : first.Below ref item ∧ item < first.fresh ∧ item ≠ dataset := by
  induction below with
  | refl => exact ⟨.refl,older,fun same => off (same ▸ .refl)⟩
  | @tail item child _ member ih =>
    obtain ⟨path,inside,different⟩ := ih
    have listed : child ∈ first.children item := by
      have here := less item child member
      unfold Heap.children at here ⊢
      rwa [state.queues item inside different] at here
    have deeper : first.Below ref child := path.tail listed
    exact ⟨deeper,validFirst.closed item inside child listed,fun same => off (same ▸ deeper)⟩

theorem Copies.holds (copied : Copies base middle item copy) (holds : (middle.objects copy).HoldsReferences) :
    (base.objects item).HoldsReferences := by
  obtain ⟨queue,_,fields⟩ := copied.fields
  rw [fields] at holds
  obtain ⟨filled,cell,type,offsets⟩ := holds
  refine ⟨filled,cell,type,fun absent => offsets ?_⟩
  show (clonedFields (base.objects item).toMetaData).subObjectHeaderOffsets = none
  unfold clonedFields
  rw [absent]
  rfl

-- The clone of a dataset has all elements if its offsets are copied.
theorem Complete.copied (complete : Complete file heap item) (unmoved : base.objects item = heap.objects item)
    (same : ∀ obj, (base.objects obj).thisObjAddress = (heap.objects obj).thisObjAddress ∧
      (base.objects obj).sCArrayIndex = (heap.objects obj).sCArrayIndex)
    (copied : Copies base middle item copy)
    (enough : (heap.objects item).numElems ≤ 0 ∨ 8 ≤ (heap.objects item).elemSize) : Complete file middle copy := by
  obtain ⟨queue,_,fields⟩ := copied.fields
  have children : base.children item = heap.children item := by
    unfold Heap.children
    rw [unmoved]
  have lengths := copied.items.length_eq
  refine ⟨?_,fun i obj at_ => ?_⟩
  · rw [← lengths,children,complete.count,fields,unmoved]
    rfl
  · obtain ⟨short,last⟩ := List.getElem?_eq_some_iff.mp at_
    have bound : i < (base.children item).length := by omega
    obtain ⟨address,index,_⟩ : SameElement base middle ((base.children item)[i]) obj := by
      have pair := copied.items.get bound short
      rw [List.get_eq_getElem,List.get_eq_getElem] at pair
      rwa [last] at pair
    have source : (heap.children item)[i]? = some ((base.children item)[i]) := by
      rw [← children]
      exact List.getElem?_eq_getElem bound
    obtain ⟨⟨offset,⟨offsets,all,one⟩,addressOf⟩,place⟩ := complete.elements i _ source
    have few : i < (heap.objects item).numElems.toNat*(heap.objects item).elemSize/8 := by
      have count := complete.count
      rw [children] at bound
      have large : 8 ≤ (heap.objects item).elemSize := by omega
      have less : i < (heap.objects item).numElems.toNat := by omega
      refine Nat.lt_of_lt_of_le less ?_
      rw [Nat.le_div_iff_mul_le (by decide)]
      exact Nat.mul_le_mul_left _ large
    refine ⟨⟨offset,⟨offsets.take ((heap.objects item).numElems.toNat*(heap.objects item).elemSize/8),?_,?_⟩,?_⟩,?_⟩
    · rw [fields,unmoved]
      show (clonedFields (heap.objects item).toMetaData).subObjectHeaderOffsets = _
      unfold clonedFields
      rw [all]
      rfl
    · rw [List.getElem?_take_of_lt few]
      exact one
    · exact address.trans ((same _).1.trans addressOf)
    · exact index.trans ((same _).2.trans place)

theorem Resolving.extend (state : Resolving file first dataset i heap) (made : dataset < first.fresh)
    (prepared : Prepared heap dataset ref element ready)
    (new : ∀ ptr, heap.fresh ≤ ptr → ptr < ready.fresh →
      (∃ old < first.fresh, (ready.objects ptr).thisObjAddress = (first.objects old).thisObjAddress) ∧
      (∀ child ∈ ready.children ptr, heap.fresh < child) ∧
      ((ready.objects ptr).HoldsReferences → Complete file ready ptr))
    (newApart : ∀ one other, heap.fresh ≤ one → one < ready.fresh → heap.fresh ≤ other → other < ready.fresh → one ≠ other →
      ∀ child ∈ ready.children one, child ∉ ready.children other) : Resolving file first dataset i ready := by
  have valid := state.valid
  have grows := state.grows
  have further := prepared.grows
  obtain ⟨queue,parent⟩ := prepared.parent
  obtain ⟨early,queued⟩ := state.queued
  obtain ⟨late,more,_⟩ := prepared.queued
  have kept : ∀ ptr < heap.fresh, (ready.objects ptr).toMetaData = (heap.objects ptr).toMetaData ∧
      (ready.objects ptr).isFilled = (heap.objects ptr).isFilled ∧
      (ready.objects ptr).thisObjAddress = (heap.objects ptr).thisObjAddress ∧
      (ready.objects ptr).sCArrayIndex = (heap.objects ptr).sCArrayIndex := fun ptr below => by
    by_cases atDataset : ptr = dataset
    · subst atDataset
      rw [parent]
      exact ⟨rfl,rfl,rfl,rfl⟩
    · rw [prepared.frame ptr below atDataset]
      exact ⟨rfl,rfl,rfl,rfl⟩
  have children : ∀ ptr < heap.fresh, ready.children ptr = heap.children ptr := fun ptr below => by
    by_cases atDataset : ptr = dataset
    · subst atDataset
      exact prepared.children
    · unfold Heap.children
      rw [prepared.frame ptr below atDataset]
  have older : ∀ ptr < heap.fresh, ∀ child ∈ ready.children ptr, child < heap.fresh := fun ptr below child member =>
    valid.closed ptr below child (children ptr below ▸ member)
  have holding : ∀ ptr < heap.fresh, (ready.Holding dataset ptr ↔ heap.Holding dataset ptr) := fun ptr below =>
    or_congr_right (HoldsReferences.congr (kept ptr below).1 (kept ptr below).2.1)
  have madeHere : dataset < heap.fresh := Nat.lt_of_lt_of_le made grows
  refine ⟨prepared.valid,grows.trans further,⟨early++late,?_⟩,?_,?_,?_,prepared.whole,?_,?_,?_,?_,?_⟩
  · rw [more,queued,List.append_assoc]
  · intro ptr inside
    obtain ⟨fields,filled,address,_⟩ := kept ptr (by omega)
    rw [fields,filled,address]
    exact state.fields ptr inside
  · intro ptr inside atDataset
    rw [prepared.frame ptr (by omega) atDataset]
    exact state.queues ptr inside atDataset
  · intro ptr newer below
    by_cases old : ptr < heap.fresh
    · rw [(kept ptr old).2.2.1,children ptr old]
      exact state.added ptr newer old
    · obtain ⟨address,inner_,_⟩ := new ptr (by omega) below
      refine ⟨address,fun child member => ?_⟩
      have := inner_ child member
      omega
  · rw [prepared.children]
    exact state.count
  · intro k obj at_
    rw [prepared.children] at at_
    have inside := valid.closed dataset madeHere obj (List.mem_of_getElem? at_)
    obtain ⟨_,_,address,index⟩ := kept obj inside
    unfold ElementOf
    rw [(kept dataset madeHere).1,address,index]
    exact state.elements k obj at_
  · intro obj member
    rw [prepared.children] at member
    exact state.led obj member
  · intro other below atDataset holds
    by_cases old : other < heap.fresh
    · obtain ⟨fields,filled,_⟩ := kept other old
      rw [HoldsReferences.congr fields filled] at holds
      have complete := state.complete other old atDataset holds
      refine complete.transport (by rw [fields]) (by rw [fields]) (children other old) fun obj member => ?_
      exact (kept obj (valid.closed other old obj member)).2.2
    · exact (new other (by omega) below).2.2 holds
  · intro one below other below' distinct holdsOne holdsOther obj member
    by_cases oldOne : one < heap.fresh
    · by_cases oldOther : other < heap.fresh
      · rw [holding one oldOne] at holdsOne
        rw [holding other oldOther] at holdsOther
        rw [children one oldOne] at member
        rw [children other oldOther]
        exact state.apart one oldOne other oldOther distinct holdsOne holdsOther obj member
      · intro also_
        have := older one oldOne obj member
        have := (new other (by omega) below').2.1 obj also_
        omega
    · by_cases oldOther : other < heap.fresh
      · intro also_
        have := older other oldOther obj also_
        have := (new one (by omega) below).2.1 obj member
        omega
      · exact newApart one other (by omega) below (by omega) below' distinct obj member

-- The element to be attached is no element of anything yet.
structure Free (first : Heap) (dataset ref element : Nat) (heap ready : Heap) : Prop where
  address : (ready.objects element).thisObjAddress = (heap.objects ref).thisObjAddress
  alone : ∀ other < ready.fresh, ready.Holding dataset other → element ∉ ready.children other
  itself : element < first.fresh → element = ref

theorem Resolving.itself (state : Resolving file first dataset i heap) (made : dataset < first.fresh)
    (older : ref < first.fresh)
    (free : ∀ other < first.fresh, other ≠ dataset → (first.objects other).HoldsReferences → ref ∉ first.children other)
    (prepared : Prepared heap dataset ref ref ready) (absent : ref ∉ heap.children dataset)
    (fresh : ready.fresh = heap.fresh) : Resolving file first dataset i ready ∧ Free first dataset ref ref heap ready := by
  have next : Resolving file first dataset i ready := state.extend made prepared
    (fun ptr _ below => by omega) (fun one _ _ below => by omega)
  have inside : ref < heap.fresh := Nat.lt_of_lt_of_le older state.grows
  have kept := prepared.kept (Nat.lt_of_lt_of_le made state.grows)
  refine ⟨next,kept.address ref inside,fun other below holds => ?_,fun _ => rfl⟩
  by_cases atDataset : other = dataset
  · subst atDataset
    rw [prepared.children]
    exact absent
  · by_cases old : other < first.fresh
    · obtain ⟨fields,filled,_⟩ := next.fields other old
      have holdsFirst := (HoldsReferences.congr fields filled).mp (holds.resolve_left atDataset)
      have lone := free other old atDataset holdsFirst
      unfold Heap.children at lone ⊢
      rwa [next.queues other old atDataset]
    · intro member
      have := (next.added other (by omega) below).2 ref member
      omega

theorem Resolving.copied (state : Resolving file first dataset i heap) (validFirst : first.Valid) (made : dataset < first.fresh)
    (older : ref < first.fresh) (copyable : Copyable first ref) (off : ¬first.Below ref dataset)
    (prepared : Prepared heap dataset ref heap.fresh ready) (part : Queue Nat)
    (less : ∀ child ∈ part.live, child ∈ heap.children dataset)
    (cloned : Cloned (heap.update dataset fun data => {data with subObjects:=part})
      (heap.update dataset fun data => {data with subObjects:=part}) ref middle)
    (unmoved : ∀ ptr, ptr ≠ dataset → ready.objects ptr = middle.objects ptr) (fresh : ready.fresh = middle.fresh) :
    Resolving file first dataset i ready ∧ Free first dataset ref heap.fresh heap ready := by
  have grows := state.grows
  have more : heap.fresh < middle.fresh := cloned.grows
  generalize narrowed : (heap.update dataset fun data => {data with subObjects:=part}) = base at cloned
  have baseFresh : base.fresh = heap.fresh := by rw [← narrowed]; rfl
  have here : ∀ ptr, ptr ≠ dataset → base.objects ptr = heap.objects ptr := fun ptr different => by
    rw [← narrowed]
    exact Heap.update_other _ different
  have same : ∀ obj, (base.objects obj).thisObjAddress = (heap.objects obj).thisObjAddress ∧
      (base.objects obj).sCArrayIndex = (heap.objects obj).sCArrayIndex := fun obj => by
    by_cases atDataset : obj = dataset
    · rw [← narrowed,atDataset,Heap.update_same]
      exact ⟨rfl,rfl⟩
    · rw [here obj atDataset]
      exact ⟨rfl,rfl⟩
  have narrower : ∀ ptr, ∀ child ∈ base.children ptr, child ∈ heap.children ptr := fun ptr child member => by
    by_cases atDataset : ptr = dataset
    · rw [← narrowed,Heap.children,atDataset,Heap.update_same] at member
      exact atDataset ▸ less child member
    · unfold Heap.children at member ⊢
      rwa [here ptr atDataset] at member
  have beyond : ∀ ptr, heap.fresh ≤ ptr → ptr ≠ dataset := fun ptr newer => by omega
  have children : ∀ ptr, heap.fresh ≤ ptr → ready.children ptr = middle.children ptr := fun ptr newer => by
    unfold Heap.children
    rw [unmoved ptr (beyond ptr newer)]
  have inner_ : ∀ ptr, heap.fresh ≤ ptr → ptr < ready.fresh → ∀ child ∈ ready.children ptr, ptr < child := by
    intro ptr newer below child member
    rw [children ptr newer] at member
    exact (cloned.batch.inner ptr (baseFresh ▸ newer) (fresh ▸ below) child member).1
  have next : Resolving file first dataset i ready := by
    refine state.extend made prepared (fun ptr newer below => ?_) fun one other newer below newer' below' distinct child => ?_
    · obtain ⟨item,path,copied⟩ := cloned.batch.copies ptr (baseFresh ▸ newer) (fresh ▸ below)
      -- What is cloned was there before the loop, and is not the dataset.
      obtain ⟨pathFirst,inside,different⟩ := state.below validFirst older off narrower path
      obtain ⟨queue,_,fields⟩ := copied.fields
      obtain ⟨itemFields,itemFilled,itemAddress⟩ := state.fields item inside
      refine ⟨⟨item,inside,?_⟩,fun child member => ?_,fun holds => ?_⟩
      · rw [unmoved ptr (beyond ptr newer),fields]
        exact (same item).1.trans itemAddress
      · have := inner_ ptr newer below child member
        omega
      · have holdsItem : (heap.objects item).HoldsReferences := by
          rw [unmoved ptr (beyond ptr newer)] at holds
          rw [← here item different]
          exact copied.holds holds
        have enough := copyable item pathFirst ((HoldsReferences.congr itemFields itemFilled).mp holdsItem)
        rw [← itemFields] at enough
        have complete := state.complete item (by omega) different holdsItem
        have whole := complete.copied (here item different) same copied enough
        have objects := unmoved ptr (beyond ptr newer)
        refine whole.transport (by rw [objects]) (by rw [objects]) (children ptr newer) fun obj member => ?_
        have deeper := inner_ ptr newer below obj (children ptr newer ▸ member)
        rw [unmoved obj (beyond obj (by omega))]
        exact ⟨rfl,rfl⟩
    · rw [children one newer,children other newer']
      exact cloned.batch.apart one other (baseFresh ▸ newer) (fresh ▸ below) (baseFresh ▸ newer') (fresh ▸ below') distinct child
  refine ⟨next,?_,fun other below _ member => ?_,fun early => by omega⟩
  · obtain ⟨queue,_,fields⟩ := cloned.top.fields
    rw [baseFresh] at fields
    rw [unmoved heap.fresh (beyond heap.fresh (Nat.le_refl _)),fields]
    exact (same ref).1
  · by_cases newer : heap.fresh ≤ other
    · have := inner_ other newer below heap.fresh member
      omega
    · have listed : heap.fresh ∈ heap.children other := by
        by_cases atDataset : other = dataset
        · rw [atDataset,prepared.children] at member
          exact atDataset ▸ member
        · unfold Heap.children at member ⊢
          rwa [prepared.frame other (by omega) atDataset] at member
      exact Nat.lt_irrefl _ (state.valid.closed other (by omega) _ listed)

theorem Resolving.next (state : Resolving file first dataset i heap) (validFirst : first.Valid) (made : dataset < first.fresh)
    (harmless : Harmless file first dataset (first.objects dataset).toMetaData)
    (few : (i : Int) < (first.objects dataset).numElems) (stored : StoredOffset (heap.objects dataset).toMetaData i offset)
    (one : ResolvedOne file (cloneData fuel) heap dataset i offset after) : Resolving file first dataset (i+1) after := by
  have madeHere := Nat.lt_of_lt_of_le made state.grows
  obtain ⟨ref,element,ready,found,prepared,chosen,attaching⟩ := resolvedOne_parts state.valid madeHere state.whole one
  obtain ⟨foundFirst,older⟩ := state.found validFirst found
  have storedFirst : StoredOffset (first.objects dataset).toMetaData i offset := (state.fields dataset made).1 ▸ stored
  have leads : Leads file first (first.objects dataset).toMetaData i ref := ⟨offset,storedFirst,foundFirst⟩
  have choice : Resolving file first dataset i ready ∧ Free first dataset ref element heap ready := by
    cases chosen with
    | itself absent fresh => exact state.itself made older (harmless.free i ref few leads) prepared absent fresh
    | copied present part _ less cloned same fresh =>
      obtain ⟨k,before,leadsBefore⟩ := state.led ref present older
      obtain ⟨copyable,off⟩ := harmless.again i k ref before few leadsBefore leads
      exact state.copied validFirst made older copyable off prepared part less cloned same fresh
  obtain ⟨next,free⟩ := choice
  have storedReady : StoredOffset (ready.objects dataset).toMetaData i offset := by
    rw [(next.fields dataset made).1]
    exact storedFirst
  refine next.attach made prepared.allocated storedReady (free.address.trans (find_address found)) free.alone ?_ attaching
  intro early
  rw [free.itself early]
  exact leads

theorem resolveReferences_resolving (state : Resolving file first dataset i heap) (validFirst : first.Valid)
    (made : dataset < first.fresh) (harmless : Harmless file first dataset (first.objects dataset).toMetaData)
    (few : i+left = (first.objects dataset).numElems.toNat)
    (ran : resolveReferences file (cloneData fuel) dataset left i heap = some (0,after)) :
    Resolving file first dataset (i+left) after := by
  induction left generalizing i heap with
  | zero =>
    cases ran
    exact state
  | succ left ih =>
    obtain ⟨offsets,offset,middle,stored,at_,first_,rest⟩ := resolveReferences_parts ran
    have madeHere := Nat.lt_of_lt_of_le made state.grows
    have one := resolveReference_exact (fun _ _ _ _ => cloneData_extends) madeHere (state.valid.tight dataset madeHere)
      (state.valid.closed dataset madeHere) first_
    have next := state.next validFirst made harmless (by omega) ⟨offsets,stored,at_⟩ one
    have whole := ih next (by omega) rest
    rwa [Nat.add_right_comm] at whole

theorem Resolving.correct (state : Resolving file first dataset (first.objects dataset).numElems.toNat heap)
    (made : dataset < first.fresh) (counted : (heap.objects dataset).HoldsReferences → 0 ≤ (first.objects dataset).numElems) :
    Correct file heap where
  complete other below holds := by
    by_cases atDataset : other = dataset
    · subst atDataset
      refine ⟨?_,state.elements⟩
      rw [state.count,(state.fields other made).1]
      exact Int.toNat_of_nonneg (counted holds)
    · exact state.complete other below atDataset holds
  apart one below other below' distinct holdsOne holdsOther :=
    state.apart one below other below' distinct (.inr holdsOne) (.inr holdsOther)

end Prepare

end GetMatVar
