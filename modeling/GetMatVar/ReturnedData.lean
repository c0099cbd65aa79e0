import GetMatVar.MexFunction

namespace GetMatVar.ReturnedData

-- is_mx_used of every object. initializeObject and cloneData leave it false until the
-- arrays are made.
abbrev MxUsed := Nat → Bool

section Model
variable (heap : Heap)

def useSparse (used : MxUsed) (obj : Nat) : Option MxUsed := do
  let jc ← findSubObjectByShortName heap obj (textOf "jc")
  match findSubObjectByShortName heap obj (textOf "data") with
  | none => some (Function.update used jc false)
  | some data => do
    let ir ← findSubObjectByShortName heap obj (textOf "ir")
    some (Function.update (Function.update (Function.update used data true) ir false) jc false)

-- is_mx_used is set before the switch, and reset in the branches of what has no data
-- of its own to give.
def useObject (below : MxUsed → Nat → List Nat → Option MxUsed) (used : MxUsed) (obj : Nat) : Option MxUsed :=
  let object := heap.objects obj
  let used := Function.update used obj true
  match setterOf object.matlabInternalType with
  | .numeric => some used
  | .sparse => useSparse heap used obj
  | .logical => some used
  | .char => some used
  | .cell => do
    let used ← below used object.numSubObjs object.subObjects.live
    some (Function.update used obj false)
  | .struct => do
    let used ← below used object.numSubObjs (restartQueue object.subObjects).live
    some (Function.update used obj false)
  | .nothing => some (Function.update used obj false)

-- The flags behind makeSubstructure, which goes over the same objects.
def useObjects : Nat → MxUsed → Nat → List Nat → Option MxUsed
  | 0,_,_,_ => none
  | fuel+1,used,numElems,objects =>
    if numElems = 0 then some used
    else do
      let first ← objects.head?
      if (heap.objects first).isStructArray then
        objects.foldlM (fun used obj => useObjects fuel used (heap.objects obj).numSubObjs (heap.children obj)) used
      else objects.foldlM (useObject heap (useObjects fuel)) used

end Model

-- The blocks of a Data. Those of the filters are left out. A name of length 0 has a
-- block of one byte too, which nothing frees.
inductive BlockKind where
  | data
  | shortName
  | longName
  | subObjectHeaderOffsets
  | dims
  | chunkedDims
  | chunkUpdate
  | matlabClass
  | subObjects
  | object
deriving DecidableEq,Repr

structure Block where
  obj : Nat
  kind : BlockKind
deriving DecidableEq,Repr

def blockKinds : List BlockKind :=
  [.data,.shortName,.longName,.subObjectHeaderOffsets,.dims,.chunkedDims,.chunkUpdate,.matlabClass,.subObjects,.object]

-- The test that stands before each mxFree.
def frees (object : Data) (isMxUsed : Bool) : BlockKind → Bool
  | .data => !isMxUsed && object.data.isSome
  | .shortName => !object.shortName.isEmpty
  | .longName => !object.longName.isEmpty
  | .subObjectHeaderOffsets => object.subObjectHeaderOffsets.isSome
  | .dims => object.dims.isSome
  | .chunkedDims => object.chunkedInfo.chunkedDims.isSome
  | .chunkUpdate => object.chunkedInfo.chunkUpdate.isSome
  | .matlabClass => object.matlabClass.isSome
  | .subObjects => true
  | .object => true

def freeDataObject (heap : Heap) (used : MxUsed) (obj : Nat) : List Block :=
  (blockKinds.filter (frees (heap.objects obj) (used obj))).map (Block.mk obj)

-- flushQueue calls it for every node that was ever put in.
def freeObjectQueue (heap : Heap) (used : MxUsed) : List Block := heap.objectQueue.nodes.flatMap (freeDataObject heap used)

-- An array that mxSetData has given the data of an object, on its own or in a slot.
inductive Refers : MxArray → Nat → Prop where
  | own (data : array.header.data = some obj) : Refers array obj
  | slot (place : MxSlot) (at_ : array.slots place = some value) (below : Refers value obj) : Refers array obj

inductive RefersAt : MxArray → List MxSlot → Nat → Prop where
  | own (data : array.header.data = some obj) : RefersAt array [] obj
  | slot {place : MxSlot} (at_ : array.slots place = some value) (below : RefersAt value path obj) : RefersAt array (place::path) obj

def isLeaf (classID : MxClassID) : Bool := isNumeric classID || classID == .logicalClass || classID == .charClass

def IsSparse (heap : Heap) (obj : Nat) : Prop := (heap.objects obj).matlabInternalType = .sparseClass

-- The row indices or the column starts of a sparse matrix, which are copied.
def IsIndexPart (heap : Heap) (obj part : Nat) : Prop :=
  findSubObjectByShortName heap obj (textOf "ir") = some part ∨ findSubObjectByShortName heap obj (textOf "jc") = some part

-- Sparse matrices have their parts for themselves, with numbers as their data, and are
-- no struct arrays.
structure Unshared (heap : Heap) : Prop where
  data : ∀ obj part, IsSparse heap obj → findSubObjectByShortName heap obj (textOf "data") = some part →
    isLeaf (heap.objects part).matlabInternalType = true
  parts : ∀ obj part parent, IsSparse heap obj → IsIndexPart heap obj part →
    part ∈ (heap.objects parent).subObjects.nodes → parent = obj
  plain : ∀ parent field obj, field ∈ (heap.objects parent).subObjects.nodes → (heap.objects field).isStructArray = true →
    obj ∈ (heap.objects parent).subObjects.nodes → ¬IsSparse heap obj

section Used
variable {heap : Heap} {used next : MxUsed}

-- Nothing resets the flag of such an object.
def Stays (heap : Heap) (obj : Nat) : Prop :=
  isLeaf (heap.objects obj).matlabInternalType = true ∧ ∀ sparse, IsSparse heap sparse → ¬IsIndexPart heap sparse obj

def Kept (heap : Heap) (used next : MxUsed) : Prop := ∀ obj, Stays heap obj → used obj = true → next obj = true

-- The data that an array refers to will stay in use.
def Safe (heap : Heap) (used : MxUsed) (array : MxArray) : Prop := ∀ obj, Refers array obj → Stays heap obj ∧ used obj = true

theorem Kept.refl (used : MxUsed) : Kept heap used used := fun _ _ here => here

theorem Kept.trans (first : Kept heap used middle) (second : Kept heap middle next) : Kept heap used next :=
  fun obj stays here => second obj stays (first obj stays here)

theorem Kept.set (used : MxUsed) (obj : Nat) : Kept heap used (Function.update used obj true) := by
  intro other stays here
  rw [Function.update_apply]
  split
  · rfl
  · exact here

theorem Kept.reset (used : MxUsed) (gone : ¬Stays heap obj) : Kept heap used (Function.update used obj false) := by
  intro other stays here
  have differs : other ≠ obj := fun same => gone (same ▸ stays)
  rw [Function.update_of_ne differs]
  exact here

theorem Safe.kept (safe : Safe heap used array) (kept : Kept heap used next) : Safe heap next array :=
  fun obj refers => ⟨(safe obj refers).1,kept obj (safe obj refers).1 (safe obj refers).2⟩

theorem leaf_setter (leaf : isLeaf classID = true) : setterOf classID = .numeric ∨ setterOf classID = .logical ∨
    setterOf classID = .char := by
  cases classID <;> first | (cases leaf; done) | decide

theorem setter_leaf (setter : setterOf classID = .numeric ∨ setterOf classID = .logical ∨ setterOf classID = .char) :
    isLeaf classID = true := by
  revert setter
  cases classID <;> decide

theorem setter_container (setter : setterOf (heap.objects obj).matlabInternalType = .cell ∨
    setterOf (heap.objects obj).matlabInternalType = .struct) :
    isLeaf (heap.objects obj).matlabInternalType = false ∧ ¬IsSparse heap obj := by
  unfold IsSparse
  revert setter
  cases (heap.objects obj).matlabInternalType <;> decide

theorem found_listed (found : findSubObjectByShortName heap obj name = some sub) :
    sub ∈ heap.children obj ∧ (heap.objects sub).shortName = name := by
  have named := List.find?_some found
  exact ⟨List.mem_of_find?_eq_some found,beq_iff_eq.mp named⟩

theorem children_sublist (heap : Heap) (obj : Nat) : (heap.children obj).Sublist (heap.objects obj).subObjects.nodes :=
  NodeList.live_sublist _

theorem restarted_sublist (heap : Heap) (obj : Nat) :
    (restartQueue (heap.objects obj).subObjects).live.Sublist (heap.objects obj).subObjects.nodes :=
  NodeList.live_sublist (restartQueue (heap.objects obj).subObjects).toNodeList

theorem children_nodes (member : sub ∈ heap.children obj) : sub ∈ (heap.objects obj).subObjects.nodes :=
  (children_sublist heap obj).subset member

-- The data of a sparse matrix is no index part, of itself or of another one.
theorem data_stays (unshared : Unshared heap) (sparse : IsSparse heap obj)
    (found : findSubObjectByShortName heap obj (textOf "data") = some data) : Stays heap data := by
  refine ⟨unshared.data obj data sparse found,fun other isSparse part => ?_⟩
  obtain ⟨listed,named⟩ := found_listed found
  have same : obj = other := unshared.parts other data obj isSparse part (children_nodes listed)
  subst same
  rcases part with ir | jc
  · have again := (found_listed ir).2
    rw [named] at again
    exact absurd again (by decide)
  · have again := (found_listed jc).2
    rw [named] at again
    exact absurd again (by decide)

theorem listed_stays (unshared : Unshared heap) (plain : ¬IsSparse heap parent)
    (listed : obj ∈ (heap.objects parent).subObjects.nodes) (leaf : isLeaf (heap.objects obj).matlabInternalType = true) :
    Stays heap obj := by
  refine ⟨leaf,fun sparse isSparse part => ?_⟩
  have same : parent = sparse := unshared.parts sparse obj parent isSparse part listed
  exact plain (same ▸ isSparse)

theorem refersAt_refers (refers : RefersAt array path obj) : Refers array obj := by
  induction refers with
  | own data => exact .own data
  | slot at_ _ ih => exact .slot _ at_ ih

theorem refers_refersAt (refers : Refers array obj) : ∃ path, RefersAt array path obj := by
  induction refers with
  | own data => exact ⟨[],.own data⟩
  | slot place at_ _ ih =>
    obtain ⟨path,below⟩ := ih
    exact ⟨place::path,.slot at_ below⟩

theorem setIn_written (set : setIn superStructureType returnStructure object value = some after) :
    after = returnStructure ∨ ∃ slot, after = returnStructure.write slot value := by
  unfold setIn at set
  split at set
  · unfold mxSetField at set
    split at set
    · rw [Option.some.injEq] at set
      split at set
      · exact .inr ⟨_,set.symm⟩
      · exact .inl set.symm
    · cases set
  · unfold mxSetCell at set
    split at set
    · exact .inr ⟨_,(Option.some.inj set).symm⟩
    · cases set
  · exact .inl (Option.some.inj set).symm

theorem write_refersAt (refers : RefersAt (array.write slot value) path obj) :
    RefersAt array path obj ∨ ∃ written rest, value = some written ∧ path = slot::rest ∧ RefersAt written rest obj := by
  cases refers with
  | own data => exact .inl (.own data)
  | @slot _ _ _ _ place at_ inside =>
    change Function.update array.slots slot value place = _ at at_
    rw [Function.update_apply] at at_
    split at at_
    · rename_i same
      exact .inr ⟨_,_,at_,congrArg (·::_) same,inside⟩
    · exact .inl (.slot at_ inside)

theorem setIn_refers (set : setIn superStructureType returnStructure object value = some after) (refers : Refers after obj) :
    Refers returnStructure obj ∨ ∃ array, value = some array ∧ Refers array obj := by
  rcases setIn_written set with rfl | ⟨slot,rfl⟩
  · exact .inl refers
  obtain ⟨path,at_⟩ := refers_refersAt refers
  rcases write_refersAt at_ with before | ⟨array,_,is_,_,inside⟩
  · exact .inl (refersAt_refers before)
  · exact .inr ⟨array,is_,refersAt_refers inside⟩

theorem empty_refers (empty : ∀ slot, array.slots slot = none) (refers : Refers array obj) : array.header.data = some obj := by
  cases refers with
  | own data => exact data
  | slot place at_ below =>
    rw [empty] at at_
    cases at_

-- What a step leaves: flags that keep what stays, and an array whose data is in use.
def Links (heap : Heap) (used : MxUsed) (array : MxArray) (next : MxUsed) (after : MxArray) : Prop :=
  Kept heap used next ∧ (Safe heap used array → Safe heap next after)

theorem foldlM_links {objects : List Nat} {step : MxArray → Nat → Option MxArray} {use : MxUsed → Nat → Option MxUsed}
    (each : ∀ obj ∈ objects, ∀ array after used, step array obj = some after →
      ∃ next, use used obj = some next ∧ Links heap used array next after)
    (ran : objects.foldlM step array = some after) (used : MxUsed) :
    ∃ next, objects.foldlM use used = some next ∧ Links heap used array next after := by
  induction objects generalizing array used with
  | nil =>
    cases ran
    exact ⟨used,rfl,.refl _,id⟩
  | cons obj rest ih =>
    rw [List.foldlM_cons] at ran
    obtain ⟨middle,first,later⟩ := Option.bind_eq_some_iff.mp ran
    obtain ⟨between,took,kept,safe⟩ := each obj List.mem_cons_self array middle used first
    obtain ⟨next,folded,keptRest,safeRest⟩ := ih (fun obj member => each obj (List.mem_cons_of_mem _ member)) later between
    refine ⟨next,?_,kept.trans keptRest,fun start => safeRest (safe start)⟩
    rw [List.foldlM_cons,took]
    exact folded

theorem setIn_links (set : setIn superStructureType returnStructure object value = some after) (kept : Kept heap used next)
    (value_ : ∀ array, value = some array → Safe heap next array) : Links heap used returnStructure next after := by
  refine ⟨kept,fun safe obj refers => ?_⟩
  rcases setIn_refers set refers with before | ⟨array,is_,inside⟩
  · exact safe.kept kept obj before
  · exact value_ array is_ obj inside

theorem own_safe (stays : Stays heap obj) (used : MxUsed) (header : MxHeader) (data : header.data = some obj) :
    Safe heap (Function.update used obj true) (.array header fun _ => none) := by
  intro other refers
  have own := empty_refers (fun _ => rfl) refers
  obtain rfl : obj = other := Option.some.inj (data.symm.trans own)
  exact ⟨stays,Function.update_self ..⟩

theorem not_leaf (gone : isLeaf (heap.objects obj).matlabInternalType = false) : ¬Stays heap obj := by
  intro stays
  rw [stays.1] at gone
  cases gone

theorem index_resets (sparse : IsSparse heap obj) (part : IsIndexPart heap obj index) : ¬Stays heap index :=
  fun stays => stays.2 obj sparse part

theorem sparseHeader_data (made : sparseHeader heap obj = some header) :
    header.data = findSubObjectByShortName heap obj (textOf "data") := by
  obtain ⟨jc,column,rest⟩ := Option.bind_eq_some_iff.mp made
  obtain ⟨rows,_,rest⟩ := Option.bind_eq_some_iff.mp rest
  obtain ⟨starts,_,rest⟩ := Option.bind_eq_some_iff.mp rest
  split at rest
  · split at rest
    · cases rest
      rfl
    · cases rest
      rfl
    · cases rest
  · cases rest

theorem sparse_links (unshared : Unshared heap) (sparse : IsSparse heap obj) (header : sparseHeader heap obj = some made)
    (parts : sparseData heap obj made.data = some ()) (used : MxUsed) :
    ∃ next, useSparse heap used obj = some next ∧ Kept heap used next ∧ Safe heap next (.array made fun _ => none) := by
  have dataIs := sparseHeader_data header
  obtain ⟨jc,column,_⟩ := Option.bind_eq_some_iff.mp header
  have jcGone : ¬Stays heap jc := index_resets sparse (.inr column)
  cases found : findSubObjectByShortName heap obj (textOf "data") with
  | none =>
    refine ⟨Function.update used jc false,?_,.reset used jcGone,fun other refers => ?_⟩
    · simp only [useSparse,column,found,Option.bind_eq_bind,Option.bind_some]
    · have own := empty_refers (fun _ => rfl) refers
      change made.data = some other at own
      rw [dataIs,found] at own
      cases own
  | some data =>
    rw [dataIs,found] at parts
    obtain ⟨ir,row,_⟩ := Option.bind_eq_some_iff.mp parts
    have irGone : ¬Stays heap ir := index_resets sparse (.inl row)
    have stays := data_stays unshared sparse found
    have later : Kept heap (Function.update used data true)
        (Function.update (Function.update (Function.update used data true) ir false) jc false) :=
      (Kept.reset _ irGone).trans (.reset _ jcGone)
    refine ⟨_,?_,(Kept.set used data).trans later,?_⟩
    · simp only [useSparse,column,found,row,Option.bind_eq_bind,Option.bind_some]
    · have own := own_safe stays used made (dataIs.trans found)
      exact own.kept later

theorem makeSubstructure_returns (ran : makeSubstructure heap fuel array numElems objects superStructureType = some (value,after)) :
    value = none ∨ value = some after := by
  cases fuel with
  | zero => cases ran
  | succ fuel =>
    rw [makeSubstructure] at ran
    split at ran
    · cases ran
      exact .inl rfl
    · obtain ⟨first,_,ran⟩ := Option.bind_eq_some_iff.mp ran
      dsimp only at ran
      split at ran
      · obtain ⟨last,_,ran⟩ := Option.bind_eq_some_iff.mp ran
        cases ran
        exact .inr rfl
      · obtain ⟨last,_,ran⟩ := Option.bind_eq_some_iff.mp ran
        cases ran
        exact .inr rfl

def CallLinks (heap : Heap) (fuel : Nat) : Prop :=
  ∀ parent objects array numElems superStructureType value after used, ¬IsSparse heap parent →
    (∀ obj ∈ objects, obj ∈ (heap.objects parent).subObjects.nodes) →
    makeSubstructure heap fuel array numElems objects superStructureType = some (value,after) →
    ∃ next, useObjects heap fuel used numElems objects = some next ∧ Links heap used array next after

theorem container_links (calls : CallLinks heap fuel) (container : isLeaf (heap.objects obj).matlabInternalType = false)
    (plain : ¬IsSparse heap obj) (listed : ∀ sub ∈ objects, sub ∈ (heap.objects obj).subObjects.nodes)
    (empty : ∀ slot, made.slots slot = none) (bare : made.header.data = none)
    (ran : makeSubstructure heap fuel made numElems objects classID = some (value,after)) (used : MxUsed) :
    ∃ next, useObjects heap fuel (Function.update used obj true) numElems objects = some next ∧
      Kept heap used (Function.update next obj false) ∧
      ∀ array, value = some array → Safe heap (Function.update next obj false) array := by
  obtain ⟨next,took,kept,safe⟩ := calls obj objects made numElems classID value after _ plain listed ran
  have start : Safe heap (Function.update used obj true) made := by
    intro other refers
    have own := empty_refers empty refers
    rw [bare] at own
    cases own
  have last : Kept heap next (Function.update next obj false) := .reset next (not_leaf container)
  refine ⟨next,took,((Kept.set used obj).trans kept).trans last,fun array is_ => ?_⟩
  rcases makeSubstructure_returns ran with none_ | some_
  · rw [none_] at is_
    cases is_
  · rw [some_] at is_
    cases is_
    exact (safe start).kept last

theorem setObject_links (unshared : Unshared heap) (calls : CallLinks heap fuel) (plain : ¬IsSparse heap parent)
    (listed : obj ∈ (heap.objects parent).subObjects.nodes)
    (set : setObject heap (makeSubstructure heap fuel) superStructureType returnStructure obj = some after) (used : MxUsed) :
    ∃ next, useObject heap (useObjects heap fuel) used obj = some next ∧ Links heap used returnStructure next after := by
  by_cases nothing : setterOf (heap.objects obj).matlabInternalType = .nothing
  · have gone : ¬Stays heap obj := by
      intro stays
      rcases leaf_setter stays.1 with same | same | same <;> rw [nothing] at same <;> cases same
    have kept : Kept heap used (Function.update (Function.update used obj true) obj false) :=
      (Kept.set used obj).trans (.reset _ gone)
    unfold setObject at set
    unfold useObject
    dsimp only
    rw [nothing] at set ⊢
    cases set
    exact ⟨_,rfl,kept,fun safe => safe.kept kept⟩
  rw [setObject_value nothing] at set
  obtain ⟨value,made,placed⟩ := Option.bind_eq_some_iff.mp set
  -- The data of a leaf is that of the object itself.
  have leaf (header : MxHeader) (own : header.data = some obj) (is_ : value = some (.array header fun _ => none))
      (leaf : isLeaf (heap.objects obj).matlabInternalType = true) :
      Links heap used returnStructure (Function.update used obj true) after := by
    refine setIn_links placed (.set used obj) fun array same => ?_
    rw [is_] at same
    cases same
    exact own_safe (listed_stays unshared plain listed leaf) used header own
  unfold valueOf at made
  unfold useObject
  dsimp only at made ⊢
  cases setter : setterOf (heap.objects obj).matlabInternalType with
  | nothing => exact absurd setter nothing
  | numeric =>
    rw [setter] at made
    obtain ⟨dims,_,made⟩ := Option.bind_eq_some_iff.mp made
    obtain ⟨_,_,made⟩ := Option.bind_eq_some_iff.mp made
    exact ⟨_,rfl,leaf _ rfl (Option.some.inj made).symm (setter_leaf (.inl setter))⟩
  | logical =>
    rw [setter] at made
    obtain ⟨dims,_,made⟩ := Option.bind_eq_some_iff.mp made
    exact ⟨_,rfl,leaf _ rfl (Option.some.inj made).symm (setter_leaf (.inr (.inl setter)))⟩
  | char =>
    rw [setter] at made
    obtain ⟨dims,_,made⟩ := Option.bind_eq_some_iff.mp made
    exact ⟨_,rfl,leaf _ rfl (Option.some.inj made).symm (setter_leaf (.inr (.inr setter)))⟩
  | sparse =>
    rw [setter] at made
    obtain ⟨header,headed,made⟩ := Option.bind_eq_some_iff.mp made
    obtain ⟨⟨⟩,parts,made⟩ := Option.bind_eq_some_iff.mp made
    have sparse : IsSparse heap obj := by
      unfold IsSparse
      revert setter
      cases (heap.objects obj).matlabInternalType <;> decide
    obtain ⟨next,took,kept,safe⟩ := sparse_links unshared sparse headed parts (Function.update used obj true)
    refine ⟨next,took,setIn_links placed ((Kept.set used obj).trans kept) fun array same => ?_⟩
    rw [← Option.some.inj made] at same
    cases same
    exact safe
  | cell =>
    rw [setter] at made
    obtain ⟨dims,_,made⟩ := Option.bind_eq_some_iff.mp made
    obtain ⟨⟨returned,filled⟩,ran,made⟩ := Option.bind_eq_some_iff.mp made
    obtain ⟨container,notSparse⟩ := setter_container (.inl setter)
    obtain ⟨next,took,kept,safe⟩ := container_links calls container notSparse (fun _ => children_nodes) (fun _ => rfl)
      rfl ran used
    refine ⟨Function.update next obj false,?_,setIn_links placed kept fun array same => safe array ?_⟩
    · change (useObjects heap fuel (Function.update used obj true) _ (heap.children obj)).bind _ = _
      rw [took]
      rfl
    · exact (Option.some.inj made).trans same
  | struct =>
    rw [setter] at made
    obtain ⟨dims,_,made⟩ := Option.bind_eq_some_iff.mp made
    obtain ⟨names,_,made⟩ := Option.bind_eq_some_iff.mp made
    obtain ⟨⟨returned,filled⟩,ran,made⟩ := Option.bind_eq_some_iff.mp made
    obtain ⟨container,notSparse⟩ := setter_container (.inr setter)
    have below : ∀ sub ∈ (restartQueue (heap.objects obj).subObjects).live, sub ∈ (heap.objects obj).subObjects.nodes := by
      intro sub member
      exact (restarted_sublist heap obj).subset member
    obtain ⟨next,took,kept,safe⟩ := container_links calls container notSparse below (fun _ => rfl)
      rfl ran used
    refine ⟨Function.update next obj false,?_,setIn_links placed kept fun array same => safe array ?_⟩
    · change (useObjects heap fuel (Function.update used obj true) _ _).bind _ = _
      rw [took]
      rfl
    · exact (Option.some.inj made).trans same

-- By induction on the fuel, which bounds the depth.
theorem makeSubstructure_links (unshared : Unshared heap) (fuel : Nat) : CallLinks heap fuel := by
  induction fuel with
  | zero =>
    intro parent objects array numElems superStructureType value after used plain listed ran
    cases ran
  | succ fuel ih =>
    intro parent objects array numElems superStructureType value after used plain listed ran
    rw [makeSubstructure] at ran
    rw [useObjects]
    split at ran
    · rename_i none_
      cases ran
      rw [if_pos none_]
      exact ⟨used,rfl,.refl _,id⟩
    · rename_i some_
      rw [if_neg some_]
      obtain ⟨first,head,ran⟩ := Option.bind_eq_some_iff.mp ran
      have firstListed := listed first (List.mem_of_head? head)
      rw [head,Option.bind_eq_bind,Option.bind_some]
      dsimp only at ran
      split at ran
      · rename_i fields
        obtain ⟨last,loop,ran⟩ := Option.bind_eq_some_iff.mp ran
        cases ran
        rw [if_pos fields]
        refine foldlM_links (fun obj member middle end_ flags step => ?_) loop used
        obtain ⟨⟨returned,filled⟩,called,same⟩ := Option.bind_eq_some_iff.mp step
        cases same
        have apart := unshared.plain parent first obj firstListed fields (listed obj member)
        exact ih obj (heap.children obj) middle _ _ returned filled flags apart (fun _ => children_nodes) called
      · rename_i plainFirst
        obtain ⟨last,loop,ran⟩ := Option.bind_eq_some_iff.mp ran
        cases ran
        rw [if_neg plainFirst]
        refine foldlM_links (fun obj member middle end_ flags step => ?_) loop used
        exact setObject_links unshared ih plain (listed obj member) step flags

end Used

-- The flags behind makeReturnStructure. No flag is set before.
def returnFlags (heap : Heap) (fuel : Nat) : Option MxUsed :=
  useObjects heap fuel (fun _ => false) (heap.objects virtualSuperObject).numSubObjs
    (restartQueue (heap.objects virtualSuperObject).subObjects).live

section Freed
variable {heap : Heap} {used : MxUsed}

theorem freeDataObject_mem : block ∈ freeDataObject heap used obj ↔
    block.obj = obj ∧ frees (heap.objects obj) (used obj) block.kind = true := by
  unfold freeDataObject
  rw [List.mem_map]
  constructor
  · rintro ⟨kind,listed,rfl⟩
    exact ⟨rfl,(List.mem_filter.mp listed).2⟩
  · rintro ⟨rfl,freed⟩
    refine ⟨block.kind,List.mem_filter.mpr ⟨?_,freed⟩,rfl⟩
    cases block.kind <;> decide

theorem freeDataObject_distinct (obj : Nat) : (freeDataObject heap used obj).Nodup := by
  have kinds : blockKinds.Nodup := by decide
  refine (kinds.filter _).map fun left right same => ?_
  exact congrArg Block.kind same

theorem freeObjectQueue_mem : block ∈ freeObjectQueue heap used ↔
    block.obj ∈ heap.objectQueue.nodes ∧ frees (heap.objects block.obj) (used block.obj) block.kind = true := by
  unfold freeObjectQueue
  rw [List.mem_flatMap]
  constructor
  · rintro ⟨obj,listed,freed⟩
    obtain ⟨same,freed⟩ := freeDataObject_mem.mp freed
    rw [same]
    exact ⟨listed,freed⟩
  · intro both
    exact ⟨block.obj,both.1,freeDataObject_mem.mpr ⟨rfl,both.2⟩⟩

theorem freeObjectQueue_distinct (distinct : heap.objectQueue.nodes.Nodup) : (freeObjectQueue heap used).Nodup := by
  refine List.nodup_flatMap.mpr ⟨fun obj _ => freeDataObject_distinct obj,?_⟩
  refine distinct.imp fun different => ?_
  intro block left right
  have here := (freeDataObject_mem.mp left).1
  have there := (freeDataObject_mem.mp right).1
  exact different (here.symm.trans there)

end Freed

theorem makeReturnStructure_parts
    (ran : makeReturnStructure file chunked depth fuel names = some (.ok (heap,array))) : ∃ fieldNames returned,
      getDataObjects file chunked depth fuel names = some (0,heap) ∧
      makeSubstructure heap fuel (mxCreateStructArray [1] fieldNames) (heap.objects virtualSuperObject).numSubObjs
        (restartQueue (heap.objects virtualSuperObject).subObjects).live .structClass = some (returned,array) := by
  obtain ⟨⟨code,made⟩,got,ran⟩ := Option.bind_eq_some_iff.mp ran
  dsimp only at ran
  split at ran
  · cases ran
  rename_i zero
  obtain rfl : code = 0 := Decidable.not_not.mp zero
  obtain ⟨fieldNames,_,ran⟩ := Option.bind_eq_some_iff.mp ran
  obtain ⟨⟨returned,after⟩,built,ran⟩ := Option.bind_eq_some_iff.mp ran
  cases ran
  exact ⟨fieldNames,returned,got,built⟩

theorem returned_heap (got : getDataObjects file chunked depth fuel names = some (0,objects))
    (ran : makeReturnStructure file chunked depth fuel names = some (.ok (heap,array))) : objects = heap := by
  obtain ⟨_,_,again,_⟩ := makeReturnStructure_parts ran
  rw [got] at again
  cases again
  rfl

-- What makeReturnStructure frees at its end: every object that was made and every block
-- of it, each once, but for the data in use, and to that belongs all data that the
-- returned arrays refer to.
theorem returned_kept (file : MatFile) (chunked : MetaData → Option (Nat × DataArrays)) (depth fuel : Nat)
    (variableNames : List Text) (heap : Heap) (array : MxArray) (unshared : Unshared heap)
    (ran : makeReturnStructure file chunked depth fuel variableNames = some (.ok (heap,array))) :
    ∃ used, returnFlags heap fuel = some used ∧ (freeObjectQueue heap used).Nodup ∧
      (∀ block, block ∈ freeObjectQueue heap used ↔
        block.obj < heap.fresh ∧ frees (heap.objects block.obj) (used block.obj) block.kind = true) ∧
      ∀ obj, Refers array obj → ⟨obj,.data⟩ ∉ freeObjectQueue heap used := by
  obtain ⟨fieldNames,returned,got,built⟩ := makeReturnStructure_parts ran
  have enrolled := getDataObjects_enrolled file chunked depth fuel variableNames 0 heap got
  have plain : ¬IsSparse heap virtualSuperObject := by
    unfold IsSparse
    rw [getDataObjects_root got]
    decide
  obtain ⟨used,took,_,safe⟩ := makeSubstructure_links unshared fuel virtualSuperObject _ _ _ _ returned array (fun _ => false)
    plain (fun _ member => (restarted_sublist heap _).subset member) built
  have start : Safe heap (fun _ => false) (mxCreateStructArray [1] fieldNames) := by
    intro obj refers
    have own := empty_refers (fun _ => rfl) refers
    cases own
  have exact_ (block : Block) : block ∈ freeObjectQueue heap used ↔
      block.obj < heap.fresh ∧ frees (heap.objects block.obj) (used block.obj) block.kind = true := by
    rw [freeObjectQueue_mem,enrolled.mem_iff,List.mem_range]
  refine ⟨used,took,freeObjectQueue_distinct (enrolled.nodup_iff.mpr List.nodup_range),exact_,fun obj refers freed => ?_⟩
  have tested := ((exact_ _).mp freed).2
  change (!used obj && (heap.objects obj).data.isSome) = true at tested
  rw [(safe start obj refers).2] at tested
  cases tested

-- The variable s is the sparse matrix of three rows and two columns with a one in the
-- first and in the last corner, stored as jc, ir and data.
def sparseFile : MatFile := wordFile
  [0x1000045455254,0,0,0,48,0,
   0x10001444f4e53,8,344,1,96,272,
   0x1000045455254,0,0,0,144,0,
   0x30001444f4e53,16,480,0,0,0,24,584,0,0,0,32,680,0,0,0,
   0x50414548,40,0,304,0,115,0x61746164,0x7269,0x636a,
   0x20001,120,0x30000c,0x80008000d0001,0x635f42414c54414d,0x7373616c,0x600000013,1,0x656c62756f64,
   0x38000c,0x8000c000e0001,0x735f42414c54414d,0x6573726170,0x800000010,0x400000,1,3,
   0x30001,88,0x100001,0x101,2,0x180003,0x8003f2011,0x34000b3400400000,1023,0x180008,0x100003,0x3ff00000,0x3ff00000,
   0x30001,80,0x100001,0x101,2,0x100003,0x800000010,0x400000,0x180008,0x100003,0x200000000,0,
   0x30001,88,0x100001,0x101,3,0x100003,0x800000010,0x400000,0x200008,0x180003,0x100000000,0x200000000,0] ⟨8,8,40,0,0,272⟩

structure ReturnsSparse (heap : Heap) (array : MxArray) : Prop where
  ran : makeReturnStructure sparseFile (fun _ => none) 3 4 [textOf "s"] = some (.ok (heap,array))
  fresh : heap.fresh = 5
  filled : ∀ part ∈ [2,3,4], (heap.objects part).data.isSome = true
  sparse : ∀ obj, IsSparse heap obj → obj = 1
  leaves : ∀ part ∈ [2,3,4], isLeaf (heap.objects part).matlabInternalType = true
  plain : ∀ obj, (heap.objects obj).isStructArray = false
  below : ∀ parent, (heap.objects parent).subObjects.nodes = if parent = 0 then [1] else if parent = 1 then [2,3,4] else []
  refers : Refers array 4
  flags : (returnFlags heap 4).map (fun used => used 3) = some false

theorem returns_sparse : ∃ heap array, ReturnsSparse heap array := by
  have code : (getDataObjects sparseFile (fun _ => none) 3 4 [textOf "s"]).map (fun ran => (ran.1,ran.2.fresh,
      (returnFlags ran.2 4).map (fun used => used 3),([2,3,4].all fun ptr => (ran.2.objects ptr).data.isSome && isLeaf (ran.2.objects ptr).matlabInternalType),
      (List.range 5).all fun ptr => (ptr == 1 || (ran.2.objects ptr).matlabInternalType != .sparseClass) &&
        !(ran.2.objects ptr).isStructArray &&
        (ran.2.objects ptr).subObjects.nodes == if ptr = 0 then [1] else if ptr = 1 then [2,3,4] else [])) =
      some (0,5,some false,true,true) := by decide +kernel
  have shown : (makeReturnStructure sparseFile (fun _ => none) 3 4 [textOf "s"]).map
      (fun made => match made with
        | .ok (_,array) => (array.slots ⟨0,some (selectionName 0)⟩).map fun value : MxArray => value.header.data
        | .error _ => none) = some (some (some 4)) := by decide +kernel
  obtain ⟨⟨_,objects⟩,got,same⟩ := Option.map_eq_some_iff.mp code
  obtain ⟨made,ran,own⟩ := Option.map_eq_some_iff.mp shown
  simp only [Prod.mk.injEq] at same
  obtain ⟨rfl,count,flags,parts,tested⟩ := same
  match made with
  | .error _ => cases own
  | .ok (heap,array) =>
    obtain ⟨value,at_,data⟩ := Option.map_eq_some_iff.mp own
    obtain rfl : objects = heap := returned_heap got ran
    have blank (obj : Nat) (unmade : ¬obj < 5) : objects.objects obj = initializeObject :=
      getDataObjects_unmade (List.cons_ne_nil _ _) (by decide) (by decide) got (by omega)
    have part (obj : Nat) (member : obj ∈ [2,3,4]) := Bool.and_eq_true_iff.mp (List.all_eq_true.mp parts obj member)
    have each (obj : Nat) (below : obj < 5) := Bool.and_eq_true_iff.mp (List.all_eq_true.mp tested obj (List.mem_range.mpr below))
    refine ⟨objects,array,ran,count,fun obj member => (part obj member).1,fun obj sparse => ?_,
      fun obj member => (part obj member).2,fun obj => ?_,fun parent => ?_,.slot _ at_ (.own data),flags⟩
    · by_cases below : obj < 5
      · rcases Bool.or_eq_true_iff.mp (Bool.and_eq_true_iff.mp (each obj below).1).1 with here | other
        · exact beq_iff_eq.mp here
        · exact absurd sparse (bne_iff_ne.mp other)
      · rw [IsSparse,blank obj below] at sparse
        cases sparse
    · by_cases below : obj < 5
      · exact (Bool.not_eq_true' _).mp (Bool.and_eq_true_iff.mp (each obj below).1).2
      · rw [blank obj below]
        rfl
    · by_cases below : parent < 5
      · exact beq_iff_eq.mp (each parent below).2
      · rw [blank parent below,if_neg (by omega),if_neg (by omega)]
        rfl

theorem ReturnsSparse.unshared (made : ReturnsSparse heap array) : Unshared heap := by
  have part (obj sub : Nat) (sparse : IsSparse heap obj) (name : Text) (found : findSubObjectByShortName heap obj name = some sub) :
      sub ∈ [2,3,4] := by
    have listed := children_nodes (found_listed found).1
    rwa [made.below,made.sparse obj sparse,if_neg (by decide),if_pos rfl] at listed
  refine ⟨fun obj data sparse found => made.leaves data (part obj data sparse _ found),fun obj index parent sparse is_ listed => ?_,
    fun _ field _ _ fields _ => ?_⟩
  · have member : index ∈ [2,3,4] := by
      rcases is_ with ir | jc
      · exact part obj index sparse _ ir
      · exact part obj index sparse _ jc
    rw [made.sparse obj sparse]
    rw [made.below] at listed
    split at listed
    · rw [List.mem_singleton.mp listed] at member
      exact absurd member (by decide)
    · split at listed
      · assumption
      · cases listed
  · rw [made.plain field] at fields
    cases fields

-- The numbers of s stay, its row indices, which were copied, are freed.
theorem returned_kept_s : ∃ heap array used, makeReturnStructure sparseFile (fun _ => none) 3 4 [textOf "s"] =
      some (.ok (heap,array)) ∧ returnFlags heap 4 = some used ∧ (freeObjectQueue heap used).Nodup ∧
    ⟨3,.data⟩ ∈ freeObjectQueue heap used ∧ Refers array 4 ∧ (heap.objects 4).data.isSome = true ∧
    ⟨4,.data⟩ ∉ freeObjectQueue heap used := by
  obtain ⟨heap,array,made⟩ := returns_sparse
  obtain ⟨used,flags,once,freed,kept⟩ := returned_kept sparseFile (fun _ => none) 3 4 _ heap array made.unshared made.ran
  have unused : used 3 = false := by
    have flag := made.flags
    rw [flags] at flag
    exact Option.some.inj flag
  refine ⟨heap,array,used,made.ran,flags,once,(freed _).mpr ⟨?_,?_⟩,made.refers,made.filled 4 (by decide),kept 4 made.refers⟩
  · rw [made.fresh]
    decide
  · change (!used 3 && (heap.objects 3).data.isSome) = true
    rw [unused,made.filled 3 (by decide)]
    rfl

-- No data is in two places of the array. mxDestroyArray frees the data in each place.
def Single (array : MxArray) : Prop := ∀ left right obj, RefersAt array left obj → RefersAt array right obj → left = right

-- obj is top or in a queue of sub_objects below it.
def Beneath (heap : Heap) : Nat → Nat → Prop :=
  Relation.ReflTransGen fun parent child => child ∈ (heap.objects parent).subObjects.nodes

def Parted (heap : Heap) (left right : Nat) : Prop := ∀ obj, Beneath heap left obj → ¬Beneath heap right obj

-- Nothing is below two objects of one queue, of those below virtual_super_object.
def Treelike (heap : Heap) : Prop :=
  ∀ parent, Beneath heap virtualSuperObject parent → (heap.objects parent).subObjects.nodes.Pairwise (Parted heap)

section Single
variable {heap : Heap}

theorem empty_single (empty : ∀ slot, array.slots slot = none) : Single array := by
  have root (path : List MxSlot) (obj : Nat) (refers : RefersAt array path obj) : path = [] := by
    cases refers with
    | own _ => rfl
    | slot at_ _ =>
      rw [empty] at at_
      cases at_
  intro left right obj here there
  rw [root left obj here,root right obj there]

-- What the objects of a list add to an array: data from below them, and none twice if
-- the array had none of it.
structure Adds (heap : Heap) (objects : List Nat) (array after : MxArray) : Prop where
  source : ∀ obj, Refers after obj → Refers array obj ∨ ∃ top ∈ objects, Beneath heap top obj
  single : Single array → (∀ obj, Refers array obj → ∀ top ∈ objects, ¬Beneath heap top obj) → Single after

theorem Adds.same (objects : List Nat) (array : MxArray) : Adds heap objects array array :=
  ⟨fun _ refers => .inl refers,fun single _ => single⟩

theorem Adds.above (adds : Adds heap objects array after) (listed : ∀ sub ∈ objects, sub ∈ (heap.objects top).subObjects.nodes) :
    Adds heap [top] array after := by
  have below (sub obj : Nat) (member : sub ∈ objects) (beneath : Beneath heap sub obj) : Beneath heap top obj :=
    .head (listed sub member) beneath
  refine ⟨fun obj refers => ?_,fun single apart => adds.single single fun obj refers sub member beneath => ?_⟩
  · rcases adds.source obj refers with before | ⟨sub,member,beneath⟩
    · exact .inl before
    · exact .inr ⟨top,List.mem_singleton_self top,below sub obj member beneath⟩
  · exact apart obj refers top (List.mem_singleton_self top) (below sub obj member beneath)

theorem Adds.append (first : Adds heap [obj] array middle) (rest : Adds heap objects middle after)
    (parted : ∀ other ∈ objects, Parted heap obj other) : Adds heap (obj::objects) array after := by
  refine ⟨fun data refers => ?_,fun single apart => ?_⟩
  · rcases rest.source data refers with earlier | ⟨top,member,beneath⟩
    · rcases first.source data earlier with before | ⟨top,member,beneath⟩
      · exact .inl before
      · rw [List.mem_singleton.mp member] at beneath
        exact .inr ⟨obj,List.mem_cons_self,beneath⟩
    · exact .inr ⟨top,List.mem_cons_of_mem _ member,beneath⟩
  · have one : Single middle := first.single single fun data refers top member => by
      rw [List.mem_singleton.mp member]
      exact apart data refers obj List.mem_cons_self
    refine rest.single one fun data refers top member beneath => ?_
    rcases first.source data refers with before | ⟨other,same,above⟩
    · exact apart data before top (List.mem_cons_of_mem _ member) beneath
    · rw [List.mem_singleton.mp same] at above
      exact parted top member data above beneath

theorem foldlM_adds {objects : List Nat} {step : MxArray → Nat → Option MxArray}
    (each : ∀ obj ∈ objects, ∀ array after, step array obj = some after → Adds heap [obj] array after)
    (parted : objects.Pairwise (Parted heap)) (ran : objects.foldlM step array = some after) : Adds heap objects array after := by
  induction objects generalizing array with
  | nil =>
    cases ran
    exact .same _ _
  | cons obj rest ih =>
    obtain ⟨apart,others⟩ := List.pairwise_cons.mp parted
    rw [List.foldlM_cons] at ran
    obtain ⟨middle,first,later⟩ := Option.bind_eq_some_iff.mp ran
    have one := each obj List.mem_cons_self array middle first
    exact one.append (ih (fun obj member => each obj (List.mem_cons_of_mem _ member)) others later) apart

theorem setIn_adds (set : setIn superStructureType returnStructure object value = some after)
    (values : ∀ array, value = some array → Single array ∧ ∀ data, Refers array data → Beneath heap obj data) :
    Adds heap [obj] returnStructure after := by
  rcases setIn_written set with rfl | ⟨slot,rfl⟩
  · exact .same _ _
  refine ⟨fun data refers => ?_,fun single apart left right data here there => ?_⟩
  · obtain ⟨path,at_⟩ := refers_refersAt refers
    rcases write_refersAt at_ with before | ⟨array,_,is_,_,inside⟩
    · exact .inl (refersAt_refers before)
    · exact .inr ⟨obj,List.mem_singleton_self obj,(values array is_).2 data (refersAt_refers inside)⟩
  · have mixed {path rest : List MxSlot} {array : MxArray} (before : RefersAt returnStructure path data)
        (is_ : value = some array) (inside : RefersAt array rest data) : False := by
      refine apart data (refersAt_refers before) obj (List.mem_singleton_self obj) ?_
      exact (values array is_).2 data (refersAt_refers inside)
    rcases write_refersAt here with before | ⟨array,rest,is_,rfl,inside⟩
    · rcases write_refersAt there with too | ⟨array,rest,is_,_,inside⟩
      · exact single left right data before too
      · exact (mixed before is_ inside).elim
    · rcases write_refersAt there with before | ⟨other,last,same,rfl,too⟩
      · exact (mixed before is_ inside).elim
      · cases is_.symm.trans same
        rw [(values array is_).1 rest last data inside too]

def CallAdds (heap : Heap) (fuel : Nat) : Prop :=
  ∀ parent objects array numElems superStructureType value after, Beneath heap virtualSuperObject parent →
    List.Sublist objects (heap.objects parent).subObjects.nodes →
    makeSubstructure heap fuel array numElems objects superStructureType = some (value,after) → Adds heap objects array after

theorem bare_value (empty : ∀ slot, array.slots slot = none) (own : ∀ data, array.header.data = some data → Beneath heap obj data) :
    Single array ∧ ∀ data, Refers array data → Beneath heap obj data :=
  ⟨empty_single empty,fun data refers => own data (empty_refers empty refers)⟩

theorem container_value (calls : CallAdds heap fuel) (reached : Beneath heap virtualSuperObject obj) (listed : List.Sublist objects (heap.objects obj).subObjects.nodes)
    (empty : ∀ slot, made.slots slot = none) (bare : made.header.data = none)
    (ran : makeSubstructure heap fuel made numElems objects classID = some (some array,after)) :
    Single array ∧ ∀ data, Refers array data → Beneath heap obj data := by
  have adds := (calls obj objects made numElems classID (some array) after reached listed ran).above fun sub member => listed.subset member
  obtain rfl : array = after := by
    rcases makeSubstructure_returns ran with none_ | some_
    · cases none_
    · exact Option.some.inj some_
  have nothing (data : Nat) : ¬Refers made data := by
    intro refers
    have own := empty_refers empty refers
    rw [bare] at own
    cases own
  refine ⟨adds.single (empty_single empty) fun data refers => absurd refers (nothing data),fun data refers => ?_⟩
  rcases adds.source data refers with before | ⟨top,member,beneath⟩
  · exact absurd before (nothing data)
  · rwa [List.mem_singleton.mp member] at beneath

theorem valueOf_single (calls : CallAdds heap fuel) (reached : Beneath heap virtualSuperObject obj) (made : valueOf heap (makeSubstructure heap fuel) obj = some (some array)) :
    Single array ∧ ∀ data, Refers array data → Beneath heap obj data := by
  have leaf (header : MxHeader) (own : header.data = some obj) (is_ : .array header (fun _ => none) = array) :
      Single array ∧ ∀ data, Refers array data → Beneath heap obj data := by
    rw [← is_]
    refine bare_value (fun _ => rfl) fun data same => ?_
    obtain rfl : obj = data := Option.some.inj (own.symm.trans same)
    exact .refl
  unfold valueOf at made
  dsimp only at made
  split at made
  · obtain ⟨dims,_,made⟩ := Option.bind_eq_some_iff.mp made
    obtain ⟨_,_,made⟩ := Option.bind_eq_some_iff.mp made
    exact leaf _ rfl (Option.some.inj (Option.some.inj made))
  · obtain ⟨header,headed,made⟩ := Option.bind_eq_some_iff.mp made
    obtain ⟨_,_,made⟩ := Option.bind_eq_some_iff.mp made
    rw [← Option.some.inj (Option.some.inj made)]
    refine bare_value (fun _ => rfl) fun data own => ?_
    change header.data = some data at own
    rw [sparseHeader_data headed] at own
    exact .single (children_nodes (found_listed own).1)
  · obtain ⟨dims,_,made⟩ := Option.bind_eq_some_iff.mp made
    exact leaf _ rfl (Option.some.inj (Option.some.inj made))
  · obtain ⟨dims,_,made⟩ := Option.bind_eq_some_iff.mp made
    exact leaf _ rfl (Option.some.inj (Option.some.inj made))
  · obtain ⟨dims,_,made⟩ := Option.bind_eq_some_iff.mp made
    obtain ⟨⟨returned,filled⟩,ran,made⟩ := Option.bind_eq_some_iff.mp made
    cases made
    exact container_value calls reached (children_sublist heap obj) (fun _ => rfl) rfl ran
  · obtain ⟨dims,_,made⟩ := Option.bind_eq_some_iff.mp made
    obtain ⟨names,_,made⟩ := Option.bind_eq_some_iff.mp made
    obtain ⟨⟨returned,filled⟩,ran,made⟩ := Option.bind_eq_some_iff.mp made
    cases made
    exact container_value calls reached (restarted_sublist heap obj) (fun _ => rfl) rfl ran
  · cases made

theorem setObject_adds (calls : CallAdds heap fuel) (reached : Beneath heap virtualSuperObject obj)
    (set : setObject heap (makeSubstructure heap fuel) superStructureType returnStructure obj = some after) :
    Adds heap [obj] returnStructure after := by
  by_cases nothing : setterOf (heap.objects obj).matlabInternalType = .nothing
  · unfold setObject at set
    rw [nothing] at set
    cases set
    exact .same _ _
  rw [setObject_value nothing] at set
  obtain ⟨value,made,placed⟩ := Option.bind_eq_some_iff.mp set
  refine setIn_adds placed fun array is_ => ?_
  rw [is_] at made
  exact valueOf_single calls reached made

theorem makeSubstructure_adds (tree : Treelike heap) (fuel : Nat) : CallAdds heap fuel := by
  induction fuel with
  | zero =>
    intro parent objects array numElems superStructureType value after reached listed ran
    cases ran
  | succ fuel ih =>
    intro parent objects array numElems superStructureType value after reached listed ran
    have parted := (tree parent reached).sublist listed
    have further (obj : Nat) (member : obj ∈ objects) : Beneath heap virtualSuperObject obj := reached.tail (listed.subset member)
    rw [makeSubstructure] at ran
    split at ran
    · cases ran
      exact .same _ _
    · obtain ⟨first,_,ran⟩ := Option.bind_eq_some_iff.mp ran
      dsimp only at ran
      split at ran
      · obtain ⟨last,loop,ran⟩ := Option.bind_eq_some_iff.mp ran
        cases ran
        refine foldlM_adds (fun obj member middle end_ step => ?_) parted loop
        obtain ⟨⟨returned,filled⟩,called,same⟩ := Option.bind_eq_some_iff.mp step
        cases same
        have here := ih obj (heap.children obj) middle _ _ returned filled (further obj member) (children_sublist heap obj) called
        exact here.above fun sub => children_nodes
      · obtain ⟨last,loop,ran⟩ := Option.bind_eq_some_iff.mp ran
        cases ran
        exact foldlM_adds (fun obj member middle end_ step => setObject_adds ih (further obj member) step) parted loop

theorem beneath_inside {region : List Nat} (closed : ∀ ptr ∈ region, (heap.objects ptr).subObjects.nodes ⊆ region)
    (start : top ∈ region) (beneath : Beneath heap top obj) : obj ∈ region := by
  induction beneath with
  | refl => exact start
  | tail _ listed ih => exact closed _ ih listed

end Single

-- No data is in two places of the returned structure, so that it is freed once with it.
theorem returned_single (file : MatFile) (chunked : MetaData → Option (Nat × DataArrays)) (depth fuel : Nat)
    (variableNames : List Text) (heap : Heap) (array : MxArray) (tree : Treelike heap)
    (ran : makeReturnStructure file chunked depth fuel variableNames = some (.ok (heap,array))) : Single array := by
  obtain ⟨fieldNames,returned,got,built⟩ := makeReturnStructure_parts ran
  have adds := makeSubstructure_adds tree fuel virtualSuperObject _ _ _ _ returned array .refl
    (restarted_sublist heap virtualSuperObject) built
  refine adds.single (empty_single fun _ => rfl) fun obj refers => ?_
  have own := empty_refers (fun _ => rfl) refers
  cases own

-- What is returned for a variable, a struct and the clone of its field.
structure ReturnsClone (heap : Heap) (array : MxArray) : Prop where
  ran : makeReturnStructure loadFile (fun _ => none) 3 4 [textOf "x",textOf "g",textOf "g.y"] = some (.ok (heap,array))
  below : ∀ parent, (heap.objects parent).subObjects.nodes =
    if parent = 0 then [2,3,5] else if parent = 3 then [4] else []
  refers : Refers array 5

theorem returns_clone : ∃ heap array, ReturnsClone heap array := by
  have code : (getDataObjects loadFile (fun _ => none) 3 4 [textOf "x",textOf "g",textOf "g.y"]).map
      (fun ran => (ran.1,ran.2.fresh,(List.range 6).all fun ptr =>
        (ran.2.objects ptr).subObjects.nodes == if ptr = 0 then [2,3,5] else if ptr = 3 then [4] else [])) =
      some (0,6,true) := by decide +kernel
  have shown : (makeReturnStructure loadFile (fun _ => none) 3 4 [textOf "x",textOf "g",textOf "g.y"]).map
      (fun made => match made with
        | .ok (_,array) => (array.slots ⟨0,some (selectionName 2)⟩).map fun value : MxArray => value.header.data
        | .error _ => none) = some (some (some 5)) := by decide +kernel
  obtain ⟨⟨_,objects⟩,got,same⟩ := Option.map_eq_some_iff.mp code
  obtain ⟨made,ran,own⟩ := Option.map_eq_some_iff.mp shown
  simp only [Prod.mk.injEq] at same
  obtain ⟨rfl,count,tested⟩ := same
  match made with
  | .error _ => cases own
  | .ok (heap,array) =>
    obtain ⟨value,at_,data⟩ := Option.map_eq_some_iff.mp own
    obtain rfl : objects = heap := returned_heap got ran
    have blank (obj : Nat) (unmade : ¬obj < 6) : objects.objects obj = initializeObject :=
      getDataObjects_unmade (List.cons_ne_nil _ _) (by decide) (by decide) got (by omega)
    refine ⟨objects,array,ran,fun parent => ?_,.slot _ at_ (.own data)⟩
    by_cases below : parent < 6
    · exact beq_iff_eq.mp (List.all_eq_true.mp tested parent (List.mem_range.mpr below))
    · rw [blank parent below,if_neg (by omega),if_neg (by omega)]
      rfl

theorem returned_single_y : ∃ heap array, makeReturnStructure loadFile (fun _ => none) 3 4
      [textOf "x",textOf "g",textOf "g.y"] = some (.ok (heap,array)) ∧ Refers array 5 ∧ Single array := by
  obtain ⟨heap,array,made⟩ := returns_clone
  let nodes (ptr : Nat) : List Nat := if ptr = 0 then [2,3,5] else if ptr = 3 then [4] else []
  have inside (region : List Nat) (top obj : Nat) (closed : ∀ ptr ∈ region, ∀ child ∈ nodes ptr, child ∈ region)
      (start : top ∈ region) (beneath : Beneath heap top obj) : obj ∈ region := by
    refine beneath_inside (fun ptr member child listed => closed ptr member child ?_) start beneath
    rwa [made.below] at listed
  have parted (left right : List Nat) (top other : Nat) (closedLeft : ∀ ptr ∈ left, ∀ child ∈ nodes ptr, child ∈ left)
      (closedRight : ∀ ptr ∈ right, ∀ child ∈ nodes ptr, child ∈ right) (here : top ∈ left) (there : other ∈ right)
      (apart : ∀ obj ∈ left, obj ∉ right) : Parted heap top other := fun obj beneath also =>
    apart obj (inside left top obj closedLeft here beneath) (inside right other obj closedRight there also)
  have tree : Treelike heap := by
    intro parent _
    rw [made.below]
    split
    · have variable_ : Parted heap 2 3 := parted [2] [3,4] 2 3 (by decide) (by decide) (by decide) (by decide) (by decide)
      have clone : Parted heap 2 5 := parted [2] [5] 2 5 (by decide) (by decide) (by decide) (by decide) (by decide)
      have struct : Parted heap 3 5 := parted [3,4] [5] 3 5 (by decide) (by decide) (by decide) (by decide) (by decide)
      simp only [List.pairwise_cons,List.mem_cons,List.not_mem_nil,or_false,forall_eq_or_imp,forall_eq]
      exact ⟨⟨variable_,clone⟩,struct,nofun,.nil⟩
    · split
      · exact List.pairwise_singleton _ _
      · exact .nil
  exact ⟨heap,array,made.ran,made.refers,returned_single loadFile (fun _ => none) 3 4 _ heap array tree made.ran⟩

end GetMatVar.ReturnedData
