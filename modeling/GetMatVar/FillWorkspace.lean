import GetMatVar.ChunkedDataset
import GetMatVar.GetDataObjects

namespace GetMatVar

-- The variables of a file or the fields of a struct, with their values.
inductive Workspace where
  | nil
  | array (name : Text) (content : Content) (rest : Workspace)
  | struct (name : Text) (fields rest : Workspace)

namespace Workspace

def append : Workspace → Workspace → Workspace
  | nil,later => later
  | array name content rest,later => array name content (rest.append later)
  | struct name fields rest,later => struct name fields (rest.append later)

def names : Workspace → List Text
  | nil => []
  | array name _ rest => name::rest.names
  | struct name _ rest => name::rest.names

end Workspace

-- The members of a group, each with an object header of its own, store these
-- fields.
inductive Keeps (file : MatFile) (zlibDecompress : ZlibDecompress) : Members → Workspace → Prop where
  | nil : Keeps file zlibDecompress .nil .nil
  | array (mapped : address ≠ undefAddr) (header : StoredArray file zlibDecompress address content)
      (others : Keeps file zlibDecompress rest workspace) :
      Keeps file zlibDecompress (.cons name address .nil rest) (.array name content workspace)
  | struct (mapped : address ≠ undefAddr) (header : StructHeader file address) (below : Keeps file zlibDecompress members fields)
      (others : Keeps file zlibDecompress rest workspace) :
      Keeps file zlibDecompress (.cons name address members rest) (.struct name fields workspace)

-- What the value of an object is made from.
structure Alike (object other : Data) : Prop where
  shortName : object.shortName = other.shortName
  index : object.sCArrayIndex = other.sCArrayIndex
  fields : object.toMetaData = other.toMetaData
  subObjects : object.subObjects = other.subObjects
  numSubObjs : object.numSubObjs = other.numSubObjs

theorem Alike.refl (object : Data) : Alike object object := ⟨rfl,rfl,rfl,rfl,rfl⟩

-- The objects, all of them inside, hold these variables, each in its own object.
inductive Loaded (heap : Heap) (inside : Nat → Prop) : List Nat → Workspace → Prop where
  | nil : Loaded heap inside [] .nil
  | array (here : inside obj) (named : (heap.objects obj).shortName = name) (index : (heap.objects obj).sCArrayIndex = 0)
      (carries : Carries (heap.objects obj).toMetaData content) (others : Loaded heap inside ptrs workspace) :
      Loaded heap inside (obj::ptrs) (.array name content workspace)
  | struct (here : inside obj) (named : (heap.objects obj).shortName = name) (index : (heap.objects obj).sCArrayIndex = 0)
      (carries : CarriesStruct (heap.objects obj).toMetaData)
      (counted : (heap.objects obj).numSubObjs = (heap.children obj).length) (whole : heap.Whole obj)
      (below : Loaded heap inside (heap.children obj) fields) (others : Loaded heap inside ptrs workspace) :
      Loaded heap inside (obj::ptrs) (.struct name fields workspace)

section Loading
variable {heap after : Heap} {inside : Nat → Prop}

theorem Alike.children (alike : Alike (after.objects obj) (heap.objects obj)) : after.children obj = heap.children obj := by
  unfold Heap.children
  rw [alike.subObjects]

theorem Loaded.transport (loaded : Loaded heap inside ptrs workspace)
    (same : ∀ ptr, inside ptr → Alike (after.objects ptr) (heap.objects ptr)) (more : ∀ ptr, inside ptr → further ptr) :
    Loaded after further ptrs workspace := by
  induction loaded with
  | nil => exact .nil
  | @array obj _ _ _ _ here named index carries _ ih =>
    have alike := same obj here
    exact .array (more obj here) (alike.shortName.trans named) (alike.index.trans index) (alike.fields ▸ carries) ih
  | @struct obj _ _ _ _ here named index carries counted whole _ _ belowIh othersIh =>
    have alike := same obj here
    have children := alike.children
    refine .struct (more obj here) (alike.shortName.trans named) (alike.index.trans index) (alike.fields ▸ carries) ?_ ?_ ?_
      othersIh
    · rw [alike.numSubObjs,children,counted]
    · unfold Heap.Whole
      rw [alike.subObjects,children]
      exact whole
    · rw [children]
      exact belowIh

theorem Loaded.append (left : Loaded heap inside here one) (right : Loaded heap inside later other) :
    Loaded heap inside (here++later) (one.append other) := by
  induction left with
  | nil => exact right
  | array here named index carries _ ih => exact .array here named index carries ih
  | struct here named index carries counted whole below _ _ ih => exact .struct here named index carries counted whole below ih

end Loading

section Filled
variable (file : MatFile) (chunked : MetaData → Option (Nat × DataArrays))

def readFields (address : Nat) : MetaData :=
  match readObject file chunked blank address blank with
  | some (_,fields,_) => fields
  | none => blank

def filledAs (data : Data) : Data := {data with toMetaData:=readFields file chunked data.thisObjAddress,isFilled:=true}

def Heap.filling (heap : Heap) (inside : Nat → Bool) : Heap :=
  {heap with objects:=fun ptr => if inside ptr then filledAs file chunked (heap.objects ptr) else heap.objects ptr}

-- An object of the skeleton that is as it was made or as it is filled.
structure Proper (heap : Heap) (ptr : Nat) : Prop where
  index : (heap.objects ptr).sCArrayIndex = 0
  whole : heap.Whole ptr
  fields : (heap.objects ptr).isFilled = false ∧ (heap.objects ptr).toMetaData = blank ∨
    heap.objects ptr = filledAs file chunked (heap.objects ptr)

end Filled

def between (low high ptr : Nat) : Bool := low ≤ ptr && ptr < high

def just (obj ptr : Nat) : Bool := ptr == obj

section Filling
variable {file : MatFile} {chunked : MetaData → Option (Nat × DataArrays)} {depth : Nat} {heap after : Heap} {inside : Nat → Bool}
  {zlibDecompress : ZlibDecompress} {threads : MetaData → Nat}

theorem just_iff : just obj ptr = true ↔ ptr = obj := beq_iff_eq

theorem just_other (different : ptr ≠ obj) : just obj ptr = false := beq_false_of_ne different

theorem Reads.fields {fields : MetaData} (reads : Reads file chunked address fields) : readFields file chunked address = fields := by
  unfold readFields
  rw [reads.read blank rfl]

theorem filling_inside (here : inside ptr = true) :
    (heap.filling file chunked inside).objects ptr = filledAs file chunked (heap.objects ptr) := if_pos here

theorem filling_outside (outside : inside ptr = false) : (heap.filling file chunked inside).objects ptr = heap.objects ptr :=
  if_neg (by rw [outside]; exact Bool.false_ne_true)

theorem filledAs_filling (heap : Heap) (inside : Nat → Bool) (ptr : Nat) :
    filledAs file chunked ((heap.filling file chunked inside).objects ptr) = filledAs file chunked (heap.objects ptr) := by
  cases here : inside ptr with
  | true =>
    rw [filling_inside here]
    rfl
  | false => rw [filling_outside here]

theorem filling_filling (heap : Heap) (inside further : Nat → Bool) :
    (heap.filling file chunked inside).filling file chunked further =
      heap.filling file chunked fun ptr => inside ptr || further ptr := by
  have objects : ((heap.filling file chunked inside).filling file chunked further).objects =
      (heap.filling file chunked fun ptr => inside ptr || further ptr).objects := by
    funext ptr
    cases there : further ptr with
    | true =>
      rw [filling_inside there,filledAs_filling]
      exact (if_pos (by simp [there])).symm
    | false =>
      rw [filling_outside there]
      cases here : inside ptr with
      | true =>
        rw [filling_inside here]
        exact (if_pos (by simp [here])).symm
      | false =>
        rw [filling_outside here]
        exact (if_neg (by simp [here,there])).symm
  exact congrArg (fun objects => {heap with objects:=objects}) objects

theorem filling_same (already : ∀ ptr, inside ptr = true → heap.objects ptr = filledAs file chunked (heap.objects ptr)) :
    heap.filling file chunked inside = heap := by
  have objects : (heap.filling file chunked inside).objects = heap.objects := by
    funext ptr
    cases here : inside ptr with
    | true => rw [filling_inside here,← already ptr here]
    | false => exact filling_outside here
  exact congrArg (fun objects => {heap with objects:=objects}) objects

theorem filling_children (heap : Heap) (inside : Nat → Bool) (ptr : Nat) :
    (heap.filling file chunked inside).children ptr = heap.children ptr := by
  unfold Heap.children
  cases here : inside ptr with
  | true =>
    rw [filling_inside here]
    rfl
  | false => rw [filling_outside here]

theorem Proper.filling (proper : Proper file chunked heap ptr) (inside : Nat → Bool) :
    Proper file chunked (heap.filling file chunked inside) ptr := by
  obtain ⟨index,whole,fields⟩ := proper
  cases here : inside ptr with
  | true =>
    have same := @filling_inside file chunked heap inside ptr here
    refine ⟨by rw [same]; exact index,?_,.inr (by rw [same]; rfl)⟩
    unfold Heap.Whole
    rw [filling_children,same]
    exact whole
  | false =>
    have same := @filling_outside file chunked heap inside ptr here
    refine ⟨by rw [same]; exact index,?_,by rw [same]; exact fields⟩
    unfold Heap.Whole
    rw [filling_children,same]
    exact whole

theorem Built.filling (built : Built heap super path first members ptrs) (inside : Nat → Bool) :
    Built (heap.filling file chunked inside) super path first members ptrs := by
  induction built with
  | nil => exact .nil
  | @cons first super path name address members rest ptrs entry _ _ belowIh othersIh =>
    rw [← @filling_children file chunked heap inside] at belowIh
    refine .cons ?_ belowIh othersIh
    obtain ⟨shortName,longName,thisObjAddress,superObject,subObjects,numSubObjs⟩ := entry
    unfold Heap.filling
    dsimp only
    cases inside first <;> exact ⟨shortName,longName,thisObjAddress,superObject,subObjects,numSubObjs⟩

theorem fillAt_proper (proper : Proper file chunked heap obj) (mapped : (heap.objects obj).thisObjAddress ≠ undefAddr)
    (owned : (heap.objects obj).superObject = some super) (full : (heap.objects super).matlabSparse = false)
    (reads : Reads file chunked (heap.objects obj).thisObjAddress fields) :
    fillAt file chunked depth heap obj = some (0,heap.filling file chunked (just obj)) := by
  rcases proper.fields with ⟨unfilled,blank_⟩ | filled
  · have above : heap.update super (fun data => {data with toMetaData:=(heap.objects super).toMetaData}) = heap := by
      unfold Heap.update
      rw [Function.update_eq_self]
    have same : opened heap super obj (heap.objects obj).thisObjAddress (heap.objects super).toMetaData fields =
        heap.filling file chunked (just obj) := by
      unfold opened
      rw [above]
      have objects : (heap.update obj fun data => {data with toMetaData:=fields,isFilled:=true}).objects =
          (heap.filling file chunked (just obj)).objects := by
        funext ptr
        by_cases here : ptr = obj
        · subst here
          rw [Heap.update_same,filling_inside (just_iff.mpr rfl),filledAs,reads.fields]
        · rw [Heap.update_other _ here,filling_outside (just_other here)]
      exact congrArg (fun objects => {heap with objects:=objects}) objects
    refine (fillObject_exact unfilled).mpr ⟨super,none,fields,(heap.objects super).toMetaData,mapped,owned,?_,?_⟩
    · rw [blank_]
      exact reads.read _ full
    · unfold EndsWith
      rw [if_neg fun refers => reads.plain refers.2]
      exact ⟨rfl,same.symm⟩
  · have done : (heap.objects obj).isFilled = true := by
      rw [filled]
      rfl
    have same : heap.filling file chunked (just obj) = heap := by
      refine filling_same fun ptr here => ?_
      rw [just_iff.mp here]
      exact filled
    unfold fillAt fillObject
    rw [done,if_pos rfl,same]

theorem fillSubTrees_cons {tree : Heap → Nat → Option (Nat × Heap)} (first : tree heap obj = some (0,middle))
    (rest : fillSubTrees tree left objects middle = some (0,after)) :
    fillSubTrees tree (left+1) (obj::objects) heap = some (0,after) := by
  rw [fillSubTrees,first]
  exact rest

theorem Built.cons_ptrs (built : Built heap super path first (.cons name address members others) ptrs) :
    ∃ rest, ptrs = first::rest := by
  cases built
  exact ⟨_,rfl⟩

theorem Built.entry (built : Built heap super path first (.cons name address members others) ptrs) :
    ShowsEntry (heap.objects first) super path name address members.length := by
  cases built with
  | cons entry _ _ => exact entry

theorem Built.children (built : Built heap super path first (.cons name address members others) ptrs) :
    (heap.children first).length = members.length := by
  cases built with
  | cons _ below _ => exact below.length

-- The objects of these members, filled or not, below one that is not sparse.
structure Fillable (file : MatFile) (chunked : MetaData → Option (Nat × DataArrays)) (heap : Heap) (super : Nat) (path : Text)
    (first : Nat) (members : Members) (ptrs : List Nat) : Prop where
  built : Built heap super path first members ptrs
  proper : ∀ ptr, first ≤ ptr → ptr < first+members.size → Proper file chunked heap ptr
  above : super < first
  full : (heap.objects super).matlabSparse = false

theorem Fillable.filling (fillable : Fillable file chunked heap super path first members ptrs) (inside : Nat → Bool)
    (full : ((heap.filling file chunked inside).objects super).matlabSparse = false) :
    Fillable file chunked (heap.filling file chunked inside) super path first members ptrs := by
  obtain ⟨built,proper,above,_⟩ := fillable
  exact ⟨built.filling inside,fun ptr low high => (proper ptr low high).filling inside,above,full⟩

theorem Fillable.rest (fillable : Fillable file chunked heap super path first (.cons name address members others) (first::ptrs)) :
    Fillable file chunked heap super path (first+1+members.size) others ptrs := by
  obtain ⟨built,proper,above,full⟩ := fillable
  simp only [Members.size] at proper
  cases built with
  | cons _ _ built => exact ⟨built,fun ptr low high => proper ptr (by omega) (by omega),by omega,full⟩

theorem Fillable.below (fillable : Fillable file chunked heap super path first (.cons name address members others) (first::ptrs))
    (full : (heap.objects first).matlabSparse = false) :
    Fillable file chunked heap first (longNameUnder path name) (first+1) members (heap.children first) := by
  obtain ⟨built,proper,_,_⟩ := fillable
  simp only [Members.size] at proper
  cases built with
  | cons _ built _ => exact ⟨built,fun ptr low high => proper ptr (by omega) (by omega),by omega,full⟩

theorem Fillable.alone (fillable : Fillable file chunked heap super path first (.cons name address members others) (first::ptrs)) :
    Fillable file chunked heap super path first (.cons name address members .nil) [first] := by
  obtain ⟨built,proper,above,full⟩ := fillable
  simp only [Members.size] at proper
  cases built with
  | cons entry below _ =>
    refine ⟨.cons entry below .nil,fun ptr low high => ?_,above,full⟩
    simp only [Members.size] at high
    exact proper ptr low (by omega)

theorem Fillable.fills (fillable : Fillable file chunked heap super path first (.cons name address members others) (first::ptrs))
    (mapped : address ≠ undefAddr) (reads : Reads file chunked address fields) :
    fillAt file chunked depth heap first = some (0,heap.filling file chunked (just first)) := by
  obtain ⟨built,proper,_,full⟩ := fillable
  simp only [Members.size] at proper
  have entry := built.entry
  rw [← entry.thisObjAddress] at mapped reads
  exact fillAt_proper (proper first (Nat.le_refl _) (by omega)) mapped entry.superObject full reads

theorem Fillable.filled (fillable : Fillable file chunked heap super path first (.cons name address members others) (first::ptrs))
    (reads : Reads file chunked address fields) :
    ((heap.filling file chunked (just first)).objects first).toMetaData = fields ∧
      ((heap.filling file chunked (just first)).objects super).matlabSparse = false := by
  have different : super ≠ first := Nat.ne_of_lt fillable.above
  constructor
  · rw [filling_inside (just_iff.mpr rfl)]
    show readFields file chunked (heap.objects first).thisObjAddress = fields
    rw [fillable.built.entry.thisObjAddress,reads.fields]
  · rw [filling_outside (just_other different)]
    exact fillable.full

end Filling

section Skeletons
variable {heap after : Heap} {file : MatFile} {chunked : MetaData → Option (Nat × DataArrays)}

end Skeletons

section Variables
variable {file : MatFile} {chunked : MetaData → Option (Nat × DataArrays)} {depth : Nat} {heap : Heap}
  {zlibDecompress : ZlibDecompress} {threads : MetaData → Nat}

theorem Built.inside (built : Built heap super path first members ptrs) (member : ptr ∈ ptrs) :
    first ≤ ptr ∧ ptr < first+members.size := by
  induction built with
  | nil => cases member
  | cons _ _ _ _ ih =>
    simp only [Members.size]
    rcases List.mem_cons.mp member with rfl | later
    · omega
    · have inside := ih later
      omega

theorem Built.distinct (built : Built heap super path first members ptrs) : ptrs.Nodup := by
  induction built with
  | nil => exact List.nodup_nil
  | cons _ _ others _ ih =>
    refine List.nodup_cons.mpr ⟨fun member => ?_,ih⟩
    have inside := others.inside member
    omega

theorem Fillable.requeue (fillable : Fillable file chunked heap virtualSuperObject path first members ptrs) (queue : Queue Nat) :
    Fillable file chunked (heap.update virtualSuperObject fun data => {data with subObjects:=queue}) virtualSuperObject path first
      members ptrs := by
  obtain ⟨built,proper,above,full⟩ := fillable
  have same (ptr : Nat) (low : first ≤ ptr) : (heap.update virtualSuperObject fun data => {data with subObjects:=queue}).objects
      ptr = heap.objects ptr := Heap.update_other _ (by omega)
  refine ⟨built.transport fun ptr low _ => same ptr low,fun ptr low high => ?_,above,?_⟩
  · obtain ⟨index,whole,fields⟩ := proper ptr low high
    unfold Heap.Whole Heap.children at whole
    refine ⟨same ptr low ▸ index,?_,same ptr low ▸ fields⟩
    unfold Heap.Whole Heap.children
    rw [same ptr low]
    exact whole
  · rw [Heap.update_same]
    exact full

theorem Loaded.index (loaded : Loaded heap inside ptrs workspace) (member : obj ∈ ptrs) : (heap.objects obj).sCArrayIndex = 0 := by
  induction loaded with
  | nil => cases member
  | array _ _ index _ _ ih =>
    rcases List.mem_cons.mp member with rfl | later
    · exact index
    · exact ih later
  | struct _ _ index _ _ _ _ _ _ ih =>
    rcases List.mem_cons.mp member with rfl | later
    · exact index
    · exact ih later

theorem Loaded.length (loaded : Loaded heap inside ptrs workspace) : ptrs.length = workspace.names.length := by
  induction loaded with
  | nil => rfl
  | array _ _ _ _ _ ih => exact congrArg Nat.succ ih
  | struct _ _ _ _ _ _ _ _ _ ih => exact congrArg Nat.succ ih

end Variables

end GetMatVar
