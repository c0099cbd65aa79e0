import GetMatVar.FillWorkspace

namespace GetMatVar

namespace Workspace

-- What a path of names leads to, as the one entry of a workspace.
def select : Workspace → List Text → Option Workspace
  | nil,_ => none
  | array name content rest,path =>
    match path with
    | [] => none
    | first::deeper =>
      if first = name then if deeper = [] then some (array name content nil) else none else rest.select path
  | struct name fields rest,path =>
    match path with
    | [] => none
    | first::deeper =>
      if first = name then if deeper = [] then some (struct name fields nil) else fields.select deeper else rest.select path

end Workspace

-- The object that a path leads to and how many objects its tree has.
def Members.locate : Members → Nat → List Text → Option (Nat × Nat)
  | .nil,_,_ => none
  | .cons name _ below rest,first,path =>
    match path with
    | [] => none
    | head::deeper =>
      if head = name then if deeper = [] then some (first,1+below.size) else below.locate (first+1) deeper
      else rest.locate (first+1+below.size) path

section Located
variable {file : MatFile} {chunked : MetaData → Option (Nat × DataArrays)} {heap : Heap}

theorem locate_here (name : Text) (address : Nat) (below rest : Members) (first : Nat) :
    (Members.cons name address below rest).locate first [name] = some (first,1+below.size) := by
  rw [Members.locate,if_pos rfl,if_pos rfl]

theorem locate_below (some_ : deeper ≠ []) : (Members.cons name address below rest).locate first (name::deeper) =
    below.locate (first+1) deeper := by rw [Members.locate,if_pos rfl,if_neg some_]

theorem locate_rest (other : head ≠ name) : (Members.cons name address below rest).locate first (head::deeper) =
    rest.locate (first+1+below.size) (head::deeper) := by rw [Members.locate,if_neg other]

theorem locate_inside {members : Members} (located : members.locate first path = some (obj,size)) :
    first ≤ obj ∧ obj+size ≤ first+members.size ∧ 0 < size := by
  induction members generalizing first path with
  | nil => cases located
  | cons name address below rest belowIh restIh =>
    cases path with
    | nil => cases located
    | cons head deeper =>
      simp only [Members.size]
      by_cases same : head = name
      · subst same
        by_cases last : deeper = []
        · subst last
          rw [locate_here] at located
          cases located
          omega
        · rw [locate_below last] at located
          have inside := belowIh located
          omega
      · rw [locate_rest same] at located
        have inside := restIh located
        omega

-- Paths of which none begins with the other lead to trees without a common object.
theorem locate_disjoint {members : Members} (one : members.locate first path = some (obj,size))
    (two : members.locate first other = some (sub,more)) (apart : ¬path <+: other ∧ ¬other <+: path) :
    obj+size ≤ sub ∨ sub+more ≤ obj := by
  induction members generalizing first path other with
  | nil => cases one
  | cons name address below rest belowIh restIh =>
    cases path with
    | nil => cases one
    | cons head deeper =>
      cases other with
      | nil => cases two
      | cons otherHead otherDeeper =>
        by_cases same : head = name
        · subst same
          have some_ : deeper ≠ [] ∨ otherHead ≠ head := by
            by_contra none_
            simp only [not_or,not_not] at none_
            obtain ⟨rfl,rfl⟩ := none_
            exact apart.1 (List.cons_prefix_cons.mpr ⟨rfl,List.nil_prefix⟩)
          have inside : first ≤ obj ∧ obj+size ≤ first+1+below.size := by
            by_cases last : deeper = []
            · subst last
              rw [locate_here] at one
              cases one
              omega
            · rw [locate_below last] at one
              have := locate_inside one
              omega
          by_cases otherSame : otherHead = head
          · subst otherSame
            have deep : deeper ≠ [] := some_.resolve_right fun different => different rfl
            have otherDeep : otherDeeper ≠ [] := by
              rintro rfl
              exact apart.2 (List.cons_prefix_cons.mpr ⟨rfl,List.nil_prefix⟩)
            rw [locate_below deep] at one
            rw [locate_below otherDeep] at two
            refine belowIh one two ⟨fun before => apart.1 ?_,fun before => apart.2 ?_⟩
            · exact List.cons_prefix_cons.mpr ⟨rfl,before⟩
            · exact List.cons_prefix_cons.mpr ⟨rfl,before⟩
          · rw [locate_rest otherSame] at two
            have later := locate_inside two
            omega
        · rw [locate_rest same] at one
          have later := locate_inside one
          by_cases otherSame : otherHead = name
          · subst otherSame
            by_cases last : otherDeeper = []
            · subst last
              rw [locate_here] at two
              cases two
              omega
            · rw [locate_below last] at two
              have := locate_inside two
              omega
          · rw [locate_rest otherSame] at two
            exact restIh one two apart

end Located

def localTokens (path : List Text) : List VariableNameToken := path.map fun name => ⟨.localName,name⟩

section Walking
variable {file : MatFile} {chunked : MetaData → Option (Nat × DataArrays)} {depth : Nat} {heap : Heap}
  {zlibDecompress : ZlibDecompress} {threads : MetaData → Nat}

-- The entry of this name among the objects of a group, the one through which the
-- path goes.
structure EntryFound (file : MatFile) (zlibDecompress : ZlibDecompress) (chunked : MetaData → Option (Nat × DataArrays)) (heap : Heap) (super : Nat) (path : Text)
    (first : Nat) (members : Members) (ptrs : List Nat) (name : Text) (deeper : List Text) (value : Workspace)
    (obj address : Nat) (below : Members) (entry : Workspace) : Prop where
  found : ptrs.find? (fun ptr => (heap.objects ptr).shortName == name) = some obj
  keeps : Keeps file zlibDecompress (.cons name address below .nil) entry
  selected : entry.select (name::deeper) = some value
  fillable : Fillable file chunked heap super path obj (.cons name address below .nil) [obj]
  narrow : (Members.cons name address below .nil).Narrow
  located : members.locate first (name::deeper) = (Members.cons name address below .nil).locate obj (name::deeper)
  low : first ≤ obj
  high : obj+(1+below.size) ≤ first+members.size

theorem EntryFound.behind (found : EntryFound file zlibDecompress chunked heap super path (first+1+members.size) rest ptrs name deeper value obj
      address below entry) (other : (heap.objects first).shortName = otherName) (different : name ≠ otherName) :
    EntryFound file zlibDecompress chunked heap super path first (.cons otherName otherAddress members rest) (first::ptrs) name deeper value obj
      address below entry := by
  refine ⟨?_,found.keeps,found.selected,found.fillable,found.narrow,(locate_rest different).trans found.located,?_,?_⟩
  · rw [List.find?_cons_of_neg (by rw [other]; exact fun same => different (eq_of_beq same).symm)]
    exact found.found
  · have := found.low
    omega
  · have := found.high
    simp only [Members.size]
    omega

theorem located_front (name : Text) (address : Nat) (below rest : Members) (first : Nat) (deeper : List Text) :
    (Members.cons name address below rest).locate first (name::deeper) =
      (Members.cons name address below .nil).locate first (name::deeper) := by
  by_cases last : deeper = []
  · subst last
    rw [locate_here,locate_here]
  · rw [locate_below last,locate_below last]

theorem EntryFound.front (keeps : Keeps file zlibDecompress (.cons name address below .nil) entry) (selected : entry.select (name::deeper) = some value)
    (fillable : Fillable file chunked heap super path first (.cons name address below rest) (first::ptrs))
    (narrow : (Members.cons name address below rest).Narrow) :
    EntryFound file zlibDecompress chunked heap super path first (.cons name address below rest) (first::ptrs) name deeper value first address below
      entry := by
  refine ⟨?_,keeps,selected,fillable.alone,⟨narrow.1,narrow.2.1,trivial⟩,located_front _ _ _ _ _ _,Nat.le_refl _,?_⟩
  · exact List.find?_cons_of_pos (by rw [fillable.built.entry.shortName]; exact beq_self_eq_true name)
  · simp only [Members.size]
    omega

theorem keeps_entry (keeps : Keeps file zlibDecompress members workspace) (fillable : Fillable file chunked heap super path first members ptrs)
    (narrow : members.Narrow) (selected : workspace.select (name::deeper) = some value) : ∃ obj address below entry,
    EntryFound file zlibDecompress chunked heap super path first members ptrs name deeper value obj address below entry := by
  induction keeps generalizing first ptrs with
  | nil => cases selected
  | @array address content rest workspace other mapped header _ ih =>
    obtain ⟨ptrs,rfl⟩ := fillable.built.cons_ptrs
    by_cases same : name = other
    · subst same
      refine ⟨first,address,.nil,.array name content .nil,.front (.array mapped header .nil) ?_ fillable narrow⟩
      rw [Workspace.select,if_pos rfl] at selected ⊢
      exact selected
    · rw [Workspace.select,if_neg same] at selected
      obtain ⟨obj,at_,below,entry,found⟩ := ih fillable.rest narrow.2.2 selected
      exact ⟨obj,at_,below,entry,found.behind fillable.built.entry.shortName same⟩
  | @struct address members fields rest workspace other mapped header inner _ _ ih =>
    obtain ⟨ptrs,rfl⟩ := fillable.built.cons_ptrs
    by_cases same : name = other
    · subst same
      refine ⟨first,address,members,.struct name fields .nil,.front (.struct mapped header inner .nil) ?_ fillable narrow⟩
      rw [Workspace.select,if_pos rfl] at selected ⊢
      exact selected
    · rw [Workspace.select,if_neg same] at selected
      obtain ⟨obj,at_,below,entry,found⟩ := ih fillable.rest narrow.2.2 selected
      exact ⟨obj,at_,below,entry,found.behind fillable.built.entry.shortName same⟩

theorem keeps_single (keeps : Keeps file zlibDecompress (.cons name address below .nil) entry) :
    (∃ content, entry = .array name content .nil) ∨ ∃ fields, entry = .struct name fields .nil := by
  cases keeps with
  | array _ _ others =>
    cases others
    exact .inl ⟨_,rfl⟩
  | struct _ _ _ others =>
    cases others
    exact .inr ⟨_,rfl⟩

theorem selectToken_local {fill : Heap → Nat → Option (Nat × Heap)} (found : findSubObjectByShortName heap above name = some obj)
    (filled : fill heap obj = some (0,after)) (single : (after.objects obj).isStructArray = false) :
    selectToken fill heap above ⟨.localName,name⟩ rest = some (0,obj,rest,after) := by
  unfold selectToken
  simp only [found,filled,single,Option.bind_eq_bind,Option.bind_some,ne_eq,not_true,Bool.false_eq_true,if_false]

theorem EntryFound.fills (depth : Nat) (gets : ReadsChunks file zlibDecompress threads chunked)
    (found : EntryFound file zlibDecompress chunked heap super path first members ptrs name deeper value obj address below
      entry) : ∃ fields, Reads file chunked address fields ∧ fields.isStructArray = false ∧
    fillAt file chunked depth heap obj = some (0,heap.filling file chunked (just obj)) := by
  cases found.keeps with
  | array mapped header _ =>
    obtain ⟨fields,reads,carries⟩ := array_reads gets header
    exact ⟨fields,reads,carries.single,found.fillable.fills mapped reads⟩
  | struct mapped header _ _ =>
    obtain ⟨fields,reads,carries⟩ := @struct_reads file chunked address header
    exact ⟨fields,reads,carries.single,found.fillable.fills mapped reads⟩

-- Where the walk along a path ends, with the objects that it fills.
structure PathWalked (file : MatFile) (zlibDecompress : ZlibDecompress) (chunked : MetaData → Option (Nat × DataArrays)) (depth : Nat) (heap : Heap) (above first : Nat)
    (members : Members) (path : List Text) (value : Workspace) (target size : Nat) (inside : Nat → Bool) : Prop where
  located : members.locate first path = some (target,size)
  ran : selectObject (fillAt file chunked depth) path.length heap above (localTokens path) =
    some (0,target,heap.filling file chunked inside)
  within : ∀ ptr, inside ptr = true → first ≤ ptr ∧ ptr < first+members.size
  stands : ∃ super longName name address below, Keeps file zlibDecompress (.cons name address below .nil) value ∧
    Fillable file chunked (heap.filling file chunked inside) super longName target (.cons name address below .nil) [target] ∧
    (Members.cons name address below .nil).Narrow ∧ size = 1+below.size

-- By induction on the path, through an entry of each group.
theorem EntryFound.walks (depth : Nat) (gets : ReadsChunks file zlibDecompress threads chunked)
    (found : EntryFound file zlibDecompress chunked heap super path first members ptrs name deeper value obj address below
      entry) (listed : heap.children above = ptrs) : ∃ target size inside,
    PathWalked file zlibDecompress chunked depth heap above first members (name::deeper) value target size inside := by
  induction deeper generalizing heap super path first members ptrs name obj address below entry above with
  | nil =>
    obtain ⟨fields,reads,single,fills⟩ := EntryFound.fills depth gets found
    obtain ⟨filled,full⟩ := found.fillable.filled reads
    have here : findSubObjectByShortName heap above name = some obj := by
      unfold findSubObjectByShortName
      rw [listed]
      exact found.found
    have token := @selectToken_local heap above name obj _ [] _ here fills (by rw [filled]; exact single)
    have value_ : value = entry := by
      have selected := found.selected
      rcases keeps_single found.keeps with ⟨content,rfl⟩ | ⟨fields,rfl⟩
      · rw [Workspace.select,if_pos rfl,if_pos rfl] at selected
        exact (Option.some.inj selected).symm
      · rw [Workspace.select,if_pos rfl,if_pos rfl] at selected
        exact (Option.some.inj selected).symm
    subst value_
    refine ⟨obj,1+below.size,just obj,found.located.trans (locate_here _ _ _ _ _),?_,fun ptr same => ?_,
      ⟨_,_,_,_,_,found.keeps,found.fillable.filling _ full,found.narrow,rfl⟩⟩
    · show selectObject _ 1 heap above [⟨.localName,name⟩] = _
      rw [selectObject,token]
      rfl
    · rw [just_iff.mp same]
      have := found.low
      have := found.high
      omega
  | cons next deeper ih =>
    obtain ⟨fields,reads,single,fills⟩ := EntryFound.fills depth gets found
    obtain ⟨filled,full⟩ := found.fillable.filled reads
    have here : findSubObjectByShortName heap above name = some obj := by
      unfold findSubObjectByShortName
      rw [listed]
      exact found.found
    have token := @selectToken_local heap above name obj _ (localTokens (next::deeper)) _ here fills (by rw [filled]; exact single)
    have selected := found.selected
    cases found.keeps with
    | array mapped header others =>
      cases others
      rw [Workspace.select,if_pos rfl,if_neg (List.cons_ne_nil _ _)] at selected
      cases selected
    | struct mapped header inner others =>
      cases others
      rw [Workspace.select,if_pos rfl,if_neg (List.cons_ne_nil _ _)] at selected
      have opened_ := (found.fillable.filling _ full).below (by rw [filled]; exact reads.full)
      obtain ⟨sub,at_,deep,entry,foundBelow⟩ := keeps_entry inner opened_ found.narrow.2.1 selected
      obtain ⟨target,size,inside,walked⟩ := @ih _ _ _ _ _ _ _ _ _ _ _ obj foundBelow rfl
      have within := walked.within
      refine ⟨target,size,fun ptr => just obj ptr || inside ptr,?_,?_,fun ptr either => ?_,?_⟩
      · rw [found.located,locate_below (List.cons_ne_nil _ _)]
        exact walked.located
      · show selectObject _ ((next::deeper).length+1) heap above (⟨.localName,name⟩::localTokens (next::deeper)) = _
        rw [selectObject,token,← filling_filling]
        exact walked.ran
      · have := found.low
        have := found.high
        rcases Bool.or_eq_true _ _ |>.mp either with same | deeper
        · rw [just_iff.mp same]
          omega
        · have := within ptr deeper
          omega
      · rw [← filling_filling]
        exact walked.stands

end Walking

def Stands (file : MatFile) (zlibDecompress : ZlibDecompress) (heap : Heap) (target size : Nat) (value : Workspace) : Prop :=
  ∃ super longName name address below, Keeps file zlibDecompress (.cons name address below .nil) value ∧
    Built heap super longName target (.cons name address below .nil) [target] ∧
    (Members.cons name address below .nil).Narrow ∧ size = 1+below.size

section Checking
variable {heap : Heap}

end Checking

section Requests
variable {file : MatFile} {chunked : MetaData → Option (Nat × DataArrays)} {depth : Nat} {heap : Heap} {members : Members}
  {zlibDecompress : ZlibDecompress} {threads : MetaData → Nat}
  {workspace : Workspace}

theorem Stands.filling (stands : Stands file zlibDecompress heap target size value) (inside : Nat → Bool) :
    Stands file zlibDecompress (heap.filling file chunked inside) target size value := by
  obtain ⟨super,longName,name,address,below,keeps,built,narrow,count⟩ := stands
  exact ⟨super,longName,name,address,below,keeps,built.filling inside,narrow,count⟩

theorem filling_filled (already : heap.objects ptr = filledAs file chunked (heap.objects ptr)) (inside : Nat → Bool) :
    (heap.filling file chunked inside).objects ptr = filledAs file chunked ((heap.filling file chunked inside).objects ptr) := by
  cases here : inside ptr with
  | true =>
    rw [filling_inside here]
    rfl
  | false => rwa [filling_outside here]

-- The objects that paths lead to: they stand for these values, and their trees are
-- filled.
inductive Spots (file : MatFile) (zlibDecompress : ZlibDecompress) (chunked : MetaData → Option (Nat × DataArrays)) (heap : Heap) (members : Members) :
    List (List Text) → List Workspace → List Nat → Prop where
  | nil : Spots file zlibDecompress chunked heap members [] [] []
  | cons (located : members.locate 1 path = some (target,size)) (stands : Stands file zlibDecompress heap target size value)
      (filled : ∀ ptr, target ≤ ptr → ptr < target+size → heap.objects ptr = filledAs file chunked (heap.objects ptr))
      (others : Spots file zlibDecompress chunked heap members paths values targets) :
      Spots file zlibDecompress chunked heap members (path::paths) (value::values) (target::targets)

def Apart (path other : List Text) : Prop := ¬path <+: other ∧ ¬other <+: path

theorem Spots.filling (spots : Spots file zlibDecompress chunked heap members paths values targets) (inside : Nat → Bool) :
    Spots file zlibDecompress chunked (heap.filling file chunked inside) members paths values targets := by
  induction spots with
  | nil => exact .nil
  | cons located stands filled _ ih =>
    exact .cons located (stands.filling inside) (fun ptr low high => filling_filled (filled ptr low high) inside) ih

theorem Fillable.root (fillable : Fillable file chunked heap virtualSuperObject [] 1 members (heap.children virtualSuperObject))
    {inside : Nat → Bool} (within : ∀ ptr, inside ptr = true → 1 ≤ ptr) :
    Fillable file chunked (heap.filling file chunked inside) virtualSuperObject [] 1 members
      ((heap.filling file chunked inside).children virtualSuperObject) := by
  rw [filling_children]
  refine fillable.filling inside ?_
  rw [filling_outside (Bool.eq_false_iff.mpr fun here => absurd (within _ here) (by decide))]
  exact fillable.full

theorem Spots.free (spots : Spots file zlibDecompress chunked heap members paths values targets) (located : members.locate 1 path = some (target,size))
    (apart : ∀ other ∈ paths, Apart path other) : ∀ ptr ∈ targets, ¬(target ≤ ptr ∧ ptr < target+size) := by
  induction spots with
  | nil => exact fun ptr member => absurd member List.not_mem_nil
  | @cons other otherTarget otherSize value paths values targets otherLocated _ _ _ ih =>
    refine List.forall_mem_cons.mpr ⟨fun within => ?_,ih fun next member => apart next (List.mem_cons_of_mem _ member)⟩
    have disjoint := locate_disjoint located otherLocated (apart other List.mem_cons_self)
    have := locate_inside otherLocated
    omega

theorem Spots.distinct (spots : Spots file zlibDecompress chunked heap members paths values targets) (apart : paths.Pairwise Apart) :
    targets.Nodup := by
  induction spots with
  | nil => exact List.nodup_nil
  | @cons path target size value paths values targets located _ _ others ih =>
    obtain ⟨alone,later⟩ := List.pairwise_cons.mp apart
    have inside := locate_inside located
    refine List.nodup_cons.mpr ⟨fun member => ?_,ih later⟩
    exact others.free located alone target member ⟨Nat.le_refl _,by omega⟩

theorem Spots.located (spots : Spots file zlibDecompress chunked heap members paths values targets) :
    ∀ target ∈ targets, ∃ path ∈ paths, ∃ size, members.locate 1 path = some (target,size) := by
  induction spots with
  | nil => exact fun target member => absurd member List.not_mem_nil
  | @cons path target size value paths values targets located _ _ _ ih =>
    refine List.forall_mem_cons.mpr ⟨⟨path,List.mem_cons_self,size,located⟩,fun other member => ?_⟩
    obtain ⟨otherPath,listed,otherSize,at_⟩ := ih other member
    exact ⟨otherPath,List.mem_cons_of_mem _ listed,otherSize,at_⟩

theorem Spots.outside (spots : Spots file zlibDecompress chunked heap members paths values targets) (apart : paths.Pairwise Apart) (listed : path ∈ paths)
    (located : members.locate 1 path = some (target,size)) (low : target < ptr) (high : ptr < target+size) : ptr ∉ targets := by
  intro member
  obtain ⟨other,otherListed,otherSize,at_⟩ := spots.located ptr member
  have symmetric : Std.Symm Apart := ⟨fun _ _ both => ⟨both.2,both.1⟩⟩
  by_cases same : path = other
  · subst same
    rw [located] at at_
    cases at_
    omega
  · have disjoint := locate_disjoint located at_ (apart.forall listed otherListed same)
    have := locate_inside at_
    omega

theorem Spots.length (spots : Spots file zlibDecompress chunked heap members paths values targets) : targets.length = paths.length := by
  induction spots with
  | nil => rfl
  | cons _ _ _ _ ih => exact congrArg Nat.succ ih

end Requests

end GetMatVar
