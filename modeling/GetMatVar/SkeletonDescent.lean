import GetMatVar.Library.Descent
import GetMatVar.SkeletonErrors

namespace GetMatVar
namespace SkeletonDescent
open Descent Relation

section Calls
variable (file : MatFile)

-- A call of readTreeNode, with the long_name of the object that it is for.
structure TreeCall where
  path : Text
  nodeAddress : Nat
  heapAddress : Nat

def subHeapAddress (entry : Nat) : Nat := file.address (entry+3*file.sBlock.sizeOfOffsets+8)

def entryName (heapAddress entry : Nat) : Option Text :=
  file.text (heapDataSegment file heapAddress+file.number entry file.sBlock.sizeOfOffsets)

def ReadsChild (nodeAddress i : Nat) : Prop :=
  i < file.number (nodeAddress+6) 2 ∧ ∀ k < i, ¬LoudChild file (subNodeAddress file nodeAddress k)

def ReadsEntry (address k : Nat) : Prop :=
  file.shows address "TREE" = false ∧ k < file.number (address+6) 2 ∧
    ∀ later < file.number (address+6) 2, k < later → ¬LoudEntry file (symbolEntry file address later)

inductive CallStep : TreeCall → TreeCall → Prop where
  | node : ReadsChild file nodeAddress i → file.shows (subNodeAddress file nodeAddress i) "TREE" = true →
    CallStep ⟨path,nodeAddress,heapAddress⟩ ⟨path,subNodeAddress file nodeAddress i,heapAddress⟩
  | group : ReadsChild file nodeAddress i → ReadsEntry file (subNodeAddress file nodeAddress i) k →
    cacheType file (symbolEntry file (subNodeAddress file nodeAddress i) k) = 1 →
    entryName file heapAddress (symbolEntry file (subNodeAddress file nodeAddress i) k) = some name →
    CallStep ⟨path,nodeAddress,heapAddress⟩ ⟨longNameUnder path name,
      subTreeAddress file (symbolEntry file (subNodeAddress file nodeAddress i) k),
      subHeapAddress file (symbolEntry file (subNodeAddress file nodeAddress i) k)⟩

-- The same for the nodes alone.
inductive TreeStep : Nat → Nat → Prop where
  | node : ReadsChild file nodeAddress i → file.shows (subNodeAddress file nodeAddress i) "TREE" = true →
    TreeStep nodeAddress (subNodeAddress file nodeAddress i)
  | group : ReadsChild file nodeAddress i → ReadsEntry file (subNodeAddress file nodeAddress i) k →
    cacheType file (symbolEntry file (subNodeAddress file nodeAddress i) k) = 1 →
    TreeStep nodeAddress (subTreeAddress file (symbolEntry file (subNodeAddress file nodeAddress i) k))

def EntryNamed (path : Text) (heapAddress entry : Nat) : Prop :=
  ∃ name, entryName file heapAddress entry = some name ∧ (longNameUnder path name).length < 2^16

-- The entries that a call comes to have names in the file, and their dotted paths fit
-- in the 16 bits of their lengths.
def EntriesNamed (call : TreeCall) : Prop :=
  ∀ i k, ReadsChild file call.nodeAddress i → ReadsEntry file (subNodeAddress file call.nodeAddress i) k →
    EntryNamed file call.path call.heapAddress (symbolEntry file (subNodeAddress file call.nodeAddress i) k)

abbrev CallEnds : TreeCall → Prop := Ends (CallStep file) (EntriesNamed file)

end Calls

section Descent
variable {file : MatFile}

-- More fuel does not change a walk that comes to an end.
abbrev TreeVisit := Nat → Nat → Nat → Heap → Option (Nat × Heap)

def MoreDefined (visit more : TreeVisit) : Prop :=
  ∀ object nodeAddress heapAddress heap result, visit object nodeAddress heapAddress heap = some result →
    more object nodeAddress heapAddress heap = some result

theorem readSymbols_extends (defined_ : MoreDefined visit more)
    (ran : readSymbols file visit object nodeAddress heapAddress count heap = some result) :
    readSymbols file more object nodeAddress heapAddress count heap = some result := by
  induction count generalizing heap with
  | zero => exact ran
  | succ count ih =>
    obtain ⟨name,named,rest⟩ := Option.bind_eq_some_iff.mp ran
    obtain ⟨connected,connecting,walked⟩ := Option.bind_eq_some_iff.mp rest
    simp only [readSymbols,Option.bind_eq_bind]
    rw [named,Option.bind_some,connecting,Option.bind_some]
    dsimp only at walked ⊢
    split at walked
    · rw [if_pos ‹_›]
      obtain ⟨⟨code,deep⟩,visited,last⟩ := Option.bind_eq_some_iff.mp walked
      rw [defined_ _ _ _ _ _ visited,Option.bind_some]
      dsimp only at last ⊢
      split at last
      · rw [if_pos ‹_›]
        exact last
      · rw [if_neg ‹_›]
        exact ih last
    · rw [if_neg ‹_›]
      split at walked
      · rw [if_pos ‹_›]
        exact walked
      · rw [if_neg ‹_›]
        exact ih walked

theorem readSnod_extends (defined_ : MoreDefined visit more)
    (ran : readSnod file visit object nodeAddress heapAddress heap = some result) :
    readSnod file more object nodeAddress heapAddress heap = some result := by
  unfold readSnod at ran ⊢
  split at ran
  · rw [if_pos ‹_›]
    obtain ⟨deep,visited,last⟩ := Option.bind_eq_some_iff.mp ran
    exact Option.bind_eq_some_iff.mpr ⟨deep,defined_ _ _ _ _ _ visited,last⟩
  · rw [if_neg ‹_›]
    exact readSymbols_extends defined_ ran

theorem readSubNodes_extends (defined_ : MoreDefined visit more)
    (ran : readSubNodes file visit object heapAddress addresses heap = some result) :
    readSubNodes file more object heapAddress addresses heap = some result := by
  induction addresses generalizing heap with
  | nil => exact ran
  | cons address addresses ih =>
    obtain ⟨⟨code,middle⟩,first,rest⟩ := Option.bind_eq_some_iff.mp ran
    refine Option.bind_eq_some_iff.mpr ⟨_,readSnod_extends defined_ first,?_⟩
    dsimp only at rest ⊢
    split at rest
    · rw [if_pos ‹_›]
      exact rest
    · rw [if_neg ‹_›]
      exact ih rest

theorem readTreeNode_extends (file : MatFile) (enough : fuel ≤ more) : MoreDefined (readTreeNode file fuel) (readTreeNode file more) := by
  induction fuel generalizing more with
  | zero =>
    intro object nodeAddress heapAddress heap result ran
    cases ran
  | succ fuel ih =>
    intro object nodeAddress heapAddress heap result ran
    obtain ⟨more,rfl⟩ : ∃ less, more = less+1 := ⟨more-1,by omega⟩
    simp only [readTreeNode] at ran ⊢
    split at ran
    · rw [if_pos ‹_›]
      exact readSubNodes_extends (ih (by omega)) ran
    · rw [if_neg ‹_›]
      exact ran

def Keeps (ptr : Nat) (path : Text) (heap : Heap) : Prop := ptr < heap.fresh ∧ (heap.objects ptr).longName = path

theorem connected_path (ran : connectSubObject heap object address name = some (subObject,after)) :
    subObject = heap.fresh ∧ (after.register subObject).fresh = heap.fresh+1 ∧
      (longNameUnder (heap.objects object).longName name).length < 2^16 ∧
      (∀ ptr < heap.fresh, ((after.register subObject).objects ptr).longName = (heap.objects ptr).longName) ∧
      (object < heap.fresh → ((after.register subObject).objects subObject).longName =
        longNameUnder (heap.objects object).longName name) := by
  unfold connectSubObject at ran
  dsimp only at ran
  split at ran
  · rename_i fits
    simp only [Option.some.injEq,Prod.mk.injEq] at ran
    obtain ⟨rfl,rfl⟩ := ran
    refine ⟨rfl,rfl,fits.2,fun ptr below => ?_,fun made => ?_⟩
    · rw [Heap.register_objects]
      by_cases here : ptr = object
      · rw [here,Heap.update_same,← here,Heap.alloc_other _ (Nat.ne_of_lt below)]
      · rw [Heap.update_other _ here,Heap.alloc_other _ (Nat.ne_of_lt below)]
    · rw [Heap.register_objects,Heap.update_other _ (Nat.ne_of_gt made),Heap.alloc_same]
  · cases ran

theorem connected_total (fits : (longNameUnder (heap.objects object).longName name).length < 2^16) (address : Nat) :
    ∃ subObject after, connectSubObject heap object address name = some (subObject,after) := by
  have short : name.length < 2^16 := Nat.lt_of_le_of_lt (longName_long _ name) fits
  unfold connectSubObject
  dsimp only
  rw [if_pos ⟨short,fits⟩]
  exact ⟨_,_,rfl⟩

theorem keeps_connects (ptr : Nat) (path : Text) : Connects (Keeps ptr path) := by
  intro heap object address name subObject after kept _ ran
  obtain ⟨same,fresh,_,paths,_⟩ := connected_path ran
  exact ⟨⟨by rw [fresh]; exact Nat.lt_succ_of_lt kept.1,by rw [paths ptr kept.1,kept.2]⟩,same,fresh⟩

theorem readSnod_loud (ran : readSnod file (readTreeNode file fuel) object address heapAddress heap = some (code,after)) :
    code ≠ 0 ↔ LoudChild file address := by
  rw [← readSnod_codes (readTreeNode_codes file fuel)] at ran
  obtain ⟨⟨_,_,_⟩,coded,same⟩ := Option.map_eq_some_iff.mp ran
  cases same
  exact (readSnod_tell (readTreeNode_tells file fuel) coded).1

theorem readTreeNode_loud (ran : readTreeNode file fuel object nodeAddress heapAddress heap = some (code,after)) :
    code ≠ 0 ↔ Loud file nodeAddress := by
  rw [← readTreeNode_codes] at ran
  obtain ⟨⟨_,_,_⟩,coded,same⟩ := Option.map_eq_some_iff.mp ran
  cases same
  exact (readTreeNode_tells file fuel _ _ _ _ _ _ _ coded).own

section Returned
variable {fuel : Nat}

def Returning (file : MatFile) (visit : TreeVisit) : Prop :=
  ∀ object nodeAddress heapAddress heap result, object < heap.fresh →
    visit object nodeAddress heapAddress heap = some result →
    CallEnds file ⟨(heap.objects object).longName,nodeAddress,heapAddress⟩

structure EntryEnds (file : MatFile) (path : Text) (heapAddress entry : Nat) : Prop where
  named : EntryNamed file path heapAddress entry
  below : cacheType file entry = 1 → ∀ name, entryName file heapAddress entry = some name →
    CallEnds file ⟨longNameUnder path name,subTreeAddress file entry,subHeapAddress file entry⟩

theorem readSymbols_returned (returning : Returning file (readTreeNode file fuel)) (kept : Keeps object path heap)
    (ran : readSymbols file (readTreeNode file fuel) object address heapAddress count heap = some result) (below : k < count)
    (quiet : ∀ later < count, k < later → ¬LoudEntry file (symbolEntry file address later)) :
    EntryEnds file path heapAddress (symbolEntry file address k) := by
  induction count generalizing heap with
  | zero => exact absurd below (Nat.not_lt_zero k)
  | succ count ih =>
    obtain ⟨name,named,rest⟩ := Option.bind_eq_some_iff.mp ran
    obtain ⟨⟨subObject,middle⟩,connected,walked⟩ := Option.bind_eq_some_iff.mp rest
    obtain ⟨rfl,fresh,short,_,new⟩ := connected_path connected
    obtain ⟨entered,_,_⟩ := keeps_connects object path _ _ _ _ _ _ kept kept.1 connected
    rw [kept.2] at short new
    have before : ∀ later < count, k < later → ¬LoudEntry file (symbolEntry file address later) :=
      fun later less => quiet later (Nat.lt_succ_of_lt less)
    have here : k = count → EntryNamed file path heapAddress (symbolEntry file address k) := by
      rintro rfl
      exact ⟨name,named,short⟩
    dsimp only at walked
    split at walked
    · rename_i group
      obtain ⟨⟨code,deep⟩,visited,last⟩ := Option.bind_eq_some_iff.mp walked
      rcases Nat.lt_succ_iff_lt_or_eq.mp below with less | rfl
      · have passed : ¬code ≠ 0 := fun failed =>
          quiet count (Nat.lt_succ_self count) less (.inr ⟨group,(readTreeNode_loud visited).mp failed⟩)
        dsimp only at last
        rw [if_neg passed] at last
        obtain ⟨still,_⟩ := readTreeNode_walks (keeps_connects object path) fuel _ _ _ _ _ _ entered (by omega) visited
        exact ih still last less before
      · refine ⟨here rfl,fun _ other same => ?_⟩
        have one : name = other := Option.some.inj (named.symm.trans same)
        subst one
        have ends := returning _ _ _ _ _ (by omega) visited
        rw [new kept.1] at ends
        exact ends
    · rename_i noGroup
      rcases Nat.lt_succ_iff_lt_or_eq.mp below with less | rfl
      · split at walked
        · rename_i link
          exact absurd (.inl link) (quiet count (Nat.lt_succ_self count) less)
        · exact ih entered walked less before
      · exact ⟨here rfl,fun group => absurd group noGroup⟩

structure ChildEnds (file : MatFile) (path : Text) (heapAddress address : Nat) : Prop where
  tree : file.shows address "TREE" = true → CallEnds file ⟨path,address,heapAddress⟩
  entries : ∀ k, ReadsEntry file address k → EntryEnds file path heapAddress (symbolEntry file address k)

theorem readSnod_returned (returning : Returning file (readTreeNode file fuel)) (kept : Keeps object path heap)
    (ran : readSnod file (readTreeNode file fuel) object address heapAddress heap = some result) :
    ChildEnds file path heapAddress address := by
  unfold readSnod at ran
  split at ran
  · rename_i tree
    obtain ⟨_,visited,_⟩ := Option.bind_eq_some_iff.mp ran
    refine ⟨fun _ => ?_,fun k reads => ?_⟩
    · have ends := returning _ _ _ _ _ kept.1 visited
      rwa [kept.2] at ends
    · rw [reads.1] at tree
      cases tree
  · rename_i symbols
    exact ⟨fun tree => absurd tree symbols,fun k reads => readSymbols_returned returning kept ran reads.2.1 reads.2.2⟩

theorem readSubNodes_returned {addresses : List Nat} (returning : Returning file (readTreeNode file fuel))
    (kept : Keeps object path heap)
    (ran : readSubNodes file (readTreeNode file fuel) object heapAddress addresses heap = some result)
    {i : Nat} (here : addresses[i]? = some address) (quiet : ∀ k < i, ∀ earlier, addresses[k]? = some earlier → ¬LoudChild file earlier) :
    ChildEnds file path heapAddress address := by
  induction addresses generalizing heap i with
  | nil => cases here
  | cons first rest ih =>
    obtain ⟨⟨code,middle⟩,walked,more⟩ := Option.bind_eq_some_iff.mp ran
    cases i with
    | zero =>
      cases here
      exact readSnod_returned returning kept walked
    | succ i =>
      have passed : ¬code ≠ 0 := fun failed => quiet 0 (Nat.succ_pos i) first rfl ((readSnod_loud walked).mp failed)
      dsimp only at more
      rw [if_neg passed] at more
      obtain ⟨still,_⟩ := readSnod_walks (keeps_connects object path) (readTreeNode_walks (keeps_connects object path) fuel)
        kept kept.1 walked
      exact ih still more here fun k less => quiet (k+1) (Nat.succ_lt_succ less)

theorem children_get (nodeAddress : Nat) (below : i < file.number (nodeAddress+6) 2) :
    ((List.range (file.number (nodeAddress+6) 2)).map (subNodeAddress file nodeAddress))[i]? = some (subNodeAddress file nodeAddress i) := by
  rw [List.getElem?_map,List.getElem?_range below]
  rfl

theorem readTreeNode_returned (fuel : Nat) : Returning file (readTreeNode file fuel) := by
  induction fuel with
  | zero =>
    intro object nodeAddress heapAddress heap result made ran
    cases ran
  | succ fuel ih =>
    intro object nodeAddress heapAddress heap result made ran
    have child : ∀ i, ReadsChild file nodeAddress i →
        ChildEnds file (heap.objects object).longName heapAddress (subNodeAddress file nodeAddress i) := by
      intro i reads
      simp only [readTreeNode] at ran
      rw [if_pos (Nat.lt_of_le_of_lt (Nat.zero_le i) reads.1)] at ran
      refine readSubNodes_returned ih ⟨made,rfl⟩ ran (children_get nodeAddress reads.1) fun k less earlier same => ?_
      rw [children_get nodeAddress (Nat.lt_trans less reads.1)] at same
      cases same
      exact reads.2 k less
    refine .intro (fun i k reads entry => ((child i reads).entries k entry).named) fun call step => ?_
    cases step with
    | node reads tree => exact (child _ reads).tree tree
    | group reads entry group named => exact ((child _ reads).entries _ entry).below group _ named

end Returned

section Total
variable {fuel : Nat}

def Total (visit : TreeVisit) (call : TreeCall) : Prop :=
  ∀ object heap, Keeps object call.path heap → ∃ result, visit object call.nodeAddress call.heapAddress heap = some result

structure EntryTotal (file : MatFile) (visit : TreeVisit) (path : Text) (heapAddress entry : Nat) : Prop where
  named : EntryNamed file path heapAddress entry
  below : cacheType file entry = 1 → ∀ name, entryName file heapAddress entry = some name →
    Total visit ⟨longNameUnder path name,subTreeAddress file entry,subHeapAddress file entry⟩

structure ChildTotal (file : MatFile) (visit : TreeVisit) (path : Text) (heapAddress address : Nat) : Prop where
  tree : file.shows address "TREE" = true → Total visit ⟨path,address,heapAddress⟩
  entries : ∀ k, ReadsEntry file address k → EntryTotal file visit path heapAddress (symbolEntry file address k)

theorem Total.extend (total : Total visit call) (defined_ : MoreDefined visit more) : Total more call := by
  intro object heap kept
  obtain ⟨result,ran⟩ := total object heap kept
  exact ⟨result,defined_ _ _ _ _ _ ran⟩

theorem ChildTotal.extend (total : ChildTotal file visit path heapAddress address) (defined_ : MoreDefined visit more) :
    ChildTotal file more path heapAddress address :=
  ⟨fun tree => (total.tree tree).extend defined_,fun k reads =>
    ⟨(total.entries k reads).named,fun group name named => ((total.entries k reads).below group name named).extend defined_⟩⟩

theorem readSymbols_total (kept : Keeps object path heap)
    (total : ∀ k < count, (∀ later < count, k < later → ¬LoudEntry file (symbolEntry file address later)) →
      EntryTotal file (readTreeNode file fuel) path heapAddress (symbolEntry file address k)) :
    ∃ result, readSymbols file (readTreeNode file fuel) object address heapAddress count heap = some result := by
  induction count generalizing heap with
  | zero => exact ⟨_,rfl⟩
  | succ count ih =>
    have last := total count (Nat.lt_succ_self count) fun later less more => absurd less (Nat.not_lt.mpr more)
    obtain ⟨name,named,short⟩ := last.named
    obtain ⟨subObject,middle,connected⟩ := connected_total (by rw [kept.2]; exact short)
      (file.address (symbolEntry file address count+file.sBlock.sizeOfOffsets))
    obtain ⟨rfl,fresh,_,_,new⟩ := connected_path connected
    obtain ⟨entered,_,_⟩ := keeps_connects object path _ _ _ _ _ _ kept kept.1 connected
    have rest : ¬LoudEntry file (symbolEntry file address count) → ∀ heap, Keeps object path heap →
        ∃ result, readSymbols file (readTreeNode file fuel) object address heapAddress count heap = some result := by
      intro passed heap still
      refine ih still fun k less quiet => total k (Nat.lt_succ_of_lt less) fun later below more => ?_
      rcases Nat.lt_succ_iff_lt_or_eq.mp below with before | rfl
      · exact quiet later before more
      · exact passed
    unfold entryName at named
    simp only [readSymbols,named,connected,Option.bind_eq_bind,Option.bind_some]
    split
    · rename_i group
      obtain ⟨⟨code,deep⟩,visited⟩ := last.below group name named heap.fresh (middle.register heap.fresh)
        ⟨by omega,by rw [new kept.1,kept.2]⟩
      simp only [subTreeAddress,subHeapAddress] at visited
      rw [visited,Option.bind_some]
      dsimp only
      split
      · exact ⟨_,rfl⟩
      · rename_i passed
        obtain ⟨still,_⟩ := readTreeNode_walks (keeps_connects object path) fuel _ _ _ _ _ _ entered (by omega) visited
        refine rest ?_ _ still
        rintro (link | ⟨_,loud⟩)
        · rw [cacheType,group] at link
          cases link
        · exact passed ((readTreeNode_loud visited).mpr loud)
    · rename_i noGroup
      split
      · exact ⟨_,rfl⟩
      · rename_i noLink
        refine rest ?_ _ entered
        rintro (link | ⟨group,_⟩)
        · exact noLink link
        · exact noGroup group

theorem readSnod_total (kept : Keeps object path heap)
    (total : ChildTotal file (readTreeNode file fuel) path heapAddress address) :
    ∃ result, readSnod file (readTreeNode file fuel) object address heapAddress heap = some result := by
  unfold readSnod
  split
  · rename_i tree
    obtain ⟨result,ran⟩ := total.tree tree object heap kept
    exact ⟨(0,result.2),Option.bind_eq_some_iff.mpr ⟨result,ran,rfl⟩⟩
  · rename_i symbols
    exact readSymbols_total kept fun k below quiet => total.entries k ⟨Bool.eq_false_iff.mpr symbols,below,quiet⟩

theorem readSubNodes_total {addresses : List Nat} (kept : Keeps object path heap)
    (total : ∀ (i : Nat) (address : Nat), addresses[i]? = some address →
      (∀ k < i, ∀ earlier, addresses[k]? = some earlier → ¬LoudChild file earlier) →
      ChildTotal file (readTreeNode file fuel) path heapAddress address) :
    ∃ result, readSubNodes file (readTreeNode file fuel) object heapAddress addresses heap = some result := by
  induction addresses generalizing heap with
  | nil => exact ⟨_,rfl⟩
  | cons first rest ih =>
    obtain ⟨⟨code,middle⟩,walked⟩ := readSnod_total kept
      (total 0 first rfl fun k less => absurd less (Nat.not_lt_zero k))
    simp only [readSubNodes,walked,Option.bind_eq_bind,Option.bind_some]
    split
    · exact ⟨_,rfl⟩
    · rename_i passed
      obtain ⟨still,_⟩ := readSnod_walks (keeps_connects object path) (readTreeNode_walks (keeps_connects object path) fuel)
        kept kept.1 walked
      refine ih still fun i address here quiet => total (i+1) address here fun k less earlier same => ?_
      cases k with
      | zero =>
        cases same
        exact fun loud => passed ((readSnod_loud walked).mpr loud)
      | succ k => exact quiet k (Nat.lt_of_succ_lt_succ less) earlier same

theorem ends_returns (ends : CallEnds file call) : ∃ fuel, Total (readTreeNode file fuel) call := by
  induction ends with
  | @intro call named _ ih =>
    obtain ⟨path,nodeAddress,heapAddress⟩ := call
    have each : ∀ i, ∃ fuel, ReadsChild file nodeAddress i →
        ChildTotal file (readTreeNode file fuel) path heapAddress (subNodeAddress file nodeAddress i) := by
      intro i
      by_cases reads : ReadsChild file nodeAddress i
      · cases signature : file.shows (subNodeAddress file nodeAddress i) "TREE" with
        | true =>
          obtain ⟨fuel,total⟩ := ih _ (.node reads signature)
          exact ⟨fuel,fun _ => ⟨fun _ => total,fun k entry => absurd signature (Bool.eq_false_iff.mp entry.1)⟩⟩
        | false =>
          have one : ∀ k, ∃ fuel, ReadsEntry file (subNodeAddress file nodeAddress i) k →
              EntryTotal file (readTreeNode file fuel) path heapAddress (symbolEntry file (subNodeAddress file nodeAddress i) k) := by
            intro k
            by_cases entry : ReadsEntry file (subNodeAddress file nodeAddress i) k
            · obtain ⟨name,here,short⟩ := named i k reads entry
              by_cases group : cacheType file (symbolEntry file (subNodeAddress file nodeAddress i) k) = 1
              · obtain ⟨fuel,total⟩ := ih _ (.group reads entry group here)
                refine ⟨fuel,fun _ => ⟨⟨name,here,short⟩,fun _ other same => ?_⟩⟩
                cases here.symm.trans same
                exact total
              · exact ⟨0,fun _ => ⟨⟨name,here,short⟩,fun other => absurd other group⟩⟩
            · exact ⟨0,fun other => absurd other entry⟩
          obtain ⟨fuel,entries⟩ := common_fuel
            (fun k fuel more enough holds entry =>
              ⟨(holds entry).named,fun group name here =>
                ((holds entry).below group name here).extend (readTreeNode_extends file enough)⟩)
            (file.number (subNodeAddress file nodeAddress i+6) 2) fun k _ => one k
          exact ⟨fuel,fun _ => ⟨fun tree => absurd tree (Bool.eq_false_iff.mp signature),fun k entry => entries k entry.2.1 entry⟩⟩
      · exact ⟨0,fun other => absurd other reads⟩
    obtain ⟨fuel,children⟩ := common_fuel
      (fun i fuel more enough holds reads => (holds reads).extend (readTreeNode_extends file enough))
      (file.number (nodeAddress+6) 2) fun i _ => each i
    refine ⟨fuel+1,fun object heap kept => ?_⟩
    simp only [readTreeNode]
    split
    · refine readSubNodes_total kept fun i address here quiet => ?_
      have inside : i < file.number (nodeAddress+6) 2 := by
        by_contra outside
        rw [List.getElem?_eq_none (by simpa using Nat.le_of_not_lt outside)] at here
        cases here
      rw [children_get nodeAddress inside] at here
      cases here
      exact children i inside ⟨inside,fun k less => quiet k less _ (children_get nodeAddress (Nat.lt_trans less inside))⟩
    · exact ⟨_,rfl⟩

end Total

theorem ends_nodes (ends : CallEnds file call) : Ends (TreeStep file) (fun _ => True) call.nodeAddress := by
  induction ends with
  | intro named _ ih =>
    refine .intro trivial fun address step => ?_
    cases step with
    | node reads tree => exact ih _ (.node reads tree)
    | group reads entry group =>
      obtain ⟨name,here,_⟩ := named _ _ reads entry
      exact ih _ (.group reads entry group here)

theorem nodes_ends (ends : Ends (TreeStep file) (fun _ => True) call.nodeAddress)
    (named : ∀ later, ReflTransGen (CallStep file) call later → EntriesNamed file later) : CallEnds file call := by
  generalize same : call.nodeAddress = address at ends
  induction ends generalizing call with
  | intro _ _ ih =>
    refine .intro (named call .refl) fun later step => ?_
    refine ih later.nodeAddress ?_ (fun deeper down => named deeper (.head step down)) rfl
    subst same
    cases step with
    | node reads tree => exact .node reads tree
    | group reads entry group _ => exact .group reads entry group

theorem treeStep_bounded (address child : Nat) (step : TreeStep file address child) : child < 2^addressBits := by
  cases step with
  | node _ _ => exact Nat.mod_lt _ (by decide)
  | group _ _ _ => exact Nat.mod_lt _ (by decide)

-- readTreeNode returns exactly if no node that it comes to is below itself and the
-- entries that it comes to can be named.
theorem readTreeNode_ends (made : object < heap.fresh) :
    (∃ fuel result, readTreeNode file fuel object nodeAddress heapAddress heap = some result) ↔
      ¬Cyclic (TreeStep file) nodeAddress ∧
        ∀ call, ReflTransGen (CallStep file) ⟨(heap.objects object).longName,nodeAddress,heapAddress⟩ call →
          EntriesNamed file call := by
  constructor
  · rintro ⟨fuel,result,ran⟩
    have ends := readTreeNode_returned fuel object nodeAddress heapAddress heap result made ran
    exact ⟨(ends_nodes ends).acyclic,fun call down => (ends.reach down).here⟩
  · rintro ⟨acyclic,named⟩
    have nodes : Ends (TreeStep file) (fun _ => True) nodeAddress :=
      (ends_exact (bounded_few treeStep_bounded nodeAddress)).mpr ⟨acyclic,fun _ _ => trivial⟩
    have calls : CallEnds file ⟨(heap.objects object).longName,nodeAddress,heapAddress⟩ := nodes_ends nodes named
    obtain ⟨fuel,total⟩ := ends_returns calls
    exact ⟨fuel,total object heap ⟨made,rfl⟩⟩

end Descent
end SkeletonDescent
end GetMatVar
