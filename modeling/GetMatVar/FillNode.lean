import GetMatVar.NumberHelper
import GetMatVar.PageObjects
import GetMatVar.Mtezq

namespace GetMatVar
open PageObjects

inductive NodeType where
  | group
  | chunk
  | undefined
  | root
  | rawData
  | symbol
  | other (value : Nat)
deriving DecidableEq,Repr

def nodeTypeOf : Nat → NodeType
  | 0 => .group
  | 1 => .chunk
  | 2 => .undefined
  | 3 => .root
  | 4 => .rawData
  | 5 => .symbol
  | value => .other value

-- page_objects and data_page_buckets while the chunk tree of one dataset is read.
structure ChunkTables where
  pages : Nat → PageObject
  buckets : Nat → Queue DataPair

def emptyTables (pages : Nat → PageObject) : ChunkTables := ⟨pages,fun _ => initQueue⟩

section Model
variable (file : MatFile)

-- The end of the loop body of fillNode. An address behind the last page indexes
-- the tables out of bounds.
def registerRecord (tables : ChunkTables) (dp : DataPair) : Option ChunkTables :=
  let page := pageOf file.toFileLayout dp.address
  if page < file.numPages then
    some ⟨Function.update tables.pages page (countMapping file.toFileLayout (tables.pages page) dp),
      Function.update tables.buckets page (enqueue (tables.buckets page) dp)⟩
  else none

def registerAll (tables : ChunkTables) (records : List DataPair) : Option ChunkTables :=
  records.foldlM (registerRecord file) tables

-- chunk_start is stored in the file with the slowest dimension first.
def readRecord (keyPointer address numChunkedDims : Nat) : DataPair where
  address := address
  chunkSize := file.number keyPointer 4
  chunkStart := (List.range numChunkedDims).map
    (fun k => toIndex (file.number (keyPointer+8+(numChunkedDims-1-k)*8) 8))++[0]

def keySize (numChunkedDims : Nat) : Nat := 4+4+(numChunkedDims+1)*8

-- The loop over the entries of one node; visit is fillNode on a sub_node. The
-- first component of a result is the return code.
def fillEntries (visit : Nat → ChunkTables → Option (Nat × NodeType × ChunkTables)) (numChunkedDims : Nat) :
    Nat → Nat → ChunkTables → Option (Nat × ChunkTables)
  | 0,_,tables => some (0,tables)
  | left+1,keyPointer,tables => do
    let address := file.address (keyPointer+keySize numChunkedDims)
    let (code,nodeType,tables) ← visit address tables
    if code ≠ 0 then some (1,tables)
    else
      let tables ← if nodeType = .rawData then registerRecord file tables (readRecord file keyPointer address numChunkedDims)
        else some tables
      fillEntries visit numChunkedDims left (keyPointer+keySize numChunkedDims+file.sBlock.sizeOfOffsets) tables

-- The code, the node_type that is left in the node, and the tables. A file can
-- send the recursion down without end; fuel bounds its depth.
def fillNode (numChunkedDims : Nat) : Nat → NodeType → Nat → ChunkTables → Option (Nat × NodeType × ChunkTables)
  | 0,_,_,_ => none
  | fuel+1,nodeType,address,tables =>
    if address = undefAddr then some (0,nodeType,tables)
    else if file.shows address "TREE" = false then
      some (0,if file.shows address "SNOD" then .symbol else .rawData,tables)
    else
      let nodeType := nodeTypeOf (file.number (address+4) 1)
      if nodeType ≠ .chunk then some (1,nodeType,tables)
      else do
        let entriesUsed := file.number (address+6) 2
        let (code,tables) ← fillEntries file (fillNode numChunkedDims fuel .undefined) numChunkedDims entriesUsed
          (address+8+2*file.sBlock.sizeOfOffsets) tables
        some (code,nodeType,tables)

end Model

section Registered
variable {file : MatFile} {tables : ChunkTables}

theorem registerAll_append (earlier later : List DataPair) :
    registerAll file tables (earlier++later) = (registerAll file tables earlier).bind (registerAll file · later) := by
  simp only [registerAll,List.foldlM_append]
  rfl

theorem fillEntries_mono {visit more : Nat → ChunkTables → Option (Nat × NodeType × ChunkTables)}
    (same : ∀ address tables result, visit address tables = some result → more address tables = some result)
    (ran : fillEntries file visit numChunkedDims left keyPointer tables = some result) :
    fillEntries file more numChunkedDims left keyPointer tables = some result := by
  induction left generalizing keyPointer tables with
  | zero => exact ran
  | succ left ih =>
    obtain ⟨⟨code,nodeType,visited⟩,visiting,rest⟩ := Option.bind_eq_some_iff.mp ran
    simp only [fillEntries,same _ _ _ visiting,Option.bind_eq_bind,Option.bind_some]
    simp only at rest
    split at rest
    · rename_i bad
      rw [if_pos bad]; exact rest
    · rename_i good
      rw [if_neg good]
      by_cases leaf : nodeType = .rawData
      · rw [if_pos leaf] at rest ⊢
        obtain ⟨added,adding,tail⟩ := Option.bind_eq_some_iff.mp rest
        exact Option.bind_eq_some_iff.mpr ⟨added,adding,ih tail⟩
      · rw [if_neg leaf] at rest ⊢
        exact ih rest

theorem fillNode_mono (more : fuel ≤ later) (ran : fillNode file numChunkedDims fuel nodeType address tables = some result) :
    fillNode file numChunkedDims later nodeType address tables = some result := by
  induction fuel generalizing later nodeType address tables result with
  | zero => cases ran
  | succ fuel ih =>
    obtain ⟨later,rfl⟩ : ∃ less, later = less+1 := ⟨later-1,by omega⟩
    simp only [fillNode] at ran ⊢
    split at ran
    · rw [if_pos ‹_›]; exact ran
    · rw [if_neg ‹_›]
      split at ran
      · rw [if_pos ‹_›]; exact ran
      · rw [if_neg ‹_›]
        split at ran
        · rw [if_pos ‹_›]; exact ran
        · rw [if_neg ‹_›]
          obtain ⟨filled,entries,rest⟩ := Option.bind_eq_some_iff.mp ran
          exact Option.bind_eq_some_iff.mpr
            ⟨filled,fillEntries_mono (fun _ _ _ visiting => ih (by omega) visiting) entries,rest⟩

theorem fillNode_unique (first : fillNode file numChunkedDims fuel nodeType address tables = some result)
    (second : fillNode file numChunkedDims later nodeType address tables = some other) : result = other := by
  have left := fillNode_mono (Nat.le_max_left fuel later) first
  have right := fillNode_mono (Nat.le_max_right fuel later) second
  exact Option.some.inj (left.symm.trans right)

theorem registerAll_buckets (ran : registerAll file tables records = some after)
    (tight : ∀ page, (tables.buckets page).Tight) : (∀ page, (after.buckets page).Tight) ∧
    (∀ page, (after.buckets page).live = (tables.buckets page).live++
      records.filter (fun dp => pageOf file.toFileLayout dp.address == page)) ∧
    ∀ dp ∈ records, pageOf file.toFileLayout dp.address < file.numPages := by
  induction records generalizing tables with
  | nil => cases ran; exact ⟨tight,by simp,by simp⟩
  | cons dp rest ih =>
    obtain ⟨added,adding,more⟩ := Option.bind_eq_some_iff.mp ran
    simp only [registerRecord] at adding
    split at adding
    · rename_i inside
      cases adding
      have kept : ∀ page, (Function.update tables.buckets (pageOf file.toFileLayout dp.address)
          (enqueue (tables.buckets (pageOf file.toFileLayout dp.address)) dp) page).Tight ∧
          (Function.update tables.buckets (pageOf file.toFileLayout dp.address)
            (enqueue (tables.buckets (pageOf file.toFileLayout dp.address)) dp) page).live =
            (tables.buckets page).live++(if pageOf file.toFileLayout dp.address = page then [dp] else []) := by
        intro page
        by_cases same : pageOf file.toFileLayout dp.address = page
        · subst same
          rw [Function.update_self,if_pos rfl]
          exact ⟨NodeList.enqueue_tight (tight _) dp,NodeList.enqueue_live (tight _) dp⟩
        · rw [Function.update_of_ne (Ne.symm same),if_neg same,List.append_nil]
          exact ⟨tight page,rfl⟩
      obtain ⟨tightAfter,order,pages⟩ := ih more fun page => (kept page).1
      refine ⟨tightAfter,fun page => ?_,fun row member => ?_⟩
      · rw [order page,(kept page).2,List.append_assoc]
        by_cases same : pageOf file.toFileLayout dp.address = page <;> simp [same]
      · rcases List.mem_cons.mp member with rfl | later
        · exact inside
        · exact pages row later
    · cases adding

theorem buckets_below (page : DataPair → Nat) (records : List DataPair) (pages : Nat) :
    ((List.range pages).flatMap fun i => records.filter (fun dp => page dp == i)).Perm
      (records.filter fun dp => decide (page dp < pages)) := by
  induction pages with
  | zero => simp
  | succ pages ih =>
    rw [List.range_succ,List.flatMap_append]
    have below : (records.filter fun dp => decide (page dp < pages+1)).filter (fun dp => decide (page dp < pages)) =
        records.filter fun dp => decide (page dp < pages) := by
      rw [List.filter_filter]
      refine List.filter_congr fun dp _ => ?_
      rw [Bool.eq_iff_iff]
      simp only [Bool.and_eq_true,decide_eq_true_eq]
      omega
    have here : (records.filter fun dp => decide (page dp < pages+1)).filter (fun dp => !decide (page dp < pages)) =
        records.filter fun dp => page dp == pages := by
      rw [List.filter_filter]
      refine List.filter_congr fun dp _ => ?_
      rw [Bool.eq_iff_iff]
      simp only [Bool.and_eq_true,Bool.not_eq_true',decide_eq_true_eq,decide_eq_false_iff_not,beq_iff_eq]
      omega
    have split := List.filter_append_perm (fun dp => decide (page dp < pages)) (records.filter fun dp => decide (page dp < pages+1))
    rw [below,here] at split
    refine (List.Perm.append_right _ ih).trans ?_
    rw [List.flatMap_singleton]
    exact split

theorem merged_exact (ran : registerAll file (emptyTables pages) records = some after) :
    ∃ merged restored, mtMergeQueue mtInitQueue after.buckets file.numPages = some (merged,restored) ∧
      merged.Tight ∧ merged.live.Perm records := by
  obtain ⟨tight,order,inside⟩ := registerAll_buckets ran fun _ => NodeList.init_tight
  obtain ⟨merged,restored,merging,kept,live,_⟩ :=
    merge_exact mtInitQueue after.buckets NodeList.init_tight tight file.numPages
  refine ⟨merged,restored,merging,kept,?_⟩
  have all_ : (records.filter fun dp => decide (pageOf file.toFileLayout dp.address < file.numPages)) = records :=
    List.filter_eq_self.mpr fun dp member => decide_eq_true (inside dp member)
  have sorted := buckets_below (fun dp => pageOf file.toFileLayout dp.address) records file.numPages
  rw [all_] at sorted
  have blank : (mtInitQueue : MTQueue DataPair).live = [] := rfl
  rw [live,blank,List.nil_append]
  have each : ∀ page, (after.buckets page).live = records.filter fun dp => pageOf file.toFileLayout dp.address == page := by
    intro page
    rw [order page]
    rfl
  simpa only [each] using sorted

end Registered
end GetMatVar
