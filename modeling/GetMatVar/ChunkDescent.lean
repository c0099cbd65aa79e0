import GetMatVar.FillNode
import GetMatVar.Library.Descent

namespace GetMatVar
namespace ChunkDescent
open Descent PageObjects Relation

section Tree
variable (file : MatFile) (numChunkedDims : Nat)

def IsTreeNode (address : Nat) : Prop := address ≠ undefAddr ∧ file.shows address "TREE" = true

def IsChunkNode (address : Nat) : Prop := IsTreeNode file address ∧ nodeTypeOf (file.number (address+4) 1) = .chunk

def IsRawData (address : Nat) : Prop :=
  address ≠ undefAddr ∧ file.shows address "TREE" = false ∧ file.shows address "SNOD" = false

def chunkEntry (address i : Nat) : Nat :=
  address+8+2*file.sBlock.sizeOfOffsets+i*(keySize numChunkedDims+file.sBlock.sizeOfOffsets)

def chunkChild (address i : Nat) : Nat := file.address (chunkEntry file numChunkedDims address i+keySize numChunkedDims)

-- The nodes that fillNode fails at: a B-tree node of another type is no chunk node, and
-- the failure of a child is passed on.
inductive Refused : Nat → Prop where
  | kind : IsTreeNode file address → ¬IsChunkNode file address → Refused address
  | child : IsChunkNode file address → i < file.number (address+6) 2 → Refused (chunkChild file numChunkedDims address i) →
    Refused address

def ComesTo (address i : Nat) : Prop :=
  IsChunkNode file address ∧ i < file.number (address+6) 2 ∧ ∀ k < i, ¬Refused file numChunkedDims (chunkChild file numChunkedDims address k)

def ChunkStep (address child : Nat) : Prop :=
  ∃ i, ComesTo file numChunkedDims address i ∧ child = chunkChild file numChunkedDims address i

def ChunksOnPages (address : Nat) : Prop :=
  ∀ i, ComesTo file numChunkedDims address i → IsRawData file (chunkChild file numChunkedDims address i) →
    pageOf file.toFileLayout (chunkChild file numChunkedDims address i) < file.numPages

abbrev ChunkEnds : Nat → Prop := Ends (ChunkStep file numChunkedDims) (ChunksOnPages file numChunkedDims)

end Tree

section Descent
variable {file : MatFile} {numChunkedDims : Nat}

structure Returned (file : MatFile) (numChunkedDims address code : Nat) (nodeType : NodeType) : Prop where
  ends : ChunkEnds file numChunkedDims address
  refused : code ≠ 0 ↔ Refused file numChunkedDims address
  rawData : code = 0 → (nodeType = .rawData ↔ IsRawData file address)

def Returning (file : MatFile) (numChunkedDims : Nat) (visit : Nat → ChunkTables → Option (Nat × NodeType × ChunkTables)) : Prop :=
  ∀ address tables code nodeType after, visit address tables = some (code,nodeType,after) →
    Returned file numChunkedDims address code nodeType

theorem chunkEntry_next (address i : Nat) :
    chunkEntry file numChunkedDims address i+keySize numChunkedDims+file.sBlock.sizeOfOffsets =
      chunkEntry file numChunkedDims address (i+1) := by
  unfold chunkEntry
  rw [Nat.succ_mul i]
  omega

theorem Refused.tree (refused : Refused file numChunkedDims address) : IsTreeNode file address := by
  cases refused with
  | kind tree _ => exact tree
  | child node _ _ => exact node.1

theorem IsRawData.no_tree (raw : IsRawData file address) : ¬IsTreeNode file address := by
  rintro ⟨_,tree⟩
  rw [raw.2.1] at tree
  cases tree

theorem ends_leaf (leaf : ¬IsChunkNode file address) : ChunkEnds file numChunkedDims address :=
  .intro (fun _ comes _ => absurd comes.1 leaf) fun _ ⟨_,comes,_⟩ => absurd comes.1 leaf

theorem registerRecord_some (tables : ChunkTables) (dp : DataPair) :
    (∃ after, registerRecord file tables dp = some after) ↔ pageOf file.toFileLayout dp.address < file.numPages := by
  unfold registerRecord
  dsimp only
  split
  · exact ⟨fun _ => ‹_›,fun _ => ⟨_,rfl⟩⟩
  · exact ⟨fun ⟨_,none_⟩ => (by cases none_),fun inside => absurd inside ‹_›⟩

theorem fillEntries_returned {visit : Nat → ChunkTables → Option (Nat × NodeType × ChunkTables)}
    (returning : Returning file numChunkedDims visit)
    (ran : fillEntries file visit numChunkedDims left (chunkEntry file numChunkedDims address i) tables = some (code,after)) :
    (code ≠ 0 ↔ ∃ k < left, Refused file numChunkedDims (chunkChild file numChunkedDims address (i+k))) ∧
      ∀ k < left, (∀ m < k, ¬Refused file numChunkedDims (chunkChild file numChunkedDims address (i+m))) →
        ChunkEnds file numChunkedDims (chunkChild file numChunkedDims address (i+k)) ∧
        (IsRawData file (chunkChild file numChunkedDims address (i+k)) →
          pageOf file.toFileLayout (chunkChild file numChunkedDims address (i+k)) < file.numPages) := by
  induction left generalizing i tables with
  | zero =>
    cases ran
    simp
  | succ left ih =>
    obtain ⟨⟨entryCode,nodeType,visited⟩,visiting,rest⟩ := Option.bind_eq_some_iff.mp ran
    have here := returning _ _ _ _ _ visiting
    change Returned file numChunkedDims (chunkChild file numChunkedDims address i) entryCode nodeType at here
    dsimp only at rest
    split at rest
    · rename_i failed
      cases rest
      have bad : Refused file numChunkedDims (chunkChild file numChunkedDims address (i+0)) := here.refused.mp failed
      refine ⟨⟨fun _ => ⟨0,Nat.succ_pos left,bad⟩,fun _ => by decide⟩,fun k below clear => ?_⟩
      cases k with
      | zero =>
        -- A refused child is a B-tree node and no chunk.
        exact ⟨here.ends,fun raw => absurd bad.tree raw.no_tree⟩
      | succ k => exact absurd bad (clear 0 (Nat.succ_pos k))
    · rename_i passed
      have good : ¬Refused file numChunkedDims (chunkChild file numChunkedDims address i) := fun bad => passed (here.refused.mpr bad)
      have leaf := here.rawData (Decidable.not_not.mp passed)
      have walk : ∃ added, fillEntries file visit numChunkedDims left (chunkEntry file numChunkedDims address (i+1)) added =
            some (code,after) ∧ (nodeType = .rawData → registerRecord file visited (readRecord file
              (chunkEntry file numChunkedDims address i) (chunkChild file numChunkedDims address i) numChunkedDims) = some added) := by
        rw [chunkEntry_next] at rest
        by_cases raw : nodeType = .rawData
        · rw [if_pos raw] at rest
          obtain ⟨added,adding,walked⟩ := Option.bind_eq_some_iff.mp rest
          exact ⟨added,walked,fun _ => adding⟩
        · rw [if_neg raw] at rest
          exact ⟨visited,rest,fun other => absurd other raw⟩
      obtain ⟨added,walked,adding⟩ := walk
      obtain ⟨refused,below⟩ := ih walked
      refine ⟨?_,fun k less clear => ?_⟩
      · rw [refused]
        constructor
        · rintro ⟨k,less,bad⟩
          exact ⟨k+1,Nat.succ_lt_succ less,by rwa [← Nat.add_assoc,Nat.add_right_comm]⟩
        · rintro ⟨k,less,bad⟩
          cases k with
          | zero => exact absurd bad good
          | succ k => exact ⟨k,Nat.lt_of_succ_lt_succ less,by rwa [Nat.add_right_comm,Nat.add_assoc]⟩
      · cases k with
        | zero =>
          refine ⟨here.ends,fun raw => ?_⟩
          exact (registerRecord_some _ _).mp ⟨added,adding (leaf.mpr raw)⟩
        | succ k =>
          have same : i+(k+1) = i+1+k := by omega
          rw [same]
          exact below k (Nat.lt_of_succ_lt_succ less) fun m before => by
            rw [show i+1+m = i+(m+1) by omega]
            exact clear (m+1) (Nat.succ_lt_succ before)

theorem fillNode_returned (ordinary : nodeType ≠ .rawData)
    (ran : fillNode file numChunkedDims fuel nodeType address tables = some (code,left,after)) :
    Returned file numChunkedDims address code left := by
  induction fuel generalizing nodeType address tables code left after with
  | zero => cases ran
  | succ fuel ih =>
    simp only [fillNode] at ran
    split at ran
    · rename_i undefined
      cases ran
      have noTree : ¬IsTreeNode file address := fun tree => tree.1 undefined
      refine ⟨ends_leaf fun node => noTree node.1,⟨fun bad => absurd rfl bad,fun bad => absurd bad.tree noTree⟩,fun _ => ?_⟩
      exact ⟨fun same => absurd same ordinary,fun raw => absurd undefined raw.1⟩
    · rename_i defined_
      split at ran
      · rename_i noSignature
        cases ran
        have noTree : ¬IsTreeNode file address := fun tree => by rw [tree.2] at noSignature; cases noSignature
        refine ⟨ends_leaf fun node => noTree node.1,⟨fun bad => absurd rfl bad,fun bad => absurd bad.tree noTree⟩,fun _ => ?_⟩
        unfold IsRawData
        cases file.shows address "SNOD" <;> simp [defined_,noSignature]
      · rename_i signature
        have tree : IsTreeNode file address := ⟨defined_,by simpa using signature⟩
        split at ran
        · rename_i otherKind
          cases ran
          have noChunk : ¬IsChunkNode file address := fun node => otherKind node.2
          exact ⟨ends_leaf noChunk,⟨fun _ => .kind tree noChunk,fun _ => by decide⟩,fun none_ => by cases none_⟩
        · rename_i chunkKind
          have node : IsChunkNode file address := ⟨tree,Decidable.not_not.mp chunkKind⟩
          obtain ⟨⟨entriesCode,filled⟩,entries,same⟩ := Option.bind_eq_some_iff.mp ran
          cases same
          have start : chunkEntry file numChunkedDims address 0 = address+8+2*file.sBlock.sizeOfOffsets := by simp [chunkEntry]
          rw [← start] at entries
          obtain ⟨refused,below⟩ := fillEntries_returned
            (fun _ _ _ _ _ visited => ih (by decide) visited) entries
          simp only [Nat.zero_add] at refused below
          refine ⟨.intro ?_ ?_,?_,fun _ => ?_⟩
          · exact fun i comes raw => (below i comes.2.1 comes.2.2).2 raw
          · rintro child ⟨i,comes,rfl⟩
            exact (below i comes.2.1 comes.2.2).1
          · rw [refused]
            constructor
            · rintro ⟨k,less,bad⟩
              exact .child node less bad
            · intro bad
              cases bad with
              | kind _ other => exact absurd node other
              | child _ less bad => exact ⟨_,less,bad⟩
          · rw [node.2]
            exact ⟨fun other => (by cases other),fun raw => absurd tree raw.no_tree⟩

theorem fillEntries_total {visit : Nat → ChunkTables → Option (Nat × NodeType × ChunkTables)}
    (returning : Returning file numChunkedDims visit)
    (total : ∀ k < left, (∀ m < k, ¬Refused file numChunkedDims (chunkChild file numChunkedDims address (i+m))) →
      ∀ tables, ∃ result, visit (chunkChild file numChunkedDims address (i+k)) tables = some result)
    (placed : ∀ k < left, (∀ m < k, ¬Refused file numChunkedDims (chunkChild file numChunkedDims address (i+m))) →
      IsRawData file (chunkChild file numChunkedDims address (i+k)) →
      pageOf file.toFileLayout (chunkChild file numChunkedDims address (i+k)) < file.numPages) (tables : ChunkTables) :
    ∃ result, fillEntries file visit numChunkedDims left (chunkEntry file numChunkedDims address i) tables = some result := by
  induction left generalizing i tables with
  | zero => exact ⟨_,rfl⟩
  | succ left ih =>
    have first : ∀ m < 0, ¬Refused file numChunkedDims (chunkChild file numChunkedDims address (i+m)) :=
      fun m before => absurd before (Nat.not_lt_zero m)
    obtain ⟨⟨code,nodeType,visited⟩,visiting⟩ := total 0 (Nat.succ_pos left) first tables
    have here : Returned file numChunkedDims (chunkChild file numChunkedDims address i) code nodeType := returning _ _ _ _ _ visiting
    have entered : visit (file.address (chunkEntry file numChunkedDims address i+keySize numChunkedDims)) tables =
        some (code,nodeType,visited) := visiting
    simp only [fillEntries,entered,Option.bind_eq_bind,Option.bind_some]
    by_cases failed : code ≠ 0
    · rw [if_pos failed]
      exact ⟨_,rfl⟩
    · rw [if_neg failed]
      have good : ¬Refused file numChunkedDims (chunkChild file numChunkedDims address i) := fun bad => failed (here.refused.mpr bad)
      have leaf := here.rawData (Decidable.not_not.mp failed)
      have later : ∀ k, (∀ m < k, ¬Refused file numChunkedDims (chunkChild file numChunkedDims address (i+1+m))) →
          ∀ m < k+1, ¬Refused file numChunkedDims (chunkChild file numChunkedDims address (i+m)) := by
        intro k clear m before
        cases m with
        | zero => exact good
        | succ m =>
          rw [show i+(m+1) = i+1+m by omega]
          exact clear m (Nat.lt_of_succ_lt_succ before)
      have rest : ∀ tables, ∃ result, fillEntries file visit numChunkedDims left (chunkEntry file numChunkedDims address (i+1)) tables =
          some result := by
        refine ih (fun k less clear => ?_) (fun k less clear => ?_)
        · rw [show i+1+k = i+(k+1) by omega]
          exact total (k+1) (Nat.succ_lt_succ less) (later k clear)
        · rw [show i+1+k = i+(k+1) by omega]
          exact placed (k+1) (Nat.succ_lt_succ less) (later k clear)
      rw [chunkEntry_next]
      by_cases raw : nodeType = .rawData
      · obtain ⟨added,adding⟩ := (registerRecord_some visited (readRecord file (chunkEntry file numChunkedDims address i)
          (chunkChild file numChunkedDims address i) numChunkedDims)).mpr (placed 0 (Nat.succ_pos left) first (leaf.mp raw))
        rw [if_pos raw,show registerRecord file visited (readRecord file (chunkEntry file numChunkedDims address i)
          (file.address (chunkEntry file numChunkedDims address i+keySize numChunkedDims)) numChunkedDims) = some added from adding]
        exact rest added
      · rw [if_neg raw]
        exact rest visited

theorem ends_returns (ends : ChunkEnds file numChunkedDims address) : ∃ fuel, ∀ nodeType tables, ∃ result,
    fillNode file numChunkedDims fuel nodeType address tables = some result := by
  induction ends with
  | @intro address onPages _ ih =>
    by_cases node : IsChunkNode file address
    · have mono : ∀ i fuel more, fuel ≤ more →
          (ComesTo file numChunkedDims address i → ∀ nodeType tables, ∃ result,
            fillNode file numChunkedDims fuel nodeType (chunkChild file numChunkedDims address i) tables = some result) →
          (ComesTo file numChunkedDims address i → ∀ nodeType tables, ∃ result,
            fillNode file numChunkedDims more nodeType (chunkChild file numChunkedDims address i) tables = some result) := by
        intro i fuel more enough holds comes nodeType tables
        obtain ⟨result,ran⟩ := holds comes nodeType tables
        exact ⟨result,fillNode_mono enough ran⟩
      obtain ⟨fuel,all_⟩ := common_fuel mono (file.number (address+6) 2) fun i _ => by
        by_cases comes : ComesTo file numChunkedDims address i
        · obtain ⟨fuel,holds⟩ := ih _ ⟨i,comes,rfl⟩
          exact ⟨fuel,fun _ => holds⟩
        · exact ⟨0,fun other => absurd other comes⟩
      refine ⟨fuel+1,fun nodeType tables => ?_⟩
      have start : chunkEntry file numChunkedDims address 0 = address+8+2*file.sBlock.sizeOfOffsets := by simp [chunkEntry]
      have entries := @fillEntries_total file numChunkedDims (file.number (address+6) 2) address 0
        (fillNode file numChunkedDims fuel .undefined) (fun _ _ _ _ _ visited => fillNode_returned (by decide) visited)
        (fun k less clear tables => by
          simp only [Nat.zero_add] at clear ⊢
          exact all_ k less ⟨node,less,clear⟩ .undefined tables)
        (fun k less clear raw => by
          simp only [Nat.zero_add] at clear raw ⊢
          exact onPages k ⟨node,less,clear⟩ raw) tables
      obtain ⟨filled,ran⟩ := entries
      rw [start] at ran
      simp only [fillNode]
      rw [if_neg node.1.1,if_neg (by rw [node.1.2]; decide),if_neg (not_not.mpr node.2),ran]
      exact ⟨_,rfl⟩
    · refine ⟨1,fun nodeType tables => ?_⟩
      simp only [fillNode]
      by_cases undefined : address = undefAddr
      · rw [if_pos undefined]
        exact ⟨_,rfl⟩
      · rw [if_neg undefined]
        cases signature : file.shows address "TREE" with
        | false => exact ⟨_,rfl⟩
        | true =>
          have other : nodeTypeOf (file.number (address+4) 1) ≠ .chunk := fun kind => node ⟨⟨undefined,signature⟩,kind⟩
          rw [if_neg (by decide),if_pos other]
          exact ⟨_,rfl⟩

theorem chunkStep_bounded (address child : Nat) (step : ChunkStep file numChunkedDims address child) : child < 2^addressBits := by
  obtain ⟨i,_,rfl⟩ := step
  exact Nat.mod_lt _ (by decide)

-- fillNode returns exactly if no node that it comes to is below itself and the chunks
-- that it comes to are in the file.
theorem fillNode_ends (ordinary : nodeType ≠ .rawData) (address : Nat) (tables : ChunkTables) :
    (∃ fuel result, fillNode file numChunkedDims fuel nodeType address tables = some result) ↔
      ¬Cyclic (ChunkStep file numChunkedDims) address ∧
        ∀ node, ReflTransGen (ChunkStep file numChunkedDims) address node → ChunksOnPages file numChunkedDims node := by
  rw [← ends_exact (bounded_few chunkStep_bounded address)]
  constructor
  · rintro ⟨fuel,⟨code,left,after⟩,ran⟩
    exact (fillNode_returned ordinary ran).ends
  · intro ends
    obtain ⟨fuel,total⟩ := ends_returns ends
    exact ⟨fuel,total nodeType tables⟩

end Descent
end ChunkDescent
end GetMatVar
