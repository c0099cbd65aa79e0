import GetMatVar.ChunkDescent
import GetMatVar.FillSteps
import GetMatVar.ReferenceRuns
import GetMatVar.SkeletonDescent

namespace GetMatVar
namespace RecursiveWalks
open Descent FillWalks Relation

section Walks
variable {file : MatFile} {chunked : MetaData → Option (Nat × DataArrays)} {heap : Heap}

theorem fillAt_keeps (valid : heap.Valid) : FillKeeps (fillAt file chunked depth) (FillSteps.Grown heap) where
  valid _ grown := grown.valid
  again _ _ filled := by
    unfold fillAt fillObject
    rw [if_pos filled]
  step _ _ _ grown made ran := (FillSteps.fillAt_step valid grown made ran).1

theorem fillAt_clones (valid : heap.Valid) :
    FillDescent.Clones (fillAt file chunked depth) (FillSteps.Grown heap) heap.fresh where
  ascending _ grown := grown.ascending
  elements _ _ _ grown made ran := (FillSteps.fillAt_step valid grown made ran).2

abbrev TreeCalls (file : MatFile) (chunked : MetaData → Option (Nat × DataArrays)) (depth : Nat) : Call → Call → Prop :=
  SubCall (fillAt file chunked depth)

-- fillDataTree returns exactly if fillObject does for every object that it comes to,
-- with as many sub_objects as are counted, and no object is below itself.
theorem fillDataTree_ends (valid : heap.Valid) (made : object < heap.fresh) :
    (∃ fuel result, fillDataTree (fillAt file chunked depth) fuel heap object = some result) ↔
      ∀ call, ReflTransGen (TreeCalls file chunked depth) ⟨heap,object⟩ call →
        Proceeds (fillAt file chunked depth) call ∧
          ∀ sub, TransGen (TreeCalls file chunked depth) call sub → sub.object ≠ call.object := by
  have starts : FillSteps.Grown heap (Call.mk heap object).heap := .refl valid
  exact FillDescent.returns_exact (fillAt_keeps valid) (fillAt_clones valid) starts made (Nat.le_refl _)

end Walks

-- Where the three walks come to an end.
theorem walks_end (file : MatFile) (chunked : MetaData → Option (Nat × DataArrays)) (depth : Nat) (heap : Heap)
    (valid : heap.Valid) (object : Nat) (made : object < heap.fresh) (nodeAddress heapAddress numChunkedDims address : Nat)
    (tables : ChunkTables) :
    ((∃ fuel result, readTreeNode file fuel object nodeAddress heapAddress heap = some result) ↔
      ¬Cyclic (SkeletonDescent.TreeStep file) nodeAddress ∧
        ∀ call, ReflTransGen (SkeletonDescent.CallStep file) ⟨(heap.objects object).longName,nodeAddress,heapAddress⟩
          call → SkeletonDescent.EntriesNamed file call) ∧
    ((∃ fuel result, fillNode file numChunkedDims fuel .root address tables = some result) ↔
      ¬Cyclic (ChunkDescent.ChunkStep file numChunkedDims) address ∧
        ∀ node, ReflTransGen (ChunkDescent.ChunkStep file numChunkedDims) address node →
          ChunkDescent.ChunksOnPages file numChunkedDims node) ∧
    ((∃ fuel result, fillDataTree (fillAt file chunked depth) fuel heap object = some result) ↔
      ∀ call, ReflTransGen (TreeCalls file chunked depth) ⟨heap,object⟩ call →
        Proceeds (fillAt file chunked depth) call ∧
          ∀ sub, TransGen (TreeCalls file chunked depth) call sub → sub.object ≠ call.object) :=
  ⟨SkeletonDescent.readTreeNode_ends made,ChunkDescent.fillNode_ends (by decide) address tables,fillDataTree_ends valid made⟩

def noTables : ChunkTables := emptyTables fun _ => PageObjects.initializePageObject

-- The cell a with the struct x.
theorem walks_end_shared : ¬Cyclic (SkeletonDescent.TreeStep sharedFile) 0 ∧
    ¬Cyclic (ChunkDescent.ChunkStep sharedFile 2) 0 ∧
    ∀ call, ReflTransGen (TreeCalls sharedFile (fun _ => none) 3) ⟨sharedHeap,3⟩ call →
      ∀ sub, TransGen (TreeCalls sharedFile (fun _ => none) 3) call sub → sub.object ≠ call.object := by
  have untouched := makeObjectTreeSkeleton_untouched sharedHeap_made
  have made : 3 < sharedHeap.fresh := by decide +kernel
  have tree : (readTreeNode sharedFile 3 3 0 176 sharedHeap).isSome = true := by decide +kernel
  have chunks : (fillNode sharedFile 2 3 .root 0 noTables).isSome = true := by decide +kernel
  have filled : (fillDataTree (fillAt sharedFile (fun _ => none) 3) 3 sharedHeap 3).isSome = true := by decide +kernel
  obtain ⟨first,second,third⟩ := walks_end sharedFile (fun _ => none) 3 sharedHeap untouched.valid 3 made 0 176 2 0 noTables
  refine ⟨(first.mp ⟨3,Option.isSome_iff_exists.mp tree⟩).1,(second.mp ⟨3,Option.isSome_iff_exists.mp chunks⟩).1,
    fun call reached => (third.mp ⟨3,Option.isSome_iff_exists.mp filled⟩ call reached).2⟩

-- The cells a and b, each the only element of the other, and the struct x.
def mutualFile : MatFile := wordFile
  [0x0001000045455254,0,0,0,48,0,
   0x00030001444f4e53,8,312,0,0,0,16,456,0,0,0,24,240,0,0,0,
   0x50414548,32,0,208,0,97,98,120,
   0x10001,56,0x30000c,0x80008000d0001,0x635f42414c54414d,0x7373616c,0x600000013,1,0x746375727473,
   0x40001,128,0x30000c,0x80008000d0001,0x635f42414c54414d,0x7373616c,0x400000013,1,0x6c6c6563,
   0x80003,0x800000017,0x180001,0x201,1,1,0x100008,0x1c800080003,0,
   0x40001,128,0x30000c,0x80008000d0001,0x635f42414c54414d,0x7373616c,0x400000013,1,0x6c6c6563,
   0x80003,0x800000017,0x180001,0x201,1,1,0x100008,0x13800080003,0] ⟨8,8,40,0,0,176⟩

def mutualHeap : Heap := skeletonHeap mutualFile 3

-- Below a is b, and below b is a again.
theorem mutual_repeats : ∃ middle after, TreeCalls mutualFile (fun _ => none) 3 ⟨mutualHeap,3⟩ ⟨middle,2⟩ ∧
    TreeCalls mutualFile (fun _ => none) 3 ⟨middle,2⟩ ⟨after,3⟩ := by
  have filled : (fillAt mutualFile (fun _ => none) 3 mutualHeap 3).bind (fun first =>
      (fillAt mutualFile (fun _ => none) 3 first.2 2).map fun second => (first.1,first.2.children 3,
        (first.2.objects 3).numSubObjs,second.1,second.2.children 2,(second.2.objects 2).numSubObjs)) = some (0,[2],1,0,[3],1) := by decide +kernel
  obtain ⟨⟨code,middle⟩,first,rest⟩ := Option.bind_eq_some_iff.mp filled
  obtain ⟨⟨again,after⟩,second,same⟩ := Option.map_eq_some_iff.mp rest
  simp only [Prod.mk.injEq] at same
  obtain ⟨rfl,below,one,rfl,back,also_⟩ := same
  have none_ : ∀ objects heap, FillWalks.Walked (fillAt mutualFile (fun _ => none) 3) 0 objects heap heap :=
    fun _ _ => ⟨0,rfl⟩
  refine ⟨middle,after,.sub first (one ▸ Nat.one_pos) (none_ _ _) ?_,.sub second (also_ ▸ Nat.one_pos) (none_ _ _) ?_⟩
  · rw [below]
    rfl
  · rw [back]
    rfl

theorem mutual_endless : ¬ ∀ (file : MatFile) (chunked : MetaData → Option (Nat × DataArrays)) (depth : Nat) (heap : Heap),
    heap.Valid → ∀ object < heap.fresh, ∀ (nodeAddress heapAddress numChunkedDims address : Nat) (tables : ChunkTables),
    (∃ fuel result, readTreeNode file fuel object nodeAddress heapAddress heap = some result) ∧
    (∃ fuel result, fillNode file numChunkedDims fuel .root address tables = some result) ∧
    ∃ fuel result, fillDataTree (fillAt file chunked depth) fuel heap object = some result := by
  intro always
  have built : makeObjectTreeSkeleton mutualFile 3 startHeap = some (0,mutualHeap) := skeletonHeap_made (by decide +kernel)
  have valid := (makeObjectTreeSkeleton_untouched built).valid
  have made : 3 < mutualHeap.fresh := by decide +kernel
  have returns := (always mutualFile (fun _ => none) 3 mutualHeap valid 3 made 0 176 2 undefAddr noTables).2.2
  obtain ⟨middle,after,down,up⟩ := mutual_repeats
  exact ((fillDataTree_ends valid made).mp returns _ .refl).2 ⟨after,3⟩ (.tail (.single down) up) rfl

end RecursiveWalks
end GetMatVar
