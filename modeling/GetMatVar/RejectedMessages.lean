import GetMatVar.FillVariable
import GetMatVar.InterpretMessages
import GetMatVar.References
import GetMatVar.SkeletonHeap

namespace GetMatVar

section Readers
variable {file : MatFile}

theorem rejected_bind {taken : Option (Nat × MetaData)} (bad : ∀ after, taken ≠ some (0,after))
    (rest : Nat × MetaData → Option (Nat × Nat × MetaData)) :
    taken.bind (fun read => if read.1 ≠ 0 then some (numMsgs,read) else rest read) = taken.map fun read => (numMsgs,read) := by
  cases taken with
  | none => rfl
  | some read =>
    have failed : read.1 ≠ 0 := fun zero => bad read.2 (by rw [← zero])
    rw [Option.bind_some,if_pos failed]
    rfl

theorem stopped_bind {result : Option (Nat × Nat × MetaData)} (bad : ∀ last after, result ≠ some (last,0,after))
    (ends : ∀ last errFlag after, result = some (last,errFlag,after) → errFlag ≠ 0 → last = numMsgs)
    (rest : Nat × Nat × MetaData → Option (Nat × Nat × MetaData)) :
    result.bind (fun nested => if nested.2.1 ≠ 0 then some (numMsgs,nested.2) else rest nested) = result := by
  cases result with
  | none => rfl
  | some returned =>
    obtain ⟨last,errFlag,after⟩ := returned
    have failed : errFlag ≠ 0 := fun zero => bad last after (by rw [zero])
    rw [Option.bind_some,if_pos failed,ends last errFlag after rfl failed]

theorem interprets_runs (run : Interprets file numMsgs depth block messageNum tracker object log result)
    (count : numMsgs < 65536) (start : messageNum ≤ numMsgs) (enough : numMsgs ≤ messageNum+left) :
    interpretMessages file numMsgs left block.start block.length messageNum block.bytesRead tracker object = result := by
  induction run generalizing left with
  | done past =>
    cases left with
    | zero => rfl
    | succ left => rw [interpretMessages,if_neg past]
  | rejected goes here took bad =>
    obtain ⟨left,rfl⟩ : ∃ less, left = less+1 := ⟨left-1,by omega⟩
    rw [interpretMessages_turn goes here,← took]
    exact rejected_bind bad _
  | message goes here plain took _ ih =>
    obtain ⟨left,rfl⟩ : ∃ less, left = less+1 := ⟨left-1,by omega⟩
    rw [interpretMessages_turn goes here,took,Option.bind_some,if_neg (not_not.mpr rfl),if_neg plain]
    exact ih goes.1 (by omega)
  | stopped goes here continuation took inside bad ih =>
    obtain ⟨left,rfl⟩ : ∃ less, left = less+1 := ⟨left-1,by omega⟩
    have nested := @ih left goes.1 (by omega)
    rw [show (file.continuedAt _).bytesRead = 0 from rfl] at nested
    rw [interpretMessages_turn goes here,took,Option.bind_some,if_neg (not_not.mpr rfl),if_pos continuation]
    dsimp only
    rw [nested]
    refine stopped_bind bad (fun last errFlag after same failed => ?_) _
    rw [same] at inside
    exact stopped_num inside failed
  | continued goes here continuation took inside _ nested ih =>
    obtain ⟨left,rfl⟩ : ∃ less, left = less+1 := ⟨left-1,by omega⟩
    obtain ⟨final,same,low,high⟩ := returned_num inside count goes.1
    have below := @nested left goes.1 (by omega)
    rw [show (file.continuedAt _).bytesRead = 0 from rfl] at below
    rw [interpretMessages_turn goes here,took,Option.bind_some,if_neg (not_not.mpr rfl),if_pos continuation]
    dsimp only
    rw [below,Option.bind_some,if_neg (not_not.mpr rfl)]
    exact ih (by omega) (by omega)

-- Somewhere in a header and the blocks that continue it a message is given to its
-- reader, and the reader sets err_flag; fields are what is left of the object.
inductive Rejects (file : MatFile) (numMsgs : Nat) : Block → Nat → RepeatTracker → MetaData → MetaData → Prop where
  | reader (goes : messageNum < numMsgs ∧ block.bytesRead < block.length) (here : address = block.start+block.bytesRead)
      (took : takeMessage file tracker (file.typeAt address) (address+msgSubHeaderSize) object = some (errFlag,fields))
      (bad : errFlag ≠ 0) : Rejects file numMsgs block messageNum tracker object fields
  | message (goes : messageNum < numMsgs ∧ block.bytesRead < block.length) (here : address = block.start+block.bytesRead)
      (plain : file.typeAt address ≠ .continuation)
      (took : takeMessage file tracker (file.typeAt address) (address+msgSubHeaderSize) object = some (0,middle))
      (rest : Rejects file numMsgs {block with bytesRead:=(block.bytesRead+file.sizeAt address+msgSubHeaderSize)%2^32}
        (messageNum+1) (tracker.mark (file.typeAt address)) middle fields) :
      Rejects file numMsgs block messageNum tracker object fields
  | nested (goes : messageNum < numMsgs ∧ block.bytesRead < block.length) (here : address = block.start+block.bytesRead)
      (continuation : file.typeAt address = .continuation)
      (took : takeMessage file tracker (file.typeAt address) (address+msgSubHeaderSize) object = some (0,middle))
      (inside : Rejects file numMsgs (file.continuedAt address) (messageNum+1) tracker middle fields) :
      Rejects file numMsgs block messageNum tracker object fields
  | continued (goes : messageNum < numMsgs ∧ block.bytesRead < block.length) (here : address = block.start+block.bytesRead)
      (continuation : file.typeAt address = .continuation)
      (took : takeMessage file tracker (file.typeAt address) (address+msgSubHeaderSize) object = some (0,middle))
      (inside : ∀ depth, ∃ log,
        Interprets file numMsgs depth (file.continuedAt address) (messageNum+1) tracker middle log (some (last,0,deeper)))
      (rest : Rejects file numMsgs {block with bytesRead:=(block.bytesRead+file.sizeAt address+msgSubHeaderSize)%2^32}
        (last+1) tracker deeper fields) : Rejects file numMsgs block messageNum tracker object fields

theorem Rejects.ends (rejects : Rejects file numMsgs block messageNum tracker object fields) (depth : Nat) :
    ∃ errFlag log, errFlag ≠ 0 ∧
      Interprets file numMsgs depth block messageNum tracker object log (some (numMsgs,errFlag,fields)) := by
  induction rejects generalizing depth with
  | reader goes here took bad =>
    refine ⟨_,_,bad,.rejected goes here took.symm fun after same => ?_⟩
    cases same
    exact bad rfl
  | message goes here plain took _ ih =>
    obtain ⟨errFlag,log,bad,run⟩ := ih depth
    exact ⟨errFlag,_,bad,.message goes here plain took run⟩
  | nested goes here continuation took _ ih =>
    obtain ⟨errFlag,log,bad,run⟩ := ih (depth+1)
    refine ⟨errFlag,_,bad,.stopped goes here continuation took run fun last after same => ?_⟩
    cases same
    exact bad rfl
  | continued goes here continuation took inside _ ih =>
    obtain ⟨nested,below⟩ := inside (depth+1)
    obtain ⟨errFlag,log,bad,run⟩ := ih depth
    exact ⟨errFlag,_,bad,.continued goes here continuation took below run⟩

-- A header whose messages are rejected, by the object that fillObject reads it for.
def HeaderRejected (file : MatFile) (thisObjAddress : Nat) (object fields : MetaData) : Prop :=
  Rejects file (file.number (thisObjAddress+2) 2) ⟨thisObjAddress+16,file.number (thisObjAddress+8) 4,0⟩ 0 freshTracker
    object fields

theorem collectMetaData_rejected (rejected : HeaderRejected file thisObjAddress object fields) (super : MetaData) :
    collectMetaData file super (thisObjAddress+16) (file.number (thisObjAddress+2) 2) (file.number (thisObjAddress+8) 4)
      object = some (1,fields,super) := by
  obtain ⟨errFlag,log,bad,run⟩ := rejected.ends 0
  have count : file.number (thisObjAddress+2) 2 < 65536 := littleEndian_bound file.bytes (thisObjAddress+2) 2
  have ran := @interprets_runs file _ _ _ _ _ _ _ _ (file.number (thisObjAddress+2) 2) run count (Nat.zero_le _) (by omega)
  unfold collectMetaData
  simp only at ran
  rw [show RepeatTracker.mk false false false false = freshTracker from rfl,ran]
  simp only [Option.bind_eq_bind,Option.bind_some,if_pos bad]

end Readers

section Refused
variable {file : MatFile} {chunked : MetaData → Option (Nat × DataArrays)}

def Oversized (fields : MetaData) : Prop :=
  (storageOf fields.matlabInternalType = .elements ∨ storageOf fields.matlabInternalType = .cells) ∧
    maxElemSize < fields.elemSize

-- A reference of a dataset leads to no object, once the ones before it are resolved.
def Dangling (file : MatFile) (clone : Heap → Nat → Option (Nat × Heap)) (heap : Heap) (object count i : Nat) : Prop :=
  ∃ k < count, ∃ offset middle, resolveReferences file clone object k i heap = some (0,middle) ∧
    StoredOffset (middle.objects object).toMetaData (i+k) offset ∧
    findObjectByHeaderAddress middle ((offset+file.sBlock.baseAddress)%2^addressBits) = none

-- What a rejected message leaves of an object is refused behind it: the type of its
-- elements, its layout or one of its references is not a known one.
def Refused (file : MatFile) (chunked : MetaData → Option (Nat × DataArrays)) (fuel : Nat) (heap : Heap)
    (superObject object thisObjAddress : Nat) (fields : MetaData) : Prop :=
  fields.matlabEmpty = false ∧
    (storageOf fields.matlabInternalType = .unknown ∨ Oversized fields ∨
      ∃ allocated, allocateSpace fields = some (0,allocated) ∧
        (3 < fields.layoutClass ∨ fields.layoutClass = 2 ∧ (∃ code arrays, chunked allocated = some (code,arrays) ∧ code ≠ 0) ∨
          ∃ fetched, fetchData file chunked allocated = some (0,fetched) ∧ Refers fetched ∧
            Dangling file (cloneData fuel)
              (emptied (opened heap superObject object thisObjAddress (heap.objects superObject).toMetaData fetched) object fetched)
              object fetched.numElems.toNat 0))

theorem resolveReference_fails (clone : Heap → Nat → Option (Nat × Heap)) :
    (∃ code after, code ≠ 0 ∧ resolveReference file clone object i offset heap = some (code,after)) ↔
      findObjectByHeaderAddress heap ((offset+file.sBlock.baseAddress)%2^addressBits) = none := by
  unfold resolveReference
  cases findObjectByHeaderAddress heap ((offset+file.sBlock.baseAddress)%2^addressBits) with
  | none => exact ⟨fun _ => rfl,fun _ => ⟨1,heap,by decide,rfl⟩⟩
  | some ref =>
    refine ⟨fun fails => ?_,fun never => by cases never⟩
    obtain ⟨code,after,bad,ran⟩ := fails
    obtain ⟨_,_,rest⟩ := Option.bind_eq_some_iff.mp ran
    obtain ⟨_,_,same⟩ := Option.bind_eq_some_iff.mp rest
    cases same
    exact absurd rfl bad

theorem resolveReferences_fails (clone : Heap → Nat → Option (Nat × Heap)) :
    (∃ code after, code ≠ 0 ∧ resolveReferences file clone object count i heap = some (code,after)) ↔
      Dangling file clone heap object count i := by
  induction count generalizing i heap with
  | zero =>
    constructor
    · rintro ⟨code,after,bad,ran⟩
      cases ran
      exact absurd rfl bad
    · rintro ⟨k,few,_⟩
      omega
  | succ count ih =>
    constructor
    · rintro ⟨code,after,bad,ran⟩
      rw [resolveReferences] at ran
      obtain ⟨offsets,stored,rest⟩ := Option.bind_eq_some_iff.mp ran
      obtain ⟨written,at_,rest⟩ := Option.bind_eq_some_iff.mp rest
      obtain ⟨offset,read,rest⟩ := Option.bind_eq_some_iff.mp rest
      obtain ⟨⟨one,middle⟩,resolving,later⟩ := Option.bind_eq_some_iff.mp rest
      have here : StoredOffset (heap.objects object).toMetaData i offset := ⟨offsets,stored,by rw [at_,read]⟩
      dsimp only at later
      split at later
      · rename_i failed
        exact ⟨0,Nat.succ_pos _,offset,heap,rfl,here,(resolveReference_fails clone).mp ⟨one,middle,failed,resolving⟩⟩
      · rename_i zero
        obtain rfl : one = 0 := Decidable.not_not.mp zero
        obtain ⟨k,few,offset',found,ran',stored',none_⟩ := ih.mp ⟨code,after,bad,later⟩
        refine ⟨k+1,Nat.succ_lt_succ few,offset',found,?_,by rw [show i+(k+1) = i+1+k by omega]; exact stored',none_⟩
        rw [resolveReferences]
        simp only [stored,at_,read,resolving,Option.bind_eq_bind,Option.bind_some]
        exact ran'
    · rintro ⟨k,few,offset,found,ran,stored,none_⟩
      cases k with
      | zero =>
        cases ran
        have failing : ∃ code after, code ≠ 0 ∧ resolveReference file clone object i offset heap = some (code,after) :=
          (resolveReference_fails clone).mpr none_
        obtain ⟨code,after,bad,fails⟩ := failing
        obtain ⟨offsets,stored,at_⟩ := stored
        refine ⟨1,after,by decide,?_⟩
        rw [resolveReferences]
        simp only [stored,show offsets[i]? = some (some offset) from at_,fails,Option.bind_eq_bind,Option.bind_some,if_pos bad]
      | succ k =>
        obtain ⟨offsets,first,middle,stored',at_,resolving,later⟩ := resolveReferences_parts ran
        obtain ⟨code,after,bad,fails⟩ := (@ih (i+1) middle).mpr ⟨k,Nat.lt_of_succ_lt_succ few,offset,found,later,
          by rw [show i+1+k = i+(k+1) by omega]; exact stored,none_⟩
        refine ⟨code,after,bad,?_⟩
        rw [resolveReferences]
        simp only [stored',at_,resolving,Option.bind_eq_bind,Option.bind_some]
        exact fails

theorem readObject_rejected (rejected : HeaderRejected file thisObjAddress object fields) (super : MetaData) :
    readObject file chunked super thisObjAddress object =
      if fields.matlabEmpty then some (some 0,fields,super)
      else if fields.hdf5InternalType = .unknown ∧ fields.matlabInternalType = .unknownClass then some (some 1,fields,super)
      else (allocateSpace fields).bind fun allocated =>
        if allocated.1 ≠ 0 then some (some 1,allocated.2,super)
        else (fetchData file chunked allocated.2).bind fun fetched =>
          if fetched.1 ≠ 0 then some (some 1,fetched.2,super) else some (none,fetched.2,super) := by
  unfold readObject
  simp only [collectMetaData_rejected rejected super,Option.bind_eq_bind,Option.bind_some]

theorem sized_refuses {room : Option Nat} {fill : Nat → MetaData} :
    (∃ code left, code ≠ 0 ∧ (if fields.elemSize > maxElemSize then some (1,fields)
      else room.bind fun size => some (0,fill size)) = some (code,left)) ↔ maxElemSize < fields.elemSize := by
  by_cases big : fields.elemSize > maxElemSize
  · rw [if_pos big]
    exact ⟨fun _ => big,fun _ => ⟨1,fields,by decide,rfl⟩⟩
  · rw [if_neg big]
    refine ⟨fun fails => ?_,fun large => absurd large big⟩
    obtain ⟨code,left,bad,ran⟩ := fails
    obtain ⟨_,_,same⟩ := Option.bind_eq_some_iff.mp ran
    cases same
    exact absurd rfl bad

theorem allocateSpace_refuses : (∃ code left, code ≠ 0 ∧ allocateSpace fields = some (code,left)) ↔
    storageOf fields.matlabInternalType = .unknown ∨ Oversized fields := by
  unfold allocateSpace Oversized
  cases storageOf fields.matlabInternalType with
  | unknown => exact ⟨fun _ => .inl rfl,fun _ => ⟨1,fields,by decide,rfl⟩⟩
  | elements =>
    refine sized_refuses.trans ?_
    simp
  | cells =>
    refine sized_refuses.trans ?_
    simp
  | group => simp
  | nothing => simp

theorem allocateSpace_layout (ran : allocateSpace fields = some (code,allocated)) :
    allocated.layoutClass = fields.layoutClass := by
  unfold allocateSpace at ran
  split at ran
  · split at ran
    · cases ran
      rfl
    · obtain ⟨_,_,same⟩ := Option.bind_eq_some_iff.mp ran
      cases same
      rfl
  · split at ran
    · cases ran
      rfl
    · obtain ⟨_,_,same⟩ := Option.bind_eq_some_iff.mp ran
      cases same
      rfl
  · cases ran
    rfl
  · cases ran
    rfl
  · cases ran
    rfl

theorem fetchData_refuses : (∃ code left, code ≠ 0 ∧ fetchData file chunked object = some (code,left)) ↔
    3 < object.layoutClass ∨ object.layoutClass = 2 ∧ ∃ code arrays, chunked object = some (code,arrays) ∧ code ≠ 0 := by
  have placed : ¬∃ code left, code ≠ 0 ∧ (placeWhole file object).map ((0,·)) = some (code,left) := by
    rintro ⟨code,left,bad,ran⟩
    obtain ⟨_,_,same⟩ := Option.map_eq_some_iff.mp ran
    cases same
    exact bad rfl
  unfold fetchData
  match layout : object.layoutClass with
  | 0 => exact ⟨fun fails => absurd fails placed,fun either => by omega⟩
  | 1 => exact ⟨fun fails => absurd fails placed,fun either => by omega⟩
  | 2 =>
    refine ⟨fun fails => ?_,fun either => ?_⟩
    · obtain ⟨code,left,bad,ran⟩ := fails
      obtain ⟨⟨returned,arrays⟩,read,same⟩ := Option.bind_eq_some_iff.mp ran
      refine .inr ⟨rfl,returned,arrays,read,fun zero => ?_⟩
      rw [zero] at same
      cases same
      exact bad rfl
    · obtain ⟨_,code,arrays,read,bad⟩ := either.resolve_left (by decide)
      refine ⟨1,{object with
        data:=arrays.data,subObjectHeaderOffsets:=arrays.subObjectHeaderOffsets,layoutClass:=2},by decide,?_⟩
      simp only [read,Option.bind_eq_bind,Option.bind_some,if_pos bad]
  | 3 =>
    refine ⟨fun fails => ?_,fun either => by omega⟩
    obtain ⟨code,left,bad,ran⟩ := fails
    cases ran
    exact absurd rfl bad
  | layoutClass+4 => exact ⟨fun _ => .inl (by omega),fun _ => ⟨1,object,by decide,rfl⟩⟩

-- A rejected header fails the fill if and only if what it leaves is refused.
theorem fillObject_rejected (unfilled : (heap.objects object).isFilled = false) (mapped : thisObjAddress ≠ undefAddr)
    (owned : (heap.objects object).superObject = some superObject)
    (rejected : HeaderRejected file thisObjAddress (heap.objects object).toMetaData fields) :
    (∃ code after, code ≠ 0 ∧ fillObject file chunked fuel heap object thisObjAddress = some (code,after)) ↔
      Refused file chunked fuel heap superObject object thisObjAddress fields := by
  have read := @readObject_rejected file chunked thisObjAddress (heap.objects object).toMetaData fields rejected
    (heap.objects superObject).toMetaData
  constructor
  · rintro ⟨code,after,bad,ran⟩
    obtain ⟨superObject',returned,filled,superFields,filling⟩ := (fillObject_exact unfilled).mp ran
    obtain rfl := Option.some.inj (owned.symm.trans filling.owned)
    have ended := filling.ended
    have same := read.symm.trans filling.read
    clear read filling ran
    split at same
    · cases same
      exact absurd ended.1 bad
    · rename_i full
      refine ⟨Bool.eq_false_iff.mpr full,?_⟩
      split at same
      · rename_i unknown
        rw [unknown.2]
        exact .inl rfl
      · obtain ⟨⟨allocCode,allocated⟩,allocating,same⟩ := Option.bind_eq_some_iff.mp same
        dsimp only at same
        split at same
        · rename_i failed
          have refuses := allocateSpace_refuses.mp ⟨allocCode,allocated,failed,allocating⟩
          rcases refuses with unknown | large
          · exact .inl unknown
          · exact .inr (.inl large)
        · rename_i zero
          obtain rfl : allocCode = 0 := Decidable.not_not.mp zero
          refine .inr (.inr ⟨allocated,allocating,?_⟩)
          have layout := allocateSpace_layout allocating
          obtain ⟨⟨fetchCode,fetched⟩,fetching,same⟩ := Option.bind_eq_some_iff.mp same
          dsimp only at same
          split at same
          · rename_i failed
            have refuses := fetchData_refuses.mp ⟨fetchCode,fetched,failed,fetching⟩
            rw [layout] at refuses
            rcases refuses with large | chunk
            · exact .inl large
            · exact .inr (.inl chunk)
          · rename_i zero
            obtain rfl : fetchCode = 0 := Decidable.not_not.mp zero
            cases same
            unfold EndsWith at ended
            by_cases refers : Refers filled
            · rw [if_pos refers] at ended
              exact .inr (.inr ⟨filled,fetching,refers,(resolveReferences_fails _).mp ⟨code,after,bad,ended⟩⟩)
            · rw [if_neg refers] at ended
              exact absurd ended.1 bad
  · rintro ⟨full,cases_⟩
    have empty : ¬fields.matlabEmpty = true := Bool.eq_false_iff.mp full
    rw [if_neg empty] at read
    have early (left : MetaData) (stops : readObject file chunked (heap.objects superObject).toMetaData thisObjAddress
        (heap.objects object).toMetaData = some (some 1,left,(heap.objects superObject).toMetaData)) :
        ∃ code after, code ≠ 0 ∧ fillObject file chunked fuel heap object thisObjAddress = some (code,after) :=
      ⟨1,_,by decide,(fillObject_exact unfilled).mpr ⟨superObject,some 1,left,_,mapped,owned,stops,rfl,rfl⟩⟩
    by_cases unknown : fields.hdf5InternalType = .unknown ∧ fields.matlabInternalType = .unknownClass
    · rw [if_pos unknown] at read
      exact early _ read
    rw [if_neg unknown] at read
    have refusing : (∃ code left, code ≠ 0 ∧ allocateSpace fields = some (code,left)) →
        ∃ code after, code ≠ 0 ∧ fillObject file chunked fuel heap object thisObjAddress = some (code,after) := by
      rintro ⟨code,left,bad,allocating⟩
      rw [allocating,Option.bind_some,if_pos bad] at read
      exact early _ read
    rcases cases_ with type | large | ⟨allocated,allocating,later⟩
    · exact refusing (allocateSpace_refuses.mpr (.inl type))
    · exact refusing (allocateSpace_refuses.mpr (.inr large))
    rw [allocating,Option.bind_some,if_neg (not_not.mpr rfl)] at read
    have layout := allocateSpace_layout allocating
    have unread : (3 < allocated.layoutClass ∨ allocated.layoutClass = 2 ∧
          ∃ code arrays, chunked allocated = some (code,arrays) ∧ code ≠ 0) →
        ∃ code after, code ≠ 0 ∧ fillObject file chunked fuel heap object thisObjAddress = some (code,after) := by
      intro refuses
      obtain ⟨code,left,bad,fetching⟩ := fetchData_refuses.mpr refuses
      dsimp only at read
      rw [fetching,Option.bind_some,if_pos bad] at read
      exact early _ read
    rw [layout] at unread
    rcases later with large | chunk | ⟨fetched,fetching,refers,dangling⟩
    · exact unread (.inl large)
    · exact unread (.inr chunk)
    · dsimp only at read
      rw [fetching,Option.bind_some,if_neg (not_not.mpr rfl)] at read
      obtain ⟨code,after,bad,ran⟩ := (resolveReferences_fails _).mpr dangling
      refine ⟨code,after,bad,(fillObject_exact unfilled).mpr ⟨superObject,none,fetched,_,mapped,owned,read,?_⟩⟩
      unfold EndsWith
      rw [if_pos refers]
      exact ran

end Refused

section Calls
variable {fill : Heap → Nat → Option (Nat × Heap)}

-- The calls of fillObject that fillDataTree makes: for the object itself, and below
-- its sub_objects once the trees of those before are filled.
inductive TreeCall (fill : Heap → Nat → Option (Nat × Heap)) : Nat → Heap → Nat → Heap → Nat → Prop where
  | own : TreeCall fill (fuel+1) heap object heap object
  | subTree (first : fill heap object = some (0,middle)) (few : k < (middle.objects object).numSubObjs)
      (done : fillSubTrees (fillDataTree fill fuel) k (middle.children object) middle = some (0,before))
      (sub : (middle.children object)[k]? = some obj) (inside : TreeCall fill fuel before obj called target) :
      TreeCall fill (fuel+1) heap object called target

theorem fillSubTrees_fails {tree : Heap → Nat → Option (Nat × Heap)} (few : k < count)
    (done : fillSubTrees tree k objects heap = some (0,before)) (sub : objects[k]? = some obj)
    (failed : ∃ code after, code ≠ 0 ∧ tree before obj = some (code,after)) :
    ∃ after, fillSubTrees tree count objects heap = some (1,after) := by
  obtain ⟨count,rfl⟩ : ∃ less, count = less+1 := ⟨count-1,by omega⟩
  induction k generalizing objects heap count with
  | zero =>
    cases done
    cases objects with
    | nil => cases sub
    | cons first rest =>
      cases sub
      obtain ⟨code,after,bad,ran⟩ := failed
      refine ⟨after,?_⟩
      unfold fillSubTrees
      simp only [ran,Option.bind_eq_bind,Option.bind_some,if_pos bad]
  | succ k ih =>
    cases objects with
    | nil => cases sub
    | cons first rest =>
      obtain ⟨⟨code,middle⟩,ran,later⟩ := Option.bind_eq_some_iff.mp done
      dsimp only at later
      split at later
      · cases later
      · rename_i zero
        obtain ⟨count,rfl⟩ : ∃ less, count = less+1 := ⟨count-1,by omega⟩
        obtain ⟨after,fails⟩ := ih later sub count (by omega)
        refine ⟨after,?_⟩
        rw [fillSubTrees]
        simp only [ran,Option.bind_eq_bind,Option.bind_some,if_neg zero]
        exact fails

theorem TreeCall.fails (call : TreeCall fill fuel heap object called target)
    (failed : ∃ code after, code ≠ 0 ∧ fill called target = some (code,after)) :
    ∃ code after, code ≠ 0 ∧ fillDataTree fill fuel heap object = some (code,after) := by
  induction call with
  | own =>
    obtain ⟨code,after,bad,ran⟩ := failed
    refine ⟨1,after,by decide,?_⟩
    unfold fillDataTree
    simp only [ran,Option.bind_eq_bind,Option.bind_some,if_pos bad]
  | subTree first few done sub _ ih =>
    obtain ⟨after,ran⟩ := fillSubTrees_fails few done sub (ih failed)
    refine ⟨1,after,by decide,?_⟩
    unfold fillDataTree
    simp only [first,Option.bind_eq_bind,Option.bind_some,ne_eq,not_true,if_false]
    exact ran

-- Those of one round of the loop over the tokens.
inductive TokenCall (fill : Heap → Nat → Option (Nat × Heap)) (heap : Heap) (object : Nat) (token : VariableNameToken)
    (rest : List VariableNameToken) : Heap → Nat → Prop where
  | name (type : token.variableNameType = .localName)
      (found : findSubObjectByShortName heap object token.variableLocalName = some sub) :
      TokenCall fill heap object token rest heap sub
  | element (type : token.variableNameType ≠ .localName) : TokenCall fill heap object token rest heap object
  | field (type : token.variableNameType ≠ .localName) (first : fill heap object = some (0,middle))
      (struct : (middle.objects object).matlabInternalType = .structClass) (next : rest = name::tokens)
      (found : findSubObjectByShortName middle object name.variableLocalName = some sub) :
      TokenCall fill heap object token rest middle sub

theorem TokenCall.fails (call : TokenCall fill heap object token rest called target)
    (failed : ∃ code after, code ≠ 0 ∧ fill called target = some (code,after)) :
    ∃ left tokens after, selectToken fill heap object token rest = some (1,left,tokens,after) := by
  obtain ⟨code,after,bad,ran⟩ := failed
  cases call with
  | name type found =>
    refine ⟨target,rest,after,?_⟩
    unfold selectToken
    simp only [type,found,ran,Option.bind_eq_bind,Option.bind_some,if_pos bad]
  | element type =>
    refine ⟨object,rest,after,?_⟩
    unfold selectToken
    cases index : token.variableNameType with
    | localName => exact absurd index type
    | localIndex _ => simp only [ran,Option.bind_eq_bind,Option.bind_some,if_pos bad]
    | localCoordinates _ => simp only [ran,Option.bind_eq_bind,Option.bind_some,if_pos bad]
  | @field _ name tokens _ type first struct next found =>
    refine ⟨target,tokens,after,?_⟩
    subst next
    unfold selectToken
    cases index : token.variableNameType with
    | localName => exact absurd index type
    | localIndex _ =>
      simp only [first,struct,found,ran,Option.bind_eq_bind,Option.bind_some,ne_eq,not_true,if_false,if_true,if_pos bad]
    | localCoordinates _ =>
      simp only [first,struct,found,ran,Option.bind_eq_bind,Option.bind_some,ne_eq,not_true,if_false,if_true,if_pos bad]

inductive ObjectCall (fill : Heap → Nat → Option (Nat × Heap)) : Nat → Heap → Nat → List VariableNameToken → Heap → Nat → Prop where
  | token (here : TokenCall fill heap object token rest called target) :
      ObjectCall fill (fuel+1) heap object (token::rest) called target
  | later (selected : selectToken fill heap object token rest = some (0,sub,tokens,middle))
      (inside : ObjectCall fill fuel middle sub tokens called target) :
      ObjectCall fill (fuel+1) heap object (token::rest) called target

theorem ObjectCall.fails (call : ObjectCall fill fuel heap object tokens called target)
    (failed : ∃ code after, code ≠ 0 ∧ fill called target = some (code,after)) :
    ∃ left after, selectObject fill fuel heap object tokens = some (1,left,after) := by
  induction call with
  | token here =>
    obtain ⟨left,tokens,after,ran⟩ := here.fails failed
    refine ⟨left,after,?_⟩
    unfold selectObject
    simp only [ran,Option.bind_eq_bind,Option.bind_some]
    rfl
  | later selected _ ih =>
    obtain ⟨left,after,ran⟩ := ih failed
    refine ⟨left,after,?_⟩
    unfold selectObject
    simp only [selected,Option.bind_eq_bind,Option.bind_some]
    exact ran

def NextVariable (heap : Heap) (obj : Nat) (left : Heap) : Prop :=
  ∃ queue, dequeue (heap.objects virtualSuperObject).subObjects = (some obj,queue) ∧
    left = heap.update virtualSuperObject fun data => {data with subObjects:=queue}

-- Those of the loop over all variables, which leaves out the ones that begin with #.
inductive NamesCall (fill : Heap → Nat → Option (Nat × Heap)) (fuel : Nat) : Nat → Session → Heap → Nat → Prop where
  | tree (next : NextVariable s.heap obj heap) (named : (heap.objects obj).shortName.head? ≠ some hash)
      (inside : TreeCall fill fuel heap obj called target) : NamesCall fill fuel (left+1) s called target
  | skipped (next : NextVariable s.heap obj heap) (unnamed : (heap.objects obj).shortName.head? = some hash)
      (later : NamesCall fill fuel left {s with heap:=heap} called target) : NamesCall fill fuel (left+1) s called target
  | filled (next : NextVariable s.heap obj heap) (named : (heap.objects obj).shortName.head? ≠ some hash)
      (done : fillDataTree fill fuel heap obj = some (0,middle))
      (later : NamesCall fill fuel left {s with heap:=middle,topLevelObjects:=enqueue s.topLevelObjects obj} called target) :
      NamesCall fill fuel (left+1) s called target

theorem NamesCall.fails (call : NamesCall fill fuel left s called target)
    (failed : ∃ code after, code ≠ 0 ∧ fill called target = some (code,after)) :
    ∃ after, fillVariableNames fill fuel left s = some (1,after) := by
  induction call with
  | tree next named inside =>
    obtain ⟨queue,first,rfl⟩ := next
    obtain ⟨code,after,bad,ran⟩ := inside.fails failed
    rw [fillVariableNames]
    simp only [first,Option.bind_eq_bind,Option.bind_some,if_neg named,ran,if_pos bad]
    exact ⟨_,rfl⟩
  | skipped next unnamed _ ih =>
    obtain ⟨queue,first,rfl⟩ := next
    obtain ⟨after,ran⟩ := ih failed
    rw [fillVariableNames]
    simp only [first,Option.bind_eq_bind,Option.bind_some,if_pos unnamed]
    exact ⟨after,ran⟩
  | filled next named done _ ih =>
    obtain ⟨queue,first,rfl⟩ := next
    obtain ⟨after,ran⟩ := ih failed
    rw [fillVariableNames]
    simp only [first,Option.bind_eq_bind,Option.bind_some,if_neg named,done,ne_eq,not_true,if_false]
    exact ⟨after,ran⟩

-- The calls of fillObject that fillVariable makes.
inductive VariableCall (fill : Heap → Nat → Option (Nat × Heap)) (fuel : Nat) (variableName : Text) (s : Session) :
    Heap → Nat → Prop where
  | everything (open_ : s.isDone = false) (all : variableName = [])
      (inside : NamesCall fill fuel (s.heap.objects virtualSuperObject).numSubObjs {s with isGettingEverything:=true}
        called target) : VariableCall fill fuel variableName s called target
  | selecting (open_ : s.isDone = false) (one : variableName ≠ []) (read : makeVarnameQueue variableName = some tokens)
      (some_ : tokens ≠ []) (inside : ObjectCall fill tokens.length s.heap virtualSuperObject tokens called target) :
      VariableCall fill fuel variableName s called target
  | selected (open_ : s.isDone = false) (one : variableName ≠ []) (read : makeVarnameQueue variableName = some tokens)
      (some_ : tokens ≠ [])
      (selected : selectObject fill tokens.length s.heap virtualSuperObject tokens = some (0,object,heap))
      (inside : TreeCall fill fuel heap object called target) : VariableCall fill fuel variableName s called target

theorem VariableCall.fails {clone : Heap → Nat → Option (Nat × Heap)}
    (call : VariableCall fill fuel variableName s called target)
    (failed : ∃ code after, code ≠ 0 ∧ fill called target = some (code,after)) :
    ∃ after, fillVariable fill clone fuel variableName s = some (1,after) := by
  cases call with
  | everything open_ all inside =>
    obtain ⟨after,ran⟩ := inside.fails failed
    refine ⟨after,?_⟩
    unfold fillVariable
    rw [if_neg (by rw [open_]; decide),if_pos all]
    simp only [ran,Option.bind_eq_bind,Option.bind_some]
    rfl
  | selecting open_ one read some_ inside =>
    obtain ⟨object,after,ran⟩ := inside.fails failed
    refine ⟨{s with isGettingEverything:=false,heap:=after},?_⟩
    unfold fillVariable
    rw [if_neg (by rw [open_]; decide),if_neg one]
    simp only [read,Option.bind_eq_bind,Option.bind_some,if_neg some_,ran]
    rfl
  | selected open_ one read some_ selected inside =>
    obtain ⟨code,after,bad,ran⟩ := inside.fails failed
    refine ⟨{s with isGettingEverything:=false,heap:=after},?_⟩
    unfold fillVariable
    rw [if_neg (by rw [open_]; decide),if_neg one]
    simp only [read,Option.bind_eq_bind,Option.bind_some,if_neg some_,selected,ne_eq,not_true,if_false,ran]
    rw [if_pos bad]

end Calls

-- An object that fillObject reads the header of, one of whose messages is rejected.
structure RejectedCall (file : MatFile) (heap : Heap) (object superObject : Nat) (fields : MetaData) : Prop where
  unfilled : (heap.objects object).isFilled = false
  mapped : (heap.objects object).thisObjAddress ≠ undefAddr
  owned : (heap.objects object).superObject = some superObject
  rejected : HeaderRejected file (heap.objects object).thisObjAddress (heap.objects object).toMetaData fields

-- A rejected message makes fillObject fail, and every fillDataTree and fillVariable
-- that calls it, if and only if what it leaves of the object is refused.
theorem rejected_fails (file : MatFile) (chunked : MetaData → Option (Nat × DataArrays)) (fuel : Nat) (heap : Heap)
    (object superObject : Nat) (fields : MetaData) (call : RejectedCall file heap object superObject fields) :
    ((∃ code after, code ≠ 0 ∧ fillAt file chunked fuel heap object = some (code,after)) ∧
      (∀ depth first top, TreeCall (fillAt file chunked fuel) depth first top heap object →
        ∃ code after, code ≠ 0 ∧ fillDataTree (fillAt file chunked fuel) depth first top = some (code,after)) ∧
      ∀ clone depth variableName s, VariableCall (fillAt file chunked fuel) depth variableName s heap object →
        ∃ code after, code ≠ 0 ∧ fillVariable (fillAt file chunked fuel) clone depth variableName s = some (code,after)) ↔
      Refused file chunked fuel heap superObject object (heap.objects object).thisObjAddress fields := by
  have fails : (∃ code after, code ≠ 0 ∧ fillAt file chunked fuel heap object = some (code,after)) ↔
      Refused file chunked fuel heap superObject object (heap.objects object).thisObjAddress fields :=
    fillObject_rejected call.unfilled call.mapped call.owned call.rejected
  constructor
  · rintro ⟨failed,_,_⟩
    exact fails.mp failed
  · intro refused
    have failed := fails.mpr refused
    refine ⟨failed,fun depth first top inside => inside.fails failed,fun clone depth variableName s inside => ?_⟩
    obtain ⟨after,ran⟩ := @VariableCall.fails _ _ _ _ _ _ clone inside failed
    exact ⟨1,after,by decide,ran⟩

-- Two variables with a layout message of version 2, which is rejected: x, before
-- which the header has a MATLAB_class attribute, double, and y.
def layoutFile : MatFile := wordFile
  [0x0001000045455254,0,0,0,48,0,
   0x00020001444f4e53,8,192,0,0,0,16,280,0,0,0,
   0x50414548,32,0,168,0,120,121,
   0x20001,72,0x30000c,0x80008000d0001,0x635f42414c54414d,0x7373616c,0x600000013,1,0x656c62756f64,0x80008,0x102,
   0x10001,16,0x80008,0x102] ⟨8,8,40,0,0,136⟩

def layoutHeap : Heap := skeletonHeap layoutFile 3

theorem layoutHeap_made : makeObjectTreeSkeleton layoutFile 3 startHeap = some (0,layoutHeap) :=
  skeletonHeap_made (by decide +kernel)

theorem layoutHeap_call (either : object = 1 ∨ object = 2)
    (rejects : Rejects layoutFile (layoutFile.number ((layoutHeap.objects object).thisObjAddress+2) 2)
      ⟨(layoutHeap.objects object).thisObjAddress+16,layoutFile.number ((layoutHeap.objects object).thisObjAddress+8) 4,0⟩ 0
      freshTracker initializeObject.toMetaData fields) :
    RejectedCall layoutFile layoutHeap object virtualSuperObject fields := by
  have untouched := makeObjectTreeSkeleton_untouched layoutHeap_made
  refine ⟨untouched.unfilled object,?_,?_,?_⟩
  · rcases either with rfl | rfl <;> decide +kernel
  · have listed : object ∈ layoutHeap.children virtualSuperObject := by
      rcases either with rfl | rfl <;> decide +kernel
    exact untouched.linked virtualSuperObject untouched.valid.root object listed
  · unfold HeaderRejected
    rw [untouched.unread]
    exact rejects

-- fillDataTree on y, of which nothing is known when its layout is rejected.
theorem rejected_fails_y : ∃ code after, code ≠ 0 ∧
    fillDataTree (fillAt layoutFile (fun _ => none) 1) 1 layoutHeap 1 = some (code,after) := by
  have address : (layoutHeap.objects 1).thisObjAddress = 280 := by decide +kernel
  have call : RejectedCall layoutFile layoutHeap 1 virtualSuperObject initializeObject.toMetaData := by
    refine layoutHeap_call (.inl rfl) ?_
    rw [address]
    exact .reader (by decide +kernel) rfl (show takeMessage layoutFile _ _ _ _ = some (1,_) by decide +kernel) (by decide)
  have all := (rejected_fails layoutFile (fun _ => none) 1 layoutHeap 1 virtualSuperObject _ call).mpr ⟨rfl,.inl rfl⟩
  exact all.2.1 1 layoutHeap 1 .own

-- x is taken for a double without elements.
theorem rejected_passes : ¬ ∀ (file : MatFile) (chunked : MetaData → Option (Nat × DataArrays)) (fuel : Nat) (heap : Heap)
    (object superObject : Nat) (fields : MetaData), (∃ depth, makeObjectTreeSkeleton file depth startHeap = some (0,heap)) →
    RejectedCall file heap object superObject fields →
    ∃ code after, code ≠ 0 ∧ fillAt file chunked fuel heap object = some (code,after) := by
  intro always
  have address : (layoutHeap.objects 2).thisObjAddress = 192 := by decide +kernel
  have call : RejectedCall layoutFile layoutHeap 2 virtualSuperObject {initializeObject.toMetaData with
      matlabClass:=some (textOf "double"),matlabInternalType:=.doubleClass} := by
    refine layoutHeap_call (.inr rfl) ?_
    rw [address]
    refine .message (by decide +kernel) rfl (by decide +kernel) (show takeMessage layoutFile _ _ _ _ =
      some (0,{initializeObject.toMetaData with
        matlabClass:=some (textOf "double"),matlabInternalType:=.doubleClass}) by decide +kernel) ?_
    exact .reader (by decide +kernel) rfl (show takeMessage layoutFile _ _ _ _ = some (1,_) by decide +kernel) (by decide)
  obtain ⟨code,after,bad,ran⟩ := always layoutFile (fun _ => none) 1 layoutHeap 2 virtualSuperObject _ ⟨3,layoutHeap_made⟩ call
  have filled : (fillAt layoutFile (fun _ => none) 1 layoutHeap 2).map (·.1) = some 0 := by decide +kernel
  rw [ran] at filled
  exact bad (Option.some.inj filled)

end GetMatVar
