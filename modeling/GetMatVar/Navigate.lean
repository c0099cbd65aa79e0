import GetMatVar.Ezq
import GetMatVar.System
import GetMatVar.Library.Runs
import Mathlib.Algebra.Group.Nat.Defs
import Mathlib.Data.List.Nodup
import Mathlib.Logic.Function.Basic

namespace GetMatVar.Navigate

def defaultMaxNumMapObjs : Nat := 10

structure MapObject where
  mapStart : Nat
  mapSize : Nat
  mapStartPtr : Option Nat
  -- address_ptr - map_start_ptr
  addressOffset : Nat
  numUsing : Nat
  isMapped : Bool
deriving DecidableEq,Repr

-- Heap of map objects, the queue of pointers to them, and the mappings the
-- kernel holds. Every navigation that maps allocates one object and one
-- mapping, so both get the same fresh name.
structure NavState where
  objects : Nat → Option MapObject
  mapObjects : Queue Nat
  mmaps : Nat → Option (Nat × Nat)
  fresh : Nat

def NavState.start : NavState := ⟨fun _ => none,initQueue,fun _ => none,0⟩

def MapObject.offers (obj : MapObject) (address bytesNeeded : Nat) : Bool :=
  decide (obj.mapStart ≤ address) && decide (address+bytesNeeded-1 ≤ obj.mapStart+obj.mapSize-1) && obj.isMapped

def searchWindow (objects : Nat → Option MapObject) (address bytesNeeded : Nat) :
    Nat → Queue Nat → Option (Option Nat × Queue Nat)
  | 0,queue => some (none,queue)
  | bound+1,queue =>
    match traverseQueue queue with
    | (none,queue) => some (none,queue)
    | (some ptr,queue) => do
      let obj ← objects ptr
      if obj.offers address bytesNeeded then some (some ptr,queue)
      else searchWindow objects address bytesNeeded bound queue

def reuse (s : NavState) (ptr address : Nat) : Option NavState := do
  let obj ← s.objects ptr
  some {s with objects:=Function.update s.objects ptr (some
    {obj with numUsing:=(obj.numUsing+1)%2^32,addressOffset:=address-obj.mapStart})}

def mapNew (file : FileLayout) (s : NavState) (address bytesNeeded : Nat) : NavState :=
  let mapStart := address-address%file.allocGran
  let mapBytesNeeded := min (address%file.allocGran+bytesNeeded) (file.fileSize-mapStart)
  {s with
    objects := Function.update s.objects s.fresh (some ⟨mapStart,mapBytesNeeded,some s.fresh,address%file.allocGran,1,true⟩)
    mmaps := Function.update s.mmaps s.fresh (some (mapStart,mapBytesNeeded))
    mapObjects := enqueue s.mapObjects s.fresh
    fresh := s.fresh+1}

def munmapObject (s : NavState) (obj : MapObject) : NavState :=
  match obj.mapStartPtr with
  | none => s
  | some mapping => {s with mmaps:=Function.update s.mmaps mapping none}

def MapObject.cleared (obj : MapObject) : MapObject :=
  {obj with mapStart:=0,mapSize:=0,mapStartPtr:=none,addressOffset:=0,isMapped:=false}

-- Unmaps an object that has left the window, unless someone still holds it.
def retire (s : NavState) (ptr : Nat) (obj : MapObject) : NavState :=
  if obj.numUsing = 0 ∧ obj.isMapped = true then
    {munmapObject s obj with objects:=Function.update s.objects ptr (some obj.cleared)}
  else s

-- A NULL result of dequeue is dereferenced at once, so it ends the call.
def evict (s : NavState) : Option NavState := do
  let ptr ← (dequeue s.mapObjects).1
  let obj ← s.objects ptr
  some (retire {s with mapObjects:=(dequeue s.mapObjects).2} ptr obj)

def freeMapObject (s : NavState) (ptr : Nat) : Option NavState := do
  let obj ← s.objects ptr
  if obj.isMapped then some {munmapObject s obj with objects:=Function.update s.objects ptr none}
  else some {s with objects:=Function.update s.objects ptr none}

def sweep : Nat → NavState → Option NavState
  | 0,s => some s
  | count+1,s =>
    match peekTraverse s.mapObjects with
    | none => some s
    | some ptr => do
      let obj ← s.objects ptr
      if obj.numUsing = 0 then
        let (removed,queue) ← removeAtTraverseNode s.mapObjects
        let s ← freeMapObject {s with mapObjects:=queue} (← removed)
        sweep count s
      else sweep count {s with mapObjects:=(traverseQueue s.mapObjects).2}

def trim (s : NavState) : Option NavState :=
  if s.mapObjects.length > defaultMaxNumMapObjs then do
    let s ← evict s
    -- clean up the queue if there are too many nodes
    if s.mapObjects.absLength > 4*defaultMaxNumMapObjs then
      sweep s.mapObjects.absLength {s with mapObjects:=initAbsTraversal s.mapObjects}
    else some s
  else some s

def stNavigateTo (file : FileLayout) (s : NavState) (address bytesNeeded : Nat) : Option (Nat × NavState) := do
  let (found,queue) ← searchWindow s.objects address bytesNeeded defaultMaxNumMapObjs (initTraversal s.mapObjects)
  match found with
  | some ptr => do
    let next ← reuse {s with mapObjects:=queue} ptr address
    some (ptr,next)
  | none => do
    let next ← trim (mapNew file {s with mapObjects:=queue} address bytesNeeded)
    some (s.fresh,next)

-- none covers the "released more than once" error, which ends the program.
def stReleasePages (s : NavState) (ptr : Nat) : Option NavState := do
  let obj ← s.objects ptr
  if obj.numUsing = 0 then none
  else some {s with objects:=Function.update s.objects ptr (some {obj with numUsing:=obj.numUsing-1})}

-- A caller's outstanding hold: the object it was given and the range it asked for.
structure Hold where
  mapObj : Nat
  address : Nat
  bytesNeeded : Nat
deriving DecidableEq,Repr

structure Client where
  nav : NavState
  holds : List Hold

inductive Call where
  | navigate (address bytesNeeded : Nat)
  | release (hold : Hold)

def Client.start : Client := ⟨.start,[]⟩

def Admissible (file : FileLayout) (client : Client) : Call → Prop
  | .navigate address bytesNeeded => 0 < bytesNeeded ∧ address+bytesNeeded ≤ file.fileSize
  | .release hold => hold ∈ client.holds

def call (file : FileLayout) (client : Client) : Call → Option Client
  | .navigate address bytesNeeded => do
    let (ptr,nav) ← stNavigateTo file client.nav address bytesNeeded
    some ⟨nav,⟨ptr,address,bytesNeeded⟩::client.holds⟩
  | .release hold => do
    let nav ← stReleasePages client.nav hold.mapObj
    some ⟨nav,client.holds.erase hold⟩

def holdsOn (holds : List Hold) (ptr : Nat) : Nat := holds.countP (fun hold => hold.mapObj == ptr)

def Countable (client : Client) : Prop := ∀ ptr, holdsOn client.holds ptr < 2^32

def MapObject.Covers (obj : MapObject) (address bytesNeeded : Nat) : Prop :=
  obj.mapStart ≤ address ∧ address+bytesNeeded ≤ obj.mapStart+obj.mapSize

-- One entry of the heap agrees with the kernel's table and with the holds.
structure ObjectValid (mmaps : Nat → Option (Nat × Nat)) (holds : List Hold) (ptr : Nat) (obj : MapObject) : Prop where
  mapped : obj.isMapped = true →
    obj.mapStartPtr = some ptr ∧ mmaps ptr = some (obj.mapStart,obj.mapSize) ∧ 0 < obj.mapSize
  counted : obj.numUsing = holdsOn holds ptr
  used : obj.numUsing ≠ 0 → obj.isMapped = true
  covered : ∀ hold ∈ holds, hold.mapObj = ptr → obj.Covers hold.address hold.bytesNeeded

structure Valid (s : NavState) (holds : List Hold) : Prop where
  distinct : s.mapObjects.nodes.Nodup
  listed : ∀ ptr, ptr ∈ s.mapObjects.nodes ↔ ∃ obj, s.objects ptr = some obj
  older : ∀ ptr ∈ s.mapObjects.nodes, ptr < s.fresh
  unused : s.mapObjects.nodes = [] → s.mapObjects.length = 0
  window : s.mapObjects.nodes ≠ [] → s.mapObjects.Windowed ∧ s.mapObjects.length ≠ 0
  objects : ∀ ptr obj, s.objects ptr = some obj → ObjectValid s.mmaps holds ptr obj
  present : ∀ hold ∈ holds, ∃ obj, s.objects hold.mapObj = some obj

theorem start_valid : Valid .start [] where
  distinct := by simp [NavState.start,initQueue,NodeList.init]
  listed := by simp [NavState.start,initQueue,NodeList.init]
  older := by simp [NavState.start,initQueue,NodeList.init]
  unused := by simp [NavState.start,initQueue,NodeList.init]
  window := by simp [NavState.start,initQueue,NodeList.init]
  objects := by simp [NavState.start]
  present := by simp

theorem Valid.traversed (valid : Valid s holds) (same : queue.toNodeList = s.mapObjects.toNodeList) :
    Valid {s with mapObjects:=queue} holds := by
  obtain ⟨distinct,listed,older,unused,window,objects,present⟩ := valid
  exact ⟨by simpa [same] using distinct,by simpa [same] using listed,by simpa [same] using older,
    by simpa [same] using unused,by simpa [same] using window,objects,present⟩

theorem traverse_list (queue : Queue Nat) : (traverseQueue queue).2.toNodeList = queue.toNodeList := by
  unfold traverseQueue
  split <;> rfl

theorem traverse_member (found : (traverseQueue queue).1 = some ptr) : ptr ∈ queue.nodes := by
  unfold traverseQueue at found
  split at found
  · cases found
  · exact List.mem_of_getElem? found

theorem search_exact (objects : Nat → Option MapObject) (address bytesNeeded bound : Nat) (queue : Queue Nat)
    (known : ∀ ptr ∈ queue.nodes, ∃ obj, objects ptr = some obj) :
    ∃ found after, searchWindow objects address bytesNeeded bound queue = some (found,after) ∧
      after.toNodeList = queue.toNodeList ∧
      ∀ ptr, found = some ptr → ∃ obj, objects ptr = some obj ∧ obj.offers address bytesNeeded = true := by
  induction bound generalizing queue with
  | zero => exact ⟨none,queue,rfl,rfl,by simp⟩
  | succ bound ih =>
    have kept := traverse_list queue
    cases taken : traverseQueue queue with
    | mk data after =>
      rw [taken] at kept
      cases data with
      | none => exact ⟨none,after,by simp [searchWindow,taken],kept,by simp⟩
      | some ptr =>
        obtain ⟨obj,got⟩ := known ptr (traverse_member (by rw [taken]))
        by_cases offered : obj.offers address bytesNeeded = true
        · refine ⟨some ptr,after,by simp [searchWindow,taken,got,offered],kept,?_⟩
          rintro _ ⟨rfl⟩
          exact ⟨obj,got,offered⟩
        · obtain ⟨found,last,searched,list,result⟩ := @ih after (by rw [kept]; exact known)
          exact ⟨found,last,by simp [searchWindow,taken,got,offered,searched],list.trans kept,result⟩

@[simp] theorem holdsOn_cons (hold : Hold) (holds : List Hold) (ptr : Nat) :
    holdsOn (hold::holds) ptr = holdsOn holds ptr+(if hold.mapObj = ptr then 1 else 0) := by
  simp [holdsOn,List.countP_cons]

theorem holdsOn_pos (present : hold ∈ holds) : 0 < holdsOn holds hold.mapObj := by
  rw [holdsOn,List.countP_pos_iff]
  exact ⟨hold,present,by simp⟩

theorem holdsOn_erase (present : hold ∈ holds) (ptr : Nat) :
    holdsOn (holds.erase hold) ptr+(if hold.mapObj = ptr then 1 else 0) = holdsOn holds ptr := by
  have split := (List.perm_cons_erase present).countP_eq (fun row => row.mapObj == ptr)
  rw [holdsOn,holdsOn,split,List.countP_cons]
  simp

theorem ObjectValid.agree (valid : ObjectValid mmaps holds key obj) (after : Nat → Option (Nat × Nat)) (same : after key = mmaps key) :
    ObjectValid after holds key obj := by
  obtain ⟨mapped,counted,used,covered⟩ := valid
  exact ⟨by simpa [same] using mapped,counted,used,covered⟩

theorem not_held (valid : ObjectValid mmaps holds ptr obj) (idle : obj.numUsing = 0)
    (present : hold ∈ holds) : hold.mapObj ≠ ptr := by
  intro equal
  have counted := holdsOn_pos present
  rw [equal,← valid.counted,idle] at counted
  exact Nat.lt_irrefl _ counted

-- Objects in use are the same before and after, apart from their counters.
def Kept (before after : NavState) : Prop :=
  ∀ ptr obj, before.objects ptr = some obj → obj.numUsing ≠ 0 →
    ∃ later, after.objects ptr = some later ∧ later.mapStart = obj.mapStart ∧ later.mapSize = obj.mapSize

theorem offers_covers (offered : MapObject.offers obj address bytesNeeded = true)
    (sized : 0 < obj.mapSize) : obj.Covers address bytesNeeded := by
  simp only [MapObject.offers,Bool.and_eq_true,decide_eq_true_eq] at offered
  exact ⟨offered.1.1,by omega⟩

theorem reuse_valid (valid : Valid s holds) (got : s.objects ptr = some obj)
    (offered : obj.offers address bytesNeeded = true) :
    ∃ next, reuse s ptr address = some next ∧ Kept s next ∧
      (holdsOn holds ptr+1 < 2^32 → Valid next (⟨ptr,address,bytesNeeded⟩::holds)) := by
  refine ⟨_,by simp only [reuse,got]; rfl,?_,?_⟩
  · intro key before found _
    by_cases same : key = ptr
    · subst key
      cases Option.some.inj (got.symm.trans found)
      exact ⟨_,Function.update_self ..,rfl,rfl⟩
    · exact ⟨before,by simpa [Function.update_of_ne same] using found,rfl,rfl⟩
  · intro bounded
    have old := valid.objects ptr obj got
    have live : obj.isMapped = true := by
      simp only [MapObject.offers,Bool.and_eq_true] at offered
      exact offered.2
    have covers := offers_covers offered (old.mapped live).2.2
    have wrapped : (obj.numUsing+1)%2^32 = holdsOn holds ptr+1 := by
      rw [old.counted]
      exact Nat.mod_eq_of_lt bounded
    refine ⟨valid.distinct,?_,valid.older,valid.unused,valid.window,?_,?_⟩
    · intro key
      by_cases same : key = ptr
      · subst key
        simpa using (valid.listed ptr).mpr ⟨obj,got⟩
      · simpa [Function.update_of_ne same] using valid.listed key
    · intro key row found
      by_cases same : key = ptr
      · subst key
        simp only [Function.update_self,Option.some.injEq] at found
        subst found
        refine ⟨old.mapped,by simpa using wrapped,fun _ => live,?_⟩
        intro hold present on
        rcases List.mem_cons.mp present with equal | prior
        · subst hold; exact covers
        · exact old.covered hold prior on
      · have prior := valid.objects key row (by simpa [Function.update_of_ne same] using found)
        refine ⟨prior.mapped,by simpa [Ne.symm same] using prior.counted,prior.used,?_⟩
        intro hold present on
        rcases List.mem_cons.mp present with equal | member
        · subst hold; exact absurd on.symm same
        · exact prior.covered hold member on
    · intro hold present
      by_cases same : hold.mapObj = ptr
      · exact ⟨_,by rw [same]; exact Function.update_self ..⟩
      · rcases List.mem_cons.mp present with equal | member
        · subst hold; exact absurd rfl same
        · simpa [Function.update_of_ne same] using valid.present hold member

theorem mapNew_valid (file : FileLayout) (valid : Valid s holds) (asked : 0 < bytesNeeded)
    (inside : address+bytesNeeded ≤ file.fileSize) :
    Valid (mapNew file s address bytesNeeded) (⟨s.fresh,address,bytesNeeded⟩::holds) := by
  have unlisted : s.fresh ∉ s.mapObjects.nodes := fun member => Nat.lt_irrefl _ (valid.older _ member)
  have unheld : holdsOn holds s.fresh = 0 := by
    rw [holdsOn,List.countP_eq_zero]
    intro hold present on
    have member := (valid.listed hold.mapObj).mpr (valid.present hold present)
    exact unlisted (by simpa using (beq_iff_eq.mp on) ▸ member)
  refine ⟨?_,?_,?_,by simp [mapNew,enqueue,NodeList.enqueue],?_,?_,?_⟩
  · simp only [mapNew,enqueue,NodeList.enqueue]
    refine List.nodup_append.mpr ⟨valid.distinct,by simp,?_⟩
    intro key member other fresh equal
    rw [List.mem_singleton.mp fresh] at equal
    exact unlisted (equal ▸ member)
  · intro key
    by_cases same : key = s.fresh
    · simp [mapNew,enqueue,NodeList.enqueue,same]
    · simpa [mapNew,enqueue,NodeList.enqueue,same,Function.update_of_ne] using valid.listed key
  · intro key member
    simp only [mapNew,enqueue,NodeList.enqueue,List.mem_append,List.mem_singleton] at member
    rcases member with old | rfl
    · exact Nat.lt_succ_of_lt (valid.older key old)
    · exact Nat.lt_succ_self _
  · intro _
    exact ⟨NodeList.enqueue_windowed (fun nonempty => (valid.window nonempty).1) _,Nat.succ_ne_zero _⟩
  · intro key obj found
    by_cases same : key = s.fresh
    · subst key
      simp only [mapNew,Function.update_self,Option.some.injEq] at found
      subst found
      have quotient := Nat.mod_le address file.allocGran
      have size : min (address%file.allocGran+bytesNeeded) (file.fileSize-(address-address%file.allocGran)) =
          address%file.allocGran+bytesNeeded := Nat.min_eq_left (by omega)
      refine ⟨fun _ => ⟨rfl,Function.update_self ..,by simp only [size]; omega⟩,by simp [unheld],fun _ => rfl,?_⟩
      intro hold present on
      rcases List.mem_cons.mp present with rfl | prior
      · exact ⟨Nat.sub_le _ _,by simp only [size]; omega⟩
      · have counted := holdsOn_pos prior
        rw [on,unheld] at counted
        exact absurd counted (Nat.lt_irrefl _)
    · have old := valid.objects key obj (by simpa [mapNew,Function.update_of_ne same] using found)
      have prior := old.agree (mapNew file s address bytesNeeded).mmaps (Function.update_of_ne same _ _)
      refine ⟨prior.mapped,by simpa [Ne.symm same] using prior.counted,prior.used,?_⟩
      intro hold present on
      rcases List.mem_cons.mp present with rfl | member
      · exact absurd on.symm same
      · exact prior.covered hold member on
  · intro hold present
    by_cases same : hold.mapObj = s.fresh
    · exact ⟨_,by rw [same]; exact Function.update_self ..⟩
    · rcases List.mem_cons.mp present with rfl | member
      · exact absurd rfl same
      · simpa [mapNew,Function.update_of_ne same] using valid.present hold member

-- Objects in use are untouched; the list of nodes may have lost idle ones.
def Untouched (before after : NavState) : Prop :=
  ∀ ptr obj, before.objects ptr = some obj → obj.numUsing ≠ 0 → after.objects ptr = some obj

theorem Untouched.kept (same : Untouched before after) : Kept before after :=
  fun ptr obj got busy => ⟨obj,same ptr obj got busy,rfl,rfl⟩

theorem Untouched.trans (first : Untouched before middle) (second : Untouched middle after) : Untouched before after :=
  fun ptr obj got busy => second ptr obj (first ptr obj got busy) busy

theorem mapNew_untouched (valid : Valid s holds) : Untouched s (mapNew file s address bytesNeeded) := by
  intro key obj got _
  have other : key ≠ s.fresh := Nat.ne_of_lt (valid.older key ((valid.listed key).mpr ⟨obj,got⟩))
  simpa [mapNew,Function.update_of_ne other] using got

-- The state after nobody's object `ptr` has lost its mapping: all other entries
-- of the heap and of the kernel's table are as they were.
structure Dropped (s next : NavState) (ptr : Nat) : Prop where
  objects : ∀ key, key ≠ ptr → next.objects key = s.objects key
  mmaps : ∀ key, key ≠ ptr → next.mmaps key = s.mmaps key
  fresh : next.fresh = s.fresh

theorem munmap_dropped (own : obj.mapStartPtr = some ptr) (left : Option MapObject) :
    Dropped s {munmapObject s obj with objects:=Function.update s.objects ptr left} ptr := by
  refine ⟨fun key other => Function.update_of_ne other _ _,fun key other => ?_,?_⟩
  · simp [munmapObject,own,Function.update_of_ne other]
  · simp [munmapObject,own]

theorem Dropped.busy (dropped : Dropped s next ptr) (got : s.objects ptr = some obj) (idle : obj.numUsing = 0)
    (found : s.objects key = some row) (inUse : row.numUsing ≠ 0) : next.objects key = some row := by
  have other : key ≠ ptr := by
    rintro rfl
    cases Option.some.inj (got.symm.trans found)
    exact inUse idle
  rw [dropped.objects key other]
  exact found

theorem Dropped.present (dropped : Dropped s next ptr) (valid : Valid s holds)
    (got : s.objects ptr = some obj) (idle : obj.numUsing = 0) :
    ∀ hold ∈ holds, ∃ row, next.objects hold.mapObj = some row := by
  intro hold member
  rw [dropped.objects _ (not_held (valid.objects ptr obj got) idle member)]
  exact valid.present hold member

theorem cleared_valid (valid : ObjectValid mmaps holds ptr obj) (idle : obj.numUsing = 0) :
    ObjectValid after holds ptr obj.cleared := by
  refine ⟨by simp [MapObject.cleared],valid.counted,fun busy => absurd idle busy,?_⟩
  intro hold member on
  exact absurd on (not_held valid idle member)

theorem retire_valid (valid : Valid s holds) (got : s.objects ptr = some obj) :
    Valid (retire s ptr obj) holds ∧ Untouched s (retire s ptr obj) ∧
      (retire s ptr obj).mapObjects = s.mapObjects := by
  unfold retire
  split
  · rename_i unmaps
    have old := valid.objects ptr obj got
    have own := (old.mapped unmaps.2).1
    have dropped := munmap_dropped (s:=s) own (some obj.cleared)
    have queue : (munmapObject s obj).mapObjects = s.mapObjects := by simp [munmapObject,own]
    refine ⟨⟨?_,?_,?_,by rw [queue]; exact valid.unused,?_,?_,dropped.present valid got unmaps.1⟩,
      fun key row => dropped.busy got unmaps.1,queue⟩
    · rw [queue]; exact valid.distinct
    · intro key
      rw [queue,valid.listed key]
      by_cases same : key = ptr
      · subst key; simp [got]
      · rw [dropped.objects key same]
    · rw [queue,dropped.fresh]; exact valid.older
    · rw [queue]; exact valid.window
    · intro key row found
      by_cases same : key = ptr
      · subst key
        simp only [Function.update_self,Option.some.injEq] at found
        subst found
        exact cleared_valid old unmaps.1
      · rw [dropped.objects key same] at found
        exact (valid.objects key row found).agree _ (dropped.mmaps key same)
  · exact ⟨valid,fun _ _ got _ => got,rfl⟩

theorem evict_exact (taken : (dequeue s.mapObjects).1 = some ptr) (got : s.objects ptr = some obj) :
    evict s = some (retire {s with mapObjects:=(dequeue s.mapObjects).2} ptr obj) := by
  simp [evict,taken,got]

theorem evict_valid (valid : Valid s holds) (front : s.mapObjects.front = some position)
    (spare : position+1 < s.mapObjects.nodes.length) (many : 1 < s.mapObjects.length) :
    ∃ next, evict s = some next ∧ Valid next holds ∧ Untouched s next ∧
      next.mapObjects.nodes = s.mapObjects.nodes := by
  have taken := NodeList.dequeue_spare front spare (by omega)
  obtain ⟨obj,got⟩ := (valid.listed (s.mapObjects.nodes[position])).mp (List.getElem_mem _)
  have queue : dequeue s.mapObjects = (some (s.mapObjects.nodes[position]),{s.mapObjects with
      front:=some (position+1),length:=s.mapObjects.length-1}) := by
    simp only [dequeue,taken]
  have advanced : Valid {s with mapObjects:=(dequeue s.mapObjects).2} holds := by
    rw [queue]
    have nonempty : s.mapObjects.nodes ≠ [] := by intro empty; simp [empty] at spare
    exact ⟨valid.distinct,valid.listed,valid.older,fun empty => absurd empty nonempty,
      fun _ => ⟨⟨position+1,rfl,spare⟩,Nat.sub_ne_zero_of_lt many⟩,valid.objects,valid.present⟩
  obtain ⟨kept,untouched,same⟩ := retire_valid advanced got
  exact ⟨_,evict_exact (by rw [queue]) got,kept,untouched,by rw [same,queue]⟩

theorem free_dropped (valid : Valid s holds) (got : s.objects ptr = some obj) (queue : Queue Nat) :
    ∃ next, freeMapObject {s with mapObjects:=queue} ptr = some next ∧ Dropped s next ptr ∧
      next.objects ptr = none ∧ next.mapObjects = queue := by
  cases mapped : obj.isMapped with
  | true =>
    have own := ((valid.objects ptr obj got).mapped mapped).1
    have dropped := munmap_dropped (s:={s with mapObjects:=queue}) own none
    exact ⟨_,by simp [freeMapObject,got,mapped],⟨dropped.objects,dropped.mmaps,dropped.fresh⟩,
      Function.update_self ..,by simp [munmapObject,own]⟩
  | false =>
    exact ⟨{s with mapObjects:=queue,objects:=Function.update s.objects ptr none},by simp [freeMapObject,got,mapped],
      ⟨fun key other => Function.update_of_ne other _ _,fun _ _ => rfl,rfl⟩,Function.update_self ..,rfl⟩

theorem remove_valid (valid : Valid s holds) (at_ : s.mapObjects.traverseFront = some position)
    (inner : position+1 < s.mapObjects.nodes.length)
    (got : s.objects (s.mapObjects.nodes[position]) = some obj) (idle : obj.numUsing = 0) :
    ∃ removed queue next, removeAtTraverseNode s.mapObjects = some (some removed,queue) ∧
      freeMapObject {s with mapObjects:=queue} removed = some next ∧ Valid next holds ∧ Untouched s next ∧
      next.mapObjects.nodes = s.mapObjects.nodes.eraseIdx position := by
  have bound : position < s.mapObjects.nodes.length := by omega
  have removal := remove_exact at_ inner
  obtain ⟨next,freed,dropped,gone,queue⟩ := free_dropped valid got {s.mapObjects with
    nodes := s.mapObjects.nodes.eraseIdx position
    front := shiftPointer position (s.mapObjects.nodes.length-1) s.mapObjects.front
    length := if s.mapObjects.nodes.length-1 < s.mapObjects.length then s.mapObjects.length-1 else s.mapObjects.length
    traverseFront := some position}
  have erased : s.mapObjects.nodes.eraseIdx position = s.mapObjects.nodes.erase s.mapObjects.nodes[position] :=
    (valid.distinct.erase_getElem position bound).symm
  refine ⟨_,_,next,removal,freed,?_,fun key row => dropped.busy got idle,by rw [queue]⟩
  refine ⟨?_,?_,?_,?_,?_,?_,dropped.present valid got idle⟩
  · rw [queue]; exact valid.distinct.eraseIdx _
  · intro key
    rw [queue]
    simp only [erased,valid.distinct.mem_erase_iff,valid.listed key]
    by_cases same : key = s.mapObjects.nodes[position]
    · subst key; simp [gone]
    · simp [same,dropped.objects key same]
  · intro key member
    rw [queue] at member
    rw [dropped.fresh]
    exact valid.older key (List.mem_of_mem_eraseIdx member)
  · intro empty
    have length := List.length_eraseIdx_of_lt bound
    rw [queue] at empty
    simp only at empty
    rw [empty,List.length_nil] at length
    omega
  · intro _
    obtain ⟨⟨cursor,front,inside⟩,used⟩ := valid.window (by intro empty; simp [empty] at bound)
    rw [queue]
    refine ⟨?_,?_⟩
    · obtain ⟨shifted,equal,small⟩ := shift_windowed front inside inner
      exact ⟨shifted,equal,by simpa [List.length_eraseIdx_of_lt bound] using small⟩
    · simp only
      split <;> omega
  · intro key row found
    by_cases same : key = s.mapObjects.nodes[position]
    · subst key; rw [gone] at found; cases found
    · rw [dropped.objects key same] at found
      exact (valid.objects key row found).agree _ (dropped.mmaps key same)

-- The new object at the end is in use, so the loop never unlinks the last node.
theorem sweep_valid (count : Nat) (valid : Valid s holds) (last : s.mapObjects.nodes.getLast? = some newest)
    (got : s.objects newest = some obj) (busy : obj.numUsing ≠ 0) :
    ∃ next, sweep count s = some next ∧ Valid next holds ∧ Untouched s next := by
  induction count generalizing s with
  | zero => exact ⟨s,rfl,valid,fun _ _ found _ => found⟩
  | succ count ih =>
    cases at_ : s.mapObjects.traverseFront with
    | none => exact ⟨s,by simp [sweep,peekTraverse,at_],valid,fun _ _ found _ => found⟩
    | some position =>
      by_cases bound : position < s.mapObjects.nodes.length
      · have peeked : peekTraverse s.mapObjects = some s.mapObjects.nodes[position] := by
          simp [peekTraverse,at_,List.getElem?_eq_getElem bound]
        obtain ⟨row,found⟩ := (valid.listed s.mapObjects.nodes[position]).mp (List.getElem_mem _)
        by_cases idle : row.numUsing = 0
        · have inner : position+1 < s.mapObjects.nodes.length := by
            apply Nat.lt_of_le_of_ne bound
            intro end_
            rw [List.getLast?_eq_getElem?,← end_,Nat.succ_sub_one,List.getElem?_eq_getElem bound] at last
            cases Option.some.inj last
            cases Option.some.inj (found.symm.trans got)
            exact busy idle
          obtain ⟨removed,queue,next,removal,freed,kept,untouched,nodes⟩ := remove_valid valid at_ inner found idle
          have lastKept : next.mapObjects.nodes.getLast? = some newest := by
            rw [nodes,List.getLast?_eq_getElem?,List.length_eraseIdx_of_lt bound,
              List.getElem?_eraseIdx_of_ge (by omega),← last,List.getLast?_eq_getElem?]
            congr 1
            omega
          obtain ⟨after,ran,final,rest⟩ := ih kept lastKept (untouched newest obj got busy)
          exact ⟨after,by simp [sweep,peeked,found,idle,removal,freed,ran],final,untouched.trans rest⟩
        · have list := traverse_list s.mapObjects
          obtain ⟨after,ran,final,rest⟩ := ih (valid.traversed list) (by rw [list]; exact last) got
          exact ⟨after,by simp [sweep,peeked,found,idle,ran],final,rest⟩
      · exact ⟨s,by simp [sweep,peekTraverse,at_,List.getElem?_eq_none (Nat.le_of_not_lt bound)],valid,
          fun _ _ found _ => found⟩

theorem evict_newest (before : Valid s earlier) (valid : Valid (mapNew file s address bytesNeeded) holds)
    (many : defaultMaxNumMapObjs < (mapNew file s address bytesNeeded).mapObjects.length) :
    ∃ next, evict (mapNew file s address bytesNeeded) = some next ∧ Valid next holds ∧
      Untouched (mapNew file s address bytesNeeded) next ∧
      next.mapObjects.nodes.getLast? = some s.fresh := by
  have several : defaultMaxNumMapObjs < s.mapObjects.length+1 := many
  have nonempty : s.mapObjects.nodes ≠ [] := by
    intro empty
    rw [before.unused empty] at several
    exact absurd several (by decide)
  obtain ⟨windowed,used⟩ := before.window nonempty
  obtain ⟨position,front,spare⟩ := NodeList.enqueue_spare windowed used s.fresh
  obtain ⟨next,evicted,kept,untouched,nodes⟩ :=
    evict_valid valid front spare (Nat.lt_of_le_of_lt (by decide) many)
  exact ⟨next,evicted,kept,untouched,by rw [nodes]; simp [mapNew,enqueue,NodeList.enqueue]⟩

theorem trim_valid (before : Valid s earlier) (valid : Valid (mapNew file s address bytesNeeded) holds) :
    ∃ next, trim (mapNew file s address bytesNeeded) = some next ∧ Valid next holds ∧
      Untouched (mapNew file s address bytesNeeded) next := by
  by_cases many : defaultMaxNumMapObjs < (mapNew file s address bytesNeeded).mapObjects.length
  · obtain ⟨evicted,ran,kept,untouched,last⟩ := evict_newest before valid many
    by_cases long : 4*defaultMaxNumMapObjs < evicted.mapObjects.absLength
    · have newest := untouched s.fresh _ (Function.update_self ..) Nat.one_ne_zero
      have restarted : Valid {evicted with mapObjects:=initAbsTraversal evicted.mapObjects} holds := kept.traversed rfl
      obtain ⟨next,swept,final,rest⟩ := sweep_valid evicted.mapObjects.absLength restarted last newest Nat.one_ne_zero
      exact ⟨next,by simp [trim,many,ran,long,swept],final,untouched.trans rest⟩
    · exact ⟨evicted,by simp [trim,many,ran,long],kept,untouched⟩
  · exact ⟨_,by simp [trim,many],valid,fun _ _ got _ => got⟩

-- What one navigation does: it never stops on a NULL or freed pointer, it keeps
-- every object in use, and the hold it hands out is valid as long as the 32-bit
-- counter of the object has room for it.
theorem navigate_valid (file : FileLayout) (valid : Valid s holds) (asked : 0 < bytesNeeded)
    (inside : address+bytesNeeded ≤ file.fileSize) :
    ∃ ptr next, stNavigateTo file s address bytesNeeded = some (ptr,next) ∧ Kept s next ∧
      (holdsOn holds ptr+1 < 2^32 → Valid next (⟨ptr,address,bytesNeeded⟩::holds)) := by
  obtain ⟨found,queue,searched,list,result⟩ := search_exact s.objects address bytesNeeded defaultMaxNumMapObjs
    (initTraversal s.mapObjects) (fun ptr member => (valid.listed ptr).mp member)
  have searchedValid : Valid {s with mapObjects:=queue} holds := valid.traversed list
  cases found with
  | some ptr =>
    obtain ⟨obj,got,offered⟩ := result ptr rfl
    obtain ⟨next,reused,kept,after⟩ := reuse_valid searchedValid got offered
    exact ⟨ptr,next,by simp [stNavigateTo,searched,reused],kept,after⟩
  | none =>
    have mappedValid := mapNew_valid file searchedValid asked inside
    obtain ⟨next,trimmed,kept,untouched⟩ := trim_valid searchedValid mappedValid
    exact ⟨s.fresh,next,by simp [stNavigateTo,searched,trimmed],
      ((mapNew_untouched searchedValid).trans untouched).kept,fun _ => kept⟩

theorem release_valid (valid : Valid s holds) (held : hold ∈ holds) :
    ∃ next, stReleasePages s hold.mapObj = some next ∧ Kept s next ∧ Valid next (holds.erase hold) := by
  obtain ⟨obj,got⟩ := valid.present hold held
  have old := valid.objects hold.mapObj obj got
  have busy : obj.numUsing ≠ 0 := by
    rw [old.counted]
    exact Nat.ne_of_gt (holdsOn_pos held)
  refine ⟨_,by simp [stReleasePages,got,busy]; rfl,?_,?_⟩
  · intro key before found _
    by_cases same : key = hold.mapObj
    · subst key
      cases Option.some.inj (got.symm.trans found)
      exact ⟨_,Function.update_self ..,rfl,rfl⟩
    · exact ⟨before,by simpa [Function.update_of_ne same] using found,rfl,rfl⟩
  · refine ⟨valid.distinct,?_,valid.older,valid.unused,valid.window,?_,?_⟩
    · intro key
      by_cases same : key = hold.mapObj
      · subst key
        simpa using (valid.listed hold.mapObj).mpr ⟨obj,got⟩
      · simpa [Function.update_of_ne same] using valid.listed key
    · intro key row found
      have count := holdsOn_erase held key
      by_cases same : key = hold.mapObj
      · subst key
        simp only [Function.update_self,Option.some.injEq] at found
        subst found
        refine ⟨old.mapped,?_,fun _ => old.used busy,fun other member => old.covered other (List.mem_of_mem_erase member)⟩
        simp only [ite_true] at count
        rw [old.counted,← count,Nat.add_sub_cancel]
      · have prior := valid.objects key row (by simpa [Function.update_of_ne same] using found)
        refine ⟨prior.mapped,?_,prior.used,fun other member => prior.covered other (List.mem_of_mem_erase member)⟩
        rw [prior.counted,← count]
        simp [Ne.symm same]
    · intro other member
      by_cases same : other.mapObj = hold.mapObj
      · exact ⟨_,by rw [same]; exact Function.update_self ..⟩
      · simpa [Function.update_of_ne same] using valid.present other (List.mem_of_mem_erase member)

-- What the holder of a map object relies on, and that num_using is their number.
def Held (client : Client) : Prop :=
  (∀ hold ∈ client.holds, ∃ obj, client.nav.objects hold.mapObj = some obj ∧ obj.isMapped = true ∧
    obj.mapStartPtr = some hold.mapObj ∧ client.nav.mmaps hold.mapObj = some (obj.mapStart,obj.mapSize) ∧
    obj.Covers hold.address hold.bytesNeeded) ∧
  ∀ ptr obj, client.nav.objects ptr = some obj → obj.numUsing = holdsOn client.holds ptr

def Unmoved (before after : Client) : Prop :=
  ∀ hold ∈ before.holds, ∃ obj later, before.nav.objects hold.mapObj = some obj ∧
    after.nav.objects hold.mapObj = some later ∧ later.mapStart = obj.mapStart ∧ later.mapSize = obj.mapSize

theorem valid_held (valid : Valid nav holds) : Held ⟨nav,holds⟩ := by
  refine ⟨?_,fun ptr obj got => (valid.objects ptr obj got).counted⟩
  intro hold member
  obtain ⟨obj,got⟩ := valid.present hold member
  have row := valid.objects hold.mapObj obj got
  have busy : obj.numUsing ≠ 0 := by
    rw [row.counted]
    exact Nat.ne_of_gt (holdsOn_pos member)
  obtain ⟨own,mapped,_⟩ := row.mapped (row.used busy)
  exact ⟨obj,got,row.used busy,own,mapped,row.covered hold member rfl⟩

theorem kept_unmoved (valid : Valid before holds) (kept : Kept before after) :
    Unmoved ⟨before,holds⟩ ⟨after,rest⟩ := by
  intro hold member
  obtain ⟨obj,got⟩ := valid.present hold member
  have busy : obj.numUsing ≠ 0 := by
    rw [(valid.objects hold.mapObj obj got).counted]
    exact Nat.ne_of_gt (holdsOn_pos member)
  obtain ⟨later,found,same⟩ := kept hold.mapObj obj got busy
  exact ⟨obj,later,got,found,same⟩

theorem call_valid (file : FileLayout) (valid : Valid client.nav client.holds)
    (allowed : Admissible file client request) :
    ∃ next, call file client request = some next ∧ Unmoved client next ∧
      (Countable next → Valid next.nav next.holds) := by
  cases request with
  | navigate address bytesNeeded =>
    obtain ⟨ptr,nav,ran,kept,after⟩ := navigate_valid file valid allowed.1 allowed.2
    refine ⟨_,by simp only [call,ran]; rfl,kept_unmoved valid kept,fun countable => after ?_⟩
    simpa using countable ptr
  | release hold =>
    obtain ⟨nav,ran,kept,after⟩ := release_valid valid allowed
    exact ⟨_,by simp only [call,ran]; rfl,kept_unmoved valid kept,fun _ => after⟩

def Step (file : FileLayout) (before : Client) (request : Call) (after : Client) : Prop :=
  Admissible file before request ∧ call file before request = some after

-- The steps after which every num_using still counts below 2^32.
def CountedStep (file : FileLayout) (before : Client) (request : Call) (after : Client) : Prop :=
  Step file before request after ∧ Countable after

theorem counted_valid (path : Runs.Run (CountedStep file) .start requests client) :
    Valid client.nav client.holds := by
  refine path.invariant (fun client => Valid client.nav client.holds) ?_ start_valid
  rintro before request after valid ⟨⟨allowed,ran⟩,countable⟩
  obtain ⟨next,same,_,kept⟩ := call_valid file valid allowed
  cases Option.some.inj (ran.symm.trans same)
  exact kept countable

theorem navigation_keeps_holds (path : Runs.Run (CountedStep file) .start requests client) :
    Held client ∧ ∀ request, Admissible file client request →
      ∃ next, call file client request = some next ∧ Unmoved client next ∧ (Countable next → Held next) := by
  have valid := counted_valid path
  refine ⟨valid_held valid,?_⟩
  intro request allowed
  obtain ⟨next,ran,unmoved,kept⟩ := call_valid file valid allowed
  exact ⟨next,ran,unmoved,fun countable => valid_held (kept countable)⟩

def onePage : FileLayout := ⟨4096,1,page_granular⟩

-- n+1 navigations to the only byte of a file, none of them released.
def crowd (n : Nat) : Client where
  nav := ⟨Function.update (fun _ => none) 0 (some ⟨0,1,some 0,0,(n+1)%2^32,true⟩),⟨⟨[0],some 0,1⟩,none,0⟩,
    Function.update (fun _ => none) 0 (some (0,1)),1⟩
  holds := List.replicate (n+1) ⟨0,0,1⟩

theorem crowd_first : call onePage .start (.navigate 0 1) = some (crowd 0) := rfl

theorem crowd_step (n : Nat) : call onePage (crowd n) (.navigate 0 1) = some (crowd (n+1)) := by
  simp [call,stNavigateTo,crowd,searchWindow,defaultMaxNumMapObjs,traverseQueue,initTraversal,NodeList.next,
    MapObject.offers,reuse,Function.update_idem,List.replicate_succ]

theorem crowd_run (n : Nat) : ∃ requests, Runs.Run (Step onePage) .start requests (crowd n) := by
  have inside : 0 < 1 ∧ 0+1 ≤ onePage.fileSize := by decide
  induction n with
  | zero =>
    have taken : Step onePage .start (.navigate 0 1) (crowd 0) := ⟨inside,crowd_first⟩
    exact ⟨_,.single taken⟩
  | succ n ih =>
    obtain ⟨requests,path⟩ := ih
    have taken : Step onePage (crowd n) (.navigate 0 1) (crowd (n+1)) := ⟨inside,crowd_step n⟩
    exact ⟨_,path.step taken⟩

theorem crowd_counted (held : Held (crowd n)) : (n+1)%2^32 = n+1 := by
  have counted := held.2 0 ⟨0,1,some 0,0,(n+1)%2^32,true⟩ rfl
  simpa [holdsOn,crowd,List.countP_replicate] using counted

-- With 2^32 holds the counter of the shared object is back at zero.
theorem hold_counter_wraps : ∃ requests client, Runs.Run (Step onePage) .start requests client ∧ ¬ Held client := by
  obtain ⟨requests,path⟩ := crowd_run (2^32-1)
  exact ⟨requests,_,path,fun held => absurd (crowd_counted held) (by decide)⟩

theorem navigation_keeps_holds_once : Held (crowd 0) ∧ ∀ request, Admissible onePage (crowd 0) request →
    ∃ next, call onePage (crowd 0) request = some next ∧ Unmoved (crowd 0) next ∧ (Countable next → Held next) := by
  have inside : 0 < 1 ∧ 0+1 ≤ onePage.fileSize := by decide
  have counted : CountedStep onePage .start (.navigate 0 1) (crowd 0) :=
    ⟨⟨inside,crowd_first⟩,fun _ => Nat.lt_of_le_of_lt List.countP_le_length (by decide)⟩
  exact navigation_keeps_holds (.single counted)

end GetMatVar.Navigate
