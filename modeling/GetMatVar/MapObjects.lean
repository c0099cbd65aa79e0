import GetMatVar.Navigate
import GetMatVar.Library.Ledger

namespace GetMatVar
open Ledger

-- What mmap gives and munmap is given: the start and the size of a mapping.
abbrev Region := Option Nat × Nat

namespace Navigate

section Model

def mapNewCalls (file : FileLayout) (s : NavState) (address bytesNeeded : Nat) : Logged (Entry Region) NavState := do
  let mapStart := address-address%file.allocGran
  .tell (.take (some s.fresh,min (address%file.allocGran+bytesNeeded) (file.fileSize-mapStart)))
  pure (mapNew file s address bytesNeeded)

def munmapObjectCalls (s : NavState) (obj : MapObject) : Logged (Entry Region) NavState := do
  .tell (.giveBack (obj.mapStartPtr,obj.mapSize))
  pure (munmapObject s obj)

def retireCalls (s : NavState) (ptr : Nat) (obj : MapObject) : Logged (Entry Region) NavState :=
  if obj.numUsing = 0 ∧ obj.isMapped = true then do
    let unmapped ← munmapObjectCalls s obj
    pure {unmapped with objects:=Function.update s.objects ptr (some obj.cleared)}
  else pure s

def evictCalls (s : NavState) : Logged (Entry Region) NavState := do
  let ptr ← .lift (dequeue s.mapObjects).1
  let obj ← .lift (s.objects ptr)
  retireCalls {s with mapObjects:=(dequeue s.mapObjects).2} ptr obj

def freeMapObjectCalls (s : NavState) (ptr : Nat) : Logged (Entry Region) NavState := do
  let obj ← .lift (s.objects ptr)
  if obj.isMapped then do
    let unmapped ← munmapObjectCalls s obj
    pure {unmapped with objects:=Function.update s.objects ptr none}
  else pure {s with objects:=Function.update s.objects ptr none}

def sweepCalls : Nat → NavState → Logged (Entry Region) NavState
  | 0,s => pure s
  | count+1,s =>
    match peekTraverse s.mapObjects with
    | none => pure s
    | some ptr => do
      let obj ← .lift (s.objects ptr)
      if obj.numUsing = 0 then do
        let (removed,queue) ← .lift (removeAtTraverseNode s.mapObjects)
        let gone ← .lift removed
        let s ← freeMapObjectCalls {s with mapObjects:=queue} gone
        sweepCalls count s
      else sweepCalls count {s with mapObjects:=(traverseQueue s.mapObjects).2}

def trimCalls (s : NavState) : Logged (Entry Region) NavState :=
  if s.mapObjects.length > defaultMaxNumMapObjs then do
    let s ← evictCalls s
    if s.mapObjects.absLength > 4*defaultMaxNumMapObjs then
      sweepCalls s.mapObjects.absLength {s with mapObjects:=initAbsTraversal s.mapObjects}
    else pure s
  else pure s

def stNavigateToCalls (file : FileLayout) (s : NavState) (address bytesNeeded : Nat) :
    Logged (Entry Region) (Nat × NavState) := do
  let (found,queue) ← .lift (searchWindow s.objects address bytesNeeded defaultMaxNumMapObjs (initTraversal s.mapObjects))
  match found with
  | some ptr => do
    let next ← .lift (reuse {s with mapObjects:=queue} ptr address)
    pure (ptr,next)
  | none => do
    let mapped ← mapNewCalls file {s with mapObjects:=queue} address bytesNeeded
    let next ← trimCalls mapped
    pure (s.fresh,next)

def callCalls (file : FileLayout) (client : Client) : Call → Logged (Entry Region) Client
  | .navigate address bytesNeeded => do
    let (ptr,nav) ← stNavigateToCalls file client.nav address bytesNeeded
    pure ⟨nav,⟨ptr,address,bytesNeeded⟩::client.holds⟩
  | .release hold => do
    let nav ← .lift (stReleasePages client.nav hold.mapObj)
    pure ⟨nav,client.holds.erase hold⟩

-- flushQueue on map_objects: every node that is still there, from the first on.
def freeMapObjects : List Nat → NavState → Logged (Entry Region) NavState
  | [],s => pure s
  | ptr::rest,s => do
    let s ← freeMapObjectCalls s ptr
    freeMapObjects rest s

-- freeQueue(map_objects), in getDataObjects or in endHooks.
def freeQueue (s : NavState) : Logged (Entry Region) NavState := freeMapObjects s.mapObjects.nodes s

def serveCalls (file : FileLayout) : List Call → Client → Logged (Entry Region) Client
  | [],client => pure client
  | request::rest,client => do
    let client ← callCalls file client request
    serveCalls file rest client

def session (file : FileLayout) (requests : List Call) : Logged (Entry Region) NavState := do
  let client ← serveCalls file requests .start
  freeQueue client.nav

end Model

section Results
variable {file : FileLayout} {s : NavState}

@[simp] theorem munmapObjectCalls_result (s : NavState) (obj : MapObject) :
    (munmapObjectCalls s obj).result = some (munmapObject s obj) := rfl

@[simp] theorem mapNewCalls_result : (mapNewCalls file s address bytesNeeded).result = some (mapNew file s address bytesNeeded) :=
  rfl

@[simp] theorem retireCalls_result : (retireCalls s ptr obj).result = some (retire s ptr obj) := by
  unfold retireCalls retire
  split <;> rfl

@[simp] theorem evictCalls_result : (evictCalls s).result = evict s := by
  unfold evictCalls evict
  simp

@[simp] theorem freeMapObjectCalls_result : (freeMapObjectCalls s ptr).result = freeMapObject s ptr := by
  unfold freeMapObjectCalls freeMapObject
  cases found : s.objects ptr with
  | none => rfl
  | some obj =>
    cases mapped : obj.isMapped <;> simp [mapped]

@[simp] theorem sweepCalls_result (count : Nat) (s : NavState) : (sweepCalls count s).result = sweep count s := by
  induction count generalizing s with
  | zero => rfl
  | succ count ih =>
    unfold sweepCalls sweep
    cases peekTraverse s.mapObjects with
    | none => rfl
    | some ptr =>
      cases found : s.objects ptr with
      | none => simp [found]
      | some obj =>
        by_cases idle : obj.numUsing = 0
        · simp [found,idle,ih]
        · simp [found,idle,ih]

@[simp] theorem trimCalls_result : (trimCalls s).result = trim s := by
  unfold trimCalls trim
  split
  · simp only [Logged.bind_result,evictCalls_result]
    refine Option.bind_congr fun next _ => ?_
    split
    · exact sweepCalls_result _ _
    · rfl
  · rfl

@[simp] theorem stNavigateToCalls_result :
    (stNavigateToCalls file s address bytesNeeded).result = stNavigateTo file s address bytesNeeded := by
  unfold stNavigateToCalls stNavigateTo
  simp only [Logged.bind_result,Logged.lift_result]
  refine Option.bind_congr fun searched _ => ?_
  cases searched.1 with
  | none => simp
  | some ptr => simp

@[simp] theorem callCalls_result (request : Call) : (callCalls file client request).result = call file client request := by
  cases request with
  | navigate address bytesNeeded => simp [callCalls,call]
  | release hold => simp [callCalls,call]

end Results

def region (s : NavState) (ptr : Nat) : Option Region :=
  (s.objects ptr).bind fun obj => if obj.isMapped then some (obj.mapStartPtr,obj.mapSize) else none

-- Every mapping of the kernel is that of one map object.
structure Owned (s : NavState) : Prop where
  named : ∀ ptr key, region s ptr = some key → key.1 = some ptr
  older : ∀ ptr, s.fresh ≤ ptr → region s ptr = none
  kernel : ∀ mapping, s.mmaps mapping ≠ none → region s mapping ≠ none

section Owned
variable {file : FileLayout} {s next : NavState} {obj : MapObject}

-- A step to a state that owns its mappings, and what it asks of the kernel on the way.
abbrev Steps (s : NavState) (run : Logged (Entry Region) NavState) : Prop :=
  Booked (Owns (region s)) run Owned fun next => Owns (region next)

theorem Owned.apart (owned : Owned s) : Apart (region s) := by
  intro left right key first second
  exact Option.some.inj ((owned.named left key first).symm.trans (owned.named right key second))

theorem Owned.same (owned : Owned s) (regions : region next = region s) (mmaps : next.mmaps = s.mmaps)
    (fresh : next.fresh = s.fresh) : Owned next := by
  refine ⟨?_,?_,?_⟩
  · rw [regions]
    exact owned.named
  · rw [regions,fresh]
    exact owned.older
  · rw [regions,mmaps]
    exact owned.kernel

theorem Owned.pure (owned : Owned s) (regions : region next = region s) (mmaps : next.mmaps = s.mmaps)
    (fresh : next.fresh = s.fresh) : Steps s (Pure.pure next) := by
  refine .pure (owned.same regions mmaps fresh) fun key => ?_
  rw [regions]

theorem region_update (objects : next.objects = Function.update s.objects ptr left) :
    region next = Function.update (region s) ptr
      (left.bind fun obj => if obj.isMapped then some (obj.mapStartPtr,obj.mapSize) else none) := by
  funext key
  unfold region
  rw [objects]
  by_cases same : key = ptr
  · subst same
    rw [Function.update_self,Function.update_self]
  · rw [Function.update_of_ne same,Function.update_of_ne same]

theorem mapNew_steps (owned : Owned s) : Steps s (mapNewCalls file s address bytesNeeded) := by
  obtain ⟨size,sized⟩ : ∃ size, size = min (address%file.allocGran+bytesNeeded) (file.fileSize-(address-address%file.allocGran)) :=
    ⟨_,rfl⟩
  have empty : region s s.fresh = none := owned.older _ (Nat.le_refl _)
  have regions : region (mapNew file s address bytesNeeded) = Function.update (region s) s.fresh (some (some s.fresh,size)) := by
    have objects : (mapNew file s address bytesNeeded).objects = Function.update s.objects s.fresh
        (some ⟨address-address%file.allocGran,size,some s.fresh,address%file.allocGran,1,true⟩) := by rw [sized]; rfl
    exact region_update objects
  have new : ¬Owns (region s) (some s.fresh,size) := by
    rintro ⟨ptr,here⟩
    have name : some s.fresh = some ptr := owned.named ptr _ here
    rw [← Option.some.inj name,empty] at here
    cases here
  unfold mapNewCalls
  dsimp only
  rw [← sized]
  refine .tell_bind (Books.put empty new) (.pure ⟨?_,?_,?_⟩ fun key => by rw [regions])
  · intro ptr key here
    rw [regions,Function.update_apply] at here
    split at here
    · rename_i same
      rw [same,← Option.some.inj here]
    · exact owned.named ptr key here
  · intro ptr later
    have differs : ptr ≠ s.fresh := Nat.ne_of_gt later
    rw [regions,Function.update_of_ne differs]
    exact owned.older ptr (Nat.le_of_succ_le later)
  · intro mapping mapped
    rw [regions,Function.update_apply]
    split
    · exact Option.some_ne_none _
    · rename_i differs
      refine owned.kernel mapping fun gone => mapped ?_
      exact (Function.update_of_ne differs _ _).trans gone

-- Whatever is left of the object, its mapping is gone with it.
theorem unmap_steps (owned : Owned s) (found : s.objects ptr = some obj) (mapped : obj.isMapped = true)
    (unmapped : ∀ row, left = some row → row.isMapped = false) : Steps s (do
      let unmapped ← munmapObjectCalls s obj
      pure {unmapped with objects:=Function.update s.objects ptr left}) := by
  have here : region s ptr = some (obj.mapStartPtr,obj.mapSize) := by
    unfold region
    rw [found,Option.bind_some,mapped,if_pos rfl]
  have start : obj.mapStartPtr = some ptr := owned.named ptr _ here
  obtain ⟨last,after⟩ : ∃ last, last = {munmapObject s obj with objects:=Function.update s.objects ptr left} := ⟨_,rfl⟩
  have nothing : (left.bind fun obj => if obj.isMapped then some (obj.mapStartPtr,obj.mapSize) else none) = none := by
    cases left with
    | none => rfl
    | some row =>
      rw [Option.bind_some,unmapped row rfl]
      rfl
  have regions : region last = Function.update (region s) ptr none := by
    rw [← nothing]
    exact region_update (by rw [after])
  have kernel : last.mmaps = Function.update s.mmaps ptr none := by
    rw [after]
    unfold munmapObject
    rw [start]
  have fresh : last.fresh = s.fresh := by
    rw [after]
    unfold munmapObject
    rw [start]
  unfold munmapObjectCalls
  change Steps s (Logged.tell (.giveBack (obj.mapStartPtr,obj.mapSize)) >>= fun _ => Pure.pure
    {munmapObject s obj with objects:=Function.update s.objects ptr left})
  rw [← after]
  refine .tell_bind (Books.drop owned.apart here) (.pure ⟨?_,?_,?_⟩ fun key => by rw [regions])
  · intro other key found
    rw [regions,Function.update_apply] at found
    split at found
    · cases found
    · exact owned.named other key found
  · intro other later
    rw [regions,Function.update_apply]
    split
    · rfl
    · exact owned.older other (fresh ▸ later)
  · intro mapping mapped
    rw [kernel,Function.update_apply] at mapped
    split at mapped
    · exact absurd rfl mapped
    · rename_i differs
      rw [regions,Function.update_of_ne differs]
      exact owned.kernel mapping mapped

theorem retire_steps (owned : Owned s) (found : s.objects ptr = some obj) : Steps s (retireCalls s ptr obj) := by
  unfold retireCalls
  split
  · rename_i idle
    apply unmap_steps owned found idle.2
    rintro row ⟨rfl⟩
    rfl
  · exact owned.pure rfl rfl rfl

theorem evict_steps (owned : Owned s) : Steps s (evictCalls s) := by
  unfold evictCalls
  refine .lift_bind fun ptr _ => .lift_bind fun obj found => ?_
  exact retire_steps (s:={s with mapObjects:=(dequeue s.mapObjects).2}) (owned.same rfl rfl rfl) found

theorem free_steps (owned : Owned s) : Steps s (freeMapObjectCalls s ptr) := by
  unfold freeMapObjectCalls
  refine .lift_bind fun obj found => ?_
  split
  · rename_i mapped
    apply unmap_steps owned found mapped
    intro row left
    cases left
  · rename_i unmapped
    refine owned.pure ?_ rfl rfl
    rw [region_update rfl,Option.bind_none]
    apply Function.update_eq_self_iff.mpr
    unfold region
    rw [found,Option.bind_some,if_neg unmapped]

theorem sweep_steps (count : Nat) (owned : Owned s) : Steps s (sweepCalls count s) := by
  induction count generalizing s with
  | zero => exact owned.pure rfl rfl rfl
  | succ count ih =>
    unfold sweepCalls
    cases peekTraverse s.mapObjects with
    | none => exact owned.pure rfl rfl rfl
    | some ptr =>
      refine .lift_bind fun obj found => ?_
      split
      · refine .lift_bind fun removed _ => .lift_bind fun gone _ => ?_
        have rest : Owned {s with mapObjects:=removed.2} := owned.same rfl rfl rfl
        exact (free_steps rest).bind fun next after => ih after
      · exact ih (s:={s with mapObjects:=(traverseQueue s.mapObjects).2}) (owned.same rfl rfl rfl)

theorem trim_steps (owned : Owned s) : Steps s (trimCalls s) := by
  unfold trimCalls
  split
  · refine (evict_steps owned).bind fun next after => ?_
    split
    · exact sweep_steps (s:={next with mapObjects:=initAbsTraversal next.mapObjects}) _ (after.same rfl rfl rfl)
    · exact after.pure rfl rfl rfl
  · exact owned.pure rfl rfl rfl

theorem recount_region (found : s.objects ptr = some obj) (objects : next.objects = Function.update s.objects ptr (some row))
    (same : row.isMapped = obj.isMapped ∧ row.mapStartPtr = obj.mapStartPtr ∧ row.mapSize = obj.mapSize) :
    region next = region s := by
  obtain ⟨mapped,start,size⟩ := same
  rw [region_update objects]
  apply Function.update_eq_self_iff.mpr
  unfold region
  rw [found,Option.bind_some,Option.bind_some,mapped,start,size]

theorem reuse_owned (owned : Owned s) (reused : reuse s ptr address = some next) : Owned next ∧ region next = region s := by
  obtain ⟨obj,found,last⟩ := Option.bind_eq_some_iff.mp reused
  have objects : next.objects = Function.update s.objects ptr (some
      {obj with numUsing:=(obj.numUsing+1)%2^32,addressOffset:=address-obj.mapStart}) := by rw [← Option.some.inj last]
  have regions := recount_region found objects ⟨rfl,rfl,rfl⟩
  cases last
  exact ⟨owned.same regions rfl rfl,regions⟩

theorem release_owned (owned : Owned s) (released : stReleasePages s ptr = some next) : Owned next ∧ region next = region s := by
  obtain ⟨obj,found,last⟩ := Option.bind_eq_some_iff.mp released
  split at last
  · cases last
  · have objects : next.objects = Function.update s.objects ptr (some {obj with numUsing:=obj.numUsing-1}) := by
      rw [← Option.some.inj last]
    have regions := recount_region found objects ⟨rfl,rfl,rfl⟩
    cases last
    exact ⟨owned.same regions rfl rfl,regions⟩

theorem navigate_steps (owned : Owned s) : Booked (Owns (region s)) (stNavigateToCalls file s address bytesNeeded)
    (fun reached => Owned reached.2) fun reached => Owns (region reached.2) := by
  unfold stNavigateToCalls
  refine .lift_bind fun searched _ => ?_
  obtain ⟨found,queue⟩ := searched
  have start : Owned {s with mapObjects:=queue} := owned.same rfl rfl rfl
  cases found with
  | some ptr =>
    refine .lift_bind fun next reused => ?_
    obtain ⟨after,regions⟩ := reuse_owned start reused
    exact .pure after fun key => by rw [regions]; rfl
  | none =>
    refine (mapNew_steps start).bind fun middle between => (trim_steps between).bind fun next after => ?_
    exact .pure after fun key => Iff.rfl

theorem call_steps (request : Call) {client : Client} (owned : Owned client.nav) :
    Booked (Owns (region client.nav)) (callCalls file client request) (fun next => Owned next.nav)
      fun next => Owns (region next.nav) := by
  cases request with
  | navigate address bytesNeeded =>
    refine (navigate_steps owned).bind fun reached after => ?_
    exact .pure after fun key => Iff.rfl
  | release hold =>
    refine .lift_bind fun nav released => ?_
    obtain ⟨after,regions⟩ := release_owned owned released
    exact .pure after fun key => by rw [regions]

theorem serve_steps (requests : List Call) {client : Client} (owned : Owned client.nav) :
    Booked (Owns (region client.nav)) (serveCalls file requests client) (fun next => Owned next.nav)
      fun next => Owns (region next.nav) := by
  induction requests generalizing client with
  | nil => exact .pure owned fun key => Iff.rfl
  | cons request rest ih => exact (call_steps request owned).bind fun next after => ih after

theorem freeMapObjects_steps (ptrs : List Nat) (owned : Owned s) : Steps s (freeMapObjects ptrs s) := by
  induction ptrs generalizing s with
  | nil => exact owned.pure rfl rfl rfl
  | cons ptr rest ih => exact (free_steps owned).bind fun next after => ih after

theorem freeMapObjects_runs {ptrs : List Nat} (distinct : ptrs.Nodup) (listed : ∀ ptr, ptr ∈ ptrs ↔ s.objects ptr ≠ none) :
    ∃ last, (freeMapObjects ptrs s).result = some last ∧ ∀ ptr, last.objects ptr = none := by
  induction ptrs generalizing s with
  | nil =>
    refine ⟨s,rfl,fun ptr => ?_⟩
    by_contra found
    exact List.not_mem_nil ((listed ptr).mpr found)
  | cons ptr rest ih =>
    obtain ⟨first,others⟩ := List.nodup_cons.mp distinct
    obtain ⟨obj,found⟩ := Option.ne_none_iff_exists'.mp ((listed ptr).mp List.mem_cons_self)
    obtain ⟨next,freed,objects⟩ : ∃ next, freeMapObject s ptr = some next ∧ next.objects = Function.update s.objects ptr none := by
      unfold freeMapObject
      rw [found,Option.bind_eq_bind,Option.bind_some]
      split
      · exact ⟨_,rfl,rfl⟩
      · exact ⟨_,rfl,rfl⟩
    have remaining : ∀ other, other ∈ rest ↔ next.objects other ≠ none := by
      intro other
      rw [objects]
      by_cases same : other = ptr
      · subst same
        rw [Function.update_self]
        exact ⟨fun member => absurd member first,fun gone => absurd rfl gone⟩
      · rw [Function.update_of_ne same,← listed other,List.mem_cons]
        exact ⟨.inr,fun either => either.resolve_left same⟩
    obtain ⟨last,ran,empty⟩ := ih others remaining
    refine ⟨last,?_,empty⟩
    unfold freeMapObjects
    rw [Logged.bind_result,freeMapObjectCalls_result,freed]
    exact ran

theorem serveCalls_run {before : Client} (path : Runs.Run (Step file) before requests client) :
    (serveCalls file requests before).result = some client := by
  induction path with
  | nil => rfl
  | @step earlier middle action next prior taken ih =>
    have joined (requests : List Call) (before : Client) : (serveCalls file (requests++[action]) before).result =
        (serveCalls file requests before).result.bind fun middle => call file middle action := by
      induction requests generalizing before with
      | nil => simp [serveCalls]
      | cons request rest ihRest => simp [serveCalls,ihRest,Option.bind_assoc]
    rw [joined,ih]
    exact taken.2

theorem start_owned : Owned NavState.start := by
  refine ⟨?_,fun _ _ => rfl,fun _ mapped => absurd rfl mapped⟩
  intro ptr key here
  cases here

-- map_objects holds every map object, once.
structure Listed (s : NavState) : Prop where
  distinct : s.mapObjects.nodes.Nodup
  present : ∀ ptr, ptr ∈ s.mapObjects.nodes ↔ s.objects ptr ≠ none
  older : ∀ ptr ∈ s.mapObjects.nodes, ptr < s.fresh

theorem start_listed : Listed NavState.start :=
  ⟨List.nodup_nil,fun _ => ⟨fun member => absurd member List.not_mem_nil,fun found => absurd rfl found⟩,
    fun _ member => absurd member List.not_mem_nil⟩

theorem Listed.same (listed : Listed s) (nodes : next.mapObjects.nodes = s.mapObjects.nodes) (objects : next.objects = s.objects)
    (fresh : next.fresh = s.fresh) : Listed next := by
  refine ⟨?_,?_,?_⟩
  · rw [nodes]
    exact listed.distinct
  · rw [nodes,objects]
    exact listed.present
  · rw [nodes,fresh]
    exact listed.older

theorem Listed.rewritten (listed : Listed s) (found : s.objects ptr ≠ none) (nodes : next.mapObjects.nodes = s.mapObjects.nodes)
    (objects : next.objects = Function.update s.objects ptr (some row)) (fresh : next.fresh = s.fresh) : Listed next := by
  refine ⟨?_,fun key => ?_,?_⟩
  · rw [nodes]
    exact listed.distinct
  · rw [nodes,objects,listed.present key]
    by_cases same : key = ptr
    · subst same
      rw [Function.update_self]
      exact iff_of_true found (Option.some_ne_none row)
    · rw [Function.update_of_ne same]
  · rw [nodes,fresh]
    exact listed.older

theorem munmapObject_rest (s : NavState) (obj : MapObject) : (munmapObject s obj).mapObjects = s.mapObjects ∧
    (munmapObject s obj).objects = s.objects ∧ (munmapObject s obj).fresh = s.fresh := by
  unfold munmapObject
  split
  · exact ⟨rfl,rfl,rfl⟩
  · exact ⟨rfl,rfl,rfl⟩

theorem mapNew_listed (listed : Listed s) : Listed (mapNew file s address bytesNeeded) := by
  have unlisted : s.fresh ∉ s.mapObjects.nodes := fun member => Nat.lt_irrefl _ (listed.older _ member)
  have nodes : (mapNew file s address bytesNeeded).mapObjects.nodes = s.mapObjects.nodes++[s.fresh] := rfl
  refine ⟨?_,fun key => ?_,fun key member => ?_⟩
  · rw [nodes,List.nodup_append_comm]
    exact List.nodup_cons.mpr ⟨unlisted,listed.distinct⟩
  · rw [nodes,List.mem_append,List.mem_singleton,listed.present key]
    by_cases same : key = s.fresh
    · subst same
      have here : (mapNew file s address bytesNeeded).objects s.fresh = some
          ⟨_,_,some s.fresh,address%file.allocGran,1,true⟩ := Function.update_self ..
      rw [here]
      exact iff_of_true (.inr rfl) (Option.some_ne_none _)
    · have there : (mapNew file s address bytesNeeded).objects key = s.objects key := Function.update_of_ne same _ _
      rw [there]
      exact or_iff_left same
  · rw [nodes,List.mem_append,List.mem_singleton] at member
    rcases member with old | same
    · exact Nat.lt_succ_of_lt (listed.older key old)
    · exact Nat.lt_succ_of_le (Nat.le_of_eq same)

theorem retire_listed (listed : Listed s) (found : s.objects ptr ≠ none) : Listed (retire s ptr obj) := by
  obtain ⟨queue,_,fresh⟩ := munmapObject_rest s obj
  unfold retire
  split
  · exact listed.rewritten found (congrArg (fun queue => queue.nodes) queue) rfl fresh
  · exact listed

theorem evict_listed (listed : Listed s) (ran : evict s = some next) : Listed next := by
  obtain ⟨ptr,_,ran⟩ := Option.bind_eq_some_iff.mp ran
  obtain ⟨obj,found,last⟩ := Option.bind_eq_some_iff.mp ran
  rw [← Option.some.inj last]
  have shorter : Listed {s with mapObjects:=(dequeue s.mapObjects).2} :=
    listed.same (NodeList.dequeue_nodes s.mapObjects.toNodeList) rfl rfl
  exact retire_listed shorter (Option.ne_none_iff_exists'.mpr ⟨obj,found⟩)

theorem free_rest (freed : freeMapObject s ptr = some next) : next.mapObjects = s.mapObjects ∧
    next.objects = Function.update s.objects ptr none ∧ next.fresh = s.fresh := by
  obtain ⟨obj,_,last⟩ := Option.bind_eq_some_iff.mp freed
  obtain ⟨queue,_,fresh⟩ := munmapObject_rest s obj
  split at last
  · rw [← Option.some.inj last]
    exact ⟨queue,rfl,fresh⟩
  · rw [← Option.some.inj last]
    exact ⟨rfl,rfl,rfl⟩

-- The clean-up unlinks the object that it frees, and only that one.
theorem removed_listed (listed : Listed s) (removal : removeAtTraverseNode s.mapObjects = some (some ptr,queue))
    (freed : freeMapObject {s with mapObjects:=queue} ptr = some next) : Listed next := by
  obtain ⟨nodes,objects,fresh⟩ := free_rest freed
  obtain ⟨position,bound,at_,left⟩ : ∃ position, ∃ bound : position < s.mapObjects.nodes.length,
      s.mapObjects.nodes[position] = ptr ∧ queue.nodes = s.mapObjects.nodes.eraseIdx position := by
    unfold removeAtTraverseNode at removal
    split at removal
    · cases removal
    · rename_i position _
      split at removal
      · rename_i inner
        have bound : position < s.mapObjects.nodes.length := Nat.lt_of_succ_lt inner
        simp only [Option.some.injEq,Prod.mk.injEq,List.getElem?_eq_getElem bound] at removal
        exact ⟨position,bound,removal.1,by rw [← removal.2]⟩
      · cases removal
  have erased : next.mapObjects.nodes = s.mapObjects.nodes.erase ptr := by
    rw [nodes,left,← at_,listed.distinct.erase_getElem position bound]
  refine ⟨?_,fun key => ?_,fun key member => ?_⟩
  · rw [erased]
    exact listed.distinct.erase ptr
  · rw [erased,listed.distinct.mem_erase_iff,listed.present key,objects]
    by_cases same : key = ptr
    · subst same
      rw [Function.update_self]
      exact ⟨fun other => absurd rfl other.1,fun gone => absurd rfl gone⟩
    · rw [Function.update_of_ne same]
      exact and_iff_right same
  · rw [erased] at member
    rw [fresh]
    exact listed.older key (List.mem_of_mem_erase member)

theorem sweep_listed (count : Nat) (listed : Listed s) (ran : sweep count s = some next) : Listed next := by
  induction count generalizing s with
  | zero =>
    rw [← Option.some.inj ran]
    exact listed
  | succ count ih =>
    unfold sweep at ran
    split at ran
    · rw [← Option.some.inj ran]
      exact listed
    · obtain ⟨obj,_,ran⟩ := Option.bind_eq_some_iff.mp ran
      split at ran
      · obtain ⟨⟨removed,queue⟩,removal,ran⟩ := Option.bind_eq_some_iff.mp ran
        obtain ⟨gone,taken,ran⟩ := Option.bind_eq_some_iff.mp ran
        obtain ⟨middle,freed,ran⟩ := Option.bind_eq_some_iff.mp ran
        rw [taken] at removal
        exact ih (removed_listed listed removal freed) ran
      · have list := traverse_list s.mapObjects
        have further : Listed {s with mapObjects:=(traverseQueue s.mapObjects).2} :=
          listed.same (congrArg NodeList.nodes list) rfl rfl
        exact ih further ran

theorem trim_listed (listed : Listed s) (ran : trim s = some next) : Listed next := by
  unfold trim at ran
  split at ran
  · obtain ⟨middle,evicted,ran⟩ := Option.bind_eq_some_iff.mp ran
    have between := evict_listed listed evicted
    split at ran
    · have restarted : Listed {middle with mapObjects:=initAbsTraversal middle.mapObjects} := between.same rfl rfl rfl
      exact sweep_listed _ restarted ran
    · rw [← Option.some.inj ran]
      exact between
  · rw [← Option.some.inj ran]
    exact listed

theorem navigate_listed (listed : Listed s) (ran : stNavigateTo file s address bytesNeeded = some (ptr,next)) :
    Listed next := by
  obtain ⟨found,queue,searched,list,_⟩ := search_exact s.objects address bytesNeeded defaultMaxNumMapObjs
    (initTraversal s.mapObjects) fun ptr member => Option.ne_none_iff_exists'.mp ((listed.present ptr).mp member)
  have start : Listed {s with mapObjects:=queue} := listed.same (congrArg NodeList.nodes list) rfl rfl
  unfold stNavigateTo at ran
  rw [searched,Option.bind_eq_bind,Option.bind_some] at ran
  cases found with
  | some there =>
    obtain ⟨middle,reused,last⟩ := Option.bind_eq_some_iff.mp ran
    obtain ⟨obj,found,rest⟩ := Option.bind_eq_some_iff.mp reused
    cases last
    rw [← Option.some.inj rest]
    exact start.rewritten (Option.ne_none_iff_exists'.mpr ⟨obj,found⟩) rfl rfl rfl
  | none =>
    obtain ⟨middle,trimmed,last⟩ := Option.bind_eq_some_iff.mp ran
    cases last
    exact trim_listed (mapNew_listed start) trimmed

theorem release_listed (listed : Listed s) (released : stReleasePages s ptr = some next) : Listed next := by
  obtain ⟨obj,found,last⟩ := Option.bind_eq_some_iff.mp released
  split at last
  · cases last
  · rw [← Option.some.inj last]
    exact listed.rewritten (Option.ne_none_iff_exists'.mpr ⟨obj,found⟩) rfl rfl rfl

theorem call_listed {request : Call} {client reached : Client} (listed : Listed client.nav)
    (ran : call file client request = some reached) : Listed reached.nav := by
  cases request with
  | navigate address bytesNeeded =>
    obtain ⟨⟨ptr,nav⟩,navigated,last⟩ := Option.bind_eq_some_iff.mp ran
    rw [← Option.some.inj last]
    exact navigate_listed listed navigated
  | release hold =>
    obtain ⟨nav,released,last⟩ := Option.bind_eq_some_iff.mp ran
    rw [← Option.some.inj last]
    exact release_listed listed released

theorem run_listed (path : Runs.Run (Step file) .start requests client) : Listed client.nav :=
  path.invariant (fun client => Listed client.nav) (fun _ _ _ listed taken => call_listed listed taken.2) start_listed

-- However the file was navigated, and whether what was mapped is still held or not,
-- freeQueue leaves no map object and no mapping, and munmap was called once for every
-- mmap, with its pointer and its size.
theorem session_balanced (path : Runs.Run (Step file) .start requests client) :
    ∃ last, (session file requests).result = some last ∧ (∀ ptr, last.objects ptr = none) ∧
      (∀ mapping, last.mmaps mapping = none) ∧ settle [] (session file requests).log = some [] ∧
      (returned (session file requests).log).Perm (taken (session file requests).log) := by
  have listed := run_listed path
  obtain ⟨last,freed,gone⟩ := freeMapObjects_runs listed.distinct listed.present
  have ran : (session file requests).result = some last := by
    unfold session
    rw [Logged.bind_result,serveCalls_run path]
    exact freed
  have books : Booked (Owns (region NavState.start)) (session file requests) Owned fun next => Owns (region next) :=
    (serve_steps requests start_owned).bind fun next after => freeMapObjects_steps _ after
  obtain ⟨owned,whole⟩ := books last ran
  have empty (ptr : Nat) : region last ptr = none := by
    unfold region
    rw [gone ptr]
    rfl
  have settled : settle [] (session file requests).log = some [] := by
    apply whole.settled
    · rintro key ⟨ptr,here⟩
      cases here
    · rintro key ⟨ptr,here⟩
      rw [empty] at here
      cases here
  refine ⟨last,ran,gone,fun mapping => ?_,settled,settle_balanced settled⟩
  by_contra mapped
  exact owned.kernel mapping mapped (empty mapping)

instance (file : FileLayout) (client : Client) : (request : Call) → Decidable (Admissible file client request)
  | .navigate address bytesNeeded => inferInstanceAs (Decidable (0 < bytesNeeded ∧ address+bytesNeeded ≤ file.fileSize))
  | .release hold => inferInstanceAs (Decidable (hold ∈ client.holds))

def serve (file : FileLayout) (client : Client) (request : Call) : Option Client :=
  if Admissible file client request then call file client request else none

theorem serve_step (served : serve file client request = some reached) : Step file client request reached := by
  unfold serve at served
  split at served
  · exact ⟨‹_›,served⟩
  · cases served

def fourteenPages : FileLayout := ⟨4096,14*4096,page_granular⟩

-- The first page is released and leaves the window with the eleventh mapping, the
-- second is used twice; eleven holds are left.
def tour : List Call :=
  [.navigate 0 100,.release ⟨0,0,100⟩,.navigate 4096 8,.navigate 4100 4]++
    (List.range 10).map (fun page => .navigate (4096*(page+2)) 4096)++[.release ⟨1,4100,4⟩]

theorem session_balanced_tour : settle [] (session fourteenPages tour).log = some [] ∧
    (returned (session fourteenPages tour).log).Perm (taken (session fourteenPages tour).log) := by
  have toured : (Runs.exec (serve fourteenPages) .start tour).isSome = true := by decide +kernel
  obtain ⟨client,ran⟩ := Option.isSome_iff_exists.mp toured
  obtain ⟨_,_,_,_,settled,balanced⟩ := session_balanced ((Runs.exec_run ran).weaken fun _ _ _ served => serve_step served)
  exact ⟨settled,balanced⟩

end Owned
end Navigate
end GetMatVar
