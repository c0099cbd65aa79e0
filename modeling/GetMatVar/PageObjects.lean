import GetMatVar.System
import GetMatVar.Library.Runs
import GetMatVar.Library.Tally
import Mathlib.Algebra.Group.Nat.Defs
import Mathlib.Data.List.Basic

namespace GetMatVar.PageObjects
open Tally

-- num_using is declared uint8_t and total_num_mappings uint32_t. pg_start_p is
-- kept as the name of the mapping it points to; pg_start_a is a function of the
-- page index and pg_end_a is never read.
structure PageObject where
  isMapped : Bool
  mapSize : Nat
  maxMapSize : Nat
  pgStartP : Option Nat
  numUsing : Nat
  totalNumMappings : Nat
deriving DecidableEq,Repr

def initializePageObject : PageObject := ⟨false,0,0,none,0,0⟩

-- Where a worker stands in mt_navigateTo with its record and the value of
-- map_bytes_needed it computed on entry; a holder also keeps the mapping that
-- the returned pointer points into.
inductive Worker where
  | idle
  | sizeCheck (dp : DataPair) (needed : Nat)
  | confirm (dp : DataPair) (needed : Nat)
  | useCheck (dp : DataPair) (needed : Nat)
  | remap (dp : DataPair) (needed : Nat)
  | holding (dp : DataPair) (mapping : Option Nat)
deriving DecidableEq,Repr

-- The page table, the kernel's mappings (start and size), the records of the
-- current dataset that no worker has taken yet, and the workers.
structure PageState (n : Nat) where
  pages : Nat → PageObject
  mappings : Nat → Option (Nat × Nat)
  fresh : Nat
  pool : List DataPair
  inflating : Bool
  workers : Fin n → Worker

inductive Action (n : Nat) where
  | register (dp : DataPair)
  | parsed
  | enter (w : Fin n) (dp : DataPair)
  | sizeCheck (w : Fin n)
  | confirm (w : Fin n)
  | useCheck (w : Fin n)
  | remap (w : Fin n)
  | release (w : Fin n)
  | joined

section Model
variable {n : Nat} (file : FileLayout)

def pageOf (address : Nat) : Nat := address/file.allocGran

def extent (dp : DataPair) : Nat := dp.address%file.allocGran+dp.chunkSize

def PageState.setPage (s : PageState n) (page : Nat) (object : PageObject) : PageState n :=
  {s with pages:=Function.update s.pages page object}

def PageState.setWorker (s : PageState n) (w : Fin n) (worker : Worker) : PageState n :=
  {s with workers:=Function.update s.workers w worker}

def initial (n : Nat) : PageState n :=
  ⟨fun _ => initializePageObject,fun _ => none,0,[],false,fun _ => .idle⟩

def countMapping (object : PageObject) (dp : DataPair) : PageObject :=
  {object with
    totalNumMappings:=(object.totalNumMappings+1)%2^32,maxMapSize:=max object.maxMapSize (extent file dp)}

def registerPair (s : PageState n) (dp : DataPair) : PageState n :=
  let page := pageOf file dp.address
  {s.setPage page (countMapping file (s.pages page) dp) with pool:=s.pool++[dp]}

def freePageObject (s : PageState n) (page : Nat) : PageState n :=
  let object := s.pages page
  if object.isMapped = true then
    {s.setPage page {object with isMapped:=false,pgStartP:=none,mapSize:=0} with
      mappings:=match object.pgStartP with
        | none => s.mappings
        | some mapping => Function.update s.mappings mapping none}
  else s

-- The part of mt_navigateTo behind the break, still under the page's lock.
def mapPage (s : PageState n) (page needed : Nat) : PageState n :=
  let freed := freePageObject s page
  {freed.setPage page {freed.pages page with isMapped:=true,mapSize:=needed,pgStartP:=some s.fresh} with
    mappings:=Function.update freed.mappings s.fresh (some (file.allocGran*page,needed)),fresh:=s.fresh+1}

-- num_using++ and num_using--, which wrap as uint8_t.
def addUser (s : PageState n) (page : Nat) : PageState n :=
  s.setPage page {s.pages page with numUsing:=((s.pages page).numUsing+1)%2^8}

def dropUser (s : PageState n) (page : Nat) : PageState n :=
  s.setPage page {s.pages page with
    numUsing:=((s.pages page).numUsing+2^8-1)%2^8
    totalNumMappings:=((s.pages page).totalNumMappings+2^32-1)%2^32}

-- One atomic step: an unlocked test, a section under the page's lock, or a step
-- of the main thread between two datasets.
def next (s : PageState n) : Action n → Option (PageState n)
  | .register dp => if s.inflating then none else some (registerPair file s dp)
  | .parsed => if s.inflating then none else some {s with inflating:=true}
  | .enter w dp =>
    if s.inflating ∧ s.workers w = .idle ∧ dp ∈ s.pool then
      some {s.setWorker w (.sizeCheck dp (s.pages (pageOf file dp.address)).maxMapSize) with pool:=s.pool.erase dp}
    else none
  | .sizeCheck w =>
    match s.workers w with
    | .sizeCheck dp needed =>
      if needed ≤ (s.pages (pageOf file dp.address)).mapSize then some (s.setWorker w (.confirm dp needed))
      else some (s.setWorker w (.useCheck dp needed))
    | _ => none
  | .confirm w =>
    match s.workers w with
    | .confirm dp needed =>
      let page := pageOf file dp.address
      if needed ≤ (s.pages page).mapSize then
        some ((addUser s page).setWorker w (.holding dp (s.pages page).pgStartP))
      else some (s.setWorker w (.sizeCheck dp needed))
    | _ => none
  | .useCheck w =>
    match s.workers w with
    | .useCheck dp needed =>
      if (s.pages (pageOf file dp.address)).numUsing = 0 then some (s.setWorker w (.remap dp needed))
      else some (s.setWorker w (.sizeCheck dp needed))
    | _ => none
  | .remap w =>
    match s.workers w with
    | .remap dp needed =>
      let page := pageOf file dp.address
      if (s.pages page).numUsing = 0 then
        some ((mapPage file (addUser s page) page needed).setWorker w (.holding dp (some s.fresh)))
      else some (s.setWorker w (.sizeCheck dp needed))
    | _ => none
  | .release w =>
    match s.workers w with
    | .holding dp _ =>
      let page := pageOf file dp.address
      let dropped := (dropUser s page).setWorker w .idle
      some (if (dropped.pages page).totalNumMappings = 0 then freePageObject dropped page else dropped)
    | _ => none
  | .joined => if s.inflating ∧ s.pool = [] ∧ ∀ w, s.workers w = .idle then some {s with inflating:=false} else none

end Model

section Counts
variable {n : Nat} (file : FileLayout)

def Worker.pair : Worker → Option DataPair
  | .idle => none
  | .sizeCheck dp _ | .confirm dp _ | .useCheck dp _ | .remap dp _ | .holding dp _ => some dp

def Worker.on (page : Nat) (worker : Worker) : Bool :=
  worker.pair.any (fun dp => pageOf file dp.address == page)

def Worker.holds (page : Nat) : Worker → Bool
  | .holding dp _ => pageOf file dp.address == page
  | _ => false

def poolOn (pool : List DataPair) (page : Nat) : Nat :=
  pool.countP (fun dp => pageOf file dp.address == page)

def loadOn (s : PageState n) (page : Nat) : Nat :=
  poolOn file s.pool page+tally (Worker.on file page) s.workers

def holdersOn (s : PageState n) (page : Nat) : Nat := tally (Worker.holds file page) s.workers

theorem holds_on (worker : Worker) (holding : worker.holds file page = true) : worker.on file page = true := by
  cases worker <;> first | exact holding | cases holding

theorem holders_le_load (s : PageState n) (page : Nat) : holdersOn file s page ≤ loadOn file s page :=
  Nat.le_trans (tally_mono (fun worker => holds_on file worker) s.workers) (Nat.le_add_left ..)

end Counts

section Invariant
variable {n : Nat} {file : FileLayout}

structure PageValid (file : FileLayout) (mappings : Nat → Option (Nat × Nat)) (page : Nat)
    (object : PageObject) (load holders : Nat) : Prop where
  counted : object.totalNumMappings = load%2^32
  few : load ≤ 2^32
  used : object.numUsing = holders%2^8
  mapped : object.isMapped = true → 0 < load ∧ object.mapSize = object.maxMapSize ∧
    ∃ mapping, object.pgStartP = some mapping ∧ mappings mapping = some (file.allocGran*page,object.mapSize)
  unmapped : object.isMapped = false → object.mapSize = 0 ∧ holders = 0

def WorkerValid (file : FileLayout) (pages : Nat → PageObject) : Worker → Prop
  | .idle => True
  | .sizeCheck dp needed | .confirm dp needed | .useCheck dp needed | .remap dp needed =>
    needed = (pages (pageOf file dp.address)).maxMapSize ∧ 0 < needed ∧ extent file dp ≤ needed
  | .holding dp mapping =>
    (pages (pageOf file dp.address)).isMapped = true ∧ (pages (pageOf file dp.address)).pgStartP = mapping ∧
      extent file dp ≤ (pages (pageOf file dp.address)).maxMapSize

structure Valid (file : FileLayout) (s : PageState n) : Prop where
  pages : ∀ page, PageValid file s.mappings page (s.pages page) (loadOn file s page) (holdersOn file s page)
  pool : ∀ dp ∈ s.pool, extent file dp ≤ (s.pages (pageOf file dp.address)).maxMapSize
  workers : ∀ w, WorkerValid file s.pages (s.workers w)
  older : ∀ mapping, s.fresh ≤ mapping → s.mappings mapping = none
  quiet : s.inflating = false → (∀ w, s.workers w = .idle) ∧ ∀ page, (s.pages page).isMapped = false

theorem initial_valid : Valid file (initial n) where
  pages page := by
    have load : loadOn file (initial n) page = 0 := by
      simp [loadOn,poolOn,initial,tally_zero,Worker.on,Worker.pair]
    have holders : holdersOn file (initial n) page = 0 := by simp [holdersOn,initial,tally_zero,Worker.holds]
    rw [load,holders]
    exact ⟨rfl,Nat.zero_le _,rfl,(fun mapped => by cases mapped),fun _ => ⟨rfl,rfl⟩⟩
  pool := by simp [initial]
  workers _ := trivial
  older _ _ := rfl
  quiet _ := ⟨fun _ => rfl,fun _ => rfl⟩

-- What a step must not do for the condition of the claim to hold: register more
-- records on a page than total_num_mappings counts, ask for an empty mapping, or
-- take a wrapped num_using for an unused page.
def Sound (file : FileLayout) (s : PageState n) : Action n → Prop
  | .register dp => poolOn file s.pool (pageOf file dp.address) < 2^32
  | .enter _ dp => 0 < (s.pages (pageOf file dp.address)).maxMapSize
  | .remap w => ∀ dp needed, s.workers w = .remap dp needed →
      (s.pages (pageOf file dp.address)).numUsing = 0 → holdersOn file s (pageOf file dp.address) = 0
  | _ => True

theorem load_worker (file : FileLayout) (s : PageState n) (w : Fin n) (worker : Worker) (page : Nat) :
    loadOn file (s.setWorker w worker) page+(if (s.workers w).on file page then 1 else 0) =
      loadOn file s page+(if worker.on file page then 1 else 0) := by
  have moved := tally_update (Worker.on file page) s.workers w worker
  simp only [loadOn,PageState.setWorker]
  omega

theorem holders_worker (file : FileLayout) (s : PageState n) (w : Fin n) (worker : Worker) (page : Nat) :
    holdersOn file (s.setWorker w worker) page+(if (s.workers w).holds file page then 1 else 0) =
      holdersOn file s page+(if worker.holds file page then 1 else 0) :=
  tally_update (Worker.holds file page) s.workers w worker

theorem workers_update {pages : Nat → PageObject} {family : Fin n → Worker}
    (old : ∀ v, v ≠ w → WorkerValid file pages (family v)) (new : WorkerValid file pages worker) :
    ∀ v, WorkerValid file pages (Function.update family w worker v) := by
  intro v
  by_cases same : v = w
  · subst v; rw [Function.update_self]; exact new
  · rw [Function.update_of_ne same]; exact old v same

theorem load_same (file : FileLayout) (s : PageState n) (w : Fin n) (worker : Worker) (pair : worker.pair = (s.workers w).pair) (page : Nat) :
    loadOn file (s.setWorker w worker) page = loadOn file s page := by
  have load := load_worker file s w worker page
  have same : worker.on file page = (s.workers w).on file page := by simp only [Worker.on,pair]
  rw [same] at load
  exact Nat.add_right_cancel load

theorem turn_valid (valid : Valid file s) (busy : s.inflating = true) (pair : worker.pair = (s.workers w).pair)
    (before : ∀ page, (s.workers w).holds file page = false) (after : ∀ page, worker.holds file page = false)
    (new : WorkerValid file s.pages worker) : Valid file (s.setWorker w worker) := by
  refine ⟨?_,valid.pool,workers_update (fun v _ => valid.workers v) new,valid.older,?_⟩
  · intro page
    have holders := holders_worker file s w worker page
    rw [before page,after page] at holders
    rw [load_same file s w worker pair,Nat.add_right_cancel holders]
    exact valid.pages page
  · intro quiet
    exact absurd (busy.symm.trans quiet) (by decide)

theorem busy_inflating (valid : Valid file s) (working : s.workers w ≠ .idle) : s.inflating = true := by
  by_contra quiet
  exact working ((valid.quiet (by simpa using quiet)).1 w)

theorem passed_valid {here there : Worker} (valid : Valid file s) (at_ : s.workers w = here) (working : here ≠ .idle)
    (pair : there.pair = here.pair) (before : ∀ page, here.holds file page = false)
    (after : ∀ page, there.holds file page = false)
    (same : WorkerValid file s.pages here → WorkerValid file s.pages there) : Valid file (s.setWorker w there) := by
  subst at_
  apply turn_valid valid _ pair before after (same (valid.workers w))
  exact busy_inflating valid working

theorem register_valid (valid : Valid file s) (parsing : s.inflating = false)
    (room : poolOn file s.pool (pageOf file dp.address) < 2^32) : Valid file (registerPair file s dp) := by
  obtain ⟨idle,unmapped⟩ := valid.quiet parsing
  have busy : ∀ page, tally (Worker.on file page) s.workers = 0 := fun page =>
    (tally_zero _).mpr fun w => by rw [idle w]; rfl
  have load : ∀ page, loadOn file (registerPair file s dp) page =
      loadOn file s page+(if pageOf file dp.address = page then 1 else 0) := by
    intro page
    simp [loadOn,poolOn,registerPair,PageState.setPage,List.countP_append]
    omega
  refine ⟨?_,?_,?_,valid.older,fun _ => ⟨idle,?_⟩⟩
  · intro page
    have old := valid.pages page
    rw [load page]
    by_cases same : page = pageOf file dp.address
    · subst page
      have full : loadOn file s (pageOf file dp.address) < 2^32 := by
        rw [loadOn,busy]; exact room
      simp only [registerPair,PageState.setPage,Function.update_self,ite_true,countMapping]
      refine ⟨?_,full,old.used,?_,old.unmapped⟩
      · simp only [old.counted]; omega
      · intro mapped; exact absurd mapped (by simp [unmapped])
    · simp only [registerPair,PageState.setPage,Function.update_of_ne same,Ne.symm same,ite_false,Nat.add_zero]
      exact old
  · intro row member
    rcases List.mem_append.mp member with prior | fresh
    · by_cases same : pageOf file row.address = pageOf file dp.address
      · simp only [registerPair,PageState.setPage,same,Function.update_self,countMapping]
        exact Nat.le_trans (same ▸ valid.pool row prior) (Nat.le_max_left ..)
      · simp only [registerPair,PageState.setPage,Function.update_of_ne same]
        exact valid.pool row prior
    · rw [List.mem_singleton.mp fresh]
      simp only [registerPair,PageState.setPage,Function.update_self,countMapping]
      exact Nat.le_max_right ..
  · intro w
    have free : (registerPair file s dp).workers w = .idle := idle w
    rw [free]; trivial
  · intro page
    by_cases same : page = pageOf file dp.address
    · subst page; simp [registerPair,PageState.setPage,unmapped,countMapping]
    · simp [registerPair,PageState.setPage,Function.update_of_ne same,unmapped]

theorem enter_valid (valid : Valid file s) (busy : s.inflating = true) (idle : s.workers w = .idle)
    (member : dp ∈ s.pool) (sized : 0 < (s.pages (pageOf file dp.address)).maxMapSize) :
    Valid file {s.setWorker w (.sizeCheck dp (s.pages (pageOf file dp.address)).maxMapSize) with pool:=s.pool.erase dp} := by
  refine ⟨?_,fun row rest => valid.pool row (List.mem_of_mem_erase rest),
    workers_update (fun v _ => valid.workers v) ⟨rfl,sized,valid.pool dp member⟩,valid.older,?_⟩
  · intro page
    have load := load_worker file s w (.sizeCheck dp (s.pages (pageOf file dp.address)).maxMapSize) page
    have holders := holders_worker file s w (.sizeCheck dp (s.pages (pageOf file dp.address)).maxMapSize) page
    have taken := (List.perm_cons_erase member).countP_eq (fun row => pageOf file row.address == page)
    rw [List.countP_cons] at taken
    have pooled : loadOn file {s.setWorker w (.sizeCheck dp (s.pages (pageOf file dp.address)).maxMapSize) with
        pool:=s.pool.erase dp} page = loadOn file s page := by
      simp only [idle,Worker.on,Worker.pair,Option.any_none,Option.any_some,loadOn,poolOn,PageState.setWorker] at load ⊢
      by_cases here : pageOf file dp.address = page <;> simp [here] at load taken ⊢ <;> omega
    rw [pooled]
    simp only [idle,Worker.holds,Bool.false_eq_true,ite_false,Nat.add_zero] at holders
    have same : holdersOn file {s.setWorker w (.sizeCheck dp (s.pages (pageOf file dp.address)).maxMapSize) with
        pool:=s.pool.erase dp} page = holdersOn file s page := holders
    rw [same]
    exact valid.pages page
  · intro quiet
    exact absurd (busy.symm.trans quiet) (by decide)

theorem WorkerValid.agree (valid : WorkerValid file pages worker)
    (same : ∀ page, (after page).maxMapSize = (pages page).maxMapSize ∧
      (after page).isMapped = (pages page).isMapped ∧ (after page).pgStartP = (pages page).pgStartP) :
    WorkerValid file after worker := by
  cases worker <;> simp only [WorkerValid,(same _).1,(same _).2.1,(same _).2.2] at valid ⊢ <;> exact valid

theorem addUser_fields (s : PageState n) (page other : Nat) :
    ((addUser s page).pages other).maxMapSize = (s.pages other).maxMapSize ∧
    ((addUser s page).pages other).isMapped = (s.pages other).isMapped ∧
    ((addUser s page).pages other).pgStartP = (s.pages other).pgStartP := by
  by_cases same : other = page
  · subst other; simp [addUser,PageState.setPage]
  · simp [addUser,PageState.setPage,Function.update_of_ne same]

theorem confirm_valid (valid : Valid file s) (at_ : s.workers w = .confirm dp needed)
    (fits : needed ≤ (s.pages (pageOf file dp.address)).mapSize) :
    Valid file ((addUser s (pageOf file dp.address)).setWorker w
      (.holding dp (s.pages (pageOf file dp.address)).pgStartP)) := by
  have busy : s.inflating = true := busy_inflating (w:=w) valid (by rw [at_]; simp)
  have own := valid.workers w
  rw [at_] at own
  obtain ⟨exact_,sized,inside⟩ := own
  have mapped : (s.pages (pageOf file dp.address)).isMapped = true := by
    by_contra unmapped
    have empty := ((valid.pages (pageOf file dp.address)).unmapped (by simpa using unmapped)).1
    omega
  let worker := Worker.holding dp (s.pages (pageOf file dp.address)).pgStartP
  refine ⟨?_,?_,?_,valid.older,fun quiet => absurd (busy.symm.trans quiet) (by decide)⟩
  · intro page
    have load := load_same file s w worker (by rw [at_]; rfl) page
    have holders := holders_worker file s w worker page
    simp only [at_,Worker.holds,Bool.false_eq_true,ite_false,Nat.add_zero,worker] at holders
    have old := valid.pages page
    change PageValid file s.mappings page ((addUser s (pageOf file dp.address)).pages page)
      (loadOn file (s.setWorker w worker) page) (holdersOn file (s.setWorker w worker) page)
    rw [load,holders]
    by_cases same : page = pageOf file dp.address
    · subst page
      simp only [addUser,PageState.setPage,Function.update_self,beq_self_eq_true,ite_true]
      refine ⟨old.counted,old.few,?_,old.mapped,?_⟩
      · simp only [old.used]; omega
      · intro unmapped; exact absurd (mapped.symm.trans unmapped) (by decide)
    · simp only [addUser,PageState.setPage,Function.update_of_ne same,beq_iff_eq,Ne.symm same,ite_false,Nat.add_zero]
      exact old
  · intro row member
    exact Nat.le_trans (valid.pool row member) (Nat.le_of_eq (addUser_fields s _ _).1.symm)
  · refine workers_update (fun v _ => (valid.workers v).agree (addUser_fields s _)) ?_
    have fields := addUser_fields s (pageOf file dp.address) (pageOf file dp.address)
    exact ⟨fields.2.1.trans mapped,fields.2.2,Nat.le_trans (Nat.le_trans inside (Nat.le_of_eq exact_)) (Nat.le_of_eq fields.1.symm)⟩

-- What freePageObject leaves: an unmapped page, every other page and its mapping.
structure Freed (file : FileLayout) (s next : PageState n) (page : Nat) : Prop where
  others : ∀ other, other ≠ page → next.pages other = s.pages other
  here : (next.pages page).isMapped = false ∧ (next.pages page).mapSize = 0
  kept : (next.pages page).maxMapSize = (s.pages page).maxMapSize ∧
    (next.pages page).numUsing = (s.pages page).numUsing ∧
    (next.pages page).totalNumMappings = (s.pages page).totalNumMappings
  mappings : ∀ other mapping size, other ≠ page → s.mappings mapping = some (file.allocGran*other,size) →
    next.mappings mapping = some (file.allocGran*other,size)
  gone : ∀ mapping, s.mappings mapping = none → next.mappings mapping = none
  rest : next.pool = s.pool ∧ next.workers = s.workers ∧ next.fresh = s.fresh ∧ next.inflating = s.inflating

theorem free_exact {s : PageState n} (owned : (s.pages page).isMapped = true → ∃ mapping size,
      (s.pages page).pgStartP = some mapping ∧ s.mappings mapping = some (file.allocGran*page,size))
    (empty : (s.pages page).isMapped = false → (s.pages page).mapSize = 0) :
    Freed file s (freePageObject s page) page := by
  unfold freePageObject
  by_cases mapped : (s.pages page).isMapped = true
  · obtain ⟨own,_,start,entry⟩ := owned mapped
    simp only [mapped,ite_true,start]
    refine ⟨fun other differs => Function.update_of_ne differs _ _,?_,?_,?_,?_,⟨rfl,rfl,rfl,rfl⟩⟩
    · simp [PageState.setPage]
    · simp [PageState.setPage]
    · intro other mapping size differs found
      have separate : mapping ≠ own := by
        rintro rfl
        rw [entry,Option.some.injEq,Prod.mk.injEq] at found
        exact differs (Nat.eq_of_mul_eq_mul_left file.granular found.1.symm)
      simpa [PageState.setPage,Function.update_of_ne separate] using found
    · intro mapping free
      by_cases same : mapping = own
      · subst mapping; simp
      · simpa [PageState.setPage,Function.update_of_ne same] using free
  · have unmapped : (s.pages page).isMapped = false := by simpa using mapped
    simp only [unmapped]
    exact ⟨fun _ _ => rfl,⟨unmapped,empty unmapped⟩,⟨rfl,rfl,rfl⟩,fun _ _ _ _ found => found,
      fun _ free => free,⟨rfl,rfl,rfl,rfl⟩⟩

theorem holders_zero (none_ : holdersOn file s page = 0) (at_ : s.workers w = .holding dp mapping) :
    pageOf file dp.address ≠ page := by
  have idle := (tally_zero _).mp none_ w
  rw [at_] at idle
  simpa [Worker.holds] using idle

-- With nobody holding the page, what the workers rely on survives a change of
-- its mapping.
theorem workers_free {s : PageState n} (old : WorkerValid file s.pages (s.workers w))
    (none_ : holdersOn file s page = 0) (others : ∀ other, other ≠ page → after other = s.pages other)
    (sized : (after page).maxMapSize = (s.pages page).maxMapSize) :
    WorkerValid file after (s.workers w) := by
  have largest : ∀ other, (after other).maxMapSize = (s.pages other).maxMapSize := by
    intro other
    by_cases same : other = page
    · subst other; exact sized
    · rw [others other same]
  cases at_ : s.workers w with
  | idle => trivial
  | holding dp mapping =>
    rw [at_] at old
    have elsewhere := others _ (holders_zero none_ at_)
    simpa only [WorkerValid,elsewhere] using old
  | sizeCheck dp needed | confirm dp needed | useCheck dp needed | remap dp needed =>
    rw [at_] at old
    simpa only [WorkerValid,largest] using old

theorem PageValid.owned (valid : PageValid file mappings page object load holders) (mapped : object.isMapped = true) :
    ∃ mapping size, object.pgStartP = some mapping ∧ mappings mapping = some (file.allocGran*page,size) := by
  obtain ⟨_,_,mapping,start,entry⟩ := valid.mapped mapped
  exact ⟨mapping,_,start,entry⟩

theorem PageValid.carry (valid : PageValid file mappings page object load holders)
    (kept : ∀ mapping size, mappings mapping = some (file.allocGran*page,size) →
      after mapping = some (file.allocGran*page,size)) : PageValid file after page object load holders := by
  refine ⟨valid.counted,valid.few,valid.used,fun mapped => ?_,valid.unmapped⟩
  obtain ⟨loaded,size,mapping,start,entry⟩ := valid.mapped mapped
  exact ⟨loaded,size,mapping,start,kept mapping _ entry⟩

theorem remap_valid (valid : Valid file s) (at_ : s.workers w = .remap dp needed)
    (unused : holdersOn file s (pageOf file dp.address) = 0) :
    Valid file ((mapPage file (addUser s (pageOf file dp.address)) (pageOf file dp.address) needed).setWorker w
      (.holding dp (some s.fresh))) := by
  have busy : s.inflating = true := busy_inflating (w:=w) valid (by rw [at_]; simp)
  have own := valid.workers w
  rw [at_] at own
  obtain ⟨largest,sized,inside⟩ := own
  let home := pageOf file dp.address
  have old := valid.pages home
  have used : (addUser s home).pages home = {s.pages home with numUsing:=((s.pages home).numUsing+1)%2^8} := by
    simp [addUser,PageState.setPage]
  have freed : Freed file (addUser s home) (freePageObject (addUser s home) home) home := by
    refine free_exact ?_ ?_
    · rw [used]; exact old.owned
    · rw [used]; exact fun unmapped => (old.unmapped unmapped).1
  obtain ⟨others,⟨_,_⟩,⟨keptSize,keptUsing,keptTotal⟩,mappings,gone,pool,workers,fresh,inflating⟩ := freed
  rw [used] at keptSize keptUsing keptTotal
  let after := mapPage file (addUser s home) home needed
  have afterOthers : ∀ other, other ≠ home → after.pages other = s.pages other := by
    intro other differs
    simp only [after,mapPage,PageState.setPage,Function.update_of_ne differs,others other differs]
    exact Function.update_of_ne differs _ _
  have afterHere : after.pages home = {s.pages home with
      isMapped:=true,mapSize:=needed,pgStartP:=some s.fresh,numUsing:=((s.pages home).numUsing+1)%2^8} := by
    have name : (addUser s home).fresh = s.fresh := rfl
    simp only [after,mapPage,PageState.setPage,Function.update_self,keptSize,keptUsing,keptTotal,name]
  have afterMappings : ∀ mapping, after.mappings mapping =
      if mapping = s.fresh then some (file.allocGran*home,needed)
      else (freePageObject (addUser s home) home).mappings mapping := by
    intro mapping
    exact Function.update_apply ..
  have load := load_same file s w (.holding dp (some s.fresh)) (by rw [at_]; rfl)
  have afterLoad : ∀ page, loadOn file (after.setWorker w (.holding dp (some s.fresh))) page = loadOn file s page := by
    intro page
    rw [← load page]
    simp only [loadOn,PageState.setWorker,after,mapPage,PageState.setPage,pool,workers]
    rfl
  have afterHolders : ∀ page, holdersOn file (after.setWorker w (.holding dp (some s.fresh))) page =
      holdersOn file s page+(if home = page then 1 else 0) := by
    intro page
    have holders := holders_worker file s w (.holding dp (some s.fresh)) page
    simp only [at_,Worker.holds,Bool.false_eq_true,ite_false,Nat.add_zero,beq_iff_eq] at holders
    rw [← holders]
    simp only [holdersOn,PageState.setWorker,after,mapPage,PageState.setPage,workers]
    rfl
  have largestSame : ∀ page, (after.pages page).maxMapSize = (s.pages page).maxMapSize := by
    intro page
    by_cases same : page = home
    · subst page; rw [afterHere]
    · rw [afterOthers page same]
  refine ⟨?_,?_,?_,?_,?_⟩
  · intro page
    rw [afterLoad page,afterHolders page]
    change PageValid file after.mappings page (after.pages page) _ _
    by_cases same : page = home
    · subst page
      have loaded : 0 < loadOn file s home := by
        have positive := tally_pos (Worker.on file home) s.workers w (by rw [at_]; exact beq_self_eq_true _)
        exact Nat.lt_of_lt_of_le positive (Nat.le_add_left ..)
      rw [afterHere,if_pos rfl]
      refine ⟨old.counted,old.few,?_,fun _ => ⟨loaded,largest,s.fresh,rfl,?_⟩,fun unmapped => by cases unmapped⟩
      · simp only [old.used]; omega
      · rw [afterMappings,if_pos rfl]
    · rw [afterOthers page same,if_neg (Ne.symm same),Nat.add_zero]
      refine (valid.pages page).carry ?_
      intro mapping size found
      rw [afterMappings,if_neg]
      · exact mappings page mapping size same found
      · rintro rfl
        rw [valid.older _ (Nat.le_refl _)] at found
        cases found
  · intro row member
    change row ∈ (freePageObject (addUser s home) home).pool at member
    rw [pool] at member
    exact Nat.le_trans (valid.pool row member) (Nat.le_of_eq (largestSame _).symm)
  · change ∀ v, WorkerValid file after.pages (Function.update (freePageObject (addUser s home) home).workers w _ v)
    rw [workers]
    refine workers_update (fun v _ => workers_free (s:=s) (valid.workers v) unused afterOthers (largestSame home)) ?_
    simp only [WorkerValid]
    change (after.pages home).isMapped = true ∧ (after.pages home).pgStartP = _ ∧ _ ≤ (after.pages home).maxMapSize
    rw [afterHere]
    exact ⟨rfl,rfl,largest ▸ inside⟩
  · intro mapping newer
    change after.mappings mapping = none
    change s.fresh+1 ≤ mapping at newer
    rw [afterMappings,if_neg (by omega)]
    exact gone mapping (valid.older mapping (Nat.le_of_succ_le newer))
  · intro quiet
    change (freePageObject (addUser s home) home).inflating = false at quiet
    rw [inflating] at quiet
    exact absurd (busy.symm.trans quiet) (by decide)

section Release
variable {s : PageState n} {w : Fin n} {dp : DataPair} {mapping : Option Nat}

def drop (file : FileLayout) (s : PageState n) (w : Fin n) (dp : DataPair) : PageState n :=
  (dropUser s (pageOf file dp.address)).setWorker w .idle

theorem drop_load (file : FileLayout) (at_ : s.workers w = .holding dp mapping) (page : Nat) :
    loadOn file (drop file s w dp) page+(if pageOf file dp.address = page then 1 else 0) = loadOn file s page := by
  have load := load_worker file s w .idle page
  simp only [at_,Worker.on,Worker.pair,Option.any_some,Option.any_none,beq_iff_eq,Bool.false_eq_true,ite_false,
    Nat.add_zero] at load
  exact load

theorem drop_holders (file : FileLayout) (at_ : s.workers w = .holding dp mapping) (page : Nat) :
    holdersOn file (drop file s w dp) page+(if pageOf file dp.address = page then 1 else 0) =
      holdersOn file s page := by
  have holders := holders_worker file s w .idle page
  simp only [at_,Worker.holds,beq_iff_eq,Bool.false_eq_true,ite_false,Nat.add_zero] at holders
  exact holders

theorem drop_here (s : PageState n) (w : Fin n) (dp : DataPair) :
    (drop file s w dp).pages (pageOf file dp.address) = {s.pages (pageOf file dp.address) with
      numUsing:=((s.pages (pageOf file dp.address)).numUsing+2^8-1)%2^8
      totalNumMappings:=((s.pages (pageOf file dp.address)).totalNumMappings+2^32-1)%2^32} :=
  Function.update_self _ _ _

theorem drop_other (s : PageState n) (w : Fin n) (differs : page ≠ pageOf file dp.address) :
    (drop file s w dp).pages page = s.pages page :=
  Function.update_of_ne differs _ _

theorem drop_fields (file : FileLayout) (s : PageState n) (w : Fin n) (dp : DataPair) (page : Nat) :
    ((drop file s w dp).pages page).maxMapSize = (s.pages page).maxMapSize ∧
    ((drop file s w dp).pages page).isMapped = (s.pages page).isMapped ∧
    ((drop file s w dp).pages page).pgStartP = (s.pages page).pgStartP ∧
    ((drop file s w dp).pages page).mapSize = (s.pages page).mapSize := by
  by_cases same : page = pageOf file dp.address
  · subst page; rw [drop_here]; exact ⟨rfl,rfl,rfl,rfl⟩
  · rw [drop_other s w same]; exact ⟨rfl,rfl,rfl,rfl⟩

theorem drop_counted (valid : Valid file s) (at_ : s.workers w = .holding dp mapping) (page : Nat) :
    ((drop file s w dp).pages page).totalNumMappings = loadOn file (drop file s w dp) page%2^32 ∧
    loadOn file (drop file s w dp) page ≤ 2^32 ∧
    ((drop file s w dp).pages page).numUsing = holdersOn file (drop file s w dp) page%2^8 := by
  have old := valid.pages page
  have load := drop_load file at_ page
  have holders := drop_holders file at_ page
  have few := old.few
  by_cases same : page = pageOf file dp.address
  · subst page
    rw [if_pos rfl] at load holders
    rw [drop_here]
    simp only [old.counted,old.used]
    omega
  · rw [if_neg (Ne.symm same),Nat.add_zero] at load holders
    rw [drop_other s w same,load,holders]
    exact ⟨old.counted,old.few,old.used⟩

theorem drop_workers (valid : Valid file s) (v : Fin n) :
    WorkerValid file (drop file s w dp).pages ((drop file s w dp).workers v) := by
  have idle : WorkerValid file (drop file s w dp).pages .idle := trivial
  refine workers_update (fun u _ => ?_) idle v
  exact (valid.workers u).agree fun page =>
    ⟨(drop_fields file s w dp page).1,(drop_fields file s w dp page).2.1,(drop_fields file s w dp page).2.2.1⟩

theorem drop_valid (valid : Valid file s) (at_ : s.workers w = .holding dp mapping)
    (more : loadOn file (drop file s w dp) (pageOf file dp.address) ≠ 0) : Valid file (drop file s w dp) := by
  have busy : s.inflating = true := busy_inflating (w:=w) valid (by rw [at_]; simp)
  refine ⟨?_,?_,drop_workers valid,valid.older,fun quiet => absurd (busy.symm.trans quiet) (by decide)⟩
  · intro page
    obtain ⟨counted,few,used⟩ := drop_counted valid at_ page
    obtain ⟨largest,isMapped,start,size⟩ := drop_fields file s w dp page
    have old := valid.pages page
    have load := drop_load file at_ page
    have holders := drop_holders file at_ page
    refine ⟨counted,few,used,fun mapped => ?_,fun unmapped => ?_⟩
    · obtain ⟨loaded,full,name,named,entry⟩ := old.mapped (isMapped ▸ mapped)
      refine ⟨?_,by rw [size,largest,full],name,start.trans named,by rw [size]; exact entry⟩
      by_cases same : pageOf file dp.address = page
      · subst page; exact Nat.pos_of_ne_zero more
      · rw [if_neg same] at load; omega
    · obtain ⟨empty,none_⟩ := old.unmapped (isMapped ▸ unmapped)
      exact ⟨size.trans empty,by omega⟩
  · intro row member
    exact Nat.le_trans (valid.pool row member) (Nat.le_of_eq (drop_fields file s w dp _).1.symm)

theorem last_valid (valid : Valid file s) (at_ : s.workers w = .holding dp mapping)
    (last : loadOn file (drop file s w dp) (pageOf file dp.address) = 0) :
    Valid file (freePageObject (drop file s w dp) (pageOf file dp.address)) := by
  have busy : s.inflating = true := busy_inflating (w:=w) valid (by rw [at_]; simp)
  let home := pageOf file dp.address
  obtain ⟨_,isMapped,start,size⟩ := drop_fields file s w dp home
  have freed : Freed file (drop file s w dp) (freePageObject (drop file s w dp) home) home := by
    refine free_exact (fun mapped => ?_) (fun unmapped => ?_)
    · rw [start]; exact (valid.pages home).owned (isMapped ▸ mapped)
    · rw [size]; exact ((valid.pages home).unmapped (isMapped ▸ unmapped)).1
  obtain ⟨others,⟨off,empty⟩,⟨keptSize,keptUsing,keptTotal⟩,mappings,gone,pool,workers,fresh,inflating⟩ := freed
  have afterLoad : ∀ page, loadOn file (freePageObject (drop file s w dp) home) page =
      loadOn file (drop file s w dp) page := by
    intro page; simp only [loadOn,pool,workers]
  have afterHolders : ∀ page, holdersOn file (freePageObject (drop file s w dp) home) page =
      holdersOn file (drop file s w dp) page := by
    intro page; simp only [holdersOn,workers]
  have unheld : holdersOn file (drop file s w dp) home = 0 :=
    Nat.le_zero.mp (last ▸ holders_le_load file (drop file s w dp) home)
  have largestSame : ∀ page, ((freePageObject (drop file s w dp) home).pages page).maxMapSize =
      (s.pages page).maxMapSize := by
    intro page
    rw [← (drop_fields file s w dp page).1]
    by_cases same : page = home
    · subst page; exact keptSize
    · rw [others page same]
  refine ⟨?_,?_,?_,?_,?_⟩
  · intro page
    obtain ⟨counted,few,used⟩ := drop_counted valid at_ page
    rw [afterLoad page,afterHolders page]
    by_cases same : page = home
    · subst page
      exact ⟨keptTotal.trans counted,few,keptUsing.trans used,
        fun mapped => absurd (off.symm.trans mapped) (by decide),fun _ => ⟨empty,unheld⟩⟩
    · have load := drop_load file at_ page
      have holders := drop_holders file at_ page
      rw [if_neg (Ne.symm same),Nat.add_zero] at load holders
      rw [others page same,drop_other s w same,load,holders]
      exact (valid.pages page).carry fun name width found => mappings page name width same found
  · intro row member
    rw [pool] at member
    exact Nat.le_trans (valid.pool row member) (Nat.le_of_eq (largestSame _).symm)
  · intro v
    rw [workers]
    exact workers_free (drop_workers valid v) unheld others keptSize
  · intro name newer
    rw [fresh] at newer
    exact gone name (valid.older name newer)
  · intro quiet
    rw [inflating] at quiet
    exact absurd (busy.symm.trans quiet) (by decide)

theorem release_valid (valid : Valid file s) (at_ : s.workers w = .holding dp mapping) :
    Valid file (if ((drop file s w dp).pages (pageOf file dp.address)).totalNumMappings = 0
      then freePageObject (drop file s w dp) (pageOf file dp.address) else drop file s w dp) := by
  obtain ⟨counted,few,_⟩ := drop_counted valid at_ (pageOf file dp.address)
  have load := drop_load file at_ (pageOf file dp.address)
  have before := (valid.pages (pageOf file dp.address)).few
  rw [if_pos rfl] at load
  split
  · exact last_valid valid at_ (by omega)
  · exact drop_valid valid at_ (by omega)

end Release

theorem parsed_valid (valid : Valid file s) : Valid file {s with inflating:=true} :=
  ⟨valid.pages,valid.pool,valid.workers,valid.older,fun quiet => by cases quiet⟩

theorem no_load {s : PageState n} (taken : s.pool = []) (idle : ∀ w, s.workers w = .idle) (page : Nat) :
    loadOn file s page = 0 := by
  have working : tally (Worker.on file page) s.workers = 0 := (tally_zero _).mpr fun w => by rw [idle w]; rfl
  rw [loadOn,working,taken]
  rfl

theorem settled {s : PageState n} (valid : Valid file s) (taken : s.pool = []) (idle : ∀ w, s.workers w = .idle)
    (page : Nat) : (s.pages page).isMapped = false ∧ (s.pages page).totalNumMappings = 0 := by
  obtain ⟨counted,_,_,mapped,_⟩ := valid.pages page
  rw [no_load taken idle] at counted mapped
  refine ⟨?_,counted⟩
  by_contra still
  exact absurd (mapped (by simpa using still)).1 (Nat.lt_irrefl 0)

theorem joined_valid (valid : Valid file s) (taken : s.pool = []) (idle : ∀ w, s.workers w = .idle) :
    Valid file {s with inflating:=false} :=
  ⟨valid.pages,valid.pool,valid.workers,valid.older,fun _ => ⟨idle,fun page => (settled valid taken idle page).1⟩⟩

theorem next_valid (valid : Valid file s) (sound : Sound file s action) (ran : next file s action = some t) :
    Valid file t := by
  cases action with
  | register dp =>
    simp only [next] at ran
    split at ran
    · cases ran
    · rename_i parsing
      cases ran
      exact register_valid valid (by simpa using parsing) sound
  | parsed =>
    simp only [next] at ran
    split at ran
    · cases ran
    · cases ran; exact parsed_valid valid
  | enter w dp =>
    simp only [next] at ran
    split at ran
    · rename_i ready
      cases ran
      exact enter_valid valid ready.1 ready.2.1 ready.2.2 sound
    · cases ran
  | sizeCheck w =>
    simp only [next] at ran
    split at ran
    · rename_i dp needed at_
      split at ran <;> cases ran <;> exact passed_valid valid at_ nofun rfl (fun _ => rfl) (fun _ => rfl) id
    · cases ran
  | confirm w =>
    simp only [next] at ran
    split at ran
    · rename_i dp needed at_
      split at ran
      · rename_i fits
        cases ran
        exact confirm_valid valid at_ fits
      · cases ran
        exact passed_valid valid at_ nofun rfl (fun _ => rfl) (fun _ => rfl) id
    · cases ran
  | useCheck w =>
    simp only [next] at ran
    split at ran
    · rename_i dp needed at_
      split at ran <;> cases ran <;> exact passed_valid valid at_ nofun rfl (fun _ => rfl) (fun _ => rfl) id
    · cases ran
  | remap w =>
    simp only [next] at ran
    split at ran
    · rename_i dp needed at_
      split at ran
      · rename_i unused
        cases ran
        exact remap_valid valid at_ (sound dp needed at_ unused)
      · cases ran
        exact passed_valid valid at_ nofun rfl (fun _ => rfl) (fun _ => rfl) id
    · cases ran
  | release w =>
    simp only [next] at ran
    split at ran
    · rename_i dp mapping at_
      cases ran
      exact release_valid valid at_
    · cases ran
  | joined =>
    simp only [next] at ran
    split at ran
    · rename_i ready
      cases ran
      exact joined_valid valid ready.2.1 ready.2.2
    · cases ran

-- What the pointer a worker got from mt_navigateTo rests on: its page is mapped
-- by the very mapping it was given, which spans the chunk.
def Safe (file : FileLayout) (s : PageState n) : Prop :=
  ∀ w dp mapping, s.workers w = .holding dp mapping →
    (s.pages (pageOf file dp.address)).isMapped = true ∧ (s.pages (pageOf file dp.address)).pgStartP = mapping ∧
    ∃ name start size, mapping = some name ∧ s.mappings name = some (start,size) ∧
      start ≤ dp.address ∧ dp.address+dp.chunkSize ≤ start+size

def Settled (s : PageState n) : Prop :=
  s.pool = [] → (∀ w, s.workers w = .idle) →
    ∀ page, (s.pages page).isMapped = false ∧ (s.pages page).totalNumMappings = 0

theorem valid_safe {s : PageState n} (valid : Valid file s) : Safe file s := by
  intro w dp mapping at_
  have own := valid.workers w
  rw [at_] at own
  obtain ⟨isMapped,start,inside⟩ := own
  obtain ⟨_,full,name,named,entry⟩ := (valid.pages _).mapped isMapped
  refine ⟨isMapped,start,name,_,_,start.symm.trans named,entry,?_⟩
  have divided := Nat.div_add_mod dp.address file.allocGran
  rw [full]
  simp only [extent,pageOf] at inside ⊢
  omega

def Step (file : FileLayout) (s : PageState n) (action : Action n) (t : PageState n) : Prop :=
  next file s action = some t

def SoundStep (file : FileLayout) (s : PageState n) (action : Action n) (t : PageState n) : Prop :=
  Sound file s action ∧ Step file s action t

-- In a process with at most 256 workers num_using never wraps under a remap: the
-- worker that tests it holds nothing itself.
theorem few_workers_remap {s : PageState n} (valid : Valid file s) (few : n ≤ 256) (w : Fin n) :
    Sound file s (.remap w) := by
  intro dp needed at_ unused
  have used := (valid.pages (pageOf file dp.address)).used
  have holders := holders_worker file s w (.holding dp none) (pageOf file dp.address)
  have most := tally_le (Worker.holds file (pageOf file dp.address)) (s.setWorker w (.holding dp none)).workers
  simp only [at_,Worker.holds,Bool.false_eq_true,ite_false,Nat.add_zero,beq_self_eq_true,ite_true] at holders
  rw [holdersOn] at holders
  omega

theorem navigate_release_safe {s : PageState n} (path : Runs.Run (SoundStep file) (initial n) actions s) :
    Safe file s ∧ Settled s := by
  have valid : Valid file s :=
    path.invariant (Valid file) (fun _ _ _ valid taken => next_valid valid taken.1 taken.2) initial_valid
  exact ⟨valid_safe valid,settled valid⟩

end Invariant

section Wrap

def onePage : FileLayout := ⟨4096,4096,page_granular⟩

def oneByte : DataPair := ⟨0,1,[]⟩

variable (n : Nat)

def listed (count : Nat) : PageState (n+2) :=
  {initial (n+2) with
    pages:=Function.update (initial (n+2)).pages 0 ⟨false,0,min count 1,none,0,count%2^32⟩
    pool:=List.replicate count oneByte}

theorem listed_step (count : Nat) : Step onePage (listed n count) (.register oneByte) (listed n (count+1)) := by
  simp [Step,next,listed,initial,registerPair,countMapping,PageState.setPage,pageOf,extent,oneByte,onePage,
    List.replicate_succ']

theorem listed_run (count : Nat) : ∃ actions, Runs.Run (Step onePage) (initial (n+2)) actions (listed n count) := by
  induction count with
  | zero =>
    have none_ : listed n 0 = initial (n+2) := by
      simp only [listed,initial,Nat.zero_min,Nat.zero_mod,List.replicate_zero]
      congr 1
      exact Function.update_eq_self 0 _
    rw [none_]
    exact ⟨_,.nil⟩
  | succ count ih =>
    obtain ⟨actions,path⟩ := ih
    exact ⟨_,path.step (listed_step n count)⟩

-- Worker 0 stands before its second test of num_using, the next k workers hold
-- the page.
def crowd (k : Nat) : PageState (n+2) where
  pages := Function.update (initial (n+2)).pages 0 ⟨true,1,1,some 0,k%2^8,(n+2)%2^32⟩
  mappings := Function.update (fun _ => none) 0 (some (0,1))
  fresh := 1
  pool := List.replicate (n+1-k) oneByte
  inflating := true
  workers w := if w.val = 0 then .remap oneByte 1 else if w.val ≤ k then .holding oneByte (some 0) else .idle

theorem crowd_first : ∃ actions, Runs.Run (Step onePage) (listed n (n+2)) actions (crowd n 1) := by
  refine ⟨[.parsed,.enter 0 oneByte,.sizeCheck 0,.useCheck 0,.enter 1 oneByte,.sizeCheck 1,.useCheck 1,.remap 1],
    Runs.exec_run ?_⟩
  have seated : Function.update (Function.update (fun _ : Fin (n+2) => Worker.idle) 0 (.remap oneByte 1)) 1
      (.holding oneByte (some 0)) = (crowd n 1).workers := by
    funext w
    by_cases first : w = 0
    · subst w; rfl
    · by_cases second : w = 1
      · subst w; simp [crowd]
      · rw [Function.update_of_ne second,Function.update_of_ne first]
        have : w.val ≠ 0 := fun same => first (Fin.ext same)
        have : w.val ≠ 1 := fun same => second (Fin.ext same)
        simp only [crowd]
        rw [if_neg (by omega),if_neg (by omega)]
  simp [Runs.exec,next,listed,initial,PageState.setWorker,PageState.setPage,pageOf,oneByte,onePage,addUser,mapPage,
    freePageObject,List.replicate_succ]
  exact congrArg (PageState.mk _ _ 1 (List.replicate n oneByte) true) seated

theorem crowd_step (k : Nat) (room : k < n+1) :
    ∃ actions, Runs.Run (Step onePage) (crowd n k) actions (crowd n (k+1)) := by
  let w : Fin (n+2) := ⟨k+1,by omega⟩
  refine ⟨[.enter w oneByte,.sizeCheck w,.confirm w],Runs.exec_run ?_⟩
  obtain ⟨rest,left⟩ : ∃ rest, n+1-k = rest+1 := ⟨n-k,by omega⟩
  have fewer : n+1-(k+1) = rest := by omega
  simp [Runs.exec,next,crowd,w,PageState.setWorker,PageState.setPage,pageOf,oneByte,onePage,addUser,left,fewer,
    List.replicate_succ]
  funext v
  by_cases same : v = w
  · subst v; simp [w]
  · rw [Function.update_of_ne same]
    have differs : v.val ≠ k+1 := fun equal => same (Fin.ext equal)
    simp only [show v.val ≤ k+1 ↔ v.val ≤ k by omega]

theorem crowd_run (k : Nat) (some_ : 1 ≤ k) (room : k ≤ n+1) :
    ∃ actions, Runs.Run (Step onePage) (initial (n+2)) actions (crowd n k) := by
  induction k,some_ using Nat.le_induction with
  | base =>
    obtain ⟨_,listing⟩ := listed_run n (n+2)
    obtain ⟨_,seating⟩ := crowd_first n
    exact ⟨_,listing.append seating⟩
  | succ k some_ ih =>
    obtain ⟨_,earlier⟩ := ih (by omega)
    obtain ⟨_,taken⟩ := crowd_step n k (by omega)
    exact ⟨_,earlier.append taken⟩

-- With 256 holders num_using reads 0 and worker 0 maps the page anew.
theorem crowd_remap (k : Nat) (wrapped : k%2^8 = 0) : Step onePage (crowd n k) (.remap 0)
    ((mapPage onePage (addUser (crowd n k) 0) 0 1).setWorker 0 (.holding oneByte (some 1))) := by
  have unused : ((crowd n k).pages (pageOf onePage oneByte.address)).numUsing = 0 := wrapped
  have at_ : (crowd n k).workers 0 = .remap oneByte 1 := rfl
  simp only [Step,next,at_,unused,ite_true]
  rfl

theorem user_counter_wraps : ∃ actions s, Runs.Run (Step onePage) (initial 257) actions s ∧ ¬ Safe onePage s := by
  obtain ⟨_,path⟩ := crowd_run 255 256 (by decide) (by decide)
  refine ⟨_,_,path.step (crowd_remap 255 256 (by decide)),fun safe => ?_⟩
  have same := (safe 1 oneByte (some 0) rfl).2.1
  have start : ((mapPage onePage (addUser (crowd 255 256) 0) 0 1).pages 0).pgStartP = some 1 :=
    rfl
  exact absurd (start.symm.trans same) (by decide)

def first : Fin 1 := ⟨0,Nat.one_pos⟩

def asking : PageState 1 :=
  {({registerPair onePage (initial 1) oneByte with inflating:=true} : PageState 1).setWorker first (.sizeCheck oneByte 1) with
    pool:=[]}

def waiting : PageState 1 := (asking.setWorker first (.useCheck oneByte 1)).setWorker first (.remap oneByte 1)

def served : PageState 1 :=
  (mapPage onePage (addUser waiting 0) 0 1).setWorker first (.holding oneByte (some 0))

theorem navigate_release_safe_once : Safe onePage served ∧ Settled served := by
  have registered : SoundStep onePage (initial 1) (.register oneByte) _ := ⟨Nat.two_pow_pos 32,rfl⟩
  have parsed : SoundStep onePage (registerPair onePage (initial 1) oneByte) .parsed _ := ⟨trivial,rfl⟩
  have entered : SoundStep onePage {registerPair onePage (initial 1) oneByte with inflating:=true}
    (.enter first oneByte) asking := ⟨Nat.zero_lt_one,rfl⟩
  have missed : SoundStep onePage asking (.sizeCheck first) (asking.setWorker first (.useCheck oneByte 1)) := ⟨trivial,rfl⟩
  have unused : SoundStep onePage (asking.setWorker first (.useCheck oneByte 1)) (.useCheck first) waiting := ⟨trivial,rfl⟩
  have unheld : ∀ page, holdersOn onePage waiting page = 0 := fun page => (tally_zero _).mpr fun w => by
    rw [Subsingleton.elim w first]; rfl
  have remapped : SoundStep onePage waiting (.remap first) served := ⟨fun _ _ _ _ => unheld _,rfl⟩
  exact navigate_release_safe
    ((((((Runs.Run.single registered).step parsed).step entered).step missed).step unused).step remapped)

end Wrap
end GetMatVar.PageObjects
