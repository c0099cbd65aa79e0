import GetMatVar.MapObjects
import GetMatVar.PageObjects

namespace GetMatVar
open Ledger

namespace PageObjects
variable {n : Nat} {file : FileLayout}

section Model

def freePageObjectCalls (s : PageState n) (page : Nat) : List (Entry Region) :=
  if (s.pages page).isMapped then [.giveBack ((s.pages page).pgStartP,(s.pages page).mapSize)] else []

def mapPageCalls (s : PageState n) (page needed : Nat) : List (Entry Region) :=
  freePageObjectCalls s page++[.take (some s.fresh,needed)]

def nextCalls (file : FileLayout) (s : PageState n) : Action n → List (Entry Region)
  | .remap w =>
    match s.workers w with
    | .remap dp needed =>
      let page := pageOf file dp.address
      if (s.pages page).numUsing = 0 then mapPageCalls (addUser s page) page needed else []
    | _ => []
  | .release w =>
    match s.workers w with
    | .holding dp _ =>
      let page := pageOf file dp.address
      let dropped := (dropUser s page).setWorker w .idle
      if (dropped.pages page).totalNumMappings = 0 then freePageObjectCalls dropped page else []
    | _ => []
  | _ => []

def destroyPages : List Nat → PageState n → PageState n × List (Entry Region)
  | [],s => (s,[])
  | page::rest,s =>
    let (after,calls) := destroyPages rest (freePageObject s page)
    (after,freePageObjectCalls s page++calls)

def destroyPageObjects (numPages : Nat) (s : PageState n) : PageState n × List (Entry Region) :=
  destroyPages (List.range numPages) s

-- A step of the program and what it asks of the kernel. The records are of pages of the file.
def LoggedStep (file : FileLayout) (numPages : Nat) (before : PageState n) (action : Action n × List (Entry Region))
    (after : PageState n) : Prop :=
  next file before action.1 = some after ∧ action.2 = nextCalls file before action.1 ∧
    ∀ dp, action.1 = .register dp → pageOf file dp.address < numPages

end Model

def region (s : PageState n) (page : Nat) : Option Region :=
  if (s.pages page).isMapped then some ((s.pages page).pgStartP,(s.pages page).mapSize) else none

-- Every mapping of the kernel is that of one page of the file. That the counters may
-- have wrapped does not matter here.
structure Owned (file : FileLayout) (numPages : Nat) (s : PageState n) : Prop where
  apart : Apart (region s)
  named : ∀ page key, region s page = some key → ∃ mapping, key.1 = some mapping ∧ mapping < s.fresh
  kernel : ∀ mapping, s.mappings mapping ≠ none → ∃ page size, region s page = some (some mapping,size)
  inside : ∀ page, numPages ≤ page → region s page = none
  pool : ∀ dp ∈ s.pool, pageOf file dp.address < numPages
  workers : ∀ w dp, (s.workers w).pair = some dp → pageOf file dp.address < numPages

section Owned
variable {numPages : Nat} {s after : PageState n}

theorem initial_owned : Owned file numPages (initial n) := by
  have none_ (page : Nat) : region (initial n) page = none := rfl
  refine ⟨?_,?_,fun mapping mapped => absurd rfl mapped,fun page _ => none_ page,?_,?_⟩
  · intro left right key first
    rw [none_] at first
    cases first
  · intro page key first
    rw [none_] at first
    cases first
  · exact fun dp member => absurd member List.not_mem_nil
  · intro w dp busy
    cases busy

theorem Owned.turn (owned : Owned file numPages s) (regions : region after = region s) (mappings : after.mappings = s.mappings)
    (fresh : after.fresh = s.fresh) (pool : ∀ dp ∈ after.pool, pageOf file dp.address < numPages)
    (workers : ∀ w dp, (after.workers w).pair = some dp → pageOf file dp.address < numPages) : Owned file numPages after := by
  refine ⟨?_,?_,?_,?_,pool,workers⟩
  · rw [regions]
    exact owned.apart
  · rw [regions,fresh]
    exact owned.named
  · rw [regions,mappings]
    exact owned.kernel
  · rw [regions]
    exact owned.inside

theorem region_setPage (s : PageState n) (page : Nat) (object : PageObject) : region (s.setPage page object) =
    Function.update (region s) page (if object.isMapped then some (object.pgStartP,object.mapSize) else none) := by
  funext other
  unfold region PageState.setPage
  by_cases same : other = page
  · subst same
    simp only [Function.update_self]
  · simp only [Function.update_of_ne same]

theorem region_recount (s : PageState n) (page : Nat) (object : PageObject) (same : object.isMapped = (s.pages page).isMapped ∧
    object.pgStartP = (s.pages page).pgStartP ∧ object.mapSize = (s.pages page).mapSize) :
    region (s.setPage page object) = region s := by
  obtain ⟨mapped,start,size⟩ := same
  rw [region_setPage]
  apply Function.update_eq_self_iff.mpr
  unfold region
  rw [mapped,start,size]

theorem free_owned (owned : Owned file numPages s) (page : Nat) : Owned file numPages (freePageObject s page) ∧
    region (freePageObject s page) = Function.update (region s) page none ∧
    Books (Owns (region s)) (freePageObjectCalls s page) (Owns (region (freePageObject s page))) := by
  unfold freePageObject freePageObjectCalls
  by_cases mapped : (s.pages page).isMapped = true
  · have here : region s page = some ((s.pages page).pgStartP,(s.pages page).mapSize) := if_pos mapped
    obtain ⟨mapping,start,older⟩ := owned.named page _ here
    change (s.pages page).pgStartP = some mapping at start
    obtain ⟨last,is_⟩ : ∃ last, last = {s.setPage page {s.pages page with isMapped:=false,pgStartP:=none,mapSize:=0} with
        mappings:=Function.update s.mappings mapping none} := ⟨_,rfl⟩
    have regions : region last = Function.update (region s) page none := by
      rw [is_]
      exact region_setPage s page _
    simp only [mapped,if_true,start]
    rw [← start,← is_]
    have books := Books.drop owned.apart here
    rw [← regions] at books
    refine ⟨⟨?_,?_,?_,?_,?_,?_⟩,regions,books⟩
    · rw [regions]
      exact owned.apart.drop
    · intro other key found
      rw [regions,Function.update_apply] at found
      split at found
      · cases found
      · rw [is_]
        exact owned.named other key found
    · intro other found
      have kernel : last.mappings = Function.update s.mappings mapping none := by rw [is_]
      rw [kernel,Function.update_apply] at found
      split at found
      · exact absurd rfl found
      · rename_i differs
        obtain ⟨home,size,there⟩ := owned.kernel other found
        refine ⟨home,size,?_⟩
        rw [regions,Function.update_of_ne,there]
        rintro rfl
        rw [here,Option.some.injEq,Prod.mk.injEq,start,Option.some.injEq] at there
        exact differs there.1.symm
    · intro other outside
      rw [regions,Function.update_apply]
      split
      · rfl
      · exact owned.inside other outside
    · rw [is_]
      exact owned.pool
    · rw [is_]
      exact owned.workers
  · have empty : region s page = none := if_neg mapped
    rw [if_neg mapped,if_neg mapped]
    refine ⟨owned,?_,.refl _⟩
    exact (Function.update_eq_self_iff.mpr empty.symm).symm

theorem freePageObject_rest (s : PageState n) (page : Nat) : (freePageObject s page).fresh = s.fresh ∧
    (freePageObject s page).pool = s.pool ∧ (freePageObject s page).workers = s.workers := by
  unfold freePageObject
  dsimp only
  split
  · exact ⟨rfl,rfl,rfl⟩
  · exact ⟨rfl,rfl,rfl⟩

theorem map_owned (owned : Owned file numPages s) {page : Nat} (inside : page < numPages) (needed : Nat) :
    Owned file numPages (mapPage file s page needed) ∧
      Books (Owns (region s)) (mapPageCalls s page needed) (Owns (region (mapPage file s page needed))) := by
  obtain ⟨freed,cleared,books⟩ := free_owned owned page
  obtain ⟨fresh,pool,workers⟩ := freePageObject_rest s page
  have regions : region (mapPage file s page needed) =
      Function.update (region (freePageObject s page)) page (some (some s.fresh,needed)) :=
    region_setPage (freePageObject s page) page _
  have empty : region (freePageObject s page) page = none := by rw [cleared,Function.update_self]
  have new : ¬Owns (region (freePageObject s page)) (some s.fresh,needed) := by
    rintro ⟨other,here⟩
    obtain ⟨mapping,start,older⟩ := freed.named other _ here
    have same : s.fresh = mapping := Option.some.inj start
    omega
  have mapped := Books.put empty new
  rw [← regions] at mapped
  refine ⟨⟨?_,?_,?_,?_,?_,?_⟩,books.trans mapped⟩
  · rw [regions]
    exact freed.apart.put new
  · intro other key found
    rw [regions,Function.update_apply] at found
    split at found
    · rw [← Option.some.inj found]
      exact ⟨s.fresh,rfl,Nat.lt_succ_self _⟩
    · obtain ⟨mapping,start,older⟩ := freed.named other key found
      exact ⟨mapping,start,Nat.lt_succ_of_lt (fresh ▸ older)⟩
  · intro mapping found
    by_cases same : mapping = s.fresh
    · refine ⟨page,needed,?_⟩
      rw [regions,Function.update_self,same]
    · obtain ⟨home,size,there⟩ := freed.kernel mapping fun gone => found ((Function.update_of_ne same _ _).trans gone)
      refine ⟨home,size,?_⟩
      rw [regions,Function.update_of_ne,there]
      rintro rfl
      rw [empty] at there
      cases there
  · intro other outside
    rw [regions,Function.update_of_ne (Nat.ne_of_gt (Nat.lt_of_lt_of_le inside outside))]
    exact freed.inside other outside
  · exact freed.pool
  · exact freed.workers

theorem setWorker_owned (owned : Owned file numPages s) (w : Fin n) (worker : Worker)
    (fits : ∀ dp, worker.pair = some dp → pageOf file dp.address < numPages) : Owned file numPages (s.setWorker w worker) := by
  refine owned.turn rfl rfl rfl owned.pool fun v dp busy => ?_
  change (Function.update s.workers w worker v).pair = some dp at busy
  rw [Function.update_apply] at busy
  split at busy
  · exact fits dp busy
  · exact owned.workers v dp busy

theorem addUser_owned (owned : Owned file numPages s) (page : Nat) :
    Owned file numPages (addUser s page) ∧ region (addUser s page) = region s := by
  have regions : region (addUser s page) = region s := region_recount s page _ ⟨rfl,rfl,rfl⟩
  exact ⟨owned.turn regions rfl rfl owned.pool owned.workers,regions⟩

theorem dropUser_owned (owned : Owned file numPages s) (page : Nat) :
    Owned file numPages (dropUser s page) ∧ region (dropUser s page) = region s := by
  have regions : region (dropUser s page) = region s := region_recount s page _ ⟨rfl,rfl,rfl⟩
  exact ⟨owned.turn regions rfl rfl owned.pool owned.workers,regions⟩

theorem test_owned (owned : Owned file numPages s) (at_ : s.workers w = here) (pair : there.pair = here.pair) :
    Owned file numPages (s.setWorker w there) := by
  subst at_
  exact setWorker_owned owned w there fun dp busy => owned.workers w dp (pair ▸ busy)

theorem remap_calls (at_ : s.workers w = .remap dp needed) : nextCalls file s (.remap w) =
    if (s.pages (pageOf file dp.address)).numUsing = 0 then
      mapPageCalls (addUser s (pageOf file dp.address)) (pageOf file dp.address) needed else [] := by
  simp only [nextCalls,at_]

theorem release_calls (at_ : s.workers w = .holding dp mapping) : nextCalls file s (.release w) =
    if (((dropUser s (pageOf file dp.address)).setWorker w .idle).pages (pageOf file dp.address)).totalNumMappings = 0 then
      freePageObjectCalls ((dropUser s (pageOf file dp.address)).setWorker w .idle) (pageOf file dp.address) else [] := by
  simp only [nextCalls,at_]

theorem next_owned (owned : Owned file numPages s) {action : Action n × List (Entry Region)}
    (taken : LoggedStep file numPages s action after) :
    Owned file numPages after ∧ Books (Owns (region s)) action.2 (Owns (region after)) := by
  obtain ⟨action,calls⟩ := action
  obtain ⟨ran,log,inside⟩ := taken
  dsimp only at ran log inside
  subst log
  have turn {last : PageState n} (kept : Owned file numPages last) (regions : region last = region s) :
      Owned file numPages last ∧ Books (Owns (region s)) [] (Owns (region last)) :=
    ⟨kept,.quiet fun key => by rw [regions]⟩
  cases action with
  | register dp =>
    rw [next] at ran
    split at ran
    · cases ran
    · cases ran
      have regions : region (registerPair file s dp) = region s := region_recount s _ _ ⟨rfl,rfl,rfl⟩
      refine turn (owned.turn regions rfl rfl ?_ owned.workers) regions
      intro row member
      rcases List.mem_append.mp member with earlier | new
      · exact owned.pool row earlier
      · rw [List.mem_singleton.mp new]
        exact inside dp rfl
  | parsed =>
    rw [next] at ran
    split at ran
    · cases ran
    · cases ran
      exact turn (owned.turn rfl rfl rfl owned.pool owned.workers) rfl
  | joined =>
    rw [next] at ran
    split at ran
    · cases ran
      exact turn (owned.turn rfl rfl rfl owned.pool owned.workers) rfl
    · cases ran
  | enter w dp =>
    rw [next] at ran
    split at ran
    · rename_i ready
      cases ran
      have member := ready.2.2
      have working := setWorker_owned owned w (.sizeCheck dp (s.pages (pageOf file dp.address)).maxMapSize)
        fun row busy => by cases busy; exact owned.pool dp member
      refine turn (working.turn rfl rfl rfl (fun row rest => owned.pool row (List.mem_of_mem_erase rest)) working.workers) rfl
    · cases ran
  | sizeCheck w =>
    rw [next] at ran
    split at ran
    · rename_i dp needed at_
      split at ran
      · cases ran
        exact turn (test_owned owned at_ rfl) rfl
      · cases ran
        exact turn (test_owned owned at_ rfl) rfl
    · cases ran
  | confirm w =>
    rw [next] at ran
    split at ran
    · rename_i dp needed at_
      dsimp only at ran
      split at ran
      · cases ran
        obtain ⟨counted,regions⟩ := addUser_owned owned (pageOf file dp.address)
        have there : (addUser s (pageOf file dp.address)).workers w = .confirm dp needed := at_
        exact turn (test_owned counted there rfl) regions
      · cases ran
        exact turn (test_owned owned at_ rfl) rfl
    · cases ran
  | useCheck w =>
    rw [next] at ran
    split at ran
    · rename_i dp needed at_
      split at ran
      · cases ran
        exact turn (test_owned owned at_ rfl) rfl
      · cases ran
        exact turn (test_owned owned at_ rfl) rfl
    · cases ran
  | remap w =>
    rw [next] at ran
    split at ran
    · rename_i dp needed at_
      rw [remap_calls at_]
      have home : pageOf file dp.address < numPages := owned.workers w dp (by rw [at_]; rfl)
      obtain ⟨counted,regions⟩ := addUser_owned owned (pageOf file dp.address)
      obtain ⟨mapped,books⟩ := map_owned counted home needed
      dsimp only at ran ⊢
      split at ran
      · rename_i unused
        cases ran
        rw [if_pos unused]
        rw [regions] at books
        refine ⟨setWorker_owned mapped w _ fun row busy => ?_,books⟩
        cases busy
        exact home
      · rename_i used
        cases ran
        rw [if_neg used]
        exact turn (test_owned owned at_ rfl) rfl
    · cases ran
  | release w =>
    rw [next] at ran
    split at ran
    · rename_i dp mapping at_
      rw [release_calls at_]
      obtain ⟨counted,regions⟩ := dropUser_owned owned (pageOf file dp.address)
      have dropped := setWorker_owned counted w .idle fun row busy => by cases busy
      obtain ⟨freed,_,books⟩ := free_owned dropped (pageOf file dp.address)
      cases ran
      dsimp only
      split
      · change Books (Owns (region (dropUser s (pageOf file dp.address)))) _ _ at books
        rw [regions] at books
        exact ⟨freed,books⟩
      · exact turn dropped regions
    · cases ran

theorem destroy_owned (pages : List Nat) (owned : Owned file numPages s) : Owned file numPages (destroyPages pages s).1 ∧
    Books (Owns (region s)) (destroyPages pages s).2 (Owns (region (destroyPages pages s).1)) ∧
    ∀ page, region (destroyPages pages s).1 page = if page ∈ pages then none else region s page := by
  induction pages generalizing s with
  | nil => exact ⟨owned,.refl _,fun page => (if_neg List.not_mem_nil).symm⟩
  | cons page rest ih =>
    obtain ⟨freed,cleared,books⟩ := free_owned owned page
    obtain ⟨last,later,empty⟩ := ih freed
    refine ⟨last,books.trans later,fun other => ?_⟩
    rw [destroyPages,empty other,cleared,Function.update_apply]
    by_cases here : other = page
    · subst here
      simp
    · simp [here]

-- In every interleaving, also one in which a counter wraps, and wherever the threads
-- stand when destroyPageObjects comes: no mapping is left, and munmap was called once
-- for every mmap, with its pointer and its size.
theorem pages_balanced {s : PageState n} {actions : List (Action n × List (Entry Region))}
    (path : Runs.Run (LoggedStep file numPages) (initial n) actions s) :
    (∀ mapping, (destroyPageObjects numPages s).1.mappings mapping = none) ∧
      settle [] (actions.flatMap Prod.snd++(destroyPageObjects numPages s).2) = some [] ∧
      (returned (actions.flatMap Prod.snd++(destroyPageObjects numPages s).2)).Perm
        (taken (actions.flatMap Prod.snd++(destroyPageObjects numPages s).2)) := by
  have owned : Owned file numPages s := path.invariant (Owned file numPages) (fun _ _ _ valid taken => (next_owned valid taken).1)
    initial_owned
  have books := Books.run (fun s => Owns (region s)) path initial_owned (fun _ _ _ valid taken => (next_owned valid taken).1)
    fun _ _ _ valid taken => (next_owned valid taken).2
  obtain ⟨last,destroyed,empty⟩ := destroy_owned (List.range numPages) owned
  have none_ (page : Nat) : region (destroyPageObjects numPages s).1 page = none := by
    refine (empty page).trans ?_
    split
    · rfl
    · rename_i outside
      exact owned.inside page (Nat.le_of_not_lt fun below => outside (List.mem_range.mpr below))
  have settled : settle [] (actions.flatMap Prod.snd++(destroyPageObjects numPages s).2) = some [] := by
    apply (books.trans destroyed).settled
    · rintro key ⟨page,here⟩
      cases here
    · rintro key ⟨page,here⟩
      cases here.symm.trans (none_ page)
  refine ⟨fun mapping => ?_,settled,settle_balanced settled⟩
  by_contra mapped
  obtain ⟨page,size,here⟩ := last.kernel mapping mapped
  cases here.symm.trans (none_ page)

-- The one page is mapped for a worker that still holds it.
theorem pages_balanced_once : settle [] [.take (some 0,1),.giveBack (some 0,1)] = some [] := by
  have registered : LoggedStep onePage 2 (initial 1) (.register oneByte,[]) (registerPair onePage (initial 1) oneByte) := by
    refine ⟨rfl,rfl,fun dp same => ?_⟩
    cases same
    decide
  have parsed : LoggedStep onePage 2 (registerPair onePage (initial 1) oneByte) (.parsed,[])
      {registerPair onePage (initial 1) oneByte with inflating:=true} := ⟨rfl,rfl,fun dp same => by cases same⟩
  have entered : LoggedStep onePage 2 {registerPair onePage (initial 1) oneByte with inflating:=true}
      (.enter first oneByte,[]) asking := ⟨rfl,rfl,fun dp same => by cases same⟩
  have missed : LoggedStep onePage 2 asking (.sizeCheck first,[]) (asking.setWorker first (.useCheck oneByte 1)) :=
    ⟨rfl,rfl,fun dp same => by cases same⟩
  have unused : LoggedStep onePage 2 (asking.setWorker first (.useCheck oneByte 1)) (.useCheck first,[]) waiting :=
    ⟨rfl,rfl,fun dp same => by cases same⟩
  have remapped : LoggedStep onePage 2 waiting (.remap first,[.take (some 0,1)]) served :=
    ⟨rfl,rfl,fun dp same => by cases same⟩
  obtain ⟨_,settled,_⟩ := pages_balanced
    ((((((Runs.Run.single registered).step parsed).step entered).step missed).step unused).step remapped)
  exact settled

end Owned
end PageObjects
end GetMatVar
