import GetMatVar.ChunkTree
import GetMatVar.DoInflate

namespace GetMatVar.ChunkThreads
open DoInflate

-- Where the main thread stands in getChunkedData. It creates the workers, makes
-- the buckets, parses the chunk tree, merges the buckets page by page (with the
-- rest of q_len inside a page), and then lets the workers go. failed is a return
-- on the way there.
inductive Main where
  | create (made : Nat)
  | buckets
  | parse
  | merge (page : Nat) (left : Option Nat)
  | setReady
  | lock
  | broadcast
  | unlock
  | join
  | returned (code : Nat)
  | failed (code : Nat)
deriving DecidableEq,Repr

-- Where a worker stands in doInflate_ before its loop; hold is between reading
-- main_thread_ready as FALSE and the release of the mutex in pthread_cond_wait.
inductive Sync where
  | unborn
  | start
  | lock
  | test
  | hold
  | wait
  | woken
  | unlock
  | run
deriving DecidableEq,Repr

inductive Owner (n : Nat) where
  | free
  | main
  | worker (w : Fin n)
deriving DecidableEq,Repr

structure Setup (α : Type) where
  file : MatFile
  pages : Nat → PageObjects.PageObject
  address : Nat
  object : ChunkedObject
  libdeflate : Libdeflate α

structure State (α : Type) (n : Nat) where
  main : Main
  ready : Bool
  owner : Owner n
  sync : Fin n → Sync
  buckets : Nat → Queue DataPair
  threads : Threads α n

inductive Action (n : Nat) where
  | create
  | created
  | buckets (made : Bool)
  | parse
  | merge
  | setReady
  | lock
  | broadcast
  | unlock
  | join
  | finish
  | start (w : Fin n) (allocated : Bool)
  | lockWorker (w : Fin n)
  | test (w : Fin n)
  | sleep (w : Fin n)
  | wake (w : Fin n)
  | unlockWorker (w : Fin n)
  | work (w : Fin n) (action : DoInflate.Action n)

section Model
variable {α : Type} {n : Nat}

def begin (α : Type) (n : Nat) : State α n :=
  ⟨.create 0,false,.free,fun _ => .unborn,fun _ => initQueue,DoInflate.start α n mtInitQueue⟩

def actor : DoInflate.Action n → Option (Fin n)
  | .test w => some w
  | .take w _ => some w
  | .inflate w _ => some w
  | .branch w _ => some w
  | .place w _ => some w
  | .finish w _ => some w
  | .leave w => some w
  | .join => none

def State.setSync (s : State α n) (w : Fin n) (sync : Sync) : State α n := {s with sync:=Function.update s.sync w sync}

-- One step of the main thread or of a worker, at the granularity of an access to
-- main_thread_ready, an operation on the mutex or the condition variable, and a
-- record moved by mt_mergeQueue. wake is a spurious wake-up.
inductive Step (setup : Setup α) : State α n → Action n → State α n → Prop where
  | create : s.main = .create made → (more : made < n) →
      Step setup s .create {s.setSync ⟨made,more⟩ .start with main:=.create (made+1)}
  | created : s.main = .create n → Step setup s .created {s with main:=.buckets}
  | buckets : s.main = .buckets → Step setup s (.buckets true) {s with main:=.parse,buckets:=fun _ => initQueue}
  | noBuckets : s.main = .buckets → Step setup s (.buckets false) {s with main:=.failed 1}
  | parsed : s.main = .parse →
      fillNode setup.file setup.object.numChunkedDims fuel .root setup.address (emptyTables setup.pages) = some (0,left,tables) →
      Step setup s .parse {s with main:=.merge 0 none,buckets:=tables.buckets}
  | rejected : s.main = .parse →
      fillNode setup.file setup.object.numChunkedDims fuel .root setup.address (emptyTables setup.pages) = some (code,left,tables) →
      code ≠ 0 → Step setup s .parse {s with main:=.failed code}
  | page : s.main = .merge page none → page < setup.file.numPages →
      Step setup s .merge {s with main:=.merge page (some (s.buckets page).length)}
  | move : s.main = .merge page (some (left+1)) → (dequeue (s.buckets page)).1 = some dp →
      Step setup s .merge {s with
        main:=.merge page (some left),buckets:=Function.update s.buckets page (dequeue (s.buckets page)).2
        threads:={s.threads with queue:=mtEnqueue s.threads.queue dp}}
  | emptied : s.main = .merge page (some 0) →
      Step setup s .merge {s with
        main:=.merge (page+1) none,buckets:=Function.update s.buckets page (restartQueue (s.buckets page))}
  | merged : s.main = .merge setup.file.numPages none → Step setup s .merge {s with main:=.setReady}
  | setReady : s.main = .setReady → Step setup s .setReady {s with main:=.lock,ready:=true}
  | lock : s.main = .lock → s.owner = .free → Step setup s .lock {s with main:=.broadcast,owner:=.main}
  | broadcast : s.main = .broadcast →
      Step setup s .broadcast {s with main:=.unlock,sync:=fun w => if s.sync w = .wait then .woken else s.sync w}
  | unlock : s.main = .unlock → Step setup s .unlock {s with main:=.join,owner:=.free}
  | join : s.main = .join → DoInflate.Step setup.object setup.libdeflate s.threads .join after →
      Step setup s .join {s with threads:=after}
  | finish : s.main = .join → s.threads.joined = n → Step setup s .finish {s with main:=.returned s.threads.ret}
  | start : s.sync w = .start → Step setup s (.start w true) (s.setSync w .lock)
  | noBuffer : s.sync w = .start →
      Step setup s (.start w false) {s.setSync w .run with threads:=s.threads.setWorker w (.leave 1)}
  | lockWorker : s.sync w = .lock ∨ s.sync w = .woken → s.owner = .free →
      Step setup s (.lockWorker w) {s.setSync w .test with owner:=.worker w}
  | test : s.sync w = .test → Step setup s (.test w) (s.setSync w (if s.ready then .unlock else .hold))
  | sleep : s.sync w = .hold → Step setup s (.sleep w) {s.setSync w .wait with owner:=.free}
  | wake : s.sync w = .wait → Step setup s (.wake w) (s.setSync w .woken)
  | unlockWorker : s.sync w = .unlock → Step setup s (.unlockWorker w) {s.setSync w .run with owner:=.free}
  | work : actor action = some w → s.sync w = .run →
      DoInflate.Step setup.object setup.libdeflate s.threads action after →
      Step setup s (.work w action) {s with threads:=after}

def Main.holds : Main → Bool
  | .broadcast => true
  | .unlock => true
  | _ => false

def Main.isSet : Main → Bool
  | .lock => true
  | .broadcast => true
  | .unlock => true
  | .join => true
  | .returned _ => true
  | _ => false

def Main.pastBroadcast : Main → Bool
  | .unlock => true
  | .join => true
  | .returned _ => true
  | _ => false

def Sync.holds : Sync → Bool
  | .test => true
  | .hold => true
  | .unlock => true
  | _ => false

end Model

theorem pastBroadcast_isSet {main : Main} (past : main.pastBroadcast = true) : main.isSet = true := by
  cases main <;> first | rfl | cases past

section Mutex
variable {α : Type} {n : Nat} {setup : Setup α} {s t : State α n}

-- What the mutex and the order of set, lock, broadcast and wait give.
structure Locked (s : State α n) : Prop where
  unborn : ∀ made, s.main = .create made → ∀ w, made ≤ w.val → s.sync w = .unborn
  main : s.main.holds = true ↔ s.owner = .main
  workers : ∀ w, (s.sync w).holds = true ↔ s.owner = .worker w
  ready : s.ready = s.main.isSet
  early : s.ready = false → ∀ w, s.sync w ≠ .unlock
  awake : s.main.pastBroadcast = true → ∀ w, s.sync w ≠ .wait ∧ s.sync w ≠ .hold

theorem locked_begin (α : Type) (n : Nat) : Locked (begin α n) :=
  ⟨fun _ _ _ _ => rfl,by simp [begin,Main.holds],fun _ => by simp [begin,Sync.holds],rfl,
    fun _ _ => by simp [begin],fun past => by simp [begin,Main.pastBroadcast] at past⟩

theorem sync_cases (s : State α n) (w v : Fin n) (sync : Sync) :
    (v = w ∧ (s.setSync w sync).sync v = sync) ∨ (v ≠ w ∧ (s.setSync w sync).sync v = s.sync v) := by
  by_cases same : v = w
  · subst v; exact .inl ⟨rfl,Function.update_self _ _ _⟩
  · exact .inr ⟨same,Function.update_of_ne same _ _⟩

theorem locked_main (locked : Locked s) (kept : main.holds = s.main.holds) (flag : main.isSet = s.main.isSet)
    (past : main.pastBroadcast = s.main.pastBroadcast) (late : ∀ made, main ≠ .create made)
    (buckets : Nat → Queue DataPair) (threads : Threads α n) :
    Locked {s with main:=main,buckets:=buckets,threads:=threads} where
  unborn made at_ := absurd at_ (late made)
  main := by simpa only [kept] using locked.main
  workers := locked.workers
  ready := by simpa only [flag] using locked.ready
  early := locked.early
  awake := by simpa only [past] using locked.awake

theorem locked_worker (locked : Locked s) (born : s.sync w ≠ .unborn) (kept : sync.holds = (s.sync w).holds)
    (early : s.ready = false → sync ≠ .unlock) (awake : s.main.pastBroadcast = true → sync ≠ .wait ∧ sync ≠ .hold)
    (threads : Threads α n) : Locked {s.setSync w sync with threads:=threads} where
  unborn made at_ v above := by
    rcases sync_cases s w v sync with ⟨rfl,_⟩ | ⟨_,old⟩
    · exact absurd (locked.unborn made at_ v above) born
    · exact old.trans (locked.unborn made at_ v above)
  main := locked.main
  workers v := by
    change ((s.setSync w sync).sync v).holds = true ↔ s.owner = .worker v
    rcases sync_cases s w v sync with ⟨rfl,new⟩ | ⟨_,old⟩
    · rw [new,kept]
      exact locked.workers v
    · rw [old]
      exact locked.workers v
  ready := locked.ready
  early flag v := by
    change (s.setSync w sync).sync v ≠ .unlock
    rcases sync_cases s w v sync with ⟨_,new⟩ | ⟨_,old⟩
    · rw [new]
      exact early flag
    · rw [old]
      exact locked.early flag v
  awake past v := by
    change (s.setSync w sync).sync v ≠ .wait ∧ (s.setSync w sync).sync v ≠ .hold
    rcases sync_cases s w v sync with ⟨_,new⟩ | ⟨_,old⟩
    · rw [new]
      exact awake past
    · rw [old]
      exact locked.awake past v

theorem locked_take (locked : Locked s) (born : s.sync w ≠ .unborn) (free : s.owner = .free) :
    Locked {s.setSync w .test with owner:=.worker w} where
  unborn made at_ v above := by
    rcases sync_cases s w v .test with ⟨rfl,_⟩ | ⟨_,old⟩
    · exact absurd (locked.unborn made at_ v above) born
    · exact old.trans (locked.unborn made at_ v above)
  main := by
    have idle : s.main.holds ≠ true := fun holds => by simp [locked.main.mp holds] at free
    exact ⟨fun holds => absurd holds idle,fun own => by cases own⟩
  workers v := by
    change ((s.setSync w .test).sync v).holds = true ↔ Owner.worker w = .worker v
    rcases sync_cases s w v .test with ⟨rfl,new⟩ | ⟨other,old⟩
    · simp [new,Sync.holds]
    · have idle : (s.sync v).holds ≠ true := fun holds => by simp [(locked.workers v).mp holds] at free
      simpa [old,Ne.symm other] using idle
  ready := locked.ready
  early flag v := by
    change (s.setSync w .test).sync v ≠ .unlock
    rcases sync_cases s w v .test with ⟨_,new⟩ | ⟨_,old⟩
    · simp [new]
    · rw [old]
      exact locked.early flag v
  awake past v := by
    change (s.setSync w .test).sync v ≠ .wait ∧ (s.setSync w .test).sync v ≠ .hold
    rcases sync_cases s w v .test with ⟨_,new⟩ | ⟨_,old⟩
    · simp [new]
    · rw [old]
      exact locked.awake past v

theorem locked_release (locked : Locked s) (holds : (s.sync w).holds = true) (free : sync.holds = false)
    (early : sync ≠ .unlock) (awake : s.main.pastBroadcast = true → sync ≠ .wait ∧ sync ≠ .hold) :
    Locked {s.setSync w sync with owner:=.free} where
  unborn made at_ v above := by
    rcases sync_cases s w v sync with ⟨rfl,_⟩ | ⟨_,old⟩
    · rw [locked.unborn made at_ v above] at holds
      cases holds
    · exact old.trans (locked.unborn made at_ v above)
  main := by
    have own := (locked.workers w).mp holds
    have idle : s.main.holds ≠ true := fun main => by simp [locked.main.mp main] at own
    exact ⟨fun main => absurd main idle,fun none_ => by cases none_⟩
  workers v := by
    change ((s.setSync w sync).sync v).holds = true ↔ Owner.free = .worker v
    rcases sync_cases s w v sync with ⟨rfl,new⟩ | ⟨other,old⟩
    · simp [new,free]
    · have own := (locked.workers w).mp holds
      have idle : (s.sync v).holds ≠ true := fun also => by
        rw [(locked.workers v).mp also] at own
        exact other (Owner.worker.inj own)
      simpa [old] using idle
  ready := locked.ready
  early flag v := by
    change (s.setSync w sync).sync v ≠ .unlock
    rcases sync_cases s w v sync with ⟨_,new⟩ | ⟨_,old⟩
    · rw [new]
      exact early
    · rw [old]
      exact locked.early flag v
  awake past v := by
    change (s.setSync w sync).sync v ≠ .wait ∧ (s.setSync w sync).sync v ≠ .hold
    rcases sync_cases s w v sync with ⟨_,new⟩ | ⟨_,old⟩
    · rw [new]
      exact awake past
    · rw [old]
      exact locked.awake past v

theorem locked_create (locked : Locked s) (at_ : s.main = .create made) (more : made < n) :
    Locked {s.setSync ⟨made,more⟩ .start with main:=.create (made+1)} where
  unborn later same v above := by
    cases same
    rcases sync_cases s ⟨made,more⟩ v .start with ⟨rfl,_⟩ | ⟨_,old⟩
    · exact absurd above (Nat.not_succ_le_self made)
    · exact old.trans (locked.unborn made at_ v (Nat.le_of_succ_le above))
  main := by
    have before := locked.main
    rw [at_] at before
    exact before
  workers v := by
    change ((s.setSync ⟨made,more⟩ .start).sync v).holds = true ↔ s.owner = .worker v
    rcases sync_cases s ⟨made,more⟩ v .start with ⟨rfl,new⟩ | ⟨_,old⟩
    · have before := locked.workers ⟨made,more⟩
      rw [locked.unborn made at_ _ (Nat.le_refl made)] at before
      rw [new]
      exact before
    · rw [old]
      exact locked.workers v
  ready := by
    have before := locked.ready
    rw [at_] at before
    exact before
  early flag v := by
    change (s.setSync ⟨made,more⟩ .start).sync v ≠ .unlock
    rcases sync_cases s ⟨made,more⟩ v .start with ⟨_,new⟩ | ⟨_,old⟩
    · simp [new]
    · rw [old]
      exact locked.early flag v
  awake past := by cases past

-- After the broadcast no worker waits. None is about to wait either: it would
-- hold the mutex, which the main thread holds.
theorem locked_broadcast (locked : Locked s) (at_ : s.main = .broadcast) :
    Locked {s with main:=.unlock,sync:=fun w => if s.sync w = .wait then .woken else s.sync w} where
  unborn made same := by cases same
  main := by
    have before := locked.main
    rw [at_] at before
    exact before
  workers v := by
    by_cases waiting : s.sync v = .wait
    · have before := locked.workers v
      rw [waiting] at before
      simpa [waiting,Sync.holds] using before
    · simpa [waiting] using locked.workers v
  ready := by
    have before := locked.ready
    rw [at_] at before
    exact before
  early flag := by
    have set_ := locked.ready
    rw [at_] at set_
    rw [show s.ready = true from set_] at flag
    cases flag
  awake _ v := by
    by_cases waiting : s.sync v = .wait
    · simp [waiting]
    · simp only [if_neg waiting]
      refine ⟨waiting,fun holding => ?_⟩
      have own : s.owner = .main := locked.main.mp (by rw [at_]; rfl)
      have other : s.owner = .worker v := (locked.workers v).mp (by rw [holding]; rfl)
      rw [own] at other
      cases other

theorem locked_step (locked : Locked s) (ran : Step setup s action t) : Locked t := by
  cases ran with
  | create at_ more => exact locked_create locked at_ more
  | created at_ => exact locked_main locked (by rw [at_]; rfl) (by rw [at_]; rfl) (by rw [at_]; rfl) (by simp) _ _
  | buckets at_ => exact locked_main locked (by rw [at_]; rfl) (by rw [at_]; rfl) (by rw [at_]; rfl) (by simp) _ _
  | noBuckets at_ => exact locked_main locked (by rw [at_]; rfl) (by rw [at_]; rfl) (by rw [at_]; rfl) (by simp) _ _
  | parsed at_ _ => exact locked_main locked (by rw [at_]; rfl) (by rw [at_]; rfl) (by rw [at_]; rfl) (by simp) _ _
  | rejected at_ _ _ => exact locked_main locked (by rw [at_]; rfl) (by rw [at_]; rfl) (by rw [at_]; rfl) (by simp) _ _
  | page at_ _ => exact locked_main locked (by rw [at_]; rfl) (by rw [at_]; rfl) (by rw [at_]; rfl) (by simp) _ _
  | move at_ _ => exact locked_main locked (by rw [at_]; rfl) (by rw [at_]; rfl) (by rw [at_]; rfl) (by simp) _ _
  | emptied at_ => exact locked_main locked (by rw [at_]; rfl) (by rw [at_]; rfl) (by rw [at_]; rfl) (by simp) _ _
  | merged at_ => exact locked_main locked (by rw [at_]; rfl) (by rw [at_]; rfl) (by rw [at_]; rfl) (by simp) _ _
  | setReady at_ =>
    exact ⟨fun made same => (by cases same),by simpa [at_,Main.holds] using locked.main,locked.workers,rfl,
      fun flag => (by cases flag),fun past => (by cases past)⟩
  | lock at_ free =>
    have flag : s.ready = true := by rw [locked.ready,at_]; rfl
    refine ⟨fun made same => (by cases same),by simp [Main.holds],fun v => ?_,flag,fun off => ?_,fun past => (by cases past)⟩
    · have idle : (s.sync v).holds ≠ true := fun holds => by simp [(locked.workers v).mp holds] at free
      simpa using idle
    · rw [flag] at off
      cases off
  | broadcast at_ => exact locked_broadcast locked at_
  | unlock at_ =>
    have own : s.owner = .main := locked.main.mp (by rw [at_]; rfl)
    refine ⟨fun made same => (by cases same),by simp [Main.holds],fun v => ?_,?_,locked.early,
      fun _ => locked.awake (by rw [at_]; rfl)⟩
    · have idle : (s.sync v).holds ≠ true := fun holds => by simp [(locked.workers v).mp holds] at own
      simpa using idle
    · rw [locked.ready,at_]
      rfl
  | join at_ _ => exact ⟨locked.unborn,locked.main,locked.workers,locked.ready,locked.early,locked.awake⟩
  | finish at_ _ => exact locked_main locked (by rw [at_]; rfl) (by rw [at_]; rfl) (by rw [at_]; rfl) (by simp) _ _
  | start at_ => exact locked_worker locked (by simp [at_]) (by rw [at_]; rfl) (by simp) (by simp) _
  | noBuffer at_ => exact locked_worker locked (by simp [at_]) (by rw [at_]; rfl) (by simp) (by simp) _
  | lockWorker at_ free => exact locked_take locked (by rcases at_ with at_ | at_ <;> simp [at_]) free
  | test at_ =>
    cases flag : s.ready with
    | false =>
      refine locked_worker locked (by simp [at_]) (by rw [at_]; rfl) (by simp) (fun past => ?_) _
      rw [locked.ready,pastBroadcast_isSet past] at flag
      cases flag
    | true => exact locked_worker locked (by simp [at_]) (by rw [at_]; rfl) (by simp [flag]) (by simp) _
  | sleep at_ =>
    refine locked_release locked (by rw [at_]; rfl) rfl (by simp) fun past => ?_
    exact absurd at_ (locked.awake past _).2
  | wake at_ => exact locked_worker locked (by simp [at_]) (by rw [at_]; rfl) (by simp) (by simp) _
  | unlockWorker at_ => exact locked_release locked (by rw [at_]; rfl) rfl (by simp) (by simp)
  | work _ _ _ => exact ⟨locked.unborn,locked.main,locked.workers,locked.ready,locked.early,locked.awake⟩

end Mutex

section Work
variable {α : Type} {n : Nat} {setup : Setup α}

theorem worker_step {s t : Threads α n} (acts : actor action = some w) (ran : DoInflate.Step object libdeflate s action t) :
    (∃ worker, t.workers = (s.setWorker w worker).workers ∧ ∀ code, s.workers w = .leave code → worker = .ended) ∧
      t.queue.nodes = s.queue.nodes ∧ (t.queue = s.queue ∨ s.workers w = .take) ∧ t.joined = s.joined := by
  cases action with
  | test v =>
    cases acts
    obtain ⟨at_,rfl⟩ := test_step ran
    exact ⟨⟨_,rfl,fun code leaving => by simp [at_] at leaving⟩,rfl,.inl rfl,rfl⟩
  | take v got =>
    cases acts
    obtain ⟨at_,_,rfl⟩ := take_step ran
    exact ⟨⟨_,rfl,fun code leaving => by simp [at_] at leaving⟩,NodeList.dequeue_nodes s.queue.toNodeList,.inr at_,rfl⟩
  | inflate v dp =>
    cases acts
    obtain ⟨at_,rfl⟩ := inflate_step ran
    exact ⟨⟨_,rfl,fun code leaving => by simp [at_] at leaving⟩,rfl,.inl rfl,rfl⟩
  | branch v dp =>
    cases acts
    obtain ⟨at_,rfl⟩ := branch_step ran
    exact ⟨⟨_,rfl,fun code leaving => by simp [at_] at leaving⟩,rfl,.inl rfl,rfl⟩
  | place v dp =>
    cases acts
    obtain ⟨loop,at_,_,rfl⟩ := place_step ran
    exact ⟨⟨_,rfl,fun code leaving => by simp [at_] at leaving⟩,rfl,.inl rfl,rfl⟩
  | finish v dp =>
    cases acts
    obtain ⟨loop,at_,_,rfl⟩ := finish_step ran
    exact ⟨⟨_,rfl,fun code leaving => by simp [at_] at leaving⟩,rfl,.inl rfl,rfl⟩
  | leave v =>
    cases acts
    obtain ⟨code,at_,rfl⟩ := leave_step ran
    exact ⟨⟨_,rfl,fun _ _ => rfl⟩,rfl,.inl rfl,rfl⟩
  | join => cases acts

theorem ended_stays {s t : Threads α n} (acts : actor action = some w)
    (ran : DoInflate.Step object libdeflate s action t) : s.workers w ≠ .ended := by
  cases action with
  | test v => cases acts; simp [(test_step ran).1]
  | take v got => cases acts; simp [(take_step ran).1]
  | inflate v dp => cases acts; simp [(inflate_step ran).1]
  | branch v dp => cases acts; simp [(branch_step ran).1]
  | place v dp => cases acts; obtain ⟨_,at_,_⟩ := place_step ran; simp [at_]
  | finish v dp => cases acts; obtain ⟨_,at_,_⟩ := finish_step ran; simp [at_]
  | leave v => cases acts; obtain ⟨_,at_,_⟩ := leave_step ran; simp [at_]
  | join => cases acts

def leaving : Worker → Prop
  | .leave _ => True
  | .ended => True
  | _ => False

structure Working (s : State α n) : Prop where
  idle : ∀ w, s.sync w ≠ .run → s.threads.workers w = .test
  early : s.ready = false → ∀ w, s.sync w = .run → leaving (s.threads.workers w)
  joined : Joined s.threads

theorem working_begin (α : Type) (n : Nat) : Working (begin α n) :=
  ⟨fun _ _ => rfl,fun _ _ run => (by cases run),fun _ done => absurd done (Nat.not_lt_zero _)⟩

theorem working_sync {s : State α n} (working : Working s) (before : s.sync w ≠ .run) (ahead : sync = .run → s.ready = true)
    (owner : Owner n) (main : Main) : Working {s.setSync w sync with owner:=owner,main:=main} where
  idle v run := by
    change (s.setSync w sync).sync v ≠ .run at run
    rcases sync_cases s w v sync with ⟨rfl,_⟩ | ⟨_,old⟩
    · exact working.idle v before
    · rw [old] at run
      exact working.idle v run
  early flag v run := by
    change (s.setSync w sync).sync v = .run at run
    rcases sync_cases s w v sync with ⟨_,new⟩ | ⟨_,old⟩
    · have set_ := ahead (new.symm.trans run)
      rw [show s.ready = false from flag] at set_
      cases set_
    · rw [old] at run
      exact working.early flag v run
  joined := working.joined

theorem working_noBuffer {s : State α n} (working : Working s) (at_ : s.sync w = .start) :
    Working {s.setSync w .run with threads:=s.threads.setWorker w (.leave 1)} where
  idle v run := by
    change (s.setSync w .run).sync v ≠ .run at run
    rcases sync_cases s w v .run with ⟨_,new⟩ | ⟨other,old⟩
    · exact absurd new run
    · rw [old] at run
      exact (Function.update_of_ne other ..).trans (working.idle v run)
  early flag v run := by
    change leaving ((s.threads.setWorker w (.leave 1)).workers v)
    change (s.setSync w .run).sync v = .run at run
    rcases worker_cases s.threads w v (.leave 1) with ⟨_,new⟩ | ⟨other,old⟩
    · rw [new]
      trivial
    · rw [old]
      rw [show (s.setSync w .run).sync v = s.sync v from Function.update_of_ne other ..] at run
      exact working.early flag v run
  joined := joined_turn w (.leave 1) working.joined (by simp [working.idle w (by simp [at_])]) rfl rfl

theorem working_work {s : State α n} (working : Working s) (acts : actor action = some w) (at_ : s.sync w = .run)
    (ran : DoInflate.Step object libdeflate s.threads action after) : Working {s with threads:=after} where
  idle v run := by
    obtain ⟨⟨worker,workers,_⟩,_⟩ := worker_step acts ran
    change after.workers v = .test
    rw [workers]
    rcases worker_cases s.threads w v worker with ⟨rfl,_⟩ | ⟨_,old⟩
    · exact absurd at_ run
    · exact old.trans (working.idle v run)
  early flag v run := by
    obtain ⟨⟨worker,workers,leaves⟩,_⟩ := worker_step acts ran
    change leaving (after.workers v)
    rw [workers]
    rcases worker_cases s.threads w v worker with ⟨rfl,new⟩ | ⟨_,old⟩
    · have before := working.early flag v run
      cases here : s.threads.workers v with
      | leave code =>
        rw [new,leaves code here]
        trivial
      | ended => exact absurd here (ended_stays acts ran)
      | _ => rw [here] at before; exact before.elim
    · rw [old]
      exact working.early flag v run
  joined := joined_step working.joined ran

theorem working_step {s t : State α n} (locked : Locked s) (working : Working s) (ran : Step setup s action t) : Working t := by
  cases ran with
  | create at_ more =>
    have new := locked.unborn _ at_ ⟨_,more⟩ (Nat.le_refl _)
    exact working_sync working (by simp [new]) (by simp) s.owner _
  | created _ => exact ⟨working.idle,working.early,working.joined⟩
  | buckets _ => exact ⟨working.idle,working.early,working.joined⟩
  | noBuckets _ => exact ⟨working.idle,working.early,working.joined⟩
  | parsed _ _ => exact ⟨working.idle,working.early,working.joined⟩
  | rejected _ _ _ => exact ⟨working.idle,working.early,working.joined⟩
  | page _ _ => exact ⟨working.idle,working.early,working.joined⟩
  | move _ _ => exact ⟨working.idle,working.early,working.joined⟩
  | emptied _ => exact ⟨working.idle,working.early,working.joined⟩
  | merged _ => exact ⟨working.idle,working.early,working.joined⟩
  | setReady _ => exact ⟨working.idle,fun flag => (by cases flag),working.joined⟩
  | lock _ _ => exact ⟨working.idle,working.early,working.joined⟩
  | broadcast _ =>
    refine ⟨fun w run => working.idle w fun before => run ?_,fun flag w run => working.early flag w ?_,working.joined⟩
    · simp [before]
    · by_cases waiting : s.sync w = .wait
      · simp [waiting] at run
      · simpa [waiting] using run
  | unlock _ => exact ⟨working.idle,working.early,working.joined⟩
  | join at_ ran =>
    obtain ⟨_,_,rfl⟩ := join_step ran
    exact ⟨working.idle,working.early,joined_step working.joined ran⟩
  | finish _ _ => exact ⟨working.idle,working.early,working.joined⟩
  | start at_ => exact working_sync working (by simp [at_]) (by simp) s.owner s.main
  | noBuffer at_ => exact working_noBuffer working at_
  | lockWorker at_ _ => exact working_sync working (by rcases at_ with at_ | at_ <;> simp [at_]) (by simp) _ s.main
  | test at_ => exact working_sync working (by simp [at_]) (by split <;> simp) s.owner s.main
  | sleep at_ => exact working_sync working (by simp [at_]) (by simp) _ s.main
  | wake at_ => exact working_sync working (by simp [at_]) (by simp) s.owner s.main
  | @unlockWorker _ w at_ =>
    refine working_sync working (by simp [at_]) (fun _ => ?_) _ s.main
    cases flag : s.ready with
    | false => exact absurd at_ (locked.early flag w)
    | true => rfl
  | work acts at_ ran => exact working_work working acts at_ ran

def Parsed (setup : Setup α) (tables : ChunkTables) : Prop :=
  ∃ fuel left, fillNode setup.file setup.object.numChunkedDims fuel .root setup.address (emptyTables setup.pages) =
    some (0,left,tables)

def AllMoved (setup : Setup α) (queue : MTQueue DataPair) : Prop :=
  ∃ tables merged restored, Parsed setup tables ∧
    mtMergeQueue mtInitQueue tables.buckets setup.file.numPages = some (merged,restored) ∧ queue.nodes = merged.nodes

def Moved (setup : Setup α) (queue : MTQueue DataPair) (buckets : Nat → Queue DataPair) : Main → Prop
  | .create _ => queue = mtInitQueue
  | .buckets => queue = mtInitQueue
  | .parse => queue = mtInitQueue
  | .merge page none => ∃ tables, Parsed setup tables ∧ mtMergeQueue mtInitQueue tables.buckets page = some (queue,buckets)
  | .merge page (some left) => ∃ tables new queues, Parsed setup tables ∧
      mtMergeQueue mtInitQueue tables.buckets page = some (new,queues) ∧
      drainQueue (queues page).length new (queues page) = drainQueue left queue (buckets page) ∧
      ∀ other, other ≠ page → buckets other = queues other
  | .failed _ => True
  | _ => AllMoved setup queue

theorem Moved.nodes (moved : Moved setup queue buckets main) (set_ : main.isSet = true) (same : after.nodes = queue.nodes) :
    Moved setup after buckets main := by
  have kept : AllMoved setup queue → AllMoved setup after := by
    rintro ⟨tables,merged,restored,parsed,merging,nodes⟩
    exact ⟨tables,merged,restored,parsed,merging,same.trans nodes⟩
  cases main <;> first | exact kept moved | cases set_

theorem drain_move (taken : (dequeue queue).1 = some dp) :
    drainQueue (left+1) new queue = drainQueue left (mtEnqueue new dp) (dequeue queue).2 := by
  simp only [drainQueue,taken,Option.bind_eq_bind,Option.bind_some]

theorem moved_step {s t : State α n} (locked : Locked s) (working : Working s)
    (moved : Moved setup s.threads.queue s.buckets s.main) (ran : Step setup s action t) :
    Moved setup t.threads.queue t.buckets t.main := by
  cases ran with
  | create at_ _ => rw [at_] at moved; exact moved
  | created at_ => rw [at_] at moved; exact moved
  | buckets at_ => rw [at_] at moved; exact moved
  | noBuckets _ => trivial
  | parsed at_ walked =>
    rw [at_] at moved
    exact ⟨_,⟨_,_,walked⟩,by rw [show s.threads.queue = mtInitQueue from moved]; rfl⟩
  | rejected _ _ _ => trivial
  | page at_ _ =>
    rw [at_] at moved
    obtain ⟨tables,parsed,merging⟩ := moved
    exact ⟨tables,_,_,parsed,merging,rfl,fun _ _ => rfl⟩
  | move at_ taken =>
    rw [at_] at moved
    obtain ⟨tables,new,queues,parsed,merging,drained,others⟩ := moved
    refine ⟨tables,new,queues,parsed,merging,?_,fun other apart => ?_⟩
    · change _ = drainQueue _ (mtEnqueue s.threads.queue _) (Function.update s.buckets _ (dequeue (s.buckets _)).2 _)
      rw [drained,drain_move taken,Function.update_self]
    · exact (Function.update_of_ne apart ..).trans (others other apart)
  | @emptied _ page at_ =>
    rw [at_] at moved
    obtain ⟨tables,new,queues,parsed,merging,drained,others⟩ := moved
    refine ⟨tables,parsed,?_⟩
    simp only [mtMergeQueue,merging,Option.bind_eq_bind,Option.bind_some,drained,drainQueue]
    congr 2
    funext other
    by_cases same : other = page
    · subst same
      rw [Function.update_self,Function.update_self]
    · rw [Function.update_of_ne same,Function.update_of_ne same,others other same]
  | merged at_ =>
    rw [at_] at moved
    obtain ⟨tables,parsed,merging⟩ := moved
    exact ⟨tables,_,_,parsed,merging,rfl⟩
  | setReady at_ => rw [at_] at moved; exact moved
  | lock at_ _ => rw [at_] at moved; exact moved
  | broadcast at_ => rw [at_] at moved; exact moved
  | unlock at_ => rw [at_] at moved; exact moved
  | join at_ ran =>
    obtain ⟨_,_,rfl⟩ := join_step ran
    exact moved
  | finish at_ _ => rw [at_] at moved; exact moved
  | start _ => exact moved
  | noBuffer _ => exact moved
  | lockWorker _ _ => exact moved
  | test _ => exact moved
  | sleep _ => exact moved
  | wake _ => exact moved
  | unlockWorker _ => exact moved
  | @work action w _ after acts at_ ran =>
    obtain ⟨_,nodes,same,_⟩ := worker_step acts ran
    cases flag : s.ready with
    | false =>
      have idle := working.early flag w at_
      rcases same with same | taking
      · rw [same]
        exact moved
      · rw [taking] at idle
        exact idle.elim
    | true => exact moved.nodes (locked.ready ▸ flag) nodes

structure Valid (setup : Setup α) (s : State α n) : Prop where
  locked : Locked s
  working : Working s
  moved : Moved setup s.threads.queue s.buckets s.main

theorem valid_run {s : State α n} (path : Runs.Run (Step setup) (begin α n) actions s) : Valid setup s := by
  refine path.invariant (Valid setup) ?_ ⟨locked_begin α n,working_begin α n,rfl⟩
  intro s action t valid ran
  exact ⟨locked_step valid.locked ran,working_step valid.locked valid.working ran,
    moved_step valid.locked valid.working valid.moved ran⟩

section Released
variable {s : State α n}

-- No record is taken before all are moved, and nobody is left waiting.
theorem released_exact (path : Runs.Run (Step setup) (begin α n) actions s) :
    (∀ w got t, Step setup s (.work w (.take w got)) t → s.main.isSet = true ∧ AllMoved setup s.threads.queue) ∧
      (s.main.pastBroadcast = true → ∀ w, s.sync w ≠ .wait) := by
  have valid := valid_run path
  refine ⟨fun w got t ran => ?_,fun past w => (valid.locked.awake past w).1⟩
  cases ran with
  | work acts at_ ran =>
    cases flag : s.ready with
    | false =>
      have idle := valid.working.early flag w at_
      rw [(take_step ran).1] at idle
      exact idle.elim
    | true =>
      have set_ : s.main.isSet = true := valid.locked.ready ▸ flag
      refine ⟨set_,?_⟩
      have moved := valid.moved
      cases main : s.main <;> rw [main] at set_ moved <;> first | exact moved | cases set_

-- One worker for chunkFile. It waits, is woken and takes a record.
def chunkSetup : Setup Nat :=
  ⟨chunkFile,fun _ => PageObjects.initializePageObject,0,⟨1,fun _ => 8,8,1,fun _ => 4,4,fun _ => 4⟩,⟨fun _ => .success,fun _ _ => 0⟩⟩

theorem chunkSetup_run : ∃ actions s t, Runs.Run (Step chunkSetup) (begin Nat 1) actions s ∧ s.main = .join ∧
    Step chunkSetup s (.work 0 (.take 0 (some ⟨192,5,[0,0]⟩))) t := by
  have start : Runs.Run (Step chunkSetup) (begin Nat 1) [] (begin Nat 1) := .nil
  have walked : fillNode chunkFile 1 3 .root 0 (emptyTables chunkSetup.pages) = some (0,.chunk,_) := rfl
  have parsed := start.step (.create rfl (by decide)) |>.step (.created rfl) |>.step (.buckets rfl) |>.step (.parsed rfl walked)
  have waits := parsed.step (.start (w:=0) rfl) |>.step (.lockWorker (w:=0) (.inl rfl) rfl) |>.step (.test (w:=0) rfl)
    |>.step (.sleep (w:=0) rfl)
  have merged := waits.step (.page rfl (by decide)) |>.step (.move rfl rfl) |>.step (.move rfl rfl) |>.step (.emptied rfl)
    |>.step (.merged rfl)
  have released := merged.step (.setReady rfl) |>.step (.lock rfl rfl) |>.step (.broadcast rfl) |>.step (.unlock rfl)
  have testing : actor (.test (0 : Fin 1)) = some 0 := rfl
  have runs := released.step (.lockWorker (w:=0) (.inr rfl) rfl) |>.step (.test (w:=0) rfl) |>.step (.unlockWorker (w:=0) rfl)
    |>.step (.work testing rfl rfl)
  exact ⟨_,_,_,runs,rfl,.work rfl rfl rfl⟩

theorem released_chunkSetup : ∃ actions s t, Runs.Run (Step chunkSetup) (begin Nat 1) actions s ∧
    Step chunkSetup s (.work 0 (.take 0 (some ⟨192,5,[0,0]⟩))) t ∧ AllMoved chunkSetup s.threads.queue ∧
    ∀ w, s.sync w ≠ .wait := by
  obtain ⟨actions,s,t,path,joining,takes⟩ := chunkSetup_run
  have released := released_exact path
  exact ⟨actions,s,t,path,takes,(released.1 0 _ t takes).2,released.2 (by rw [joining]; rfl)⟩

end Released

section Return
variable {s t : State α n}

def Main.finished : Main → Bool
  | .returned _ => true
  | .failed _ => true
  | _ => false

def Terminated (s : State α n) (w : Fin n) : Prop := s.sync w = .run ∧ s.threads.workers w = .ended

-- Nothing fails between the creation of the workers and the joins: the buckets are
-- made, and the chunk tree is parsed with 0.
def Succeeds (setup : Setup α) : Action n → Prop
  | .buckets made => made = true
  | .parse => ∃ tables, Parsed setup tables
  | _ => True

def SucceedingStep (setup : Setup α) (s : State α n) (action : Action n) (t : State α n) : Prop :=
  Step setup s action t ∧ Succeeds setup action

structure Joining (s : State α n) : Prop where
  straight : ∀ code, s.main ≠ .failed code
  joined : ∀ code, s.main = .returned code → s.threads.joined = n

theorem joining_step (joining : Joining s) (ran : SucceedingStep setup s action t) : Joining t := by
  obtain ⟨ran,succeeds⟩ := ran
  cases ran with
  | noBuckets _ => cases succeeds
  | rejected _ walked bad =>
    obtain ⟨tables,fuel,left,parsed⟩ := succeeds
    cases fillNode_unique walked parsed
    exact absurd rfl bad
  | finish _ joined => exact ⟨by simp,fun _ _ => joined⟩
  | join at_ ran =>
    obtain ⟨_,_,rfl⟩ := join_step ran
    exact ⟨joining.straight,fun code same => by rw [at_] at same; cases same⟩
  | work acts _ ran =>
    obtain ⟨_,_,_,same⟩ := worker_step acts ran
    exact ⟨joining.straight,fun code ended => same.trans (joining.joined code ended)⟩
  | start _ => exact ⟨joining.straight,joining.joined⟩
  | noBuffer _ => exact ⟨joining.straight,joining.joined⟩
  | lockWorker _ _ => exact ⟨joining.straight,joining.joined⟩
  | test _ => exact ⟨joining.straight,joining.joined⟩
  | sleep _ => exact ⟨joining.straight,joining.joined⟩
  | wake _ => exact ⟨joining.straight,joining.joined⟩
  | unlockWorker _ => exact ⟨joining.straight,joining.joined⟩
  | _ => exact ⟨by simp,by simp⟩

-- Without a failure on the way getChunkedData returns after its workers.
theorem return_joins (path : Runs.Run (SucceedingStep setup) (begin α n) actions s) (ended : s.main.finished = true)
    (w : Fin n) : Terminated s w := by
  have valid := valid_run (path.weaken fun _ _ _ ran => ran.1)
  have joining : Joining s := path.invariant Joining (fun _ _ _ => joining_step) ⟨by simp [begin],by simp [begin]⟩
  have joined : s.threads.joined = n := by
    cases main : s.main with
    | returned code => exact joining.joined code main
    | failed code => exact absurd main (joining.straight code)
    | _ => rw [main] at ended; cases ended
  have ended := valid.working.joined w (by rw [joined]; exact w.isLt)
  refine ⟨Classical.byContradiction fun before => ?_,ended⟩
  rw [valid.working.idle w before] at ended
  cases ended

-- Two workers for the two chunks of chunkFile. The first waits until it is woken.
theorem return_joins_chunks : ∃ actions s, Runs.Run (SucceedingStep chunkSetup) (begin Nat 2) actions s ∧
    s.main = .returned 0 ∧ s.threads.data 0 ≠ none ∧ s.threads.data 7 ≠ none ∧ ∀ w, Terminated s w := by
  have start : Runs.Run (SucceedingStep chunkSetup) (begin Nat 2) [] (begin Nat 2) := .nil
  have walked : fillNode chunkFile 1 3 .root 0 (emptyTables chunkSetup.pages) = some (0,.chunk,_) := rfl
  have created := start.step ⟨.create rfl (by decide),trivial⟩ |>.step ⟨.create rfl (by decide),trivial⟩
    |>.step ⟨.created rfl,trivial⟩
  have waits := created.step ⟨.start (w:=0) rfl,trivial⟩ |>.step ⟨.lockWorker (w:=0) (.inl rfl) rfl,trivial⟩
    |>.step ⟨.test (w:=0) rfl,trivial⟩ |>.step ⟨.sleep (w:=0) rfl,trivial⟩
  have parsed := waits.step ⟨.buckets rfl,rfl⟩ |>.step ⟨.parsed rfl walked,_,3,.chunk,walked⟩
  have merged := parsed.step ⟨.page rfl (by decide),trivial⟩ |>.step ⟨.move rfl rfl,trivial⟩ |>.step ⟨.move rfl rfl,trivial⟩
    |>.step ⟨.emptied rfl,trivial⟩ |>.step ⟨.merged rfl,trivial⟩
  have released := merged.step ⟨.setReady rfl,trivial⟩ |>.step ⟨.lock rfl rfl,trivial⟩ |>.step ⟨.broadcast rfl,trivial⟩
    |>.step ⟨.unlock rfl,trivial⟩
  have woken := released.step ⟨.lockWorker (w:=0) (.inr rfl) rfl,trivial⟩ |>.step ⟨.test (w:=0) rfl,trivial⟩
    |>.step ⟨.unlockWorker (w:=0) rfl,trivial⟩
  have runs := woken.step ⟨.start (w:=1) rfl,trivial⟩ |>.step ⟨.lockWorker (w:=1) (.inl rfl) rfl,trivial⟩
    |>.step ⟨.test (w:=1) rfl,trivial⟩ |>.step ⟨.unlockWorker (w:=1) rfl,trivial⟩
  have testing (w : Fin 2) : actor (.test w) = some w := rfl
  have taking (w : Fin 2) (got : Option DataPair) : actor (.take w got) = some w := rfl
  have inflating (w : Fin 2) (dp : DataPair) : actor (.inflate w dp) = some w := rfl
  have branching (w : Fin 2) (dp : DataPair) : actor (.branch w dp) = some w := rfl
  have placing (w : Fin 2) (dp : DataPair) : actor (.place w dp) = some w := rfl
  have finishing (w : Fin 2) (dp : DataPair) : actor (.finish w dp) = some w := rfl
  have leaving (w : Fin 2) : actor (.leave w) = some w := rfl
  have took := runs.step ⟨.work (testing 0) rfl rfl,trivial⟩ |>.step ⟨.work (testing 1) rfl rfl,trivial⟩
    |>.step ⟨.work (taking 0 (some ⟨192,5,[0,0]⟩)) rfl rfl,trivial⟩ |>.step ⟨.work (taking 1 (some ⟨200,6,[4,0]⟩)) rfl rfl,trivial⟩
  have inflated := took.step ⟨.work (inflating 1 ⟨200,6,[4,0]⟩) rfl rfl,trivial⟩
    |>.step ⟨.work (inflating 0 ⟨192,5,[0,0]⟩) rfl rfl,trivial⟩ |>.step ⟨.work (branching 0 ⟨192,5,[0,0]⟩) rfl rfl,trivial⟩
    |>.step ⟨.work (branching 1 ⟨200,6,[4,0]⟩) rfl rfl,trivial⟩
  have placed := inflated.step ⟨.work (placing 0 ⟨192,5,[0,0]⟩) rfl rfl,trivial⟩
    |>.step ⟨.work (placing 1 ⟨200,6,[4,0]⟩) rfl rfl,trivial⟩ |>.step ⟨.work (finishing 1 ⟨200,6,[4,0]⟩) rfl rfl,trivial⟩
    |>.step ⟨.work (finishing 0 ⟨192,5,[0,0]⟩) rfl rfl,trivial⟩
  have ended := placed.step ⟨.work (testing 0) rfl rfl,trivial⟩ |>.step ⟨.work (testing 1) rfl rfl,trivial⟩
    |>.step ⟨.work (leaving 1) rfl rfl,trivial⟩ |>.step ⟨.work (leaving 0) rfl rfl,trivial⟩
  have returned := ended.step ⟨.join rfl rfl,trivial⟩ |>.step ⟨.join rfl rfl,trivial⟩ |>.step ⟨.finish rfl rfl,trivial⟩
  exact ⟨_,_,returned,rfl,Option.some_ne_none _,Option.some_ne_none _,return_joins returned rfl⟩

-- A tree that has a group node for its root.
def groupSetup : Setup Nat := {chunkSetup with file:=wordFile [0x45455254] ⟨8,8,40,0,0,0⟩}

-- fillNode fails while the worker waits on the condition variable.
theorem failed_return : ¬ ∀ (setup : Setup Nat) (actions : List (Action 1)) (s : State Nat 1),
    Runs.Run (Step setup) (begin Nat 1) actions s → s.main.finished = true → ∀ w, s.sync w ≠ .unborn → Terminated s w := by
  intro always
  have start : Runs.Run (Step groupSetup) (begin Nat 1) [] (begin Nat 1) := .nil
  have waits := start.step (.create rfl (by decide)) |>.step (.created rfl) |>.step (.buckets rfl)
    |>.step (.start (w:=0) rfl) |>.step (.lockWorker (w:=0) (.inl rfl) rfl) |>.step (.test (w:=0) rfl)
    |>.step (.sleep (w:=0) rfl)
  have walked : fillNode groupSetup.file 1 1 .root 0 (emptyTables groupSetup.pages) = some (1,.group,_) := rfl
  have failed := waits.step (.rejected rfl walked (by decide))
  have waiting := (always groupSetup _ _ failed rfl 0 (by decide)).1
  exact absurd waiting (by decide)

end Return
end Work
end GetMatVar.ChunkThreads
