import GetMatVar.CopyChunk
import GetMatVar.Mtezq
import GetMatVar.Library.Runs

namespace GetMatVar.DoInflate

inductive LibdeflateResult where
  | success
  | badData
  | shortOutput
  | insufficientSpace
deriving DecidableEq,Repr

def LibdeflateResult.code : LibdeflateResult → Nat
  | .success => 0
  | .badData => 1
  | .shortOutput => 2
  | .insufficientSpace => 3

-- libdeflate_zlib_decompress on the bytes of a chunk: the code it returns and
-- what it leaves in the buffer of the worker.
structure Libdeflate (α : Type) where
  result : DataPair → LibdeflateResult
  buffer : DataPair → Int → α

-- Where a worker stands in doInflate_ once main_thread_ready is set.
inductive Worker where
  | test
  | take
  | inflate (dp : DataPair)
  | branch (dp : DataPair)
  | copy (dp : DataPair) (loop : CopyLoop)
  | leave (code : Nat)
  | ended

-- mt_data_queue, thread_obj->err and the destination array are shared. The main
-- thread has joined the first `joined` workers; ret is its result so far.
structure Threads (α : Type) (n : Nat) where
  queue : MTQueue DataPair
  err : Nat
  data : Int → Option α
  workers : Fin n → Worker
  joined : Nat
  ret : Nat

inductive Action (n : Nat) where
  | test (w : Fin n)
  | take (w : Fin n) (got : Option DataPair)
  | inflate (w : Fin n) (dp : DataPair)
  | branch (w : Fin n) (dp : DataPair)
  | place (w : Fin n) (dp : DataPair)
  | finish (w : Fin n) (dp : DataPair)
  | leave (w : Fin n)
  | join

section Model
variable {α : Type} {n : Nat}

def start (α : Type) (n : Nat) (queue : MTQueue DataPair) : Threads α n := ⟨queue,0,fun _ => none,fun _ => .test,0,0⟩

def Threads.setWorker (s : Threads α n) (w : Fin n) (worker : Worker) : Threads α n :=
  {s with workers:=Function.update s.workers w worker}

-- A NULL from mt_dequeue breaks the loop, and the thread leaves with 0.
def taken : Option DataPair → Worker
  | none => .leave 0
  | some dp => .inflate dp

def failing (err : Nat) : Bool := err == 1 || err == 2 || err == 3

def next (object : ChunkedObject) (libdeflate : Libdeflate α) (s : Threads α n) : Action n → Option (Threads α n)
  | .test w =>
    match s.workers w with
    | .test => some (s.setWorker w (if 0 < s.queue.length then .take else .leave 0))
    | _ => none
  | .take w got =>
    match s.workers w with
    | .take =>
      let (dp,queue) := mtDequeue s.queue
      if dp = got then some {s.setWorker w (taken dp) with queue:=queue} else none
    | _ => none
  | .inflate w dp =>
    match s.workers w with
    | .inflate own =>
      if own = dp then some {s.setWorker w (.branch dp) with err:=(libdeflate.result dp).code} else none
    | _ => none
  | .branch w dp =>
    match s.workers w with
    | .branch own =>
      if own = dp then
        some (s.setWorker w (if failing s.err then .leave 1 else .copy dp (copyStart object dp)))
      else none
    | _ => none
  | .place w dp =>
    match s.workers w with
    | .copy own loop =>
      let plan := planCopy object dp
      if own = dp ∧ copyMore object plan loop then
        some {s.setWorker w (.copy dp (copyAdvance plan loop)) with data:=copyRow plan loop (libdeflate.buffer dp) s.data}
      else none
    | _ => none
  | .finish w dp =>
    match s.workers w with
    | .copy own loop =>
      if own = dp ∧ copyMore object (planCopy object dp) loop = false then some (s.setWorker w .test) else none
    | _ => none
  | .leave w =>
    match s.workers w with
    | .leave code => some {s.setWorker w .ended with err:=code}
    | _ => none
  | .join =>
    if waiting : s.joined < n then
      match s.workers ⟨s.joined,waiting⟩ with
      | .ended => some {s with joined:=s.joined+1,ret:=if s.err ≠ 0 then 1 else s.ret}
      | _ => none
    else none

def Step (object : ChunkedObject) (libdeflate : Libdeflate α) (s : Threads α n) (action : Action n)
    (t : Threads α n) : Prop := next object libdeflate s action = some t

end Model

section Inversion
variable {α : Type} {n : Nat} {object : ChunkedObject} {libdeflate : Libdeflate α} {s t : Threads α n}

theorem worker_cases (s : Threads α n) (w v : Fin n) (worker : Worker) :
    (v = w ∧ (s.setWorker w worker).workers v = worker) ∨ (v ≠ w ∧ (s.setWorker w worker).workers v = s.workers v) := by
  by_cases same : v = w
  · subst v; exact .inl ⟨rfl,Function.update_self _ _ _⟩
  · exact .inr ⟨same,Function.update_of_ne same _ _⟩

theorem test_step (ran : Step object libdeflate s (.test w) t) : s.workers w = .test ∧
    t = s.setWorker w (if 0 < s.queue.length then .take else .leave 0) := by
  simp only [Step,next] at ran
  split at ran
  · exact ⟨‹_›,(Option.some.inj ran).symm⟩
  · cases ran

theorem take_step (ran : Step object libdeflate s (.take w got) t) : s.workers w = .take ∧
    got = (mtDequeue s.queue).1 ∧ t = {s.setWorker w (taken got) with queue:=(mtDequeue s.queue).2} := by
  simp only [Step,next] at ran
  split at ran
  · split at ran
    · rename_i same
      subst same
      exact ⟨‹_›,rfl,(Option.some.inj ran).symm⟩
    · cases ran
  · cases ran

theorem inflate_step (ran : Step object libdeflate s (.inflate w dp) t) : s.workers w = .inflate dp ∧
    t = {s.setWorker w (.branch dp) with err:=(libdeflate.result dp).code} := by
  simp only [Step,next] at ran
  split at ran
  · split at ran
    · rename_i same
      subst same
      exact ⟨‹_›,(Option.some.inj ran).symm⟩
    · cases ran
  · cases ran

theorem branch_step (ran : Step object libdeflate s (.branch w dp) t) : s.workers w = .branch dp ∧
    t = s.setWorker w (if failing s.err then .leave 1 else .copy dp (copyStart object dp)) := by
  simp only [Step,next] at ran
  split at ran
  · split at ran
    · rename_i same
      subst same
      exact ⟨‹_›,(Option.some.inj ran).symm⟩
    · cases ran
  · cases ran

theorem place_step (ran : Step object libdeflate s (.place w dp) t) : ∃ loop, s.workers w = .copy dp loop ∧
    copyMore object (planCopy object dp) loop = true ∧
    t = {s.setWorker w (.copy dp (copyAdvance (planCopy object dp) loop)) with
      data:=copyRow (planCopy object dp) loop (libdeflate.buffer dp) s.data} := by
  simp only [Step,next] at ran
  split at ran
  · split at ran
    · rename_i own loop at_ ready
      obtain ⟨rfl,more⟩ := ready
      exact ⟨loop,at_,more,(Option.some.inj ran).symm⟩
    · cases ran
  · cases ran

theorem finish_step (ran : Step object libdeflate s (.finish w dp) t) : ∃ loop, s.workers w = .copy dp loop ∧
    copyMore object (planCopy object dp) loop = false ∧ t = s.setWorker w .test := by
  simp only [Step,next] at ran
  split at ran
  · split at ran
    · rename_i own loop at_ ready
      obtain ⟨rfl,stops⟩ := ready
      exact ⟨loop,at_,stops,(Option.some.inj ran).symm⟩
    · cases ran
  · cases ran

theorem leave_step (ran : Step object libdeflate s (.leave w) t) : ∃ code, s.workers w = .leave code ∧
    t = {s.setWorker w .ended with err:=code} := by
  simp only [Step,next] at ran
  split at ran
  · exact ⟨_,‹_›,(Option.some.inj ran).symm⟩
  · cases ran

theorem join_step (ran : Step object libdeflate s .join t) : ∃ waiting : s.joined < n,
    s.workers ⟨s.joined,waiting⟩ = .ended ∧ t = {s with joined:=s.joined+1,ret:=if s.err ≠ 0 then 1 else s.ret} := by
  simp only [Step,next] at ran
  split at ran
  · split at ran
    · exact ⟨‹_›,‹_›,(Option.some.inj ran).symm⟩
    · cases ran
  · cases ran

-- The main thread joins a worker after it has ended, and an ended worker takes no
-- further step.
def Joined (s : Threads α n) : Prop := ∀ w, w.val < s.joined → s.workers w = .ended

theorem joined_turn {s t : Threads α n} (w : Fin n) (worker : Worker) (joined : Joined s) (busy : s.workers w ≠ .ended)
    (workers : t.workers = (s.setWorker w worker).workers) (same : t.joined = s.joined) : Joined t := by
  intro v done
  rw [same] at done
  rw [workers]
  rcases worker_cases s w v worker with ⟨rfl,_⟩ | ⟨_,old⟩
  · exact absurd (joined v done) busy
  · rw [old]; exact joined v done

theorem joined_step (joined : Joined s) (ran : Step object libdeflate s action t) : Joined t := by
  cases action with
  | test w =>
    obtain ⟨at_,rfl⟩ := test_step ran
    exact joined_turn w _ joined (by rw [at_]; simp) rfl rfl
  | take w got =>
    obtain ⟨at_,_,rfl⟩ := take_step ran
    exact joined_turn w (taken got) joined (by rw [at_]; simp) rfl rfl
  | inflate w dp =>
    obtain ⟨at_,rfl⟩ := inflate_step ran
    exact joined_turn w (.branch dp) joined (by rw [at_]; simp) rfl rfl
  | branch w dp =>
    obtain ⟨at_,rfl⟩ := branch_step ran
    exact joined_turn w _ joined (by rw [at_]; simp) rfl rfl
  | place w dp =>
    obtain ⟨loop,at_,_,rfl⟩ := place_step ran
    exact joined_turn w (.copy dp (copyAdvance (planCopy object dp) loop)) joined (by rw [at_]; simp) rfl rfl
  | finish w dp =>
    obtain ⟨loop,at_,_,rfl⟩ := finish_step ran
    exact joined_turn w _ joined (by rw [at_]; simp) rfl rfl
  | leave w =>
    obtain ⟨code,at_,rfl⟩ := leave_step ran
    exact joined_turn w .ended joined (by rw [at_]; simp) rfl rfl
  | join =>
    obtain ⟨waiting,at_,rfl⟩ := join_step ran
    intro v done
    rcases Nat.lt_succ_iff_lt_or_eq.mp done with before | same
    · exact joined v before
    · rw [show v = ⟨s.joined,waiting⟩ from Fin.ext same]; exact at_

theorem joined_run (path : Runs.Run (Step object libdeflate) (start α n queue) actions s) : Joined s :=
  path.invariant Joined (fun _ _ _ joined => joined_step joined) fun _ done => absurd done (Nat.not_lt_zero _)

theorem joined_bound (path : Runs.Run (Step object libdeflate) (start α n queue) actions s) : s.joined ≤ n := by
  refine path.invariant (fun s => s.joined ≤ n) ?_ (Nat.zero_le n)
  intro s action t bound ran
  cases action with
  | test w => obtain ⟨_,rfl⟩ := test_step ran; exact bound
  | take w got => obtain ⟨_,_,rfl⟩ := take_step ran; exact bound
  | inflate w dp => obtain ⟨_,rfl⟩ := inflate_step ran; exact bound
  | branch w dp => obtain ⟨_,rfl⟩ := branch_step ran; exact bound
  | place w dp => obtain ⟨_,_,_,rfl⟩ := place_step ran; exact bound
  | finish w dp => obtain ⟨_,_,_,rfl⟩ := finish_step ran; exact bound
  | leave w => obtain ⟨_,_,rfl⟩ := leave_step ran; exact bound
  | join => obtain ⟨waiting,_,rfl⟩ := join_step ran; exact waiting

end Inversion

end GetMatVar.DoInflate
