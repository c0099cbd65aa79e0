import GetMatVar.DoInflate
import GetMatVar.Library.Tally

namespace GetMatVar.DoInflate
open MixedRadix Tally

def Action.got : Action n → Option DataPair
  | .take _ dp => dp
  | _ => none

def takenIn (actions : List (Action n)) : List DataPair := actions.filterMap Action.got

def Worker.record : Worker → Option DataPair
  | .inflate dp | .branch dp | .copy dp _ => some dp
  | _ => none

section Copies
variable {α : Type} {n : Nat} {object : ChunkedObject} {libdeflate : Libdeflate α} {s t : Threads α n}
  {records : List DataPair}

def Copied (object : ChunkedObject) (dp : DataPair) (rows : Int) (data : Int → Option α) : Prop :=
  ∀ x, InBox object dp x → rowNumber object dp (relative dp x) < rows → data (elementIndex object x) ≠ none

def WorkerCopies (object : ChunkedObject) (records : List DataPair) (data : Int → Option α) : Worker → Prop
  | .test | .take | .ended => True
  | .inflate dp | .branch dp => dp ∈ records
  | .copy dp loop => dp ∈ records ∧
    ((AtRow object dp loop ∧ Copied object dp (rowNumber object dp loop.chunkPos) data) ∨
      (object.numElems ≤ loop.index ∧ Copied object dp (rowCount object dp) data))
  | .leave code => code = 0

structure Copying (object : ChunkedObject) (libdeflate : Libdeflate α) (records : List DataPair)
    (actions : List (Action n)) (s : Threads α n) : Prop where
  tight : s.queue.Tight
  order : takenIn actions++s.queue.live = records
  clean : s.err = 0 ∧ s.ret = 0
  workers : ∀ w, WorkerCopies object records s.data (s.workers w)
  empty : ∀ w, (∃ code, s.workers w = .leave code) ∨ s.workers w = .ended → s.queue.live = []
  accounted : ∀ dp ∈ takenIn actions,
    (∃ w, (s.workers w).record = some dp) ∨ Copied object dp (rowCount object dp) s.data
  sound : ∀ p, s.data p = none ∨ ∃ dp ∈ records, ∃ x, InBox object dp x ∧ elementIndex object x = p ∧
    s.data p = some (libdeflate.buffer dp (bufferIndex object dp x))

theorem copying_start (queue : MTQueue DataPair) (tight : queue.Tight) :
    Copying object libdeflate queue.live [] (start α n queue) := by
  refine ⟨tight,rfl,⟨rfl,rfl⟩,fun _ => trivial,?_,?_,fun _ => .inl rfl⟩
  · rintro w (⟨code,at_⟩ | at_) <;> cases at_
  · intro dp member; cases member

theorem Copied.mono (copied : Copied object dp rows data) (kept : ∀ p, data p ≠ none → after p ≠ none) :
    Copied object dp rows after :=
  fun x member below => kept _ (copied x member below)

theorem WorkerCopies.mono (valid : WorkerCopies object records data worker)
    (kept : ∀ p, data p ≠ none → after p ≠ none) : WorkerCopies object records after worker := by
  cases worker with
  | copy dp loop =>
    obtain ⟨member,⟨row,copied⟩ | ⟨beyond,copied⟩⟩ := valid
    · exact ⟨member,.inl ⟨row,copied.mono kept⟩⟩
    · exact ⟨member,.inr ⟨beyond,copied.mono kept⟩⟩
  | test | take | inflate | branch | leave | ended => exact valid

theorem copyRow_keeps (data : Int → Option α) (plan : CopyPlan) (loop : CopyLoop) (buffer : Int → α) (p : Int) (written : data p ≠ none) :
    copyRow plan loop buffer data p ≠ none := by
  simp only [copyRow,placeData]
  split
  · exact Option.some_ne_none _
  · exact written

theorem taken_quiet (quiet : action.got = none) : takenIn (actions++[action]) = takenIn actions := by
  simp [takenIn,quiet]

theorem copying_turn (action : Action n) (w : Fin n) (worker : Worker) (valid : Copying object libdeflate records actions s) (quiet : action.got = none)
    (keeps : ∀ dp, (s.workers w).record = some dp →
      worker.record = some dp ∨ Copied object dp (rowCount object dp) s.data)
    (new : WorkerCopies object records s.data worker)
    (empty : (∃ code, worker = .leave code) ∨ worker = .ended → s.queue.live = []) :
    Copying object libdeflate records (actions++[action]) (s.setWorker w worker) := by
  refine ⟨valid.tight,?_,valid.clean,?_,?_,?_,valid.sound⟩
  · rw [taken_quiet quiet]; exact valid.order
  · intro v
    rcases worker_cases s w v worker with ⟨_,same⟩ | ⟨_,same⟩ <;> rw [same]
    · exact new
    · exact valid.workers v
  · intro v
    rcases worker_cases s w v worker with ⟨_,same⟩ | ⟨_,same⟩ <;> rw [same]
    · exact empty
    · exact valid.empty v
  · intro dp member
    rw [taken_quiet quiet] at member
    rcases valid.accounted dp member with ⟨v,held⟩ | copied
    · rcases worker_cases s w v worker with ⟨rfl,same⟩ | ⟨_,same⟩
      · rcases keeps dp held with still | copied
        · exact .inl ⟨v,by rw [same]; exact still⟩
        · exact .inr copied
      · exact .inl ⟨v,by rw [same]; exact held⟩
    · exact .inr copied

theorem take_copying (valid : Copying object libdeflate records actions s) (at_ : s.workers w = .take)
    (same : got = (mtDequeue s.queue).1) : Copying object libdeflate records (actions++[.take w got])
      {s.setWorker w (taken got) with queue:=(mtDequeue s.queue).2} := by
  obtain ⟨head,tail,tight⟩ := NodeList.dequeue_exact valid.tight
  have first : got = s.queue.live.head? := same.trans head
  have rest : (mtDequeue s.queue).2.live = s.queue.live.tail := tail
  have history : takenIn (actions++[.take w got]) = takenIn actions++got.toList := by
    cases got <;> simp [takenIn,Action.got]
  refine ⟨tight,?_,valid.clean,?_,?_,?_,valid.sound⟩
  · rw [history,rest,first]
    have order := valid.order
    cases shape : s.queue.live with
    | nil => rw [shape] at order; simpa using order
    | cons dp rest => rw [shape] at order; simpa using order
  · intro v
    rcases worker_cases s w v (taken got) with ⟨_,same⟩ | ⟨_,same⟩
    · change WorkerCopies object records s.data ((s.setWorker w (taken got)).workers v)
      rw [same]
      cases shape : got with
      | none => rfl
      | some dp =>
        have member : dp ∈ s.queue.live := List.mem_of_head? (first ▸ shape)
        exact valid.order ▸ List.mem_append_right _ member
    · change WorkerCopies object records s.data ((s.setWorker w (taken got)).workers v)
      rw [same]; exact valid.workers v
  · intro v leaving
    change (∃ code, (s.setWorker w (taken got)).workers v = .leave code) ∨
      (s.setWorker w (taken got)).workers v = .ended at leaving
    rw [rest]
    rcases worker_cases s w v (taken got) with ⟨_,same⟩ | ⟨_,same⟩ <;> rw [same] at leaving
    · cases shape : got with
      | none =>
        rw [first,List.head?_eq_none_iff] at shape
        rw [shape]; rfl
      | some dp => rw [shape] at leaving; rcases leaving with ⟨_,at_⟩ | at_ <;> cases at_
    · rw [valid.empty v leaving]; rfl
  · intro dp member
    rw [history] at member
    rcases List.mem_append.mp member with prior | new
    · rcases valid.accounted dp prior with ⟨v,held⟩ | copied
      · rcases worker_cases s w v (taken got) with ⟨rfl,_⟩ | ⟨_,same⟩
        · rw [at_] at held; cases held
        · exact .inl ⟨v,(congrArg Worker.record same).trans held⟩
      · exact .inr copied
    · refine .inl ⟨w,?_⟩
      have here : got = some dp := by cases got <;> simp_all
      change ((s.setWorker w (taken got)).workers w).record = some dp
      rw [here]
      exact congrArg Worker.record (Function.update_self w (taken (some dp)) s.workers)

theorem place_copying (laid : object.Laid) (fit : ∀ dp ∈ records, ChunkFits object dp)
    (valid : Copying object libdeflate records actions s) (at_ : s.workers w = .copy dp loop)
    (more : copyMore object (planCopy object dp) loop = true) :
    Copying object libdeflate records (actions++[.place w dp])
      {s.setWorker w (.copy dp (copyAdvance (planCopy object dp) loop)) with
        data:=copyRow (planCopy object dp) loop (libdeflate.buffer dp) s.data} := by
  have own := valid.workers w
  rw [at_] at own
  obtain ⟨member,⟨row,copied⟩ | ⟨beyond,_⟩⟩ := own
  · have keeps := copyRow_keeps s.data (planCopy object dp) loop (libdeflate.buffer dp)
    have within := fit dp member
    -- the row that the loop stood at is written now
    have longer : Copied object dp (rowNumber object dp loop.chunkPos+1)
        (copyRow (planCopy object dp) loop (libdeflate.buffer dp) s.data) := by
      intro x box below
      have element := box.element within.toInside
      rcases copyRow_exact laid within.toInside row (libdeflate.buffer dp) s.data element with ⟨_,_,written⟩ | ⟨outside,_⟩
      · rw [written]; exact Option.some_ne_none _
      · have earlier : rowNumber object dp (relative dp x) < rowNumber object dp loop.chunkPos := by
          by_contra late
          exact outside ⟨box,by omega⟩
        exact keeps _ (copied x box earlier)
    have new : WorkerCopies object records (copyRow (planCopy object dp) loop (libdeflate.buffer dp) s.data)
        (.copy dp (copyAdvance (planCopy object dp) loop)) := by
      refine ⟨member,?_⟩
      rcases advance_fits laid within row with ⟨next,number⟩ | ⟨last,beyond⟩
      · exact .inl ⟨next,number ▸ longer⟩
      · exact .inr ⟨beyond,last ▸ longer⟩
    refine ⟨valid.tight,?_,valid.clean,?_,?_,?_,?_⟩
    · rw [taken_quiet rfl]; exact valid.order
    · intro v
      change WorkerCopies object records (copyRow (planCopy object dp) loop (libdeflate.buffer dp) s.data)
        ((s.setWorker w (.copy dp (copyAdvance (planCopy object dp) loop))).workers v)
      rcases worker_cases s w v (.copy dp (copyAdvance (planCopy object dp) loop)) with ⟨_,same⟩ | ⟨_,same⟩ <;> rw [same]
      · exact new
      · exact (valid.workers v).mono keeps
    · intro v leaving
      change (∃ code, (s.setWorker w _).workers v = .leave code) ∨ (s.setWorker w _).workers v = .ended at leaving
      rcases worker_cases s w v (.copy dp (copyAdvance (planCopy object dp) loop)) with ⟨_,same⟩ | ⟨_,same⟩ <;>
        rw [same] at leaving
      · rcases leaving with ⟨_,bad⟩ | bad <;> cases bad
      · exact valid.empty v leaving
    · intro other taken
      rw [taken_quiet rfl] at taken
      rcases valid.accounted other taken with ⟨v,held⟩ | done
      · rcases worker_cases s w v (.copy dp (copyAdvance (planCopy object dp) loop)) with ⟨rfl,same⟩ | ⟨_,same⟩
        · rw [at_] at held
          exact .inl ⟨v,(congrArg Worker.record same).trans held⟩
        · exact .inl ⟨v,(congrArg Worker.record same).trans held⟩
      · exact .inr (done.mono keeps)
    · intro p
      change copyRow _ _ _ _ p = none ∨ ∃ row ∈ records, ∃ x, InBox object row x ∧ elementIndex object x = p ∧
        copyRow _ _ _ _ p = _
      rcases copyRow_source laid within.toInside row (libdeflate.buffer dp) s.data p with kept | ⟨x,box,placed,written⟩
      · rw [kept]; exact valid.sound p
      · exact .inr ⟨dp,member,x,box,placed,written⟩
  · simp only [copyMore,Bool.and_eq_true,decide_eq_true_eq] at more
    omega

theorem copying_step (laid : object.Laid) (fit : ∀ dp ∈ records, ChunkFits object dp)
    (decompressed : ∀ dp ∈ records, libdeflate.result dp = .success)
    (valid : Copying object libdeflate records actions s) (ran : Step object libdeflate s action t) :
    Copying object libdeflate records (actions++[action]) t := by
  cases action with
  | test w =>
    obtain ⟨at_,rfl⟩ := test_step ran
    have none_ : (s.workers w).record = none := by rw [at_]; rfl
    refine copying_turn _ w _ valid rfl (fun dp held => absurd (none_.symm.trans held) (by simp)) ?_ ?_
    · split <;> simp [WorkerCopies]
    · split
      · rintro (⟨_,bad⟩ | bad) <;> cases bad
      · rename_i zero
        intro _
        exact List.eq_nil_of_length_eq_zero (by rw [← valid.tight.counted]; omega)
  | take w got =>
    obtain ⟨at_,same,rfl⟩ := take_step ran
    exact take_copying valid at_ same
  | inflate w dp =>
    obtain ⟨at_,rfl⟩ := inflate_step ran
    have own := valid.workers w
    rw [at_] at own
    have good : (libdeflate.result dp).code = s.err := by rw [decompressed dp own,valid.clean.1]; rfl
    have turned := copying_turn (.inflate w dp) w (.branch dp) valid rfl
      (fun row held => .inl (by rw [at_] at held; exact held)) own (by rintro (⟨_,bad⟩ | bad) <;> cases bad)
    rw [good]
    exact turned
  | branch w dp =>
    obtain ⟨at_,rfl⟩ := branch_step ran
    have own := valid.workers w
    rw [at_] at own
    have passes : failing s.err = false := by rw [valid.clean.1]; rfl
    rw [passes]
    refine copying_turn _ w _ valid rfl (fun row held => .inl (by rw [at_] at held; exact held)) ?_
      (by rintro (⟨_,bad⟩ | bad) <;> cases bad)
    refine ⟨own,.inl ⟨start_row laid (fit dp own).toInside,?_⟩⟩
    intro x box below
    rw [start_number] at below
    exact absurd (value_bounds (box.rows laid (fit dp own).toInside)).1 (Int.not_le.mpr below)
  | place w dp =>
    obtain ⟨loop,at_,more,rfl⟩ := place_step ran
    exact place_copying laid fit valid at_ more
  | finish w dp =>
    obtain ⟨loop,at_,stops,rfl⟩ := finish_step ran
    have own := valid.workers w
    rw [at_] at own
    obtain ⟨member,⟨row,_⟩ | ⟨_,copied⟩⟩ := own
    · exact absurd (row_more laid (fit dp member).toInside row) (by rw [stops]; decide)
    · refine copying_turn _ w _ valid rfl (fun other held => ?_) trivial (by rintro (⟨_,bad⟩ | bad) <;> cases bad)
      rw [at_] at held
      cases held
      exact .inr copied
  | leave w =>
    obtain ⟨code,at_,rfl⟩ := leave_step ran
    have own := valid.workers w
    rw [at_] at own
    have zero : code = s.err := Eq.trans own valid.clean.1.symm
    have turned := copying_turn (.leave w) w .ended valid rfl
      (fun row held => by rw [at_] at held; cases held) trivial (fun _ => valid.empty w (.inl ⟨code,at_⟩))
    rw [zero]
    exact turned
  | join =>
    obtain ⟨waiting,at_,rfl⟩ := join_step ran
    refine ⟨valid.tight,?_,⟨valid.clean.1,?_⟩,valid.workers,valid.empty,?_,valid.sound⟩
    · rw [taken_quiet rfl]; exact valid.order
    · simp [valid.clean]
    · rw [taken_quiet rfl]; exact valid.accounted

theorem copying_run (laid : object.Laid) (tight : queue.Tight) (fit : ∀ dp ∈ queue.live, ChunkFits object dp)
    (decompressed : ∀ dp ∈ queue.live, libdeflate.result dp = .success)
    (path : Runs.Run (Step object libdeflate) (start α n queue) actions s) :
    Copying object libdeflate queue.live actions s :=
  path.history (fun _ _ _ _ valid => copying_step laid fit decompressed valid) (copying_start queue tight)

theorem ended_copies (laid : object.Laid) (fit : ∀ dp ∈ records, ChunkFits object dp)
    (valid : Copying object libdeflate records actions s) (some_ : 0 < n)
    (ended : ∀ w, s.workers w = .ended) : takenIn actions = records ∧
      ∀ p, s.data p ≠ none ↔ ∃ dp ∈ records, ∃ x, InBox object dp x ∧ elementIndex object x = p := by
  have drained := valid.empty ⟨0,some_⟩ (.inr (ended _))
  have all_ : takenIn actions = records := by
    have order := valid.order
    rwa [drained,List.append_nil] at order
  refine ⟨all_,fun p => ⟨fun written => ?_,?_⟩⟩
  · rcases valid.sound p with none_ | ⟨dp,member,x,box,placed,_⟩
    · exact absurd none_ written
    · exact ⟨dp,member,x,box,placed⟩
  · rintro ⟨dp,member,x,box,rfl⟩
    rcases valid.accounted dp (all_ ▸ member) with ⟨w,held⟩ | copied
    · rw [ended w] at held; cases held
    · exact copied x box (box_rows laid (fit dp member).toInside box)

end Copies

section Completion
variable {α : Type} {n : Nat} {object : ChunkedObject} {libdeflate : Libdeflate α} {s t : Threads α n}
  {records : List DataPair}

def rowsLeft (object : ChunkedObject) (dp : DataPair) (loop : CopyLoop) : Nat :=
  if copyMore object (planCopy object dp) loop then (rowCount object dp-rowNumber object dp loop.chunkPos).toNat else 0

def Worker.work (object : ChunkedObject) : Worker → Nat
  | .ended => 0
  | .leave _ => 1
  | .take => 2
  | .test => 3
  | .copy dp loop => rowsLeft object dp loop+4
  | .branch dp => (rowCount object dp).toNat+5
  | .inflate dp => (rowCount object dp).toNat+6

def queueWork (object : ChunkedObject) (records : List DataPair) : Nat :=
  (records.map fun dp => (rowCount object dp).toNat+5).sum

def work (object : ChunkedObject) (s : Threads α n) : Nat :=
  queueWork object s.queue.live+total (Worker.work object) s.workers+(n-s.joined)

theorem turn_work (s : Threads α n) (w : Fin n) (worker : Worker)
    (less : worker.work object < (s.workers w).work object) : work object (s.setWorker w worker) < work object s := by
  have moved := total_update (Worker.work object) s.workers w worker
  simp only [work,Threads.setWorker]
  omega

theorem step_work (laid : object.Laid) (fit : ∀ dp ∈ records, ChunkFits object dp)
    (valid : Copying object libdeflate records actions s) (ran : Step object libdeflate s action t) :
    work object t < work object s := by
  cases action with
  | test w =>
    obtain ⟨at_,rfl⟩ := test_step ran
    refine turn_work s w _ ?_
    rw [at_]
    split <;> simp [Worker.work]
  | take w got =>
    obtain ⟨at_,same,rfl⟩ := take_step ran
    obtain ⟨head,tail,_⟩ := NodeList.dequeue_exact valid.tight
    have first : got = s.queue.live.head? := same.trans head
    have rest : (mtDequeue s.queue).2.live = s.queue.live.tail := tail
    have moved := total_update (Worker.work object) s.workers w (taken got)
    rw [at_] at moved
    simp only [work,Threads.setWorker,rest]
    cases shape : s.queue.live with
    | nil =>
      rw [shape] at first
      subst first
      simp only [taken,Worker.work,List.head?_nil,List.tail_nil] at moved ⊢
      omega
    | cons dp more =>
      rw [shape] at first
      subst first
      simp only [taken,Worker.work,List.head?_cons,List.tail_cons,queueWork,List.map_cons,List.sum_cons] at moved ⊢
      omega
  | inflate w dp =>
    obtain ⟨at_,rfl⟩ := inflate_step ran
    refine turn_work s w (.branch dp) ?_
    rw [at_]
    simp [Worker.work]
  | branch w dp =>
    obtain ⟨at_,rfl⟩ := branch_step ran
    have own := valid.workers w
    rw [at_] at own
    refine turn_work s w _ ?_
    rw [at_]
    split
    · simp only [Worker.work]; omega
    · have all_ : rowsLeft object dp (copyStart object dp) ≤ (rowCount object dp).toNat := by
        simp only [rowsLeft,start_number]
        split <;> omega
      simp only [Worker.work]
      omega
  | place w dp =>
    obtain ⟨loop,at_,more,rfl⟩ := place_step ran
    have own := valid.workers w
    rw [at_] at own
    refine turn_work s w (.copy dp (copyAdvance (planCopy object dp) loop)) ?_
    obtain ⟨member,⟨row,_⟩ | ⟨beyond,_⟩⟩ := own
    · have within := fit dp member
      have left := row_number_lt row
      rw [at_]
      simp only [Worker.work,rowsLeft,more,ite_true]
      rcases advance_fits laid within row with ⟨next,number⟩ | ⟨_,beyond⟩
      · rw [number]
        split <;> omega
      · have stops : copyMore object (planCopy object dp) (copyAdvance (planCopy object dp) loop) = false := by
          simp [copyMore,Int.not_lt.mpr beyond]
        simp only [stops]
        simp
        omega
    · simp only [copyMore,Bool.and_eq_true,decide_eq_true_eq] at more
      omega
  | finish w dp =>
    obtain ⟨loop,at_,_,rfl⟩ := finish_step ran
    refine turn_work s w .test ?_
    rw [at_]
    simp [Worker.work]
  | leave w =>
    obtain ⟨code,at_,rfl⟩ := leave_step ran
    refine turn_work s w .ended ?_
    rw [at_]
    simp [Worker.work]
  | join =>
    obtain ⟨waiting,_,rfl⟩ := join_step ran
    simp only [work]
    omega

-- Nobody waits for anybody but the main thread for the workers.
theorem step_exists (object : ChunkedObject) (libdeflate : Libdeflate α) (unfinished : ¬ ((∀ w, s.workers w = .ended) ∧ n ≤ s.joined)) :
    ∃ action t, Step object libdeflate s action t := by
  by_cases ended : ∀ w, s.workers w = .ended
  · have waiting : s.joined < n := by
      by_contra none_
      exact unfinished ⟨ended,Nat.le_of_not_lt none_⟩
    exact ⟨.join,_,by simp only [Step,next,waiting,dite_true,ended]; rfl⟩
  · obtain ⟨w,busy⟩ := not_forall.mp ended
    cases at_ : s.workers w with
    | ended => exact absurd at_ busy
    | test => exact ⟨.test w,_,by simp only [Step,next,at_]; rfl⟩
    | take => exact ⟨.take w (mtDequeue s.queue).1,_,by simp only [Step,next,at_,ite_true]; rfl⟩
    | inflate dp => exact ⟨.inflate w dp,_,by simp only [Step,next,at_,ite_true]; rfl⟩
    | branch dp => exact ⟨.branch w dp,_,by simp only [Step,next,at_,ite_true]; rfl⟩
    | copy dp loop =>
      by_cases more : copyMore object (planCopy object dp) loop = true
      · exact ⟨.place w dp,_,by simp only [Step,next,at_,more,and_self,ite_true]; rfl⟩
      · have stops : copyMore object (planCopy object dp) loop = false := by simpa using more
        exact ⟨.finish w dp,_,by simp only [Step,next,at_,stops,and_self,ite_true]; rfl⟩
    | leave code => exact ⟨.leave w,_,by simp only [Step,next,at_]; rfl⟩

theorem completes_from (laid : object.Laid) (fit : ∀ dp ∈ records, ChunkFits object dp)
    (decompressed : ∀ dp ∈ records, libdeflate.result dp = .success)
    (valid : Copying object libdeflate records actions s) : ∃ later t, Runs.Run (Step object libdeflate) s later t ∧
      (∀ w, t.workers w = .ended) ∧ n ≤ t.joined := by
  generalize size : work object s = bound
  induction bound using Nat.strong_induction_on generalizing s actions with
  | _ bound ih =>
    by_cases finished : (∀ w, s.workers w = .ended) ∧ n ≤ s.joined
    · exact ⟨[],s,.nil,finished⟩
    · obtain ⟨action,t,ran⟩ := step_exists object libdeflate finished
      obtain ⟨later,u,path,done⟩ := ih _ (size ▸ step_work laid fit valid ran)
        (copying_step laid fit decompressed valid ran) rfl
      exact ⟨action::later,u,.cons ran path,done⟩

-- No schedule runs on for ever, and every schedule can be run to its end.
theorem inflate_completes (laid : object.Laid) (tight : queue.Tight) (fit : ∀ dp ∈ queue.live, ChunkFits object dp)
    (decompressed : ∀ dp ∈ queue.live, libdeflate.result dp = .success)
    (path : Runs.Run (Step object libdeflate) (start α n queue) actions s) :
    actions.length+work object s ≤ work object (start α n queue) ∧
    ∃ later t, Runs.Run (Step object libdeflate) (start α n queue) (actions++later) t ∧
      (∀ w, t.workers w = .ended) ∧ t.joined = n := by
  have valid := copying_run laid tight fit decompressed path
  refine ⟨?_,?_⟩
  · clear valid
    induction path with
    | nil => simp
    | step prior ran ih =>
      have less := step_work laid fit (copying_run laid tight fit decompressed prior) ran
      rw [List.length_append,List.length_singleton]
      omega
  · obtain ⟨later,t,rest,ended,joined⟩ := completes_from laid fit decompressed valid
    exact ⟨later,t,path.append rest,ended,Nat.le_antisymm (joined_bound (path.append rest)) joined⟩

end Completion
end GetMatVar.DoInflate
