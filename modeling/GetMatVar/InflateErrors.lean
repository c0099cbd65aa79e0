import GetMatVar.DoInflate
namespace GetMatVar.DoInflate
section Reporting
variable {α : Type} {n : Nat} {object : ChunkedObject} {libdeflate : Libdeflate α} {s t : Threads α n}

-- What the property asks of a run and the state it has reached: no buffer of a
-- failed decompression is copied, and with every thread joined the result tells.
def Reported (libdeflate : Libdeflate α) (actions : List (Action n)) (s : Threads α n) : Prop :=
  ∀ w dp, .inflate w dp ∈ actions → libdeflate.result dp ≠ .success →
    (∀ v, .place v dp ∉ actions) ∧ (s.joined = n → s.ret ≠ 0)

-- The step does not store a 0 over the failure code of another worker.
def KeepsError (libdeflate : Libdeflate α) (s : Threads α n) : Action n → Prop
  | .inflate _ dp => libdeflate.result dp = .success → s.err = 0
  | .leave w => s.workers w = .leave 0 → s.err = 0
  | _ => True

def KeepingStep (object : ChunkedObject) (libdeflate : Libdeflate α) (s : Threads α n) (action : Action n)
    (t : Threads α n) : Prop := KeepsError libdeflate s action ∧ Step object libdeflate s action t

theorem code_zero (result : LibdeflateResult) : result.code = 0 ↔ result = .success := by
  cases result <;> decide

theorem code_small (result : LibdeflateResult) : result.code ≤ 3 := by cases result <;> decide

theorem failing_exact (small : err ≤ 3) : failing err = false ↔ err = 0 := by
  simp only [failing,Bool.or_eq_false_iff,beq_eq_false_iff_ne]
  omega

structure Reporting (libdeflate : Libdeflate α) (actions : List (Action n)) (s : Threads α n) : Prop where
  stored : ∀ w dp, .inflate w dp ∈ actions → libdeflate.result dp ≠ .success → s.err ≠ 0
  branching : ∀ w dp, s.workers w = .branch dp → ∃ v, .inflate v dp ∈ actions
  copying : ∀ w dp loop, s.workers w = .copy dp loop → libdeflate.result dp = .success
  placed : ∀ w dp, .place w dp ∈ actions → libdeflate.result dp = .success
  leaving : ∀ w code, s.workers w = .leave code → code ≤ 1
  small : s.err ≤ 3
  joins : Joined s
  told : ∀ w dp, .inflate w dp ∈ actions → libdeflate.result dp ≠ .success → w.val < s.joined → s.ret ≠ 0

theorem listed_before {earlier last : Action n} (member : earlier ∈ actions++[last]) (other : last ≠ earlier) :
    earlier ∈ actions := by
  rcases List.mem_append.mp member with prior | new
  · exact prior
  · exact absurd (List.mem_singleton.mp new).symm other

theorem worker_before {w v : Fin n} {worker state : Worker} (moved : (s.setWorker w worker).workers v = state)
    (other : worker ≠ state) : s.workers v = state := by
  rcases worker_cases s w v worker with ⟨_,new⟩ | ⟨_,old⟩
  · exact absurd (new.symm.trans moved) other
  · exact old.symm.trans moved

theorem reporting_start (queue : MTQueue DataPair) : Reporting libdeflate [] (start α n queue) := by
  refine ⟨?_,?_,?_,?_,?_,Nat.zero_le _,fun _ done => absurd done (Nat.not_lt_zero _),?_⟩ <;> intros <;> contradiction

theorem reporting_turn (w : Fin n) (worker : Worker) (valid : Reporting libdeflate actions s) (joins : Joined t)
    (quiet : ∀ v dp, action ≠ .inflate v dp) (good : ∀ v dp, action = .place v dp → libdeflate.result dp = .success)
    (workers : t.workers = (s.setWorker w worker).workers) (rest : t.err = s.err ∧ t.joined = s.joined ∧ t.ret = s.ret)
    (branching : ∀ dp, worker = .branch dp → False)
    (copying : ∀ dp loop, worker = .copy dp loop → libdeflate.result dp = .success)
    (leaving : ∀ code, worker = .leave code → code ≤ 1) : Reporting libdeflate (actions++[action]) t := by
  obtain ⟨err,joined,ret⟩ := rest
  have history : ∀ v dp, Action.inflate v dp ∈ actions++[action] → .inflate v dp ∈ actions :=
    fun v dp member => listed_before member (quiet v dp)
  constructor
  · intro v dp member bad
    rw [err]; exact valid.stored v dp (history v dp member) bad
  · intro v dp at_
    rw [workers] at at_
    rcases worker_cases s w v worker with ⟨_,new⟩ | ⟨_,old⟩
    · exact (branching dp (new.symm.trans at_)).elim
    · obtain ⟨u,member⟩ := valid.branching v dp (old.symm.trans at_)
      exact ⟨u,List.mem_append_left _ member⟩
  · intro v dp loop at_
    rw [workers] at at_
    rcases worker_cases s w v worker with ⟨_,new⟩ | ⟨_,old⟩
    · exact copying dp loop (new.symm.trans at_)
    · exact valid.copying v dp loop (old.symm.trans at_)
  · intro v dp member
    rcases List.mem_append.mp member with prior | new
    · exact valid.placed v dp prior
    · exact good v dp (List.mem_singleton.mp new).symm
  · intro v code at_
    rw [workers] at at_
    rcases worker_cases s w v worker with ⟨_,new⟩ | ⟨_,old⟩
    · exact leaving code (new.symm.trans at_)
    · exact valid.leaving v code (old.symm.trans at_)
  · rw [err]; exact valid.small
  · exact joins
  · intro v dp member bad done
    rw [joined] at done
    rw [ret]; exact valid.told v dp (history v dp member) bad done

theorem inflate_reporting (valid : Reporting libdeflate actions s) (at_ : s.workers w = .inflate dp)
    (joins : Joined {s.setWorker w (.branch dp) with err:=(libdeflate.result dp).code})
    (kept : libdeflate.result dp = .success → s.err = 0) : Reporting libdeflate (actions++[.inflate w dp])
      {s.setWorker w (.branch dp) with err:=(libdeflate.result dp).code} := by
  have waiting : ¬ w.val < s.joined := fun done => by
    have joins := valid.joins w done
    rw [at_] at joins; cases joins
  have history : ∀ v row, Action.inflate v row ∈ actions++[.inflate w dp] →
      .inflate v row ∈ actions ∨ (v = w ∧ row = dp) := by
    intro v row member
    rcases List.mem_append.mp member with prior | new
    · exact .inl prior
    · cases List.mem_singleton.mp new; exact .inr ⟨rfl,rfl⟩
  constructor
  · intro v row member bad
    rcases history v row member with prior | ⟨_,rfl⟩
    · by_cases good : libdeflate.result dp = .success
      · exact absurd (kept good) (valid.stored v row prior bad)
      · exact fun zero => good ((code_zero _).mp zero)
    · exact fun zero => bad ((code_zero _).mp zero)
  · intro v row moved
    rcases worker_cases s w v (.branch dp) with ⟨_,new⟩ | ⟨_,old⟩
    · cases new.symm.trans moved
      exact ⟨w,List.mem_append_right _ (List.mem_singleton.mpr rfl)⟩
    · obtain ⟨u,member⟩ := valid.branching v row (old.symm.trans moved)
      exact ⟨u,List.mem_append_left _ member⟩
  · intro v row loop moved
    exact valid.copying v row loop (worker_before moved nofun)
  · intro v row member
    exact valid.placed v row (listed_before member nofun)
  · intro v code moved
    exact valid.leaving v code (worker_before moved nofun)
  · exact code_small _
  · exact joins
  · intro v row member bad done
    rcases history v row member with prior | ⟨rfl,_⟩
    · exact valid.told v row prior bad done
    · exact absurd done waiting

theorem leave_reporting (valid : Reporting libdeflate actions s) (at_ : s.workers w = .leave code)
    (joins : Joined {s.setWorker w .ended with err:=code}) (kept : code = 0 → s.err = 0) : Reporting libdeflate (actions++[.leave w])
      {s.setWorker w .ended with err:=code} := by
  have history : ∀ v row, Action.inflate v row ∈ actions++[.leave w] → .inflate v row ∈ actions :=
    fun _ _ member => listed_before member nofun
  constructor
  · intro v row member bad zero
    exact valid.stored v row (history v row member) bad (kept zero)
  · intro v row moved
    obtain ⟨u,member⟩ := valid.branching v row (worker_before moved nofun)
    exact ⟨u,List.mem_append_left _ member⟩
  · intro v row loop moved
    exact valid.copying v row loop (worker_before moved nofun)
  · intro v row member
    exact valid.placed v row (listed_before member nofun)
  · intro v other moved
    exact valid.leaving v other (worker_before moved nofun)
  · exact Nat.le_trans (valid.leaving w code at_) (by decide)
  · exact joins
  · intro v row member bad done
    exact valid.told v row (history v row member) bad done

theorem join_reporting (valid : Reporting libdeflate actions s)
    (joins : Joined {s with joined:=s.joined+1,ret:=if s.err ≠ 0 then 1 else s.ret}) : Reporting libdeflate (actions++[.join])
      {s with joined:=s.joined+1,ret:=if s.err ≠ 0 then 1 else s.ret} := by
  have history : ∀ v row, Action.inflate v row ∈ actions++[.join] → .inflate v row ∈ actions :=
    fun _ _ member => listed_before member nofun
  refine ⟨fun v row member => valid.stored v row (history v row member),?_,valid.copying,?_,valid.leaving,valid.small,joins,?_⟩
  · intro v row moved
    obtain ⟨u,member⟩ := valid.branching v row moved
    exact ⟨u,List.mem_append_left _ member⟩
  · intro v row member
    exact valid.placed v row (listed_before member nofun)
  · intro v row member bad _
    have set_ := valid.stored v row (history v row member) bad
    simp only [set_,ne_eq,not_false_eq_true,ite_true]
    decide

theorem reporting_step (valid : Reporting libdeflate actions s) (taken : KeepingStep object libdeflate s action t) :
    Reporting libdeflate (actions++[action]) t := by
  obtain ⟨kept,ran⟩ := taken
  have joins := joined_step valid.joins ran
  cases action with
  | test w =>
    obtain ⟨at_,rfl⟩ := test_step ran
    refine reporting_turn w _ valid joins (by simp) (by simp) rfl ⟨rfl,rfl,rfl⟩ ?_ ?_ ?_ <;> split <;> simp
  | take w got =>
    obtain ⟨at_,_,rfl⟩ := take_step ran
    refine reporting_turn w (taken got) valid joins (by simp) (by simp) rfl ⟨rfl,rfl,rfl⟩ ?_ ?_ ?_ <;>
      cases got <;> simp [taken]
  | inflate w dp =>
    obtain ⟨at_,rfl⟩ := inflate_step ran
    exact inflate_reporting valid at_ joins kept
  | branch w dp =>
    obtain ⟨at_,rfl⟩ := branch_step ran
    obtain ⟨v,member⟩ := valid.branching w dp at_
    refine reporting_turn w _ valid joins (by simp) (by simp) rfl ⟨rfl,rfl,rfl⟩ ?_ ?_ ?_
    · split <;> simp
    · intro row loop
      split
      · intro bad; cases bad
      · rename_i passes
        intro copies
        cases copies
        have zero := (failing_exact valid.small).mp (by simpa using passes)
        by_contra bad
        exact valid.stored v dp member bad zero
    · split <;> simp
  | place w dp =>
    obtain ⟨loop,at_,_,rfl⟩ := place_step ran
    have good := valid.copying w dp loop at_
    refine reporting_turn w (.copy dp _) valid joins (by simp) ?_ rfl ⟨rfl,rfl,rfl⟩ (by simp) ?_ (by simp)
    · intro v row same; cases same; exact good
    · intro row later same; cases same; exact good
  | finish w dp =>
    obtain ⟨loop,at_,_,rfl⟩ := finish_step ran
    exact reporting_turn w _ valid joins (by simp) (by simp) rfl ⟨rfl,rfl,rfl⟩ (by simp) (by simp) (by simp)
  | leave w =>
    obtain ⟨code,at_,rfl⟩ := leave_step ran
    exact leave_reporting valid at_ joins fun zero => kept (zero ▸ at_)
  | join =>
    obtain ⟨_,_,rfl⟩ := join_step ran
    exact join_reporting valid joins

theorem failures_reported (path : Runs.Run (KeepingStep object libdeflate) (start α n queue) actions s) :
    Reported libdeflate actions s := by
  have valid : Reporting libdeflate actions s := path.history (fun _ _ _ _ valid => reporting_step valid) (reporting_start queue)
  intro w dp member bad
  refine ⟨fun v copied => bad (valid.placed v dp copied),fun done => ?_⟩
  exact valid.told w dp member bad (by rw [done]; exact w.isLt)

-- One worker never stores a 0 over a failure: it ends with the failure it met.
def Alone (libdeflate : Libdeflate α) (s : Threads α 1) : Prop :=
  match s.workers 0 with
  | .test | .take | .inflate _ | .copy .. => s.err = 0
  | .branch dp => s.err = (libdeflate.result dp).code
  | .leave code => code = 0 → s.err = 0
  | .ended => True

theorem alone_keeps {s t : Threads α 1} (alone : Alone libdeflate s) (ran : Step object libdeflate s action t) :
    KeepsError libdeflate s action := by
  cases action with
  | inflate w dp =>
    obtain ⟨at_,_⟩ := inflate_step ran
    rw [Subsingleton.elim w 0] at at_
    intro _
    simpa only [Alone,at_] using alone
  | leave w =>
    intro at_
    rw [Subsingleton.elim w 0] at at_
    simpa only [Alone,at_,forall_const] using alone
  | test | take | branch | place | finish | join => trivial

theorem alone_step {s t : Threads α 1} (alone : Alone libdeflate s) (ran : Step object libdeflate s action t) :
    Alone libdeflate t := by
  have here : ∀ (w : Fin 1) (worker : Worker), (s.setWorker w worker).workers 0 = worker := fun w worker => by
    rw [Subsingleton.elim w 0]; exact Function.update_self 0 worker s.workers
  cases action with
  | test w =>
    obtain ⟨at_,rfl⟩ := test_step ran
    rw [Subsingleton.elim w 0] at at_
    simp only [Alone,at_] at alone
    by_cases more : 0 < s.queue.length
    · simp only [Alone,here,more,ite_true]
      exact alone
    · simp only [Alone,here,more,ite_false]
      exact fun _ => alone
  | take w got =>
    obtain ⟨at_,_,rfl⟩ := take_step ran
    rw [Subsingleton.elim w 0] at at_
    simp only [Alone,at_] at alone
    cases got <;> simp only [Alone,here,taken]
    · exact fun _ => alone
    · exact alone
  | inflate w dp =>
    obtain ⟨_,rfl⟩ := inflate_step ran
    simp only [Alone,here]
  | branch w dp =>
    obtain ⟨at_,rfl⟩ := branch_step ran
    rw [Subsingleton.elim w 0] at at_
    simp only [Alone,at_] at alone
    by_cases fails : failing s.err = true
    · simp only [Alone,here,fails,ite_true]
      exact fun zero => absurd zero (by decide)
    · have passes : failing s.err = false := by simpa using fails
      simp only [Alone,here,passes,Bool.false_eq_true,ite_false]
      exact (failing_exact (alone ▸ code_small _)).mp passes
  | place w dp =>
    obtain ⟨loop,at_,_,rfl⟩ := place_step ran
    rw [Subsingleton.elim w 0] at at_
    simp only [Alone,at_] at alone
    simp only [Alone,here]
    exact alone
  | finish w dp =>
    obtain ⟨loop,at_,_,rfl⟩ := finish_step ran
    rw [Subsingleton.elim w 0] at at_
    simp only [Alone,at_] at alone
    simp only [Alone,here]
    exact alone
  | leave w =>
    obtain ⟨_,_,rfl⟩ := leave_step ran
    simp only [Alone,here]
  | join =>
    obtain ⟨_,_,rfl⟩ := join_step ran
    exact alone

theorem one_worker_keeps {s : Threads α 1} (path : Runs.Run (Step object libdeflate) (start α 1 queue) actions s) :
    Runs.Run (KeepingStep object libdeflate) (start α 1 queue) actions s ∧ Alone libdeflate s := by
  induction path with
  | nil => exact ⟨.nil,rfl⟩
  | step prior ran ih =>
    obtain ⟨kept,alone⟩ := ih
    exact ⟨kept.step ⟨alone_keeps alone ran,ran⟩,alone_step alone ran⟩

end Reporting

section LostError

-- Two chunks of one element; the first fails to decompress.
def twoCells : ChunkedObject := ⟨1,fun _ => 2,2,1,fun _ => 1,1,fun _ => 1⟩

def badCell : DataPair := ⟨0,1,[0]⟩

def goodCell : DataPair := ⟨1,1,[1]⟩

def badFirst : Libdeflate Nat :=
  ⟨fun dp => if dp = badCell then .badData else .success,fun _ _ => 0⟩

def lostError : List (Action 2) :=
  [.test 0,.test 1,.take 0 (some badCell),.take 1 (some goodCell),.inflate 0 badCell,.inflate 1 goodCell,
    .branch 0 badCell,.place 0 badCell,.finish 0 badCell,.test 0,.leave 0,.branch 1 goodCell,.place 1 goodCell,
    .finish 1 goodCell,.test 1,.leave 1,.join,.join]

-- The second worker's success replaces the failure before the first one reads it.
theorem failure_overwritten : ∃ s, Runs.Run (Step twoCells badFirst)
    (start Nat 2 (mtEnqueue (mtEnqueue mtInitQueue badCell) goodCell)) lostError s ∧ s.joined = 2 ∧ s.ret = 0 ∧
    ¬ Reported badFirst lostError s := by
  have ran : (Runs.exec (next twoCells badFirst)
      (start Nat 2 (mtEnqueue (mtEnqueue mtInitQueue badCell) goodCell)) lostError).map (fun s => (s.joined,s.ret)) =
      some (2,0) := by rfl
  obtain ⟨s,reached,result⟩ := Option.map_eq_some_iff.mp ran
  have joined : s.joined = 2 := congrArg Prod.fst result
  have ret : s.ret = 0 := congrArg Prod.snd result
  refine ⟨s,Runs.exec_run reached,joined,ret,fun reported => ?_⟩
  have failed := reported 0 badCell (by simp [lostError]) (by decide)
  exact failed.2 joined ret

theorem failures_reported_once : ∃ s, Reported badFirst [.test 0,.take 0 (some badCell),.inflate 0 badCell,
    .branch 0 badCell,.leave 0,.join] s ∧ (s : Threads Nat 1).joined = 1 ∧ s.ret = 1 := by
  have ran : (Runs.exec (next twoCells badFirst) (start Nat 1 (mtEnqueue mtInitQueue badCell))
      [.test 0,.take 0 (some badCell),.inflate 0 badCell,.branch 0 badCell,.leave 0,.join]).map
        (fun s => (s.joined,s.ret)) = some (1,1) := by rfl
  obtain ⟨s,reached,result⟩ := Option.map_eq_some_iff.mp ran
  exact ⟨s,failures_reported (one_worker_keeps (Runs.exec_run reached)).1,congrArg Prod.fst result,congrArg Prod.snd result⟩

end LostError

end GetMatVar.DoInflate
