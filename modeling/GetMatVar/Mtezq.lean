import GetMatVar.Ezq

namespace GetMatVar

-- The multithreaded queue has no traversal; each operation runs under its lock.
structure MTQueue (α : Type) extends NodeList α
deriving Repr

section MTQueue
variable {α : Type}

def mtInitQueue : MTQueue α := ⟨.init⟩

def mtEnqueue (queue : MTQueue α) (data : α) : MTQueue α := ⟨queue.toNodeList.enqueue data⟩

def mtDequeue (queue : MTQueue α) : Option α × MTQueue α :=
  let (data,list) := queue.toNodeList.dequeue
  (data,⟨list⟩)

-- The inner loop of mt_mergeQueue. A NULL from dequeue would be queued as an
-- item; none stands for that.
def drainQueue : Nat → MTQueue α → Queue α → Option (MTQueue α × Queue α)
  | 0,new,queue => some (new,queue)
  | count+1,new,queue => do
    let data ← (dequeue queue).1
    drainQueue count (mtEnqueue new data) (dequeue queue).2

def mtMergeQueue (new : MTQueue α) (queues : Nat → Queue α) : Nat → Option (MTQueue α × (Nat → Queue α))
  | 0 => some (new,queues)
  | count+1 => do
    let (new,queues) ← mtMergeQueue new queues count
    let (new,emptied) ← drainQueue (queues count).length new (queues count)
    some (new,Function.update queues count (restartQueue emptied))

end MTQueue

section Merge
variable {α : Type}

theorem drain_exact (new : MTQueue α) (queue : Queue α) (target : new.Tight) (source : queue.Tight) :
    ∃ merged emptied, drainQueue queue.length new queue = some (merged,emptied) ∧
      merged.Tight ∧ merged.live = new.live++queue.live ∧ emptied.nodes = queue.nodes := by
  generalize total : queue.length = count
  induction count generalizing new queue with
  | zero =>
    have empty : queue.live = [] := List.eq_nil_of_length_eq_zero (source.counted ▸ total)
    exact ⟨new,queue,rfl,target,by simp [empty],rfl⟩
  | succ count ih =>
    obtain ⟨head,tail,tight⟩ := NodeList.dequeue_exact source
    cases shape : queue.live with
    | nil => rw [source.counted,shape] at total; cases total
    | cons data rest =>
      rw [shape] at head tail
      have left : (dequeue queue).2.length = count := by
        have counted := tight.counted
        have before := source.counted
        rw [tail] at counted
        rw [shape,total] at before
        simp only [List.tail_cons,List.length_cons] at counted before
        exact counted.trans (Nat.succ.inj before).symm
      have same : (dequeue queue).2.nodes = queue.nodes := by
        simp only [dequeue,NodeList.dequeue]
        split
        · rfl
        · split <;> rfl
      obtain ⟨merged,emptied,ran,kept,order,nodes⟩ := ih (mtEnqueue new data) (dequeue queue).2
        (NodeList.enqueue_tight target data) tight left
      have taken : (dequeue queue).1 = some data := head
      refine ⟨merged,emptied,by simp only [drainQueue,taken]; exact ran,kept,?_,nodes.trans same⟩
      have appended : (mtEnqueue new data).live = new.live++[data] := NodeList.enqueue_live target data
      have remaining : (dequeue queue).2.live = rest := tail
      rw [order,appended,remaining,List.append_assoc]
      rfl

theorem merge_exact (new : MTQueue α) (queues : Nat → Queue α) (target : new.Tight) (sources : ∀ i, (queues i).Tight)
    (count : Nat) : ∃ merged restored, mtMergeQueue new queues count = some (merged,restored) ∧ merged.Tight ∧
      merged.live = new.live++(List.range count).flatMap (fun i => (queues i).live) ∧
      (∀ i, count ≤ i → restored i = queues i) ∧ ∀ i < count, (restored i).live = (queues i).nodes := by
  induction count with
  | zero => exact ⟨new,queues,rfl,target,by simp,fun _ _ => rfl,fun _ below => by cases below⟩
  | succ count ih =>
    obtain ⟨merged,restored,ran,tight,order,rest,back⟩ := ih
    have own := rest count (Nat.le_refl _)
    obtain ⟨joined,emptied,drained,kept,appended,nodes⟩ := drain_exact merged (queues count) tight (sources count)
    refine ⟨joined,Function.update restored count (restartQueue emptied),?_,kept,?_,?_,?_⟩
    · simp only [mtMergeQueue,ran,Option.bind_eq_bind,Option.bind_some,own,drained]
    · rw [appended,order,List.range_succ,List.flatMap_append,List.append_assoc]
      simp
    · intro i above
      rw [Function.update_of_ne (by omega)]
      exact rest i (Nat.le_of_succ_le above)
    · intro i below
      by_cases same : i = count
      · subst same
        rw [Function.update_self]
        exact (NodeList.restart_exact _).1.trans nodes
      · rw [Function.update_of_ne same]
        exact back i (by omega)

end Merge

end GetMatVar
