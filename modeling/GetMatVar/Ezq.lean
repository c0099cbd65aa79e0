import Mathlib.Data.List.Basic

namespace GetMatVar

-- The part that Queue and MTQueue share. The doubly linked nodes from abs_front
-- on are kept as a list, and a node pointer as its position in it; none is NULL.
-- The counter abs_length moves with every node, so it is the length of the list.
structure NodeList (α : Type) where
  nodes : List α
  front : Option Nat
  length : Nat
deriving Repr

namespace NodeList
variable {α : Type}

def absLength (list : NodeList α) : Nat := list.nodes.length

def next (list : NodeList α) (position : Nat) : Option Nat :=
  if position+1 < list.nodes.length then some (position+1) else none

def absFront (list : NodeList α) : Option Nat :=
  if list.nodes = [] then none else some 0

def back (list : NodeList α) : Option Nat :=
  if list.nodes = [] then none else some (list.nodes.length-1)

def live (list : NodeList α) : List α :=
  match list.front with
  | none => []
  | some position => list.nodes.drop position

def init : NodeList α := ⟨[],none,0⟩

def enqueue (list : NodeList α) (data : α) : NodeList α where
  nodes := list.nodes++[data]
  front := if list.nodes = [] then some 0
    else if list.length = 0 then some list.nodes.length else list.front
  length := list.length+1

def reset (list : NodeList α) : NodeList α := {list with front:=list.back,length:=0}

def restart (list : NodeList α) : NodeList α :=
  {list with front:=list.absFront,length:=list.absLength}

def dequeue (list : NodeList α) : Option α × NodeList α :=
  match list.front with
  | none => (none,list)
  | some position =>
    if list.length > 0 then
      (list.nodes[position]?,{list with front:=list.next position,length:=list.length-1})
    else (none,list)

-- free_function runs on every item; the items are given back so that the
-- caller can account for them.
def flush (list : NodeList α) : List α × NodeList α := (list.nodes,init)

end NodeList

namespace NodeList
variable {α : Type} {list : NodeList α}

theorem live_sublist (list : NodeList α) : list.live.Sublist list.nodes := by
  unfold live
  split
  · exact List.nil_sublist _
  · exact List.drop_sublist _ _

-- front points at a node. This is all that survives removeAtTraverseNode, which
-- lets length drift above the number of nodes that are left.
def Windowed (list : NodeList α) : Prop :=
  ∃ position, list.front = some position ∧ position < list.nodes.length

theorem enqueue_windowed (before : list.nodes ≠ [] → list.Windowed) (data : α) :
    (list.enqueue data).Windowed := by
  unfold Windowed enqueue
  by_cases empty : list.nodes = []
  · exact ⟨0,by simp [empty],by simp⟩
  · by_cases none : list.length = 0
    · exact ⟨list.nodes.length,by simp [empty,none],by simp⟩
    · obtain ⟨position,front,bound⟩ := before empty
      exact ⟨position,by simp [empty,none,front],by simp; omega⟩

theorem enqueue_spare (windowed : list.Windowed) (used : list.length ≠ 0) (data : α) :
    ∃ position, (list.enqueue data).front = some position ∧
      position+1 < (list.enqueue data).nodes.length := by
  obtain ⟨position,front,bound⟩ := windowed
  have nonempty : list.nodes ≠ [] := by intro empty; simp [empty] at bound
  exact ⟨position,by simp [enqueue,nonempty,used,front],by simp [enqueue]; omega⟩

theorem dequeue_spare (front : list.front = some position) (spare : position+1 < list.nodes.length)
    (used : 0 < list.length) :
    list.dequeue = (some (list.nodes[position]),{list with front:=some (position+1),length:=list.length-1}) := by
  have bound : position < list.nodes.length := by omega
  simp [dequeue,front,used,next,spare,List.getElem?_eq_getElem bound]

end NodeList

namespace NodeList
variable {α : Type} {list : NodeList α}

-- length counts the live nodes: every list that only enqueue, dequeue, restart
-- and flush have touched.
structure Tight (list : NodeList α) : Prop where
  counted : list.length = list.live.length
  placed : ∀ position, list.front = some position → position < list.nodes.length

theorem init_tight : (init : NodeList α).Tight := ⟨rfl,fun _ front => by cases front⟩

theorem live_some (front : list.front = some position) : list.live = list.nodes.drop position := by
  simp only [live,front]

theorem enqueue_live (tight : list.Tight) (data : α) : (list.enqueue data).live = list.live++[data] := by
  by_cases empty : list.nodes = []
  · cases front : list.front with
    | none => simp [live,enqueue,empty,front]
    | some position => exact absurd (tight.placed position front) (by simp [empty])
  · cases front : list.front with
    | none =>
      have zero : list.length = 0 := by rw [tight.counted]; simp [live,front]
      simp [live,enqueue,empty,front,zero]
    | some position =>
      have bound := tight.placed position front
      have used : list.length ≠ 0 := by rw [tight.counted,live_some front,List.length_drop]; omega
      simp [live,enqueue,empty,front,used,List.drop_append_of_le_length (Nat.le_of_lt bound)]

theorem enqueue_tight (tight : list.Tight) (data : α) : (list.enqueue data).Tight := by
  refine ⟨?_,?_⟩
  · rw [enqueue_live tight,List.length_append,← tight.counted]; rfl
  · intro position front
    simp only [enqueue] at front ⊢
    split at front
    · cases front; simp
    · split at front
      · cases front; simp
      · have bound := tight.placed position front
        simp; omega

theorem dequeue_exact (tight : list.Tight) :
    list.dequeue.1 = list.live.head? ∧ list.dequeue.2.live = list.live.tail ∧ list.dequeue.2.Tight := by
  cases front : list.front with
  | none =>
    have empty : list.live = [] := by simp [live,front]
    rw [empty]
    simp only [dequeue,front]
    exact ⟨rfl,empty,tight⟩
  | some position =>
    have bound := tight.placed position front
    have used : 0 < list.length := by rw [tight.counted,live_some front,List.length_drop]; omega
    have after : list.dequeue.2.live = list.live.tail := by
      simp only [dequeue,front,used,ite_true,live,next,List.tail_drop]
      by_cases more : position+1 < list.nodes.length
      · simp [more]
      · simp [more,List.drop_eq_nil_of_le (Nat.le_of_not_lt more)]
    refine ⟨?_,after,?_,?_⟩
    · simp [dequeue,front,used,live]
    · rw [after,List.length_tail,← tight.counted]
      simp [dequeue,front,used]
    · intro later moved
      simp only [dequeue,front,used,ite_true,next] at moved ⊢
      split at moved
      · cases moved; assumption
      · cases moved

theorem dequeue_nodes (list : NodeList α) : list.dequeue.2.nodes = list.nodes := by
  unfold dequeue
  split
  · rfl
  · split <;> rfl

theorem restart_exact (list : NodeList α) : list.restart.live = list.nodes ∧ list.restart.Tight := by
  by_cases empty : list.nodes = []
  · have front : list.restart.front = none := by simp [restart,absFront,empty]
    have live_ : list.restart.live = [] := by simp [live,front]
    refine ⟨live_.trans empty.symm,?_,fun position at_ => by rw [front] at at_; cases at_⟩
    rw [live_]; simp [restart,absLength,empty]
  · have front : list.restart.front = some 0 := by simp [restart,absFront,empty]
    have live_ : list.restart.live = list.nodes := by rw [live_some front]; rfl
    refine ⟨live_,by rw [live_]; rfl,?_⟩
    intro position at_
    rw [front,Option.some.injEq] at at_
    subst at_
    exact List.length_pos_iff.mpr empty

end NodeList

structure Queue (α : Type) extends NodeList α where
  traverseFront : Option Nat
  traverseLength : Nat
deriving Repr

section Queue
variable {α : Type}

def initQueue : Queue α := ⟨.init,none,0⟩

def enqueue (queue : Queue α) (data : α) : Queue α :=
  {queue with toNodeList:=queue.toNodeList.enqueue data}

def resetQueue (queue : Queue α) : Queue α := {queue with toNodeList:=queue.reset}

def restartQueue (queue : Queue α) : Queue α := {queue with toNodeList:=queue.restart}

def dequeue (queue : Queue α) : Option α × Queue α :=
  let (data,list) := queue.toNodeList.dequeue
  (data,{queue with toNodeList:=list})

def flushQueue (queue : Queue α) : List α × Queue α :=
  let (items,list) := queue.flush
  (items,{queue with toNodeList:=list,traverseFront:=none})

def initTraversal (queue : Queue α) : Queue α :=
  {queue with traverseFront:=queue.front,traverseLength:=queue.length}

def initAbsTraversal (queue : Queue α) : Queue α :=
  {queue with traverseFront:=queue.absFront,traverseLength:=queue.absLength}

def traverseQueue (queue : Queue α) : Option α × Queue α :=
  match queue.traverseFront with
  | none => (none,queue)
  | some position => (queue.nodes[position]?,
      {queue with traverseFront:=queue.next position,traverseLength:=queue.traverseLength-1})

def peekTraverse (queue : Queue α) : Option α :=
  queue.traverseFront.bind (queue.nodes[·]?)

-- Where a pointer lands when the node at `removed` is unlinked, with `count`
-- nodes left; a pointer to that node itself moves on to its successor.
def shiftPointer (removed count : Nat) : Option Nat → Option Nat
  | none => none
  | some position =>
    if position = removed then (if removed < count then some removed else none)
    else if removed < position then some (position-1) else some position

-- The first component is the item given to free_function. The source does not
-- adjust back: removing the last node would leave it on freed memory, a state
-- this list form does not have, and that call is refused.
def removeAtTraverseNode (queue : Queue α) : Option (Option α × Queue α) :=
  match queue.traverseFront with
  | none => some (none,queue)
  | some position =>
    if position+1 < queue.nodes.length then
      let nodes := queue.nodes.eraseIdx position
      let length := if nodes.length < queue.length then queue.length-1 else queue.length
      some (queue.nodes[position]?,{queue with
        nodes:=nodes,front:=shiftPointer position nodes.length queue.front,length:=length,
        traverseFront:=shiftPointer position nodes.length queue.traverseFront})
    else none

end Queue

section Removal
variable {α : Type} {queue : Queue α}

theorem remove_exact (at_ : queue.traverseFront = some position) (inner : position+1 < queue.nodes.length) :
    removeAtTraverseNode queue = some (some (queue.nodes[position]),{queue with
      nodes:=queue.nodes.eraseIdx position
      front:=shiftPointer position (queue.nodes.length-1) queue.front
      length:=if queue.nodes.length-1 < queue.length then queue.length-1 else queue.length
      traverseFront:=some position}) := by
  have bound : position < queue.nodes.length := by omega
  have left : position < queue.nodes.length-1 := by omega
  simp [removeAtTraverseNode,at_,inner,List.length_eraseIdx_of_lt bound,shiftPointer,left,
    List.getElem?_eq_getElem bound]

theorem shift_windowed (front : queue.front = some cursor) (bound : cursor < queue.nodes.length)
    (inner : position+1 < queue.nodes.length) :
    ∃ shifted, shiftPointer position (queue.nodes.length-1) queue.front = some shifted ∧
      shifted < queue.nodes.length-1 := by
  have left : position < queue.nodes.length-1 := by omega
  rw [front]
  by_cases same : cursor = position
  · exact ⟨position,by simp [shiftPointer,same,left],left⟩
  · by_cases later : position < cursor
    · exact ⟨cursor-1,by simp [shiftPointer,same,later],by omega⟩
    · exact ⟨cursor,by simp [shiftPointer,same,later],by omega⟩

end Removal

end GetMatVar
