import GetMatVar.EzqNodes
import Mathlib.Data.List.ReduceOption

namespace GetMatVar
namespace EzqNodes
namespace QueueSystem
open LinkedNodes

-- All queues of a session have their nodes in one heap.
inductive Id where
  | queue (i : Nat)
  | mtQueue (i : Nat)
deriving DecidableEq

structure Session (α : Type) where
  heap : QueueHeap α
  queues : Nat → Queue
  mtQueues : Nat → MTQueue

inductive Op (α : Type) where
  | enqueue (id : Id) (data : Option α)
  | priorityEnqueue (id : Id) (data : Option α)
  | dequeue (id : Id)
  | peekQueue (id : Id) (queueLocation : Int)
  | resetQueue (id : Id)
  | restartQueue (id : Id)
  | flushQueue (id : Id)
  | mergeQueue (newQueue : Nat) (queues : List Nat)
  | mtMergeQueue (newQueue : Nat) (queues : List Nat)
  | mtMergeMTQueue (newQueue : Nat) (queues : List Nat)

-- An error_t, a void pointer, or the items that free_function was called on.
inductive Outcome (α : Type) where
  | code (errFlag : Nat)
  | data (item : Option α)
  | freed (items : List α)

namespace Session
variable {α : Type}

def init (freeFunction : Id → Bool) (traverseLength : Nat → Nat) : Session α where
  heap := .empty
  queues := fun i => initQueue (freeFunction (.queue i)) (traverseLength i)
  mtQueues := fun i => mtInitQueue (freeFunction (.mtQueue i))

def cursors (session : Session α) : Id → Cursors
  | .queue i => (session.queues i).toCursors
  | .mtQueue i => (session.mtQueues i).toCursors

def putQueue (session : Session α) (i : Nat) (heap : QueueHeap α) (queue : Queue) : Session α :=
  {session with heap,queues:=Function.update session.queues i queue}

def putMTQueue (session : Session α) (i : Nat) (heap : QueueHeap α) (queue : MTQueue) : Session α :=
  {session with heap,mtQueues:=Function.update session.mtQueues i queue}

def enqueue (allocator : Allocator) (session : Session α) (data : Option α) : Id → Option (Session α)
  | .queue i => (EzqNodes.enqueue allocator session.heap (session.queues i) data).map fun (heap,queue) =>
    session.putQueue i heap queue
  | .mtQueue i => (mtEnqueue allocator session.heap (session.mtQueues i) data).map fun (heap,queue) =>
    session.putMTQueue i heap queue

def priorityEnqueue (allocator : Allocator) (session : Session α) (data : Option α) : Id → Option (Session α)
  | .queue i => (EzqNodes.priorityEnqueue allocator session.heap (session.queues i) data).map fun (heap,queue) =>
    session.putQueue i heap queue
  | .mtQueue i => (mtPriorityEnqueue allocator session.heap (session.mtQueues i) data).map fun (heap,queue) =>
    session.putMTQueue i heap queue

def dequeue (session : Session α) : Id → Option (Option α × Session α)
  | .queue i => (EzqNodes.dequeue session.heap (session.queues i)).map fun (data,queue) =>
    (data,session.putQueue i session.heap queue)
  | .mtQueue i => (mtDequeue session.heap (session.mtQueues i)).map fun (data,queue) =>
    (data,session.putMTQueue i session.heap queue)

def peekQueue (session : Session α) (queueLocation : Int) : Id → Option (Option α)
  | .queue i => EzqNodes.peekQueue session.heap (session.queues i) queueLocation
  | .mtQueue i => mtPeekQueue session.heap (session.mtQueues i) queueLocation

def resetQueue (session : Session α) : Id → Session α
  | .queue i => session.putQueue i session.heap (EzqNodes.resetQueue (session.queues i))
  | .mtQueue i => session.putMTQueue i session.heap (mtResetQueue (session.mtQueues i))

def restartQueue (session : Session α) : Id → Session α
  | .queue i => session.putQueue i session.heap (EzqNodes.restartQueue (session.queues i))
  | .mtQueue i => session.putMTQueue i session.heap (mtRestartQueue (session.mtQueues i))

def flushQueue (session : Session α) : Id → Option (List α × Session α)
  | .queue i => (EzqNodes.flushQueue session.heap (session.queues i)).map fun (freed,heap,queue) =>
    (freed,session.putQueue i heap queue)
  | .mtQueue i => (mtFlushQueue session.heap (session.mtQueues i)).map fun (freed,heap,queue) =>
    (freed,session.putMTQueue i heap queue)

-- The loop over j of the merge functions. The item is taken out before it is put in.
def moveItems (allocator : Allocator) (newQueue source : Id) : Nat → Session α → Option (Session α)
  | 0,session => some session
  | left+1,session => do
    let (data,session) ← session.dequeue source
    let session ← session.enqueue allocator data newQueue
    moveItems allocator newQueue source left session

def merge (allocator : Allocator) (newQueue : Id) : List Id → Session α → Option (Session α)
  | [],session => some session
  | source::sources,session => do
    let session ← moveItems allocator newQueue source (session.cursors source).length session
    merge allocator newQueue sources (session.restartQueue source)

def mergeQueue (allocator : Allocator) (session : Session α) (newQueue : Nat) (queues : List Nat) : Option (Session α) :=
  merge allocator (.queue newQueue) (queues.map .queue) session

def mtMergeQueue (allocator : Allocator) (session : Session α) (newQueue : Nat) (queues : List Nat) : Option (Session α) :=
  merge allocator (.mtQueue newQueue) (queues.map .queue) session

def mtMergeMTQueue (allocator : Allocator) (session : Session α) (newQueue : Nat) (queues : List Nat) : Option (Session α) :=
  merge allocator (.mtQueue newQueue) (queues.map .mtQueue) session

def step (allocator : Allocator) (session : Session α) : Op α → Option (Outcome α × Session α)
  | .enqueue id data => (session.enqueue allocator data id).map fun session => (.code 0,session)
  | .priorityEnqueue id data => (session.priorityEnqueue allocator data id).map fun session => (.code 0,session)
  | .dequeue id => (session.dequeue id).map fun (data,session) => (.data data,session)
  | .peekQueue id queueLocation => (session.peekQueue queueLocation id).map fun data => (.data data,session)
  | .resetQueue id => some (.code 0,session.resetQueue id)
  | .restartQueue id => some (.code 0,session.restartQueue id)
  | .flushQueue id => (session.flushQueue id).map fun (items,session) => (.freed items,session)
  | .mergeQueue newQueue queues => (session.mergeQueue allocator newQueue queues).map fun session => (.code 0,session)
  | .mtMergeQueue newQueue queues => (session.mtMergeQueue allocator newQueue queues).map fun session => (.code 0,session)
  | .mtMergeMTQueue newQueue queues =>
    (session.mtMergeMTQueue allocator newQueue queues).map fun session => (.code 0,session)

def run (allocator : Allocator) : List (Op α) → Session α → Option (List (Outcome α))
  | [],_ => some []
  | op::ops,session => do
    let (outcome,session) ← session.step allocator op
    let outcomes ← run allocator ops session
    some (outcome::outcomes)

end Session

-- What a queue is for: all its items and a cursor, up to which they are taken.
structure CursorList (α : Type) where
  items : List (Option α)
  cursor : Nat
  freeFunction : Bool

namespace CursorList
variable {α : Type}

def live (list : CursorList α) : List (Option α) := list.items.drop list.cursor

def append (list : CursorList α) (data : Option α) : CursorList α := {list with items:=list.items++[data]}

def insert (list : CursorList α) (data : Option α) : CursorList α :=
  if list.live = [] then list.append data
  else {list with items:=list.items.take list.cursor++data::list.live}

def take (list : CursorList α) : Option α × CursorList α :=
  match list.live with
  | [] => (none,list)
  | data::_ => (data,{list with cursor:=list.cursor+1})

def peek (list : CursorList α) (queueLocation : Int) : Option α :=
  if queueLocation = 0 then list.live.head?.join else if queueLocation = 1 then list.live.getLast?.join else none

def reset (list : CursorList α) : CursorList α := {list with cursor:=list.items.length}

def restart (list : CursorList α) : CursorList α := {list with cursor:=0}

def flush (list : CursorList α) : List α × CursorList α :=
  (if list.freeFunction then list.items.reduceOption else [],⟨[],0,list.freeFunction⟩)

end CursorList

abbrev Lists (α : Type) := Id → CursorList α

namespace Lists
variable {α : Type}

def init (freeFunction : Id → Bool) : Lists α := fun id => ⟨[],0,freeFunction id⟩

def put (lists : Lists α) (id : Id) (list : CursorList α) : Lists α := Function.update lists id list

def merge (newQueue : Id) : List Id → Lists α → Lists α
  | [],lists => lists
  | source::sources,lists =>
    let moved := lists.put newQueue {lists newQueue with items:=(lists newQueue).items++(lists source).live}
    merge newQueue sources (moved.put source (moved source).restart)

def step (lists : Lists α) : Op α → Outcome α × Lists α
  | .enqueue id data => (.code 0,lists.put id ((lists id).append data))
  | .priorityEnqueue id data => (.code 0,lists.put id ((lists id).insert data))
  | .dequeue id => (.data (lists id).take.1,lists.put id (lists id).take.2)
  | .peekQueue id queueLocation => (.data ((lists id).peek queueLocation),lists)
  | .resetQueue id => (.code 0,lists.put id (lists id).reset)
  | .restartQueue id => (.code 0,lists.put id (lists id).restart)
  | .flushQueue id => (.freed (lists id).flush.1,lists.put id (lists id).flush.2)
  | .mergeQueue newQueue queues => (.code 0,merge (.queue newQueue) (queues.map .queue) lists)
  | .mtMergeQueue newQueue queues => (.code 0,merge (.mtQueue newQueue) (queues.map .queue) lists)
  | .mtMergeMTQueue newQueue queues => (.code 0,merge (.mtQueue newQueue) (queues.map .mtQueue) lists)

def run : List (Op α) → Lists α → List (Outcome α)
  | [],_ => []
  | op::ops,lists => (lists.step op).1::run ops (lists.step op).2

end Lists

-- The nodes of the queues are apart, and hold the items of the lists.
structure Represents {α : Type} (session : Session α) (nodes : Id → List (Placed (Option α)) × List (Placed (Option α)))
    (lists : Lists α) : Prop where
  stored : ∀ id, Stored session.heap (session.cursors id) (nodes id).1 (nodes id).2
  apart : ∀ id other, id ≠ other → ∀ address ∈ addresses ((nodes id).1++(nodes id).2),
    address ∉ addresses ((nodes other).1++(nodes other).2)
  held : ∀ id, lists id = ⟨((nodes id).1++(nodes id).2).map Prod.snd,(nodes id).1.length,(session.cursors id).freeFunction⟩

def Refines {α : Type} (session : Session α) (lists : Lists α) : Prop := ∃ nodes, Represents session nodes lists

section Refinement
variable {α : Type} {session session' : Session α} {lists : Lists α} {id : Id}

theorem putQueue_cursors (session : Session α) (i : Nat) (heap : QueueHeap α) (queue : Queue) :
    (session.putQueue i heap queue).cursors = Function.update session.cursors (.queue i) queue.toCursors := by
  funext id
  cases id with
  | queue j =>
    by_cases same : j = i
    · subst same
      simp [Session.cursors,Session.putQueue]
    · simp [Session.cursors,Session.putQueue,same]
  | mtQueue j => simp [Session.cursors,Session.putQueue]

theorem putMTQueue_cursors (session : Session α) (i : Nat) (heap : QueueHeap α) (queue : MTQueue) :
    (session.putMTQueue i heap queue).cursors = Function.update session.cursors (.mtQueue i) queue.toCursors := by
  funext id
  cases id with
  | queue j => simp [Session.cursors,Session.putMTQueue]
  | mtQueue j =>
    by_cases same : j = i
    · subst same
      simp [Session.cursors,Session.putMTQueue]
    · simp [Session.cursors,Session.putMTQueue,same]

-- An operation on one queue leaves the members of the others as they are.
structure Puts (session session' : Session α) (id : Id) (heap : QueueHeap α) (cursors : Cursors) : Prop where
  heap : session'.heap = heap
  cursors : session'.cursors = Function.update session.cursors id cursors

theorem enqueue_puts (ran : (session.cursors id).append allocator session.heap data = some (heap,cursors)) :
    ∃ session', session.enqueue allocator data id = some session' ∧ Puts session session' id heap cursors := by
  cases id with
  | queue i =>
    have ran : (session.queues i).append allocator session.heap data = some (heap,cursors) := ran
    refine ⟨session.putQueue i heap {session.queues i with toCursors:=cursors},?_,rfl,putQueue_cursors ..⟩
    rw [Session.enqueue,EzqNodes.enqueue,ran]
    rfl
  | mtQueue i =>
    have ran : (session.mtQueues i).append allocator session.heap data = some (heap,cursors) := ran
    refine ⟨session.putMTQueue i heap ⟨cursors⟩,?_,rfl,putMTQueue_cursors ..⟩
    rw [Session.enqueue,mtEnqueue,ran]
    rfl

theorem priorityEnqueue_puts (ran : (session.cursors id).insert allocator session.heap data = some (heap,cursors)) :
    ∃ session', session.priorityEnqueue allocator data id = some session' ∧ Puts session session' id heap cursors := by
  cases id with
  | queue i =>
    have ran : (session.queues i).insert allocator session.heap data = some (heap,cursors) := ran
    refine ⟨session.putQueue i heap {session.queues i with toCursors:=cursors},?_,rfl,putQueue_cursors ..⟩
    rw [Session.priorityEnqueue,EzqNodes.priorityEnqueue,ran]
    rfl
  | mtQueue i =>
    have ran : (session.mtQueues i).insert allocator session.heap data = some (heap,cursors) := ran
    refine ⟨session.putMTQueue i heap ⟨cursors⟩,?_,rfl,putMTQueue_cursors ..⟩
    rw [Session.priorityEnqueue,mtPriorityEnqueue,ran]
    rfl

theorem dequeue_puts (ran : (session.cursors id).take session.heap = some (data,cursors)) :
    ∃ session', session.dequeue id = some (data,session') ∧ Puts session session' id session.heap cursors := by
  cases id with
  | queue i =>
    have ran : (session.queues i).take session.heap = some (data,cursors) := ran
    refine ⟨session.putQueue i session.heap {session.queues i with toCursors:=cursors},?_,rfl,putQueue_cursors ..⟩
    rw [Session.dequeue,EzqNodes.dequeue,ran]
    rfl
  | mtQueue i =>
    have ran : (session.mtQueues i).take session.heap = some (data,cursors) := ran
    refine ⟨session.putMTQueue i session.heap ⟨cursors⟩,?_,rfl,putMTQueue_cursors ..⟩
    rw [Session.dequeue,mtDequeue,ran]
    rfl

theorem resetQueue_puts (session : Session α) (id : Id) :
    Puts session (session.resetQueue id) id session.heap (session.cursors id).reset := by
  cases id with
  | queue i => exact ⟨rfl,putQueue_cursors ..⟩
  | mtQueue i => exact ⟨rfl,putMTQueue_cursors ..⟩

theorem restartQueue_puts (session : Session α) (id : Id) :
    Puts session (session.restartQueue id) id session.heap (session.cursors id).restart := by
  cases id with
  | queue i => exact ⟨rfl,putQueue_cursors ..⟩
  | mtQueue i => exact ⟨rfl,putMTQueue_cursors ..⟩

theorem flushQueue_puts (ran : (session.cursors id).flush session.heap = some (freed,heap,cursors)) :
    ∃ session', session.flushQueue id = some (freed,session') ∧ Puts session session' id heap cursors := by
  cases id with
  | queue i =>
    have ran : (session.queues i).flush session.heap = some (freed,heap,cursors) := ran
    refine ⟨session.putQueue i heap {session.queues i with toCursors:=cursors,traverseFront:=none},?_,rfl,putQueue_cursors ..⟩
    rw [Session.flushQueue,EzqNodes.flushQueue,ran]
    rfl
  | mtQueue i =>
    have ran : (session.mtQueues i).flush session.heap = some (freed,heap,cursors) := ran
    refine ⟨session.putMTQueue i heap ⟨cursors⟩,?_,rfl,putMTQueue_cursors ..⟩
    rw [Session.flushQueue,mtFlushQueue,ran]
    rfl

theorem peekQueue_cursors (session : Session α) (queueLocation : Int) (id : Id) :
    session.peekQueue queueLocation id = (session.cursors id).peek session.heap queueLocation := by
  cases id <;> rfl

variable {nodes : Id → List (Placed (Option α)) × List (Placed (Option α))}

theorem Represents.update (rep : Represents session nodes lists) (puts : Puts session session' id heap cursors)
    (stored : Stored heap cursors consumed live)
    (frame : ∀ address, address ∉ addresses ((nodes id).1++(nodes id).2) → session.heap.cells address ≠ none →
      heap.cells address = session.heap.cells address)
    (own : ∀ address ∈ addresses (consumed++live),
      address ∈ addresses ((nodes id).1++(nodes id).2) ∨ session.heap.cells address = none) :
    Refines session' (lists.put id ⟨(consumed++live).map Prod.snd,consumed.length,cursors.freeFunction⟩) := by
  have outside : ∀ other, other ≠ id → ∀ address ∈ addresses ((nodes other).1++(nodes other).2),
      address ∉ addresses (consumed++live) := by
    intro other differs address member new
    rcases own address new with old | unused
    · exact rep.apart other id differs address member old
    · exact (rep.stored other).cell member unused
  refine ⟨Function.update nodes id (consumed,live),fun other => ?_,fun one other differs address member => ?_,fun other => ?_⟩
  · rw [puts.cursors,puts.heap]
    by_cases same : other = id
    · subst same
      rwa [Function.update_self,Function.update_self]
    · rw [Function.update_of_ne same,Function.update_of_ne same]
      exact (rep.stored other).frame fun address member =>
        frame address (rep.apart other id same address member) ((rep.stored other).cell member)
  · by_cases left : one = id
    · subst left
      rw [Function.update_self] at member
      rw [Function.update_of_ne (Ne.symm differs)]
      exact fun both => outside other (Ne.symm differs) address both member
    · rw [Function.update_of_ne left] at member
      by_cases right : other = id
      · subst right
        rw [Function.update_self]
        exact outside one left address member
      · rw [Function.update_of_ne right]
        exact rep.apart one other differs address member
  · rw [Lists.put,puts.cursors]
    by_cases same : other = id
    · subst same
      simp only [Function.update_self]
    · simp only [Function.update_of_ne same]
      exact rep.held other

theorem live_nodes (consumed live : List (Placed (Option α))) (freeFunction : Bool) :
    CursorList.live ⟨(consumed++live).map Prod.snd,consumed.length,freeFunction⟩ = live.map Prod.snd := by
  simp [CursorList.live]

theorem enqueue_refines (allocator : Allocator) (refines : Refines session lists) (data : Option α) (id : Id) :
    ∃ session', session.enqueue allocator data id = some session' ∧
      Refines session' (lists.put id ((lists id).append data)) := by
  obtain ⟨nodes,rep⟩ := refines
  obtain ⟨heap,cursors,newNode,ran,inserted,stored⟩ := (rep.stored id).append allocator data
  obtain ⟨session',ran',puts⟩ := enqueue_puts ran
  refine ⟨session',ran',?_⟩
  have held : (lists id).append data = ⟨((nodes id).1++((nodes id).2++[(newNode,data)])).map Prod.snd,(nodes id).1.length,
      cursors.freeFunction⟩ := by
    rw [rep.held id,inserted.freeFunction]
    simp [CursorList.append]
  rw [held]
  refine rep.update puts stored (fun address out used => ?_) (fun address member => ?_)
  · exact inserted.frame address out fun same => used (same ▸ inserted.unused)
  · rw [← List.append_assoc,addresses,List.map_append] at member
    rcases List.mem_append.mp member with old | new
    · exact .inl old
    · obtain rfl : address = newNode := by simpa using new
      exact .inr inserted.unused

theorem priorityEnqueue_refines (allocator : Allocator) (refines : Refines session lists) (data : Option α) (id : Id) :
    ∃ session', session.priorityEnqueue allocator data id = some session' ∧
      Refines session' (lists.put id ((lists id).insert data)) := by
  obtain ⟨nodes,rep⟩ := refines
  obtain ⟨heap,cursors,newNode,ran,inserted,stored⟩ := (rep.stored id).insert allocator data
  obtain ⟨session',ran',puts⟩ := priorityEnqueue_puts ran
  refine ⟨session',ran',?_⟩
  have held : (lists id).insert data = ⟨((nodes id).1++(newNode,data)::(nodes id).2).map Prod.snd,(nodes id).1.length,
      cursors.freeFunction⟩ := by
    rw [rep.held id,inserted.freeFunction,CursorList.insert,live_nodes]
    by_cases none_ : (nodes id).2 = []
    · rw [if_pos (by rw [none_]; rfl),none_]
      simp [CursorList.append]
    · rw [if_neg (by simpa using none_)]
      simp
  rw [held]
  refine rep.update puts stored (fun address out used => ?_) (fun address member => ?_)
  · exact inserted.frame address out fun same => used (same ▸ inserted.unused)
  · rw [addresses,(List.perm_middle.map Prod.fst).mem_iff,List.map_cons] at member
    rcases List.mem_cons.mp member with rfl | old
    · exact .inr inserted.unused
    · exact .inl old

theorem dequeue_refines (refines : Refines session lists) (id : Id) : ∃ session',
    session.dequeue id = some ((lists id).take.1,session') ∧ Refines session' (lists.put id (lists id).take.2) := by
  obtain ⟨nodes,rep⟩ := refines
  have stored := rep.stored id
  have held := rep.held id
  cases live : (nodes id).2 with
  | nil =>
    rw [live] at stored held
    obtain ⟨session',ran',puts⟩ := dequeue_puts stored.take_none
    have taken : (lists id).take = (none,lists id) := by
      rw [CursorList.take,held,live_nodes]
      rfl
    rw [taken]
    refine ⟨session',ran',?_⟩
    dsimp only
    rw [held]
    exact rep.update puts stored (fun _ _ _ => rfl) fun address member => .inl (by rw [live]; exact member)
  | cons node rest =>
    rw [live] at stored held
    obtain ⟨cursors,ran,stored',freeFunction,_⟩ := stored.take_some
    obtain ⟨session',ran',puts⟩ := dequeue_puts ran
    have shape : (nodes id).1++[node]++rest = (nodes id).1++node::rest := by simp
    have taken : (lists id).take = (node.2,⟨((nodes id).1++[node]++rest).map Prod.snd,((nodes id).1++[node]).length,
        cursors.freeFunction⟩) := by
      rw [CursorList.take,held,live_nodes,shape,freeFunction,List.length_append]
      rfl
    rw [taken]
    refine ⟨session',ran',rep.update puts stored' (fun _ _ _ => rfl) fun address member => .inl ?_⟩
    rw [live,← shape]
    exact member

theorem resetQueue_refines (refines : Refines session lists) (id : Id) :
    Refines (session.resetQueue id) (lists.put id (lists id).reset) := by
  obtain ⟨nodes,rep⟩ := refines
  have held : (lists id).reset = ⟨((nodes id).1++(nodes id).2++[]).map Prod.snd,((nodes id).1++(nodes id).2).length,
      (session.cursors id).reset.freeFunction⟩ := by
    rw [rep.held id,List.append_nil,CursorList.reset,List.length_map]
    rfl
  rw [held]
  refine rep.update (resetQueue_puts session id) (rep.stored id).reset (fun _ _ _ => rfl) fun address member => .inl ?_
  rwa [List.append_nil] at member

theorem restartQueue_refines (refines : Refines session lists) (id : Id) :
    Refines (session.restartQueue id) (lists.put id (lists id).restart) := by
  obtain ⟨nodes,rep⟩ := refines
  have held : (lists id).restart = ⟨([]++((nodes id).1++(nodes id).2)).map Prod.snd,([] : List (Placed (Option α))).length,
      (session.cursors id).restart.freeFunction⟩ := by
    rw [rep.held id]
    rfl
  rw [held]
  exact rep.update (restartQueue_puts session id) (rep.stored id).restart (fun _ _ _ => rfl) fun _ member => .inl member

theorem flushQueue_refines (refines : Refines session lists) (id : Id) : ∃ session',
    session.flushQueue id = some ((lists id).flush.1,session') ∧ Refines session' (lists.put id (lists id).flush.2) := by
  obtain ⟨nodes,rep⟩ := refines
  obtain ⟨heap,ran,gone⟩ := (rep.stored id).flush
  obtain ⟨session',ran',puts⟩ := flushQueue_puts ran
  have held : (lists id).flush = (if (session.cursors id).freeFunction then items ((nodes id).1++(nodes id).2) else [],
      ⟨[],0,(session.cursors id).freeFunction⟩) := by
    rw [rep.held id,CursorList.flush]
    simp only [List.reduceOption,items,List.filterMap_map]
    rfl
  rw [held]
  refine ⟨session',ran',?_⟩
  exact rep.update puts (init_stored heap _) (fun address out _ => gone.2 address out) fun _ member => by cases member

theorem peekQueue_refines (refines : Refines session lists) (queueLocation : Int) (id : Id) :
    session.peekQueue queueLocation id = some ((lists id).peek queueLocation) := by
  obtain ⟨nodes,rep⟩ := refines
  rw [peekQueue_cursors,(rep.stored id).peek_exact,rep.held id,CursorList.peek,live_nodes]
  congr 1
  split
  · cases (nodes id).2 <;> rfl
  · split
    · rw [List.getLast?_map]
      cases (nodes id).2.getLast? <;> rfl
    · rfl

def movedLists (lists : Lists α) (newQueue source : Id) (count : Nat) : Lists α := fun id =>
  ⟨(lists id).items++(if id = newQueue then (lists source).live.take count else []),
    (lists id).cursor+(if id = source then count else 0),(lists id).freeFunction⟩

theorem moved_none (lists : Lists α) (newQueue source : Id) : movedLists lists newQueue source 0 = lists := by
  funext id
  simp [movedLists]

theorem moved_first (live : (lists source).live = data::rest) :
    (lists.put source (lists source).take.2).put newQueue ((lists.put source (lists source).take.2 newQueue).append data) =
      movedLists lists newQueue source 1 := by
  have taken : (lists source).take = (data,{lists source with cursor:=(lists source).cursor+1}) := by
    rw [CursorList.take,live]
  funext id
  rw [taken]
  simp only [Lists.put,movedLists,live,CursorList.append]
  by_cases new : id = newQueue
  · subst new
    rw [Function.update_self]
    by_cases same : id = source
    · subst same
      simp
    · simp [same]
  · rw [Function.update_of_ne new]
    by_cases same : id = source
    · subst same
      simp [new]
    · simp [same,new]

theorem moved_live (newQueue : Id) (live : (lists source).live = data::rest) :
    ∃ more, (movedLists lists newQueue source 1 source).live = rest++more := by
  have within : (lists source).cursor < (lists source).items.length := by
    have size := congrArg List.length live
    simp only [CursorList.live,List.length_drop,List.length_cons] at size
    omega
  refine ⟨if source = newQueue then [data] else [],?_⟩
  simp only [movedLists,CursorList.live] at live ⊢
  rw [if_pos trivial,List.drop_append_of_le_length (by omega),← List.drop_drop,live]
  rfl

theorem moved_rest (live : (lists source).live = data::rest) (enough : count ≤ rest.length) :
    movedLists (movedLists lists newQueue source 1) newQueue source count = movedLists lists newQueue source (count+1) := by
  obtain ⟨more,after⟩ := moved_live newQueue live
  funext id
  simp only [movedLists] at after ⊢
  rw [after,live,List.take_append_of_le_length enough]
  split <;> split <;> simp [Nat.add_assoc,Nat.add_comm 1 count]

-- Every pass moves the first live item of the source to the end of the new queue.
theorem moveItems_refines (allocator : Allocator) (newQueue source : Id) (count : Nat) (refines : Refines session lists)
    (enough : count ≤ (lists source).live.length) : ∃ session',
      Session.moveItems allocator newQueue source count session = some session' ∧
      Refines session' (movedLists lists newQueue source count) := by
  induction count generalizing session lists with
  | zero => exact ⟨session,rfl,by rwa [moved_none]⟩
  | succ count ih =>
    cases live : (lists source).live with
    | nil =>
      rw [live] at enough
      cases enough
    | cons data rest =>
      rw [live,List.length_cons] at enough
      have enough : count ≤ rest.length := Nat.le_of_succ_le_succ enough
      obtain ⟨session₁,took,refines₁⟩ := dequeue_refines refines source
      have first : (lists source).take.1 = data := by rw [CursorList.take,live]
      rw [first] at took
      obtain ⟨session₂,put_,refines₂⟩ := enqueue_refines allocator refines₁ data newQueue
      rw [moved_first live] at refines₂
      obtain ⟨more,after⟩ := moved_live newQueue live
      obtain ⟨session',ran,refines'⟩ := ih refines₂ (by rw [after,List.length_append]; omega)
      rw [moved_rest live enough] at refines'
      refine ⟨session',?_,refines'⟩
      simp only [Session.moveItems,took,put_,ran,Option.bind_eq_bind,Option.bind_some]

theorem moved_all (lists : Lists α) (newQueue source : Id) :
    (movedLists lists newQueue source (lists source).live.length).put source
        (movedLists lists newQueue source (lists source).live.length source).restart =
      (lists.put newQueue {lists newQueue with items:=(lists newQueue).items++(lists source).live}).put source
        (lists.put newQueue {lists newQueue with items:=(lists newQueue).items++(lists source).live} source).restart := by
  funext id
  simp only [Lists.put,movedLists,CursorList.restart,List.take_length]
  by_cases same : id = source
  · subst same
    rw [Function.update_self,Function.update_self]
    by_cases new : id = newQueue
    · subst new
      simp
    · simp [new]
  · rw [Function.update_of_ne same,Function.update_of_ne same]
    by_cases new : id = newQueue
    · subst new
      simp [movedLists,same]
    · simp [movedLists,same,new]

theorem merge_refines (allocator : Allocator) (newQueue : Id) (sources : List Id) (refines : Refines session lists) :
    ∃ session', Session.merge allocator newQueue sources session = some session' ∧
      Refines session' (Lists.merge newQueue sources lists) := by
  induction sources generalizing session lists with
  | nil => exact ⟨session,rfl,refines⟩
  | cons source sources ih =>
    have length : (session.cursors source).length = (lists source).live.length := by
      obtain ⟨nodes,rep⟩ := refines
      rw [rep.held source,live_nodes,List.length_map]
      exact (rep.stored source).length
    obtain ⟨session₁,moved,refines₁⟩ := moveItems_refines allocator newQueue source _ refines (Nat.le_refl _)
    have refines₂ := restartQueue_refines refines₁ source
    rw [moved_all] at refines₂
    obtain ⟨session',ran,refines'⟩ := ih refines₂
    refine ⟨session',?_,refines'⟩
    simp only [Session.merge,length,moved,Option.bind_eq_bind,Option.bind_some,ran]

theorem step_refines (allocator : Allocator) (refines : Refines session lists) (op : Op α) : ∃ session',
    session.step allocator op = some ((lists.step op).1,session') ∧ Refines session' (lists.step op).2 := by
  cases op with
  | enqueue id data =>
    obtain ⟨session',ran,refines'⟩ := enqueue_refines allocator refines data id
    exact ⟨session',by rw [Session.step,ran]; rfl,refines'⟩
  | priorityEnqueue id data =>
    obtain ⟨session',ran,refines'⟩ := priorityEnqueue_refines allocator refines data id
    exact ⟨session',by rw [Session.step,ran]; rfl,refines'⟩
  | dequeue id =>
    obtain ⟨session',ran,refines'⟩ := dequeue_refines refines id
    exact ⟨session',by rw [Session.step,ran]; rfl,refines'⟩
  | peekQueue id queueLocation =>
    exact ⟨session,by rw [Session.step,peekQueue_refines refines]; rfl,refines⟩
  | resetQueue id => exact ⟨_,rfl,resetQueue_refines refines id⟩
  | restartQueue id => exact ⟨_,rfl,restartQueue_refines refines id⟩
  | flushQueue id =>
    obtain ⟨session',ran,refines'⟩ := flushQueue_refines refines id
    exact ⟨session',by rw [Session.step,ran]; rfl,refines'⟩
  | mergeQueue newQueue queues =>
    obtain ⟨session',ran,refines'⟩ := merge_refines allocator (.queue newQueue) (queues.map .queue) refines
    exact ⟨session',by rw [Session.step,Session.mergeQueue,ran]; rfl,refines'⟩
  | mtMergeQueue newQueue queues =>
    obtain ⟨session',ran,refines'⟩ := merge_refines allocator (.mtQueue newQueue) (queues.map .queue) refines
    exact ⟨session',by rw [Session.step,Session.mtMergeQueue,ran]; rfl,refines'⟩
  | mtMergeMTQueue newQueue queues =>
    obtain ⟨session',ran,refines'⟩ := merge_refines allocator (.mtQueue newQueue) (queues.map .mtQueue) refines
    exact ⟨session',by rw [Session.step,Session.mtMergeMTQueue,ran]; rfl,refines'⟩

theorem run_refines (allocator : Allocator) (ops : List (Op α)) (refines : Refines session lists) :
    session.run allocator ops = some (Lists.run ops lists) := by
  induction ops generalizing session lists with
  | nil => rfl
  | cons op ops ih =>
    obtain ⟨session',ran,refines'⟩ := step_refines allocator refines op
    simp only [Session.run,ran,Option.bind_eq_bind,Option.bind_some,ih refines',Lists.run]

theorem init_refines (freeFunction : Id → Bool) (traverseLength : Nat → Nat) :
    Refines (Session.init freeFunction traverseLength : Session α) (Lists.init freeFunction) := by
  refine ⟨fun _ => ([],[]),fun id => ?_,fun _ _ _ _ member => (by cases member),fun id => ?_⟩
  · cases id <;> exact init_stored _ _
  · cases id <;> rfl

end Refinement

-- The queues give the results of lists with a cursor, in every order of operations and
-- wherever their nodes come to lie.
theorem session_run {α : Type} (allocator : Allocator) (freeFunction : Id → Bool) (traverseLength : Nat → Nat)
    (ops : List (Op α)) : (Session.init freeFunction traverseLength).run allocator ops =
      some (Lists.run ops (Lists.init freeFunction)) :=
  run_refines allocator ops (init_refines freeFunction traverseLength)

end QueueSystem
end EzqNodes
end GetMatVar
