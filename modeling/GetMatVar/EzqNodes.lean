import GetMatVar.Library.LinkedNodes
import Mathlib.Algebra.Group.Nat.Defs
import Mathlib.Data.Finset.Card

namespace GetMatVar
namespace EzqNodes
open LinkedNodes

-- A node carries a void pointer, none for NULL. Reading a field behind NULL or behind
-- a freed address gives no result.
abbrev QueueHeap (α : Type) := Heap (Node (Option α))

-- The members that Queue and MTQueue share. free_function is either there or NULL.
structure Cursors where
  absFront : Option Nat
  front : Option Nat
  back : Option Nat
  length : Nat
  absLength : Nat
  freeFunction : Bool

structure Queue extends Cursors where
  traverseFront : Option Nat
  traverseLength : Nat

structure MTQueue extends Cursors

namespace Cursors
variable {α : Type}

def init (freeFunction : Bool) : Cursors := ⟨none,none,none,0,0,freeFunction⟩

def append (allocator : Allocator) (heap : QueueHeap α) (queue : Cursors) (data : Option α) :
    Option (QueueHeap α × Cursors) := do
  let (newNode,heap) := heap.malloc allocator ⟨none,none,data⟩
  if queue.absLength = 0 then
    some (heap,{queue with absFront:=newNode,front:=newNode,back:=newNode,length:=queue.length+1,absLength:=queue.absLength+1})
  else
    let back ← heap.read queue.back
    let heap ← heap.write (some newNode) fun node => {node with prev:=queue.back,next:=back.next}
    let heap ← heap.writeIf back.next fun node => {node with prev:=some newNode}
    let heap ← heap.write queue.back fun node => {node with next:=some newNode}
    some (heap,{queue with
      front:=if queue.length = 0 then some newNode else queue.front
      back:=newNode,length:=queue.length+1,absLength:=queue.absLength+1})

-- A queue without live nodes is handled as by enqueue, branch by branch.
def insert (allocator : Allocator) (heap : QueueHeap α) (queue : Cursors) (data : Option α) :
    Option (QueueHeap α × Cursors) := do
  if queue.absLength = 0 ∨ queue.length = 0 then append allocator heap queue data
  else
    let (newNode,heap) := heap.malloc allocator ⟨none,none,data⟩
    let front ← heap.read queue.front
    let heap ← heap.write (some newNode) fun node => {node with prev:=front.prev,next:=queue.front}
    let heap ← if queue.front = queue.absFront then some heap
      else heap.write front.prev fun node => {node with next:=some newNode}
    let heap ← heap.write queue.front fun node => {node with prev:=some newNode}
    some (heap,{queue with
      absFront:=if queue.front = queue.absFront then some newNode else queue.absFront
      front:=newNode,length:=queue.length+1,absLength:=queue.absLength+1})

def reset (queue : Cursors) : Cursors := {queue with front:=queue.back,length:=0}

def restart (queue : Cursors) : Cursors := {queue with front:=queue.absFront,length:=queue.absLength}

def take (heap : QueueHeap α) (queue : Cursors) : Option (Option α × Cursors) :=
  if queue.front ≠ none ∧ queue.length > 0 then
    (heap.read queue.front).map fun node => (node.data,{queue with front:=node.next,length:=queue.length-1})
  else some (none,queue)

-- The locations are QUEUE_FRONT and QUEUE_BACK.
def peek (heap : QueueHeap α) (queue : Cursors) (location : Int) : Option (Option α) :=
  if queue.front ≠ none ∧ queue.length > 0 then
    if location = 0 then (heap.read queue.front).map Node.data
    else if location = 1 then (heap.read queue.back).map Node.data
    else some none
  else some none

def flushNodes (freeFunction : Bool) : Nat → QueueHeap α → Option Nat → Option (List α × QueueHeap α)
  | 0,heap,_ => some ([],heap)
  | left+1,heap,absFront => do
    let node ← heap.read absFront
    let heap ← heap.free absFront
    let (freed,heap) ← flushNodes freeFunction left heap node.next
    some ((if freeFunction then node.data.toList else [])++freed,heap)

def flush (heap : QueueHeap α) (queue : Cursors) : Option (List α × QueueHeap α × Cursors) :=
  (flushNodes queue.freeFunction queue.absLength heap queue.absFront).map fun (freed,heap) =>
    (freed,heap,{queue with absFront:=none,front:=none,back:=none,length:=0,absLength:=0})

-- Every pass frees a node, so no more passes are possible than addresses are in use.
def cleanNodes (freeFunction : Bool) (front : Option Nat) :
    Nat → QueueHeap α → Option Nat → Nat → Option (List α × QueueHeap α × Option Nat × Nat)
  | 0,_,_,_ => none
  | passes+1,heap,absFront,absLength =>
    if absFront = front then some ([],heap,absFront,absLength)
    else do
      let node ← heap.read absFront
      if node.data.isSome && !freeFunction then none
      else
        let heap ← heap.free absFront
        let (freed,rest) ← cleanNodes freeFunction front passes heap node.next (absLength-1)
        some (node.data.toList++freed,rest)

def clean (heap : QueueHeap α) (queue : Cursors) : Option (List α × QueueHeap α × Cursors) :=
  (cleanNodes queue.freeFunction queue.front (heap.used.card+1) heap queue.absFront queue.absLength).map
    fun (freed,heap,absFront,absLength) => (freed,heap,{queue with absFront,absLength})

end Cursors

section Queue
variable {α : Type}

-- malloc leaves traverse_length as it finds it.
def initQueue (freeFunction : Bool) (traverseLength : Nat) : Queue := ⟨.init freeFunction,none,traverseLength⟩

def enqueue (allocator : Allocator) (heap : QueueHeap α) (queue : Queue) (data : Option α) : Option (QueueHeap α × Queue) :=
  (queue.append allocator heap data).map fun (heap,cursors) => (heap,{queue with toCursors:=cursors})

def priorityEnqueue (allocator : Allocator) (heap : QueueHeap α) (queue : Queue) (data : Option α) :
    Option (QueueHeap α × Queue) :=
  (queue.insert allocator heap data).map fun (heap,cursors) => (heap,{queue with toCursors:=cursors})

def resetQueue (queue : Queue) : Queue := {queue with toCursors:=queue.reset}

def restartQueue (queue : Queue) : Queue := {queue with toCursors:=queue.restart}

def dequeue (heap : QueueHeap α) (queue : Queue) : Option (Option α × Queue) :=
  (queue.take heap).map fun (data,cursors) => (data,{queue with toCursors:=cursors})

def peekQueue (heap : QueueHeap α) (queue : Queue) (location : Int) : Option (Option α) := queue.peek heap location

def flushQueue (heap : QueueHeap α) (queue : Queue) : Option (List α × QueueHeap α × Queue) :=
  (queue.flush heap).map fun (freed,heap,cursors) => (freed,heap,{queue with toCursors:=cursors,traverseFront:=none})

def cleanQueue (heap : QueueHeap α) (queue : Queue) : Option (List α × QueueHeap α × Queue) :=
  (queue.clean heap).map fun (freed,heap,cursors) => (freed,heap,{queue with toCursors:=cursors})

def initTraversal (queue : Queue) : Queue := {queue with traverseFront:=queue.front,traverseLength:=queue.length}

def initAbsTraversal (queue : Queue) : Queue := {queue with traverseFront:=queue.absFront,traverseLength:=queue.absLength}

-- traverse_length is counted down in a size_t.
def traverseQueue (heap : QueueHeap α) (queue : Queue) : Option (Option α × Queue) :=
  match queue.traverseFront with
  | none => some (none,queue)
  | some traverseFront => (heap.read traverseFront).map fun node =>
    (node.data,{queue with traverseFront:=node.next,traverseLength:=(queue.traverseLength+2^64-1)%2^64})

def peekTraverse (heap : QueueHeap α) (queue : Queue) : Option (Option α) :=
  match queue.traverseFront with
  | none => some none
  | some traverseFront => (heap.read traverseFront).map Node.data

-- The pointers and counters behind the removal of the node at tf. length is told
-- from the two counters alone.
def unlinkAt (queue : Queue) (tf : Nat) (next : Option Nat) : Queue := {queue with
  traverseFront:=next
  front:=if some tf = queue.front then next else queue.front
  absFront:=if some tf = queue.absFront then next else queue.absFront
  absLength:=queue.absLength-1
  length:=if queue.absLength-1 < queue.length then queue.length-1 else queue.length}

-- free_function is called without a check, also on NULL.
def removeAtTraverseNode (heap : QueueHeap α) (queue : Queue) : Option (Option α × QueueHeap α × Queue) :=
  match queue.traverseFront with
  | none => some (none,heap,queue)
  | some tf => do
    let node ← heap.read (some tf)
    let heap ← heap.writeIf node.prev fun other => {other with next:=node.next}
    let heap ← heap.writeIf node.next fun other => {other with prev:=node.prev}
    if !queue.freeFunction then none
    else
      let heap ← heap.free (some tf)
      let next ← peekTraverse heap (unlinkAt queue tf node.next)
      some (next,heap,unlinkAt queue tf node.next)

end Queue

section MTQueue
variable {α : Type}

def mtInitQueue (freeFunction : Bool) : MTQueue := ⟨.init freeFunction⟩

def mtEnqueue (allocator : Allocator) (heap : QueueHeap α) (queue : MTQueue) (data : Option α) :
    Option (QueueHeap α × MTQueue) :=
  (queue.append allocator heap data).map fun (heap,cursors) => (heap,⟨cursors⟩)

def mtPriorityEnqueue (allocator : Allocator) (heap : QueueHeap α) (queue : MTQueue) (data : Option α) :
    Option (QueueHeap α × MTQueue) :=
  (queue.insert allocator heap data).map fun (heap,cursors) => (heap,⟨cursors⟩)

def mtResetQueue (queue : MTQueue) : MTQueue := ⟨queue.reset⟩

def mtRestartQueue (queue : MTQueue) : MTQueue := ⟨queue.restart⟩

def mtDequeue (heap : QueueHeap α) (queue : MTQueue) : Option (Option α × MTQueue) :=
  (queue.take heap).map fun (data,cursors) => (data,⟨cursors⟩)

def mtPeekQueue (heap : QueueHeap α) (queue : MTQueue) (location : Int) : Option (Option α) := queue.peek heap location

def mtFlushQueue (heap : QueueHeap α) (queue : MTQueue) : Option (List α × QueueHeap α × MTQueue) :=
  (queue.flush heap).map fun (freed,heap,cursors) => (freed,heap,⟨cursors⟩)

end MTQueue

structure Stored {α : Type} (heap : QueueHeap α) (queue : Cursors) (consumed live : List (Placed (Option α))) : Prop where
  links : Segment heap.cells none (consumed++live) none
  distinct : ((consumed++live).map Prod.fst).Nodup
  absFront : queue.absFront = firstOr (consumed++live) none
  absLength : queue.absLength = (consumed++live).length
  back : consumed++live ≠ [] → queue.back = lastOr none (consumed++live)
  length : queue.length = live.length
  front : live ≠ [] → queue.front = firstOr live none

section Steps
variable {α : Type} {heap : QueueHeap α} {queue : Cursors} {consumed live : List (Placed (Option α))}

def addresses (nodes : List (Placed (Option α))) : List Nat := nodes.map Prod.fst

theorem init_stored (heap : QueueHeap α) (freeFunction : Bool) : Stored heap (.init freeFunction) [] [] :=
  ⟨trivial,List.nodup_nil,rfl,rfl,fun some_ => absurd rfl some_,rfl,fun some_ => absurd rfl some_⟩

theorem Stored.frame (stored : Stored heap queue consumed live)
    (same : ∀ address ∈ addresses (consumed++live), heap'.cells address = heap.cells address) :
    Stored heap' queue consumed live :=
  {stored with links:=stored.links.frame same}

theorem Stored.cell (stored : Stored heap queue consumed live) (member : address ∈ addresses (consumed++live)) :
    heap.cells address ≠ none := by
  obtain ⟨node,here⟩ := stored.links.mem_cells member
  rw [here]
  exact Option.some_ne_none node

theorem Stored.reset (stored : Stored heap queue consumed live) : Stored heap queue.reset (consumed++live) [] := by
  obtain ⟨links,distinct,absFront,absLength,back,_,_⟩ := stored
  refine ⟨?_,?_,?_,?_,?_,rfl,fun some_ => absurd rfl some_⟩ <;> rw [List.append_nil]
  · exact links
  · exact distinct
  · exact absFront
  · exact absLength
  · exact back

theorem Stored.restart (stored : Stored heap queue consumed live) : Stored heap queue.restart [] (consumed++live) :=
  ⟨stored.links,stored.distinct,stored.absFront,stored.absLength,stored.back,stored.absLength,fun _ => stored.absFront⟩

theorem Stored.take_none (stored : Stored heap queue consumed []) : queue.take heap = some (none,queue) := by
  have length : queue.length = 0 := stored.length
  rw [Cursors.take,if_neg (by simp [length])]

theorem Stored.take_some (stored : Stored heap queue consumed (node::live)) :
    ∃ queue', queue.take heap = some (node.2,queue') ∧ Stored heap queue' (consumed++[node]) live ∧
      queue'.freeFunction = queue.freeFunction ∧ (live = [] → queue'.front = none) := by
  obtain ⟨links,distinct,absFront,absLength,back,length,front⟩ := stored
  have first : queue.front = some node.1 := front (List.cons_ne_nil _ _)
  obtain ⟨_,here,_⟩ := Segment.append_iff.mp links
  have shape : consumed++[node]++live = consumed++node::live := by simp
  refine ⟨{queue with front:=firstOr live none,length:=queue.length-1},?_,?_,rfl,?_⟩
  · rw [Cursors.take,if_pos ⟨by simp [first],by simp [length]⟩,first,Heap.read,here]
    rfl
  · refine ⟨?_,?_,?_,?_,?_,?_,fun _ => rfl⟩
    · rwa [shape]
    · rwa [shape]
    · rwa [shape]
    · rwa [shape]
    · rwa [shape]
    · simp [length]
  · rintro rfl
    rfl

theorem Stored.peek_exact (stored : Stored heap queue consumed live) (location : Int) : queue.peek heap location = some
    (if location = 0 then live.head?.bind Prod.snd else if location = 1 then live.getLast?.bind Prod.snd else none) := by
  obtain ⟨links,distinct,absFront,absLength,back,length,front⟩ := stored
  rcases List.eq_nil_or_concat live with rfl | ⟨ahead,last,rfl⟩
  · rw [Cursors.peek,if_neg (by simp [length])]
    simp
  · rw [List.concat_eq_append] at *
    have some_ : ahead++[last] ≠ [] := by simp
    have end_ : queue.back = some last.1 := by
      rw [back (by simp),← List.append_assoc,lastOr_append]
      rfl
    have lastCell : ∃ node, heap.cells last.1 = some node ∧ node.data = last.2 := by
      rw [← List.append_assoc] at links
      exact ⟨_,(Segment.append_iff.mp links).2.1,rfl⟩
    obtain ⟨node,atLast,lastData⟩ := lastCell
    obtain ⟨first,rest,shape⟩ := List.exists_cons_of_ne_nil some_
    have begins : queue.front = some first.1 := by
      rw [front some_,shape]
      rfl
    rw [shape] at links
    have atFirst := (Segment.append_iff.mp links).2.1
    rw [Cursors.peek,if_pos ⟨by simp [begins],by simp [length]⟩,begins,end_,Heap.read,Heap.read,atFirst,atLast]
    simp only [Option.map_some,lastData]
    split
    · rw [shape]
      rfl
    · split
      · simp
      · rfl

theorem Stored.unused (stored : Stored heap queue consumed live) (unused : heap.cells newNode = none) :
    newNode ∉ addresses (consumed++live) := fun member => stored.cell member unused

-- Both kinds of enqueue give the new node the address that malloc has found. Apart
-- from it they write to nodes of the queue only.
structure Inserted (heap heap' : QueueHeap α) (queue queue' : Cursors) (consumed live : List (Placed (Option α)))
    (newNode : Nat) : Prop where
  unused : heap.cells newNode = none
  frame : ∀ address, address ∉ addresses (consumed++live) → address ≠ newNode → heap'.cells address = heap.cells address
  freeFunction : queue'.freeFunction = queue.freeFunction

theorem Stored.append (allocator : Allocator) (stored : Stored heap queue consumed live) (data : Option α) :
    ∃ heap' queue' newNode, queue.append allocator heap data = some (heap',queue') ∧
      Inserted heap heap' queue queue' consumed live newNode ∧ Stored heap' queue' consumed (live++[(newNode,data)]) := by
  obtain ⟨newNode,heap₁,made,fresh,atNew,kept⟩ := heap.malloc_parts allocator ⟨none,none,data⟩
  unfold Cursors.append
  rw [made]
  dsimp only
  have outside := stored.unused fresh
  by_cases empty : queue.absLength = 0
  · have none_ : consumed++live = [] := List.length_eq_zero_iff.mp (stored.absLength.symm.trans empty)
    obtain ⟨rfl,rfl⟩ := List.append_eq_nil_iff.mp none_
    rw [if_pos empty]
    refine ⟨_,_,newNode,rfl,⟨fresh,fun address _ other => kept address other,rfl⟩,?_⟩
    refine ⟨⟨atNew,trivial⟩,by simp,rfl,?_,fun _ => rfl,?_,fun _ => rfl⟩
    · simp [stored.absLength]
    · simp [stored.length]
  · rw [if_neg empty]
    have some_ : consumed++live ≠ [] := by
      intro none_
      exact empty (stored.absLength.trans (by rw [none_]; rfl))
    obtain ⟨links,distinct,absFront,absLength,back,length,front⟩ := stored
    have links₁ := links.frame (fun address member => kept address (by rintro rfl; exact outside member))
    have spread := List.append_nil (consumed++live)
    obtain ⟨heap₂,heap₃,heap₄,wrote₂,wrote₃,wrote₄,linked,frame⟩ := Segment.insert heap₁
      (by rwa [spread]) (by rwa [spread]) (by rwa [spread]) atNew
    rw [spread] at frame
    -- The last node has no next one, so only back->next is set.
    obtain ⟨ahead,last,shape⟩ := (List.eq_nil_or_concat (consumed++live)).resolve_left some_
    rw [List.concat_eq_append] at shape
    have behind : queue.back = some last.1 := by
      rw [back some_,shape]
      exact lastOr_append ..
    have atLast : ∃ node, heap₁.cells last.1 = some node ∧ node.next = none := by
      rw [shape] at links₁
      exact ⟨_,(Segment.append_iff.mp links₁).2.1,rfl⟩
    obtain ⟨node,here,next⟩ := atLast
    have reads : heap₁.read queue.back = some node := by rw [behind]; exact here
    rw [← back some_,behind] at wrote₃
    rw [← back some_] at wrote₂
    have writes : heap₂.write queue.back (fun node => {node with next:=some newNode}) = some heap₃ := by
      rw [behind]
      exact wrote₃
    cases wrote₄
    refine ⟨heap₃,{queue with
        front:=if queue.length = 0 then some newNode else queue.front
        back:=some newNode,length:=queue.length+1,absLength:=queue.absLength+1},newNode,?_,⟨fresh,fun address out other => ?_,rfl⟩,?_⟩
    · simp only [reads,Option.bind_eq_bind,Option.bind_some,next]
      rw [show heap₁.write (some newNode) (fun node => {node with prev:=queue.back,next:=none}) = some heap₂ from wrote₂]
      simp only [Option.bind_some,Heap.writeIf,writes]
    · rw [frame address out other,kept address other]
    · have shape : consumed++(live++[(newNode,data)]) = consumed++live++[(newNode,data)] := by simp
      refine ⟨?_,?_,?_,?_,?_,?_,?_⟩
      · rw [shape]
        exact linked
      · rw [shape,List.map_append,List.nodup_append]
        refine ⟨distinct,by simp,?_⟩
        rintro address member other new rfl
        simp only [List.map_cons,List.map_nil,List.mem_singleton] at new
        exact outside (new ▸ member)
      · rw [shape,firstOr_append,absFront]
        exact firstOr_any some_ none (some newNode)
      · rw [shape,List.length_append,← absLength]
        rfl
      · rw [shape,lastOr_append]
        exact fun _ => rfl
      · simp [length]
      · intro _
        cases live with
        | nil => exact if_pos length
        | cons first live => exact (if_neg (by simp [length])).trans (front (List.cons_ne_nil _ _))

theorem Stored.insert (allocator : Allocator) (stored : Stored heap queue consumed live) (data : Option α) :
    ∃ heap' queue' newNode, queue.insert allocator heap data = some (heap',queue') ∧
      Inserted heap heap' queue queue' consumed live newNode ∧ Stored heap' queue' consumed ((newNode,data)::live) := by
  by_cases none_ : queue.absLength = 0 ∨ queue.length = 0
  · have empty : live = [] := by
      rcases none_ with all_ | live_
      · have total := stored.absLength
        rw [all_,List.length_append] at total
        exact List.length_eq_zero_iff.mp (by omega)
      · exact List.length_eq_zero_iff.mp (stored.length.symm.trans live_)
    subst empty
    rw [Cursors.insert,if_pos none_]
    exact stored.append allocator data
  · obtain ⟨newNode,heap₁,made,fresh,atNew,kept⟩ := heap.malloc_parts allocator ⟨none,none,data⟩
    rw [Cursors.insert,if_neg none_,made]
    dsimp only
    have outside := stored.unused fresh
    obtain ⟨links,distinct,absFront,absLength,back,length,front⟩ := stored
    have some_ : live ≠ [] := by
      rintro rfl
      exact none_ (.inr length)
    obtain ⟨first,live,rfl⟩ := List.exists_cons_of_ne_nil some_
    have begins : queue.front = some first.1 := front some_
    have links₁ := links.frame (fun address member => kept address (by rintro rfl; exact outside member))
    have here := (Segment.append_iff.mp links₁).2.1
    obtain ⟨heap₂,heap₃,heap₄,wrote₂,wrote₃,wrote₄,linked,frame⟩ := Segment.insert heap₁ links₁ distinct outside atNew
    have writes : heap₃.write queue.front (fun node => {node with prev:=some newNode}) = some heap₄ := by
      rw [begins]
      exact wrote₄
    -- front is abs_front only where nothing is consumed.
    have whole_apart : ∀ {node consumed'}, consumed = node::consumed' → queue.front ≠ queue.absFront := by
      rintro node consumed' rfl same
      rw [begins,absFront] at same
      have equal : first.1 = node.1 := Option.some.inj same
      exact (List.nodup_cons.mp distinct).1 (equal ▸ by simp)
    have ahead : (if queue.front = queue.absFront then some heap₂
        else heap₂.write (lastOr none consumed) (fun node => {node with next:=some newNode})) = some heap₃ := by
      cases consumed with
      | nil => exact (if_pos (begins.trans absFront.symm)).trans wrote₃
      | cons node consumed =>
        rw [if_neg (whole_apart rfl),← Heap.writeIf_some (lastOr_some (List.cons_ne_nil _ _) none)]
        exact wrote₃
    refine ⟨heap₄,{queue with
        absFront:=if queue.front = queue.absFront then some newNode else queue.absFront
        front:=some newNode,length:=queue.length+1,absLength:=queue.absLength+1},newNode,?_,
      ⟨fresh,fun address out other => ?_,rfl⟩,?_⟩
    · simp only [Option.bind_eq_bind]
      rw [begins,Heap.read,here,← begins]
      simp only [Option.bind_some]
      rw [show heap₁.write (some newNode) (fun node => {node with prev:=lastOr none consumed,next:=queue.front}) =
        some heap₂ by rw [begins]; exact wrote₂]
      simp only [Option.bind_some]
      by_cases whole : queue.front = queue.absFront
      · rw [if_pos whole] at ahead ⊢
        cases ahead
        simp only [Option.bind_some,writes]
      · rw [if_neg whole] at ahead ⊢
        simp only [ahead,Option.bind_some,writes]
    · rw [frame address out other,kept address other]
    · refine ⟨linked,?_,?_,?_,?_,?_,fun _ => rfl⟩
      · rw [(List.perm_middle.map Prod.fst).nodup_iff]
        exact List.nodup_cons.mpr ⟨outside,distinct⟩
      · cases consumed with
        | nil => exact if_pos (begins.trans absFront.symm)
        | cons node consumed => exact (if_neg (whole_apart rfl)).trans absFront
      · simp only [List.length_append,List.length_cons] at absLength ⊢
        omega
      · intro _
        rw [back (by simp),lastOr_append,lastOr_append]
        rfl
      · simp [length]

def items (nodes : List (Placed (Option α))) : List α := nodes.filterMap Prod.snd

def Freed (heap heap' : QueueHeap α) (nodes : List (Placed (Option α))) : Prop :=
  (∀ address ∈ addresses nodes, heap'.cells address = none) ∧
    ∀ address, address ∉ addresses nodes → heap'.cells address = heap.cells address

theorem Freed.cons (here : heap₁.cells = Function.update heap.cells node.1 none) (freed : Freed heap₁ heap₂ nodes)
    (apart : node.1 ∉ addresses nodes) : Freed heap heap₂ (node::nodes) := by
  refine ⟨fun address member => ?_,fun address outside => ?_⟩
  · rcases List.mem_cons.mp member with rfl | behind
    · rw [freed.2 _ apart,here]
      exact Function.update_self ..
    · exact freed.1 address behind
  · obtain ⟨other,out⟩ := not_or.mp (List.mem_cons.not.mp outside)
    rw [freed.2 address out,here,Function.update_of_ne other]

-- A node is gone before the next one is looked at, so its next pointer is read first.
theorem flushNodes_exact (freeFunction : Bool) (heap : QueueHeap α) (links : Segment heap.cells before nodes none)
    (distinct : (addresses nodes).Nodup) : ∃ heap',
      Cursors.flushNodes freeFunction nodes.length heap (firstOr nodes none) =
        some (if freeFunction then items nodes else [],heap') ∧ Freed heap heap' nodes := by
  induction nodes generalizing before heap with
  | nil => exact ⟨heap,by simp [Cursors.flushNodes,items],fun _ member => (by cases member),fun _ _ => rfl⟩
  | cons node nodes ih =>
    obtain ⟨here,rest⟩ := links
    obtain ⟨apart,distinct⟩ := List.nodup_cons.mp distinct
    obtain ⟨heap₁,freed,cells⟩ := Heap.free_cells here
    have kept : ∀ address ∈ addresses nodes, heap₁.cells address = heap.cells address := by
      intro address member
      rw [cells,Function.update_of_ne]
      rintro rfl
      exact apart member
    obtain ⟨heap₂,flushed,gone⟩ := ih heap₁ (rest.frame kept) distinct
    refine ⟨heap₂,?_,gone.cons cells apart⟩
    simp only [List.length_cons,Cursors.flushNodes,firstOr_cons,Heap.read,here,freed,flushed,Option.bind_eq_bind,
      Option.bind_some]
    cases freeFunction with
    | false => rfl
    | true => cases node with | mk address data => cases data <;> rfl

theorem Stored.flush (stored : Stored heap queue consumed live) : ∃ heap',
    queue.flush heap = some (if queue.freeFunction then items (consumed++live) else [],heap',.init queue.freeFunction) ∧
      Freed heap heap' (consumed++live) := by
  obtain ⟨heap',flushed,gone⟩ := flushNodes_exact queue.freeFunction heap stored.links stored.distinct
  refine ⟨heap',?_,gone⟩
  rw [Cursors.flush,stored.absLength,stored.absFront,flushed]
  rfl

end Steps

end EzqNodes
end GetMatVar
