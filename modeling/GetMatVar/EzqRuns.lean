import GetMatVar.EzqNodes
import Mathlib.Data.Finset.Lattice.Fold
import Mathlib.Order.Lattice.Nat

namespace GetMatVar
namespace EzqNodes
open LinkedNodes

inductive Op (α : Type) where
  | enqueue (data : Option α)
  | priorityEnqueue (data : Option α)
  | dequeue
  | resetQueue
  | restartQueue
  | flushQueue
  | cleanQueue
  | initTraversal
  | initAbsTraversal
  | traverseQueue
  | removeAtTraverseNode

section Runs
variable {α : Type}

def step (allocator : Allocator) (heap : QueueHeap α) (queue : Queue) : Op α → Option (QueueHeap α × Queue)
  | .enqueue data => enqueue allocator heap queue data
  | .priorityEnqueue data => priorityEnqueue allocator heap queue data
  | .dequeue => (dequeue heap queue).map fun (_,queue) => (heap,queue)
  | .resetQueue => some (heap,resetQueue queue)
  | .restartQueue => some (heap,restartQueue queue)
  | .flushQueue => (flushQueue heap queue).map Prod.snd
  | .cleanQueue => (cleanQueue heap queue).map Prod.snd
  | .initTraversal => some (heap,initTraversal queue)
  | .initAbsTraversal => some (heap,initAbsTraversal queue)
  | .traverseQueue => (traverseQueue heap queue).map fun (_,queue) => (heap,queue)
  | .removeAtTraverseNode => (removeAtTraverseNode heap queue).map Prod.snd

-- The list from abs_front on has abs_length nodes and ends at back, and length of
-- them lie from front on.
def Sound (heap : QueueHeap α) (queue : Queue) : Prop := ∃ consumed live, Stored heap queue.toCursors consumed live

def InQueue (heap : QueueHeap α) (queue : Queue) (nodes : List (Placed (Option α))) : Prop :=
  Segment heap.cells none nodes none ∧ queue.absFront = firstOr nodes none

-- When an operation can be called. The last node may be removed only if it is the only
-- one, and a live one only while nothing is consumed; cleanQueue may have nothing to
-- free, or no node to keep; and the traversal must not stand at a freed node.
def Meets (heap : QueueHeap α) (queue : Queue) : Op α → Prop
  | .cleanQueue => queue.front = queue.absFront ∨ queue.front = none
  | .traverseQueue => queue.traverseFront = none ∨ ∃ before node after,
      InQueue heap queue (before++node::after) ∧ queue.traverseFront = some node.1
  | .removeAtTraverseNode => queue.traverseFront = none ∨ ∃ before node after,
      InQueue heap queue (before++node::after) ∧ queue.traverseFront = some node.1 ∧
      ((before = [] ∧ after = []) ∨
        (after ≠ [] ∧ (queue.length = queue.absLength ∨ before.length < queue.absLength-queue.length)))
  | _ => True

def AllSound (allocator : Allocator) : List (Op α) → QueueHeap α → Queue → Prop
  | [],_,_ => True
  | op::ops,heap,queue => ∃ heap' queue', step allocator heap queue op = some (heap',queue') ∧
      Sound heap' queue' ∧ AllSound allocator ops heap' queue'

def AllMeet (allocator : Allocator) : List (Op α) → QueueHeap α → Queue → Prop
  | [],_,_ => True
  | op::ops,heap,queue => Meets heap queue op ∧
      ∀ heap' queue', step allocator heap queue op = some (heap',queue') → AllMeet allocator ops heap' queue'

-- Besides the list: nothing else is in use, and front of a queue without live nodes is
-- NULL or the last node.
structure Inv (heap : QueueHeap α) (queue : Queue) (consumed live : List (Placed (Option α))) : Prop where
  stored : Stored heap queue.toCursors consumed live
  owned : ∀ address, heap.cells address ≠ none → address ∈ addresses (consumed++live)
  front : live = [] → consumed ≠ [] → queue.front = none ∨ queue.front = lastOr none consumed
  freeFunction : queue.freeFunction = true

def Kept (heap : QueueHeap α) (queue : Queue) : Prop := ∃ consumed live, Inv heap queue consumed live

end Runs

section Preserved
variable {α : Type} {heap heap' : QueueHeap α} {queue : Queue} {consumed live : List (Placed (Option α))}

theorem init_kept (traverseLength : Nat) : Kept (.empty : QueueHeap α) (initQueue true traverseLength) :=
  ⟨[],[],init_stored _ true,fun _ some_ => absurd rfl some_,fun _ some_ => absurd rfl some_,rfl⟩

theorem inserted_owned (inv : Inv heap queue consumed live) (inserted : Inserted heap heap' queue.toCursors cursors consumed live newNode)
    (used : heap'.cells address ≠ none) : address = newNode ∨ address ∈ addresses (consumed++live) := by
  by_cases new : address = newNode
  · exact .inl new
  · refine .inr (Classical.byContradiction fun outside => ?_)
    rw [inserted.frame address outside new] at used
    exact outside (inv.owned address used)

theorem enqueue_kept (allocator : Allocator) (inv : Inv heap queue consumed live) (data : Option α) :
    ∃ heap' queue', enqueue allocator heap queue data = some (heap',queue') ∧ Kept heap' queue' := by
  obtain ⟨heap',cursors,newNode,ran,inserted,stored⟩ := inv.stored.append allocator data
  refine ⟨heap',{queue with toCursors:=cursors},by rw [enqueue,ran]; rfl,consumed,live++[(newNode,data)],stored,?_,?_,?_⟩
  · intro address used
    rcases inserted_owned inv inserted used with rfl | old
    · simp [addresses]
    · rw [← List.append_assoc,addresses,List.map_append]
      exact List.mem_append_left _ old
  · intro none_
    simp at none_
  · exact inserted.freeFunction.trans inv.freeFunction

theorem priorityEnqueue_kept (allocator : Allocator) (inv : Inv heap queue consumed live) (data : Option α) :
    ∃ heap' queue', priorityEnqueue allocator heap queue data = some (heap',queue') ∧ Kept heap' queue' := by
  obtain ⟨heap',cursors,newNode,ran,inserted,stored⟩ := inv.stored.insert allocator data
  refine ⟨heap',{queue with toCursors:=cursors},by rw [priorityEnqueue,ran]; rfl,consumed,(newNode,data)::live,stored,?_,?_,?_⟩
  · intro address used
    rw [addresses,(List.perm_middle.map Prod.fst).mem_iff,List.map_cons,List.mem_cons]
    exact inserted_owned inv inserted used
  · intro none_
    cases none_
  · exact inserted.freeFunction.trans inv.freeFunction

theorem dequeue_kept (inv : Inv heap queue consumed live) :
    ∃ data queue', dequeue heap queue = some (data,queue') ∧ Kept heap queue' := by
  cases live with
  | nil => exact ⟨none,queue,by rw [dequeue,inv.stored.take_none]; rfl,consumed,[],inv⟩
  | cons node live =>
    obtain ⟨cursors,ran,stored,freeFunction,last⟩ := inv.stored.take_some
    refine ⟨node.2,{queue with toCursors:=cursors},by rw [dequeue,ran]; rfl,consumed++[node],live,stored,?_,?_,?_⟩
    · intro address used
      rw [List.append_assoc]
      exact inv.owned address used
    · exact fun none_ _ => .inl (last none_)
    · exact freeFunction.trans inv.freeFunction

theorem reset_kept (inv : Inv heap queue consumed live) : Kept heap (resetQueue queue) := by
  refine ⟨consumed++live,[],inv.stored.reset,?_,fun _ some_ => .inr (inv.stored.back some_),inv.freeFunction⟩
  rw [List.append_nil]
  exact inv.owned

theorem restart_kept (inv : Inv heap queue consumed live) : Kept heap (restartQueue queue) :=
  ⟨[],consumed++live,inv.stored.restart,inv.owned,fun _ some_ => absurd rfl some_,inv.freeFunction⟩

theorem freed_unused (inv : Inv heap queue consumed live) (freed : Freed heap heap' (consumed++live)) (address : Nat) :
    heap'.cells address = none := by
  by_cases member : address ∈ addresses (consumed++live)
  · exact freed.1 address member
  · rw [freed.2 address member]
    exact Classical.byContradiction fun used => member (inv.owned address used)

theorem flush_kept (inv : Inv heap queue consumed live) :
    ∃ freed heap' queue', flushQueue heap queue = some (freed,heap',queue') ∧ Kept heap' queue' := by
  obtain ⟨heap',ran,freed⟩ := inv.stored.flush
  refine ⟨_,heap',{queue with toCursors:=.init queue.freeFunction,traverseFront:=none},by rw [flushQueue,ran]; rfl,
    [],[],init_stored heap' queue.freeFunction,?_,?_,inv.freeFunction⟩
  · exact fun address used => absurd (freed_unused inv freed address) used
  · exact fun _ some_ => absurd rfl some_

theorem cleanNodes_exact (heap : QueueHeap α) (links : Segment heap.cells before (left++right) none)
    (distinct : (addresses (left++right)).Nodup) (passes absLength : Nat) (enough : left.length < passes) :
    ∃ heap', Cursors.cleanNodes true (firstOr right none) passes heap (firstOr (left++right) none) absLength =
      some (items left,heap',firstOr right none,absLength-left.length) ∧ Freed heap heap' left := by
  induction left generalizing before heap passes absLength with
  | nil =>
    obtain ⟨passes,rfl⟩ : ∃ n, passes = n+1 := ⟨passes-1,by omega⟩
    exact ⟨heap,if_pos rfl,fun _ member => (by cases member),fun _ _ => rfl⟩
  | cons node left ih =>
    obtain ⟨passes,rfl⟩ : ∃ n, passes = n+1 := ⟨passes-1,by omega⟩
    rw [List.cons_append] at links distinct
    obtain ⟨here,rest⟩ := links
    obtain ⟨apart,distinct⟩ := List.nodup_cons.mp distinct
    have before_ : some node.1 ≠ firstOr right none := by
      intro same
      refine apart ?_
      rw [List.map_append]
      exact List.mem_append_right _ (firstOr_mem same.symm)
    obtain ⟨heap₁,freed,cells⟩ := Heap.free_cells here
    have kept : ∀ address ∈ addresses (left++right), heap₁.cells address = heap.cells address := by
      intro address member
      rw [cells,Function.update_of_ne]
      rintro rfl
      exact apart member
    obtain ⟨heap₂,cleaned,gone⟩ := ih heap₁ (rest.frame kept) distinct passes (absLength-1)
      (by simp only [List.length_cons] at enough; omega)
    refine ⟨heap₂,?_,gone.cons cells fun member => apart ?_⟩
    · rw [List.cons_append,firstOr_cons,Cursors.cleanNodes,if_neg before_,Heap.read,here]
      simp only [Option.bind_eq_bind,Option.bind_some,Bool.not_true,Bool.and_false,Bool.false_eq_true,if_false,freed,cleaned,
        List.length_cons]
      rw [Nat.sub_sub,Nat.add_comm 1]
      cases node with | mk address data => cases data <;> rfl
    · rw [List.map_append]
      exact List.mem_append_left _ member

theorem nodes_used (links : Segment heap.cells before nodes none) (distinct : (addresses nodes).Nodup) :
    nodes.length ≤ heap.used.card := by
  have within : (addresses nodes).toFinset ⊆ heap.used := by
    intro address member
    obtain ⟨node,here⟩ := links.mem_cells (List.mem_toFinset.mp member)
    rw [heap.exact_,here]
    rfl
  have count := Finset.card_le_card within
  rwa [List.toFinset_card_of_nodup distinct,addresses,List.length_map] at count

theorem clean_exact (inv : Inv heap queue consumed live) (shape : consumed++live = left++right)
    (stops : queue.front = firstOr right none) : ∃ heap', cleanQueue heap queue = some (items left,heap',
      {queue with absFront:=firstOr right none,absLength:=queue.absLength-left.length}) ∧ Freed heap heap' left := by
  have links := inv.stored.links
  have distinct := inv.stored.distinct
  rw [shape] at links distinct
  have bound := nodes_used links distinct
  rw [List.length_append] at bound
  obtain ⟨heap',cleaned,gone⟩ := cleanNodes_exact heap links distinct (heap.used.card+1) queue.absLength (by omega)
  refine ⟨heap',?_,gone⟩
  rw [cleanQueue,Cursors.clean,inv.freeFunction,stops,inv.stored.absFront,shape,cleaned]
  rfl

theorem clean_kept (inv : Inv heap queue consumed live) (allowed : queue.front = queue.absFront ∨ queue.front = none) :
    ∃ freed heap' queue', cleanQueue heap queue = some (freed,heap',queue') ∧ Kept heap' queue' := by
  rcases allowed with start | none_
  · obtain ⟨heap',ran,gone⟩ := clean_exact inv (List.nil_append _).symm (start.trans inv.stored.absFront)
    refine ⟨_,heap',_,ran,consumed,live,?_,?_,inv.front,inv.freeFunction⟩
    · have stored := inv.stored.frame fun address _ => gone.2 address List.not_mem_nil
      exact {stored with absFront:=rfl}
    · intro address used
      rw [gone.2 address List.not_mem_nil] at used
      exact inv.owned address used
  · have empty : live = [] := by
      refine Classical.byContradiction fun some_ => ?_
      obtain ⟨first,rest,rfl⟩ := List.exists_cons_of_ne_nil some_
      exact absurd ((inv.stored.front some_).symm.trans none_) (Option.some_ne_none _)
    subst empty
    obtain ⟨heap',ran,gone⟩ := clean_exact inv (List.append_nil _).symm none_
    have length : queue.length = 0 := inv.stored.length
    refine ⟨_,heap',_,ran,[],[],?_,?_,fun _ some_ => absurd rfl some_,inv.freeFunction⟩
    · refine ⟨trivial,List.nodup_nil,rfl,?_,fun some_ => absurd rfl some_,length,fun some_ => absurd rfl some_⟩
      simp [inv.stored.absLength]
    · exact fun address used => absurd (freed_unused inv gone address) used

theorem Inv.nodes (inv : Inv heap queue consumed live) (chain : InQueue heap queue list) : list = consumed++live :=
  chain.1.unique inv.stored.links (chain.2.symm.trans inv.stored.absFront)

theorem traverse_kept (inv : Inv heap queue consumed live) (allowed : Meets heap queue .traverseQueue) :
    ∃ data queue', traverseQueue heap queue = some (data,queue') ∧ Kept heap queue' := by
  rcases allowed with none_ | ⟨before,node,after,chain,here⟩
  · exact ⟨none,queue,by rw [traverseQueue,none_],consumed,live,inv⟩
  · have cell := (Segment.append_iff.mp chain.1).2.1
    refine ⟨node.2,{queue with
      traverseFront:=firstOr after none,traverseLength:=(queue.traverseLength+2^64-1)%2^64},?_,consumed,live,inv.stored,
      inv.owned,inv.front,inv.freeFunction⟩
    rw [traverseQueue,here]
    simp only [Heap.read,cell,Option.map_some]

theorem remove_exact (inv : Inv heap queue consumed live) (shape : consumed++live = before++node::after)
    (here : queue.traverseFront = some node.1) : ∃ value heap',
      removeAtTraverseNode heap queue = some (value,heap',unlinkAt queue node.1 (firstOr after none)) ∧
      Segment heap'.cells none (before++after) none ∧ heap'.cells node.1 = none ∧
      ∀ address, address ∉ addresses (consumed++live) → heap'.cells address = heap.cells address := by
  have links := inv.stored.links
  have distinct := inv.stored.distinct
  rw [shape] at links distinct
  obtain ⟨heap₁,heap₂,heap₃,cell,wrote₁,wrote₂,freed,linked,gone,frame⟩ := Segment.remove heap links distinct
  have value : ∃ value, peekTraverse heap₃ (unlinkAt queue node.1 (firstOr after none)) = some value := by
    cases after with
    | nil => exact ⟨none,rfl⟩
    | cons next after =>
      have behind := (Segment.append_iff.mp linked).2.1
      exact ⟨next.2,congrArg (Option.map Node.data) behind⟩
  obtain ⟨value,reads⟩ := value
  refine ⟨value,heap₃,?_,linked,gone,by rw [shape]; exact frame⟩
  rw [removeAtTraverseNode,here]
  simp only [Heap.read,cell,Option.bind_eq_bind,Option.bind_some,wrote₁,wrote₂,inv.freeFunction,Bool.not_true,
    Bool.false_eq_true,if_false,freed,reads]

theorem removed_owned (inv : Inv heap queue consumed live) (shape : consumed++live = before++node::after)
    (gone : heap'.cells node.1 = none)
    (frame : ∀ address, address ∉ addresses (consumed++live) → heap'.cells address = heap.cells address)
    (used : heap'.cells address ≠ none) : address ∈ addresses (before++after) := by
  by_cases member : address ∈ addresses (consumed++live)
  · rw [shape,addresses,(List.perm_middle.map Prod.fst).mem_iff,List.map_cons] at member
    refine (List.mem_cons.mp member).resolve_left ?_
    rintro rfl
    exact used gone
  · rw [frame address member] at used
    exact absurd (inv.owned address used) member

theorem first_unlinked (distinct : (addresses (before++node::after)).Nodup) (rest : Option Nat) :
    (if some node.1 = firstOr (before++node::after) rest then firstOr after none else firstOr (before++node::after) rest) =
      firstOr (before++(after : List (Placed (Option α)))) none := by
  cases before with
  | nil => exact if_pos rfl
  | cons first before =>
    refine if_neg fun same => (List.nodup_cons.mp distinct).1 ?_
    have equal : node.1 = first.1 := Option.some.inj same
    rw [← equal]
    simp

theorem last_unlinked (some_ : after ≠ []) (node : Placed (Option α)) (before : List (Placed (Option α))) :
    lastOr none (before++node::after) = lastOr none (before++after) := by
  obtain ⟨first,rest,rfl⟩ := List.exists_cons_of_ne_nil some_
  rw [lastOr_append,lastOr_append]
  rfl

theorem distinct_unlinked (distinct : (addresses (before++node::after)).Nodup) :
    (addresses (before++(after : List (Placed (Option α))))).Nodup := by
  rw [addresses,(List.perm_middle.map Prod.fst).nodup_iff] at distinct
  exact (List.nodup_cons.mp distinct).2

theorem remove_consumed (inv : Inv heap queue (before++node::rest) live) (some_ : rest++live ≠ [])
    (here : queue.traverseFront = some node.1) : ∃ value heap' queue',
      removeAtTraverseNode heap queue = some (value,heap',queue') ∧ Inv heap' queue' (before++rest) live := by
  have shape : before++node::rest++live = before++node::(rest++live) := by simp
  have shorter : before++rest++live = before++(rest++live) := by simp
  obtain ⟨value,heap',ran,linked,gone,frame⟩ := remove_exact inv shape here
  obtain ⟨links,distinct,absFront,absLength,back,length,front⟩ := inv.stored
  rw [shape] at distinct absFront absLength back
  have count : queue.absLength = (before++(rest++live)).length+1 := by
    simp only [absLength,List.length_append,List.length_cons]
    omega
  have kept : ¬queue.absLength-1 < queue.length := by
    simp only [count,length,List.length_append]
    omega
  -- Neither the first live node nor the last node of all is the one removed.
  have stays : ∀ pointer, pointer = firstOr live none ∨ pointer = lastOr none (rest++live) →
      some node.1 ≠ pointer := by
    rintro pointer either rfl
    rw [List.map_append,List.map_cons,List.nodup_append] at distinct
    have apart := (List.nodup_cons.mp distinct.2.1).1
    rcases either with first | last
    · refine apart ?_
      rw [List.map_append]
      exact List.mem_append_right _ (firstOr_mem first.symm)
    · exact apart (lastOr_mem _ none last.symm some_)
  refine ⟨value,heap',_,ran,⟨?_,?_,?_,?_,?_,?_,?_⟩,?_,?_,inv.freeFunction⟩
  · rw [shorter]
    exact linked
  · rw [shorter]
    exact distinct_unlinked distinct
  · rw [shorter]
    simp only [unlinkAt,absFront]
    exact first_unlinked distinct none
  · rw [shorter]
    simp only [unlinkAt,count]
    omega
  · rw [shorter]
    intro _
    simp only [unlinkAt]
    rw [back (by simp)]
    exact last_unlinked some_ node before
  · simp only [unlinkAt,if_neg kept]
    exact length
  · intro live_
    have begins := front live_
    simp only [unlinkAt,begins]
    exact if_neg (stays _ (.inl rfl))
  · intro address used
    rw [shorter]
    exact removed_owned inv shape gone frame used
  · intro none_ _
    subst none_
    rw [List.append_nil] at some_
    have end_ := last_unlinked some_ node before
    simp only [unlinkAt]
    rcases inv.front rfl (by simp) with null | last
    · rw [null,if_neg (by simp)]
      exact .inl rfl
    · refine .inr ?_
      rw [last,if_neg (stays _ (.inr ?_)),end_]
      rw [List.append_nil,lastOr_append]
      obtain ⟨first,others,rfl⟩ := List.exists_cons_of_ne_nil some_
      rfl

theorem remove_live (inv : Inv heap queue [] (before++node::after)) (last : after = [] → before = [])
    (here : queue.traverseFront = some node.1) : ∃ value heap' queue',
      removeAtTraverseNode heap queue = some (value,heap',queue') ∧ Inv heap' queue' [] (before++after) := by
  obtain ⟨value,heap',ran,linked,gone,frame⟩ := remove_exact inv (List.nil_append _) here
  obtain ⟨links,distinct,absFront,absLength,back,length,front⟩ := inv.stored
  rw [List.nil_append] at distinct absFront absLength back
  have begins : queue.front = firstOr (before++node::after) none := front (by simp)
  have same : queue.absLength = queue.length := absLength.trans length.symm
  have count : queue.length = (before++after).length+1 := by
    simp only [length,List.length_append,List.length_cons]
    omega
  have apart : (addresses (before++after)).Nodup := distinct_unlinked distinct
  refine ⟨value,heap',_,ran,⟨linked,apart,?_,?_,?_,?_,?_⟩,?_,fun _ some_ => absurd rfl some_,inv.freeFunction⟩
  · simp only [unlinkAt,absFront]
    exact first_unlinked distinct none
  · simp only [unlinkAt,same,count,List.nil_append]
    omega
  · intro some_
    have behind : after ≠ [] := by
      rintro rfl
      exact some_ (by rw [last rfl]; rfl)
    simp only [unlinkAt]
    rw [back (by simp)]
    exact last_unlinked behind node before
  · simp only [unlinkAt,same]
    rw [if_pos (by omega),count]
    rfl
  · intro _
    simp only [unlinkAt,begins]
    exact first_unlinked distinct none
  · have whole := List.nil_append (before++node::after)
    intro address used
    have member : address ∈ addresses (before++after) := removed_owned inv whole gone frame used
    exact member

theorem remove_only (inv : Inv heap queue [node] []) (here : queue.traverseFront = some node.1) :
    ∃ value heap' queue', removeAtTraverseNode heap queue = some (value,heap',queue') ∧ Inv heap' queue' [] [] := by
  have shape : [node]++[] = []++node::[] := rfl
  obtain ⟨value,heap',ran,linked,gone,frame⟩ := remove_exact inv shape here
  obtain ⟨links,distinct,absFront,absLength,back,length,front⟩ := inv.stored
  refine ⟨value,heap',_,ran,⟨linked,List.nodup_nil,?_,?_,fun some_ => absurd rfl some_,?_,fun some_ => absurd rfl some_⟩,
    ?_,fun _ some_ => absurd rfl some_,inv.freeFunction⟩
  · simp only [unlinkAt,absFront]
    exact if_pos rfl
  · simp only [unlinkAt,absLength]
    rfl
  · simp only [unlinkAt,absLength,length]
    rfl
  · exact fun address used => removed_owned inv shape gone frame used

theorem remove_kept (inv : Inv heap queue consumed live) (allowed : Meets heap queue .removeAtTraverseNode) :
    ∃ value heap' queue', removeAtTraverseNode heap queue = some (value,heap',queue') ∧ Kept heap' queue' := by
  rcases allowed with none_ | ⟨before,node,after,chain,here,condition⟩
  · exact ⟨none,heap,queue,by rw [removeAtTraverseNode,none_],consumed,live,inv⟩
  have shape := inv.nodes chain
  have total := inv.stored.absLength
  have length := inv.stored.length
  rw [List.length_append] at total
  cases consumed with
  | nil =>
    rw [List.nil_append] at shape
    subst shape
    have last : after = [] → before = [] := by
      intro none_
      exact (condition.resolve_right fun both => both.1 none_).1
    obtain ⟨value,heap',queue',ran,kept⟩ := remove_live inv last here
    exact ⟨value,heap',queue',ran,_,_,kept⟩
  | cons first consumed =>
    rcases condition with ⟨rfl,rfl⟩ | ⟨some_,early⟩
    · obtain ⟨rfl,none_⟩ := List.cons.inj shape
      obtain ⟨rfl,rfl⟩ := List.append_eq_nil_iff.mp none_.symm
      obtain ⟨value,heap',queue',ran,kept⟩ := remove_only inv here
      exact ⟨value,heap',queue',ran,_,_,kept⟩
    · have within : before.length < (first::consumed).length := by
        simp only [List.length_cons] at total ⊢
        omega
      obtain ⟨rest,split_,behind⟩ : ∃ rest, first::consumed = before++node::rest ∧ after = rest++live := by
        rcases List.append_eq_append_iff.mp shape with ⟨more,front,back⟩ | ⟨more,front,_⟩
        · cases more with
          | nil =>
            rw [List.append_nil] at front
            rw [front] at within
            omega
          | cons other more =>
            obtain ⟨rfl,rest⟩ := List.cons.inj back
            exact ⟨more,front,rest⟩
        · rw [front,List.length_append] at within
          omega
      rw [split_] at inv
      subst behind
      obtain ⟨value,heap',queue',ran,kept⟩ := remove_consumed inv some_ here
      exact ⟨value,heap',queue',ran,_,_,kept⟩

theorem step_kept (allocator : Allocator) (kept : Kept heap queue) (op : Op α) (allowed : Meets heap queue op) :
    ∃ heap' queue', step allocator heap queue op = some (heap',queue') ∧ Kept heap' queue' := by
  obtain ⟨consumed,live,inv⟩ := kept
  cases op with
  | enqueue data => exact enqueue_kept allocator inv data
  | priorityEnqueue data => exact priorityEnqueue_kept allocator inv data
  | dequeue =>
    obtain ⟨data,queue',ran,kept⟩ := dequeue_kept inv
    exact ⟨heap,queue',by rw [step,ran]; rfl,kept⟩
  | resetQueue => exact ⟨heap,_,rfl,reset_kept inv⟩
  | restartQueue => exact ⟨heap,_,rfl,restart_kept inv⟩
  | flushQueue =>
    obtain ⟨freed,heap',queue',ran,kept⟩ := flush_kept inv
    exact ⟨heap',queue',by rw [step,ran]; rfl,kept⟩
  | cleanQueue =>
    obtain ⟨freed,heap',queue',ran,kept⟩ := clean_kept inv allowed
    exact ⟨heap',queue',by rw [step,ran]; rfl,kept⟩
  | initTraversal => exact ⟨heap,_,rfl,consumed,live,inv.stored,inv.owned,inv.front,inv.freeFunction⟩
  | initAbsTraversal => exact ⟨heap,_,rfl,consumed,live,inv.stored,inv.owned,inv.front,inv.freeFunction⟩
  | traverseQueue =>
    obtain ⟨data,queue',ran,kept⟩ := traverse_kept inv allowed
    exact ⟨heap,queue',by rw [step,ran]; rfl,kept⟩
  | removeAtTraverseNode =>
    obtain ⟨value,heap',queue',ran,kept⟩ := remove_kept inv allowed
    exact ⟨heap',queue',by rw [step,ran]; rfl,kept⟩

end Preserved

section Violated
variable {α : Type} {heap heap' : QueueHeap α} {queue : Queue} {consumed live : List (Placed (Option α))}

theorem owned_split (inv : Inv heap queue consumed live) (used : heap.cells address ≠ none) :
    ∃ before node after, consumed++live = before++node::after ∧ node.1 = address := by
  obtain ⟨node,member,here⟩ := List.mem_map.mp (inv.owned address used)
  obtain ⟨before,after,shape⟩ := List.append_of_mem member
  exact ⟨before,node,after,shape,here⟩

theorem Inv.chain (inv : Inv heap queue consumed live) (shape : consumed++live = list) : InQueue heap queue list := by
  rw [← shape]
  exact ⟨inv.stored.links,inv.stored.absFront⟩

theorem traverse_meets (inv : Inv heap queue consumed live) (ran : traverseQueue heap queue = some after) :
    Meets heap queue .traverseQueue := by
  unfold traverseQueue at ran
  split at ran
  · exact .inl ‹_›
  · obtain ⟨node,here,_⟩ := Option.map_eq_some_iff.mp ran
    have used : heap.cells _ ≠ none := fun none_ => by rw [Heap.read,none_] at here; cases here
    obtain ⟨before,node,after,shape,same⟩ := owned_split inv used
    refine .inr ⟨before,node,after,inv.chain shape,?_⟩
    rw [same]
    assumption

-- front is not NULL and not abs_front, so it lies behind a node that is freed, and
-- the first node's prev still leads there.
theorem clean_meets (inv : Inv heap queue consumed live) (ran : cleanQueue heap queue = some (freed,heap',queue'))
    (sound : Sound heap' queue') : queue.front = queue.absFront ∨ queue.front = none := by
  refine Classical.byContradiction fun neither => ?_
  obtain ⟨inner_,some_⟩ := not_or.mp neither
  have behind : ∃ left right, consumed++live = left++right ∧ (consumed++live ≠ [] → right ≠ []) ∧
      (consumed++live ≠ [] → queue.front = firstOr right none) := by
    by_cases none_ : live = []
    · subst none_
      rcases List.eq_nil_or_concat consumed with rfl | ⟨left,last,rfl⟩
      · exact ⟨[],[],rfl,fun some_ => absurd rfl some_,fun some_ => absurd rfl some_⟩
      · rw [List.concat_eq_append] at *
        refine ⟨left,[last],by simp,fun _ => List.cons_ne_nil _ _,fun _ => ?_⟩
        rw [(inv.front rfl (by simp)).resolve_left some_]
        exact lastOr_append ..
    · exact ⟨consumed,live,rfl,fun _ => none_,fun _ => inv.stored.front none_⟩
  obtain ⟨left,right,shape,rightSome,stops⟩ := behind
  by_cases empty : consumed++live = []
  · have start := inv.stored.absFront
    rw [empty,firstOr_nil] at start
    rw [cleanQueue,Cursors.clean,Cursors.cleanNodes,start,if_neg (fun same => some_ same.symm)] at ran
    cases ran
  · obtain ⟨first,rest,rfl⟩ := List.exists_cons_of_ne_nil (rightSome empty)
    obtain ⟨heap'',cleaned,gone⟩ := clean_exact inv shape (stops empty)
    rw [cleaned] at ran
    obtain ⟨rfl,rfl,rfl⟩ : _ ∧ heap'' = heap' ∧ _ = queue' := by simpa using ran
    have consumed_ : left ≠ [] := by
      rintro rfl
      refine inner_ ((stops empty).trans ?_)
      rw [inv.stored.absFront,shape]
      rfl
    have links := inv.stored.links
    have distinct := inv.stored.distinct
    rw [shape] at links distinct
    have cell := (Segment.append_iff.mp links).2.1
    have apart : first.1 ∉ addresses left := by
      rw [List.map_append,List.nodup_append] at distinct
      exact fun member => distinct.2.2 _ member _ (List.mem_cons_self ..) rfl
    rw [← gone.2 _ apart] at cell
    obtain ⟨consumed',live',stored⟩ := sound
    have begins := stored.absFront
    cases list : consumed'++live' with
    | nil =>
      rw [list] at begins
      cases begins
    | cons other others =>
      rw [list] at begins
      have same : first.1 = other.1 := Option.some.inj begins
      have links' := stored.links
      rw [list] at links'
      have cell' := links'.1
      rw [← same,cell] at cell'
      exact lastOr_some consumed_ none (Node.mk.inj (Option.some.inj cell')).1

-- Of the two nodes that length could be counted from, the last consumed one has the
-- first live one behind it.
theorem remove_meets (inv : Inv heap queue consumed live) (ran : removeAtTraverseNode heap queue = some (value,heap',queue'))
    (sound : Sound heap' queue') : Meets heap queue .removeAtTraverseNode := by
  cases here : queue.traverseFront with
  | none => exact .inl here
  | some tf =>
    have used : heap.cells tf ≠ none := by
      intro none_
      rw [removeAtTraverseNode,here] at ran
      simp only [Heap.read,none_,Option.bind_eq_bind,Option.bind_none] at ran
      cases ran
    obtain ⟨before,node,after,shape,rfl⟩ := owned_split inv used
    refine .inr ⟨before,node,after,inv.chain shape,here,Classical.byContradiction fun neither => ?_⟩
    obtain ⟨notOnly,late⟩ := not_or.mp neither
    obtain ⟨value',heap'',ran',linked,gone,frame⟩ := remove_exact inv shape here
    rw [ran'] at ran
    obtain ⟨rfl,rfl,rfl⟩ : value' = value ∧ heap'' = heap' ∧ unlinkAt queue node.1 (firstOr after none) = queue' := by
      simpa using ran
    have distinct := inv.stored.distinct
    have total := inv.stored.absLength
    have length := inv.stored.length
    have absFront := inv.stored.absFront
    rw [shape] at distinct total absFront
    have shorter := distinct_unlinked distinct
    obtain ⟨consumed',live',stored⟩ := sound
    have start : firstOr (consumed'++live') none = firstOr (before++after) none := by
      rw [← stored.absFront]
      simp only [unlinkAt,absFront]
      exact first_unlinked distinct none
    have same := stored.links.unique linked start
    by_cases none_ : after = []
    · subst none_
      have some_ : before ≠ [] := fun empty => notOnly ⟨empty,rfl⟩
      rw [List.append_nil] at same
      have back' := stored.back (by rw [same]; exact some_)
      have back := inv.stored.back (by rw [shape]; simp)
      rw [shape,lastOr_append] at back
      rw [same] at back'
      have member : node.1 ∈ addresses before := lastOr_mem before none (back'.symm.trans back) some_
      exact stored.cell (by rw [same]; exact member) gone
    · have late : queue.length ≠ queue.absLength ∧ queue.absLength-queue.length ≤ before.length := by
        refine ⟨fun whole => late ⟨none_,.inl whole⟩,Nat.le_of_not_lt fun early => late ⟨none_,.inr early⟩⟩
      have count := congrArg List.length shape
      simp only [List.length_append,List.length_cons] at count total
      obtain ⟨more,split_,rest⟩ : ∃ more, before = consumed++more ∧ live = more++node::after := by
        rcases List.append_eq_append_iff.mp shape with ⟨more,front,back⟩ | ⟨more,front,back⟩
        · exact ⟨more,front,back⟩
        · cases more with
          | nil => exact ⟨[],by simpa using front.symm,back.symm⟩
          | cons other more =>
            have size := congrArg List.length front
            simp only [List.length_append,List.length_cons] at size
            omega
      have some_ : consumed ≠ [] := by
        rintro rfl
        simp only [List.length_nil] at count
        omega
      obtain ⟨ahead,last,rfl⟩ := (List.eq_nil_or_concat consumed).resolve_left some_
      rw [List.concat_eq_append] at *
      subst split_ rest
      have size := congrArg List.length same
      have lengths := stored.length
      simp only [List.length_append,List.length_cons,List.length_nil] at size total length lengths
      simp only [unlinkAt] at lengths
      rw [if_neg (by omega)] at lengths
      have shape' : consumed'++live' = ahead++last::(more++after) := by simpa using same
      obtain ⟨_,first⟩ := List.append_inj shape' (by omega)
      have front' := stored.front (by rw [first]; exact List.cons_ne_nil _ _)
      have front := inv.stored.front (by simp)
      have unlinked : some last.1 = firstOr (more++after) none := by
        rw [first,firstOr_cons] at front'
        rw [← front']
        simp only [unlinkAt,front]
        refine first_unlinked ?_ none
        have spread := inv.stored.distinct
        rw [List.map_append,List.nodup_append] at spread
        exact spread.2.1
      have apart : last.1 ∉ addresses (more++after) := by
        have whole : ahead++[last]++more++after = ahead++last::(more++after) := by simp
        rw [whole,addresses,List.map_append,List.map_cons,List.nodup_append] at shorter
        exact (List.nodup_cons.mp shorter.2.1).1
      exact apart (firstOr_mem unlinked.symm)

end Violated

theorem step_meets {α : Type} {heap heap' : QueueHeap α} {queue queue' : Queue} (allocator : Allocator) (kept : Kept heap queue)
    (op : Op α) (ran : step allocator heap queue op = some (heap',queue')) (sound : Sound heap' queue') :
    Meets heap queue op := by
  obtain ⟨consumed,live,inv⟩ := kept
  cases op with
  | cleanQueue =>
    obtain ⟨⟨freed,heap'',queue''⟩,cleaned,same⟩ := Option.map_eq_some_iff.mp ran
    cases same
    exact clean_meets inv cleaned sound
  | traverseQueue =>
    obtain ⟨after,traversed,_⟩ := Option.map_eq_some_iff.mp ran
    exact traverse_meets inv traversed
  | removeAtTraverseNode =>
    obtain ⟨⟨value,heap'',queue''⟩,removed,same⟩ := Option.map_eq_some_iff.mp ran
    cases same
    exact remove_meets inv removed sound
  | _ => trivial

theorem kept_sound {α : Type} {heap : QueueHeap α} {queue : Queue} : Kept heap queue → Sound heap queue
  | ⟨consumed,live,inv⟩ => ⟨consumed,live,inv.stored⟩

theorem runs_from {α : Type} (allocator : Allocator) (ops : List (Op α)) {heap : QueueHeap α} {queue : Queue}
    (kept : Kept heap queue) : AllSound allocator ops heap queue ↔ AllMeet allocator ops heap queue := by
  induction ops generalizing heap queue with
  | nil => exact Iff.rfl
  | cons op ops ih =>
    constructor
    · rintro ⟨heap',queue',ran,sound,rest⟩
      have meets := step_meets allocator kept op ran sound
      obtain ⟨heap'',queue'',ran',kept'⟩ := step_kept allocator kept op meets
      refine ⟨meets,fun heap₁ queue₁ ran₁ => ?_⟩
      rw [ran] at ran' ran₁
      cases ran'
      cases ran₁
      exact (ih kept').mp rest
    · rintro ⟨meets,rest⟩
      obtain ⟨heap',queue',ran,kept'⟩ := step_kept allocator kept op meets
      exact ⟨heap',queue',ran,kept_sound kept',(ih kept').mpr (rest heap' queue' ran)⟩

-- A run keeps the queue sound as long as, and only as long as, each operation can be
-- called where it stands.
theorem queue_runs {α : Type} (allocator : Allocator) (traverseLength : Nat) (ops : List (Op α)) :
    AllSound allocator ops .empty (initQueue true traverseLength) ↔
      AllMeet allocator ops .empty (initQueue true traverseLength) :=
  runs_from allocator ops (init_kept traverseLength)

-- An allocator that goes on behind the highest address in use.
def highest : Allocator where
  address := fun _ used => used.sup id+1
  unused := by
    intro _ used member
    have bound : id (used.sup id+1) ≤ used.sup id := Finset.le_sup member
    exact Nat.not_succ_le_self _ bound

def run {α : Type} (allocator : Allocator) : List (Op α) → QueueHeap α → Queue → Option (QueueHeap α × Queue)
  | [],heap,queue => some (heap,queue)
  | op::ops,heap,queue => do
    let (heap,queue) ← step allocator heap queue op
    run allocator ops heap queue

theorem allSound_run {α : Type} {allocator : Allocator} {ops : List (Op α)} {heap : QueueHeap α} {queue : Queue}
    (all_ : AllSound allocator ops heap queue) (sound : Sound heap queue) :
    ∃ heap' queue', run allocator ops heap queue = some (heap',queue') ∧ Sound heap' queue' := by
  induction ops generalizing heap queue with
  | nil => exact ⟨heap,queue,rfl,sound⟩
  | cons op ops ih =>
    obtain ⟨heap₁,queue₁,ran,sound₁,rest⟩ := all_
    obtain ⟨heap₂,queue₂,later,sound₂⟩ := ih rest sound₁
    exact ⟨heap₂,queue₂,by simp only [run,ran,Option.bind_eq_bind,Option.bind_some,later],sound₂⟩

-- The second of two nodes is removed, and back still points to it.
theorem remove_last : ¬ ∀ (allocator : Allocator) (traverseLength : Nat) (ops : List (Op Nat)),
    AllSound allocator ops .empty (initQueue true traverseLength) := by
  intro always
  obtain ⟨heap,queue,ran,consumed,live,stored⟩ := allSound_run (always highest 0
    [.enqueue (some 5),.enqueue (some 6),.initTraversal,.traverseQueue,.removeAtTraverseNode])
    (kept_sound (init_kept 0))
  have left : (run highest [.enqueue (some 5),.enqueue (some 6),.initTraversal,.traverseQueue,.removeAtTraverseNode] .empty
      (initQueue true 0)).map (fun ran => (ran.2.absFront,ran.2.back,ran.2.absLength)) = some (some 1,some 2,1) := by
    decide +kernel
  rw [ran] at left
  obtain ⟨absFront,rest⟩ := Prod.mk.inj (Option.some.inj left)
  obtain ⟨back,absLength⟩ := Prod.mk.inj rest
  obtain ⟨node,only⟩ := List.length_eq_one_iff.mp (stored.absLength.symm.trans absLength)
  have first := stored.absFront
  have last := stored.back (by rw [only]; exact List.cons_ne_nil _ _)
  rw [only] at first last
  rw [absFront] at first
  rw [back] at last
  cases first.trans last.symm

end EzqNodes
end GetMatVar
