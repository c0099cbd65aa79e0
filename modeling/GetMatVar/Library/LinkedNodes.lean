import Mathlib.Data.Finset.Basic
import Mathlib.Data.List.Nodup

-- Doubly linked nodes in a heap. A pointer is an address or NULL, which is none.
namespace LinkedNodes

structure Node (α : Type) where
  prev : Option Nat
  next : Option Nat
  data : α

-- The addresses in use are the ones that malloc has given out and that have not
-- been freed. count is the number of calls of malloc so far.
structure Heap (ν : Type) where
  cells : Nat → Option ν
  used : Finset Nat
  count : Nat
  exact_ : ∀ address, address ∈ used ↔ (cells address).isSome

-- What malloc returns may depend on the whole run so far; all that is known of it
-- is that the address is not in use. A freed address can come back.
structure Allocator where
  address : Nat → Finset Nat → Nat
  unused : ∀ count used, address count used ∉ used

namespace Heap
variable {ν : Type} {heap : Heap ν} {address : Nat} {cell : ν}

def empty : Heap ν := ⟨fun _ => none,∅,0,by simp⟩

def read (heap : Heap ν) : Option Nat → Option ν
  | none => none
  | some address => heap.cells address

def put (heap : Heap ν) (address : Nat) (cell : ν) : Heap ν where
  cells := Function.update heap.cells address (some cell)
  used := insert address heap.used
  count := heap.count
  exact_ := by
    intro other
    by_cases same : other = address
    · subst other
      simp
    · simp [same,heap.exact_ other]

def malloc (allocator : Allocator) (heap : Heap ν) (cell : ν) : Nat × Heap ν :=
  let address := allocator.address heap.count heap.used
  (address,{heap.put address cell with count:=heap.count+1})

-- A field of a node is set. There is none behind NULL or a freed address.
def write (heap : Heap ν) (pointer : Option Nat) (change : ν → ν) : Option (Heap ν) :=
  match pointer with
  | none => none
  | some address => (heap.cells address).map fun cell => heap.put address (change cell)

def writeIf (heap : Heap ν) (pointer : Option Nat) (change : ν → ν) : Option (Heap ν) :=
  match pointer with
  | none => some heap
  | some address => heap.write (some address) change

def drop (heap : Heap ν) (address : Nat) : Heap ν where
  cells := Function.update heap.cells address none
  used := heap.used.erase address
  count := heap.count
  exact_ := by
    intro other
    by_cases same : other = address
    · subst other
      simp
    · simp [same,heap.exact_ other]

def free (heap : Heap ν) (pointer : Option Nat) : Option (Heap ν) :=
  match pointer with
  | none => none
  | some address => (heap.cells address).map fun _ => heap.drop address

theorem malloc_unused (allocator : Allocator) (heap : Heap ν) (cell : ν) :
    heap.cells (heap.malloc allocator cell).1 = none := by
  have unused := allocator.unused heap.count heap.used
  rw [heap.exact_] at unused
  exact Option.not_isSome_iff_eq_none.mp unused

theorem malloc_cells (allocator : Allocator) (heap : Heap ν) (cell : ν) : (heap.malloc allocator cell).2.cells =
    Function.update heap.cells (heap.malloc allocator cell).1 (some cell) := rfl

theorem malloc_parts (allocator : Allocator) (heap : Heap ν) (cell : ν) :
    ∃ address after, heap.malloc allocator cell = (address,after) ∧ heap.cells address = none ∧
      after.cells address = some cell ∧ ∀ other, other ≠ address → after.cells other = heap.cells other := by
  refine ⟨(heap.malloc allocator cell).1,(heap.malloc allocator cell).2,rfl,malloc_unused allocator heap cell,?_,?_⟩
  · rw [malloc_cells,Function.update_self]
  · intro other different
    rw [malloc_cells,Function.update_of_ne different]

theorem write_cells (here : heap.cells address = some cell) (change : ν → ν) :
    ∃ after, heap.write (some address) change = some after ∧
      after.cells = Function.update heap.cells address (some (change cell)) :=
  ⟨heap.put address (change cell),by simp [write,here],rfl⟩

theorem writeIf_some (some_ : pointer ≠ none) (change : ν → ν) : heap.writeIf pointer change = heap.write pointer change := by
  cases pointer with
  | none => exact absurd rfl some_
  | some address => rfl

theorem free_cells (here : heap.cells address = some cell) : ∃ after, heap.free (some address) = some after ∧
    after.cells = Function.update heap.cells address none :=
  ⟨heap.drop address,by simp [free,here],rfl⟩

end Heap

abbrev Placed (α : Type) := Nat × α

section Ends
variable {α : Type}

def firstOr (nodes : List (Placed α)) (after : Option Nat) : Option Nat :=
  match nodes with
  | [] => after
  | node::_ => some node.1

def lastOr (before : Option Nat) : List (Placed α) → Option Nat
  | [] => before
  | node::nodes => lastOr (some node.1) nodes

@[simp] theorem firstOr_nil (after : Option Nat) : firstOr ([] : List (Placed α)) after = after := rfl

@[simp] theorem firstOr_cons (node : Placed α) (nodes : List (Placed α)) (after : Option Nat) :
    firstOr (node::nodes) after = some node.1 := rfl

@[simp] theorem lastOr_nil (before : Option Nat) : lastOr before ([] : List (Placed α)) = before := rfl

@[simp] theorem lastOr_cons (before : Option Nat) (node : Placed α) (nodes : List (Placed α)) :
    lastOr before (node::nodes) = lastOr (some node.1) nodes := rfl

theorem firstOr_append (left right : List (Placed α)) (after : Option Nat) :
    firstOr (left++right) after = firstOr left (firstOr right after) := by
  cases left <;> rfl

theorem lastOr_append (before : Option Nat) (left right : List (Placed α)) :
    lastOr before (left++right) = lastOr (lastOr before left) right := by
  induction left generalizing before with
  | nil => rfl
  | cons node left ih => exact ih (some node.1)

theorem firstOr_any (some_ : nodes ≠ []) (after other : Option Nat) :
    firstOr nodes after = firstOr (nodes : List (Placed α)) other := by
  cases nodes with
  | nil => exact absurd rfl some_
  | cons node nodes => rfl

theorem firstOr_mem (first : firstOr nodes none = some address) : address ∈ nodes.map (Prod.fst : Placed α → Nat) := by
  cases nodes with
  | nil => cases first
  | cons node nodes =>
    cases first
    exact List.mem_cons_self ..

theorem lastOr_some (some_ : nodes ≠ []) (before : Option Nat) : lastOr before (nodes : List (Placed α)) ≠ none := by
  induction nodes generalizing before with
  | nil => exact absurd rfl some_
  | cons node nodes ih =>
    cases nodes with
    | nil => exact Option.some_ne_none _
    | cons second nodes => exact ih (List.cons_ne_nil _ _) (some node.1)

theorem lastOr_mem (nodes : List (Placed α)) (before : Option Nat) (last : lastOr before nodes = some address)
    (some_ : nodes ≠ []) : address ∈ nodes.map Prod.fst := by
  induction nodes generalizing before with
  | nil => exact absurd rfl some_
  | cons node nodes ih =>
    cases nodes with
    | nil =>
      cases last
      exact List.mem_cons_self ..
    | cons second nodes => exact List.mem_cons_of_mem _ (ih (some node.1) last (List.cons_ne_nil _ _))

end Ends

-- The nodes lie one behind the other, from the pointer before on up to the pointer
-- after, each with a link to both of its neighbours.
def Segment {α : Type} (cells : Nat → Option (Node α)) : Option Nat → List (Placed α) → Option Nat → Prop
  | _,[],_ => True
  | before,node::nodes,after =>
    cells node.1 = some ⟨before,firstOr nodes after,node.2⟩ ∧ Segment cells (some node.1) nodes after

namespace Segment
variable {α : Type} {cells : Nat → Option (Node α)} {nodes left right : List (Placed α)}

theorem append_iff : Segment cells before (left++right) after ↔
    Segment cells before left (firstOr right after) ∧ Segment cells (lastOr before left) right after := by
  induction left generalizing before with
  | nil => simp [Segment]
  | cons node left ih =>
    simp only [List.cons_append,Segment,ih,firstOr_append,lastOr_cons,and_assoc]

theorem frame (segment : Segment cells before nodes after)
    (same : ∀ address ∈ nodes.map Prod.fst, cells' address = cells address) : Segment cells' before nodes after := by
  induction nodes generalizing before with
  | nil => trivial
  | cons node nodes ih =>
    obtain ⟨here,rest⟩ := segment
    refine ⟨?_,ih rest fun address member => same address (List.mem_cons_of_mem _ member)⟩
    rw [same node.1 (List.mem_cons_self ..)]
    exact here

theorem mem_cells (segment : Segment cells before nodes after) (member : address ∈ nodes.map Prod.fst) :
    ∃ node, cells address = some node := by
  induction nodes generalizing before with
  | nil => cases member
  | cons node nodes ih =>
    obtain ⟨here,rest⟩ := segment
    rcases List.mem_cons.mp member with rfl | behind
    · exact ⟨_,here⟩
    · exact ih rest behind

theorem unique (one : Segment cells before left none) (two : Segment cells before' right none)
    (same : firstOr left none = firstOr right none) : left = right := by
  induction left generalizing before before' right with
  | nil =>
    cases right with
    | nil => rfl
    | cons node right => cases same
  | cons node left ih =>
    cases right with
    | nil => cases same
    | cons other right =>
      obtain ⟨address,data⟩ := node
      obtain ⟨address',data'⟩ := other
      cases same
      obtain ⟨here,rest⟩ := one
      obtain ⟨here',rest'⟩ := two
      rw [here] at here'
      obtain ⟨_,next,rfl⟩ := Node.mk.inj (Option.some.inj here')
      rw [ih rest rest' next]

theorem relink_end (heap : Heap (Node α)) (segment : Segment heap.cells none nodes after)
    (distinct : (nodes.map Prod.fst).Nodup) (target : Option Nat) :
    ∃ heap', heap.writeIf (lastOr none nodes) (fun node => {node with next:=target}) = some heap' ∧
      Segment heap'.cells none nodes target ∧
      ∀ address, address ∉ nodes.map Prod.fst → heap'.cells address = heap.cells address := by
  rcases List.eq_nil_or_concat nodes with rfl | ⟨front,last,rfl⟩
  · exact ⟨heap,rfl,trivial,fun _ _ => rfl⟩
  · rw [List.concat_eq_append] at segment distinct ⊢
    obtain ⟨ahead,here,_⟩ := append_iff.mp segment
    obtain ⟨heap',wrote,cells⟩ := Heap.write_cells here fun node => {node with next:=target}
    have end_ : lastOr none (front++[last]) = some last.1 := lastOr_append ..
    have apart : last.1 ∉ front.map Prod.fst := by
      rw [List.map_append,List.nodup_append] at distinct
      exact fun member => distinct.2.2 _ member _ (List.mem_cons_self ..) rfl
    refine ⟨heap',?_,append_iff.mpr ⟨?_,?_,trivial⟩,?_⟩
    · rw [end_]
      exact wrote
    · refine ahead.frame fun address member => ?_
      rw [cells,Function.update_of_ne]
      rintro rfl
      exact apart member
    · rw [cells,Function.update_self]
      rfl
    · intro address outside
      rw [cells,Function.update_of_ne]
      rintro rfl
      exact outside (by simp)

theorem relink_start (heap : Heap (Node α)) (segment : Segment heap.cells before nodes none)
    (distinct : (nodes.map Prod.fst).Nodup) (target : Option Nat) :
    ∃ heap', heap.writeIf (firstOr nodes none) (fun node => {node with prev:=target}) = some heap' ∧
      Segment heap'.cells target nodes none ∧
      ∀ address, address ∉ nodes.map Prod.fst → heap'.cells address = heap.cells address := by
  cases nodes with
  | nil => exact ⟨heap,rfl,trivial,fun _ _ => rfl⟩
  | cons node nodes =>
    obtain ⟨here,rest⟩ := segment
    obtain ⟨heap',wrote,cells⟩ := Heap.write_cells here fun node => {node with prev:=target}
    have apart := (List.nodup_cons.mp distinct).1
    refine ⟨heap',wrote,⟨?_,?_⟩,?_⟩
    · rw [cells,Function.update_self]
    · refine rest.frame fun address member => ?_
      rw [cells,Function.update_of_ne]
      rintro rfl
      exact apart member
    · intro address outside
      rw [cells,Function.update_of_ne]
      rintro rfl
      exact outside (List.mem_cons_self ..)

theorem insert (heap : Heap (Node α)) (segment : Segment heap.cells none (left++right) none)
    (distinct : ((left++right).map Prod.fst).Nodup) (outside : newNode ∉ (left++right).map Prod.fst)
    (made : heap.cells newNode = some ⟨prev,next,data⟩) : ∃ heap₁ heap₂ heap₃,
      heap.write (some newNode) (fun node => {node with prev:=lastOr none left,next:=firstOr right none}) = some heap₁ ∧
      heap₁.writeIf (lastOr none left) (fun node => {node with next:=some newNode}) = some heap₂ ∧
      heap₂.writeIf (firstOr right none) (fun node => {node with prev:=some newNode}) = some heap₃ ∧
      Segment heap₃.cells none (left++(newNode,data)::right) none ∧
      ∀ address, address ∉ (left++right).map Prod.fst → address ≠ newNode → heap₃.cells address = heap.cells address := by
  obtain ⟨ahead,behind⟩ := append_iff.mp segment
  rw [List.map_append] at distinct outside
  obtain ⟨apartLeft,apartRight,disjoint⟩ := List.nodup_append.mp distinct
  obtain ⟨outLeft,outRight⟩ := not_or.mp (List.mem_append.not.mp outside)
  obtain ⟨heap₁,wrote₁,cells₁⟩ := Heap.write_cells made
    fun node => {node with prev:=lastOr none left,next:=firstOr right none}
  have kept₁ : ∀ address, address ≠ newNode → heap₁.cells address = heap.cells address := by
    intro address other
    rw [cells₁,Function.update_of_ne other]
  have ahead₁ := ahead.frame fun address member => kept₁ address (by rintro rfl; exact outLeft member)
  have behind₁ := behind.frame fun address member => kept₁ address (by rintro rfl; exact outRight member)
  obtain ⟨heap₂,wrote₂,ahead₂,kept₂⟩ := relink_end heap₁ ahead₁ apartLeft (some newNode)
  have behind₂ := behind₁.frame fun address member =>
    kept₂ address fun both => disjoint _ both _ member rfl
  obtain ⟨heap₃,wrote₃,behind₃,kept₃⟩ := relink_start heap₂ behind₂ apartRight (some newNode)
  refine ⟨heap₁,heap₂,heap₃,wrote₁,wrote₂,wrote₃,append_iff.mpr ⟨?_,?_,behind₃⟩,?_⟩
  · exact ahead₂.frame fun address member => kept₃ address fun both => disjoint _ member _ both rfl
  · rw [kept₃ newNode outRight,kept₂ newNode outLeft,cells₁,Function.update_self]
  · intro address apart other
    rw [List.map_append] at apart
    obtain ⟨notLeft,notRight⟩ := not_or.mp (List.mem_append.not.mp apart)
    rw [kept₃ address notRight,kept₂ address notLeft,kept₁ address other]

theorem remove (heap : Heap (Node α)) (segment : Segment heap.cells none (left++node::right) none)
    (distinct : ((left++node::right).map Prod.fst).Nodup) : ∃ heap₁ heap₂ heap₃,
      heap.cells node.1 = some ⟨lastOr none left,firstOr right none,node.2⟩ ∧
      heap.writeIf (lastOr none left) (fun other => {other with next:=firstOr right none}) = some heap₁ ∧
      heap₁.writeIf (firstOr right none) (fun other => {other with prev:=lastOr none left}) = some heap₂ ∧
      heap₂.free (some node.1) = some heap₃ ∧ Segment heap₃.cells none (left++right) none ∧
      heap₃.cells node.1 = none ∧
      ∀ address, address ∉ (left++node::right).map Prod.fst → heap₃.cells address = heap.cells address := by
  obtain ⟨ahead,here,behind⟩ := append_iff.mp segment
  rw [List.map_append,List.map_cons] at distinct
  obtain ⟨apartLeft,apart,disjoint⟩ := List.nodup_append.mp distinct
  obtain ⟨notRight,apartRight⟩ := List.nodup_cons.mp apart
  have notLeft : node.1 ∉ left.map Prod.fst := fun member => disjoint _ member _ (List.mem_cons_self ..) rfl
  obtain ⟨heap₁,wrote₁,ahead₁,kept₁⟩ := relink_end heap ahead apartLeft (firstOr right none)
  have behind₁ := behind.frame fun address member =>
    kept₁ address fun both => disjoint _ both _ (List.mem_cons_of_mem _ member) rfl
  obtain ⟨heap₂,wrote₂,behind₂,kept₂⟩ := relink_start heap₁ behind₁ apartRight (lastOr none left)
  have still : heap₂.cells node.1 = some ⟨lastOr none left,firstOr right none,node.2⟩ := by
    rw [kept₂ _ notRight,kept₁ _ notLeft]
    exact here
  obtain ⟨heap₃,freed,cells₃⟩ := Heap.free_cells still
  have kept₃ : ∀ address, address ≠ node.1 → heap₃.cells address = heap₂.cells address := by
    intro address other
    rw [cells₃,Function.update_of_ne other]
  refine ⟨heap₁,heap₂,heap₃,here,wrote₁,wrote₂,freed,append_iff.mpr ⟨?_,?_⟩,?_,?_⟩
  · refine (ahead₁.frame fun address member => kept₂ address fun both => ?_).frame fun address member =>
      kept₃ address (by rintro rfl; exact notLeft member)
    exact disjoint _ member _ (List.mem_cons_of_mem _ both) rfl
  · exact behind₂.frame fun address member => kept₃ address (by rintro rfl; exact notRight member)
  · rw [cells₃,Function.update_self]
  · intro address out
    rw [List.map_append,List.map_cons] at out
    obtain ⟨outLeft,rest⟩ := not_or.mp (List.mem_append.not.mp out)
    obtain ⟨other,outRight⟩ := not_or.mp (List.mem_cons.not.mp rest)
    rw [kept₃ address other,kept₂ address outRight,kept₁ address outLeft]

end Segment
end LinkedNodes
