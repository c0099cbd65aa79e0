import GetMatVar.FillWalks
import Mathlib.Data.Set.Card

namespace GetMatVar
namespace FillDescent
open Relation Descent FillWalks

-- What fillObject is taken to attach. The objects from bound on are clones: below a
-- clone are larger ones, and a new element is the clone of an older one before it.
structure Clones (fill : Heap → Nat → Option (Nat × Heap)) (good : Heap → Prop) (bound : Nat) : Prop where
  ascending : ∀ heap, good heap → ∀ ptr, bound ≤ ptr → ptr < heap.fresh → ∀ child ∈ heap.children ptr, bound ≤ child →
    ptr < child
  elements : ∀ heap object after, good heap → object < heap.fresh → fill heap object = some (0,after) →
    ∀ (k child : Nat), (after.children object)[k]? = some child → child ∈ heap.children object ∨ child < bound ∨
      ∃ i < k, ∃ ref < bound, (after.children object)[i]? = some ref ∧ (Done heap ref → Done after child)

section Counts

noncomputable def unsettled (bound : Nat) (heap : Heap) : Nat := {ptr | ptr < bound ∧ ¬Done heap ptr}.ncard

theorem older_finite (bound : Nat) (holds : Nat → Prop) : {ptr | ptr < bound ∧ holds ptr}.Finite :=
  (Set.finite_lt_nat bound).subset fun _ both => both.1

theorem unsettled_le (kept : ∀ ptr < bound, Done heap ptr → Done after ptr) :
    unsettled bound after ≤ unsettled bound heap := by
  apply Set.ncard_le_ncard _ (older_finite bound _)
  exact fun ptr both => ⟨both.1,fun done => both.2 (kept ptr both.1 done)⟩

theorem unsettled_lt (kept : ∀ ptr < bound, Done heap ptr → Done after ptr) (older : ref < bound) (before : ¬Done heap ref)
    (now : Done after ref) : unsettled bound after < unsettled bound heap := by
  apply Set.ncard_lt_ncard _ (older_finite bound _)
  refine ⟨fun ptr both => ⟨both.1,fun done => both.2 (kept ptr both.1 done)⟩,fun all_ => ?_⟩
  exact (all_ ⟨older,before⟩).2 now

variable (fill : Heap → Nat → Option (Nat × Heap)) (start : Call)

def Visited (call : Call) (ptr : Nat) : Prop :=
  ∃ earlier, ReflTransGen (SubCall fill) start earlier ∧ ReflTransGen (SubCall fill) earlier call ∧ earlier.object = ptr

noncomputable def unvisited (bound : Nat) (call : Call) : Nat := {ptr | ptr < bound ∧ ¬Visited fill start call ptr}.ncard

variable {fill start}

theorem Visited.later (visited : Visited fill start call ptr) (down : SubCall fill call sub) : Visited fill start sub ptr := by
  obtain ⟨earlier,reached,deeper,same⟩ := visited
  exact ⟨earlier,reached,deeper.tail down,same⟩

theorem unvisited_le (down : SubCall fill call sub) : unvisited fill start bound sub ≤ unvisited fill start bound call := by
  apply Set.ncard_le_ncard _ (older_finite bound _)
  exact fun ptr both => ⟨both.1,fun visited => both.2 (visited.later down)⟩

theorem unvisited_lt (noRepeat : ∀ call sub, ReflTransGen (SubCall fill) start call → TransGen (SubCall fill) call sub →
      sub.object ≠ call.object) (reached : ReflTransGen (SubCall fill) start call) (down : SubCall fill call sub)
    (older : sub.object < bound) : unvisited fill start bound sub < unvisited fill start bound call := by
  apply Set.ncard_lt_ncard _ (older_finite bound _)
  refine ⟨fun ptr both => ⟨both.1,fun visited => both.2 (visited.later down)⟩,fun all_ => ?_⟩
  have fresh : ¬Visited fill start call sub.object := by
    rintro ⟨earlier,before,deeper,same⟩
    exact noRepeat earlier sub before (TransGen.tail' deeper down) same.symm
  exact (all_ ⟨older,fresh⟩).2 ⟨sub,reached.tail down,.refl,rfl⟩

end Counts

section Descends
variable {fill : Heap → Nat → Option (Nat × Heap)} {good : Heap → Prop} {bound : Nat} (fills : FillKeeps fill good)
include fills

-- What a sub_object is: an older object, one that was below before, one that is
-- settled, or a clone behind an object that has been settled meanwhile.
theorem subCall_cases (clones : Clones fill good bound) (starts : good call.heap) (made : call.object < call.heap.fresh)
    (down : SubCall fill call sub) : sub.object < bound ∨ sub.object ∈ call.heap.children call.object ∨
      Done sub.heap sub.object ∨ ∃ ref < bound, ¬Done call.heap ref ∧ Done sub.heap ref := by
  cases down with
  | @sub heap object middle k before obj filled less walked at_ =>
    obtain ⟨fuel,ran⟩ := walked
    have step := fills.step _ _ _ starts made filled
    have closed := (fills.valid _ step.good).closed _ (Nat.lt_of_lt_of_le made step.grows)
    obtain ⟨walk,done⟩ := fillSubTrees_walk fills (fun _ _ _ => fillDataTree_walk fills) step.good closed ran
    rcases clones.elements heap object middle starts made filled k obj at_ with below | older | clone
    · exact .inr (.inl below)
    · exact .inl older
    obtain ⟨i,earlier,ref,older,first,copied⟩ := clone
    by_cases settled : Done heap ref
    · have inside := closed obj (List.mem_of_getElem? at_)
      exact .inr (.inr (.inl ((copied settled).later (fills.valid _ step.good) inside walk.toLater)))
    · have listed := List.mem_of_getElem? ((List.getElem?_take_of_lt earlier).trans first)
      exact .inr (.inr (.inr ⟨ref,older,settled,done ref listed⟩))

theorem subCall_changed (starts : good call.heap) (made : call.object < call.heap.fresh) (down : SubCall fill call sub)
    (older : ptr < call.heap.fresh) (other : ptr ≠ call.object) : Same call.heap sub.heap ptr ∨ Done sub.heap ptr := by
  cases down with
  | sub filled less walked at_ =>
    obtain ⟨fuel,ran⟩ := walked
    have step := fills.step _ _ _ starts made filled
    have closed := (fills.valid _ step.good).closed _ (Nat.lt_of_lt_of_le made step.grows)
    obtain ⟨walk,_⟩ := fillSubTrees_walk fills (fun _ _ _ => fillDataTree_walk fills) step.good closed ran
    rcases walk.changed ptr (Nat.lt_of_lt_of_le older step.grows) with same | done
    · exact .inl ((step.same ptr older (.inr other)).trans same)
    · exact .inr done

def Inside (bound low high : Nat) (heap : Heap) : Prop :=
  ∀ ptr, low ≤ ptr → ptr < high → ¬Done heap ptr → ∀ child ∈ heap.children ptr, bound ≤ child → child < high

variable (clones : Clones fill good bound) {start : Call} (starts : good start.heap) (made : start.object < start.heap.fresh)
  (few : bound ≤ start.heap.fresh)
  (noRepeat : ∀ call sub, ReflTransGen (SubCall fill) start call → TransGen (SubCall fill) call sub →
    sub.object ≠ call.object)
include clones starts made few noRepeat

variable (known : ∀ other, ReflTransGen (SubCall fill) start other →
    (unsettled bound other.heap < k ∨ unsettled bound other.heap ≤ k ∧ unvisited fill start bound other < m) →
    Ends (SubCall fill) (Proceeds fill) other)

include known in
theorem sub_known (reached : ReflTransGen (SubCall fill) start call) (settling : unsettled bound call.heap ≤ k)
    (visiting : unvisited fill start bound call ≤ m) (down : SubCall fill call sub) :
    Ends (SubCall fill) (Proceeds fill) sub ∨ bound ≤ sub.object ∧ sub.object ∈ call.heap.children call.object ∧
      unsettled bound sub.heap ≤ k ∧ unvisited fill start bound sub ≤ m := by
  obtain ⟨later,listed⟩ := reached_later fills starts made reached
  obtain ⟨more,_⟩ := subCall_later fills later.good listed down
  have kept : ∀ ptr < bound, Done call.heap ptr → Done sub.heap ptr := fun ptr older settled =>
    settled.later (fills.valid _ later.good) (Nat.lt_of_lt_of_le older (few.trans later.grows)) more
  have settlingSub := (unsettled_le kept).trans settling
  by_cases older : sub.object < bound
  · have fewer := unvisited_lt noRepeat reached down older
    exact .inl (known sub (reached.tail down) (.inr ⟨settlingSub,Nat.lt_of_lt_of_le fewer visiting⟩))
  rcases subCall_cases fills clones later.good listed down with under | child | settled | ⟨ref,under,before,now⟩
  · exact absurd under older
  · exact .inr ⟨Nat.le_of_not_lt older,child,settlingSub,(unvisited_le down).trans visiting⟩
  · exact .inl (settled.ends fills)
  · have fewer := unsettled_lt kept under before now
    exact .inl (known sub (reached.tail down) (.inl (Nat.lt_of_lt_of_le fewer settling)))

variable (proceeds : ∀ call, ReflTransGen (SubCall fill) start call → Proceeds fill call)
include proceeds

-- A chain of clones goes up and stays below high, if it does not come to a call
-- that is known to end.
include known in
theorem clone_ends (reached : ReflTransGen (SubCall fill) start call) (settling : unsettled bound call.heap ≤ k)
    (visiting : unvisited fill start bound call ≤ m) (new : bound ≤ call.object) (low : call.object < high)
    (high_ : high ≤ call.heap.fresh) (inside : Inside bound call.object high call.heap) :
    Ends (SubCall fill) (Proceeds fill) call := by
  induction left : high-call.object using Nat.strong_induction_on generalizing call with
  | _ left ih =>
    obtain ⟨later,listed⟩ := reached_later fills starts made reached
    by_cases done : Done call.heap call.object
    · exact done.ends fills
    refine .intro (proceeds call reached) fun sub down => ?_
    rcases sub_known fills clones starts made few noRepeat known reached settling visiting down with
      ends | ⟨newSub,child,settlingSub,visitingSub⟩
    · exact ends
    obtain ⟨more,_⟩ := subCall_later fills later.good listed down
    have up := clones.ascending _ later.good call.object new listed sub.object child newSub
    have within_ := inside call.object (Nat.le_refl _) low done sub.object child newSub
    refine ih (high-sub.object) (by omega) (reached.tail down) settlingSub visitingSub newSub within_
      (high_.trans more.grows) (fun ptr above below open_ other member clone => ?_) rfl
    have older := Nat.lt_of_lt_of_le below high_
    rcases subCall_changed fills later.good listed down older (by omega) with same | settled
    · rw [same.children] at member
      refine inside ptr (by omega) below (fun settled => open_ ?_) other member clone
      exact settled.later (fills.valid _ later.good) older more
    · exact absurd settled open_

-- Every chain of calls settles an older object, comes to one for the first time or
-- goes up among the clones of one batch, so that none goes on for ever.
theorem call_ends (k m : Nat) (reached : ReflTransGen (SubCall fill) start call) (settling : unsettled bound call.heap ≤ k)
    (visiting : unvisited fill start bound call ≤ m) : Ends (SubCall fill) (Proceeds fill) call := by
  induction k using Nat.strong_induction_on generalizing m call with
  | _ k ihSettled =>
    induction m using Nat.strong_induction_on generalizing call with
    | _ m ihVisited =>
      have known : ∀ other, ReflTransGen (SubCall fill) start other →
          (unsettled bound other.heap < k ∨ unsettled bound other.heap ≤ k ∧ unvisited fill start bound other < m) →
          Ends (SubCall fill) (Proceeds fill) other := by
        rintro other reached (fewer | ⟨same,fewer⟩)
        · exact ihSettled _ fewer _ reached (Nat.le_refl _) (Nat.le_refl _)
        · exact ihVisited _ fewer reached same (Nat.le_refl _)
      obtain ⟨later,listed⟩ := reached_later fills starts made reached
      have closed := (fills.valid _ later.good).closed
      by_cases new : bound ≤ call.object
      · refine clone_ends fills clones starts made few noRepeat known proceeds reached settling visiting new listed
          (Nat.le_refl _) fun ptr _ below _ child member _ => ?_
        exact closed ptr below child member
      refine .intro (proceeds call reached) fun sub down => ?_
      rcases sub_known fills clones starts made few noRepeat known reached settling visiting down with
        ends | ⟨newSub,child,settlingSub,visitingSub⟩
      · exact ends
      obtain ⟨more,_⟩ := subCall_later fills later.good listed down
      refine clone_ends fills clones starts made few noRepeat known proceeds (reached.tail down) settlingSub visitingSub
        newSub (closed _ listed _ child) more.grows fun ptr above below open_ other member _ => ?_
      rcases subCall_changed fills later.good listed down below (by omega) with same | settled
      · rw [same.children] at member
        exact closed ptr below other member
      · exact absurd settled open_

end Descends

-- A walk returns exactly if fillObject returns at every call that it makes, with as
-- many sub_objects as are counted, and no object is walked below itself.
theorem returns_exact {fill : Heap → Nat → Option (Nat × Heap)} {good : Heap → Prop} {bound : Nat}
    (fills : FillKeeps fill good) (clones : Clones fill good bound) {start : Call} (starts : good start.heap) (made : start.object < start.heap.fresh)
    (few : bound ≤ start.heap.fresh) :
    (∃ fuel result, fillDataTree fill fuel start.heap start.object = some result) ↔
      ∀ call, ReflTransGen (SubCall fill) start call → Proceeds fill call ∧
        ∀ sub, TransGen (SubCall fill) call sub → sub.object ≠ call.object := by
  constructor
  · rintro ⟨fuel,result,ran⟩ call reached
    have ends := (fillDataTree_ends ran).reach reached
    obtain ⟨later,listed⟩ := reached_later fills starts made reached
    exact ⟨ends.here,fun sub down => ends_noRepeat fills ends later.good listed down⟩
  · intro each
    refine ends_fillDataTree (call_ends fills clones starts made few (fun call sub reached down => ?_) (fun call reached => ?_)
      _ _ .refl (Nat.le_refl _) (Nat.le_refl _))
    · exact (each call reached).2 sub down
    · exact (each call reached).1

end FillDescent
end GetMatVar
