import GetMatVar.FillFrames
import GetMatVar.Library.Descent

namespace GetMatVar
namespace FillWalks
open Relation Descent

section Loop
variable {tree more : Heap → Nat → Option (Nat × Heap)}

theorem fillSubTrees_cons (tree : Heap → Nat → Option (Nat × Heap)) (count obj : Nat) (rest : List Nat) (heap : Heap) :
    fillSubTrees tree (count+1) (obj::rest) heap =
      (tree heap obj).bind fun ran => if ran.1 ≠ 0 then some (1,ran.2) else fillSubTrees tree count rest ran.2 := rfl

theorem fillSubTrees_mono (larger : ∀ heap object result, tree heap object = some result → more heap object = some result)
    (ran : fillSubTrees tree count objects heap = some result) : fillSubTrees more count objects heap = some result := by
  induction count generalizing objects heap with
  | zero => exact ran
  | succ count ih =>
    cases objects with
    | nil => cases ran
    | cons obj rest =>
      rw [fillSubTrees_cons] at ran ⊢
      obtain ⟨first,here,later⟩ := Option.bind_eq_some_iff.mp ran
      refine Option.bind_eq_some_iff.mpr ⟨first,larger heap obj first here,?_⟩
      split at later
      · rename_i failed
        rw [if_pos failed]
        exact later
      · rename_i zero
        rw [if_neg zero]
        exact ih later

theorem fillSubTrees_next (before : fillSubTrees tree k objects heap = some (0,middle)) (at_ : objects[k]? = some obj)
    (tree_ : tree middle obj = some result) : ∃ last, fillSubTrees tree (k+1) objects heap = some last ∧
      (result.1 = 0 → last = result) := by
  induction k generalizing objects heap with
  | zero =>
    cases before
    cases objects with
    | nil => cases at_
    | cons first rest =>
      cases at_
      rw [fillSubTrees_cons,tree_,Option.bind_some]
      by_cases zero : result.1 = 0
      · exact ⟨(0,result.2),if_neg (not_not.mpr zero),fun _ => Prod.ext zero.symm rfl⟩
      · exact ⟨(1,result.2),if_pos zero,fun same => absurd same zero⟩
  | succ k ih =>
    cases objects with
    | nil => cases before
    | cons first rest =>
      rw [fillSubTrees_cons] at before
      obtain ⟨⟨code,next⟩,here,later⟩ := Option.bind_eq_some_iff.mp before
      split at later
      · cases later
      · rename_i zero
        obtain rfl : code = 0 := Decidable.not_not.mp zero
        obtain ⟨last,ran,same⟩ := ih later at_
        refine ⟨last,?_,same⟩
        rw [fillSubTrees_cons,here]
        exact ran

theorem fillSubTrees_failed (before : fillSubTrees tree k objects heap = some (code,middle)) (failed : code ≠ 0) :
    fillSubTrees tree (k+1) objects heap = some (code,middle) := by
  induction k generalizing objects heap with
  | zero =>
    cases before
    exact absurd rfl failed
  | succ k ih =>
    cases objects with
    | nil => cases before
    | cons first rest =>
      rw [fillSubTrees_cons] at before ⊢
      obtain ⟨ran,here,later⟩ := Option.bind_eq_some_iff.mp before
      rw [here,Option.bind_some]
      split at later
      · rename_i wrong
        rw [if_pos wrong]
        exact later
      · rename_i zero
        rw [if_neg zero]
        exact ih later

theorem fillSubTrees_made (agree : ∀ heap object first second, tree heap object = some first →
      more heap object = some second → first = second)
    (ran : fillSubTrees tree count objects heap = some result) (few : k < count)
    (before : fillSubTrees more k objects heap = some (0,middle)) :
    ∃ obj, objects[k]? = some obj ∧ ∃ sub, tree middle obj = some sub := by
  induction k generalizing objects heap count with
  | zero =>
    cases before
    obtain ⟨count,rfl⟩ := Nat.exists_eq_succ_of_ne_zero (Nat.ne_of_gt few)
    cases objects with
    | nil => cases ran
    | cons first rest =>
      obtain ⟨sub,here,_⟩ := Option.bind_eq_some_iff.mp ran
      exact ⟨first,rfl,sub,here⟩
  | succ k ih =>
    obtain ⟨count,rfl⟩ := Nat.exists_eq_succ_of_ne_zero (Nat.ne_of_gt (Nat.lt_of_le_of_lt (Nat.zero_le _) few))
    cases objects with
    | nil => cases ran
    | cons first rest =>
      rw [fillSubTrees_cons] at ran before
      obtain ⟨⟨code,next⟩,there,after⟩ := Option.bind_eq_some_iff.mp before
      obtain ⟨sub,here,later⟩ := Option.bind_eq_some_iff.mp ran
      obtain rfl := agree heap first sub _ here there
      split at after
      · cases after
      · rename_i zero
        rw [if_neg zero] at later
        exact ih later (Nat.lt_of_succ_lt_succ few) after

theorem fillSubTrees_enough (ran : fillSubTrees tree count objects heap = some (0,after)) : count ≤ objects.length := by
  induction count generalizing objects heap with
  | zero => exact Nat.zero_le _
  | succ count ih =>
    cases objects with
    | nil => cases ran
    | cons first rest =>
      rw [fillSubTrees_cons] at ran
      obtain ⟨sub,_,later⟩ := Option.bind_eq_some_iff.mp ran
      split at later
      · cases later
      · exact Nat.succ_le_succ (ih later)

theorem fillSubTrees_still (each : ∀ sub ∈ objects.take count, ∀ result, tree heap sub = some result → result = (0,heap))
    (ran : fillSubTrees tree count objects heap = some result) : result = (0,heap) := by
  induction count generalizing objects with
  | zero =>
    cases ran
    rfl
  | succ count ih =>
    cases objects with
    | nil => cases ran
    | cons sub rest =>
      rw [fillSubTrees_cons] at ran
      rw [List.take_succ_cons] at each
      obtain ⟨ended,here,later⟩ := Option.bind_eq_some_iff.mp ran
      obtain rfl := each sub List.mem_cons_self ended here
      exact ih (fun other listed => each other (List.mem_cons_of_mem _ listed)) later

end Loop

-- A call of fillDataTree.
structure Call where
  heap : Heap
  object : Nat

section Calls
variable (fill : Heap → Nat → Option (Nat × Heap))

def Walked (k : Nat) (objects : List Nat) (heap before : Heap) : Prop :=
  ∃ fuel, fillSubTrees (fillDataTree fill fuel) k objects heap = some (0,before)

-- The calls that a call makes, as far as it gets.
inductive SubCall : Call → Call → Prop where
  | sub (filled : fill heap object = some (0,middle)) (next : k < (middle.objects object).numSubObjs)
      (walked : Walked fill k (middle.children object) middle before) (at_ : (middle.children object)[k]? = some obj) :
      SubCall ⟨heap,object⟩ ⟨before,obj⟩

-- fillObject returns, and the traversal gives a sub_object wherever the loop takes one.
structure Proceeds (call : Call) : Prop where
  returns : ∃ result, fill call.heap call.object = some result
  listed : ∀ middle before k, fill call.heap call.object = some (0,middle) →
    k < (middle.objects call.object).numSubObjs → Walked fill k (middle.children call.object) middle before →
    ∃ obj, (middle.children call.object)[k]? = some obj

end Calls

section Returns
variable {fill : Heap → Nat → Option (Nat × Heap)}

theorem fillDataTree_mono (less : fuel ≤ more) (ran : fillDataTree fill fuel heap object = some result) :
    fillDataTree fill more heap object = some result := by
  induction fuel generalizing more heap object result with
  | zero => cases ran
  | succ fuel ih =>
    obtain ⟨more,rfl⟩ := Nat.exists_eq_succ_of_ne_zero (Nat.ne_of_gt (Nat.lt_of_lt_of_le (Nat.succ_pos fuel) less))
    obtain ⟨⟨code,middle⟩,first,rest⟩ := Option.bind_eq_some_iff.mp ran
    refine Option.bind_eq_some_iff.mpr ⟨(code,middle),first,?_⟩
    dsimp only at rest ⊢
    split at rest
    · rename_i failed
      rw [if_pos failed]
      exact rest
    · rename_i zero
      rw [if_neg zero]
      exact fillSubTrees_mono (fun heap object result => ih (Nat.le_of_succ_le_succ less)) rest

theorem fillDataTree_same (ran : fillDataTree fill fuel heap object = some first)
    (again : fillDataTree fill more heap object = some second) : first = second := by
  have left := fillDataTree_mono (Nat.le_max_left fuel more) ran
  have right := fillDataTree_mono (Nat.le_max_right fuel more) again
  exact Option.some.inj (left.symm.trans right)

theorem loop_returns (each : ∀ k < count, ∀ before, Walked fill k objects heap before →
      ∃ obj, objects[k]? = some obj ∧ ∃ fuel result, fillDataTree fill fuel before obj = some result) :
    ∃ fuel result, fillSubTrees (fillDataTree fill fuel) count objects heap = some result := by
  induction count with
  | zero => exact ⟨0,_,rfl⟩
  | succ count ih =>
    obtain ⟨fuel,⟨code,before⟩,ran⟩ := ih fun k less => each k (Nat.lt_succ_of_lt less)
    by_cases zero : code = 0
    · subst zero
      obtain ⟨obj,at_,more,result,last⟩ := each count (Nat.lt_succ_self _) before ⟨fuel,ran⟩
      have earlier := fillSubTrees_mono (fun _ _ _ => fillDataTree_mono (Nat.le_max_left fuel more)) ran
      obtain ⟨whole,done,_⟩ := fillSubTrees_next earlier at_ (fillDataTree_mono (Nat.le_max_right fuel more) last)
      exact ⟨max fuel more,whole,done⟩
    · exact ⟨fuel,_,fillSubTrees_failed ran zero⟩

-- By induction on the depth: a walk that returns has made only calls that return.
theorem fillDataTree_ends (ran : fillDataTree fill fuel heap object = some result) :
    Ends (SubCall fill) (Proceeds fill) ⟨heap,object⟩ := by
  induction fuel generalizing heap object result with
  | zero => cases ran
  | succ fuel ih =>
    obtain ⟨⟨code,middle⟩,first,rest⟩ := Option.bind_eq_some_iff.mp ran
    have made : ∀ middle before k, fill heap object = some (0,middle) → k < (middle.objects object).numSubObjs →
        Walked fill k (middle.children object) middle before →
        ∃ obj, (middle.children object)[k]? = some obj ∧ ∃ sub, fillDataTree fill fuel before obj = some sub := by
      rintro other before k filled few ⟨more,earlier⟩
      cases first.symm.trans filled
      exact fillSubTrees_made (fun _ _ _ _ => fillDataTree_same) rest few earlier
    refine .intro ⟨⟨_,first⟩,fun middle before k filled few walked => ?_⟩ fun call down => ?_
    · obtain ⟨obj,at_,_⟩ := made middle before k filled few walked
      exact ⟨obj,at_⟩
    · cases down with
      | sub filled few walked at_ =>
        obtain ⟨obj,same,sub,ran⟩ := made _ _ _ filled few walked
        obtain rfl := Option.some.inj (at_.symm.trans same)
        exact ih ran

theorem ends_fillDataTree (ends : Ends (SubCall fill) (Proceeds fill) call) :
    ∃ fuel result, fillDataTree fill fuel call.heap call.object = some result := by
  induction ends with
  | @intro call proceeds _ ih =>
    obtain ⟨⟨code,middle⟩,first⟩ := proceeds.returns
    by_cases zero : code = 0
    · subst zero
      have each : ∀ k < (middle.objects call.object).numSubObjs, ∀ before,
          Walked fill k (middle.children call.object) middle before → ∃ obj, (middle.children call.object)[k]? = some obj ∧
            ∃ fuel result, fillDataTree fill fuel before obj = some result := by
        intro k few before walked
        obtain ⟨obj,at_⟩ := proceeds.listed middle before k first few walked
        exact ⟨obj,at_,ih ⟨before,obj⟩ (.sub first few walked at_)⟩
      obtain ⟨fuel,result,rest⟩ := loop_returns each
      exact ⟨fuel+1,result,Option.bind_eq_some_iff.mpr ⟨_,first,rest⟩⟩
    · exact ⟨1,(1,middle),Option.bind_eq_some_iff.mpr ⟨_,first,if_pos zero⟩⟩

end Returns

-- What a walk sees of an object.
structure Same (heap after : Heap) (ptr : Nat) : Prop where
  filled : (heap.objects ptr).isFilled = true → (after.objects ptr).isFilled = true
  count : (after.objects ptr).numSubObjs = (heap.objects ptr).numSubObjs
  children : after.children ptr = heap.children ptr

theorem Same.refl (heap : Heap) (ptr : Nat) : Same heap heap ptr := ⟨id,rfl,rfl⟩

theorem Same.of_eq (same : after.objects ptr = heap.objects ptr) : Same heap after ptr := by
  refine ⟨fun filled => ?_,by rw [same],by unfold Heap.children; rw [same]⟩
  rw [same]
  exact filled

theorem Same.trans (left : Same heap middle ptr) (right : Same middle after ptr) : Same heap after ptr :=
  ⟨right.filled ∘ left.filled,right.count.trans left.count,right.children.trans left.children⟩

-- object and all that a walk comes to below it are filled and among the allowed objects.
inductive Settled (allowed : Nat → Prop) (heap : Heap) : Nat → Prop where
  | intro (inside : allowed object) (filled : (heap.objects object).isFilled = true)
      (enough : (heap.objects object).numSubObjs ≤ (heap.children object).length)
      (below : ∀ sub ∈ (heap.children object).take (heap.objects object).numSubObjs, Settled allowed heap sub) :
      Settled allowed heap object

def Done (heap : Heap) (object : Nat) : Prop := Settled (fun _ => True) heap object

section Settled
variable {allowed : Nat → Prop} {heap after : Heap}

theorem Settled.inside (settled : Settled allowed heap object) : allowed object ∧ (heap.objects object).isFilled = true := by
  cases settled with
  | intro inside filled _ _ => exact ⟨inside,filled⟩

theorem Settled.transport (settled : Settled allowed heap object)
    (same : ∀ ptr, allowed ptr → (heap.objects ptr).isFilled = true → Same heap after ptr)
    (wider : ∀ ptr, allowed ptr → more ptr) : Settled more after object := by
  induction settled with
  | @intro object inside filled enough _ ih =>
    have here := same object inside filled
    refine .intro (wider object inside) (here.filled filled) ?_ fun sub listed => ?_
    · rw [here.count,here.children]
      exact enough
    · rw [here.count,here.children] at listed
      exact ih sub listed

theorem Done.within (done : Done heap object) (valid : heap.Valid) (made : object < heap.fresh) :
    Settled (fun ptr => ptr < heap.fresh ∧ (heap.objects ptr).isFilled = true) heap object := by
  induction done with
  | @intro object _ filled enough _ ih =>
    refine .intro ⟨made,filled⟩ filled enough fun sub listed => ih sub listed ?_
    exact valid.closed object made sub (List.mem_of_mem_take listed)

end Settled

-- What fillObject is taken to keep, and what it leaves as it was.
structure Step (good : Heap → Prop) (heap : Heap) (object : Nat) (after : Heap) : Prop where
  good : good after
  grows : heap.fresh ≤ after.fresh
  filled : (after.objects object).isFilled = true
  same : ∀ ptr < heap.fresh, (heap.objects ptr).isFilled = true ∨ ptr ≠ object → Same heap after ptr

structure FillKeeps (fill : Heap → Nat → Option (Nat × Heap)) (good : Heap → Prop) : Prop where
  valid : ∀ heap, good heap → heap.Valid
  again : ∀ heap object, (heap.objects object).isFilled = true → fill heap object = some (0,heap)
  step : ∀ heap object after, good heap → object < heap.fresh → fill heap object = some (0,after) →
    Step good heap object after

-- What holds of the heap after any number of steps.
structure Later (good : Heap → Prop) (heap after : Heap) : Prop where
  good : good after
  grows : heap.fresh ≤ after.fresh
  same : ∀ ptr < heap.fresh, (heap.objects ptr).isFilled = true → Same heap after ptr

-- What a walk has not left as it was it has settled.
structure Walk (good : Heap → Prop) (heap after : Heap) : Prop extends Later good heap after where
  changed : ∀ ptr < heap.fresh, Same heap after ptr ∨ Done after ptr

section Walks
variable {fill : Heap → Nat → Option (Nat × Heap)} {good : Heap → Prop} {heap middle after : Heap}

theorem Step.later (step : Step good heap object after) : Later good heap after :=
  ⟨step.good,step.grows,fun ptr older filled => step.same ptr older (.inl filled)⟩

theorem Later.trans (left : Later good heap middle) (right : Later good middle after) : Later good heap after := by
  refine ⟨right.good,left.grows.trans right.grows,fun ptr older filled => ?_⟩
  have first := left.same ptr older filled
  exact first.trans (right.same ptr (Nat.lt_of_lt_of_le older left.grows) (first.filled filled))

theorem Done.later (done : Done heap object) (valid : heap.Valid) (made : object < heap.fresh) (later : Later good heap after) :
    Done after object :=
  (done.within valid made).transport (fun ptr inside _ => later.same ptr inside.1 inside.2) fun _ _ => trivial

variable (fills : FillKeeps fill good)
include fills

theorem Walk.trans (left : Walk good heap middle) (right : Walk good middle after) : Walk good heap after := by
  refine ⟨left.toLater.trans right.toLater,fun ptr older => ?_⟩
  have made := Nat.lt_of_lt_of_le older left.grows
  rcases left.changed ptr older with first | done
  · rcases right.changed ptr made with second | done
    · exact .inl (first.trans second)
    · exact .inr done
  · exact .inr (done.later (fills.valid middle left.good) made right.toLater)

theorem fillSubTrees_walk {tree : Heap → Nat → Option (Nat × Heap)}
    (each : ∀ heap object after, good heap → object < heap.fresh → tree heap object = some (0,after) →
      Walk good heap after ∧ Done after object)
    (starts : good heap) (made : ∀ obj ∈ objects, obj < heap.fresh)
    (ran : fillSubTrees tree k objects heap = some (0,after)) :
    Walk good heap after ∧ ∀ obj ∈ objects.take k, Done after obj := by
  induction k generalizing objects heap with
  | zero =>
    cases ran
    exact ⟨⟨⟨starts,Nat.le_refl _,fun ptr _ _ => .refl _ ptr⟩,fun ptr _ => .inl (.refl _ ptr)⟩,
      fun obj listed => absurd listed List.not_mem_nil⟩
  | succ k ih =>
    cases objects with
    | nil => cases ran
    | cons first rest =>
      rw [fillSubTrees_cons] at ran
      obtain ⟨⟨code,middle⟩,here,later⟩ := Option.bind_eq_some_iff.mp ran
      split at later
      · cases later
      rename_i zero
      obtain rfl : code = 0 := Decidable.not_not.mp zero
      have inside := made first List.mem_cons_self
      obtain ⟨walk,done⟩ := each heap first middle starts inside here
      obtain ⟨more,others⟩ := ih walk.good (fun obj listed =>
        Nat.lt_of_lt_of_le (made obj (List.mem_cons_of_mem _ listed)) walk.grows) later
      refine ⟨walk.trans fills more,fun obj listed => ?_⟩
      rw [List.take_succ_cons] at listed
      rcases List.mem_cons.mp listed with rfl | listed
      · exact done.later (fills.valid middle walk.good) (Nat.lt_of_lt_of_le inside walk.grows) more.toLater
      · exact others obj listed

-- By induction on the depth: the object itself is filled first and stays as it is.
theorem fillDataTree_walk (starts : good heap) (made : object < heap.fresh)
    (ran : fillDataTree fill fuel heap object = some (0,after)) : Walk good heap after ∧ Done after object := by
  induction fuel generalizing heap object after with
  | zero => cases ran
  | succ fuel ih =>
    obtain ⟨middle,first,rest⟩ := fillDataTree_exact.mp ran
    have step := fills.step heap object middle starts made first
    have madeMiddle := Nat.lt_of_lt_of_le made step.grows
    obtain ⟨walk,done⟩ := fillSubTrees_walk fills (fun _ _ _ => ih) step.good
      ((fills.valid middle step.good).closed object madeMiddle) rest
    have own := walk.same object madeMiddle step.filled
    have settled : Done after object := by
      refine .intro trivial (own.filled step.filled) ?_ fun sub listed => ?_
      · rw [own.count,own.children]
        exact fillSubTrees_enough rest
      · rw [own.count,own.children] at listed
        exact done sub listed
    refine ⟨⟨step.later.trans walk.toLater,fun ptr older => ?_⟩,settled⟩
    by_cases same : ptr = object
    · subst same
      exact .inr settled
    · rcases walk.changed ptr (Nat.lt_of_lt_of_le older step.grows) with second | done
      · exact .inl ((step.same ptr older (.inr same)).trans second)
      · exact .inr done

theorem Settled.still (settled : Settled allowed heap object) (ran : fillDataTree fill fuel heap object = some result) :
    result = (0,heap) := by
  induction settled generalizing fuel result with
  | @intro object _ filled _ _ ih =>
    cases fuel with
    | zero => cases ran
    | succ fuel =>
      obtain ⟨⟨code,middle⟩,same,rest⟩ := Option.bind_eq_some_iff.mp ran
      cases (fills.again heap object filled).symm.trans same
      exact fillSubTrees_still (fun sub listed _ => ih sub listed) rest

theorem walked_still (each : ∀ sub ∈ objects.take k, Done heap sub) (walked : Walked fill k objects heap before) :
    before = heap := by
  obtain ⟨fuel,ran⟩ := walked
  cases fillSubTrees_still (fun sub listed _ => (each sub listed).still fills) ran
  rfl

theorem Done.ends (done : Done heap object) : Ends (SubCall fill) (Proceeds fill) ⟨heap,object⟩ := by
  induction done with
  | @intro object _ filled enough below ih =>
    have again := fills.again heap object filled
    have few : ∀ k < (heap.objects object).numSubObjs, ∀ before, Walked fill k (heap.children object) heap before →
        before = heap := by
      intro k less before walked
      refine walked_still fills (fun sub listed => below sub ?_) walked
      exact List.take_subset_take_left _ (Nat.le_of_lt less) listed
    refine .intro ⟨⟨_,again⟩,fun middle before k first less walked => ?_⟩ fun call down => ?_
    · cases again.symm.trans first
      exact ⟨_,List.getElem?_eq_getElem (Nat.lt_of_lt_of_le less enough)⟩
    · cases down with
      | sub first less walked at_ =>
        cases again.symm.trans first
        obtain rfl := few _ less _ walked
        have at_ := (List.getElem?_take_of_lt less).trans at_
        exact ih _ (List.mem_of_getElem? at_)

theorem done_walked (each : ∀ sub ∈ objects.take k, Done heap sub) (enough : k ≤ objects.length) :
    Walked fill k objects heap heap := by
  have listed : ∀ i < k, ∀ before, Walked fill i objects heap before →
      ∃ obj, objects[i]? = some obj ∧ ∃ fuel result, fillDataTree fill fuel before obj = some result := by
    intro i less before walked
    obtain rfl := walked_still fills (fun sub member => each sub (List.take_subset_take_left _ (Nat.le_of_lt less) member)) walked
    have at_ := List.getElem?_eq_getElem (Nat.lt_of_lt_of_le less enough)
    have member := List.mem_of_getElem? ((List.getElem?_take_of_lt less).trans at_)
    exact ⟨_,at_,ends_fillDataTree ((each _ member).ends fills)⟩
  obtain ⟨fuel,result,ran⟩ := loop_returns listed
  obtain rfl := fillSubTrees_still (fun sub member _ => (each sub member).still fills) ran
  exact ⟨fuel,ran⟩

theorem subCall_later (starts : good call.heap) (made : call.object < call.heap.fresh) (down : SubCall fill call sub) :
    Later good call.heap sub.heap ∧ sub.object < sub.heap.fresh := by
  cases down with
  | sub filled less walked at_ =>
    obtain ⟨fuel,ran⟩ := walked
    have step := fills.step _ _ _ starts made filled
    have closed := (fills.valid _ step.good).closed _ (Nat.lt_of_lt_of_le made step.grows)
    obtain ⟨walk,_⟩ := fillSubTrees_walk fills (fun _ _ _ => fillDataTree_walk fills) step.good closed ran
    refine ⟨step.later.trans walk.toLater,Nat.lt_of_lt_of_le (closed _ (List.mem_of_getElem? at_)) walk.grows⟩

theorem reached_later (starts : good call.heap) (made : call.object < call.heap.fresh)
    (down : ReflTransGen (SubCall fill) call sub) : Later good call.heap sub.heap ∧ sub.object < sub.heap.fresh := by
  induction down with
  | refl => exact ⟨⟨starts,Nat.le_refl _,fun ptr _ _ => .refl _ ptr⟩,made⟩
  | tail _ last ih =>
    obtain ⟨later,inside⟩ := ih
    obtain ⟨more,made⟩ := subCall_later fills later.good inside last
    exact ⟨later.trans more,made⟩

-- A call for an object that is filled already makes again the call that led to it.
theorem subCall_again (starts : good call.heap) (made : call.object < call.heap.fresh) (down : SubCall fill call sub)
    (later : Later good sub.heap after) : SubCall fill ⟨after,call.object⟩ ⟨after,sub.object⟩ := by
  cases down with
  | @sub heap object middle k before obj filled less walked at_ =>
    obtain ⟨fuel,ran⟩ := walked
    have step := fills.step _ _ _ starts made filled
    have madeMiddle := Nat.lt_of_lt_of_le made step.grows
    have closed := (fills.valid _ step.good).closed _ madeMiddle
    obtain ⟨walk,done⟩ := fillSubTrees_walk fills (fun _ _ _ => fillDataTree_walk fills) step.good closed ran
    have rest := walk.toLater.trans later
    have same := rest.same object madeMiddle step.filled
    have again := fills.again after object (same.filled step.filled)
    have enough : k ≤ (middle.children object).length :=
      Nat.le_of_lt (List.getElem?_eq_some_iff.mp at_).1
    refine .sub again (same.count ▸ less) ?_ (same.children ▸ at_)
    rw [same.children]
    refine done_walked fills (fun sub listed => ?_) enough
    have inside := closed sub (List.mem_of_mem_take listed)
    exact (done sub listed).later (fills.valid _ walk.good) (Nat.lt_of_lt_of_le inside walk.grows) later

-- So no object is walked below itself: the walk would go round for ever.
theorem ends_noRepeat (ends : Ends (SubCall fill) (Proceeds fill) call) (starts : good call.heap)
    (made : call.object < call.heap.fresh) (down : TransGen (SubCall fill) call sub) : sub.object ≠ call.object := by
  induction ends generalizing sub with
  | @intro call _ _ ih =>
    intro same
    obtain ⟨next,first,rest⟩ := TransGen.head'_iff.mp down
    obtain ⟨later,inside⟩ := subCall_later fills starts made first
    obtain ⟨more,_⟩ := reached_later fills later.good inside rest
    have again := subCall_again fills starts made first more
    rw [← same] at again
    exact ih next first later.good inside (TransGen.tail' rest again) rfl

end Walks

end FillWalks
end GetMatVar
