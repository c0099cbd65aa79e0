import GetMatVar.RejectedMessages

namespace GetMatVar

section Inversion
variable {fill : Heap → Nat → Option (Nat × Heap)} {clone : Heap → Nat → Option (Nat × Heap)}

theorem fillSubTrees_last {tree : Heap → Nat → Option (Nat × Heap)}
    (ran : fillSubTrees tree (k+1) objects heap = some (0,after)) :
    ∃ before obj, fillSubTrees tree k objects heap = some (0,before) ∧ objects[k]? = some obj ∧
      tree before obj = some (0,after) := by
  induction k generalizing objects heap with
  | zero =>
    cases objects with
    | nil => cases ran
    | cons obj rest =>
      obtain ⟨⟨code,middle⟩,first,later⟩ := Option.bind_eq_some_iff.mp ran
      dsimp only at later
      split at later
      · cases later
      · rename_i zero
        obtain rfl : code = 0 := Decidable.not_not.mp zero
        cases later
        exact ⟨heap,obj,rfl,rfl,first⟩
  | succ k ih =>
    cases objects with
    | nil => cases ran
    | cons obj rest =>
      obtain ⟨⟨code,middle⟩,first,later⟩ := Option.bind_eq_some_iff.mp ran
      dsimp only at later
      split at later
      · cases later
      · rename_i zero
        obtain rfl : code = 0 := Decidable.not_not.mp zero
        obtain ⟨before,last,done,at_,tail⟩ := ih later
        refine ⟨before,last,?_,at_,tail⟩
        rw [fillSubTrees]
        simp only [first,Option.bind_eq_bind,Option.bind_some,ne_eq,not_true,if_false]
        exact done

inductive TokenSelected (fill : Heap → Nat → Option (Nat × Heap)) (heap : Heap) (object : Nat) (token : VariableNameToken)
    (rest : List VariableNameToken) : Nat → List VariableNameToken → Heap → Prop where
  | name (type : token.variableNameType = .localName)
      (found : findSubObjectByShortName heap object token.variableLocalName = some sub)
      (filled : fill heap sub = some (0,after)) (single : (after.objects sub).isStructArray = false) :
      TokenSelected fill heap object token rest sub rest after
  | field (type : token.variableNameType ≠ .localName) (first : fill heap object = some (0,middle))
      (struct : (middle.objects object).matlabInternalType = .structClass) (next : rest = name::tokens)
      (found : findSubObjectByShortName middle object name.variableLocalName = some sub)
      (filled : fill middle sub = some (0,after)) (single : (after.objects sub).isStructArray = false) :
      TokenSelected fill heap object token rest sub tokens after
  | arrayField (type : token.variableNameType ≠ .localName) (first : fill heap object = some (0,middle))
      (struct : (middle.objects object).matlabInternalType = .structClass) (next : rest = name::tokens)
      (found : findSubObjectByShortName middle object name.variableLocalName = some sub)
      (filled : fill middle sub = some (0,after)) (array : (after.objects sub).isStructArray = true)
      (selected : selectElement after sub token.variableNameType = some element) :
      TokenSelected fill heap object token rest element tokens after
  | element (type : token.variableNameType ≠ .localName) (first : fill heap object = some (0,middle))
      (other : (middle.objects object).matlabInternalType ≠ .structClass)
      (selected : selectElement middle object token.variableNameType = some sub) :
      TokenSelected fill heap object token rest sub rest middle

theorem selectToken_exact : selectToken fill heap object token rest = some (0,sub,tokens,after) ↔
    TokenSelected fill heap object token rest sub tokens after := by
  unfold selectToken
  constructor
  · intro ran
    split at ran
    · rename_i type
      obtain ⟨found,search,ran⟩ := Option.bind_eq_some_iff.mp ran
      obtain ⟨⟨code,filled⟩,filling,ran⟩ := Option.bind_eq_some_iff.mp ran
      dsimp only at ran
      split at ran
      · cases ran
      rename_i zero
      obtain rfl : code = 0 := Decidable.not_not.mp zero
      split at ran
      · cases ran
      rename_i single
      cases ran
      exact .name type search filling (by simpa using single)
    · rename_i type
      obtain ⟨⟨code,middle⟩,first,ran⟩ := Option.bind_eq_some_iff.mp ran
      dsimp only at ran
      split at ran
      · cases ran
      rename_i zero
      obtain rfl : code = 0 := Decidable.not_not.mp zero
      split at ran
      · rename_i struct
        split at ran
        · cases ran
        obtain ⟨found,search,ran⟩ := Option.bind_eq_some_iff.mp ran
        obtain ⟨⟨code,filled⟩,filling,ran⟩ := Option.bind_eq_some_iff.mp ran
        dsimp only at ran
        split at ran
        · cases ran
        rename_i zero
        obtain rfl : code = 0 := Decidable.not_not.mp zero
        split at ran
        · rename_i array
          obtain ⟨element,selected,ran⟩ := Option.bind_eq_some_iff.mp ran
          cases ran
          exact .arrayField type first struct rfl search filling array selected
        · rename_i single
          cases ran
          exact .field type first struct rfl search filling (by simpa using single)
      · rename_i other
        obtain ⟨element,selected,ran⟩ := Option.bind_eq_some_iff.mp ran
        cases ran
        exact .element type first other selected
  · intro selected
    cases selected with
    | name type found filled single =>
      rw [type]
      simp only [found,filled,single,Option.bind_eq_bind,Option.bind_some]
      rfl
    | field type first struct next found filled single =>
      subst next
      split
      · rename_i name
        exact absurd name type
      · simp only [first,struct,found,filled,single,Option.bind_eq_bind,Option.bind_some]
        rfl
    | arrayField type first struct next found filled array selected =>
      subst next
      split
      · rename_i name
        exact absurd name type
      · simp only [first,struct,found,filled,array,selected,Option.bind_eq_bind,Option.bind_some]
        rfl
    | element type first other selected =>
      split
      · rename_i name
        exact absurd name type
      · simp only [first,selected,Option.bind_eq_bind,Option.bind_some,ne_eq,not_true,if_false,if_neg other]

theorem fillVariableNames_parts {s next : Session} (ran : fillVariableNames fill fuel (left+1) s = some (0,next)) :
    ∃ obj heap, NextVariable s.heap obj heap ∧
      (((heap.objects obj).shortName.head? = some hash ∧ fillVariableNames fill fuel left {s with heap:=heap} = some (0,next)) ∨
      ((heap.objects obj).shortName.head? ≠ some hash ∧ ∃ middle, fillDataTree fill fuel heap obj = some (0,middle) ∧
        fillVariableNames fill fuel left {s with heap:=middle,topLevelObjects:=enqueue s.topLevelObjects obj} =
          some (0,next))) := by
  rw [fillVariableNames] at ran
  cases taken : dequeue (s.heap.objects virtualSuperObject).subObjects with
  | mk found queue =>
    rw [taken] at ran
    obtain ⟨obj,same,rest⟩ := Option.bind_eq_some_iff.mp ran
    refine ⟨obj,_,⟨queue,same ▸ taken,rfl⟩,?_⟩
    dsimp only at rest
    split at rest
    · rename_i unnamed
      exact .inl ⟨unnamed,rest⟩
    · rename_i named
      obtain ⟨⟨code,middle⟩,tree,later⟩ := Option.bind_eq_some_iff.mp rest
      dsimp only at later
      split at later
      · cases later
      rename_i zero
      obtain rfl : code = 0 := Decidable.not_not.mp zero
      exact .inr ⟨named,middle,tree,later⟩

inductive VariableFilled (fill clone : Heap → Nat → Option (Nat × Heap)) (fuel : Nat) (variableName : Text) (s : Session) :
    Session → Prop where
  | done (closed : s.isDone = true) : VariableFilled fill clone fuel variableName s s
  | everything (open_ : s.isDone = false) (all : variableName = [])
      (names : fillVariableNames fill fuel (s.heap.objects virtualSuperObject).numSubObjs {s with isGettingEverything:=true} =
        some (0,middle)) :
      VariableFilled fill clone fuel variableName s {middle with
        heap:=middle.heap.update virtualSuperObject fun data => {data with subObjects:=restartQueue data.subObjects}
        isDone:=true}
  | selected (open_ : s.isDone = false) (one : variableName ≠ []) (read : makeVarnameQueue variableName = some tokens)
      (some_ : tokens ≠ [])
      (selected : selectObject fill tokens.length s.heap virtualSuperObject tokens = some (0,object,heap))
      (filled : fillDataTree fill fuel heap object = some (0,middle))
      (checked : checkTopLevel middle fuel object s.topLevelObjects.live = some shared)
      (taken : cloneIfShared clone shared middle object = some (copy,after)) :
      VariableFilled fill clone fuel variableName s {s with
        isGettingEverything:=false,heap:=after,topLevelObjects:=enqueue s.topLevelObjects copy}

theorem fillVariable_exact : fillVariable fill clone fuel variableName s = some (0,next) ↔
    VariableFilled fill clone fuel variableName s next := by
  unfold fillVariable
  constructor
  · intro ran
    split at ran
    · rename_i closed
      cases ran
      exact .done closed
    rename_i open_
    split at ran
    · rename_i all
      obtain ⟨⟨code,middle⟩,names,ran⟩ := Option.bind_eq_some_iff.mp ran
      dsimp only at ran
      split at ran
      · cases ran
      rename_i zero
      obtain rfl : code = 0 := Decidable.not_not.mp zero
      cases ran
      exact .everything (by simpa using open_) all names
    · rename_i one
      obtain ⟨tokens,read,ran⟩ := Option.bind_eq_some_iff.mp ran
      split at ran
      · cases ran
      rename_i some_
      obtain ⟨⟨code,object,heap⟩,selected,ran⟩ := Option.bind_eq_some_iff.mp ran
      dsimp only at ran
      split at ran
      · cases ran
      rename_i zero
      obtain rfl : code = 0 := Decidable.not_not.mp zero
      obtain ⟨⟨code,middle⟩,filled,ran⟩ := Option.bind_eq_some_iff.mp ran
      dsimp only at ran
      split at ran
      · cases ran
      rename_i zero
      obtain rfl : code = 0 := Decidable.not_not.mp zero
      obtain ⟨shared,checked,ran⟩ := Option.bind_eq_some_iff.mp ran
      obtain ⟨⟨copy,after⟩,taken,ran⟩ := Option.bind_eq_some_iff.mp ran
      cases ran
      exact .selected (by simpa using open_) one read some_ selected filled checked taken
  · intro filled
    cases filled with
    | done closed => rw [if_pos closed]
    | everything open_ all names =>
      rw [if_neg (by rw [open_]; decide),if_pos all]
      simp only [names,Option.bind_eq_bind,Option.bind_some]
      rfl
    | selected open_ one read some_ selected filled checked taken =>
      rw [if_neg (by rw [open_]; decide),if_neg one]
      simp only [read,Option.bind_eq_bind,Option.bind_some,if_neg some_,selected,ne_eq,not_true,if_false,filled,checked,taken]

end Inversion

-- The call of cloneData that fillVariable makes, for an object that is in one of
-- the trees selected before.
inductive VariableClone (fill : Heap → Nat → Option (Nat × Heap)) (fuel : Nat) (variableName : Text) (s : Session) :
    Heap → Nat → Prop where
  | shared (open_ : s.isDone = false) (one : variableName ≠ []) (read : makeVarnameQueue variableName = some tokens)
      (some_ : tokens ≠ [])
      (selected : selectObject fill tokens.length s.heap virtualSuperObject tokens = some (0,object,heap))
      (filled : fillDataTree fill fuel heap object = some (0,middle))
      (checked : checkTopLevel middle fuel object s.topLevelObjects.live = some true) :
      VariableClone fill fuel variableName s middle object

-- What a property of heaps needs to hold behind every fillVariable whose calls of
-- fillObject and cloneData meet a condition.
structure Keeping (fill clone : Heap → Nat → Option (Nat × Heap)) (fillable clonable : Heap → Nat → Prop)
    (kept : Heap → Prop) : Prop where
  valid : ∀ heap, kept heap → heap.Valid
  listed : ∀ heap, kept heap → ∀ obj ∈ (heap.objects virtualSuperObject).subObjects.nodes, obj < heap.fresh
  fills : ∀ heap object after, kept heap → object < heap.fresh → fillable heap object →
    fill heap object = some (0,after) → kept after ∧ heap.fresh ≤ after.fresh
  clones : ∀ heap object copy after, kept heap → object < heap.fresh → clonable heap object →
    clone heap object = some (copy,after) → kept after
  requeues : ∀ heap queue, kept heap → queue.Tight → (∀ obj ∈ queue.nodes, obj < heap.fresh) →
    kept (heap.update virtualSuperObject fun data => {data with subObjects:=queue})

section Keeping
variable {fill clone : Heap → Nat → Option (Nat × Heap)} {fillable clonable : Heap → Nat → Prop} {kept : Heap → Prop}
  {heap after : Heap}

theorem fillDataTree_keeps (keeping : Keeping fill clone fillable clonable kept) (good : kept heap)
    (made : object < heap.fresh)
    (meets : ∀ called target, TreeCall fill fuel heap object called target → fillable called target)
    (ran : fillDataTree fill fuel heap object = some (0,after)) : kept after ∧ heap.fresh ≤ after.fresh := by
  induction fuel generalizing heap object after with
  | zero => cases ran
  | succ fuel ih =>
    obtain ⟨middle,first,rest⟩ := fillDataTree_exact.mp ran
    obtain ⟨goodMiddle,grows⟩ := keeping.fills heap object middle good made (meets _ _ .own) first
    have closed := (keeping.valid middle goodMiddle).closed object (Nat.lt_of_lt_of_le made grows)
    -- By induction on how many of the trees below are filled.
    have some_ : ∀ k ≤ (middle.objects object).numSubObjs, ∀ before,
        fillSubTrees (fillDataTree fill fuel) k (middle.children object) middle = some (0,before) →
        kept before ∧ middle.fresh ≤ before.fresh := by
      intro k
      induction k with
      | zero =>
        intro _ before done
        cases done
        exact ⟨goodMiddle,Nat.le_refl _⟩
      | succ k deeper =>
        intro few before done
        obtain ⟨earlier,obj,doneEarlier,at_,tree⟩ := fillSubTrees_last done
        obtain ⟨goodEarlier,more⟩ := deeper (by omega) earlier doneEarlier
        have listed := closed obj (List.mem_of_getElem? at_)
        obtain ⟨goodBefore,further⟩ := ih goodEarlier (by omega)
          (fun called target inside => meets called target (.subTree first few doneEarlier at_ inside)) tree
        exact ⟨goodBefore,more.trans further⟩
    obtain ⟨goodAfter,more⟩ := some_ _ (Nat.le_refl _) after rest
    exact ⟨goodAfter,grows.trans more⟩

theorem find_child {heap : Heap} (valid : heap.Valid) (made : object < heap.fresh) {wanted : Nat → Bool}
    (found : (heap.children object).find? wanted = some sub) : sub < heap.fresh :=
  valid.closed object made sub (List.mem_of_find?_eq_some found)

theorem selectElement_made (valid : heap.Valid) (made : object < heap.fresh)
    (selected : selectElement heap object type = some sub) : sub < heap.fresh := by
  unfold selectElement at selected
  split at selected
  · exact find_child valid made selected
  · obtain ⟨index,_,found⟩ := Option.bind_eq_some_iff.mp selected
    exact find_child valid made found
  · cases selected

theorem selectToken_keeps (keeping : Keeping fill clone fillable clonable kept) (good : kept heap)
    (made : object < heap.fresh)
    (meets : ∀ called target, TokenCall fill heap object token rest called target → fillable called target)
    (ran : selectToken fill heap object token rest = some (0,sub,tokens,after)) :
    kept after ∧ sub < after.fresh ∧ heap.fresh ≤ after.fresh := by
  have valid := keeping.valid heap good
  cases selectToken_exact.mp ran with
  | name type found filled _ =>
    have listed := find_child valid made found
    obtain ⟨goodAfter,grows⟩ := keeping.fills heap sub after good listed (meets _ _ (.name type found)) filled
    exact ⟨goodAfter,Nat.lt_of_lt_of_le listed grows,grows⟩
  | @field middle name _ _ _ type first struct next found filled _ =>
    obtain ⟨goodMiddle,grows⟩ := keeping.fills heap object middle good made (meets _ _ (.element type)) first
    have listed := find_child (keeping.valid middle goodMiddle) (Nat.lt_of_lt_of_le made grows) found
    obtain ⟨goodAfter,more⟩ := keeping.fills middle sub after goodMiddle listed
      (meets _ _ (.field type first struct next found)) filled
    exact ⟨goodAfter,Nat.lt_of_lt_of_le listed more,grows.trans more⟩
  | @arrayField middle name _ field _ _ type first struct next found filled _ selected =>
    obtain ⟨goodMiddle,grows⟩ := keeping.fills heap object middle good made (meets _ _ (.element type)) first
    have listed := find_child (keeping.valid middle goodMiddle) (Nat.lt_of_lt_of_le made grows) found
    obtain ⟨goodAfter,more⟩ := keeping.fills middle field after goodMiddle listed
      (meets _ _ (.field type first struct next found)) filled
    have inside := selectElement_made (keeping.valid after goodAfter) (Nat.lt_of_lt_of_le listed more) selected
    exact ⟨goodAfter,inside,grows.trans more⟩
  | element type first _ selected =>
    obtain ⟨goodAfter,grows⟩ := keeping.fills heap object after good made (meets _ _ (.element type)) first
    have inside := selectElement_made (keeping.valid after goodAfter) (Nat.lt_of_lt_of_le made grows) selected
    exact ⟨goodAfter,inside,grows⟩

theorem selectObject_keeps (keeping : Keeping fill clone fillable clonable kept) (good : kept heap)
    (made : object < heap.fresh)
    (meets : ∀ called target, ObjectCall fill fuel heap object tokens called target → fillable called target)
    (ran : selectObject fill fuel heap object tokens = some (0,sub,after)) :
    kept after ∧ sub < after.fresh ∧ heap.fresh ≤ after.fresh := by
  induction fuel generalizing heap object tokens with
  | zero =>
    cases tokens with
    | nil =>
      cases ran
      exact ⟨good,made,Nat.le_refl _⟩
    | cons token rest => cases ran
  | succ fuel ih =>
    cases tokens with
    | nil =>
      cases ran
      exact ⟨good,made,Nat.le_refl _⟩
    | cons token rest =>
      obtain ⟨⟨code,next,left,middle⟩,selected,later⟩ := Option.bind_eq_some_iff.mp ran
      dsimp only at later
      split at later
      · cases later
      · rename_i zero
        obtain rfl : code = 0 := Decidable.not_not.mp zero
        obtain ⟨goodMiddle,listed,grows⟩ := selectToken_keeps keeping good made
          (fun called target here => meets called target (.token here)) selected
        obtain ⟨goodAfter,inside,more⟩ := ih goodMiddle listed
          (fun called target inside => meets called target (.later selected inside)) later
        exact ⟨goodAfter,inside,grows.trans more⟩

theorem fillVariableNames_keeps (keeping : Keeping fill clone fillable clonable kept) {s next : Session} (good : kept s.heap)
    (meets : ∀ called target, NamesCall fill fuel left s called target → fillable called target)
    (ran : fillVariableNames fill fuel left s = some (0,next)) : kept next.heap := by
  induction left generalizing s with
  | zero =>
    cases ran
    exact good
  | succ left ih =>
    have valid := keeping.valid s.heap good
    obtain ⟨obj,heap,step,later⟩ := fillVariableNames_parts ran
    obtain ⟨queue,found,same⟩ := id step
    obtain ⟨head,live,tight⟩ := NodeList.dequeue_exact (valid.tight virtualSuperObject valid.root)
    have nodes := NodeList.dequeue_nodes (s.heap.objects virtualSuperObject).subObjects.toNodeList
    have taken : queue = (dequeue (s.heap.objects virtualSuperObject).subObjects).2 := by rw [found]
    have first : (dequeue (s.heap.objects virtualSuperObject).subObjects).1 = some obj := by rw [found]
    have member : obj ∈ s.heap.children virtualSuperObject := List.mem_of_mem_head? (head.symm.trans first)
    have made : obj < heap.fresh := same ▸ valid.closed virtualSuperObject valid.root obj member
    have goodLeft : kept heap := by
      rw [same,taken]
      exact keeping.requeues s.heap _ good tight fun other member => keeping.listed s.heap good other (nodes ▸ member)
    rcases later with ⟨unnamed,last⟩ | ⟨named,middle,tree,last⟩
    · exact ih goodLeft (fun called target inside => meets called target (.skipped step unnamed inside)) last
    · obtain ⟨goodMiddle,_⟩ := fillDataTree_keeps keeping goodLeft made
        (fun called target inside => meets called target (.tree step named inside)) tree
      refine ih goodMiddle (fun called target inside => ?_) last
      exact meets called target (.filled step named tree inside)

theorem fillVariable_keeps (keeping : Keeping fill clone fillable clonable kept) {s next : Session} (good : kept s.heap)
    (meets : ∀ called target, VariableCall fill fuel variableName s called target → fillable called target)
    (copies : ∀ called target, VariableClone fill fuel variableName s called target → clonable called target)
    (ran : fillVariable fill clone fuel variableName s = some (0,next)) : kept next.heap := by
  have valid := keeping.valid s.heap good
  cases fillVariable_exact.mp ran with
  | done _ => exact good
  | @everything middle open_ all names =>
    have goodMiddle : kept middle.heap := by
      refine fillVariableNames_keeps (s:={s with isGettingEverything:=true}) keeping good (fun called target inside => ?_) names
      exact meets called target (.everything open_ all inside)
    obtain ⟨live,tight⟩ := NodeList.restart_exact (middle.heap.objects virtualSuperObject).subObjects.toNodeList
    exact keeping.requeues middle.heap (restartQueue (middle.heap.objects virtualSuperObject).subObjects) goodMiddle tight
      (keeping.listed middle.heap goodMiddle)
  | @selected tokens object heap middle shared copy after open_ one read some_ selected filled checked taken =>
    obtain ⟨goodHeap,listed,_⟩ := selectObject_keeps keeping good valid.root
      (fun called target inside => meets called target (.selecting open_ one read some_ inside)) selected
    obtain ⟨goodMiddle,grows⟩ := fillDataTree_keeps keeping goodHeap listed
      (fun called target inside => meets called target (.selected open_ one read some_ selected inside)) filled
    unfold cloneIfShared at taken
    split at taken
    · rename_i present
      subst present
      have may := copies middle object (.shared open_ one read some_ selected filled checked)
      exact keeping.clones middle object copy after goodMiddle (Nat.lt_of_lt_of_le listed grows) may taken
    · cases taken
      exact goodMiddle

end Keeping

end GetMatVar
