import GetMatVar.FillCalls
import GetMatVar.FillWalks

namespace GetMatVar
namespace SelectionErrors

-- How a call ends without a result: with an error, by readMXError or by its code,
-- or where the source leaves open what happens.
inductive Ending where
  | reported
  | undefined
deriving DecidableEq,Repr

abbrev Outcome := Except Ending

def found : Option α → Outcome α
  | some value => .ok value
  | none => .error .reported

def defined : Option α → Outcome α
  | some value => .ok value
  | none => .error .undefined

def successful : Option (Nat × α) → Outcome α
  | some (code,value) => if code ≠ 0 then .error .reported else .ok value
  | none => .error .undefined

section Selection
variable (fill : Heap → Nat → Option (Nat × Heap))

-- The selection once more, with its two ways to end without an object.
def selectElement (heap : Heap) (object : Nat) : VariableNameType → Outcome Nat
  | .localIndex index => found (findSubObjectBySCIndex heap object index)
  | .localCoordinates coordinates => do
    let index ← defined (coordToInd coordinates ((heap.objects object).dims.getD []) (heap.objects object).numDims 0 1)
    found (findSubObjectBySCIndex heap object index)
  | .localName => .error .undefined

def selectToken (heap : Heap) (object : Nat) (token : VariableNameToken) (rest : List VariableNameToken) :
    Outcome (Nat × List VariableNameToken × Heap) :=
  match token.variableNameType with
  | .localName => do
    let object ← found (findSubObjectByShortName heap object token.variableLocalName)
    let heap ← successful (fill heap object)
    if (heap.objects object).isStructArray then .error .reported else .ok (object,rest,heap)
  | index => do
    let heap ← successful (fill heap object)
    if (heap.objects object).matlabInternalType = .structClass then
      match rest with
      | [] => .error .reported
      | field::rest => do
        let object ← found (findSubObjectByShortName heap object field.variableLocalName)
        let heap ← successful (fill heap object)
        if (heap.objects object).isStructArray then do
          let object ← selectElement heap object index
          .ok (object,rest,heap)
        else .ok (object,rest,heap)
    else do
      let object ← selectElement heap object index
      .ok (object,rest,heap)

def selectObject : Nat → Heap → Nat → List VariableNameToken → Outcome (Nat × Heap)
  | _,heap,object,[] => .ok (object,heap)
  | 0,_,_,_::_ => .error .undefined
  | fuel+1,heap,object,token::rest => do
    let (object,rest,heap) ← selectToken fill heap object token rest
    selectObject fuel heap object rest

variable (clone : Heap → Nat → Option (Nat × Heap))

def fillVariable (fuel : Nat) (variableName : Text) (s : Session) : Outcome Session :=
  if s.isDone then .ok s
  else if variableName = [] then do
    let s := {s with isGettingEverything:=true}
    let s ← successful (fillVariableNames fill fuel (s.heap.objects virtualSuperObject).numSubObjs s)
    let heap := s.heap.update virtualSuperObject fun data => {data with subObjects:=restartQueue data.subObjects}
    .ok {s with heap:=heap,isDone:=true}
  else do
    let s := {s with isGettingEverything:=false}
    let tokens ← defined (makeVarnameQueue variableName)
    if tokens = [] then .error .undefined
    else do
      let (object,heap) ← selectObject fill tokens.length s.heap virtualSuperObject tokens
      let heap ← successful (fillDataTree fill fuel heap object)
      let shared ← defined (checkTopLevel heap fuel object s.topLevelObjects.live)
      let (object,heap) ← defined (cloneIfShared clone shared heap object)
      .ok {s with heap:=heap,topLevelObjects:=enqueue s.topLevelObjects object}

end Selection

section Erasure
variable {fill clone : Heap → Nat → Option (Nat × Heap)}

theorem found_ok : found ran = .ok value ↔ ran = some value := by cases ran <;> simp [found]

theorem defined_ok : defined ran = .ok value ↔ ran = some value := by cases ran <;> simp [defined]

theorem successful_ok : successful ran = .ok value ↔ ran = some (0,value) := by
  rcases ran with _ | ⟨code,other⟩
  · simp [successful]
  · by_cases zero : code = 0 <;> simp [successful,zero]

theorem bind_ok {first : Outcome α} {next : α → Outcome β} :
    first >>= next = .ok value ↔ ∃ middle, first = .ok middle ∧ next middle = .ok value := by
  cases first <;> simp [bind,Except.bind]

theorem selectElement_ok :
    selectElement heap object type = .ok sub ↔ GetMatVar.selectElement heap object type = some sub := by
  cases type with
  | localName => simp [selectElement,GetMatVar.selectElement]
  | localIndex index => exact found_ok
  | localCoordinates coordinates =>
    simp only [selectElement,GetMatVar.selectElement,bind_ok,defined_ok,found_ok,Option.bind_eq_bind,Option.bind_eq_some_iff]

theorem selectToken_ok : selectToken fill heap object token rest = .ok (sub,tokens,after) ↔
    TokenSelected fill heap object token rest sub tokens after := by
  unfold selectToken
  constructor
  · intro ran
    split at ran
    · rename_i type
      obtain ⟨child,search,ran⟩ := bind_ok.mp ran
      obtain ⟨middle,filling,ran⟩ := bind_ok.mp ran
      split at ran
      · cases ran
      rename_i single
      cases ran
      exact .name type (found_ok.mp search) (successful_ok.mp filling) (by simpa using single)
    · rename_i type
      obtain ⟨middle,first,ran⟩ := bind_ok.mp ran
      have first := successful_ok.mp first
      split at ran
      · rename_i struct
        split at ran
        · cases ran
        obtain ⟨child,search,ran⟩ := bind_ok.mp ran
        obtain ⟨last,filling,ran⟩ := bind_ok.mp ran
        have search := found_ok.mp search
        have filling := successful_ok.mp filling
        split at ran
        · rename_i array
          obtain ⟨element,selected,ran⟩ := bind_ok.mp ran
          cases ran
          exact .arrayField type first struct rfl search filling array (selectElement_ok.mp selected)
        · rename_i single
          cases ran
          exact .field type first struct rfl search filling (by simpa using single)
      · rename_i other
        obtain ⟨element,selected,ran⟩ := bind_ok.mp ran
        cases ran
        exact .element type first other (selectElement_ok.mp selected)
  · intro selected
    cases selected with
    | name type search filled single =>
      rw [type]
      exact bind_ok.mpr ⟨_,found_ok.mpr search,bind_ok.mpr ⟨_,successful_ok.mpr filled,by rw [single]; rfl⟩⟩
    | field type first struct next search filled single =>
      subst next
      split
      · rename_i name
        exact absurd name type
      · refine bind_ok.mpr ⟨_,successful_ok.mpr first,?_⟩
        rw [if_pos struct]
        exact bind_ok.mpr ⟨_,found_ok.mpr search,bind_ok.mpr ⟨_,successful_ok.mpr filled,by rw [single]; rfl⟩⟩
    | arrayField type first struct next search filled array selected =>
      subst next
      split
      · rename_i name
        exact absurd name type
      · refine bind_ok.mpr ⟨_,successful_ok.mpr first,?_⟩
        rw [if_pos struct]
        refine bind_ok.mpr ⟨_,found_ok.mpr search,bind_ok.mpr ⟨_,successful_ok.mpr filled,?_⟩⟩
        rw [if_pos array]
        exact bind_ok.mpr ⟨_,selectElement_ok.mpr selected,rfl⟩
    | element type first other selected =>
      split
      · rename_i name
        exact absurd name type
      · refine bind_ok.mpr ⟨_,successful_ok.mpr first,?_⟩
        rw [if_neg other]
        exact bind_ok.mpr ⟨_,selectElement_ok.mpr selected,rfl⟩

theorem selectObject_ok : selectObject fill fuel heap object tokens = .ok (sub,after) ↔
    GetMatVar.selectObject fill fuel heap object tokens = some (0,sub,after) := by
  induction fuel generalizing heap object tokens with
  | zero => cases tokens <;> simp [selectObject,GetMatVar.selectObject]
  | succ fuel ih =>
    cases tokens with
    | nil => simp [selectObject,GetMatVar.selectObject]
    | cons token rest =>
      rw [selectObject,GetMatVar.selectObject,bind_ok,Option.bind_eq_bind,Option.bind_eq_some_iff]
      constructor
      · rintro ⟨⟨next,left,middle⟩,selected,later⟩
        exact ⟨⟨0,next,left,middle⟩,selectToken_exact.mpr (selectToken_ok.mp selected),
          (if_neg (not_not.mpr rfl)).trans (ih.mp later)⟩
      · rintro ⟨⟨code,next,left,middle⟩,selected,later⟩
        dsimp only at later
        split at later
        · cases later
        · rename_i zero
          obtain rfl : code = 0 := Decidable.not_not.mp zero
          exact ⟨⟨next,left,middle⟩,selectToken_ok.mpr (selectToken_exact.mp selected),ih.mpr later⟩

theorem fillVariable_ok : fillVariable fill clone fuel variableName s = .ok next ↔
    GetMatVar.fillVariable fill clone fuel variableName s = some (0,next) := by
  rw [fillVariable_exact]
  unfold fillVariable
  constructor
  · intro ran
    split at ran
    · rename_i closed
      cases ran
      exact .done closed
    rename_i open_
    split at ran
    · rename_i all
      obtain ⟨middle,names,ran⟩ := bind_ok.mp ran
      cases ran
      exact .everything (by simpa using open_) all (successful_ok.mp names)
    · rename_i one
      obtain ⟨tokens,read,ran⟩ := bind_ok.mp ran
      split at ran
      · cases ran
      rename_i some_
      obtain ⟨⟨object,heap⟩,selected,ran⟩ := bind_ok.mp ran
      obtain ⟨middle,filled,ran⟩ := bind_ok.mp ran
      obtain ⟨shared,checked,ran⟩ := bind_ok.mp ran
      obtain ⟨⟨copy,after⟩,taken,ran⟩ := bind_ok.mp ran
      cases ran
      exact .selected (by simpa using open_) one (defined_ok.mp read) some_ (selectObject_ok.mp selected)
        (successful_ok.mp filled) (defined_ok.mp checked) (defined_ok.mp taken)
  · intro filled
    cases filled with
    | done closed => rw [if_pos closed]
    | everything open_ all names =>
      rw [if_neg (by rw [open_]; decide),if_pos all]
      exact bind_ok.mpr ⟨_,successful_ok.mpr names,rfl⟩
    | selected open_ one read some_ selected filled checked taken =>
      rw [if_neg (by rw [open_]; decide),if_neg one]
      refine bind_ok.mpr ⟨_,defined_ok.mpr read,?_⟩
      rw [if_neg some_]
      refine bind_ok.mpr ⟨_,selectObject_ok.mpr selected,bind_ok.mpr ⟨_,successful_ok.mpr filled,?_⟩⟩
      exact bind_ok.mpr ⟨_,defined_ok.mpr checked,bind_ok.mpr ⟨_,defined_ok.mpr taken,rfl⟩⟩

end Erasure

section Paths

abbrev Selects (token : VariableNameToken) : Prop := token.variableNameType ≠ .localName

abbrev IsStruct (heap : Heap) (object : Nat) : Prop := (heap.objects object).matlabInternalType = .structClass

variable (heap : Heap)

def number (object : Nat) : VariableNameType → Option Int
  | .localIndex index => some index
  | .localCoordinates coordinates =>
    coordToInd coordinates ((heap.objects object).dims.getD []) (heap.objects object).numDims 0 1
  | .localName => none

-- Where one round of the selection comes to, if everything is filled.
inductive Follows (object : Nat) : List VariableNameToken → Nat → List VariableNameToken → Prop where
  | name (type : token.variableNameType = .localName)
      (child : findSubObjectByShortName heap object token.variableLocalName = some sub)
      (single : (heap.objects sub).isStructArray = false) : Follows object (token::rest) sub rest
  | scalarField (selector : Selects token) (struct : IsStruct heap object)
      (child : findSubObjectByShortName heap object field.variableLocalName = some sub)
      (single : (heap.objects sub).isStructArray = false) : Follows object (token::field::rest) sub rest
  | arrayField (selector : Selects token) (struct : IsStruct heap object)
      (child : findSubObjectByShortName heap object field.variableLocalName = some sub)
      (array : (heap.objects sub).isStructArray = true) (numbered : number heap sub token.variableNameType = some index)
      (element : findSubObjectBySCIndex heap sub index = some target) : Follows object (token::field::rest) target rest
  | element (selector : Selects token) (other : ¬IsStruct heap object)
      (numbered : number heap object token.variableNameType = some index)
      (element : findSubObjectBySCIndex heap object index = some sub) : Follows object (token::rest) sub rest

inductive Refused (object : Nat) : List VariableNameToken → Prop where
  | name (type : token.variableNameType = .localName)
      (missing : findSubObjectByShortName heap object token.variableLocalName = none) : Refused object (token::rest)
  | wholeArray (type : token.variableNameType = .localName)
      (child : findSubObjectByShortName heap object token.variableLocalName = some sub)
      (array : (heap.objects sub).isStructArray = true) : Refused object (token::rest)
  | wholeStruct (selector : Selects token) (struct : IsStruct heap object) :
      Refused object [token]
  | field (selector : Selects token) (struct : IsStruct heap object)
      (missing : findSubObjectByShortName heap object field.variableLocalName = none) : Refused object (token::field::rest)
  | arrayField (selector : Selects token) (struct : IsStruct heap object)
      (child : findSubObjectByShortName heap object field.variableLocalName = some sub)
      (array : (heap.objects sub).isStructArray = true) (numbered : number heap sub token.variableNameType = some index)
      (missing : findSubObjectBySCIndex heap sub index = none) : Refused object (token::field::rest)
  | element (selector : Selects token) (other : ¬IsStruct heap object)
      (numbered : number heap object token.variableNameType = some index)
      (missing : findSubObjectBySCIndex heap object index = none) : Refused object (token::rest)

inductive Misses : Nat → List VariableNameToken → Prop where
  | here (refused : Refused heap object tokens) : Misses object tokens
  | later (follows : Follows heap object tokens sub rest) (misses : Misses sub rest) : Misses object tokens

def shape (object : Nat) : List Int := ((heap.objects object).dims.getD []).take (heap.objects object).numDims

-- The dimensions of what a selector behind object indexes: a struct is one by one
-- unless its fields are arrays.
inductive Indexes (object : Nat) : List Int → Prop where
  | element (other : ¬IsStruct heap object) : Indexes object (shape heap object)
  | scalar (struct : IsStruct heap object)
      (single : ∀ field ∈ heap.children object, (heap.objects field).isStructArray = false) : Indexes object [1,1]
  | array (struct : IsStruct heap object) (field : sub ∈ heap.children object)
      (array : (heap.objects sub).isStructArray = true) : Indexes object (shape heap sub)

-- Whether a selector lies in an array of these dimensions, by the numbers of its text,
-- which an index_t may not hold.
def Lies (dims : List Int) (token : VariableNameToken) : Prop :=
  match token.variableNameType with
  | .localIndex _ => 1 ≤ decimalValue token.variableLocalName 0 ∧ decimalValue token.variableLocalName 0 ≤ dims.prod
  | .localCoordinates _ =>
    List.Forall₂ (fun number dim => 1 ≤ decimalValue number 0 ∧ decimalValue number 0 ≤ dim)
      (strtok (· == comma) token.variableLocalName) dims
  | .localName => True

inductive OutOfRange : Nat → List VariableNameToken → Prop where
  | here (indexes : Indexes heap object dims) (outside : ¬Lies dims token) :
    OutOfRange object (token::rest)
  | later (follows : Follows heap object tokens sub rest) (outOfRange : OutOfRange sub rest) : OutOfRange object tokens

-- An access path starts with the name of a variable.
structure SelectsOutside (tokens : List VariableNameToken) : Prop where
  variableName : ∀ token ∈ tokens.head?, token.variableNameType = .localName
  outOfRange : OutOfRange heap virtualSuperObject tokens

-- Everything but virtual_super_object itself.
def FilledHierarchy : Prop :=
  ∀ object child, heap.Below virtualSuperObject object → child ∈ heap.children object →
    (heap.objects child).isFilled = true

end Paths

section Filled
variable {fill : Heap → Nat → Option (Nat × Heap)} {heap : Heap}

-- fillObject has nothing left to do on what is below object.
def SteadyBelow (fill : Heap → Nat → Option (Nat × Heap)) (heap : Heap) (object : Nat) : Prop :=
  ∀ parent child, heap.Below object parent → child ∈ heap.children parent → fill heap child = some (0,heap)

-- Nor on object itself, unless a name is looked up first.
def StartsSteady (fill : Heap → Nat → Option (Nat × Heap)) (heap : Heap) (object : Nat)
    (tokens : List VariableNameToken) : Prop :=
  (∀ token ∈ tokens.head?, token.variableNameType = .localName) ∨ fill heap object = some (0,heap)

theorem fillAt_again (filled : (heap.objects object).isFilled = true) :
    fillAt file chunked depth heap object = some (0,heap) := by
  unfold fillAt fillObject
  rw [if_pos filled]

theorem child_listed (child : findSubObjectByShortName heap object name = some sub) : sub ∈ heap.children object :=
  List.mem_of_find?_eq_some child

theorem element_listed (element : findSubObjectBySCIndex heap object index = some sub) : sub ∈ heap.children object :=
  List.mem_of_find?_eq_some element

theorem follows_below (follows : Follows heap object tokens sub rest) :
    Relation.TransGen (fun parent child => child ∈ heap.children parent) object sub := by
  cases follows with
  | name _ child _ => exact .single (child_listed child)
  | scalarField _ _ child _ => exact .single (child_listed child)
  | arrayField _ _ child _ _ element => exact .tail (.single (child_listed child)) (element_listed element)
  | element _ _ _ element => exact .single (element_listed element)

theorem follows_shorter (follows : Follows heap object (token::rest) sub left) : left.length ≤ rest.length := by
  cases follows with
  | name _ _ _ => exact Nat.le_refl _
  | scalarField _ _ _ _ => exact Nat.le_succ _
  | arrayField _ _ _ _ _ _ => exact Nat.le_succ _
  | element _ _ _ _ => exact Nat.le_refl _

theorem bind_reported {first : Outcome α} {next : α → Outcome β} : first >>= next = .error .reported ↔
    first = .error .reported ∨ ∃ middle, first = .ok middle ∧ next middle = .error .reported := by
  cases first <;> simp [bind,Except.bind]

theorem found_reported {ran : Option α} : found ran = .error .reported ↔ ran = none := by cases ran <;> simp [found]

theorem defined_reported {ran : Option α} : defined ran ≠ .error .reported := by cases ran <;> simp [defined]

theorem successful_reported {ran : Option (Nat × α)} : successful ran = .error .reported ↔
    ∃ code value, ran = some (code,value) ∧ code ≠ 0 := by
  rcases ran with _ | ⟨code,value⟩
  · simp [successful]
  · by_cases zero : code = 0 <;> simp [successful,zero]

theorem steady (filled : fill heap object = some (0,heap)) : successful (fill heap object) = .ok heap := by
  rw [filled]
  rfl

theorem selectElement_exact (type : VariableNameType) : selectElement heap object type =
    defined (number heap object type) >>= fun index => found (findSubObjectBySCIndex heap object index) := by
  cases type <;> rfl

theorem selectElement_reported : selectElement heap object type = .error .reported ↔
    ∃ index, number heap object type = some index ∧ findSubObjectBySCIndex heap object index = none := by
  rw [selectElement_exact,bind_reported]
  constructor
  · rintro (undefined | ⟨index,numbered,missing⟩)
    · exact absurd undefined defined_reported
    · exact ⟨index,defined_ok.mp numbered,found_reported.mp missing⟩
  · rintro ⟨index,numbered,missing⟩
    exact .inr ⟨index,defined_ok.mpr numbered,found_reported.mpr missing⟩

theorem selectElement_number : GetMatVar.selectElement heap object type = some sub ↔
    ∃ index, number heap object type = some index ∧ findSubObjectBySCIndex heap object index = some sub := by
  rw [← selectElement_ok,selectElement_exact,bind_ok]
  simp only [defined_ok,found_ok]

variable {object : Nat} {token : VariableNameToken} {rest : List VariableNameToken}
  (starts : StartsSteady fill heap object (token::rest)) (steadyBelow : SteadyBelow fill heap object)
include starts steadyBelow

-- On what is filled a round goes where Follows says, and leaves the heap as it is.
theorem selectToken_follows : selectToken fill heap object token rest = .ok (sub,tokens,after) ↔
    after = heap ∧ Follows heap object (token::rest) sub tokens := by
  have own := starts.imp_left fun named => named token rfl
  have below := fun sub listed => steadyBelow object sub .refl listed
  rw [selectToken_ok]
  constructor
  · intro selected
    have first : Selects token → ∀ {middle}, fill heap object = some (0,middle) → middle = heap := by
      intro type middle filled
      have same := filled.symm.trans (own.resolve_left type)
      cases same
      rfl
    have later : ∀ {sub}, sub ∈ heap.children object → fill heap sub = some (0,after) → after = heap := by
      intro sub listed filled
      have same := filled.symm.trans (below sub listed)
      cases same
      rfl
    cases selected with
    | name type child filled single =>
      obtain rfl := later (child_listed child) filled
      exact ⟨rfl,.name type child single⟩
    | field type opened struct next child filled single =>
      obtain rfl := first type opened
      obtain rfl := later (child_listed child) filled
      subst next
      exact ⟨rfl,.scalarField type struct child single⟩
    | arrayField type opened struct next child filled array selected =>
      obtain rfl := first type opened
      obtain rfl := later (child_listed child) filled
      subst next
      obtain ⟨index,numbered,element⟩ := selectElement_number.mp selected
      exact ⟨rfl,.arrayField type struct child array numbered element⟩
    | element type opened other selected =>
      obtain rfl := first type opened
      obtain ⟨index,numbered,element⟩ := selectElement_number.mp selected
      exact ⟨rfl,.element type other numbered element⟩
  · rintro ⟨rfl,follows⟩
    cases follows with
    | name type child single => exact .name type child (below _ (child_listed child)) single
    | scalarField type struct child single =>
      exact .field type (own.resolve_left type) struct rfl child (below _ (child_listed child)) single
    | arrayField type struct child array numbered element =>
      exact .arrayField type (own.resolve_left type) struct rfl child (below _ (child_listed child)) array
        (selectElement_number.mpr ⟨_,numbered,element⟩)
    | element type other numbered element =>
      exact .element type (own.resolve_left type) other (selectElement_number.mpr ⟨_,numbered,element⟩)

theorem selectToken_refused :
    selectToken fill heap object token rest = .error .reported ↔ Refused heap object (token::rest) := by
  have own := starts.imp_left fun named => named token rfl
  have opened : ∀ {sub}, sub ∈ heap.children object → successful (fill heap sub) = .ok heap :=
    fun listed => steady (steadyBelow object _ .refl listed)
  unfold selectToken
  constructor
  · intro ran
    split at ran
    · rename_i type
      rcases bind_reported.mp ran with missing | ⟨child,search,ran⟩
      · exact .name type (found_reported.mp missing)
      have search := found_ok.mp search
      rw [opened (child_listed search)] at ran
      by_cases array : (heap.objects child).isStructArray = true
      · exact .wholeArray type search array
      · exact absurd ((if_neg array).symm.trans ran) (by simp)
    · rename_i type
      rw [steady (own.resolve_left type)] at ran
      change (if _ then _ else _) = _ at ran
      split at ran
      · rename_i struct
        split at ran
        · exact .wholeStruct type struct
        rcases bind_reported.mp ran with missing | ⟨child,search,ran⟩
        · exact .field type struct (found_reported.mp missing)
        have search := found_ok.mp search
        rw [opened (child_listed search)] at ran
        change (if _ then _ else _) = _ at ran
        split at ran
        · rename_i array
          rcases bind_reported.mp ran with missing | ⟨element,_,ran⟩
          · obtain ⟨index,numbered,missing⟩ := selectElement_reported.mp missing
            exact .arrayField type struct search array numbered missing
          · cases ran
        · cases ran
      · rename_i other
        rcases bind_reported.mp ran with missing | ⟨element,_,ran⟩
        · obtain ⟨index,numbered,missing⟩ := selectElement_reported.mp missing
          exact .element type other numbered missing
        · cases ran
  · intro refused
    cases refused with
    | name type missing =>
      rw [type]
      exact bind_reported.mpr (.inl (found_reported.mpr missing))
    | wholeArray type child array =>
      rw [type]
      refine bind_reported.mpr (.inr ⟨_,found_ok.mpr child,?_⟩)
      rw [opened (child_listed child)]
      exact if_pos array
    | wholeStruct type struct =>
      split
      · rename_i name
        exact absurd name type
      · rw [steady (own.resolve_left type)]
        exact if_pos struct
    | field type struct missing =>
      split
      · rename_i name
        exact absurd name type
      · rw [steady (own.resolve_left type)]
        exact (if_pos struct).trans (bind_reported.mpr (.inl (found_reported.mpr missing)))
    | arrayField type struct child array numbered missing =>
      split
      · rename_i name
        exact absurd name type
      · rw [steady (own.resolve_left type)]
        refine (if_pos struct).trans (bind_reported.mpr (.inr ⟨_,found_ok.mpr child,?_⟩))
        rw [opened (child_listed child)]
        exact (if_pos array).trans (bind_reported.mpr (.inl (selectElement_reported.mpr ⟨_,numbered,missing⟩)))
    | element type other numbered missing =>
      split
      · rename_i name
        exact absurd name type
      · rw [steady (own.resolve_left type)]
        exact (if_neg other).trans (bind_reported.mpr (.inl (selectElement_reported.mpr ⟨_,numbered,missing⟩)))

end Filled

section Runs
variable {fill : Heap → Nat → Option (Nat × Heap)} {heap : Heap}

theorem SteadyBelow.child (steadyBelow : SteadyBelow fill heap object)
    (down : Relation.TransGen (fun parent child => child ∈ heap.children parent) object sub) :
    fill heap sub = some (0,heap) := by
  obtain ⟨parent,above,listed⟩ := Relation.TransGen.tail'_iff.mp down
  exact steadyBelow parent sub above listed

theorem SteadyBelow.deeper (steadyBelow : SteadyBelow fill heap object) (down : heap.Below object sub) :
    SteadyBelow fill heap sub := fun parent child above listed => steadyBelow parent child (down.trans above) listed

theorem selectObject_reported (starts : StartsSteady fill heap object tokens) (steadyBelow : SteadyBelow fill heap object)
    (enough : tokens.length ≤ fuel) :
    selectObject fill fuel heap object tokens = .error .reported ↔ Misses heap object tokens := by
  induction fuel generalizing object tokens with
  | zero =>
    obtain rfl := List.eq_nil_of_length_eq_zero (Nat.le_zero.mp enough)
    constructor
    · intro ran
      cases ran
    · intro misses
      cases misses with
      | here refused => cases refused
      | later follows _ => cases follows
  | succ fuel ih =>
    cases tokens with
    | nil =>
      constructor
      · intro ran
        cases ran
      · intro misses
        cases misses with
        | here refused => cases refused
        | later follows _ => cases follows
    | cons token rest =>
      have deeper : ∀ {sub tokens}, Follows heap object (token::rest) sub tokens →
          (selectObject fill fuel heap sub tokens = .error .reported ↔ Misses heap sub tokens) := by
        intro sub tokens follows
        have down := follows_below follows
        have shorter := (follows_shorter follows).trans (Nat.le_of_succ_le_succ enough)
        exact ih (.inr (steadyBelow.child down)) (steadyBelow.deeper down.to_reflTransGen) shorter
      rw [selectObject,bind_reported]
      constructor
      · rintro (refused | ⟨⟨sub,tokens,after⟩,selected,later⟩)
        · exact .here ((selectToken_refused starts steadyBelow).mp refused)
        · obtain ⟨rfl,follows⟩ := (selectToken_follows starts steadyBelow).mp selected
          exact .later follows ((deeper follows).mp later)
      · intro misses
        cases misses with
        | here refused => exact .inl ((selectToken_refused starts steadyBelow).mpr refused)
        | later follows misses =>
          have selected := (selectToken_follows starts steadyBelow).mpr ⟨rfl,follows⟩
          exact .inr ⟨⟨_,_,heap⟩,selected,(deeper follows).mpr misses⟩

theorem selectObject_below (starts : StartsSteady fill heap object tokens) (steadyBelow : SteadyBelow fill heap object)
    (ran : selectObject fill fuel heap object tokens = .ok (sub,after)) : after = heap ∧ heap.Below object sub ∧
      (tokens ≠ [] → Relation.TransGen (fun parent child => child ∈ heap.children parent) object sub) := by
  induction fuel generalizing object tokens with
  | zero =>
    cases tokens with
    | nil =>
      cases ran
      exact ⟨rfl,.refl,fun some_ => absurd rfl some_⟩
    | cons token rest => cases ran
  | succ fuel ih =>
    cases tokens with
    | nil =>
      cases ran
      exact ⟨rfl,.refl,fun some_ => absurd rfl some_⟩
    | cons token rest =>
      obtain ⟨⟨next,left,middle⟩,selected,later⟩ := bind_ok.mp ran
      obtain ⟨rfl,follows⟩ := (selectToken_follows starts steadyBelow).mp selected
      have down := follows_below follows
      obtain ⟨same,below,_⟩ := ih (.inr (steadyBelow.child down)) (steadyBelow.deeper down.to_reflTransGen) later
      exact ⟨same,down.to_reflTransGen.trans below,fun _ => down.trans_left below⟩

theorem fillDataTree_steady (own : fill heap object = some (0,heap)) (steadyBelow : SteadyBelow fill heap object)
    (ran : fillDataTree fill fuel heap object = some result) : result = (0,heap) := by
  induction fuel generalizing object result with
  | zero => cases ran
  | succ fuel ih =>
    rw [fillDataTree,own] at ran
    refine FillWalks.fillSubTrees_still (fun obj taken result ran => ?_) ran
    have listed := List.mem_of_mem_take taken
    exact ih (steadyBelow object obj .refl listed) (steadyBelow.deeper (.single listed)) ran

-- On a filled hierarchy a path with a selector that lies outside its array ends
-- with an error exactly if nothing was requested by the empty name before, and one
-- of its components is missed: a selector on a struct that is one by one is not
-- looked at, and coordinates are looked up by the number that they are folded to,
-- with all numbers as index_t keeps them.
theorem outside_reported {s : Session} (filled : FilledHierarchy s.heap) (read : makeVarnameQueue variableName = some tokens)
    (outside : SelectsOutside s.heap tokens) :
    fillVariable (fillAt file chunked depth) (cloneData fuel) fuel variableName s = .error .reported ↔
      s.isDone = false ∧ Misses s.heap virtualSuperObject tokens := by
  have some_ : tokens ≠ [] := by
    rintro rfl
    cases outside.outOfRange with
    | later follows _ => cases follows
  have one : variableName ≠ [] := by
    rintro rfl
    exact some_ (by simpa [makeVarnameQueue,strtok] using read.symm)
  have steadyBelow : SteadyBelow (fillAt file chunked depth) s.heap virtualSuperObject :=
    fun parent child below listed => fillAt_again (filled parent child below listed)
  have selection := selectObject_reported (.inl outside.variableName) steadyBelow (Nat.le_refl tokens.length)
  unfold fillVariable
  cases closed : s.isDone with
  | true => simp
  | false =>
    rw [if_neg (by decide),if_neg one,bind_reported,← selection]
    constructor
    · rintro (undefined | ⟨_,same,ran⟩)
      · exact absurd undefined defined_reported
      obtain rfl := Option.some.inj (read.symm.trans (defined_ok.mp same))
      rw [if_neg some_] at ran
      refine ⟨rfl,?_⟩
      rcases bind_reported.mp ran with missed | ⟨⟨object,after⟩,selected,ran⟩
      · exact missed
      obtain ⟨rfl,below,down⟩ := selectObject_below (.inl outside.variableName) steadyBelow selected
      have whole : ∀ result, fillDataTree (fillAt file chunked depth) fuel s.heap object = some result →
          result = (0,s.heap) := fun _ => fillDataTree_steady (steadyBelow.child (down some_)) (steadyBelow.deeper below)
      rcases bind_reported.mp ran with failed | ⟨middle,_,ran⟩
      · obtain ⟨code,value,ran,wrong⟩ := successful_reported.mp failed
        cases whole _ ran
        exact absurd rfl wrong
      rcases bind_reported.mp ran with undefined | ⟨shared,_,ran⟩
      · exact absurd undefined defined_reported
      rcases bind_reported.mp ran with undefined | ⟨taken,_,ran⟩
      · exact absurd undefined defined_reported
      · cases ran
    · rintro ⟨_,missed⟩
      refine .inr ⟨tokens,defined_ok.mpr read,?_⟩
      rw [if_neg some_]
      exact bind_reported.mpr (.inl missed)

end Runs

theorem decimalValue_nonneg {chars : Text} (numeric : ∀ char ∈ chars, isDigit char = true) (low : 0 ≤ before) :
    0 ≤ decimalValue chars before := by
  induction chars generalizing before with
  | nil => exact low
  | cons char chars ih =>
    have digit := numeric char List.mem_cons_self
    simp only [isDigit,Bool.and_eq_true,decide_eq_true_eq,UInt8.le_iff_toNat_le] at digit
    have value : 48 ≤ charValue char := by
      have low : 48 ≤ char.toNat := digit.1
      have high : char.toNat ≤ 57 := digit.2
      rw [charValue,if_pos (by omega)]
      exact Int.ofNat_le.mpr low
    unfold decimalValue at ih ⊢
    rw [List.foldl_cons]
    exact ih (fun other member => numeric other (List.mem_cons_of_mem _ member)) (by omega)

theorem index_kept (made : makeToken text = some ⟨.localIndex index,name⟩) (fits : decimalValue text 0 < 2^63) :
    name = text ∧ index = decimalValue text 0-1 := by
  unfold makeToken at made
  split at made
  · rename_i numeric
    split at made
    · have low : 0 ≤ decimalValue text 0 := decimalValue_nonneg (by simpa using numeric) (Int.le_refl 0)
      cases made
      refine ⟨rfl,?_⟩
      rw [readDigits_decimal,wrapIndex_small (by omega) fits,wrapIndex_small (by omega) (by omega)]
    · cases made
  · split at made
    · cases made
    split at made
    · obtain ⟨coordinates,_,same⟩ := Option.bind_eq_some_iff.mp made
      cases same
    · cases made

-- 2^64+1 is taken for 1.
example : makeToken (textOf "18446744073709551617") = some ⟨.localIndex 0,textOf "18446744073709551617"⟩ := by decide +kernel

theorem index_missing {heap : Heap} (numbered : ∀ element ∈ heap.children object,
      0 ≤ (heap.objects element).sCArrayIndex ∧ (heap.objects element).sCArrayIndex < dims.prod)
    (made : makeToken text = some ⟨.localIndex index,name⟩) (fits : decimalValue text 0 < 2^63)
    (outside : ¬Lies dims ⟨.localIndex index,name⟩) : findSubObjectBySCIndex heap object index = none := by
  obtain ⟨rfl,kept⟩ := index_kept made fits
  apply List.find?_eq_none.mpr
  intro element listed same
  obtain ⟨low,high⟩ := numbered element listed
  rw [eq_of_beq same,kept] at low high
  have inside : 1 ≤ decimalValue name 0 ∧ decimalValue name 0 ≤ dims.prod := ⟨by omega,by omega⟩
  exact outside inside

-- The variable c, a cell with two rows and two columns, is object 1, with its
-- elements behind it.
def squareHeap : Heap where
  objects
    | 0 => {initializeObject with subObjects:=enqueue initQueue 1,numSubObjs:=1}
    | 1 => {initializeObject with
      matlabInternalType:=.cellClass,numDims:=2,dims:=some [2,2,0],numElems:=4,shortName:=textOf "c",isFilled:=true,
      subObjects:=[2,3,4,5].foldl enqueue initQueue,numSubObjs:=4}
    | index+2 => {initializeObject with
      matlabInternalType:=.doubleClass,numDims:=2,dims:=some [1,1,0],numElems:=1,sCArrayIndex:=index,isFilled:=true}
  fresh := 6
  objectQueue := [0,1,2,3,4,5].foldl enqueue initQueue

def squareSession : Session := ⟨squareHeap,initQueue,false,false⟩

theorem square_filled : FilledHierarchy squareHeap := by
  intro object child _ listed
  match object with
  | 0 =>
    obtain rfl : child = 1 := List.mem_singleton.mp listed
    rfl
  | 1 =>
    have element : child ∈ [2,3,4,5] := listed
    revert child
    decide
  | index+2 => cases listed

def squareTokens (type : VariableNameType) (text : Text) : List VariableNameToken :=
  [⟨.localName,textOf "c"⟩,⟨type,text⟩]

theorem square_follows (type : VariableNameType) (text : Text) :
    Follows squareHeap virtualSuperObject (squareTokens type text) 1 [⟨type,text⟩] := .name rfl (by decide) rfl

theorem square_outside (outside : ¬Lies [2,2] ⟨type,text⟩) : SelectsOutside squareHeap (squareTokens type text) := by
  refine ⟨fun token member => ?_,.later (square_follows type text) (.here (.element (by decide)) outside)⟩
  cases member
  rfl

-- c{9}
theorem outside_reported_index :
    fillVariable (fillAt smallFile (fun _ => none) 3) (cloneData 3) 3 [99,123,57,125] squareSession = .error .reported := by
  have made : makeToken [57] = some ⟨.localIndex 8,[57]⟩ := by decide
  have outside : ¬Lies [2,2] ⟨.localIndex 8,[57]⟩ := fun lies => absurd lies.2 (by decide)
  have numbered : ∀ element ∈ squareHeap.children 1, 0 ≤ (squareHeap.objects element).sCArrayIndex ∧
      (squareHeap.objects element).sCArrayIndex < [2,2].prod := by
    intro element listed
    have four : element ∈ [2,3,4,5] := listed
    revert element
    decide
  have selects : SelectsOutside squareHeap (squareTokens (.localIndex 8) [57]) := square_outside outside
  refine (outside_reported square_filled (by decide) selects).mpr ⟨rfl,.later (square_follows _ _) (.here ?_)⟩
  exact .element (by decide) (by decide) rfl (index_missing numbered made (by decide) outside)

-- c{3,1} is taken for c{1,2}.
theorem coordinate_aliased : ¬ ∀ (file : MatFile) (chunked : MetaData → Option (Nat × DataArrays)) (depth fuel : Nat)
    (variableName : Text) (tokens : List VariableNameToken) (s : Session), FilledHierarchy s.heap →
    makeVarnameQueue variableName = some tokens → SelectsOutside s.heap tokens →
    fillVariable (fillAt file chunked depth) (cloneData fuel) fuel variableName s = .error .reported := by
  intro always
  have outside : ¬Lies [2,2] ⟨.localCoordinates [3,1],[51,44,49]⟩ := by
    intro lies
    have numbers : strtok (· == comma) [51,44,49] = [[51],[49]] := by decide
    simp only [Lies,numbers] at lies
    cases lies with
    | cons first _ => exact absurd first.2 (by decide)
  have reported := always smallFile (fun _ => none) 3 3 [99,123,51,44,49,125]
    (squareTokens (.localCoordinates [3,1]) [51,44,49]) squareSession square_filled (by decide) (square_outside outside)
  have selected : (fillVariable (fillAt smallFile (fun _ => none) 3) (cloneData 3) 3 [99,123,51,44,49,125]
      squareSession).isOk = true := by decide
  rw [reported] at selected
  cases selected

end SelectionErrors
end GetMatVar
