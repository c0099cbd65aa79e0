import GetMatVar.FillCalls
import GetMatVar.Library.Logged
import GetMatVar.VarnameQueue

namespace GetMatVar
namespace VarnameAccesses
open VarnameQueue Logged

-- A dequeue whose result is used, and the slots of variable_local_coordinates that are
-- written and read.
inductive Access where
  | dequeued (found : Bool)
  | written (slot : Nat)
  | read (slot : Nat) (defined : Bool)
deriving DecidableEq,Repr

def Access.Safe : Access → Prop
  | .dequeued found => found = true
  | .written slot => slot < hdf5MaxDims
  | .read _ defined => defined = true

-- A slot behind the last one ends what is known of the run; a loop that does not end ends it as well.
def parseNumbersAccesses : Nat → List Text → Logged Access (List Int)
  | _,[] => pure []
  | i,number::rest => do
    tell (.written i)
    if hdf5MaxDims ≤ i ∨ maxTokenLength < number.length then stop
    else do
      let coordinates ← parseNumbersAccesses (i+1) rest
      pure (readDigits number 0::coordinates)

instance (token : Text) : Decidable (IsCoordinates token) := inferInstanceAs (Decidable (_ = _))

def parseTokenAccesses (token : Text) : Logged Access VariableNameToken :=
  if IsCoordinates token then do
    let coordinates ← parseNumbersAccesses 0 (numbersOf token)
    pure ⟨.localCoordinates coordinates,token⟩
  else lift (makeToken token)

def parseTokensAccesses : List Text → Logged Access (List VariableNameToken)
  | [] => pure []
  | token::rest => do
    let vnt ← parseTokenAccesses token
    let later ← parseTokensAccesses rest
    pure (vnt::later)

-- All tokens are classified before the first one is parsed.
def makeVarnameQueueAccesses (variableName : Text) : Logged Access (List VariableNameToken) :=
  if ∀ token ∈ tokensOf variableName, leadingDigits token ≤ maxTokenLength then parseTokensAccesses (tokensOf variableName)
  else stop

def coordToIndAccesses (coords : List Int) : List Int → Nat → Nat → Int → Int → Logged Access Int
  | _,0,_,ret,_ => pure ret
  | dims,numDims+1,slot,ret,mult => do
    tell (.read slot (slot < coords.length))
    let coord ← lift coords[slot]?
    coordToIndAccesses coords dims.tail numDims (slot+1) (wrapIndex (ret+(coord-1)*mult)) (wrapIndex (mult*dims.headD 0))

section Selection
variable (fill clone : Heap → Nat → Option (Nat × Heap))

def selectElementAccesses (heap : Heap) (object : Nat) : VariableNameType → Logged Access Nat
  | .localIndex index => lift (findSubObjectBySCIndex heap object index)
  | .localCoordinates coordinates => do
    let index ← coordToIndAccesses coordinates ((heap.objects object).dims.getD []) (heap.objects object).numDims 0 0 1
    lift (findSubObjectBySCIndex heap object index)
  | .localName => stop

-- The field behind an index is dequeued only if there is one.
def selectTokenAccesses (heap : Heap) (object : Nat) (token : VariableNameToken) (rest : List VariableNameToken) :
    Logged Access (Nat × Nat × List VariableNameToken × Heap) :=
  match token.variableNameType with
  | .localName => lift (selectToken fill heap object token rest)
  | index => do
    let (code,heap) ← lift (fill heap object)
    if code ≠ 0 then pure (1,object,rest,heap)
    else if (heap.objects object).matlabInternalType = .structClass then
      match rest with
      | [] => stop
      | field::rest => do
        tell (.dequeued true)
        let object ← lift (findSubObjectByShortName heap object field.variableLocalName)
        let (code,heap) ← lift (fill heap object)
        if code ≠ 0 then pure (1,object,rest,heap)
        else if (heap.objects object).isStructArray then do
          let object ← selectElementAccesses heap object index
          pure (0,object,rest,heap)
        else pure (0,object,rest,heap)
    else do
      let object ← selectElementAccesses heap object index
      pure (0,object,rest,heap)

-- The loop runs once before its condition is looked at.
def selectObjectAccesses : Nat → Heap → Nat → List VariableNameToken → Logged Access (Nat × Nat × Heap)
  | _,_,_,[] => do
    tell (.dequeued false)
    stop
  | 0,_,_,_::_ => stop
  | fuel+1,heap,object,token::rest => do
    tell (.dequeued true)
    let (code,object,rest,heap) ← selectTokenAccesses fill heap object token rest
    if code ≠ 0 then pure (1,object,heap)
    else if rest = [] then pure (0,object,heap)
    else selectObjectAccesses fuel heap object rest

def fillVariableAccesses (fuel : Nat) (variableName : Text) (s : Session) : Logged Access (Nat × Session) :=
  if s.isDone then pure (0,s)
  else if variableName = [] then lift (fillVariable fill clone fuel variableName s)
  else do
    let s := {s with isGettingEverything:=false}
    let tokens ← makeVarnameQueueAccesses variableName
    let (code,object,heap) ← selectObjectAccesses fill tokens.length s.heap virtualSuperObject tokens
    if code ≠ 0 then pure (1,{s with heap:=heap})
    else do
      let (code,heap) ← lift (fillDataTree fill fuel heap object)
      if code ≠ 0 then pure (1,{s with heap:=heap})
      else do
        let shared ← lift (checkTopLevel heap fuel object s.topLevelObjects.live)
        let (object,heap) ← lift (cloneIfShared clone shared heap object)
        pure (0,{s with heap:=heap,topLevelObjects:=enqueue s.topLevelObjects object})

end Selection

section Erasure
variable {fill clone : Heap → Nat → Option (Nat × Heap)}

theorem parseNumbers_result (numbers : List Text) (i : Nat) : (parseNumbersAccesses i numbers).result =
    if (numbers = [] ∨ i+numbers.length ≤ hdf5MaxDims) ∧ numbers.all (·.length ≤ maxTokenLength) then
      some (numbers.map (readDigits · 0)) else none := by
  induction numbers generalizing i with
  | nil => simp [parseNumbersAccesses]
  | cons number rest ih =>
    simp only [parseNumbersAccesses,bind_result,tell_result,Option.bind_some]
    by_cases stops : hdf5MaxDims ≤ i ∨ maxTokenLength < number.length
    · rw [if_pos stops,if_neg ?_]
      · rfl
      · rintro ⟨none_ | fits,short⟩
        · cases none_
        · rcases stops with last | long
          · rw [List.length_cons] at fits
            omega
          · rw [List.all_cons,Bool.and_eq_true,decide_eq_true_eq] at short
            exact absurd short.1 (Nat.not_le_of_lt long)
    · obtain ⟨inside,short⟩ := not_or.mp stops
      rw [if_neg stops,bind_result,ih (i+1)]
      have here : number.length ≤ maxTokenLength := Nat.le_of_not_lt short
      simp only [List.all_cons,here,decide_true,Bool.true_and,List.length_cons,reduceCtorEq,false_or,pure_result]
      have same : (rest = [] ∨ i+1+rest.length ≤ hdf5MaxDims) ↔ i+(rest.length+1) ≤ hdf5MaxDims := by
        constructor
        · rintro (rfl | fits)
          · rw [List.length_nil]
            omega
          · omega
        · exact fun fits => .inr (by omega)
      simp only [same]
      split <;> rfl

theorem parseCoordinates_result (token : Text) : (parseNumbersAccesses 0 (numbersOf token)).result = parseCoordinates token := by
  rw [parseNumbers_result]
  unfold parseCoordinates
  rw [show strtok (· == comma) token = numbersOf token from rfl,Nat.zero_add]
  have same : (numbersOf token = [] ∨ (numbersOf token).length ≤ hdf5MaxDims) ↔ (numbersOf token).length ≤ hdf5MaxDims := by
    constructor
    · rintro (none_ | fits)
      · rw [none_]
        exact Nat.zero_le _
      · exact fits
    · exact .inr
  simp only [same]

theorem parseToken_result {token : Text} (short : leadingDigits token ≤ maxTokenLength) :
    (parseTokenAccesses token).result = makeToken token := by
  unfold parseTokenAccesses
  by_cases commas : IsCoordinates token
  · rw [if_pos commas,bind_result,parseCoordinates_result,makeToken_parts,if_neg (Nat.not_lt_of_le short),
      if_pos ((classified_coordinates token).mpr commas)]
    cases parseCoordinates token <;> rfl
  · rw [if_neg commas,lift_result]

theorem parseTokens_result {tokens : List Text} (short : ∀ token ∈ tokens, leadingDigits token ≤ maxTokenLength) :
    (parseTokensAccesses tokens).result = tokens.mapM makeToken := by
  induction tokens with
  | nil => rfl
  | cons token rest ih =>
    simp only [parseTokensAccesses,bind_result,parseToken_result (short token List.mem_cons_self),
      ih fun other member => short other (List.mem_cons_of_mem _ member),pure_result,List.mapM_cons]
    rfl

theorem makeVarnameQueue_result (variableName : Text) : (makeVarnameQueueAccesses variableName).result = makeVarnameQueue variableName := by
  unfold makeVarnameQueueAccesses makeVarnameQueue
  rw [show strtok isDelimiter _ = tokensOf variableName from rfl]
  by_cases short : ∀ token ∈ tokensOf variableName, leadingDigits token ≤ maxTokenLength
  · rw [if_pos short,parseTokens_result short]
  · rw [if_neg short,stop_result]
    -- A token that is not classified has no result either.
    generalize tokensOf variableName = tokens at short
    symm
    induction tokens with
    | nil => exact absurd (fun token member => absurd member List.not_mem_nil) short
    | cons token rest ih =>
      rw [List.mapM_cons]
      cases made : makeToken token with
      | none => rfl
      | some vnt =>
        have here : leadingDigits token ≤ maxTokenLength := by
          by_contra long
          rw [makeToken_refused (.inl (.inl (Nat.lt_of_not_le long)))] at made
          cases made
        have later : ¬∀ token ∈ rest, leadingDigits token ≤ maxTokenLength := fun all_ => short fun other member => by
          rcases List.mem_cons.mp member with rfl | inRest
          · exact here
          · exact all_ other inRest
        rw [ih later]
        rfl

theorem coordToInd_result (coords dims : List Int) (numDims slot : Nat) (ret mult : Int) :
    (coordToIndAccesses coords dims numDims slot ret mult).result = coordToInd (coords.drop slot) dims numDims ret mult := by
  induction numDims generalizing dims slot ret mult with
  | zero =>
    cases coords.drop slot <;> rfl
  | succ numDims ih =>
    simp only [coordToIndAccesses,bind_result,tell_result,lift_result,Option.bind_some]
    by_cases inside : slot < coords.length
    · rw [List.getElem?_eq_getElem inside,Option.bind_some,ih,List.drop_eq_getElem_cons inside]
      rfl
    · have outside := Nat.le_of_not_lt inside
      rw [List.getElem?_eq_none outside,List.drop_eq_nil_of_le outside]
      rfl

theorem selectElement_result (heap : Heap) (object : Nat) (type : VariableNameType) :
    (selectElementAccesses heap object type).result = selectElement heap object type := by
  cases type with
  | localName => rfl
  | localIndex index => rfl
  | localCoordinates coordinates =>
    simp only [selectElementAccesses,selectElement,bind_result,coordToInd_result,List.drop_zero,lift_result]
    rfl

theorem selectToken_result (heap : Heap) (object : Nat) (token : VariableNameToken) (rest : List VariableNameToken) :
    (selectTokenAccesses fill heap object token rest).result = selectToken fill heap object token rest := by
  unfold selectTokenAccesses selectToken
  cases token.variableNameType with
  | localName => rfl
  | localIndex | localCoordinates =>
    simp only [bind_result,lift_result,Option.bind_eq_bind]
    congr 1
    funext filled
    split
    · rfl
    · split
      · cases rest with
        | nil => rfl
        | cons field rest =>
          simp only [bind_result,tell_result,lift_result,Option.bind_some]
          congr 1
          funext sub
          congr 1
          funext read
          split
          · rfl
          · split
            · rw [bind_result,selectElement_result]
              rfl
            · rfl
      · rw [bind_result,selectElement_result]
        rfl

theorem selectObject_result (heap : Heap) (object : Nat) {tokens : List VariableNameToken} (some_ : tokens ≠ []) (fuel : Nat) :
    (selectObjectAccesses fill fuel heap object tokens).result = selectObject fill fuel heap object tokens := by
  induction fuel generalizing heap object tokens with
  | zero =>
    cases tokens with
    | nil => exact absurd rfl some_
    | cons token rest => rfl
  | succ fuel ih =>
    cases tokens with
    | nil => exact absurd rfl some_
    | cons token rest =>
      simp only [selectObjectAccesses,selectObject,bind_result,tell_result,Option.bind_some,selectToken_result,Option.bind_eq_bind]
      congr 1
      funext selected
      split
      · rfl
      · split
        · rename_i done
          rw [done]
          cases fuel <;> rfl
        · rename_i more
          exact ih _ _ more

theorem fillVariable_result (fuel : Nat) (variableName : Text) (s : Session) :
    (fillVariableAccesses fill clone fuel variableName s).result = fillVariable fill clone fuel variableName s := by
  unfold fillVariableAccesses
  split
  · rename_i closed
    unfold fillVariable
    rw [if_pos closed]
    rfl
  · rename_i open_
    split
    · rfl
    · rename_i named
      unfold fillVariable
      rw [if_neg open_,if_neg named]
      simp only [bind_result,makeVarnameQueue_result,Option.bind_eq_bind]
      congr 1
      funext tokens
      by_cases none_ : tokens = []
      · subst none_
        rfl
      · rw [if_neg none_,selectObject_result _ _ none_]
        congr 1
        funext selected
        split
        · rfl
        · simp only [bind_result,lift_result]
          congr 1
          funext filled
          split
          · rfl
          · simp only [bind_result,lift_result]
            rfl

end Erasure

section Slots

-- parseCoordinates comes to a number if the loops over those before it end.
def ComesToNumber (token : Text) (i : Nat) : Prop :=
  IsCoordinates token ∧ i < (numbersOf token).length ∧ ∀ number ∈ (numbersOf token).take i, number.length ≤ maxTokenLength

def ComesTo (tokens : List Text) (token : Text) (i : Nat) : Prop :=
  (∀ other ∈ tokens, leadingDigits other ≤ maxTokenLength) ∧ ∃ k : Nat, tokens[k]? = some token ∧
    (∀ earlier ∈ tokens.take k, ¬Endless earlier) ∧ ComesToNumber token i

theorem parseNumbers_safe (numbers : List Text) (i : Nat) : (parseNumbersAccesses i numbers).Only Access.Safe ↔
    ∀ k < numbers.length, (∀ number ∈ numbers.take k, number.length ≤ maxTokenLength) → i+k < hdf5MaxDims := by
  induction numbers generalizing i with
  | nil => simp [parseNumbersAccesses]
  | cons number rest ih =>
    rw [parseNumbersAccesses,only_tell_bind]
    constructor
    · rintro ⟨here,later⟩ k less short
      cases k with
      | zero => exact here
      | succ k =>
        rw [List.take_succ_cons,List.forall_mem_cons] at short
        have goes : ¬(hdf5MaxDims ≤ i ∨ maxTokenLength < number.length) := by
          rintro (last | long)
          · exact absurd here (Nat.not_lt_of_le last)
          · exact absurd short.1 (Nat.not_le_of_lt long)
        rw [if_neg goes,only_bind] at later
        have next := (ih (i+1)).mp later.1 k (Nat.lt_of_succ_lt_succ less) short.2
        omega
    · intro all_
      have here : i < hdf5MaxDims := all_ 0 (Nat.succ_pos _) fun other member => absurd member List.not_mem_nil
      refine ⟨here,?_⟩
      by_cases stops : hdf5MaxDims ≤ i ∨ maxTokenLength < number.length
      · rw [if_pos stops]
        exact only_stop
      · rw [if_neg stops,only_bind]
        refine ⟨(ih (i+1)).mpr fun k less short => ?_,fun coordinates _ => only_pure _⟩
        have fits : number.length ≤ maxTokenLength := Nat.le_of_not_lt fun long => stops (.inr long)
        have next := all_ (k+1) (Nat.succ_lt_succ less) (by
          rw [List.take_succ_cons,List.forall_mem_cons]
          exact ⟨fits,short⟩)
        omega

theorem parseToken_safe (token : Text) : (parseTokenAccesses token).Only Access.Safe ↔
    ∀ i, ComesToNumber token i → i < hdf5MaxDims := by
  unfold parseTokenAccesses
  by_cases commas : IsCoordinates token
  · rw [if_pos commas,only_bind,parseNumbers_safe]
    constructor
    · rintro ⟨all_,_⟩ i ⟨_,less,short⟩
      simpa using all_ i less short
    · intro all_
      refine ⟨fun k less short => ?_,fun coordinates _ => only_pure _⟩
      simpa using all_ k ⟨commas,less,short⟩
  · rw [if_neg commas]
    exact ⟨fun _ i comes => absurd comes.1 commas,fun _ => only_lift _⟩

theorem token_made {token : Text} (ends : ¬Endless token) (inside : ∀ i, ComesToNumber token i → i < hdf5MaxDims) :
    ∃ vnt, makeToken token = some vnt := by
  refine ⟨_,makeToken_simple ends fun wide => ?_⟩
  have last := inside hdf5MaxDims ⟨wide.1,wide.2,fun number member => Nat.le_of_not_lt fun long =>
    ends (.inr ⟨wide.1,number,List.mem_of_mem_take member,long⟩)⟩
  exact Nat.lt_irrefl _ last

theorem parseTokens_safe {tokens : List Text} (short : ∀ token ∈ tokens, leadingDigits token ≤ maxTokenLength) :
    (parseTokensAccesses tokens).Only Access.Safe ↔ ∀ (k : Nat) (token : Text), tokens[k]? = some token →
      (∀ earlier ∈ tokens.take k, ¬Endless earlier) → ∀ i, ComesToNumber token i → i < hdf5MaxDims := by
  induction tokens with
  | nil => simp [parseTokensAccesses]
  | cons token rest ih =>
    have later := ih fun other member => short other (List.mem_cons_of_mem _ member)
    simp only [parseTokensAccesses,only_bind,parseToken_safe,parseToken_result (short token List.mem_cons_self)]
    constructor
    · rintro ⟨here,others⟩ k other at_ ends
      cases k with
      | zero =>
        cases at_
        exact here
      | succ k =>
        rw [List.take_succ_cons,List.forall_mem_cons] at ends
        obtain ⟨vnt,made⟩ := token_made ends.1 here
        exact later.mp (others vnt made).1 k other at_ ends.2
    · intro all_
      refine ⟨all_ 0 token rfl fun earlier member => absurd member List.not_mem_nil,fun vnt made => ?_⟩
      refine ⟨later.mpr fun k other at_ ends => ?_,fun vnts _ => only_pure _⟩
      refine all_ (k+1) other at_ ?_
      rw [List.take_succ_cons,List.forall_mem_cons]
      refine ⟨fun endless => ?_,ends⟩
      rw [makeToken_refused (.inl endless)] at made
      cases made

theorem makeVarnameQueue_safe (variableName : Text) : (makeVarnameQueueAccesses variableName).Only Access.Safe ↔
    ∀ token i, ComesTo (tokensOf variableName) token i → i < hdf5MaxDims := by
  unfold makeVarnameQueueAccesses
  by_cases short : ∀ token ∈ tokensOf variableName, leadingDigits token ≤ maxTokenLength
  · rw [if_pos short,parseTokens_safe short]
    exact ⟨fun all_ token i ⟨_,k,at_,ends,comes⟩ => all_ k token at_ ends i comes,
      fun all_ k token at_ ends i comes => all_ token i ⟨short,k,at_,ends,comes⟩⟩
  · rw [if_neg short]
    exact ⟨fun _ token i comes => absurd comes.1 short,fun _ => only_stop⟩

end Slots

section Selection
variable {fill clone : Heap → Nat → Option (Nat × Heap)}

theorem coordToInd_safe (coords dims : List Int) (numDims slot : Nat) (ret mult : Int) :
    (coordToIndAccesses coords dims numDims slot ret mult).Only Access.Safe ↔ numDims = 0 ∨ slot+numDims ≤ coords.length := by
  induction numDims generalizing dims slot ret mult with
  | zero => simp [coordToIndAccesses]
  | succ numDims ih =>
    simp only [coordToIndAccesses,only_tell_bind,only_lift_bind,ih]
    constructor
    · rintro ⟨here,later⟩
      have inside : slot < coords.length := of_decide_eq_true here
      have rest := later _ (List.getElem?_eq_getElem inside)
      omega
    · rintro (none_ | fits)
      · cases none_
      · exact ⟨decide_eq_true (by omega),fun coord _ => by omega⟩

theorem selectElement_safe (heap : Heap) (object : Nat) (type : VariableNameType) :
    (selectElementAccesses heap object type).Only Access.Safe ↔
      ∀ coordinates, type = .localCoordinates coordinates → (heap.objects object).numDims ≤ coordinates.length := by
  cases type with
  | localName => simp [selectElementAccesses]
  | localIndex index => simp [selectElementAccesses]
  | localCoordinates coordinates =>
    simp only [selectElementAccesses,only_bind,coordToInd_safe,only_lift,implies_true,and_true,
      VariableNameType.localCoordinates.injEq,forall_eq']
    omega

-- A token whose coordinates are folded with the dims of an object.
inductive FoldsToken (fill : Heap → Nat → Option (Nat × Heap)) (heap : Heap) (object : Nat) (token : VariableNameToken)
    (rest : List VariableNameToken) : Heap → Nat → List Int → Prop where
  | arrayField (type : token.variableNameType = .localCoordinates coordinates) (first : fill heap object = some (0,middle))
      (struct : (middle.objects object).matlabInternalType = .structClass) (next : rest = name::tokens)
      (found : findSubObjectByShortName middle object name.variableLocalName = some sub)
      (filled : fill middle sub = some (0,after)) (array : (after.objects sub).isStructArray = true) :
      FoldsToken fill heap object token rest after sub coordinates
  | element (type : token.variableNameType = .localCoordinates coordinates) (first : fill heap object = some (0,middle))
      (other : (middle.objects object).matlabInternalType ≠ .structClass) :
      FoldsToken fill heap object token rest middle object coordinates

theorem selectToken_safe (heap : Heap) (object : Nat) (token : VariableNameToken) (rest : List VariableNameToken) :
    (selectTokenAccesses fill heap object token rest).Only Access.Safe ↔ ∀ called target coordinates,
      FoldsToken fill heap object token rest called target coordinates → (called.objects target).numDims ≤ coordinates.length := by
  unfold selectTokenAccesses
  split
  · rename_i name
    refine ⟨fun _ called target coordinates folds => ?_,fun _ => only_lift _⟩
    cases folds with
    | arrayField type => rw [name] at type; cases type
    | element type => rw [name] at type; cases type
  · rw [only_lift_bind]
    constructor
    · intro all_ called target coordinates folds
      cases folds with
      | arrayField type first struct next found filled array =>
        subst next
        have run := all_ _ first
        dsimp only at run
        rw [if_neg (not_not.mpr rfl),if_pos struct,only_tell_bind,only_lift_bind] at run
        have read := run.2 _ found
        rw [only_lift_bind] at read
        have last := read _ filled
        dsimp only at last
        rw [if_neg (not_not.mpr rfl),if_pos array,only_bind] at last
        exact (selectElement_safe _ _ _).mp last.1 _ type
      | element type first other =>
        have run := all_ _ first
        dsimp only at run
        rw [if_neg (not_not.mpr rfl),if_neg other,only_bind] at run
        exact (selectElement_safe _ _ _).mp run.1 _ type
    · rintro all_ ⟨code,middle⟩ first
      dsimp only
      split
      · exact only_pure _
      · rename_i zero
        obtain rfl : code = 0 := Decidable.not_not.mp zero
        split
        · rename_i struct
          cases rest with
          | nil => exact only_stop
          | cons field rest =>
            dsimp only
            rw [only_tell_bind,only_lift_bind]
            refine ⟨rfl,fun sub found => ?_⟩
            rw [only_lift_bind]
            rintro ⟨code,after⟩ filled
            dsimp only
            split
            · exact only_pure _
            · rename_i read
              obtain rfl : code = 0 := Decidable.not_not.mp read
              split
              · rename_i array
                rw [only_bind]
                refine ⟨(selectElement_safe _ _ _).mpr fun coordinates type => ?_,fun _ _ => only_pure _⟩
                exact all_ _ _ _ (.arrayField type first struct rfl found filled array)
              · exact only_pure _
        · rename_i other
          rw [only_bind]
          refine ⟨(selectElement_safe _ _ _).mpr fun coordinates type => ?_,fun _ _ => only_pure _⟩
          exact all_ _ _ _ (.element type first other)

-- The calls of coordToInd in the loop over the tokens.
inductive Folds (fill : Heap → Nat → Option (Nat × Heap)) : Nat → Heap → Nat → List VariableNameToken → Heap → Nat → List Int → Prop where
  | here (folds : FoldsToken fill heap object token rest called target coordinates) :
      Folds fill (fuel+1) heap object (token::rest) called target coordinates
  | later (selected : selectToken fill heap object token rest = some (0,sub,tokens,after))
      (folds : Folds fill fuel after sub tokens called target coordinates) :
      Folds fill (fuel+1) heap object (token::rest) called target coordinates

theorem selectObject_safe (heap : Heap) (object : Nat) {tokens : List VariableNameToken} (some_ : tokens ≠ []) (fuel : Nat) :
    (selectObjectAccesses fill fuel heap object tokens).Only Access.Safe ↔ ∀ called target coordinates,
      Folds fill fuel heap object tokens called target coordinates → (called.objects target).numDims ≤ coordinates.length := by
  induction fuel generalizing heap object tokens with
  | zero =>
    cases tokens with
    | nil => exact absurd rfl some_
    | cons token rest => exact ⟨fun _ called target coordinates folds => (by cases folds),fun _ => only_stop⟩
  | succ fuel ih =>
    cases tokens with
    | nil => exact absurd rfl some_
    | cons token rest =>
      rw [selectObjectAccesses,only_tell_bind,only_bind,selectToken_safe,selectToken_result]
      constructor
      · rintro ⟨_,here,later⟩ called target coordinates folds
        cases folds with
        | here folds => exact here _ _ _ folds
        | @later _ _ _ _ sub left after _ _ _ _ selected folds =>
          have run := later _ selected
          dsimp only at run
          by_cases done : left = []
          · subst done
            cases folds
          · rw [if_neg (not_not.mpr rfl),if_neg done] at run
            exact (ih _ _ done).mp run _ _ _ folds
      · intro all_
        refine ⟨rfl,fun called target coordinates folds => all_ _ _ _ (.here folds),?_⟩
        rintro ⟨code,sub,left,after⟩ selected
        dsimp only
        split
        · exact only_pure _
        · rename_i zero
          obtain rfl : code = 0 := Decidable.not_not.mp zero
          split
          · exact only_pure _
          · rename_i more
            exact (ih _ _ more).mpr fun called target coordinates folds => all_ _ _ _ (.later selected folds)

theorem selection_safe (heap : Heap) (object : Nat) (tokens : List VariableNameToken) :
    (selectObjectAccesses fill tokens.length heap object tokens).Only Access.Safe ↔ tokens ≠ [] ∧ ∀ called target coordinates,
      Folds fill tokens.length heap object tokens called target coordinates →
      (called.objects target).numDims ≤ coordinates.length := by
  by_cases none_ : tokens = []
  · subst none_
    rw [selectObjectAccesses,only_tell_bind]
    exact ⟨fun both => absurd both.1 Bool.false_ne_true,fun both => absurd rfl both.1⟩
  · rw [selectObject_safe heap object none_]
    exact ⟨fun all_ => ⟨none_,all_⟩,fun both => both.2⟩

-- All accesses of a call are safe exactly if there is nothing to select, or if the name has a
-- token, every number that is come to has a slot, and coordinates are only folded with as
-- many dims as there are of them.
theorem fillVariable_safe (fill clone : Heap → Nat → Option (Nat × Heap)) (fuel : Nat) (name : CString) (s : Session) :
    (fillVariableAccesses fill clone fuel name.text s).Only Access.Safe ↔ s.isDone = true ∨ name.text = [] ∨
      ((∀ token i, ComesTo (tokensOf name.text) token i → i < hdf5MaxDims) ∧
        ∀ tokens, makeVarnameQueue name.text = some tokens → tokens ≠ [] ∧ ∀ called target coordinates,
          Folds fill tokens.length s.heap virtualSuperObject tokens called target coordinates →
          (called.objects target).numDims ≤ coordinates.length) := by
  unfold fillVariableAccesses
  by_cases closed : s.isDone = true
  · rw [if_pos closed]
    exact ⟨fun _ => .inl closed,fun _ => only_pure _⟩
  by_cases all_ : name.text = []
  · rw [if_neg closed,if_pos all_]
    exact ⟨fun _ => .inr (.inl all_),fun _ => only_lift _⟩
  rw [if_neg closed,if_neg all_,only_bind,makeVarnameQueue_safe,makeVarnameQueue_result]
  rw [← or_assoc,or_iff_right (not_or.mpr ⟨closed,all_⟩)]
  refine and_congr_right fun _ => forall_congr' fun tokens => imp_congr_right fun _ => ?_
  -- What is behind the selection looks at no token.
  rw [only_bind_quiet]
  · exact selection_safe _ _ _
  · rintro ⟨code,object,heap⟩
    dsimp only
    split
    · exact only_pure _
    · rw [only_lift_bind]
      rintro ⟨code,filled⟩ _
      dsimp only
      split
      · exact only_pure _
      · rw [only_lift_bind]
        intro shared _
        rw [only_lift_bind]
        exact fun _ _ => only_pure _

-- A name of delimiters alone.
theorem emptyName_accessed : ¬ ∀ (file : MatFile) (chunked : MetaData → Option (Nat × DataArrays)) (fuel : Nat) (name : CString)
    (s : Session), name.text ≠ [] →
    (fillVariableAccesses (fillAt file chunked fuel) (cloneData fuel) fuel name.text s).Only Access.Safe := by
  intro always
  have safe := always smallFile (fun _ => none) 3 ⟨[46],by simp⟩ ⟨skeletonHeap smallFile 3,initQueue,false,false⟩ (by decide)
  exact absurd (safe (.dequeued false) (by decide)) Bool.false_ne_true

end Selection
end VarnameAccesses
end GetMatVar
