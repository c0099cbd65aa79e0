import GetMatVar.FillObject

namespace GetMatVar

def space : UInt8 := 32

def comma : UInt8 := 44

def isDelimiter (char : UInt8) : Bool := char == 46 || char == 123 || char == 125 || char == 40 || char == 41

def isDigit (char : UInt8) : Bool := 48 ≤ char && char ≤ 57

def strtok (isDelim : UInt8 → Bool) (text : Text) : List Text := (text.splitOnP isDelim).filter (· ≠ [])

-- variable_local_index and variable_local_coordinates are only set for a token
-- of that type; the name is kept for all of them.
inductive VariableNameType where
  | localName
  | localIndex (index : Int)
  | localCoordinates (coordinates : List Int)
deriving DecidableEq,Repr

structure VariableNameToken where
  variableNameType : VariableNameType
  variableLocalName : Text
deriving DecidableEq,Repr

-- A char is signed.
def charValue (char : UInt8) : Int := if char.toNat < 128 then char.toNat else char.toNat-256

def readDigits (chars : Text) (before : Int) : Int :=
  chars.foldl (fun value char => wrapIndex (value*10+(charValue char-48))) before

def decimalValue (chars : Text) (before : Int) : Int := chars.foldl (fun value char => value*10+(charValue char-48)) before

theorem readDigits_from (chars : Text) (before : Int) : readDigits chars (wrapIndex before) = wrapIndex (decimalValue chars before) := by
  induction chars generalizing before with
  | nil => rfl
  | cons char chars ih =>
    have next : wrapIndex (wrapIndex before*10+(charValue char-48)) = wrapIndex (before*10+(charValue char-48)) := by
      rw [← wrapIndex_add,wrapIndex_mul_left,wrapIndex_add]
    unfold readDigits decimalValue at ih ⊢
    rw [List.foldl_cons,List.foldl_cons,next,ih]

theorem readDigits_decimal (chars : Text) : readDigits chars 0 = wrapIndex (decimalValue chars 0) := readDigits_from chars 0

-- The counter of the loop over the characters has eight bits, so the loop does
-- not end on a longer string.
def maxTokenLength : Nat := 255

def parseCoordinates (variableLocalName : Text) : Option (List Int) :=
  let numbers := strtok (· == comma) variableLocalName
  if numbers.length ≤ hdf5MaxDims ∧ numbers.all (·.length ≤ maxTokenLength) then
    some (numbers.map (readDigits · 0))
  else none

def makeToken (token : Text) : Option VariableNameToken :=
  match token.find? (!isDigit ·) with
  | none =>
    if token.length ≤ maxTokenLength then some ⟨.localIndex (wrapIndex (readDigits token 0-1)),token⟩ else none
  | some char =>
    if (token.takeWhile isDigit).length > maxTokenLength then none
    else if char = comma then do
      let coordinates ← parseCoordinates token
      some ⟨.localCoordinates coordinates,token⟩
    else some ⟨.localName,token⟩

def makeVarnameQueue (variableName : Text) : Option (List VariableNameToken) :=
  (strtok isDelimiter (variableName.filter (· ≠ space))).mapM makeToken

-- A coordinate that the token does not have was never written.
def coordToInd : List Int → List Int → Nat → Int → Int → Option Int
  | _,_,0,ret,_ => some ret
  | coord::coords,dims,numDims+1,ret,mult =>
    coordToInd coords dims.tail numDims (wrapIndex (ret+(coord-1)*mult)) (wrapIndex (mult*dims.headD 0))
  | [],_,_+1,_,_ => none

def findSubObjectByShortName (heap : Heap) (object : Nat) (name : Text) : Option Nat :=
  (heap.children object).find? (fun obj => (heap.objects obj).shortName == name)

def findSubObjectBySCIndex (heap : Heap) (object : Nat) (index : Int) : Option Nat :=
  (heap.children object).find? (fun obj => (heap.objects obj).sCArrayIndex == index)

def checkSubTrees (tree : Nat → Option Bool) : List Nat → Option Bool
  | [] => some false
  | sub::rest => do
    let found ← tree sub
    if found then some true else checkSubTrees tree rest

def checkTree (heap : Heap) (obj : Nat) : Nat → Nat → Option Bool
  | 0,_ => none
  | fuel+1,cmpObj => do
    let found ← if (heap.objects cmpObj).numSubObjs ≠ 0 then
        checkSubTrees (checkTree heap obj fuel) (heap.children cmpObj)
      else some false
    some (found || cmpObj == obj)

-- The globals behind the heap.
structure Session where
  heap : Heap
  topLevelObjects : Queue Nat
  isDone : Bool
  isGettingEverything : Bool

section Selection
variable (fill : Heap → Nat → Option (Nat × Heap))

-- readMXError does not return, so every selection it ends has no result.
-- Which object an index selects; object is filled.
def selectElement (heap : Heap) (object : Nat) : VariableNameType → Option Nat
  | .localIndex index => findSubObjectBySCIndex heap object index
  | .localCoordinates coordinates => do
    let index ← coordToInd coordinates ((heap.objects object).dims.getD []) (heap.objects object).numDims 0 1
    findSubObjectBySCIndex heap object index
  | .localName => none

def selectToken (heap : Heap) (object : Nat) (token : VariableNameToken) (rest : List VariableNameToken) :
    Option (Nat × Nat × List VariableNameToken × Heap) :=
  match token.variableNameType with
  | .localName => do
    let object ← findSubObjectByShortName heap object token.variableLocalName
    let (code,heap) ← fill heap object
    if code ≠ 0 then some (1,object,rest,heap)
    else if (heap.objects object).isStructArray then none
    else some (0,object,rest,heap)
  | index => do
    let (code,heap) ← fill heap object
    if code ≠ 0 then some (1,object,rest,heap)
    else if (heap.objects object).matlabInternalType = .structClass then
      -- A struct array is stored field by field, so the field comes first.
      match rest with
      | [] => none
      | field::rest => do
        let object ← findSubObjectByShortName heap object field.variableLocalName
        let (code,heap) ← fill heap object
        if code ≠ 0 then some (1,object,rest,heap)
        else if (heap.objects object).isStructArray then do
          let object ← selectElement heap object index
          some (0,object,rest,heap)
        else some (0,object,rest,heap)
    else do
      let object ← selectElement heap object index
      some (0,object,rest,heap)

-- fuel is the number of tokens: every round takes one.
def selectObject : Nat → Heap → Nat → List VariableNameToken → Option (Nat × Nat × Heap)
  | _,heap,object,[] => some (0,object,heap)
  | 0,_,_,_::_ => none
  | fuel+1,heap,object,token::rest => do
    let (code,object,rest,heap) ← selectToken fill heap object token rest
    if code ≠ 0 then some (1,object,heap) else selectObject fuel heap object rest

def checkTopLevel (heap : Heap) (fuel : Nat) (object : Nat) : List Nat → Option Bool :=
  checkSubTrees (checkTree heap object fuel)

def cloneIfShared (clone : Heap → Nat → Option (Nat × Heap)) (shared : Bool) (heap : Heap) (object : Nat) :
    Option (Nat × Heap) := if shared then clone heap object else some (object,heap)

variable (clone : Heap → Nat → Option (Nat × Heap))

def fillVariableNames (fuel : Nat) : Nat → Session → Option (Nat × Session)
  | 0,s => some (0,s)
  | left+1,s => do
    let (found,queue) := dequeue (s.heap.objects virtualSuperObject).subObjects
    let obj ← found
    let heap := s.heap.update virtualSuperObject fun data => {data with subObjects:=queue}
    if (heap.objects obj).shortName.head? = some hash then fillVariableNames fuel left {s with heap:=heap}
    else do
      let (code,heap) ← fillDataTree fill fuel heap obj
      if code ≠ 0 then some (1,{s with heap:=heap})
      else fillVariableNames fuel left {s with heap:=heap,topLevelObjects:=enqueue s.topLevelObjects obj}

def fillVariable (fuel : Nat) (variableName : Text) (s : Session) : Option (Nat × Session) :=
  if s.isDone then some (0,s)
  else if variableName = [] then do
    let s := {s with isGettingEverything:=true}
    let (code,s) ← fillVariableNames fill fuel (s.heap.objects virtualSuperObject).numSubObjs s
    if code ≠ 0 then some (1,s)
    else
      let heap := s.heap.update virtualSuperObject fun data => {data with subObjects:=restartQueue data.subObjects}
      some (0,{s with heap:=heap,isDone:=true})
  else do
    let s := {s with isGettingEverything:=false}
    let tokens ← makeVarnameQueue variableName
    if tokens = [] then none
    else do
      let (code,object,heap) ← selectObject fill tokens.length s.heap virtualSuperObject tokens
      if code ≠ 0 then some (1,{s with heap:=heap})
      else do
        let (code,heap) ← fillDataTree fill fuel heap object
        if code ≠ 0 then some (1,{s with heap:=heap})
        else do
          let shared ← checkTopLevel heap fuel object s.topLevelObjects.live
          let (object,heap) ← cloneIfShared clone shared heap object
          some (0,{s with heap:=heap,topLevelObjects:=enqueue s.topLevelObjects object})

end Selection

end GetMatVar
