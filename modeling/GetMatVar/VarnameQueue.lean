import GetMatVar.FillVariable
import Mathlib.Data.List.GetD
import Mathlib.Data.List.TakeWhile

namespace GetMatVar
namespace VarnameQueue

-- A char* string: its NUL ends it.
structure CString where
  text : Text
  ended : ∀ char ∈ text, char ≠ 0

def stringIn (block : List UInt8) : Text := block.takeWhile (· ≠ 0)

inductive VariableNameType where
  | unknown
  | localName
  | localIndex
  | localCoordinates
deriving DecidableEq,Repr

-- A slot of variable_local_coordinates that nothing has been written to is none.
structure VariableNameToken where
  variableNameType : VariableNameType
  variableLocalIndex : Int
  variableLocalCoordinates : List (Option Int)
  variableLocalName : Text
deriving DecidableEq,Repr

-- The tokens by the number of their allocation, and varname_queue, which points to them.
structure VarnameHeap where
  tokens : List VariableNameToken
  varnameQueue : Queue Nat

def squeeze : Nat → List UInt8 → Nat → Nat → Option (List UInt8)
  | 0,_,_,_ => none
  | fuel+1,source,i,j => do
    let char ← source[j]?
    if char = 0 then some (source.set i 0)
    else squeeze fuel (source.set i char) (if char ≠ space then i+1 else i) (j+1)

def removeSpaces (source : List UInt8) : Option (List UInt8) := squeeze source.length source 0 0

-- The loop over the characters of a token. The counter has eight bits, so fuel bounds
-- its rounds.
def classify (variableLocalName : Text) : Nat → Nat → Int → Option (VariableNameType × Int)
  | 0,_,_ => none
  | fuel+1,i,variableLocalIndex =>
    if i < variableLocalName.length then
      let char := variableLocalName.getD i 0
      if isDigit char = false then
        if char = comma then some (.localCoordinates,variableLocalIndex) else some (.localName,0)
      else classify variableLocalName fuel ((i+1)%2^8) (wrapIndex (variableLocalIndex*10+(charValue char-48)))
    else some (.localIndex,variableLocalIndex)

def readToken (fuel : Nat) (token : Text) : Option VariableNameToken := do
  let (type,index) ← classify token fuel 0 0
  some ⟨type,if type = .localIndex then wrapIndex (index-1) else index,List.replicate hdf5MaxDims none,token⟩

-- The loop over the characters of one coordinate, with the same counter.
def readCoordinate (coordNumStr : Text) : Nat → Nat → Int → Option Int
  | 0,_,_ => none
  | fuel+1,j,coordinate =>
    if j < coordNumStr.length then
      readCoordinate coordNumStr fuel ((j+1)%2^8) (wrapIndex (coordinate*10+(charValue (coordNumStr.getD j 0)-48)))
    else some coordinate

-- A coordinate behind the last slot, which the source writes past the array, is
-- dropped here.
def readCoordinates (fuel : Nat) : Nat → List Text → List (Option Int) → Option (List (Option Int))
  | _,[],slots => some slots
  | i,coordNumStr::rest,slots => do
    let coordinate ← readCoordinate coordNumStr fuel 0 0
    readCoordinates fuel (i+1) rest (slots.set i (some coordinate))

def parseCoordinates (fuel : Nat) (vnt : VariableNameToken) : Option VariableNameToken := do
  let slots ← readCoordinates fuel 0 (strtok (· == comma) vnt.variableLocalName) vnt.variableLocalCoordinates
  some {vnt with variableLocalCoordinates:=slots}

def readTokens (fuel : Nat) : List Text → VarnameHeap → Option VarnameHeap
  | [],heap => some heap
  | token::rest,heap => do
    let varnameToken ← readToken fuel token
    readTokens fuel rest ⟨heap.tokens++[varnameToken],enqueue heap.varnameQueue heap.tokens.length⟩

def parseTokens (fuel : Nat) : Nat → VarnameHeap → Option VarnameHeap
  | 0,heap => some heap
  | left+1,heap => do
    let (found,queue) := dequeue heap.varnameQueue
    let vnt ← found
    let token ← heap.tokens[vnt]?
    if token.variableNameType = .localCoordinates then
      let token ← parseCoordinates fuel token
      parseTokens fuel left ⟨heap.tokens.set vnt token,queue⟩
    else parseTokens fuel left {heap with varnameQueue:=queue}

-- flushQueue frees the tokens of the name before.
def makeVarnameQueue (fuel : Nat) (varnameQueue : Queue Nat) (variableName : Text) : Option VarnameHeap := do
  let source ← removeSpaces (variableName++[0])
  let heap ← readTokens fuel (strtok isDelimiter (stringIn source)) ⟨[],(flushQueue varnameQueue).2⟩
  let heap ← parseTokens fuel heap.varnameQueue.length heap
  some {heap with varnameQueue:=restartQueue heap.varnameQueue}

section Spaces

theorem stringIn_ended (text rest : List UInt8) (ended : ∀ char ∈ text, char ≠ 0) : stringIn (text++0::rest) = text := by
  unfold stringIn
  rw [List.takeWhile_append_of_pos (fun char member => by simpa using ended char member)]
  simp

theorem squeeze_exact (kept junk rest : List UInt8) (ended : ∀ char ∈ kept++rest, char ≠ 0) (enough : rest.length < fuel) :
    ∃ source, squeeze fuel (kept++junk++rest++[0]) kept.length (kept.length+junk.length) = some source ∧
      stringIn source = kept++rest.filter (· ≠ space) := by
  induction rest generalizing kept junk fuel with
  | nil =>
    obtain ⟨fuel,rfl⟩ : ∃ k, fuel = k+1 := ⟨fuel-1,by simp at enough; omega⟩
    have last : (kept++junk++[]++[0])[kept.length+junk.length]? = some 0 := by
      rw [List.append_nil,← List.length_append,List.getElem?_concat_length]
    simp only [squeeze,last,Option.bind_eq_bind,Option.bind_some,if_true]
    refine ⟨_,rfl,?_⟩
    rw [List.append_nil,List.append_assoc,List.set_append_right _ _ (Nat.le_refl _),Nat.sub_self,List.filter_nil,List.append_nil]
    cases junk with
    | nil => exact stringIn_ended kept [] fun char member => ended char (by simpa using member)
    | cons char junk => exact stringIn_ended kept _ fun char member => ended char (by simpa using member)
  | cons char rest ih =>
    obtain ⟨fuel,rfl⟩ : ∃ k, fuel = k+1 := ⟨fuel-1,by simp at enough; omega⟩
    have used : char ≠ 0 := ended char (by simp)
    have here : (kept++junk++char::rest++[0])[kept.length+junk.length]? = some char := by
      rw [List.append_assoc (kept++junk),← List.length_append,List.getElem?_append_right (Nat.le_refl _),Nat.sub_self]
      rfl
    have less : rest.length < fuel := Nat.lt_of_succ_lt_succ enough
    simp only [squeeze,here,Option.bind_eq_bind,Option.bind_some]
    rw [if_neg used]
    -- What the character is written over has been read before, or is the character.
    obtain ⟨behind,moved,length⟩ : ∃ behind, (kept++junk++char::rest++[0]).set kept.length char = kept++char::behind++rest++[0] ∧
        behind.length = junk.length := by
      cases junk with
      | nil => exact ⟨[],by simp,rfl⟩
      | cons first junk => exact ⟨junk++[char],by simp,by simp⟩
    rw [moved]
    by_cases blank : char = space
    · rw [if_neg (not_not.mpr blank)]
      obtain ⟨source,ran,text⟩ := ih kept (char::behind) (fun other member => ended other (by
        rcases List.mem_append.mp member with left | right
        · exact List.mem_append_left _ left
        · exact List.mem_append_right _ (List.mem_cons_of_mem _ right))) less
      have position : kept.length+(char::behind).length = kept.length+junk.length+1 := by
        rw [List.length_cons,length]
        omega
      rw [position] at ran
      refine ⟨source,ran,?_⟩
      rw [text,List.filter_cons_of_neg (by simp [blank])]
    · rw [if_pos blank]
      obtain ⟨source,ran,text⟩ := ih (kept++[char]) behind (fun other member => ended other (by simpa using member)) less
      have position : (kept++[char]).length+behind.length = kept.length+junk.length+1 := by
        rw [List.length_append,length,List.length_singleton]
        omega
      rw [position,List.length_append,List.length_singleton] at ran
      have shape : kept++char::behind++rest++[0] = kept++[char]++behind++rest++[0] := by simp
      rw [shape]
      refine ⟨source,ran,?_⟩
      rw [text,List.filter_cons_of_pos (by simpa using blank),List.append_assoc]
      rfl

theorem removeSpaces_exact (name : CString) :
    ∃ source, removeSpaces (name.text++[0]) = some source ∧ stringIn source = name.text.filter (· ≠ space) := by
  obtain ⟨source,ran,text⟩ := squeeze_exact [] [] name.text name.ended (show name.text.length < (name.text++[0]).length by simp)
  exact ⟨source,ran,text⟩

end Spaces

section Counters
variable {fuel : Nat}

def ending (index : Int) : Text → VariableNameType × Int
  | [] => (.localIndex,index)
  | char::_ => if char = comma then (.localCoordinates,index) else (.localName,0)

def leadingDigits (token : Text) : Nat := (token.takeWhile isDigit).length

theorem getD_behind (before rest : Text) (char : UInt8) : (before++char::rest).getD before.length 0 = char := by
  rw [List.getD_eq_getElem?_getD,List.getElem?_append_right (Nat.le_refl _),Nat.sub_self]
  rfl

-- The counter is at the number of characters read as long as these are at most 255.
theorem classify_digits (before digits rest : Text) (index : Int) (numeric : ∀ char ∈ digits, isDigit char = true)
    (stop : ∀ char ∈ rest.head?, isDigit char = false) (short : (before++digits).length ≤ maxTokenLength)
    (enough : digits.length < fuel) :
    classify (before++digits++rest) fuel before.length index = some (ending (readDigits digits index) rest) := by
  induction digits generalizing before index fuel with
  | nil =>
    obtain ⟨fuel,rfl⟩ : ∃ k, fuel = k+1 := ⟨fuel-1,by simp at enough; omega⟩
    rw [List.append_nil,classify]
    cases rest with
    | nil => rw [List.append_nil,if_neg (Nat.lt_irrefl _)]; rfl
    | cons char rest =>
      have inside : before.length < (before++char::rest).length := by simp
      have other : isDigit char = false := stop char rfl
      rw [if_pos inside,getD_behind]
      dsimp only
      rw [if_pos other]
      by_cases coordinates : char = comma
      · rw [if_pos coordinates,ending,if_pos coordinates]
        rfl
      · rw [if_neg coordinates,ending,if_neg coordinates]
  | cons digit digits ih =>
    obtain ⟨fuel,rfl⟩ : ∃ k, fuel = k+1 := ⟨fuel-1,by simp at enough; omega⟩
    have inside : before.length < (before++digit::digits++rest).length := by simp
    have shape : before++digit::digits++rest = before++[digit]++digits++rest := by simp
    have isNumeric : isDigit digit = true := numeric digit List.mem_cons_self
    simp only [List.length_append,List.length_cons,maxTokenLength] at short
    have next : (before.length+1)%2^8 = (before++[digit]).length := by
      rw [List.length_append,List.length_singleton]
      omega
    rw [classify,if_pos inside,List.append_assoc,List.cons_append,getD_behind,← List.cons_append,← List.append_assoc]
    dsimp only
    rw [if_neg (by rw [isNumeric]; decide),next,shape]
    exact ih (before++[digit]) _ (fun char member => numeric char (List.mem_cons_of_mem _ member))
      (by simp only [List.length_append,List.length_singleton,maxTokenLength]; omega)
      (Nat.lt_of_succ_lt_succ enough)

theorem leading_parts (token : Text) : (∀ char ∈ token.takeWhile isDigit, isDigit char = true) ∧
    (∀ char ∈ (token.dropWhile isDigit).head?, isDigit char = false) ∧
    token.takeWhile isDigit++token.dropWhile isDigit = token := by
  refine ⟨fun char member => List.mem_takeWhile_imp member,fun char member => ?_,List.takeWhile_append_dropWhile⟩
  have stopped := List.head?_dropWhile_not isDigit token
  rw [Option.mem_def.mp member] at stopped
  exact stopped

theorem classify_exact {token : Text} (short : leadingDigits token ≤ maxTokenLength) (enough : 256 ≤ fuel) :
    classify token fuel 0 0 = some (ending (readDigits (token.takeWhile isDigit) 0) (token.dropWhile isDigit)) := by
  obtain ⟨numeric,stop,whole⟩ := leading_parts token
  unfold leadingDigits maxTokenLength at short
  have few : (token.takeWhile isDigit).length < fuel := by omega
  have ran := classify_digits [] (token.takeWhile isDigit) (token.dropWhile isDigit) 0 numeric stop short few
  rwa [List.nil_append,whole] at ran

-- Behind 255 digits the counter is at the first character again.
theorem classify_endless {token : Text} (long : maxTokenLength < leadingDigits token) (fuel i : Nat) (index : Int)
    (small : i ≤ maxTokenLength) : classify token fuel i index = none := by
  induction fuel generalizing i index with
  | zero => rfl
  | succ fuel ih =>
    obtain ⟨numeric,_,whole⟩ := leading_parts token
    have leading : i < (token.takeWhile isDigit).length := Nat.lt_of_le_of_lt small long
    have digit : token.getD i 0 = (token.takeWhile isDigit)[i] := by
      conv_lhs => rw [← whole]
      rw [List.getD_append _ _ _ _ leading,List.getD_eq_getElem _ _ leading]
    have inside : i < token.length := by
      have whole := congrArg List.length whole
      rw [List.length_append] at whole
      omega
    have isNumeric : isDigit (token.getD i 0) = true := by
      rw [digit]
      exact numeric _ (List.getElem_mem leading)
    rw [classify,if_pos inside]
    dsimp only
    rw [if_neg (by rw [isNumeric]; decide)]
    exact ih _ _ (Nat.le_of_lt_succ (Nat.mod_lt _ (by decide)))

theorem classify_more (ran : classify token fuel i index = some result) (more : Nat) :
    classify token (fuel+more) i index = some result := by
  induction fuel generalizing i index with
  | zero => cases ran
  | succ fuel ih =>
    rw [Nat.succ_add,classify]
    rw [classify] at ran
    dsimp only at ran ⊢
    split at ran
    · rw [if_pos ‹_›]
      split at ran
      · rw [if_pos ‹_›]
        exact ran
      · rw [if_neg ‹_›]
        exact ih ran
    · rw [if_neg ‹_›]
      exact ran

theorem readCoordinate_from (before rest : Text) (coordinate : Int) (short : (before++rest).length ≤ maxTokenLength)
    (enough : rest.length < fuel) : readCoordinate (before++rest) fuel before.length coordinate = some (readDigits rest coordinate) := by
  induction rest generalizing before coordinate fuel with
  | nil =>
    obtain ⟨fuel,rfl⟩ : ∃ k, fuel = k+1 := ⟨fuel-1,by simp at enough; omega⟩
    rw [List.append_nil,readCoordinate,if_neg (Nat.lt_irrefl _)]
    rfl
  | cons char rest ih =>
    obtain ⟨fuel,rfl⟩ : ∃ k, fuel = k+1 := ⟨fuel-1,by simp at enough; omega⟩
    simp only [List.length_append,List.length_cons,maxTokenLength] at short
    have inside : before.length < (before++char::rest).length := by simp
    have shape : before++char::rest = before++[char]++rest := by simp
    have next : (before.length+1)%2^8 = (before++[char]).length := by
      rw [List.length_append,List.length_singleton]
      omega
    rw [readCoordinate,if_pos inside,getD_behind,next,shape]
    exact ih (before++[char]) _ (by simp only [List.length_append,List.length_singleton,maxTokenLength]; omega)
      (Nat.lt_of_succ_lt_succ enough)

theorem readCoordinate_exact {number : Text} (short : number.length ≤ maxTokenLength) (enough : 256 ≤ fuel) :
    readCoordinate number fuel 0 0 = some (readDigits number 0) := by
  have less : number.length < fuel := Nat.lt_of_le_of_lt short enough
  exact readCoordinate_from [] number 0 short less

theorem readCoordinate_endless {number : Text} (long : maxTokenLength < number.length) (fuel j : Nat) (coordinate : Int)
    (small : j ≤ maxTokenLength) : readCoordinate number fuel j coordinate = none := by
  induction fuel generalizing j coordinate with
  | zero => rfl
  | succ fuel ih =>
    rw [readCoordinate,if_pos (Nat.lt_of_le_of_lt small long)]
    exact ih _ _ (Nat.le_of_lt_succ (Nat.mod_lt _ (by decide)))

end Counters

section Pieces

theorem strtok_alone {isDelim : UInt8 → Bool} {text : Text} (some_ : text ≠ []) (plain : ∀ char ∈ text, isDelim char = false) :
    strtok isDelim text = [text] := by
  unfold strtok
  rw [List.splitOnP_eq_singleton plain]
  simp [some_]

theorem strtok_split {isDelim : UInt8 → Bool} (before rest : Text) {delim : UInt8} (cut : isDelim delim = true) :
    strtok isDelim (before++delim::rest) = strtok isDelim before++strtok isDelim rest := by
  unfold strtok
  rw [List.splitOnP_append_cons before rest cut,List.filter_append]

theorem strtok_skip {isDelim : UInt8 → Bool} (rest : Text) {delim : UInt8} (cut : isDelim delim = true) :
    strtok isDelim (delim::rest) = strtok isDelim rest := by
  rw [← List.nil_append (delim::rest),strtok_split [] rest cut]
  rfl

end Pieces

section Tokens
variable {fuel : Nat}

def tokensOf (variableName : Text) : List Text := strtok isDelimiter (variableName.filter (· ≠ space))

def numbersOf (token : Text) : List Text := strtok (· == comma) token

def classified (token : Text) : VariableNameType × Int :=
  ending (readDigits (token.takeWhile isDigit) 0) (token.dropWhile isDigit)

def tokenOf (token : Text) : VariableNameToken :=
  ⟨(classified token).1,if (classified token).1 = .localIndex then wrapIndex ((classified token).2-1) else (classified token).2,
    List.replicate hdf5MaxDims none,token⟩

def writeSlots : Nat → List Text → List (Option Int) → List (Option Int)
  | _,[],slots => slots
  | i,number::rest,slots => writeSlots (i+1) rest (slots.set i (some (readDigits number 0)))

def withCoordinates (vnt : VariableNameToken) : VariableNameToken :=
  if vnt.variableNameType = .localCoordinates then
    {vnt with variableLocalCoordinates:=writeSlots 0 (numbersOf vnt.variableLocalName) vnt.variableLocalCoordinates}
  else vnt

-- No loop runs into the limit of its counter.
def Bounded (vnt : VariableNameToken) : Prop :=
  vnt.variableNameType = .localCoordinates → ∀ number ∈ numbersOf vnt.variableLocalName, number.length ≤ maxTokenLength

theorem readToken_exact {token : Text} (short : leadingDigits token ≤ maxTokenLength) (enough : 256 ≤ fuel) :
    readToken fuel token = some (tokenOf token) := by
  unfold readToken
  rw [classify_exact short enough]
  rfl

theorem readToken_endless {token : Text} (long : maxTokenLength < leadingDigits token) (fuel : Nat) :
    readToken fuel token = none := by
  unfold readToken
  rw [classify_endless long fuel 0 0 (Nat.zero_le _)]
  rfl

theorem readToken_some {token : Text} (ran : readToken fuel token = some vnt) : vnt = tokenOf token := by
  have short : leadingDigits token ≤ maxTokenLength := by
    by_contra long
    rw [readToken_endless (Nat.lt_of_not_le long)] at ran
    cases ran
  obtain ⟨⟨type,index⟩,read,same⟩ := Option.bind_eq_some_iff.mp ran
  have exact_ := classify_exact short (Nat.le_add_left 256 fuel)
  rw [classify_more read 256] at exact_
  cases same
  have parts : (type,index) = classified token := Option.some.inj exact_
  unfold tokenOf
  rw [← parts]

theorem readCoordinates_exact {numbers : List Text} (short : ∀ number ∈ numbers, number.length ≤ maxTokenLength)
    (enough : 256 ≤ fuel) (i : Nat) (slots : List (Option Int)) :
    readCoordinates fuel i numbers slots = some (writeSlots i numbers slots) := by
  induction numbers generalizing i slots with
  | nil => rfl
  | cons number rest ih =>
    rw [readCoordinates,readCoordinate_exact (short number List.mem_cons_self) enough]
    exact ih (fun other member => short other (List.mem_cons_of_mem _ member)) (i+1) _

theorem readCoordinates_endless {numbers : List Text} (long : ∃ number ∈ numbers, maxTokenLength < number.length) (fuel i : Nat)
    (slots : List (Option Int)) : readCoordinates fuel i numbers slots = none := by
  induction numbers generalizing i slots with
  | nil =>
    obtain ⟨number,member,_⟩ := long
    cases member
  | cons number rest ih =>
    rw [readCoordinates]
    cases value : readCoordinate number fuel 0 0 with
    | none => rfl
    | some coordinate =>
      obtain ⟨other,member,more⟩ := long
      rcases List.mem_cons.mp member with rfl | later
      · rw [readCoordinate_endless more fuel 0 0 (Nat.zero_le _)] at value
        cases value
      · exact ih ⟨other,later,more⟩ (i+1) _

-- parseCoordinates comes to its end exactly if no coordinate is longer than its counter counts.
theorem parseCoordinates_exact (vnt : VariableNameToken) (short : ∀ number ∈ numbersOf vnt.variableLocalName, number.length ≤ maxTokenLength)
    (enough : 256 ≤ fuel) : parseCoordinates fuel vnt =
      some {vnt with variableLocalCoordinates:=writeSlots 0 (numbersOf vnt.variableLocalName) vnt.variableLocalCoordinates} := by
  unfold parseCoordinates
  rw [show strtok (· == comma) vnt.variableLocalName = numbersOf vnt.variableLocalName from rfl,
    readCoordinates_exact short enough]
  rfl

theorem parseCoordinates_endless (vnt : VariableNameToken)
    (long : ∃ number ∈ numbersOf vnt.variableLocalName, maxTokenLength < number.length) (fuel : Nat) :
    parseCoordinates fuel vnt = none := by
  unfold parseCoordinates
  rw [show strtok (· == comma) vnt.variableLocalName = numbersOf vnt.variableLocalName from rfl,
    readCoordinates_endless long]
  rfl

theorem readTokens_exact {tokens : List Text} (read : ∀ token ∈ tokens, readToken fuel token = some (tokenOf token))
    (heap : VarnameHeap) (tight : heap.varnameQueue.Tight) : ∃ queue, readTokens fuel tokens heap =
      some ⟨heap.tokens++tokens.map tokenOf,queue⟩ ∧ queue.Tight ∧
      queue.live = heap.varnameQueue.live++List.range' heap.tokens.length tokens.length ∧
      queue.nodes = heap.varnameQueue.nodes++List.range' heap.tokens.length tokens.length := by
  induction tokens generalizing heap with
  | nil => exact ⟨heap.varnameQueue,by rw [List.map_nil,List.append_nil]; rfl,tight,by simp,by simp⟩
  | cons token rest ih =>
    rw [readTokens,read token List.mem_cons_self]
    obtain ⟨queue,ran,tightAfter,live,nodes⟩ := ih (fun other member => read other (List.mem_cons_of_mem _ member))
      ⟨heap.tokens++[tokenOf token],enqueue heap.varnameQueue heap.tokens.length⟩ (NodeList.enqueue_tight tight _)
    refine ⟨queue,?_,tightAfter,?_,?_⟩
    · rw [List.map_cons,List.append_cons]
      exact ran
    · rw [live,show (enqueue heap.varnameQueue heap.tokens.length).live = _ from NodeList.enqueue_live tight _,
        List.length_append,List.length_singleton,List.append_assoc,List.length_cons,List.range'_succ]
      rfl
    · rw [nodes,List.length_append,List.length_singleton,List.length_cons,List.range'_succ]
      exact List.append_assoc _ _ _

theorem readTokens_parts {tokens : List Text} (ran : readTokens fuel tokens heap = some after) :
    ∀ token ∈ tokens, readToken fuel token = some (tokenOf token) := by
  induction tokens generalizing heap with
  | nil =>
    intro token member
    cases member
  | cons first rest ih =>
    obtain ⟨vnt,read,later⟩ := Option.bind_eq_some_iff.mp ran
    intro token member
    rcases List.mem_cons.mp member with rfl | inRest
    · rw [read,readToken_some read]
    · exact ih later token inRest

theorem set_same {items : List α} {i : Nat} (here : items[i]? = some item) : items.set i item = items := by
  obtain ⟨inside,rfl⟩ := List.getElem?_eq_some_iff.mp here
  exact List.set_getElem_self inside

-- The tokens in front of the queue are done.
structure Pending (heap : VarnameHeap) (done todo : List VariableNameToken) : Prop where
  tokens : heap.tokens = done++todo
  tight : heap.varnameQueue.Tight
  live : heap.varnameQueue.live = List.range' done.length todo.length

theorem Pending.next (pending : Pending heap done (vnt::todo)) : (dequeue heap.varnameQueue).1 = some done.length ∧
    heap.tokens[done.length]? = some vnt ∧ (dequeue heap.varnameQueue).2.nodes = heap.varnameQueue.nodes ∧
    ∀ other, Pending ⟨heap.tokens.set done.length other,(dequeue heap.varnameQueue).2⟩ (done++[other]) todo := by
  obtain ⟨head,tail,tight⟩ := NodeList.dequeue_exact pending.tight
  have live : heap.varnameQueue.live = done.length::List.range' (done.length+1) todo.length := by
    rw [pending.live,List.length_cons,List.range'_succ]
  refine ⟨?_,?_,NodeList.dequeue_nodes _,fun other => ⟨?_,tight,?_⟩⟩
  · rw [show (dequeue heap.varnameQueue).1 = heap.varnameQueue.live.head? from head,live]
    rfl
  · rw [pending.tokens,List.getElem?_append_right (Nat.le_refl _),Nat.sub_self]
    rfl
  · rw [pending.tokens,List.set_append_right _ _ (Nat.le_refl _),Nat.sub_self,List.append_assoc]
    rfl
  · rw [show (dequeue heap.varnameQueue).2.live = heap.varnameQueue.live.tail from tail,live,List.tail_cons,
      List.length_append,List.length_singleton]

theorem parseTokens_exact (pending : Pending heap done todo) (bounded : ∀ vnt ∈ todo, Bounded vnt) (enough : 256 ≤ fuel) :
    ∃ queue, parseTokens fuel todo.length heap = some ⟨done++todo.map withCoordinates,queue⟩ ∧
      queue.nodes = heap.varnameQueue.nodes := by
  induction todo generalizing heap done with
  | nil => exact ⟨heap.varnameQueue,by rw [List.map_nil,← pending.tokens]; rfl,rfl⟩
  | cons vnt todo ih =>
    obtain ⟨found,here,nodes,next⟩ := pending.next
    have rest := fun other member => bounded other (List.mem_cons_of_mem vnt member)
    rw [List.length_cons,parseTokens]
    simp only [found,here,Option.bind_eq_bind,Option.bind_some]
    unfold withCoordinates
    rw [List.map_cons,List.append_cons]
    by_cases coordinates : vnt.variableNameType = .localCoordinates
    · rw [if_pos coordinates,if_pos coordinates,
        parseCoordinates_exact vnt (bounded vnt List.mem_cons_self coordinates) enough,Option.bind_some]
      obtain ⟨queue,ran,same⟩ := ih (next _) rest
      exact ⟨queue,ran,same.trans nodes⟩
    · rw [if_neg coordinates,if_neg coordinates]
      have same := next vnt
      rw [set_same here] at same
      obtain ⟨queue,ran,kept⟩ := ih same rest
      exact ⟨queue,ran,kept.trans nodes⟩

theorem parseTokens_endless (pending : Pending heap done todo) (long : ∃ vnt ∈ todo, ¬Bounded vnt) (fuel : Nat) :
    parseTokens fuel todo.length heap = none := by
  induction todo generalizing heap done with
  | nil =>
    obtain ⟨vnt,member,_⟩ := long
    cases member
  | cons vnt todo ih =>
    obtain ⟨found,here,_,next⟩ := pending.next
    obtain ⟨other,member,unbounded⟩ := long
    rw [List.length_cons,parseTokens]
    simp only [found,here,Option.bind_eq_bind,Option.bind_some]
    by_cases coordinates : vnt.variableNameType = .localCoordinates
    · rw [if_pos coordinates]
      cases parsed : parseCoordinates fuel vnt with
      | none => rfl
      | some token =>
        rw [Option.bind_some]
        rcases List.mem_cons.mp member with rfl | later
        · obtain ⟨_,number,inside,more⟩ : other.variableNameType = .localCoordinates ∧
              ∃ number ∈ numbersOf other.variableLocalName, maxTokenLength < number.length := by
            simpa [Bounded] using unbounded
          rw [parseCoordinates_endless other ⟨number,inside,more⟩] at parsed
          cases parsed
        · exact ih (next token) ⟨other,later,unbounded⟩
    · rw [if_neg coordinates]
      rcases List.mem_cons.mp member with rfl | later
      · exact absurd (fun type => absurd type coordinates) unbounded
      · have same := next vnt
        rw [set_same here] at same
        exact ih same ⟨other,later,unbounded⟩

end Tokens

section Names
variable {fuel : Nat}

def Restarted (queue : Queue Nat) : Prop := restartQueue queue = queue

def VarnameHeap.queued (heap : VarnameHeap) : List (Option VariableNameToken) := heap.varnameQueue.live.map (heap.tokens[·]?)

def IsCoordinates (token : Text) : Prop := (token.dropWhile isDigit).head? = some comma

theorem classified_coordinates (token : Text) : (classified token).1 = .localCoordinates ↔ IsCoordinates token := by
  unfold classified IsCoordinates
  cases token.dropWhile isDigit with
  | nil => simp [ending]
  | cons char rest =>
    unfold ending
    by_cases cut : char = comma
    · simp [cut]
    · simp [cut]

-- A token at which a loop does not come to its end.
def Endless (token : Text) : Prop :=
  maxTokenLength < leadingDigits token ∨
    (IsCoordinates token ∧ ∃ number ∈ numbersOf token, maxTokenLength < number.length)

theorem start_pending (tokens : List Text) (tight : queue.Tight) (live : queue.live = List.range' 0 tokens.length) :
    Pending ⟨tokens.map tokenOf,queue⟩ [] (tokens.map tokenOf) :=
  ⟨rfl,tight,by rw [live,List.length_map]; rfl⟩

theorem makeVarnameQueue_exact (varnameQueue : Queue Nat) (name : CString)
    (ends : ∀ token ∈ tokensOf name.text, ¬Endless token) (enough : 256 ≤ fuel) :
    ∃ heap, makeVarnameQueue fuel varnameQueue name.text = some heap ∧ Restarted heap.varnameQueue ∧
      heap.queued = (tokensOf name.text).map fun token => some (withCoordinates (tokenOf token)) := by
  obtain ⟨source,squeezed,text⟩ := removeSpaces_exact name
  have short : ∀ token ∈ tokensOf name.text, readToken fuel token = some (tokenOf token) := fun token member =>
    readToken_exact (Nat.le_of_not_lt fun long => ends token member (.inl long)) enough
  have bounded : ∀ vnt ∈ (tokensOf name.text).map tokenOf, Bounded vnt := by
    intro vnt member coordinates number inside
    obtain ⟨token,listed,rfl⟩ := List.mem_map.mp member
    exact Nat.le_of_not_lt fun long => ends token listed (.inr ⟨(classified_coordinates token).mp coordinates,number,inside,long⟩)
  obtain ⟨queue,read,tight,live,nodes⟩ := readTokens_exact short ⟨[],(flushQueue varnameQueue).2⟩ NodeList.init_tight
  obtain ⟨after,parsed,same⟩ := parseTokens_exact (start_pending _ tight live) bounded enough
  have count : queue.length = ((tokensOf name.text).map tokenOf).length := by
    rw [tight.counted,live,List.length_map]
    exact List.length_range'
  refine ⟨⟨(tokensOf name.text).map (withCoordinates ∘ tokenOf),restartQueue after⟩,?_,?_,?_⟩
  · unfold makeVarnameQueue
    rw [squeezed,Option.bind_eq_bind,Option.bind_some,text,show strtok isDelimiter _ = tokensOf name.text from rfl,read]
    simp only [Option.bind_eq_bind,Option.bind_some,List.nil_append]
    rw [count,parsed]
    simp
  · rfl
  · unfold VarnameHeap.queued
    obtain ⟨all,_⟩ := NodeList.restart_exact after.toNodeList
    have numbers : queue.nodes = List.range' 0 (tokensOf name.text).length := nodes
    rw [show (restartQueue after).live = after.nodes from all,same,numbers]
    apply List.ext_getElem?
    intro i
    rw [List.getElem?_map,List.getElem?_map]
    by_cases inside : i < (tokensOf name.text).length
    · rw [List.getElem?_range' inside,List.getElem?_eq_getElem inside]
      simp [inside]
    · have outside := Nat.le_of_not_lt inside
      rw [List.getElem?_eq_none (by rw [List.length_range']; exact outside),List.getElem?_eq_none outside]
      rfl

theorem makeVarnameQueue_endless (varnameQueue : Queue Nat) (name : CString)
    (endless : ∃ token ∈ tokensOf name.text, Endless token) (fuel : Nat) :
    makeVarnameQueue fuel varnameQueue name.text = none := by
  obtain ⟨source,squeezed,text⟩ := removeSpaces_exact name
  unfold makeVarnameQueue
  rw [squeezed,Option.bind_eq_bind,Option.bind_some,text,show strtok isDelimiter _ = tokensOf name.text from rfl]
  cases read : readTokens fuel (tokensOf name.text) ⟨[],(flushQueue varnameQueue).2⟩ with
  | none => rfl
  | some heap =>
    have each := readTokens_parts read
    obtain ⟨queue,ran,tight,live,_⟩ := readTokens_exact each ⟨[],(flushQueue varnameQueue).2⟩ NodeList.init_tight
    rw [read] at ran
    cases ran
    have count : queue.length = ((tokensOf name.text).map tokenOf).length := by
      rw [tight.counted,live,List.length_map]
      exact List.length_range'
    have long : ∃ vnt ∈ (tokensOf name.text).map tokenOf, ¬Bounded vnt := by
      obtain ⟨token,member,endless⟩ := endless
      refine ⟨tokenOf token,List.mem_map_of_mem member,fun bounded => ?_⟩
      rcases endless with long | ⟨coordinates,number,inside,long⟩
      · have none_ := each token member
        rw [readToken_endless long] at none_
        cases none_
      · exact absurd (bounded ((classified_coordinates token).mpr coordinates) number inside) (Nat.not_le_of_lt long)
    simp only [Option.bind_eq_bind,Option.bind_some,List.nil_append]
    rw [count,parseTokens_endless (start_pending _ tight live) long]
    rfl

-- makeVarnameQueue returns exactly if no token starts with more than 255 digits and no
-- coordinate has more than 255 characters; parseCoordinates, by itself, if no coordinate has.
theorem varname_ends (varnameQueue : Queue Nat) (name : CString) (vnt : VariableNameToken) :
    ((∃ fuel heap, makeVarnameQueue fuel varnameQueue name.text = some heap) ↔ ∀ token ∈ tokensOf name.text, ¬Endless token) ∧
      ((∃ fuel after, parseCoordinates fuel vnt = some after) ↔
        ∀ number ∈ numbersOf vnt.variableLocalName, number.length ≤ maxTokenLength) := by
  refine ⟨⟨?_,fun ends => ?_⟩,?_,fun short => ?_⟩
  · rintro ⟨fuel,heap,ran⟩ token member endless
    rw [makeVarnameQueue_endless varnameQueue name ⟨token,member,endless⟩] at ran
    cases ran
  · obtain ⟨heap,ran,_⟩ := makeVarnameQueue_exact varnameQueue name ends (Nat.le_refl 256)
    exact ⟨256,heap,ran⟩
  · rintro ⟨fuel,after,ran⟩ number member
    by_contra long
    rw [parseCoordinates_endless vnt ⟨number,member,Nat.lt_of_not_le long⟩] at ran
    cases ran
  · exact ⟨256,_,parseCoordinates_exact vnt short (Nat.le_refl _)⟩

-- An index of 256 digits.
def longIndex : CString := ⟨List.replicate 256 49,fun char member => by rw [List.eq_of_mem_replicate member]; decide⟩

theorem longIndex_length : longIndex.text.length = 256 := List.length_replicate

theorem longIndex_endless : ¬ ∀ (varnameQueue : Queue Nat) (name : CString), name.text ≠ [] →
    ∃ fuel heap, makeVarnameQueue fuel varnameQueue name.text = some heap := by
  intro always
  have some_ : longIndex.text ≠ [] := List.ne_nil_of_length_pos (by rw [longIndex_length]; decide)
  have one : tokensOf longIndex.text = [longIndex.text] := by
    unfold tokensOf longIndex
    rw [List.filter_replicate_of_pos (by decide)]
    exact strtok_alone some_ fun char member => by rw [List.eq_of_mem_replicate member]; decide
  have endless : Endless longIndex.text := by
    refine .inl ?_
    unfold leadingDigits longIndex maxTokenLength
    rw [List.takeWhile_replicate,if_pos (by decide),List.length_replicate]
    decide
  obtain ⟨fuel,heap,ran⟩ := always initQueue longIndex some_
  rw [makeVarnameQueue_endless initQueue longIndex ⟨_,by rw [one]; exact List.mem_singleton_self _,endless⟩] at ran
  cases ran

end Names

section Simple

def simplify (vnt : VariableNameToken) : GetMatVar.VariableNameToken where
  variableNameType := match vnt.variableNameType with
    | .unknown => .localName
    | .localName => .localName
    | .localIndex => .localIndex vnt.variableLocalIndex
    | .localCoordinates => .localCoordinates (vnt.variableLocalCoordinates.filterMap id)
  variableLocalName := vnt.variableLocalName

theorem writeSlots_exact (numbers : List Text) (slots : List (Option Int)) (free : Nat) (fits : numbers.length ≤ free) :
    writeSlots slots.length numbers (slots++List.replicate free none) =
      slots++numbers.map (fun number => some (readDigits number 0))++List.replicate (free-numbers.length) none := by
  induction numbers generalizing slots free with
  | nil => simp [writeSlots]
  | cons number rest ih =>
    obtain ⟨free,rfl⟩ : ∃ k, free = k+1 := ⟨free-1,by simp at fits; omega⟩
    have written : (slots++List.replicate (free+1) none).set slots.length (some (readDigits number 0)) =
        slots++[some (readDigits number 0)]++List.replicate free none := by
      rw [List.set_append_right _ _ (Nat.le_refl _),Nat.sub_self,List.replicate_succ,List.append_assoc]
      rfl
    have next := ih (slots++[some (readDigits number 0)]) free (Nat.le_of_succ_le_succ fits)
    rw [List.length_append,List.length_singleton] at next
    rw [writeSlots,written,next]
    simp

theorem found_behind (token : Text) : token.find? (!isDigit ·) = (token.dropWhile isDigit).head? := by
  rw [List.find?_eq_head?_dropWhile_not]
  simp

def Wide (token : Text) : Prop := IsCoordinates token ∧ hdf5MaxDims < (numbersOf token).length

theorem parse_simple (token : Text) (ends : ∀ number ∈ numbersOf token, number.length ≤ maxTokenLength) :
    GetMatVar.parseCoordinates token =
      if (numbersOf token).length ≤ hdf5MaxDims then some ((numbersOf token).map (readDigits · 0)) else none := by
  unfold GetMatVar.parseCoordinates
  rw [show strtok (· == comma) token = numbersOf token from rfl]
  dsimp only
  have all_ : (numbersOf token).all (fun number => decide (number.length ≤ maxTokenLength)) = true := by
    rw [List.all_eq_true]
    exact fun number member => decide_eq_true (ends number member)
  simp only [all_,and_true]

theorem makeToken_parts (token : Text) : makeToken token =
    if maxTokenLength < leadingDigits token then none
    else if (classified token).1 = .localCoordinates then
      (GetMatVar.parseCoordinates token).map fun coordinates => ⟨.localCoordinates coordinates,token⟩
    else some (simplify (tokenOf token)) := by
  obtain ⟨_,_,whole⟩ := leading_parts token
  unfold makeToken simplify tokenOf classified leadingDigits
  rw [found_behind]
  cases behind : token.dropWhile isDigit with
  | nil =>
    rw [behind,List.append_nil] at whole
    rw [whole]
    dsimp only [List.head?_nil,ending]
    by_cases long : maxTokenLength < token.length
    · rw [if_pos long,if_neg (Nat.not_le_of_lt long)]
    · rw [if_neg long,if_pos (Nat.le_of_not_lt long)]
      rfl
  | cons char rest =>
    dsimp only [List.head?_cons]
    by_cases long : maxTokenLength < (token.takeWhile isDigit).length
    · rw [if_pos long,if_pos long]
    · rw [if_neg long,if_neg long]
      by_cases coordinates : char = comma
      · rw [if_pos coordinates]
        simp only [ending,if_pos coordinates,if_true]
        cases GetMatVar.parseCoordinates token <;> rfl
      · rw [if_neg coordinates]
        simp [ending,if_neg coordinates]

theorem makeToken_simple {token : Text} (ends : ¬Endless token) (narrow : ¬Wide token) :
    makeToken token = some (simplify (withCoordinates (tokenOf token))) := by
  rw [makeToken_parts,if_neg fun long => ends (.inl long)]
  unfold withCoordinates
  by_cases coordinates : (classified token).1 = .localCoordinates
  · have commas := (classified_coordinates token).mp coordinates
    have short : ∀ number ∈ numbersOf token, number.length ≤ maxTokenLength := fun number member =>
      Nat.le_of_not_lt fun long => ends (.inr ⟨commas,number,member,long⟩)
    have fits : (numbersOf token).length ≤ hdf5MaxDims := Nat.le_of_not_lt fun wide => narrow ⟨commas,wide⟩
    have written := writeSlots_exact (numbersOf token) [] hdf5MaxDims fits
    rw [if_pos coordinates,parse_simple token short,if_pos fits,
      if_pos (show (tokenOf token).variableNameType = .localCoordinates from coordinates)]
    simp only [simplify,tokenOf,coordinates,Option.map_some]
    rw [List.length_nil,List.nil_append,List.nil_append] at written
    rw [written,List.filterMap_append,List.filterMap_replicate_of_none rfl,List.append_nil,List.filterMap_map]
    simp
  · rw [if_neg coordinates,if_neg (show ¬(tokenOf token).variableNameType = .localCoordinates from coordinates)]

theorem makeToken_refused {token : Text} (bad : Endless token ∨ Wide token) : makeToken token = none := by
  rw [makeToken_parts]
  by_cases long : maxTokenLength < leadingDigits token
  · rw [if_pos long]
  · rw [if_neg long]
    have parsed : (classified token).1 = .localCoordinates ∧ GetMatVar.parseCoordinates token = none := by
      unfold GetMatVar.parseCoordinates
      rw [show strtok (· == comma) token = numbersOf token from rfl]
      rcases bad with (more | ⟨coordinates,number,member,more⟩) | ⟨coordinates,wide⟩
      · exact absurd more long
      · refine ⟨(classified_coordinates token).mpr coordinates,if_neg fun both => ?_⟩
        have short := List.all_eq_true.mp both.2 number member
        exact absurd (of_decide_eq_true short) (Nat.not_le_of_lt more)
      · exact ⟨(classified_coordinates token).mpr coordinates,if_neg fun both => absurd both.1 (Nat.not_le_of_lt wide)⟩
    rw [if_pos parsed.1,parsed.2]
    rfl

-- The simpler model gives the tokens that varname_queue holds, and none exactly where a loop
-- does not end or a coordinate is behind the last slot.
theorem makeVarnameQueue_simple (name : CString) (tokens : List GetMatVar.VariableNameToken) :
    GetMatVar.makeVarnameQueue name.text = some tokens ↔ (∀ token ∈ tokensOf name.text, ¬Endless token ∧ ¬Wide token) ∧
      tokens = (tokensOf name.text).map fun token => simplify (withCoordinates (tokenOf token)) := by
  unfold GetMatVar.makeVarnameQueue
  rw [show strtok isDelimiter _ = tokensOf name.text from rfl]
  generalize tokensOf name.text = all_
  induction all_ generalizing tokens with
  | nil => simp [eq_comm]
  | cons token rest ih =>
    by_cases bad : Endless token ∨ Wide token
    · rw [List.mapM_cons,makeToken_refused bad]
      refine ⟨fun none_ => (by cases none_),fun both => ?_⟩
      obtain ⟨ends,narrow⟩ := both.1 token List.mem_cons_self
      exact absurd bad (not_or.mpr ⟨ends,narrow⟩)
    · obtain ⟨ends,narrow⟩ := not_or.mp bad
      rw [List.mapM_cons,makeToken_simple ends narrow]
      cases later : rest.mapM makeToken with
      | none =>
        refine ⟨fun none_ => (by cases none_),fun both => ?_⟩
        have some_ := (ih (rest.map fun token => simplify (withCoordinates (tokenOf token)))).mpr
          ⟨fun other member => both.1 other (List.mem_cons_of_mem _ member),rfl⟩
        rw [later] at some_
        cases some_
      | some made =>
        obtain ⟨good,same⟩ := (ih made).mp later
        subst same
        simp only [Option.bind_eq_bind,Option.bind_some,Option.pure_def,Option.some.injEq,List.map_cons]
        refine ⟨fun equal => ⟨fun other member => ?_,equal.symm⟩,fun both => both.2.symm⟩
        rcases List.mem_cons.mp member with rfl | inRest
        · exact ⟨ends,narrow⟩
        · exact good other inRest

end Simple
end VarnameQueue
end GetMatVar
