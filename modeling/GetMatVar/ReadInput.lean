import GetMatVar.VarnameQueue
import Mathlib.Data.Rat.Defs

namespace GetMatVar
namespace ReadInput
open VarnameQueue

def dash : UInt8 := 45

-- The arguments as far as readInput looks at them. The value of a scalar is the double
-- that mxGetScalar gives, none where it is not finite.
inductive MxArray where
  | char (chars : Text)
  | string
  | numeric (numElements : Nat) (scalar : Option Rat)
  | other
deriving DecidableEq

inductive Kwarg where
  | notAnArgument
  | threadKwarg
  | mtKwarg
  | suppressWarn
deriving DecidableEq,Repr

-- An element of full_variable_names.
inductive Slot where
  | unset
  | name (text : Text)
  | null
deriving DecidableEq,Repr

-- An error of MATLAB, or a conversion that C does not define.
inductive Stop where
  | error (errorId message : String)
  | undefined
deriving DecidableEq,Repr

def invalidInputType : Stop := .error "getmatvar:invalidInputType" "This function does not support strings.\n\n"

def invalidFileNameType : Stop := .error "getmatvar:invalidFileNameType" "The file name must be a character vector\n\n"

def invalidNumThreadsError : Stop :=
  .error "getmatvar:invalidNumThreadsError" "Error in the number of threads requested.\n\n"

def tooManyThreadsError : Stop := .error "getmatvar:tooManyThreadsError" "Too many threads were requested.\n\n"

def notAnArgument : Stop := .error "getmatvar:notAnArgument" "The specified keyword argument does not exist.\n\n"

def emptyArgument : Stop :=
  .error "getmatvar:invalidArgument" "Variable names and keyword identifiers must have non-zero length.\n\n"

def invalidArgument : Stop :=
  .error "getmatvar:invalidArgument" "Variable names and keyword identifiers must be character vectors.\n\n"

-- The parameters, what initialize has set, and the two flags of the loop.
structure InputState where
  filename : Text
  numVars : Nat
  fullVariableNames : List Slot
  kwargExpected : Kwarg
  kwargFlag : Bool
  numThreadsUserDef : Int
  willMultithread : Bool
  willSuppressWarnings : Bool
deriving DecidableEq,Repr

def truncated (scalar : Rat) : Int := scalar.num.tdiv scalar.den

def scalarToInt : Option Rat → Except Stop Int
  | none => .error .undefined
  | some scalar =>
    if -2^31 ≤ truncated scalar ∧ truncated scalar < 2^31 then .ok (truncated scalar) else .error .undefined

def decimal (digits : Text) : Nat := digits.foldl (fun number digit => 10*number+(digit.toNat-48)) 0

-- A long has 64 bits; a larger number gives LONG_MAX.
def strtol (digits : Text) : Nat := min (decimal digits) (2^63-1)

def longToInt (number : Int) : Int := (number+2^31)%2^32-2^31

-- An int is never LONG_MAX or LONG_MIN, so the test for them is left out. A value of
-- another kind leaves the number as it was.
def requestedThreads (numThreadsUserDef : Int) : MxArray → Except Stop Int
  | .numeric 1 scalar => scalarToInt scalar
  | .char chars =>
    if chars = [] ∨ chars.all isDigit = false then .error invalidNumThreadsError else .ok (longToInt (strtol chars))
  | _ => .ok numThreadsUserDef

def threadKwarg (numThreadsUserDef : Int) (arg : MxArray) : Except Stop Int := do
  let requested ← requestedThreads numThreadsUserDef arg
  if requested < 0 then .error tooManyThreadsError
  else if requested = 0 then .ok (-1)
  else .ok requested

-- A store behind the last slot would be lost here.
def InputState.store (s : InputState) (slot : Slot) : InputState :=
  {s with fullVariableNames:=s.fullVariableNames.set s.numVars slot}

def readArgument (s : InputState) (arg : MxArray) : Except Stop InputState :=
  if arg = .string then .error invalidInputType
  else if s.kwargFlag then
    match s.kwargExpected with
    | .threadKwarg => do
      let requested ← threadKwarg s.numThreadsUserDef arg
      .ok {s with numThreadsUserDef:=requested,kwargExpected:=.notAnArgument,kwargFlag:=false}
    | _ => .error notAnArgument
  else
    match arg with
    | .char chars =>
      let input := stringIn chars
      if input = [] then .error emptyArgument
      else if input.head? = some dash then
        if input = textOf "-t" then .ok {s with kwargFlag:=true,kwargExpected:=.threadKwarg}
        else if input = textOf "-suppress-warnings" ∨ input = textOf "-sw" then
          .ok {s with willSuppressWarnings:=true,kwargFlag:=false}
        else if input = textOf "-st" then .ok {s with willMultithread:=false,kwargFlag:=false}
        else .error notAnArgument
      else .ok {s.store (.name input) with kwargExpected:=.notAnArgument,numVars:=s.numVars+1}
    | _ => .error invalidArgument

-- Without names the list is made anew with one empty name.
def terminateNames (s : InputState) : InputState :=
  let s := if s.numVars = 0 then {s with fullVariableNames:=[.name [],.unset],numVars:=1} else s
  s.store .null

def startInput (filename : Text) (nrhs : Nat) : InputState where
  filename := filename
  numVars := 0
  fullVariableNames := List.replicate nrhs .unset
  kwargExpected := .notAnArgument
  kwargFlag := false
  numThreadsUserDef := -1
  willMultithread := true
  willSuppressWarnings := false

def readInput (filename : MxArray) (args : List MxArray) : Except Stop InputState :=
  match filename with
  | .char chars => do
    let s ← args.foldlM readArgument (startInput (stringIn chars) (args.length+1))
    .ok (terminateNames s)
  | _ => .error invalidFileNameType

section Arguments

def MxArray.isThreads : MxArray → Bool
  | .char chars => stringIn chars = textOf "-t"
  | _ => false

def MxArray.name : MxArray → List Text
  | .char chars => if (stringIn chars).head? = some dash then [] else [stringIn chars]
  | _ => []

def names : List MxArray → List Text
  | [] => []
  | [arg] => arg.name
  | arg::next::rest => if arg.isThreads then names rest else arg.name++names (next::rest)

def values : List MxArray → List MxArray
  | [] => []
  | [_] => []
  | arg::next::rest => if arg.isThreads then next::values rest else values (next::rest)

def Valued : List MxArray → Prop
  | [] => True
  | [arg] => arg.isThreads = false
  | arg::next::rest => if arg.isThreads then Valued rest else Valued (next::rest)

-- The whole number that a value gives: of a scalar what is in front of the point, of
-- digits the number that they write.
inductive Denotes : MxArray → Int → Prop where
  | scalar : Denotes (.numeric 1 (some scalar)) (truncated scalar)
  | digits : chars ≠ [] → chars.all isDigit = true → Denotes (.char chars) (decimal chars)

def threadsFor (number : Int) : Int := if number = 0 then -1 else number

end Arguments

section Steps

theorem bind_ok {run : Except Stop α} {next : α → Except Stop β} (ran : (run >>= next) = .ok result) :
    ∃ value, run = .ok value ∧ next value = .ok result := by
  cases run with
  | error stop => cases ran
  | ok value => exact ⟨value,rfl,ran⟩

theorem threadKwarg_number (denotes : Denotes arg number) (small : number < 2^31)
    (ran : threadKwarg before arg = .ok requested) : requested = threadsFor number := by
  obtain ⟨taken,read,rest⟩ := bind_ok ran
  have same : taken = number := by
    cases denotes with
    | scalar =>
      simp only [requestedThreads,scalarToInt] at read
      split at read
      · exact (Except.ok.inj read).symm
      · cases read
    | @digits chars some_ digits =>
      simp only [requestedThreads,some_,digits,Bool.true_eq_false,or_self,if_false] at read
      have fits : strtol chars = decimal chars := Nat.min_eq_left (by omega)
      rw [← Except.ok.inj read,fits]
      unfold longToInt
      omega
  rw [same] at rest
  unfold threadsFor
  split at rest
  · cases rest
  · split at rest
    · next zero => rw [if_pos zero,← Except.ok.inj rest]
    · next positive => rw [if_neg positive,← Except.ok.inj rest]

theorem readArgument_value (flag : s.kwargFlag = true) (expected : s.kwargExpected = .threadKwarg)
    (ran : readArgument s arg = .ok after) : ∃ requested, threadKwarg s.numThreadsUserDef arg = .ok requested ∧
      after = {s with numThreadsUserDef:=requested,kwargExpected:=.notAnArgument,kwargFlag:=false} := by
  unfold readArgument at ran
  split at ran
  · cases ran
  · rw [expected] at ran
    obtain ⟨requested,read,rest⟩ := bind_ok ran
    exact ⟨requested,read,(Except.ok.inj rest).symm⟩

inductive Taken (s : InputState) : MxArray → InputState → Prop where
  | threads : stringIn chars = textOf "-t" → Taken s (.char chars) {s with kwargFlag:=true,kwargExpected:=.threadKwarg}
  | flag : stringIn chars ≠ textOf "-t" → (stringIn chars).head? = some dash → after.numVars = s.numVars →
      after.fullVariableNames = s.fullVariableNames → after.numThreadsUserDef = s.numThreadsUserDef →
      after.kwargFlag = false → Taken s (.char chars) after
  | name : stringIn chars ≠ [] → (stringIn chars).head? ≠ some dash →
      Taken s (.char chars) {s.store (.name (stringIn chars)) with kwargExpected:=.notAnArgument,numVars:=s.numVars+1}

theorem readArgument_taken (clear : s.kwargFlag = false) (ran : readArgument s arg = .ok after) : Taken s arg after := by
  unfold readArgument at ran
  split at ran
  · cases ran
  · rw [if_neg (by rw [clear]; exact Bool.false_ne_true)] at ran
    cases arg with
    | char chars =>
      simp only at ran
      split at ran
      · cases ran
      · next some_ =>
        split at ran
        · next dashed =>
          split at ran
          · next threads => exact Except.ok.inj ran ▸ .threads threads
          · next other =>
            split at ran
            · exact Except.ok.inj ran ▸ .flag other dashed rfl rfl rfl rfl
            · split at ran
              · exact Except.ok.inj ran ▸ .flag other dashed rfl rfl rfl rfl
              · cases ran
        · next plain => exact Except.ok.inj ran ▸ .name some_ plain
    | _ => cases ran

end Steps

section Runs

def Holds (s : InputState) (known : List Text) (left : Nat) : Prop :=
  s.numVars = known.length ∧ ∃ room, left ≤ room ∧ s.fullVariableNames = known.map .name++List.replicate room .unset

theorem Holds.fewer (holds : Holds s known left) (fewer : less ≤ left) : Holds s known less := by
  obtain ⟨count,room,enough,slots⟩ := holds
  exact ⟨count,room,Nat.le_trans fewer enough,slots⟩

theorem Holds.keep (holds : Holds s known left) (count : after.numVars = s.numVars)
    (slots : after.fullVariableNames = s.fullVariableNames) : Holds after known left := by
  unfold Holds
  rw [count,slots]
  exact holds

theorem store_next (slot : Slot) (holds : Holds s known (left+1)) : ∃ room, left ≤ room ∧
    (s.store slot).fullVariableNames = known.map .name++slot::List.replicate room .unset := by
  obtain ⟨count,room,enough,slots⟩ := holds
  obtain ⟨room,rfl⟩ := Nat.exists_eq_add_one_of_ne_zero (show room ≠ 0 by omega)
  refine ⟨room,by omega,?_⟩
  unfold InputState.store
  simp only [slots,count]
  rw [List.set_append_right _ _ (by simp),List.replicate_succ]
  simp

theorem Holds.name (text : Text) (holds : Holds s known (left+1)) :
    Holds {s.store (.name text) with kwargExpected:=.notAnArgument,numVars:=s.numVars+1} (known++[text]) left := by
  obtain ⟨room,enough,slots⟩ := store_next (.name text) holds
  refine ⟨?_,room,enough,?_⟩
  · rw [List.length_append,← holds.1]
    rfl
  · rw [List.map_append,List.append_assoc]
    exact slots

theorem threads_dashed (threads : stringIn chars = textOf "-t") : (stringIn chars).head? = some dash := by
  rw [threads]
  decide

structure Read (args : List MxArray) (s after : InputState) (known : List Text) (left : Nat) : Prop where
  holds : Holds after (known++names args) left
  threads : (values args).foldlM threadKwarg s.numThreadsUserDef = .ok after.numThreadsUserDef
  named : ∀ name ∈ names args, name ≠ []

-- The induction follows names, which takes a -t and its value in one step.
theorem foldlM_read (args : List MxArray) (clear : s.kwargFlag = false) (holds : Holds s known (args.length+left))
    (ran : args.foldlM readArgument s = .ok after) : Read args s after known left := by
  induction args using names.induct generalizing s known with
  | case1 =>
    cases Except.ok.inj ran
    exact ⟨by simpa [names] using holds,rfl,fun _ member => by cases member⟩
  | case2 arg =>
    obtain ⟨next,read,rest⟩ := bind_ok ran
    cases Except.ok.inj rest
    have more : Holds s known (left+1) := by
      rwa [List.length_singleton,Nat.add_comm] at holds
    cases readArgument_taken clear read with
    | threads threads =>
      have none_ : names [.char _] = [] := if_pos (threads_dashed threads)
      refine ⟨?_,rfl,fun _ member => by rw [none_] at member; cases member⟩
      rw [none_,List.append_nil]
      exact (more.fewer (Nat.le_succ left)).keep rfl rfl
    | flag _ dashed count slots kept _ =>
      have none_ : names [.char _] = [] := if_pos dashed
      refine ⟨?_,congrArg Except.ok kept.symm,fun _ member => by rw [none_] at member; cases member⟩
      rw [none_,List.append_nil]
      exact (more.fewer (Nat.le_succ left)).keep count slots
    | name some_ plain =>
      have one : names [.char _] = [_] := if_neg plain
      refine ⟨?_,rfl,fun _ member => ?_⟩
      · rw [one]
        exact more.name _
      · rw [one] at member
        rw [List.mem_singleton.mp member]
        exact some_
  | case3 arg value rest threads ih =>
    obtain ⟨flagged,read,later⟩ := bind_ok ran
    obtain ⟨valued,readValue,last⟩ := bind_ok later
    have here : names (arg::value::rest) = names rest := by rw [names,if_pos threads]
    have there : values (arg::value::rest) = value::values rest := by rw [values,if_pos threads]
    cases readArgument_taken clear read with
    | threads =>
      obtain ⟨requested,asked,rfl⟩ := readArgument_value rfl rfl readValue
      have fewer : Holds s known (rest.length+left) := holds.fewer (by simp; omega)
      obtain ⟨after_,chain,named⟩ := ih (by rfl) (by exact fewer.keep rfl rfl) last
      refine ⟨here ▸ after_,?_,here ▸ named⟩
      rw [there,List.foldlM_cons,asked]
      exact chain
    | flag other => exact absurd (of_decide_eq_true threads) other
    | name _ plain => exact absurd (threads_dashed (of_decide_eq_true threads)) plain
  | case4 arg value rest other ih =>
    obtain ⟨next,read,later⟩ := bind_ok ran
    have here : names (arg::value::rest) = arg.name++names (value::rest) := by rw [names,if_neg other]
    have there : values (arg::value::rest) = values (value::rest) := by rw [values,if_neg other]
    have more : Holds s known ((value::rest).length+left+1) := by
      rwa [List.length_cons,Nat.add_right_comm] at holds
    cases readArgument_taken clear read with
    | threads threads => exact absurd (decide_eq_true threads) other
    | flag _ dashed count slots kept off =>
      have none_ : MxArray.name (.char _) = [] := if_pos dashed
      rw [none_,List.nil_append] at here
      obtain ⟨after_,chain,named⟩ := ih off ((more.fewer (Nat.le_succ _)).keep count slots) later
      refine ⟨here ▸ after_,?_,here ▸ named⟩
      rw [there,← kept]
      exact chain
    | name some_ plain =>
      have one : MxArray.name (.char _) = [_] := if_neg plain
      rw [one] at here
      obtain ⟨after_,chain,named⟩ := ih (by exact clear) (by exact more.name _) later
      refine ⟨?_,?_,fun name member => ?_⟩
      · rw [here,← List.append_assoc]
        exact after_
      · rw [there]
        exact chain
      · rw [here] at member
        rcases List.mem_append.mp member with first | rest_
        · rw [List.mem_singleton.mp first]
          exact some_
        · exact named name rest_

theorem readArgument_slots (ran : readArgument s arg = .ok after) :
    after.fullVariableNames.length = s.fullVariableNames.length := by
  cases flag : s.kwargFlag with
  | false =>
    cases readArgument_taken flag ran with
    | threads => rfl
    | flag _ _ _ slots => rw [slots]
    | name => exact List.length_set
  | true =>
    unfold readArgument at ran
    split at ran
    · cases ran
    · split at ran
      · obtain ⟨requested,_,rest⟩ := bind_ok ran
        exact Except.ok.inj rest ▸ rfl
      · cases ran

theorem foldlM_slots {args : List MxArray} {s after : InputState} (ran : args.foldlM readArgument s = .ok after) :
    after.fullVariableNames.length = s.fullVariableNames.length := by
  induction args generalizing s with
  | nil => rw [Except.ok.inj ran]
  | cons arg rest ih =>
    obtain ⟨next,read,later⟩ := bind_ok ran
    exact (ih later).trans (readArgument_slots read)

theorem foldlM_last {values : List MxArray} (last : values.getLast? = some value)
    (ran : values.foldlM threadKwarg start = .ok requested) : ∃ before, threadKwarg before value = .ok requested := by
  induction values generalizing start with
  | nil => cases last
  | cons first rest ih =>
    obtain ⟨next,read,later⟩ := bind_ok ran
    cases rest with
    | nil =>
      cases Option.some.inj last
      cases Except.ok.inj later
      exact ⟨start,read⟩
    | cons second rest => exact ih (by simpa using last) later

end Runs

-- The names as they are passed on: an empty one asks for everything.
def collected (args : List MxArray) : List Text := if names args = [] then [[]] else names args

def slotsFor (args : List MxArray) : Nat := if names args = [] then 2 else args.length+1

def Lists (input : InputState) (texts : List Text) (slots : Nat) : Prop :=
  input.numVars = texts.length ∧ input.fullVariableNames.length = slots ∧
    input.fullVariableNames.take (input.numVars+1) = texts.map .name++[.null]

theorem accepted_parts (accepted : readInput filename args = .ok input) : ∃ chars s, filename = .char chars ∧
    Read args (startInput (stringIn chars) (args.length+1)) s [] 1 ∧ s.fullVariableNames.length = args.length+1 ∧
    input = terminateNames s := by
  cases filename with
  | char chars =>
    obtain ⟨s,ran,rest⟩ := bind_ok accepted
    have holds : Holds (startInput (stringIn chars) (args.length+1)) [] (args.length+1) :=
      ⟨rfl,args.length+1,Nat.le_refl _,rfl⟩
    exact ⟨chars,s,rfl,foldlM_read args rfl holds ran,(foldlM_slots ran).trans List.length_replicate,
      (Except.ok.inj rest).symm⟩
  | _ => cases accepted

theorem accepted_lists (accepted : readInput filename args = .ok input) : Lists input (collected args) (slotsFor args) := by
  obtain ⟨chars,s,_,read,slots,rfl⟩ := accepted_parts accepted
  have count : s.numVars = (names args).length := read.holds.1
  unfold Lists collected slotsFor terminateNames
  by_cases none_ : names args = []
  · have zero : s.numVars = 0 := by
      rw [count,none_]
      rfl
    rw [if_pos none_,if_pos none_]
    rw [if_pos zero]
    exact ⟨rfl,rfl,rfl⟩
  · have some_ : s.numVars ≠ 0 := by
      rw [count]
      exact fun zero => none_ (List.length_eq_zero_iff.mp zero)
    rw [if_neg none_,if_neg none_]
    rw [if_neg some_]
    obtain ⟨room,_,stored⟩ := store_next .null read.holds
    refine ⟨count,List.length_set.trans slots,?_⟩
    rw [stored]
    change List.take (s.numVars+1) _ = _
    rw [count,List.nil_append,← List.length_map Slot.name,List.take_length_add_append]
    rfl

theorem accepted_threads (accepted : readInput filename args = .ok input) :
    (values args).foldlM threadKwarg (-1) = .ok input.numThreadsUserDef := by
  obtain ⟨chars,s,_,read,_,rfl⟩ := accepted_parts accepted
  have kept : (terminateNames s).numThreadsUserDef = s.numThreadsUserDef := by
    unfold terminateNames
    dsimp only
    split <;> rfl
  rw [kept]
  exact read.threads

-- What an accepted list of arguments comes to: the names in order, and the number of
-- threads that the last value gives.
theorem readInput_accepted (filename : MxArray) (args : List MxArray) (input : InputState)
    (accepted : readInput filename args = .ok input) :
    Lists input (collected args) (slotsFor args) ∧
    ((values args).getLast? = none → input.numThreadsUserDef = -1) ∧
    ∀ value number, (values args).getLast? = some value → Denotes value number → number < 2^31 →
      input.numThreadsUserDef = threadsFor number := by
  have chain := accepted_threads accepted
  refine ⟨accepted_lists accepted,fun none_ => ?_,fun value number last denotes small => ?_⟩
  · rw [List.getLast?_eq_none_iff.mp none_] at chain
    exact (Except.ok.inj chain).symm
  · obtain ⟨before,read⟩ := foldlM_last last chain
    exact threadKwarg_number denotes small read

def argument (text : String) : MxArray := .char (textOf text)

theorem readInput_accepted_x : ∃ input, readInput (argument "f.mat") [argument "x",argument "-t",argument "12"] = .ok input ∧
    Lists input [textOf "x"] 4 ∧ input.numThreadsUserDef = 12 := by
  obtain ⟨input,accepted⟩ : ∃ input, readInput (argument "f.mat") [argument "x",argument "-t",argument "12"] = .ok input :=
    ⟨_,rfl⟩
  obtain ⟨lists,_,threads⟩ := readInput_accepted _ _ _ accepted
  exact ⟨input,accepted,lists,threads _ _ rfl (.digits (by decide) (by decide)) (by decide)⟩

-- The list without the empty name, a value behind every -t, and a number for the last one.
def AsStated (args : List MxArray) (input : InputState) : Prop :=
  Lists input (names args) (args.length+1) ∧ Valued args ∧
    match (values args).getLast? with
    | none => input.numThreadsUserDef = -1
    | some value => ∃ number, Denotes value number ∧ input.numThreadsUserDef = threadsFor number

-- Without names the list is not empty; a -t at the end is accepted, and 2^32+1 is taken for 1.
theorem readInput_asStated :
    (∃ input, readInput (argument "f.mat") [] = .ok input ∧ ¬AsStated [] input) ∧
    (∃ input, readInput (argument "f.mat") [argument "-t"] = .ok input ∧ ¬AsStated [argument "-t"] input) ∧
    ∃ input, readInput (argument "f.mat") [argument "-t",argument "4294967297"] = .ok input ∧
      ¬AsStated [argument "-t",argument "4294967297"] input := by
  refine ⟨⟨_,rfl,fun stated => ?_⟩,⟨_,rfl,fun stated => ?_⟩,⟨_,rfl,fun stated => ?_⟩⟩
  · exact absurd stated.1.1 (by decide)
  · exact Bool.noConfusion (stated.2.1 : true = false)
  · obtain ⟨number,denotes,threads⟩ := stated.2.2
    cases denotes with
    | digits => exact absurd threads (by decide)

end ReadInput
end GetMatVar
