import GetMatVar.ReadInput

namespace GetMatVar
namespace LoadsEverything
open ReadInput VarnameQueue

-- nargin == 1 || varargin{1}(1) == '-', where getmatvar_ has accepted the arguments.
def loadsEverything : List ReadInput.MxArray → Bool
  | [] => true
  | .char chars::_ => chars.head? = some dash
  | _ => false

-- What a call of the wrapper comes to: variables in the caller's workspace, output
-- arguments, or an index behind the last field.
inductive Outcome (α : Type) where
  | assigned (fields : List (Text × α))
  | returned (values : List α)
  | indexError

-- vn and the structure from getmatvar_, as names and values.
def getmatvar (fields : List (Text × α)) (nargout : Nat) (args : List ReadInput.MxArray) : Outcome α :=
  if loadsEverything args then .assigned fields
  else if max nargout 1 ≤ fields.length then .returned ((fields.take (max nargout 1)).map (·.2))
  else .indexError

def NoneCollected (input : InputState) : Prop := input.fullVariableNames = [.name [],.null]

def flagFirst : List ReadInput.MxArray → Bool
  | .char chars::_ => (stringIn chars).head? = some dash
  | _ => false

def NameBehindFlag (args : List ReadInput.MxArray) : Prop := flagFirst args = true ∧ names args ≠ []

section Accepted
variable {filename : ReadInput.MxArray} {args : List ReadInput.MxArray} {input : InputState}

theorem stringIn_head (some_ : stringIn chars ≠ []) : (stringIn chars).head? = chars.head? := by
  cases chars with
  | nil => rfl
  | cons char rest =>
    unfold stringIn at some_ ⊢
    by_cases used : char ≠ 0
    · rw [List.takeWhile_cons_of_pos (by simpa using used)]
      rfl
    · rw [List.takeWhile_cons_of_neg (by simpa using used)] at some_
      exact absurd rfl some_

theorem accepted_named (accepted : readInput filename args = .ok input) : ∀ name ∈ names args, name ≠ [] := by
  obtain ⟨_,_,_,read,_⟩ := accepted_parts accepted
  exact read.named

theorem none_exact (accepted : readInput filename args = .ok input) : NoneCollected input ↔ names args = [] := by
  obtain ⟨count,length,slots⟩ := accepted_lists accepted
  unfold NoneCollected
  constructor
  · intro none_
    by_contra some_
    unfold collected at slots
    rw [if_neg some_,none_] at slots
    cases listed : names args with
    | nil => exact some_ listed
    | cons name rest =>
      rw [listed,List.map_cons] at slots
      have first := congrArg List.head? slots
      have empty : name = [] := by simpa using first.symm
      exact accepted_named accepted name (by rw [listed]; exact List.mem_cons_self) empty
  · intro none_
    unfold collected at count slots
    unfold slotsFor at length
    rw [if_pos none_] at count slots length
    rw [count] at slots
    rwa [List.take_of_length_le (by rw [length]; exact Nat.le_refl 2)] at slots

theorem accepted_first (accepted : readInput filename args = .ok input) :
    args = [] ∨ loadsEverything args = flagFirst args ∧ (flagFirst args = false → names args ≠ []) := by
  cases args with
  | nil => exact .inl rfl
  | cons arg rest =>
    obtain ⟨chars,_,_,_⟩ := accepted_parts accepted
    subst filename
    obtain ⟨_,ran,_⟩ := bind_ok accepted
    obtain ⟨_,read,_⟩ := bind_ok ran
    have begins {text : Text} (some_ : stringIn text ≠ []) :
        loadsEverything (.char text::rest) = flagFirst (.char text::rest) := by
      simp only [loadsEverything,flagFirst,stringIn_head some_]
    have flagged {text : Text} (dashed : (stringIn text).head? = some dash) : flagFirst (.char text::rest) = true :=
      decide_eq_true dashed
    right
    cases readArgument_taken rfl read with
    | threads threads =>
      have some_ : stringIn _ ≠ [] := fun none_ => absurd (none_.symm.trans threads) (by decide)
      refine ⟨begins some_,fun plain => ?_⟩
      rw [flagged (threads_dashed threads)] at plain
      cases plain
    | flag _ dashed =>
      have some_ : stringIn _ ≠ [] := fun none_ => by
        rw [none_] at dashed
        cases dashed
      refine ⟨begins some_,fun plain => ?_⟩
      rw [flagged dashed] at plain
      cases plain
    | name some_ plain =>
      refine ⟨begins some_,fun _ => ?_⟩
      have here : ReadInput.MxArray.name (.char _) = [_] := if_neg plain
      cases rest with
      | nil =>
        rw [names,here]
        exact List.cons_ne_nil _ _
      | cons next rest =>
        have other : ReadInput.MxArray.isThreads (.char _) = false :=
          decide_eq_false fun threads => plain (threads_dashed threads)
        rw [names,if_neg (by rw [other]; exact Bool.false_ne_true),here]
        exact List.cons_ne_nil _ _

theorem loads_exact (accepted : readInput filename args = .ok input) :
    (loadsEverything args = true ↔ NoneCollected input) ↔ ¬NameBehindFlag args := by
  rw [none_exact accepted]
  unfold NameBehindFlag
  rcases accepted_first accepted with rfl | ⟨same,named⟩
  · simp [loadsEverything,names]
  · rw [same]
    cases first : flagFirst args with
    | true => simp
    | false => simp [named first]

end Accepted

-- The wrapper loads everything exactly where readInput asks for it if no name comes
-- behind a flag that is first; lists of that kind with the same names return the same.
theorem getmatvar_exact (filename : ReadInput.MxArray) (args : List ReadInput.MxArray) (input : InputState)
    (accepted : readInput filename args = .ok input) :
    ((loadsEverything args = true ↔ NoneCollected input) ↔ ¬NameBehindFlag args) ∧
    ∀ args' input', readInput filename args' = .ok input' → names args' = names args →
      ¬NameBehindFlag args → ¬NameBehindFlag args' → ∀ (α : Type) (fields : List (Text × α)) (nargout : Nat),
        getmatvar fields nargout args' = getmatvar fields nargout args := by
  refine ⟨loads_exact accepted,fun args' input' accepted' same suits suits' α fields nargout => ?_⟩
  have first := ((loads_exact accepted).mpr suits).trans (none_exact accepted)
  have second := ((loads_exact accepted').mpr suits').trans (none_exact accepted')
  rw [same] at second
  have branch : loadsEverything args' = loadsEverything args := Bool.eq_iff_iff.mpr (second.trans first.symm)
  unfold getmatvar
  rw [branch]

theorem getmatvar_x : ∃ input input', readInput (argument "f.mat") [argument "x",argument "-t",argument "12"] = .ok input ∧
    readInput (argument "f.mat") [argument "x",argument "-st"] = .ok input' ∧ ¬NoneCollected input ∧
    getmatvar [(textOf "x",0)] 1 [argument "x",argument "-st"] =
      getmatvar [(textOf "x",0)] 1 [argument "x",argument "-t",argument "12"] := by
  obtain ⟨input,accepted⟩ : ∃ input, readInput (argument "f.mat") [argument "x",argument "-t",argument "12"] = .ok input :=
    ⟨_,rfl⟩
  obtain ⟨input',accepted'⟩ : ∃ input', readInput (argument "f.mat") [argument "x",argument "-st"] = .ok input' := ⟨_,rfl⟩
  obtain ⟨branch,moved⟩ := getmatvar_exact _ _ _ accepted
  have suits : ¬NameBehindFlag [argument "x",argument "-t",argument "12"] := fun behind => absurd behind.1 (by decide)
  have suits' : ¬NameBehindFlag [argument "x",argument "-st"] := fun behind => absurd behind.1 (by decide)
  refine ⟨input,input',accepted,accepted',fun none_ => ?_,moved _ _ accepted' (by decide) suits suits' Nat _ 1⟩
  exact absurd ((branch.mpr suits).mpr none_) (by decide)

-- With the flag in front, the variable x is assigned in the caller's workspace.
theorem getmatvar_flagFirst : ¬∀ (filename : ReadInput.MxArray) (args : List ReadInput.MxArray) (input : InputState),
    readInput filename args = .ok input → (loadsEverything args = true ↔ NoneCollected input) := by
  intro agrees
  have same := agrees (argument "f.mat") [argument "-st",argument "x"] _ rfl
  exact absurd (same.mp (by decide)) (by unfold NoneCollected; decide)

end LoadsEverything
end GetMatVar
