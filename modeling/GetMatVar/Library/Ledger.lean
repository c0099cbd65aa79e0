import GetMatVar.Library.Logged
import GetMatVar.Library.Runs
import Mathlib.Data.List.Nodup
import Mathlib.Data.List.Perm.Basic
import Mathlib.Logic.Function.Basic

namespace Ledger
variable {κ : Type}

-- A resource is taken, or it is given back.
inductive Entry (κ : Type) where
  | take (key : κ)
  | giveBack (key : κ)

def taken : List (Entry κ) → List κ
  | [] => []
  | .take key::rest => key::taken rest
  | .giveBack _::rest => taken rest

def returned : List (Entry κ) → List κ
  | [] => []
  | .take _::rest => returned rest
  | .giveBack key::rest => key::returned rest

section Settle
variable [DecidableEq κ]

-- What is outstanding behind a log. There is none for a log that takes what is
-- outstanding or gives back what is not.
def settle : List κ → List (Entry κ) → Option (List κ)
  | held,[] => some held
  | held,.take key::rest => if key ∈ held then none else settle (key::held) rest
  | held,.giveBack key::rest => if key ∈ held then settle (held.erase key) rest else none

theorem settle_append (held : List κ) (log rest : List (Entry κ)) :
    settle held (log++rest) = (settle held log).bind fun middle => settle middle rest := by
  induction log generalizing held with
  | nil => rfl
  | cons entry log ih =>
    cases entry with
    | take key =>
      rw [List.cons_append,settle,settle]
      split
      · rfl
      · exact ih _
    | giveBack key =>
      rw [List.cons_append,settle,settle]
      split
      · exact ih _
      · rfl

theorem settle_perm {held after : List κ} (settled : settle held log = some after) :
    (held++taken log).Perm (after++returned log) := by
  induction log generalizing held with
  | nil =>
    cases settled
    exact .refl _
  | cons entry log ih =>
    cases entry with
    | take key =>
      rw [settle] at settled
      split at settled
      · cases settled
      · have rest := ih settled
        rw [List.cons_append] at rest
        rw [taken,returned]
        exact List.perm_middle.trans rest
    | giveBack key =>
      rw [settle] at settled
      split at settled
      · rename_i member
        have rest := (ih settled).cons key
        rw [taken,returned]
        refine ((List.perm_cons_erase member).append_right _).trans ?_
        exact rest.trans List.perm_middle.symm
      · cases settled

-- With nothing outstanding at either end, what is taken is what is given back.
theorem settle_balanced (settled : settle ([] : List κ) log = some []) : (returned log).Perm (taken log) :=
  (settle_perm settled).symm

end Settle

-- What a state owns, as a list.
structure Accounts (owned : κ → Prop) (held : List κ) : Prop where
  distinct : held.Nodup
  exact_ : ∀ key, key ∈ held ↔ owned key

section Books
variable [DecidableEq κ] {before middle after : κ → Prop}

-- The log leads from what is owned before to what is owned after.
def Books (before : κ → Prop) (log : List (Entry κ)) (after : κ → Prop) : Prop :=
  ∀ held, Accounts before held → ∃ rest, settle held log = some rest ∧ Accounts after rest

theorem Books.quiet (same : ∀ key, after key ↔ before key) : Books before [] after := by
  intro held accounts
  exact ⟨held,rfl,accounts.distinct,fun key => (accounts.exact_ key).trans (same key).symm⟩

theorem Books.refl (owned : κ → Prop) : Books owned [] owned := .quiet fun _ => Iff.rfl

theorem Books.take (new : ¬before key) (gains : ∀ other, after other ↔ other = key ∨ before other) :
    Books before [.take key] after := by
  intro held accounts
  have absent : key ∉ held := fun member => new ((accounts.exact_ key).mp member)
  refine ⟨key::held,?_,List.nodup_cons.mpr ⟨absent,accounts.distinct⟩,fun other => ?_⟩
  · rw [settle,if_neg absent,settle]
  · rw [List.mem_cons,gains other,accounts.exact_ other]

theorem Books.giveBack (owned : before key) (loses : ∀ other, after other ↔ other ≠ key ∧ before other) :
    Books before [.giveBack key] after := by
  intro held accounts
  refine ⟨held.erase key,?_,accounts.distinct.erase key,fun other => ?_⟩
  · rw [settle,if_pos ((accounts.exact_ key).mpr owned),settle]
  · rw [accounts.distinct.mem_erase_iff,loses other,accounts.exact_ other]

theorem Books.trans (first : Books before log middle) (second : Books middle more after) : Books before (log++more) after := by
  intro held accounts
  obtain ⟨kept,settled,between⟩ := first held accounts
  obtain ⟨rest,later,final⟩ := second kept between
  refine ⟨rest,?_,final⟩
  rw [settle_append,settled,Option.bind_some,later]

theorem Books.settled (books : Books before log after) (start : ∀ key, ¬before key) (end_ : ∀ key, ¬after key) :
    settle [] log = some [] := by
  have accounts : Accounts before [] := ⟨List.nodup_nil,fun key => ⟨fun member => absurd member List.not_mem_nil,
    fun owned => absurd owned (start key)⟩⟩
  obtain ⟨rest,settled,final⟩ := books [] accounts
  have empty : rest = [] := List.eq_nil_iff_forall_not_mem.mpr fun key member => end_ key ((final.exact_ key).mp member)
  rw [settled,empty]

theorem Books.run {S A : Type} {step : S → A → S → Prop} {valid : S → Prop} {entries : A → List (Entry κ)}
    (owned : S → κ → Prop) {origin last : S} {actions : List A} (path : Runs.Run step origin actions last) (start : valid origin)
    (kept : ∀ s action next, valid s → step s action next → valid next)
    (booked : ∀ s action next, valid s → step s action next → Books (owned s) (entries action) (owned next)) :
    Books (owned origin) (actions.flatMap entries) (owned last) := by
  induction path with
  | nil => exact .refl _
  | @step earlier middle action next prior taken ih =>
    have here := booked _ _ _ (prior.invariant valid kept start) taken
    have both := ih.trans here
    rwa [List.flatMap_append,List.flatMap_singleton]

end Books

section Table
variable {ι : Type} [DecidableEq ι] {table : ι → Option κ}

def Owns (table : ι → Option κ) (key : κ) : Prop := ∃ i, table i = some key

def Apart (table : ι → Option κ) : Prop := ∀ i j key, table i = some key → table j = some key → i = j

theorem owns_put (empty : table i = none) (other : κ) :
    Owns (Function.update table i (some key)) other ↔ other = key ∨ Owns table other := by
  unfold Owns
  constructor
  · rintro ⟨j,here⟩
    by_cases same : j = i
    · subst same
      rw [Function.update_self,Option.some.injEq] at here
      exact .inl here.symm
    · rw [Function.update_of_ne same] at here
      exact .inr ⟨j,here⟩
  · rintro (rfl | ⟨j,here⟩)
    · exact ⟨i,Function.update_self ..⟩
    · have same : j ≠ i := fun same => by rw [same,empty] at here; cases here
      exact ⟨j,by rwa [Function.update_of_ne same]⟩

theorem owns_drop (apart : Apart table) (here : table i = some key) (other : κ) :
    Owns (Function.update table i none) other ↔ other ≠ key ∧ Owns table other := by
  unfold Owns
  constructor
  · rintro ⟨j,found⟩
    by_cases same : j = i
    · rw [same,Function.update_self] at found
      cases found
    · rw [Function.update_of_ne same] at found
      exact ⟨fun equal => same (apart j i key (equal ▸ found) here),j,found⟩
  · rintro ⟨differs,j,found⟩
    have same : j ≠ i := fun same => by
      rw [same,here,Option.some.injEq] at found
      exact differs found.symm
    exact ⟨j,by rwa [Function.update_of_ne same]⟩

theorem Apart.put (apart : Apart table) (new : ¬Owns table key) : Apart (Function.update table i (some key)) := by
  intro j k other left right
  rw [Function.update_apply] at left right
  split at left
  · rename_i first
    split at right
    · rename_i second
      exact first.trans second.symm
    · exact absurd ⟨k,right.trans left.symm⟩ new
  · split at right
    · exact absurd ⟨j,left.trans right.symm⟩ new
    · exact apart j k other left right

theorem Apart.drop (apart : Apart table) : Apart (Function.update table i none) := by
  intro j k other left right
  rw [Function.update_apply] at left right
  split at left
  · cases left
  · split at right
    · cases right
    · exact apart j k other left right

variable [DecidableEq κ]

theorem Books.put (empty : table i = none) (new : ¬Owns table key) :
    Books (Owns table) [.take key] (Owns (Function.update table i (some key))) :=
  .take new (owns_put empty)

theorem Books.drop (apart : Apart table) (here : table i = some key) :
    Books (Owns table) [.giveBack key] (Owns (Function.update table i none)) :=
  .giveBack ⟨i,here⟩ (owns_drop apart here)

end Table

section Logged
variable [DecidableEq κ] {α β : Type} {before : κ → Prop} {post : β → Prop} {owned : β → κ → Prop}

-- Where the computation comes to a result, the result is as it should be and the log
-- leads to what it owns.
def Booked (before : κ → Prop) (run : Logged (Entry κ) α) (post : α → Prop) (owned : α → κ → Prop) : Prop :=
  ∀ value, run.result = some value → post value ∧ Books before run.log (owned value)

theorem Booked.pure (good : post value) (same : ∀ key, owned value key ↔ before key) :
    Booked before (Pure.pure value : Logged (Entry κ) β) post owned := by
  intro result done
  cases done
  exact ⟨good,.quiet same⟩

theorem Booked.bind {first : Logged (Entry κ) α} {next : α → Logged (Entry κ) β} {good : α → Prop} {middle : α → κ → Prop}
    (head : Booked before first good middle) (tail : ∀ value, good value → Booked (middle value) (next value) post owned) :
    Booked before (first >>= next) post owned := by
  intro result done
  rw [Logged.bind_result] at done
  obtain ⟨value,here,later⟩ := Option.bind_eq_some_iff.mp done
  obtain ⟨reached,books⟩ := head value here
  obtain ⟨last,rest⟩ := tail value reached result later
  have log : (first >>= next).log = first.log++(next value).log := by
    change (Logged.andThen first next).log = _
    unfold Logged.andThen
    rw [here]
  rw [log]
  exact ⟨last,books.trans rest⟩

theorem Booked.lift_bind {found : Option α} {next : α → Logged (Entry κ) β}
    (tail : ∀ value, found = some value → Booked before (next value) post owned) :
    Booked before (Logged.lift found >>= next) post owned := by
  have quiet : Booked before (Logged.lift found) (fun value => found = some value) fun _ => before :=
    fun _ here => ⟨here,.refl _⟩
  exact quiet.bind tail

theorem Booked.tell_bind {next : Unit → Logged (Entry κ) β} {middle : κ → Prop} (head : Books before [entry] middle)
    (tail : Booked middle (next ()) post owned) : Booked before (Logged.tell entry >>= next) post owned := by
  have told : Booked before (Logged.tell entry) (fun _ => True) fun _ => middle := fun _ _ => ⟨trivial,head⟩
  exact told.bind fun _ _ => tail

end Logged
end Ledger
