-- Computations that may stop, with a log of what they have done until then.
structure Logged (ε α : Type) where
  log : List ε
  result : Option α

namespace Logged
variable {ε α β : Type}

def tell (event : ε) : Logged ε Unit := ⟨[event],some ()⟩

def tellAll (events : List ε) : Logged ε Unit := ⟨events,some ()⟩

def stop : Logged ε α := ⟨[],none⟩

def lift (result : Option α) : Logged ε α := ⟨[],result⟩

def andThen (first : Logged ε α) (next : α → Logged ε β) : Logged ε β :=
  match first.result with
  | none => ⟨first.log,none⟩
  | some value => ⟨first.log++(next value).log,(next value).result⟩

instance : Monad (Logged ε) where
  pure value := ⟨[],some value⟩
  bind := andThen

def Only (good : ε → Prop) (run : Logged ε α) : Prop := ∀ event ∈ run.log, good event

section Result

@[simp] theorem pure_result (value : α) : (pure value : Logged ε α).result = some value := rfl

@[simp] theorem tell_result (event : ε) : (tell event).result = some () := rfl

@[simp] theorem tellAll_result (events : List ε) : (tellAll events).result = some () := rfl

@[simp] theorem stop_result : (stop : Logged ε α).result = none := rfl

@[simp] theorem lift_result (result : Option α) : (lift result : Logged ε α).result = result := rfl

@[simp] theorem bind_result (first : Logged ε α) (next : α → Logged ε β) :
    (first >>= next).result = first.result.bind fun value => (next value).result := by
  change (andThen first next).result = _
  unfold andThen
  cases first.result <;> rfl

@[simp] theorem lift_some_bind (value : α) (next : α → Logged ε β) : (lift (some value) >>= next) = next value := rfl

theorem tell_bind (event : ε) (next : Unit → Logged ε β) :
    (tell event >>= next) = ⟨event::(next ()).log,(next ()).result⟩ := rfl

end Result

section Only
variable {good : ε → Prop}

@[simp] theorem only_pure (value : α) : Only good (pure value : Logged ε α) := by
  intro event member
  cases member

@[simp] theorem only_tell (event : ε) : Only good (tell event) ↔ good event :=
  ⟨fun only => only event List.mem_cons_self,fun here _ member => List.mem_singleton.mp member ▸ here⟩

@[simp] theorem only_tellAll (events : List ε) : Only good (tellAll events) ↔ ∀ event ∈ events, good event := Iff.rfl

@[simp] theorem only_stop : Only good (stop : Logged ε α) := by
  intro event member
  cases member

@[simp] theorem only_lift (result : Option α) : Only good (lift result : Logged ε α) := by
  intro event member
  cases member

theorem only_bind (first : Logged ε α) (next : α → Logged ε β) :
    Only good (first >>= next) ↔ Only good first ∧ ∀ value, first.result = some value → Only good (next value) := by
  change Only good (andThen first next) ↔ _
  unfold andThen Only
  cases first.result with
  | none => simp
  | some value => simp [or_imp,forall_and]

theorem only_tell_bind (event : ε) (next : Unit → Logged ε β) :
    Only good (tell event >>= next) ↔ good event ∧ Only good (next ()) := by
  rw [only_bind,only_tell]
  exact and_congr_right fun _ => ⟨fun all_ => all_ () rfl,fun only _ _ => only⟩

theorem only_lift_bind (result : Option α) (next : α → Logged ε β) :
    Only good (lift result >>= next) ↔ ∀ value, result = some value → Only good (next value) := by
  rw [only_bind]
  exact ⟨fun both => both.2,fun all_ => ⟨only_lift result,all_⟩⟩

theorem only_bind_quiet (first : Logged ε α) {next : α → Logged ε β} (quiet : ∀ value, Only good (next value)) :
    Only good (first >>= next) ↔ Only good first := by
  rw [only_bind]
  exact ⟨fun both => both.1,fun only => ⟨only,fun value _ => quiet value⟩⟩

end Only
end Logged
