import PolicyBundle.Log.Event

/-!
# Traced computations

A computation together with the events it tells. The result never depends on the events: `value`
of a sequence is that of its last step, run on the values of those before.
-/

namespace PolicyBundle.Log

/-- A value with the events told on the way to it, in order. -/
structure Traced (α : Type) where
  events : List Event
  value : α

namespace Traced

instance : Monad Traced where
  pure x := ⟨[], x⟩
  bind x f := ⟨x.events ++ (f x.value).events, (f x.value).value⟩

@[simp] theorem value_pure (x : α) : (pure x : Traced α).value = x := rfl

@[simp] theorem events_pure (x : α) : (pure x : Traced α).events = [] := rfl

@[simp] theorem value_bind (x : Traced α) (f : α → Traced β) :
    (x >>= f).value = (f x.value).value := rfl

@[simp] theorem events_bind (x : Traced α) (f : α → Traced β) :
    (x >>= f).events = x.events ++ (f x.value).events := rfl

instance : LawfulMonad Traced :=
  LawfulMonad.mk' Traced
    (fun x => by cases x; simp [Functor.map])
    (fun x f => by simp [bind, pure])
    (fun x f g => by simp [bind, List.append_assoc])

end Traced

/-- A traced computation that may fail. -/
abbrev Attempt (ε α : Type) := ExceptT ε Traced α

/-- Tells an event. -/
def tell (level : Level) (component message : String) (values : List (String × Value)) :
    Traced Unit :=
  ⟨[⟨level, component, message, values⟩], ()⟩

@[simp] theorem value_tell (level : Level) (component message : String)
    (values : List (String × Value)) : (tell level component message values).value = () := rfl

/-- What becomes of an attempt, with its events. -/
def Attempt.outcome (attempt : Attempt ε α) : Traced (Except ε α) :=
  ExceptT.run attempt

/-- An attempt whose failure is put in other words. -/
def Attempt.mapError (f : ε → δ) (attempt : Attempt ε α) : Attempt δ α :=
  let outcome := attempt.outcome
  ExceptT.mk ⟨outcome.events, outcome.value.mapError f⟩

/-- An attempt that tells nothing. -/
def Attempt.quiet (result : Except ε α) : Attempt ε α :=
  ExceptT.mk ⟨[], result⟩

end PolicyBundle.Log
