/-!
# Programs with a state and exceptions

A program is a function of the state that settles with a value or an
exception, and leaves a state in both cases: what was done before an exception
stays done. `run_bind` and `run_tryCatch` say how programs go on.
-/
namespace Explorer

universe u

/-- Exceptions `E` over the state `S`. -/
abbrev Program (E S : Type u) := ExceptT E (StateM S)

namespace Program

variable {E S α β : Type u}

/-- How a program goes on. -/
def next (r : Except E α × S) (f : α → Program E S β) : Except E β × S :=
  match r with
  | (.ok a, s) => (f a).run s
  | (.error e, s) => (.error e, s)

/-- How a program goes on where its exceptions are caught. -/
def rescue (r : Except E α × S) (f : E → Program E S α) : Except E α × S :=
  match r with
  | (.ok a, s) => (.ok a, s)
  | (.error e, s) => (f e).run s

theorem next_ok (a : α) (s : S) (f : α → Program E S β) : next (.ok a, s) f = (f a).run s := rfl

theorem next_error (e : E) (s : S) (f : α → Program E S β) : next (.error e, s) f = (.error e, s) := rfl

theorem rescue_ok (a : α) (s : S) (f : E → Program E S α) : rescue (.ok a, s) f = (.ok a, s) := rfl

theorem rescue_error (e : E) (s : S) (f : E → Program E S α) : rescue (.error e, s) f = (f e).run s := rfl

theorem run_bind (x : Program E S α) (f : α → Program E S β) (s : S) : (x >>= f).run s = next (x.run s) f := by
  show StateT.bind x.run (ExceptT.bindCont f) s = next (x.run s) f
  unfold StateT.bind
  generalize x.run s = r
  rcases r with ⟨_ | _, s'⟩ <;> rfl

theorem run_tryCatch (x : Program E S α) (f : E → Program E S α) (s : S) :
    (tryCatch x f).run s = rescue (x.run s) f := by
  show ExceptT.tryCatch x f s = rescue (x.run s) f
  unfold ExceptT.tryCatch ExceptT.mk
  show StateT.bind x.run _ s = rescue (x.run s) f
  unfold StateT.bind
  generalize x.run s = r
  rcases r with ⟨_ | _, s'⟩ <;> rfl

theorem run_pure (a : α) (s : S) : (pure a : Program E S α).run s = (.ok a, s) := rfl

theorem run_throw (e : E) (s : S) : (throw e : Program E S α).run s = (.error e, s) := rfl

theorem run_get (s : S) : (get : Program E S S).run s = (.ok s, s) := rfl

theorem run_modify (f : S → S) (s : S) : (modify f : Program E S PUnit).run s = (.ok ⟨⟩, f s) := rfl

end Program
end Explorer
