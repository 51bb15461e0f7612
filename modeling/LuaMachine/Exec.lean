import LuaMachine.Machine

namespace LuaMachine

inductive Outcome (α : Type) where
  | done (a : α) (m : Machine)
  | raised (e : Error) (m : Machine)
  | exhausted

/-- A computation of the machine; what it did before an error stays done. -/
def Exec (α : Type) : Type := Machine → Outcome α

variable {α β : Type}

@[always_inline, inline]
def Outcome.andThen (o : Outcome α) (f : α → Exec β) : Outcome β :=
  match o with
  | .done a m => f a m
  | .raised e m => .raised e m
  | .exhausted => .exhausted

namespace Exec

@[always_inline]
instance : Monad Exec where
  pure a := fun m => .done a m
  bind x f := fun m => (x m).andThen f

instance : LawfulMonad Exec := LawfulMonad.mk' Exec
  (fun x => funext fun m => by
    change (x m).andThen _ = x m
    cases x m <;> rfl)
  (fun _ _ => rfl)
  (fun x f g => funext fun m => by
    change ((x m).andThen f).andThen g = (x m).andThen fun a m => (f a m).andThen g
    cases x m <;> rfl)

def exhausted : Exec α := fun _ => .exhausted

@[inline]
def raise (e : Error) : Exec α := fun m => .raised e m

def fault (cause : Fault) : Exec α := fun m => .raised (.fault cause m.location) m

@[inline]
def attempt (x : Exec α) : Exec (Except Error α) := fun m =>
  match x m with
  | .done a m => .done (.ok a) m
  | .raised e m => .done (.error e) m
  | .exhausted => .exhausted

def ofExcept : Except Error α → Exec α
  | .ok a => pure a
  | .error e => raise e

@[inline]
def read (f : Machine → α) : Exec α := fun m => .done (f m) m

@[inline]
def modify (f : Machine → Machine) : Exec Unit := fun m => .done () (f m)

/-- Keeps values while a computation goes on. -/
def holding (vs : List Value) (x : Exec α) : Exec α := do
  let held ← read Machine.held
  modify fun m => { m with held := vs ++ held }
  let result ← attempt x
  modify fun m => { m with held }
  ofExcept result

end Exec
end LuaMachine
