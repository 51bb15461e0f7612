import LuaMachine.Exec

namespace LuaMachine

abbrev Condition := (running : ThreadId) → (yielding : Bool) → Machine → Prop

def Condition.quiet (K : Condition) : Condition := fun r y m => y = false ∧ K r y m

/-- The condition in a thread where no yield is on its way, and none could do it any harm. -/
def Condition.away (K : Condition) : Condition := fun r y m =>
  K.quiet r y m ∧ ∀ m, K r true m → K r false m

def Outcome.Ends {α : Type} (K : Condition) (r : ThreadId) : Outcome α → Prop
  | .done _ m => m.running = r ∧ K r false m
  | .raised e m => m.running = r ∧ K r e.isYield m
  | .exhausted => True

theorem Outcome.Ends.imp {α : Type} {K K' : Condition} {r : ThreadId} {o : Outcome α}
    (h : o.Ends K r) (hK : ∀ y m, K r y m → K' r y m) : o.Ends K' r := by
  cases o with
  | done a m => exact ⟨h.1, hK _ m h.2⟩
  | raised e m => exact ⟨h.1, hK _ m h.2⟩
  | exhausted => trivial

namespace Exec

variable {α β : Type} {K : Condition}

class Keeps (K : Condition) (x : Exec α) : Prop where
  ends : ∀ m, K m.running false m → (x m).Ends K m.running

/-- What is done about an error keeps the condition, which may be that of a yield on its way. -/
class Settles (K : Condition) (e : Error) (x : Exec α) : Prop where
  ends : ∀ m, K m.running e.isYield m → (x m).Ends K m.running

class Holds (K : Condition) (x : Exec α) : Prop where
  ends : ∀ m, K m.running false m → (x m).Ends (fun r _ => K r false) m.running

class Lax (K : Condition) (e : Error) : Prop where
  raised : ∀ {r m}, K r false m → K r e.isYield m

theorem Keeps.done {x : Exec α} (hx : Keeps K x) {m m' : Machine} {a : α}
    (h : x m = .done a m') (hm : K m.running false m) : m'.running = m.running ∧ K m.running false m' := by
  have he := hx.ends m hm
  rwa [h] at he

theorem Keeps.endsIn {x : Exec α} (hx : Keeps K x) {m : Machine} {r : ThreadId}
    (hr : m.running = r) (hm : K r false m) : (x m).Ends K r := hr ▸ hx.ends m (hr.symm ▸ hm)

theorem ends_andThen {o : Outcome α} {f : α → Exec β} {r : ThreadId} (ho : o.Ends K r)
    (hf : ∀ a m, m.running = r → K r false m → (f a m).Ends K r) : (o.andThen f).Ends K r := by
  cases o with
  | done a m => exact hf a m ho.1 ho.2
  | raised e m => exact ho
  | exhausted => trivial

theorem Keeps.bind {x : Exec α} {f : α → Exec β} (hx : Keeps K x) (hf : ∀ a, Keeps K (f a)) :
    Keeps K (x >>= f) where
  ends m h := ends_andThen (hx.ends m h) fun a m' hr hK => by
    rw [← hr] at hK ⊢
    exact (hf a).ends m' hK

instance keeps_bind (x : Exec α) (f : α → Exec β) [hx : Keeps K x] [hf : ∀ a, Keeps K (f a)] :
    Keeps K (x >>= f) := hx.bind hf

instance keeps_map (f : α → β) (x : Exec α) [hx : Keeps K x] : Keeps K (f <$> x) := by
  rw [← bind_pure_comp]
  exact hx.bind fun a => ⟨fun _ h => ⟨rfl, h⟩⟩

instance keeps_discard (x : Exec α) [Keeps K x] : Keeps K (discard x) := keeps_map _ x

instance keeps_pure (a : α) : Keeps K (pure a) := ⟨fun _ h => ⟨rfl, h⟩⟩

instance keeps_exhausted : Keeps K (exhausted : Exec α) := ⟨fun _ _ => trivial⟩

instance keeps_read (f : Machine → α) : Keeps K (read f) := ⟨fun _ h => ⟨rfl, h⟩⟩

instance keeps_fault (cause : Fault) : Keeps K (fault cause : Exec α) := ⟨fun _ h => ⟨rfl, h⟩⟩

instance keeps_raise (e : Error) [he : Lax K e] : Keeps K (raise e : Exec α) :=
  ⟨fun _ h => ⟨rfl, he.raised h⟩⟩

instance lax_thrown (v : Value) : Lax K (.thrown v) := ⟨id⟩
instance lax_fault (cause : Fault) (place : Option String) : Lax K (.fault cause place) := ⟨id⟩
instance lax_unknownKey : Lax K .unknownKey := ⟨id⟩

instance keeps_ite (c : Prop) [Decidable c] (x y : Exec α) [hx : Keeps K x] [hy : Keeps K y] :
    Keeps K (if c then x else y) := by
  split
  · exact hx
  · exact hy

instance keeps_forM {γ : Type} (l : List γ) (f : γ → Exec PUnit) [hf : ∀ a, Keeps K (f a)] :
    Keeps K (l.forM f) := by
  induction l with
  | nil => exact keeps_pure ()
  | cons a l ih => exact (hf a).bind fun _ => ih

instance keeps_mapM (l : List α) (f : α → Exec β) [hf : ∀ a, Keeps K (f a)] :
    Keeps K (l.mapM f) := by
  induction l with
  | nil => rw [List.mapM_nil]; exact keeps_pure []
  | cons a l ih =>
    rw [List.mapM_cons]
    exact (hf a).bind fun b => ih.bind fun bs => keeps_pure (b :: bs)

theorem Keeps.attempt {x : Exec α} {f : Except Error α → Exec β} (hx : Keeps K x)
    (hf : ∀ a, Keeps K (f (.ok a))) (he : ∀ e, Settles K e (f (.error e))) :
    Keeps K (attempt x >>= f) where
  ends m h := by
    have hx := hx.ends m h
    change ((Exec.attempt x m).andThen f).Ends K m.running
    unfold Exec.attempt
    cases hm : x m with
    | done a m' =>
      rw [hm] at hx
      rw [← hx.1]
      exact (hf a).ends m' (hx.1 ▸ hx.2)
    | raised e m' =>
      rw [hm] at hx
      rw [← hx.1]
      exact (he e).ends m' (hx.1 ▸ hx.2)
    | exhausted => trivial

theorem Holds.attempt {x : Exec α} {f : Except Error α → Exec β} (hx : Holds K x)
    (hf : ∀ a, Keeps K (f a)) : Keeps K (attempt x >>= f) where
  ends m h := by
    have hx := hx.ends m h
    change ((Exec.attempt x m).andThen f).Ends K m.running
    unfold Exec.attempt
    cases hm : x m with
    | done a m' | raised e m' =>
      rw [hm] at hx
      rw [← hx.1]
      exact (hf _).ends m' (hx.1 ▸ hx.2)
    | exhausted => trivial

theorem Settles.raise (e : Error) : Settles K e (raise e : Exec α) := ⟨fun _ h => ⟨rfl, h⟩⟩

theorem Keeps.attemptAway {x : Exec α} {f : Except Error α → Exec β} (hx : Keeps K x)
    (hf : ∀ a, Keeps K.away (f a)) : Keeps K.away (Exec.attempt x >>= f) where
  ends m h := by
    have hx := hx.ends m h.1.2
    change ((Exec.attempt x m).andThen f).Ends K.away m.running
    unfold Exec.attempt
    cases hm : x m with
    | done a m' =>
      rw [hm] at hx
      rw [← hx.1]
      exact (hf _).ends m' (hx.1 ▸ ⟨⟨rfl, hx.2⟩, h.2⟩)
    | raised e m' =>
      rw [hm] at hx
      have he : K m.running false m' := by
        cases he : e.isYield with
        | false => exact he ▸ hx.2
        | true => exact h.2 m' (he ▸ hx.2)
      rw [← hx.1]
      exact (hf _).ends m' (hx.1 ▸ ⟨⟨rfl, he⟩, h.2⟩)
    | exhausted => trivial

theorem Keeps.ofQuiet {x : Exec α} (hx : Keeps K.quiet x) : Keeps K x :=
  ⟨fun m h => (hx.ends m ⟨rfl, h⟩).imp fun _ _ h => h.2⟩

theorem Keeps.awayOfQuiet {x : Exec α} (hx : Keeps K.quiet x) : Keeps K.away x :=
  ⟨fun m h => (hx.ends m h.1).imp fun _ _ hq => ⟨hq, h.2⟩⟩

end Exec
end LuaMachine
