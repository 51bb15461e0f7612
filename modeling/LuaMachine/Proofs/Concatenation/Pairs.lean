import LuaMachine.Proofs.Suspension.Inquiry

namespace LuaMachine

open Machine Exec

deriving instance DecidableEq for Finding

def Error.unplaced : Error → Error
  | .fault cause _ => .fault cause none
  | e => e

def Outcome.result? {α : Type} : Outcome α → Option (Except Error α)
  | .done a _ => some (.ok a)
  | .raised e _ => some (.error e.unplaced)
  | .exhausted => none

/-- Two operands, the machine in which they are joined, and what the handler answers, if one is asked. -/
structure Joint where
  left : Value
  right : Value
  machine : Machine
  answer : Option (Except Error Value)

namespace Joint

def operands (j : Joint) : Value × Value := (j.left, j.right)

def finding (j : Joint) : Finding Value := j.machine.concatFinding j.left j.right

def result? (j : Joint) : Option (Except Error Value) :=
  match j.finding with
  | .value v => some (.ok v)
  | .fault cause => some (.error (.fault cause none))
  | .handler _ _ => j.answer

theorem result?_of_value {j : Joint} {v : Value} (h : j.finding = .value v) :
    j.result? = some (.ok v) := by rw [result?, h]

theorem result?_of_handler {j : Joint} {h : Value} {args : List Value}
    (hf : j.finding = .handler h args) : j.result? = j.answer := by rw [result?, hf]

structure Alike (j j' : Joint) : Prop where
  finding : j'.finding = j.finding
  answer : ∀ h args, j.finding = .handler h args → j'.answer = j.answer

theorem Alike.result? {j j' : Joint} (h : j.Alike j') : j'.result? = j.result? := by
  unfold Joint.result?
  rw [h.finding]
  cases hf : j.finding with
  | handler k args => exact h.answer k args hf
  | value v | fault cause => rfl

end Joint

/-- Values are joined from the right, the first one being the nearest to `right`. The pairs are in the
order in which they are joined, and the last thing is what it comes to. -/
inductive Joins : (lefts : List Value) → (right : Value) → List Joint →
    Option (Except Error Value) → Prop
  | alone (right : Value) : Joins [] right [] (some (.ok right))
  | joined {left right v : Value} {lefts : List Value} {m : Machine}
      {answer r : Option (Except Error Value)} {js : List Joint} :
      (Joint.mk left right m answer).result? = some (.ok v) → Joins lefts v js r →
      Joins (left :: lefts) right (⟨left, right, m, answer⟩ :: js) r
  | stopped {left right : Value} {lefts : List Value} {m : Machine}
      {answer : Option (Except Error Value)} :
      (∀ v, (Joint.mk left right m answer).result? ≠ some (.ok v)) →
      Joins (left :: lefts) right [⟨left, right, m, answer⟩] (Joint.mk left right m answer).result?

/-- Wherever both join the same operands in the same turn, they ask the same and get the same answer. -/
def AnswerAlike (js js' : List Joint) : Prop :=
  ∀ p ∈ js.zip js', p.2.operands = p.1.operands → p.1.Alike p.2

section Pair

variable {re : Reentry} {m : Machine} {a b : Value}

theorem Exec.concatPair_eq (re : Reentry) (a b : Value) (m : Machine) :
    concatPair re a b m = match m.concatFinding a b with
      | .value v => .done v m
      | .fault cause => .raised (.fault cause m.location) m
      | .handler h args => callHandler re h args true m := by
  have hb (cause : Fault) {next : Option Value → Exec Value} (hn : next none = fault cause)
      (hs : ∀ v, next (some v) = pure v) : (callBinary? re a b .concat >>= next) m =
      match m.binaryFinding a b .concat (.fault cause) with
      | .value v => .done v m
      | .fault cause => .raised (.fault cause m.location) m
      | .handler h args => callHandler re h args true m := by
    rw [run_bind, callBinary?_eq, binaryFinding]
    cases (m.binaryHandler a b .concat).isNil with
    | true => exact congrFun hn m
    | false =>
      rw [if_neg Bool.false_ne_true, if_neg Bool.false_ne_true, run_bind, andThen_andThen]
      change (callHandler re (m.binaryHandler a b .concat) [a, b] true m).andThen
        (fun v => next (some v)) = callHandler re (m.binaryHandler a b .concat) [a, b] true m
      rw [funext hs]
      cases callHandler re (m.binaryHandler a b .concat) [a, b] true m <;> rfl
  unfold concatPair concatFinding
  cases a.toBytes? with
  | none => exact hb _ rfl fun _ => rfl
  | some s =>
    cases b.toBytes? with
    | none => exact hb _ rfl fun _ => rfl
    | some t => rfl

theorem Outcome.result?_eq_ok {α : Type} {x : Outcome α} {a : α} :
    x.result? = some (.ok a) ↔ ∃ m, x = .done a m := by
  cases x with
  | done b m =>
    constructor
    · intro h
      cases h
      exact ⟨m, rfl⟩
    · rintro ⟨_, h⟩
      cases h
      rfl
  | raised e m | exhausted => exact ⟨nofun, fun ⟨_, h⟩ => nomatch h⟩

theorem Joint.finding_texts {s t : Bytes} (ha : a.toBytes? = some s) (hb : b.toBytes? = some t)
    (m : Machine) (answer : Option (Except Error Value)) :
    (Joint.mk a b m answer).finding = .value (.string (s ++ t)) := by
  simp [Joint.finding, concatFinding, ha, hb]

theorem Joint.result?_pair (re : Reentry) (a b : Value) (m : Machine) :
    (Joint.mk a b m (concatPair re a b m).result?).result? = (concatPair re a b m).result? := by
  unfold Joint.result? Joint.finding
  dsimp only
  rw [concatPair_eq]
  cases m.concatFinding a b <;> rfl

end Pair

section Agreement

variable {lefts : List Value} {right : Value} {js js' : List Joint}
  {r r' : Option (Except Error Value)}

theorem AnswerAlike.head {left right : Value} {m m' : Machine}
    {answer answer' : Option (Except Error Value)}
    (ha : AnswerAlike (⟨left, right, m, answer⟩ :: js) (⟨left, right, m', answer'⟩ :: js')) :
    (Joint.mk left right m' answer').result? = (Joint.mk left right m answer).result? :=
  (ha (⟨left, right, m, answer⟩, ⟨left, right, m', answer'⟩) (by simp) rfl).result?

theorem AnswerAlike.tail {j j' : Joint} (ha : AnswerAlike (j :: js) (j' :: js')) :
    AnswerAlike js js' := fun p hp => ha p (by simp [hp])

/-- With the same values and the same answers the same pairs are joined, and the same comes of it. -/
theorem Joins.agree (h : Joins lefts right js r) (h' : Joins lefts right js' r')
    (ha : AnswerAlike js js') : js'.map Joint.operands = js.map Joint.operands ∧ r' = r := by
  -- as long as the results of the pairs are the same, so are the operands of the next ones
  induction h generalizing js' with
  | alone right =>
    cases h'
    exact ⟨rfl, rfl⟩
  | @joined left right v lefts m answer r js hv _ ih =>
    cases h' with
    | joined hv' hj' =>
      cases hv'.symm.trans (ha.head.trans hv)
      obtain ⟨hp, hr⟩ := ih hj' ha.tail
      exact ⟨congrArg ((left, right) :: ·) hp, hr⟩
    | stopped hn' => exact absurd (ha.head.trans hv) (hn' v)
  | stopped hn =>
    cases h' with
    | joined hv' hj' => exact absurd (ha.head.symm.trans hv') (hn _)
    | stopped hn' => exact ⟨rfl, ha.head⟩

theorem Joins.texts {text : Value → Bytes} (h : Joins lefts right js r)
    (ht : ∀ v ∈ right :: lefts, v.toBytes? = some (text v)) :
    r = some (.ok (if lefts = [] then right else .string ((right :: lefts).reverse.flatMap text))) ∧
      ∀ j ∈ js, ∃ s, j.finding = .value (.string s) := by
  rw [List.forall_mem_cons] at ht
  rw [List.reverse_cons, List.flatMap_append, List.flatMap_singleton]
  -- the text of what is on the right grows
  generalize text right = t at ht
  induction h generalizing t with
  | alone right => exact ⟨by rw [if_pos rfl], by simp⟩
  | @joined left right v lefts m answer r js hv _ ih =>
    obtain ⟨hr, ha, hl⟩ := ht.imp_right List.forall_mem_cons.mp
    have hf := Joint.finding_texts ha hr m answer
    obtain rfl : .string (text left ++ t) = v := by
      exact Except.ok.inj (Option.some.inj ((Joint.result?_of_value hf).symm.trans hv))
    obtain ⟨hres, hall⟩ := ih (text left ++ t) ⟨rfl, hl⟩
    refine ⟨?_, List.forall_mem_cons.mpr ⟨⟨_, hf⟩, hall⟩⟩
    rw [hres, if_neg (List.cons_ne_nil left lefts), List.reverse_cons, List.flatMap_append,
      List.flatMap_singleton, List.append_assoc]
    split
    · next hn => rw [hn]; rfl
    · rfl
  | @stopped left right lefts m answer hn =>
    have hf := Joint.finding_texts (ht.2 left List.mem_cons_self) ht.1 m answer
    exact absurd (Joint.result?_of_value hf) (hn (.string (text left ++ t)))

end Agreement

theorem AnswerAlike.of_map {js js' : List Joint} (hf : js'.map Joint.finding = js.map Joint.finding)
    (ha : js'.map Joint.answer = js.map Joint.answer) : AnswerAlike js js' := by
  intro p hp _
  obtain ⟨k, hk⟩ := List.mem_iff_getElem?.mp hp
  obtain ⟨h, h'⟩ := List.getElem?_zip_eq_some.mp hk
  have hf := congrArg (·[k]?) hf
  have ha := congrArg (·[k]?) ha
  simp only [List.getElem?_map, h, h', Option.map_some, Option.some.injEq] at hf ha
  exact ⟨hf, fun _ _ _ => ha⟩

end LuaMachine
