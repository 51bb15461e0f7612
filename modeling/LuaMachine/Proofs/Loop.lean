import LuaMachine.Bytecode.Dispatch
import LuaMachine.Proofs.Protected
import Mathlib.Logic.Relation

namespace LuaMachine

open Relation

namespace Exec

variable (re : Reentry)

/-- Carries out an instruction. A return gives the call site that its results go to. -/
def carryOut (i : Instruction) : Exec (Option CallSite) :=
  match i.opcode? with
  | none => fault (.noOpcode i.opcodeNumber)
  | some .return => some <$> returnFrom i.a i.b
  | some op => do
    plainInstruction re op i
    return none

def execute : Exec (Option CallSite) := fetch >>= carryOut re

/-- Hands results over to a call site. If a protected call ends with them, then they go on to the
call site of its frame. -/
def accept (site : CallSite) : Exec (Option CallSite) := do
  match site with
  | .host => return none
  | .call a c =>
    storeResults (a + 1) c
    return none
  | .iterator a c =>
    storeResults (a + 4) (c + 1)
    return none
  | .metamethod =>
    finishInstruction re
    return none
  | .guarded => some <$> completeGuarded

end Exec

inductive Point where
  | running (m : Machine)
  /-- Results on top have to be handed over to a call site. -/
  | delivering (site : CallSite) (m : Machine)
  | failing (e : Error) (m : Machine)

def Outcome.point? : Outcome (Option CallSite) → Option Point
  | .done none m => some (.running m)
  | .done (some site) m => some (.delivering site m)
  | .raised e m => some (.failing e m)
  | .exhausted => none

namespace Point

def result? (stop : Nat) : Point → Option (Outcome Unit)
  | .running _ => none
  | .delivering site m => if m.frameCount ≤ stop ∨ site = .host then some (.done () m) else none
  | .failing e m => if e = .yield ∨ m.guardedLevel? stop = none then some (.raised e m) else none

def next? (re : Reentry) (stop : Nat) : Point → Option Point
  | .running m => (Exec.execute re m).point?
  | .delivering site m =>
    if m.frameCount ≤ stop ∨ site = .host then none else (Exec.accept re site m).point?
  | .failing e m =>
    if e = .yield then none
    else (m.guardedLevel? stop).bind fun level => ((some <$> Exec.recover re level e) m).point?

def Moves (re : Reentry) (stop : Nat) (p q : Point) : Prop := p.next? re stop = some q

def Stands (stop : Nat) (p : Point) : Outcome Bool → Prop
  | .done true m => p.result? stop = some (.done () m)
  | .done false m => p = .running m
  | .raised e m => p = .failing e m
  | .exhausted => False

def start (m : Machine) : Option CallSite → Point
  | none => .running m
  | some site => .delivering site m

end Point

namespace Exec

open Point

variable {re : Reentry} {stop : Nat}

theorem frameCount_completeGuarded {m m' : Machine} {site : CallSite} (h : 1 < m.frameCount)
    (hc : completeGuarded m = .done site m') : m'.frameCount + 1 = m.frameCount := by
  obtain ⟨us, -, he⟩ := run_completeGuarded m h
  rw [he] at hc
  cases hc
  have hs : ((m.cut m.running (m.frameCount - 1) us).threadAt m.running).frames.size =
    min (m.frameCount - 1) m.frameCount := Machine.size_cut h
  have hp := (m.cut m.running (m.frameCount - 1) us).size_modifyTop m.running m.running
    (·.pushAll (adjust (.bool true :: m.frame.values) m.frame.wanted))
  rw [hs] at hp
  change (((m.cut m.running (m.frameCount - 1) us).modifyTop m.running _).threadAt
    m.running).frames.size + 1 = m.frameCount
  omega

theorem accept_call (a c : Nat) :
    accept re (.call a c) = (do storeResults (a + 1) c; return none) := rfl

theorem accept_iterator (a c : Nat) :
    accept re (.iterator a c) = (do storeResults (a + 4) (c + 1); return none) := rfl

theorem accept_metamethod : accept re .metamethod = (do finishInstruction re; return none) := rfl

theorem accept_guarded : accept re .guarded = (do return some (← completeGuarded)) :=
  (bind_pure_comp some completeGuarded).symm

theorem accept_some {site site' : CallSite} {m m' : Machine}
    (h : accept re site m = .done (some site') m') :
    site = .guarded ∧ completeGuarded m = .done site' m' := by
  cases site with
  | guarded =>
    rw [accept_guarded] at h
    obtain ⟨s, m₁, hc, hp⟩ := Outcome.andThen_eq_done h
    cases hp
    exact ⟨rfl, hc⟩
  | host => cases h
  | call a c =>
    rw [accept_call] at h
    obtain ⟨_, _, _, hp⟩ := Outcome.andThen_eq_done h
    cases hp
  | iterator a c =>
    rw [accept_iterator] at h
    obtain ⟨_, _, _, hp⟩ := Outcome.andThen_eq_done h
    cases hp
  | metamethod =>
    rw [accept_metamethod] at h
    obtain ⟨_, _, _, hp⟩ := Outcome.andThen_eq_done h
    cases hp

theorem andThen_andThen {α β γ : Type} (o : Outcome α) (f : α → Exec β) (g : β → Exec γ) :
    (o.andThen f).andThen g = o.andThen fun a m => (f a m).andThen g := by
  cases o <;> rfl

theorem deliverAt_succ (n : Nat) (site : CallSite) (m : Machine) :
    deliverAt re stop (n + 1) site m =
      if m.frameCount ≤ stop ∨ site = .host then .done true m
      else (accept re site m).andThen fun
        | none => pure false
        | some site => deliverAt re stop n site := by
  cases site with
  | host =>
    rw [deliverAt, run_bind, run_frameCount, Outcome.andThen_done]
    simp only [or_true, if_true, ite_self]
    rfl
  | guarded =>
    rw [deliverAt, run_bind, run_frameCount, Outcome.andThen_done, accept_guarded, run_bind,
      andThen_andThen, run_ite]
    simp only [reduceCtorEq, or_false]
    rfl
  | call a c =>
    rw [deliverAt, run_bind, run_frameCount, Outcome.andThen_done, accept_call, run_bind,
      andThen_andThen, run_ite]
    simp only [reduceCtorEq, or_false]
    rfl
  | iterator a c =>
    rw [deliverAt, run_bind, run_frameCount, Outcome.andThen_done, accept_iterator, run_bind,
      andThen_andThen, run_ite]
    simp only [reduceCtorEq, or_false]
    rfl
  | metamethod =>
    rw [deliverAt, run_bind, run_frameCount, Outcome.andThen_done, accept_metamethod, run_bind,
      andThen_andThen, run_ite]
    simp only [reduceCtorEq, or_false]
    rfl

theorem deliverAt_walk {n : Nat} {site : CallSite} {m : Machine} (hs : 0 < stop)
    (hn : m.frameCount < n) (hx : deliverAt re stop n site m ≠ .exhausted) :
    ∃ p, ReflTransGen (Moves re stop) (.delivering site m) p ∧
      p.Stands stop (deliverAt re stop n site m) := by
  induction n generalizing site m with
  | zero => omega
  | succ n ih =>
    rw [deliverAt_succ] at hx ⊢
    by_cases hc : m.frameCount ≤ stop ∨ site = .host
    · rw [if_pos hc]
      exact ⟨_, .refl, if_pos hc⟩
    · rw [if_neg hc] at hx ⊢
      have hm : (Point.delivering site m).next? re stop = (accept re site m).point? := if_neg hc
      cases ha : accept re site m with
      | exhausted =>
        rw [ha] at hx
        exact absurd rfl hx
      | raised e m' =>
        rw [ha] at hm
        exact ⟨.failing e m', .single hm, rfl⟩
      | done next m' =>
        rw [ha] at hm hx
        cases next with
        | none => exact ⟨.running m', .single hm, rfl⟩
        | some site' =>
          have hl := (accept_some ha).2
          have hf := frameCount_completeGuarded (by omega) hl
          obtain ⟨p, hp, ho⟩ := ih (by omega) hx
          exact ⟨p, .head hm hp, ho⟩

theorem carryOut_plain (re : Reentry) {i : Instruction} {op : Opcode} (h : i.opcode? = some op)
    (hr : op ≠ .return) : carryOut re i = (do plainInstruction re op i; return none) := by
  unfold carryOut
  split
  · next hi =>
    rw [h] at hi
    cases hi
  · next hi =>
    rw [h] at hi
    exact absurd (Option.some.inj hi) hr
  · next hi =>
    rw [h] at hi
    rw [Option.some.inj hi]

theorem carryOut_return (re : Reentry) {i : Instruction} (h : i.opcode? = some .return) :
    carryOut re i = some <$> returnFrom i.a i.b := by
  rw [carryOut, h]

theorem step_eq (re : Reentry) (stop : Nat) : step re stop = (execute re >>= fun
    | none => pure false
    | some site => deliver re stop site) := by
  unfold step execute carryOut
  rw [bind_assoc]
  refine bind_congr fun i => ?_
  cases h : i.opcode? with
  | none => rfl
  | some op =>
    by_cases hr : op = .return
    · subst hr
      exact (bind_map_left some (returnFrom i.a i.b) fun
        | none => pure false
        | some site => deliver re stop site).symm
    · have hp : ∀ x : Exec Unit, (do x; return false) = ((do x; return none) >>= fun
          | none => pure false
          | some site => deliver re stop site) := fun x => by
        rw [bind_assoc]
        rfl
      cases op with
      | «return» => exact absurd rfl hr
      | _ => exact hp _

theorem deliver_walk {site : CallSite} {m : Machine} (hs : 0 < stop)
    (hx : deliver re stop site m ≠ .exhausted) :
    ∃ p, ReflTransGen (Moves re stop) (.delivering site m) p ∧
      p.Stands stop (deliver re stop site m) :=
  deliverAt_walk hs (Nat.lt_succ_self _) hx

theorem step_walk {m : Machine} (hs : 0 < stop) (hx : step re stop m ≠ .exhausted) :
    ∃ p, ReflTransGen (Moves re stop) (.running m) p ∧ p.Stands stop (step re stop m) := by
  rw [step_eq, run_bind] at hx ⊢
  have hm : (Point.running m).next? re stop = (execute re m).point? := rfl
  cases he : execute re m with
  | exhausted =>
    rw [he] at hx
    exact absurd rfl hx
  | raised e m' =>
    rw [he] at hm
    exact ⟨.failing e m', .single hm, rfl⟩
  | done next m' =>
    rw [he] at hm hx
    cases next with
    | none => exact ⟨.running m', .single hm, rfl⟩
    | some site =>
      obtain ⟨p, hp, ho⟩ := deliver_walk hs hx
      exact ⟨p, .head hm hp, ho⟩

theorem handle_walk {level : Nat} {e : Error} {m : Machine} (hs : 0 < stop) (he : e ≠ .yield)
    (hl : m.guardedLevel? stop = some level) (hx : handle re stop level e m ≠ .exhausted) :
    ∃ p, ReflTransGen (Moves re stop) (.failing e m) p ∧
      p.Stands stop (handle re stop level e m) := by
  have hm : (Point.failing e m).next? re stop = ((some <$> recover re level e) m).point? := by
    rw [Point.next?, if_neg he, hl]
    rfl
  rw [← bind_pure_comp, run_bind] at hm
  rw [handle, run_bind] at hx ⊢
  cases hr : recover re level e m with
  | exhausted =>
    rw [hr] at hx
    exact absurd rfl hx
  | raised e' m' =>
    rw [hr] at hm
    exact ⟨.failing e' m', .single hm, rfl⟩
  | done site m' =>
    rw [hr] at hm hx
    obtain ⟨p, hp, ho⟩ := deliver_walk hs hx
    exact ⟨p, .head hm hp, ho⟩

theorem settle_exhausted (fuel : Nat) : settle re stop fuel .exhausted = .exhausted := by
  cases fuel <;> rfl

theorem settle_unguarded (fuel : Nat) {e : Error} {m : Machine} (he : e ≠ .yield)
    (hl : m.guardedLevel? stop = none) :
    settle re stop (fuel + 1) (.raised e m) = .raised e m := by
  cases e with
  | yield => exact absurd rfl he
  | _ => simp only [settle, hl]

theorem settle_guarded (fuel : Nat) {e : Error} {m : Machine} {level : Nat} (he : e ≠ .yield)
    (hl : m.guardedLevel? stop = some level) :
    settle re stop (fuel + 1) (.raised e m) = settle re stop fuel (handle re stop level e m) := by
  cases e with
  | yield => exact absurd rfl he
  | _ => simp only [settle, hl]

theorem settle_walk {fuel : Nat} {o : Outcome Bool} {p : Point} (hs : 0 < stop)
    (hp : p.Stands stop o) (hx : settle re stop fuel o ≠ .exhausted) :
    ∃ q, ReflTransGen (Moves re stop) p q ∧ q.result? stop = some (settle re stop fuel o) := by
  -- on the bound of the steps: the walk of one step goes before that of the others
  induction fuel generalizing o p with
  | zero =>
    cases o with
    | exhausted => exact hp.elim
    | done last m =>
      cases last with
      | true => exact ⟨p, .refl, hp⟩
      | false => exact absurd rfl hx
    | raised e m =>
      cases e with
      | yield =>
        obtain rfl := hp
        exact ⟨_, .refl, rfl⟩
      | _ => exact absurd rfl hx
  | succ fuel ih =>
    cases o with
    | exhausted => exact hp.elim
    | done last m =>
      cases last with
      | true => exact ⟨p, .refl, hp⟩
      | false =>
        obtain rfl := hp
        have hx' : step re stop m ≠ .exhausted := fun he => hx (by
          rw [settle, he]
          exact settle_exhausted fuel)
        obtain ⟨q, hq, ho⟩ := step_walk hs hx'
        obtain ⟨q', hq', ho'⟩ := ih ho hx
        exact ⟨q', hq.trans hq', ho'⟩
    | raised e m =>
      obtain rfl := hp
      by_cases he : e = .yield
      · subst he
        exact ⟨_, .refl, rfl⟩
      · cases hl : m.guardedLevel? stop with
        | none =>
          refine ⟨_, .refl, ?_⟩
          rw [settle_unguarded fuel he hl]
          exact if_pos (.inr hl)
        | some level =>
          rw [settle_guarded fuel he hl] at hx ⊢
          have hx' : handle re stop level e m ≠ .exhausted := fun he => hx (by
            rw [he]
            exact settle_exhausted fuel)
          obtain ⟨q, hq, ho⟩ := handle_walk hs he hl hx'
          obtain ⟨q', hq', ho'⟩ := ih ho hx
          exact ⟨q', hq.trans hq', ho'⟩

/-- Whatever the dispatch loop comes to is the result at the end of a walk. -/
theorem dispatch_walk {fuel : Nat} {site : Option CallSite} {m : Machine} (hs : 0 < stop)
    (hx : dispatch re fuel stop site m ≠ .exhausted) :
    ∃ p, ReflTransGen (Moves re stop) (start m site) p ∧
      p.result? stop = some (dispatch re fuel stop site m) := by
  cases site with
  | none => exact settle_walk hs (rfl : Stands stop (.running m) (.done false m)) hx
  | some site =>
    have hx' : deliver re stop site m ≠ .exhausted := fun he => hx (by
      rw [dispatch, he]
      exact settle_exhausted fuel)
    obtain ⟨p, hp, ho⟩ := deliver_walk hs hx'
    obtain ⟨q, hq, ho'⟩ := settle_walk hs ho hx
    exact ⟨q, hp.trans hq, ho'⟩

end Exec

namespace Point

open Exec

variable {re : Reentry} {stop : Nat} {p q r : Point} {x : Outcome Unit}

theorem next?_of_result? (h : q.result? stop = some x) : q.next? re stop = none := by
  cases q with
  | running m => cases h
  | delivering site m =>
    by_cases hc : m.frameCount ≤ stop ∨ site = .host
    · exact if_pos hc
    · cases (if_neg hc).symm.trans h
  | failing e m =>
    by_cases he : e = .yield
    · exact if_pos he
    · by_cases hl : m.guardedLevel? stop = none
      · rw [next?, if_neg he, hl, Option.bind_none]
      · cases (if_neg (not_or.mpr ⟨he, hl⟩)).symm.trans h

theorem walk_to_result (hq : ReflTransGen (Moves re stop) p q)
    (hr : ReflTransGen (Moves re stop) p r) (h : r.result? stop = some x) :
    ReflTransGen (Moves re stop) q r := by
  have hu : Relator.RightUnique (Moves re stop) := fun a b c hb hc =>
    Option.some.inj (hb.symm.trans hc)
  rcases ReflTransGen.total_of_right_unique hu hq hr with hw | hw
  · exact hw
  · rcases ReflTransGen.cases_head hw with rfl | ⟨s, hs, -⟩
    · exact .refl
    · rw [Moves, next?_of_result? h] at hs
      cases hs

theorem dispatch_result {fuel : Nat} {site : Option CallSite} {m₀ : Machine} (hs : 0 < stop)
    (hw : ReflTransGen (Moves re stop) (start m₀ site) p) (hp : p.result? stop = some x)
    (hx : dispatch re fuel stop site m₀ ≠ .exhausted) : dispatch re fuel stop site m₀ = x := by
  obtain ⟨q, hq, hr⟩ := dispatch_walk hs hx
  rcases ReflTransGen.cases_head (walk_to_result hw hq hr) with rfl | ⟨r, hm, -⟩
  · exact Option.some.inj (hr.symm.trans hp)
  · rw [Moves, next?_of_result? hp] at hm
    cases hm

theorem dispatch_exhausted {fuel : Nat} {site : Option CallSite} {m₀ : Machine} (hs : 0 < stop)
    (hw : ReflTransGen (Moves re stop) (start m₀ site) p) (hn : p.next? re stop = none)
    (hr : p.result? stop = none) : dispatch re fuel stop site m₀ = .exhausted := by
  refine Classical.byContradiction fun hx => ?_
  obtain ⟨q, hq, hres⟩ := dispatch_walk hs hx
  rcases ReflTransGen.cases_head (walk_to_result hw hq hres) with rfl | ⟨r, hm, -⟩
  · rw [hr] at hres
    cases hres
  · rw [Moves, hn] at hm
    cases hm

end Point
end LuaMachine
