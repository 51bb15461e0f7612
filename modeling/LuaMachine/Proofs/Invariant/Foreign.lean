import LuaMachine.Proofs.Invariant.Host
import LuaMachine.Proofs.Invariant.Instruction
import LuaMachine.Proofs.Launch
import LuaMachine.Proofs.Resume

namespace LuaMachine

class Thread.Plain (g : Thread → Thread) : Prop where
  frames : ∀ th, (g th).frames = th.frames

instance Thread.plain_fields (isMain parked : Thread → Bool) (phase : Thread → Phase)
    (status : Thread → Status) (hostCalls nesting : Thread → Nat)
    (pending : Thread → Option PendingCall) (transfer : Thread → List Value) :
    Thread.Plain fun th => ⟨th.frames, isMain th, parked th, phase th, status th, hostCalls th,
      nesting th, pending th, transfer th⟩ := ⟨fun _ => rfl⟩

class Thread.Staying (g : Thread → Thread) : Prop extends Thread.Plain g where
  isMain : ∀ th, (g th).isMain = th.isMain
  parked : ∀ th, (g th).parked = th.parked
  phase : ∀ th, (g th).phase = th.phase

instance Thread.staying_fields (status : Thread → Status) (hostCalls nesting : Thread → Nat)
    (pending : Thread → Option PendingCall) (transfer : Thread → List Value) :
    Thread.Staying fun th => ⟨th.frames, th.isMain, th.parked, th.phase, status th, hostCalls th,
      nesting th, pending th, transfer th⟩ :=
  { frames _ := rfl, isMain _ := rfl, parked _ := rfl, phase _ := rfl }

namespace Machine

def Fits (m : Machine) (f : FunctionId) : Prop :=
  ∀ p us, m.functions[f.index]? = some { body := .bytecode p, upvalues := us } →
    p.registers + spareSlots ≤ m.limits.stackSize

/-- The limits leave room for a frame on top of a thread, and its function exists. -/
structure Admits (m : Machine) (t : ThreadId) (f : Frame) : Prop where
  depth : (m.threadAt t).frames.size ≤ m.limits.callDepth
  known : ∀ id, f.function = some id → id.index < m.functions.size
  window : ∀ id, f.function = some id → m.Fits id

theorem body_functionAt {m : Machine} {f : FunctionId} {body : Body} {us : Array UpvalueId}
    (h : m.functions[f.index]? = some { body, upvalues := us }) : (m.functionAt f).body = body := by
  rw [functionAt, Array.getD_eq_getD_getElem?, h, Option.getD_some]

end Machine

/-- Native functions of the libraries are those functions. -/
class Reentry.Genuine (re : Reentry) : Prop where
  builtin : ∀ f m, re.invoke (.builtin f) m = .exhausted ∨
    ∃ re', re.invoke (.builtin f) m = Builtin.run re' f m

theorem Reentry.Genuine.invoke_absent {re : Reentry} (hre : re.Genuine) {m : Machine} {f : FunctionId}
    {body : Native} (hf : m.functions.size ≤ f.index) (hb : (m.functionAt f).body = .native body)
    (m' : Machine) : re.invoke body m' = .exhausted ∨
      ∃ v, re.invoke body m' = .done 1 (m'.modifyTop m'.running (·.push v)) := by
  rw [Machine.functionAt_of_le hf] at hb
  cases hb
  exact (hre.builtin .isyieldable m').imp_right fun ⟨_, h⟩ => ⟨_, h⟩

/-- A condition that lets frames come that have nothing above their top, and lets them go. -/
class Condition.Roomy (K : Condition) : Prop where
  thread : ∀ {r y m} (g : Thread → Thread) [Thread.Staying g], K r y m →
    K r y { m with threads := m.threads.modify r.index g }
  guard : ∀ {r y m} (g : Option Guard), K r y m →
    K r y (m.modifyTop r fun f => { f with guard := g })
  enter : ∀ {r y m} (f : Frame), f.captured = [] → f.Clear → m.Admits r f → K r y m →
    K r y (m.enterFrame r f)
  leave : ∀ {r y m}, K r y m → K r y (m.leaveFrame r)

class Condition.Framed (K : Condition) : Prop where
  thread : ∀ {r y m} (g : Thread → Thread) [Thread.Staying g], K r y m →
    K r y { m with threads := m.threads.modify r.index g }
  guard : ∀ {r y m} (g : Option Guard), K r y m →
    K r y (m.modifyTop r fun f => { f with guard := g })
  enter : ∀ {r y m} (f : Frame), f.captured = [] → m.Admits r f → K r y m → K r y (m.enterFrame r f)
  leave : ∀ {r y m}, K r y m → K r y (m.leaveFrame r)

instance Condition.Framed.roomy {K : Condition} [hK : K.Framed] : K.Roomy where
  thread g _ h := hK.thread g h
  guard g h := hK.guard g h
  enter f hf _ ha h := hK.enter f hf ha h
  leave h := hK.leave h

/-- What coroutines are doing makes no difference. -/
class Condition.Phaseless (K : Condition) : Prop where
  phase : ∀ {r y m} (t : ThreadId) (phase : Phase), K r y m →
    K r y { m with threads := m.threads.modify t.index fun th => { th with phase } }

class Condition.Foreign (K : Condition) : Prop extends Condition.Framed K, Condition.Phaseless K

/-- Whether a yield is on its way makes no difference. -/
class Condition.Deaf (K : Condition) : Prop where
  yield : ∀ {r m} y, K r y m ↔ K r false m

instance Condition.Roomy.quiet {K : Condition} [hK : K.Roomy] : Condition.Roomy K.quiet where
  thread g _ h := ⟨h.1, hK.thread g h.2⟩
  guard g h := ⟨h.1, hK.guard g h.2⟩
  enter f hf hc ha h := ⟨h.1, hK.enter f hf hc ha h.2⟩
  leave h := ⟨h.1, hK.leave h.2⟩

instance Condition.Phaseless.quiet {K : Condition} [hK : K.Phaseless] : Condition.Phaseless K.quiet where
  phase t p h := ⟨h.1, hK.phase t p h.2⟩

namespace Exec

theorem clear_nativeFrame (f : FunctionId) (args : List Value) (wanted : Int) (site : CallSite) :
    (nativeFrame f args wanted site).Clear :=
  Frame.clear_of_window (Nat.le_of_eq List.size_toArray)

theorem clear_bytecodeFrame (f : FunctionId) (p : Prototype) (args : List Value) (wanted : Int)
    (site : CallSite) : (bytecodeFrame f p args wanted site).Clear :=
  Frame.clear_of_window (Nat.le_of_eq (List.size_toArray.trans (length_adjust ..)))

section Target

variable {K : Condition} [K.Neat]

instance keeps_callTarget (n : Nat) (v : Value) (args : List Value) :
    Keeps K (callTarget n v args) := by
  induction n generalizing v args with
  | zero =>
    unfold callTarget
    cases v <;> infer_instance
  | succ n ih =>
    unfold callTarget
    cases v with
    | function f => infer_instance
    | _ =>
      refine Keeps.bind inferInstance fun h => ?_
      cases h <;> infer_instance

instance keeps_takeCall (nargs : Nat) : Keeps K (takeCall nargs) := by
  unfold takeCall
  infer_instance

/-- The frame of a function that does not exist is gone before anything else happens. -/
theorem ends_callAbsent (re : Reentry) [hg : re.Genuine] {m : Machine} {f : FunctionId} {body : Native}
    {args : List Value}
    {wanted : Int} {site : CallSite} (h : K m.running false m) (hf : m.functions.size ≤ f.index)
    (hb : (m.functionAt f).body = .native body) :
    (callNative re f body args wanted site m).Ends K m.running := by
  rcases hg.invoke_absent hf hb (m.enterFrame m.running (nativeFrame f args wanted site)) with
    he | ⟨v, he⟩
  · rw [callNative, run_bind, run_pushFrame, Outcome.andThen_done, run_bind, run_frameCount,
      Outcome.andThen_done, run_bind, run_attempt_exhausted he]
    trivial
  · obtain ⟨vs, hc⟩ := callNative_passing re (he.trans (congrArg (Outcome.done 1)
      (m.modifyTop_enterFrame ..))) rfl
    rw [hc]
    exact (inferInstance : Keeps K (do pushAdjusted vs wanted; return false)).ends m h

end Target

section Framed

variable {K : Condition} [hf : K.Roomy]

instance keeps_modifyThread (g : Thread → Thread) [Thread.Staying g] : Keeps K (modifyThread g) :=
  ⟨fun _ h => ⟨rfl, hf.thread g h⟩⟩

theorem keeps_setGuard (g : Option Guard) : Keeps K (modifyFrame fun f => { f with guard := g }) :=
  ⟨fun _ h => ⟨rfl, hf.guard g h⟩⟩

variable [K.Tidy]

instance keeps_takeGuard : Keeps K takeGuard := by
  have hm : Keeps K (modifyFrame fun f => { f with guard := none }) := keeps_setGuard none
  unfold takeGuard
  infer_instance

instance keeps_popFrame : Keeps K popFrame where
  ends m h := by
    rw [popFrame_eq]
    exact ⟨rfl, hf.leave h⟩

instance keeps_popFrames (n : Nat) : Keeps K (popFrames n) := by
  induction n with
  | zero => exact keeps_pure ()
  | succ n ih =>
    unfold popFrames
    infer_instance

instance keeps_truncateFrames (depth : Nat) : Keeps K (truncateFrames depth) := by
  unfold truncateFrames
  infer_instance

instance keeps_unwindTo (depth : Nat) : Keeps K (unwindTo depth) := keeps_truncateFrames _

instance keeps_suspendCall (wanted : Int) (site : CallSite) :
    Keeps K (suspendCall wanted site) := by
  unfold suspendCall
  infer_instance

instance keeps_endFrame (n : Nat) (wanted : Int) : Keeps K (endFrame n wanted) := by
  unfold endFrame
  infer_instance

instance keeps_leave (first : Nat) : Keeps K (leave first) := by
  unfold leave
  infer_instance

instance keeps_completeGuarded : Keeps K completeGuarded := by
  unfold completeGuarded
  infer_instance

end Framed

section Deaf

variable {K : Condition} [hd : K.Deaf] {α β : Type}

instance lax_deaf (e : Error) : Lax K e := ⟨(hd.yield _).mpr⟩

theorem Keeps.ofAway {x : Exec α} (hx : Keeps K.away x) : Keeps K x where
  ends m h := (hx.ends m ⟨⟨rfl, h⟩, fun _ => (hd.yield true).mp⟩).imp fun _ _ h => h.1.2

theorem Keeps.settles {x : Exec α} (hx : Keeps K x) (e : Error) : Settles K e x :=
  ⟨fun m h => hx.ends m ((hd.yield _).mp h)⟩

instance keeps_attempt (x : Exec α) [hx : Keeps K x] : Keeps K (attempt x) := by
  rw [← bind_pure (attempt x)]
  exact Keeps.attempt hx (fun a => keeps_pure _) fun e => (keeps_pure _).settles e

instance keeps_ofExcept (r : Except Error α) : Keeps K (ofExcept r) := by
  cases r with
  | ok a => exact keeps_pure a
  | error e => exact keeps_raise e

theorem Keeps.holds {x : Exec α} (hx : Keeps K x) : Holds K x :=
  ⟨fun m h => (hx.ends m h).imp fun y _ => (hd.yield y).mp⟩

theorem Keeps.attemptQuiet {x : Exec α} {f : Except Error α → Exec β} (hx : Keeps K x)
    (hf : ∀ a, Keeps K.quiet (f a)) : Keeps K.quiet (Exec.attempt x >>= f) where
  ends m h := by
    have hx := hx.holds.ends m h.2
    change ((Exec.attempt x m).andThen f).Ends K.quiet m.running
    unfold Exec.attempt
    cases hm : x m with
    | done a m' | raised e m' =>
      rw [hm] at hx
      rw [← hx.1]
      exact (hf _).ends m' (hx.1 ▸ ⟨rfl, hx.2⟩)
    | exhausted => trivial

variable [K.Tidy] [hf : K.Roomy]

instance yields_deaf : K.Yields where
  yields n := by
    refine Keeps.bind ?_ fun e => keeps_raise e
    unfold yieldError
    infer_instance

variable (re : Reentry) [hi : ∀ f, Keeps K (re.invoke f)]

theorem ends_callNative {m : Machine} {f : FunctionId} {body : Native} {args : List Value}
    {wanted : Int} {site : CallSite} (h : K m.running false m)
    (ha : m.Admits m.running (nativeFrame f args wanted site)) :
    (callNative re f body args wanted site m).Ends K m.running := by
  unfold callNative
  rw [run_bind, run_pushFrame, Outcome.andThen_done]
  refine Keeps.endsIn (Keeps.bind inferInstance fun depth => Keeps.bind inferInstance fun r =>
    Keeps.bind inferInstance fun guarded => ?_) rfl
      (hf.enter _ rfl (clear_nativeFrame f args wanted site) ha h)
  cases r with
  | ok n => infer_instance
  | error e => cases e <;> infer_instance

variable [re.Genuine]

instance keeps_launch (f : FunctionId) (args : List Value) (wanted : Int) (site : CallSite) :
    Keeps K (launch re f args wanted site) where
  ends m h := by
    rw [launch_eq]
    split
    · exact (keeps_fault _).ends m h
    · next hd =>
      have hd : (m.threadAt m.running).frames.size ≤ m.limits.callDepth := Nat.not_lt.mp hd
      split
      · next p hp =>
        split
        · exact (keeps_fault _).ends m h
        · next hs =>
          have hk : f.index < m.functions.size := Nat.not_le.mp fun hk => by
            rw [Machine.functionAt_of_le hk] at hp
            cases hp
          refine ⟨rfl, hf.enter _ rfl (clear_bytecodeFrame f p args wanted site)
            ⟨hd, fun id hid => ?_, fun id hid q us hq => ?_⟩ h⟩
          · cases hid
            exact hk
          · cases hid
            cases hp.symm.trans (Machine.body_functionAt hq)
            exact Nat.not_lt.mp hs
      · next body hb =>
        by_cases hk : f.index < m.functions.size
        · refine ends_callNative re h ⟨hd, fun id hid => ?_, fun id hid q us hq => ?_⟩
          · cases hid
            exact hk
          · cases hid
            cases hb.symm.trans (Machine.body_functionAt hq)
        · exact ends_callAbsent re h (Nat.not_lt.mp hk) hb

theorem keeps_framedEnter (nargs : Nat) (wanted : Int) (site : CallSite) :
    Keeps K (enter re nargs wanted site) := by
  rw [enter_eq]
  infer_instance

variable [hdisp : ∀ stop site, Keeps K (re.dispatch stop site)]

instance keeps_enterAndRun (nargs : Nat) (wanted : Int) (site : CallSite) :
    Keeps K (enterAndRun re nargs wanted site) := by
  have := keeps_framedEnter re nargs wanted site (K := K)
  unfold enterAndRun
  infer_instance

set_option synthInstance.maxSize 512 in
instance keeps_nested (host : Bool) (x : Exec Unit) [Keeps K x] : Keeps K (nested host x) := by
  unfold nested
  dsimp only
  infer_instance

theorem keeps_framedCall (nargs : Nat) (wanted : Int) : Keeps K (call re nargs wanted) := by
  unfold call
  refine Keeps.bind inferInstance fun depth => Keeps.bind inferInstance fun r => ?_
  cases r <;> infer_instance

theorem keeps_framedRunHandler (handler v : Value) : Keeps K (runHandler re handler v) := by
  have := keeps_framedCall (K := K) re 1 1
  unfold runHandler
  refine Keeps.bind inferInstance fun _ => Keeps.bind inferInstance fun _ =>
    Keeps.bind inferInstance fun r => ?_
  cases r <;> infer_instance

theorem keeps_framedCaughtValue (handler : Option Value) (e : Error) :
    Keeps K (caughtValue re handler e) := by
  have := fun h v => keeps_framedRunHandler (K := K) re h v
  unfold caughtValue
  cases handler <;> infer_instance

set_option synthInstance.maxSize 512 in
theorem keeps_framedPcall (nargs : Nat) (wanted handler : Int) :
    Keeps K (Exec.pcall re nargs wanted handler) := by
  have := keeps_framedCall (K := K) re nargs wanted
  have := fun h v => keeps_framedRunHandler (K := K) re h v
  unfold Exec.pcall
  dsimp only
  split
  all_goals
    refine Keeps.bind inferInstance fun handler => Keeps.bind inferInstance fun depth =>
      Keeps.bind inferInstance fun height => Keeps.bind inferInstance fun counts =>
      Keeps.bind inferInstance fun r => ?_
    cases r with
    | ok a => infer_instance
    | error e => cases handler <;> infer_instance

set_option synthInstance.maxSize 512 in
theorem keeps_framedGuardedCall (handler : Option Value) : Keeps K (guardedCall re handler) := by
  have hg : Keeps K (modifyFrame fun f => { f with guard := some { handler } }) :=
    keeps_setGuard _
  have := keeps_framedEnter (K := K) re
  have := keeps_framedCaughtValue (K := K) re
  unfold guardedCall
  refine Keeps.bind inferInstance fun level => Keeps.bind inferInstance fun height =>
    Keeps.bind inferInstance fun _ => Keeps.bind inferInstance fun r => ?_
  cases r with
  | ok b => cases b <;> infer_instance
  | error e => cases e <;> infer_instance

set_option synthInstance.maxSize 512 in
instance keeps_recover (level : Nat) (e : Error) : Keeps K (recover re level e) := by
  have := keeps_framedCaughtValue (K := K) re
  unfold recover
  infer_instance

instance keeps_startBody (nargs : Nat) : Keeps K (startBody re nargs) := by
  have := keeps_framedEnter (K := K) re
  unfold startBody
  infer_instance

instance keeps_continueCall (nargs : Nat) : Keeps K (continueCall re nargs) := by
  unfold continueCall
  refine Keeps.bind inferInstance fun p => ?_
  cases p <;> infer_instance

end Deaf

instance keeps_refuse {K : Condition} [K.Neat] (reason : String) (nargs : Nat) :
    Keeps K (refuse reason nargs) := by
  unfold refuse
  infer_instance

section Resume

variable {K : Condition} [K.Tidy] [K.Roomy] [hp : K.Phaseless]

instance keeps_setPhase (t : ThreadId) (phase : Phase) : Keeps K (setPhase t phase) :=
  ⟨fun _ h => ⟨rfl, hp.phase t phase h⟩⟩

set_option synthInstance.maxSize 512 in
instance keeps_settleResume (r : Except Error Unit) : Keeps K (settleResume r) := by
  unfold settleResume
  cases r with
  | ok a => infer_instance
  | error e => cases e <;> infer_instance

instance keeps_sourcePhase (source : Option ThreadId) (phase : Phase) :
    Keeps K (source.forM (setPhase · phase)) := by
  cases source with
  | none => exact keeps_pure ()
  | some t => exact keeps_setPhase t phase

variable [K.Deaf] (re : Reentry) [re.Genuine] [hi : ∀ f, Keeps K (re.invoke f)]
  [hdisp : ∀ stop site, Keeps K (re.dispatch stop site)]

theorem keeps_takeUp (source : Option ThreadId) (nargs : Nat) (self : ThreadId)
    (named resuming : Bool) : Keeps K.quiet (takeUp re source nargs self named resuming) := by
  unfold takeUp
  dsimp only
  refine Keeps.bind inferInstance fun source => Keeps.bind inferInstance fun _ => ?_
  have hx : Keeps K (if resuming = true then continueCall re nargs else startBody re nargs) :=
    inferInstance
  split
  all_goals
    first
    | refine Keeps.bind inferInstance fun _ => Keeps.bind inferInstance fun _ =>
        Keeps.attemptQuiet inferInstance fun r => ?_
      infer_instance
    | refine Keeps.bind inferInstance fun _ => Keeps.attemptQuiet inferInstance fun r => ?_
      infer_instance

theorem keeps_framedResume (source : Option ThreadId) (nargs : Nat) :
    Keeps K.quiet (resume re source nargs) where
  ends m h := by
    have ht := fun named resuming => keeps_takeUp (K := K) re source nargs m.running named resuming
    have hr := fun reason => (keeps_refuse (K := K.quiet) reason nargs).ends m h
    rw [resume_eq]
    split
    · exact hr _
    · split
      · exact hr _
      · split
        · exact hr _
        · exact (Keeps.bind inferInstance fun _ => keeps_ite _ _ _ : Keeps K.quiet (_ >>= _)).ends m h

end Resume

end Exec

theorem Reentry.calls_framed {K : Condition} [K.Tidy] [K.Roomy] [K.Deaf] (re : Reentry) [re.Genuine]
    (hi : ∀ f, Exec.Keeps K (re.invoke f))
    (hd : ∀ stop site, Exec.Keeps K (re.dispatch stop site)) : re.Calls K where
  call := Exec.keeps_framedCall re
  callHolds _ _ := (Exec.keeps_framedCall re _ _).holds
  callHandler _ _ _ := Exec.keeps_callHandlerOf re (Exec.keeps_framedCall re)
    fun _ _ => Exec.keeps_nested false _
  pcall := Exec.keeps_framedPcall re

theorem Reentry.safe_framed {K : Condition} [K.Tidy] [K.Roomy] [K.Phaseless] [K.Deaf] (re : Reentry)
    [re.Genuine] (hi : ∀ f, Exec.Keeps K (re.invoke f))
    (hd : ∀ stop site, Exec.Keeps K (re.dispatch stop site)) : re.Safe K :=
  { re.calls_framed hi hd with resume := Exec.keeps_framedResume re }

theorem Reentry.starts_framed {K : Condition} [K.Tidy] [K.Roomy] [K.Deaf] (re : Reentry) [re.Genuine]
    (hi : ∀ f, Exec.Keeps K (re.invoke f))
    (hd : ∀ stop site, Exec.Keeps K (re.dispatch stop site)) : re.Starts K where
  enter nargs wanted site _ := Exec.keeps_framedEnter re nargs wanted site
  guardedCall := Exec.keeps_framedGuardedCall re

class Reentry.Instructs (K : Condition) (re : Reentry) : Prop where
  plain : ∀ {m m₁ i} op, K m.running false m → Exec.fetch m = .done i m₁ →
    (Exec.plainInstruction re op i m₁).Ends K m.running
  finish : Exec.Keeps K (Exec.finishInstruction re)

instance Reentry.instructs_steady {K : Condition} [K.Steady] (re : Reentry) [re.Calls K]
    [re.Starts K] : re.Instructs K where
  plain op hm hf :=
    have hx := Exec.Keeps.done inferInstance hf hm
    (Exec.keeps_plainInstruction re op _).endsIn hx.1 hx.2
  finish := Exec.keeps_finishInstruction re

namespace Exec

variable {K : Condition} [K.Tidy]

theorem keeps_fetched {β : Type} {f : Instruction → Exec β}
    (hf : ∀ {m m₁ i}, K m.running false m → fetch m = .done i m₁ → m₁.running = m.running →
      K m.running false m₁ → (f i m₁).Ends K m.running) : Keeps K (fetch >>= f) where
  ends m h := by
    have hx := (keeps_fetch (K := K)).ends m h
    rw [run_bind]
    cases he : fetch m with
    | done i m₁ =>
      rw [he] at hx
      exact hf h he hx.1 hx.2
    | raised e m₁ =>
      rw [he] at hx
      exact hx
    | exhausted => trivial

variable [K.Roomy] [K.Deaf] (re : Reentry)

instance keeps_returnFrom (a b : Nat) : Keeps K (returnFrom a b) := by
  unfold returnFrom
  cases b <;> infer_instance

variable [hi : re.Instructs K]

instance keeps_deliverAt (stop n : Nat) (site : CallSite) : Keeps K (deliverAt re stop n site) := by
  have := hi.finish
  induction n generalizing site with
  | zero => exact keeps_pure true
  | succ n ih =>
    unfold deliverAt
    cases site <;> infer_instance

instance keeps_deliver (stop : Nat) (site : CallSite) : Keeps K (deliver re stop site) := by
  unfold deliver
  infer_instance

instance keeps_step (stop : Nat) : Keeps K (step re stop) := by
  unfold step
  refine keeps_fetched fun {m m₁ i} hm hf hr hm₁ => ?_
  have hp (op : Opcode) : ((do plainInstruction re op i; return false : Exec Bool) m₁).Ends K m.running :=
    ends_andThen (hi.plain op hm hf) fun _ _ hr' hm' => ⟨hr', hm'⟩
  have hx : Keeps K (do
      let site ← returnFrom i.a i.b
      deliver re stop site) := inferInstance
  cases i.opcode? with
  | none => exact (keeps_fault _).endsIn hr hm₁
  | some op =>
    cases op with
    | «return» => exact hx.endsIn hr hm₁
    | _ => exact hp _

variable [re.Genuine] [∀ f, Keeps K (re.invoke f)] [∀ stop site, Keeps K (re.dispatch stop site)]

instance keeps_handle (stop level : Nat) (e : Error) : Keeps K (handle re stop level e) := by
  unfold handle
  infer_instance

theorem ends_settle (stop fuel : Nat) {o : Outcome Bool} {r : ThreadId} (ho : o.Ends K r) :
    (settle re stop fuel o).Ends K r := by
  induction fuel generalizing o with
  | zero =>
    cases o with
    | done b m =>
      cases b with
      | true => exact ho
      | false => trivial
    | raised e m =>
      cases e with
      | yield => exact ho
      | _ => trivial
    | exhausted => trivial
  | succ fuel ih =>
    cases o with
    | done b m =>
      cases b with
      | true => exact ho
      | false =>
        obtain ⟨rfl, hK⟩ := ho
        exact ih ((keeps_step re stop).ends m hK)
    | raised e m =>
      cases e with
      | yield => exact ho
      | _ =>
        obtain ⟨rfl, hK⟩ := ho
        unfold settle
        split
        · exact ⟨rfl, hK⟩
        · exact ih ((keeps_handle re stop _ _).ends m hK)
    | exhausted => trivial

instance keeps_dispatch (fuel stop : Nat) (site : Option CallSite) :
    Keeps K (dispatch re fuel stop site) where
  ends m h := by
    cases site with
    | none => exact ends_settle re stop fuel ⟨rfl, h⟩
    | some site => exact ends_settle re stop fuel ((keeps_deliver re stop site).ends m h)

end Exec

instance Host.genuine_reentry (host : Host) (fuel : Nat) : (host.reentry fuel).Genuine where
  builtin f m := by
    cases fuel with
    | zero => exact .inl rfl
    | succ fuel => exact .inr ⟨_, rfl⟩

/-- Whatever the machine does in a thread keeps a condition that has nothing to do with it. -/
theorem Host.keeps_foreign {K : Condition} [K.Stable] [K.Foreign] [K.Deaf] (host : Host)
    (fuel : Nat) : (∀ f, Exec.Keeps K (host.invoke fuel f)) ∧
      ∀ stop site, Exec.Keeps K (host.dispatch fuel stop site) := by
  induction fuel with
  | zero => exact ⟨fun _ => Exec.keeps_exhausted, fun _ _ => Exec.keeps_exhausted⟩
  | succ fuel ih =>
    obtain ⟨hi, hd⟩ := ih
    have hi' : ∀ f, Exec.Keeps K ((host.reentry fuel).invoke f) := hi
    have hd' : ∀ stop site, Exec.Keeps K ((host.reentry fuel).dispatch stop site) := hd
    have := Reentry.safe_framed (host.reentry fuel) hi' hd'
    have hs := Reentry.starts_framed (host.reentry fuel) hi' hd'
    exact ⟨fun f => host.keeps_native (host.reentry fuel) (fun e _ => Exec.lax_deaf e) f fun _ => hs,
      fun stop site => Exec.keeps_dispatch (host.reentry fuel) fuel stop site⟩

/-- In a session libraries are opened first, and then operations are performed one after the other. -/
theorem Host.ends_session {K : Condition} [K.Tidy] [K.Deaf] (host : Host) (fuel : Nat)
    [(host.reentry fuel).Calls K] (limits : Limits) (library : Option Library)
    {operations : List Operation} (h : K Machine.mainThread false (Machine.new limits))
    (ho : ∀ op ∈ operations, Exec.Keeps K (Exec.perform (host.reentry fuel) none op)) :
    (host.run fuel limits library operations).Ends K Machine.mainThread := by
  have hopen : Exec.Keeps K (library.forM (Library.openGlobally (host.reentry fuel))) := by
    cases library with
    | none => exact Exec.keeps_pure ()
    | some library => exact Library.keeps_openGlobally (host.reentry fuel) library
  have hall := Exec.keeps_performEach (host.reentry fuel) none operations ho
  exact Exec.ends_andThen (hopen.endsIn rfl h) fun _ _ hr hm' => hall.ofAway.endsIn hr hm'

theorem Host.ends_run {K : Condition} [K.Stable] [K.Foreign] [K.Deaf] (host : Host)
    (fuel : Nat) (limits : Limits) (library : Option Library) (operations : List Operation)
    (h : K Machine.mainThread false (Machine.new limits)) :
    (host.run fuel limits library operations).Ends K Machine.mainThread := by
  obtain ⟨hi, hd⟩ := host.keeps_foreign (K := K) fuel
  have := Reentry.safe_framed (host.reentry fuel) hi hd
  exact host.ends_session fuel limits library h fun op _ =>
    Exec.keeps_perform (host.reentry fuel) none op fun e _ => Exec.lax_deaf e

end LuaMachine
