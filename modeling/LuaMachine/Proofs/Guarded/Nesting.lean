import LuaMachine.Proofs.Guarded.Failure

namespace LuaMachine

open Machine Exec Relation

/-- A call of functions that each call the next one, the last of them a value with arguments. -/
def nestedCall (callee : Value) (args : List Value) : List FunctionId → Value × List Value
  | [] => (callee, args)
  | p :: ps => (.function p, (nestedCall callee args ps).1 :: (nestedCall callee args ps).2)

def innerWanted (wanted : Int) : List FunctionId → Int
  | [] => wanted
  | _ :: _ => -1

def innerSite (site : CallSite) : List FunctionId → CallSite
  | [] => site
  | _ :: _ => .guarded

@[simp] theorem innerWanted_all (ps : List FunctionId) : innerWanted (-1) ps = -1 := by
  cases ps <;> rfl

@[simp] theorem innerSite_guarded (ps : List FunctionId) : innerSite .guarded ps = .guarded := by
  cases ps <;> rfl

namespace Machine

/-- From level `n` on there are the frames of protected calls, one for each of the functions. -/
def Guards (m : Machine) (t : ThreadId) (n : Nat) (wanted : Int) (site : CallSite) :
    List FunctionId → Prop
  | [] => True
  | p :: ps => (∃ P, (m.threadAt t).frames[n]? = some P ∧
      P.control = Frame.guarding p none wanted site) ∧ m.Guards t (n + 1) (-1) .guarded ps

end Machine

variable {honest : Prop} {t : ThreadId} {n h : Nat} {o : Origin} {m₀ m m' : Machine} {re : Reentry}
  {stop : Nat} {p : FunctionId} {wanted : Int} {site : CallSite} {vs : List Value} {e : Error}

theorem Exposed.shelter {f : Frame} (hm : Exposed honest t (n + 1) h m₀ False m) (hn : 0 < n)
    (hf : (m₀.threadAt t).frames[n]? = some f) :
    Shelter honest t n h f.origin m₀ t false m :=
  (hm.landed.aloft hn hf).shelter fun hh => (hm.ready.calm hh).1

theorem Returned.trans {m₁ : Machine} (hm : Returned honest t n h vs wanted m₀ m)
    (hi : Intact t n m₁ m₀) : Returned honest t n h vs wanted m₁ m := by
  obtain ⟨m', rfl, hx⟩ := hm
  exact ⟨m', rfl, hx.trans hi⟩

theorem Returned.inGuard {P : Frame} {handler : Option Value} (hn : 0 < n)
    (hP : (m₀.threadAt t).frames[n]? = some P) (hc : P.control = Frame.guarding p handler wanted site)
    (ht : m.running = t) (hm : Returned honest t (n + 1) h vs (-1) m₀ m) :
    Shelter honest t n h P.origin m₀ t false m ∧ m.frameCount = n + 1 ∧ m.frame.values = vs := by
  obtain ⟨m₁, rfl, hx⟩ := hm
  rw [adjust_all vs (-1) (by decide)] at ht ⊢
  change m₁.running = t at ht
  subst ht
  have hk := (hx.landed.kept hP).1.trans hc
  have htop : (m₁.frameAt m₁.running).top = 0 :=
    (congrArg Frame.top hk : (m₁.frameAt m₁.running).control.top = _)
  have hf : (m₁.modifyTop m₁.running (·.pushAll vs)).frame = (m₁.frameAt m₁.running).pushAll vs :=
    frameAt_modifyTop_self hx.ready.one_lt_size _
  refine ⟨Condition.Steady.top _ _ (hx.shelter hn hP), (size_modifyTop ..).trans hx.ready.size, ?_⟩
  rw [hf, Frame.values_pushAll, Frame.values_empty htop, List.nil_append]

/-- The callee of a protected call has returned: true and its results go on. -/
theorem completeGuarded_returned {P : Frame} {handler : Option Value} (hn : 1 < n)
    (hP : (m₀.threadAt t).frames[n]? = some P) (hc : P.control = Frame.guarding p handler wanted site)
    (ht : m.running = t) (hm : Returned honest t (n + 1) h vs (-1) m₀ m) :
    ∃ m', completeGuarded m = .done site m' ∧ m'.running = t ∧
      Returned honest t n h (.bool true :: vs) wanted m₀ m' := by
  obtain ⟨hs, hn₁, hv⟩ := hm.inGuard (Nat.zero_lt_of_lt hn) hP hc ht
  have hsite : m.frame.site = site := (congrArg Origin.site (hs.origin_top ht hn₁)).trans
    (congrArg Frame.site hc : P.control.site = _)
  have hw : P.origin.wanted = wanted := (congrArg Frame.wanted hc : P.control.wanted = _)
  subst ht
  obtain ⟨us, hu, he⟩ := run_completeGuarded m hs.one_lt_size
  rw [hv, hsite] at he
  exact ⟨_, he, rfl, hw ▸ hs.returned_left hn rfl hn₁ hu⟩

theorem getElem?_enterFrame (hr : (m.threadAt t).Ready honest n h False) (f : Frame) :
    ((m.enterFrame t f).threadAt t).frames[n]? = some f := by
  rw [m.threadAt_enterFrame hr.one_lt_size, ← hr.size]
  exact Array.getElem?_push_size

theorem ready_enterFrame (hr : (m.threadAt t).Ready honest n h False) (f : Frame) :
    ((m.enterFrame t f).threadAt t).Ready honest (n + 1) h False := by
  have hs : ((m.enterFrame t f).threadAt t).frames.size = n + 1 := by
    rw [m.threadAt_enterFrame hr.one_lt_size, Array.size_push, hr.size]
  have hm := hr.exposed.enterFrame f
  exact ⟨hs, Nat.lt_succ_of_lt hr.many, hm.parked, hm.status, fun hh => ⟨(hm.calm hh).1,
    fun hf => hf.elim, .inl ((hm.calm hh).3.resolve_right fun hf => absurd hf.1 (by decide))⟩⟩

section Start

variable (host : Host) {fuel : Nat} {b : Builtin} {xs args : List Value} {handler : Option Value}
  {callee : Value} {P : Frame} (hr : (m.threadAt t).Ready host.Honest n h False) (ht : m.running = t)
  (hP : P.control = Frame.guarding p handler wanted site)
  (hi : (host.reentry (fuel + 1)).invoke (.builtin b)
    (m.enterFrame t (nativeFrame p xs wanted site)) = afterStart (host.reentry fuel) (n + 1)
      (callValue (host.reentry fuel) callee args (-1) .guarded (m.enterFrame t P)))

include hr ht hP hi

theorem callNative_completes
    (hc : callValue (host.reentry fuel) callee args (-1) .guarded (m.enterFrame t P) =
      .done false m') (hm : Returned host.Honest t (n + 1) h vs (-1) (m.enterFrame t P) m')
    (ht' : m'.running = t) :
    ∃ m'', callNative (host.reentry (fuel + 1)) p (.builtin b) xs wanted site m = .done false m'' ∧
      m''.running = t ∧ Returned host.Honest t n h (.bool true :: vs) wanted m m'' := by
  subst ht
  obtain ⟨hs, hn, hv⟩ := hm.inGuard (Nat.zero_lt_of_lt hr.many) (getElem?_enterFrame hr P) hP ht'
  have hone : 1 < m'.frameCount := hn ▸ Nat.lt_succ_of_lt hr.many
  have hf : (m'.modifyTop m'.running Frame.completed).frame = m'.frame.completed :=
    frameAt_modifyTop_self hone _
  have hn' : (m'.modifyTop m'.running Frame.completed).frameCount = n + 1 :=
    (size_modifyTop ..).trans hn
  have hw : P.origin.wanted = wanted := (congrArg Frame.wanted hP : P.control.wanted = _)
  obtain ⟨m'', he, hr', hx⟩ := endNative_all (k := m'.frame.top + 1)
    (hs.onTop m'.running Frame.completed) hr.many ht' hn' (hf ▸ m'.frame.values_completed)
    (by rw [List.length_cons, Frame.length_values])
  rw [hw] at he
  rw [hw, hv] at hx
  have hrun := callNative_eq (host.reentry (fuel + 1)) p (.builtin b) xs wanted site m
    (m.index_lt hr.one_lt_size)
  rw [hi, hc, show m.frameCount = n from hr.size, afterStart, endReturned_eq m' hone] at hrun
  dsimp only at hrun
  rw [if_neg (by simp [hn']), he] at hrun
  exact ⟨m'', hrun, hr', hx.trans (hr.exposed.enterFrame P).intact⟩

theorem callNative_yields
    (hc : callValue (host.reentry fuel) callee args (-1) .guarded (m.enterFrame t P) =
      .raised .yield m') :
    ∃ us, Upvalue.Closes m'.upvalues us ∧
      callNative (host.reentry (fuel + 1)) p (.builtin b) xs wanted site m =
        .raised .yield (m'.cut t (n + 1) us) := by
  subst ht
  have hready := ready_enterFrame hr P
  have hst := started_callValue (host.shelters id m.running fuel) callee args (-1) .guarded hready rfl
  rw [hc] at hst
  obtain ⟨ht', hst⟩ := hst
  have hm : Intact m.running (n + 1) (m.enterFrame m.running P) m' := by
    rcases hst with hx | ⟨-, o, -, -, hx⟩
    · exact hx.exposed.intact
    · exact hx.intact
  obtain ⟨f, hf, hk⟩ := hm.frames n (Nat.lt_succ_self n) P (getElem?_enterFrame hr P)
  have hg : f.guard = some { handler } :=
    (congrArg Frame.guard (hk.1.trans hP) : f.control.guard = _)
  have hguard : m'.isGuarded n = true := by
    rw [Machine.isGuarded, Machine.thread, ht', hf, Option.any_some, hg]
    rfl
  obtain ⟨us, hu, he⟩ := run_truncateFrames (n + 1) m'
  have hrun := callNative_eq (host.reentry (fuel + 1)) p (.builtin b) xs wanted site m
    (m.index_lt hr.one_lt_size)
  rw [hi, hc, show m.frameCount = n from hr.size, afterStart] at hrun
  refine ⟨us, hu, hrun.trans ?_⟩
  dsimp only
  rw [hguard]
  change ((truncateFrames (n + 1) >>= fun _ => raise .yield) m' : Outcome Bool) = _
  rw [run_bind, he, Outcome.andThen_done, run_raise, ht']

end Start

theorem Machine.Guards.completed (re : Reentry) {ps : List FunctionId} (hn : 1 < n) (hs : stop ≤ n)
    (hg : m₀.Guards t n wanted site ps) (ht : m.running = t)
    (hm : Returned honest t (n + ps.length) h vs (innerWanted wanted ps) m₀ m) :
    ∃ m', ReflTransGen (Point.Moves re stop) (.delivering (innerSite site ps) m)
        (.delivering site m') ∧ m'.running = t ∧
      Returned honest t n h (List.replicate ps.length (.bool true) ++ vs) wanted m₀ m' := by
  induction ps generalizing n wanted site with
  | nil => exact ⟨m, .refl, ht, hm⟩
  | cons p ps ih =>
    obtain ⟨⟨P, hP, hc⟩, hg⟩ := hg
    have hm : Returned honest t (n + 1 + ps.length) h vs (innerWanted (-1) ps) m₀ m := by
      rwa [innerWanted_all, Nat.add_assoc, Nat.add_comm 1]
    obtain ⟨m₁, hw, ht₁, hm₁⟩ := ih (by omega) (by omega) hg hm
    obtain ⟨m₂, hd, ht₂, hm₂⟩ := completeGuarded_returned hn hP hc ht₁ hm₁
    refine ⟨m₂, ?_, ht₂, hm₂⟩
    have hmove : (Point.delivering .guarded m₁).next? re stop = some (.delivering site m₂) := by
      have hf := hm₁.frameCount ht₁
      rw [Point.next?, if_neg (by simp only [hf, reduceCtorEq, or_false]; omega), accept_guarded,
        run_bind, hd]
      rfl
    rw [innerSite_guarded] at hw
    exact hw.tail hmove

structure Nests (host : Host) (fuel : Nat) (callee : Value) (args : List Value)
    (ps : List FunctionId) (wanted : Int) (site : CallSite) (t : ThreadId) (n h : Nat)
    (m m₀ : Machine) : Prop where
  running : m₀.running = t
  ready : (m₀.threadAt t).Ready host.Honest (n + ps.length) h False
  intact : Intact t n m m₀
  guards : m₀.Guards t n wanted site ps
  returns : ∀ {vs m'}, callValue (host.reentry fuel) callee args (innerWanted wanted ps)
      (innerSite site ps) m₀ = .done false m' →
    Returned host.Honest t (n + ps.length) h vs (innerWanted wanted ps) m₀ m' →
    ∃ m'', callValue (host.reentry (fuel + ps.length)) (nestedCall callee args ps).1
        (nestedCall callee args ps).2 wanted site m = .done false m'' ∧ m''.running = t ∧
      Returned host.Honest t n h (List.replicate ps.length (.bool true) ++ vs) wanted m m''
  leaves : ∀ {m'}, callValue (host.reentry fuel) callee args (innerWanted wanted ps)
      (innerSite site ps) m₀ = .done true m' →
    callValue (host.reentry (fuel + ps.length)) (nestedCall callee args ps).1
      (nestedCall callee args ps).2 wanted site m = .done true m'
  /-- If it yields, only the outermost guarded frame is still there. -/
  yields : ∀ {m'}, callValue (host.reentry fuel) callee args (innerWanted wanted ps)
      (innerSite site ps) m₀ = .raised .yield m' →
    ∃ m'', callValue (host.reentry (fuel + ps.length)) (nestedCall callee args ps).1
        (nestedCall callee args ps).2 wanted site m = .raised .yield m'' ∧
      (ps = [] ∧ m'' = m' ∨ ∃ us, Upvalue.Closes m'.upvalues us ∧ m'' = m'.cut t (n + 1) us)
  fails : ∀ {e m'}, e ≠ .yield → callValue (host.reentry fuel) callee args (innerWanted wanted ps)
      (innerSite site ps) m₀ = .raised e m' →
    ps = [] ∧ callValue (host.reentry (fuel + ps.length)) (nestedCall callee args ps).1
        (nestedCall callee args ps).2 wanted site m = .raised e m' ∨
      ∃ k m'', ps.length = k + 1 ∧
        callValue (host.reentry (fuel + ps.length)) (nestedCall callee args ps).1
          (nestedCall callee args ps).2 wanted site m = .done false m'' ∧ m''.running = t ∧
        Returned host.Honest t n h (List.replicate k (.bool true) ++ [.bool false, e.toValue])
          wanted m m''

theorem callValue_native (re : Reentry) {f : Native} {args : List Value}
    (hp : (m.functionAt p).body = .native f) (hl : m.frameCount ≤ m.limits.callDepth) :
    callValue re (.function p) args wanted site m = callNative re p f args wanted site m := by
  change launch re p args wanted site m = _
  rw [launch_eq, if_neg (by omega), hp]

/-- One more protected call around the others. -/
theorem Nests.guard {host : Host} {fuel : Nat} {callee : Value} {args : List Value}
    {ps : List FunctionId} {P : Frame} (hr : (m.threadAt t).Ready host.Honest n h False)
    (ht : m.running = t) (hP : P.control = Frame.guarding p none wanted site)
    (hp : (m.functionAt p).body = .native (.builtin .pcall)) (hl : n ≤ m.limits.callDepth)
    (hi : (host.reentry (fuel + ps.length + 1)).invoke (.builtin .pcall) (m.enterFrame t
        (nativeFrame p (nestedCall callee args (p :: ps)).2 wanted site)) =
      afterStart (host.reentry (fuel + ps.length)) (n + 1) (callValue
        (host.reentry (fuel + ps.length)) (nestedCall callee args ps).1
        (nestedCall callee args ps).2 (-1) .guarded (m.enterFrame t P)))
    (hm : Nests host fuel callee args ps (-1) .guarded t (n + 1) h (m.enterFrame t P) m₀) :
    Nests host fuel callee args (p :: ps) wanted site t n h m m₀ := by
  have hlen : n + (p :: ps).length = n + 1 + ps.length := by rw [List.length_cons]; omega
  have hw : innerWanted wanted (p :: ps) = innerWanted (-1) ps := (innerWanted_all ps).symm
  have hs : innerSite site (p :: ps) = innerSite .guarded ps := (innerSite_guarded ps).symm
  have hcall : callValue (host.reentry (fuel + (p :: ps).length)) (nestedCall callee args (p :: ps)).1
      (nestedCall callee args (p :: ps)).2 wanted site m =
      callNative (host.reentry (fuel + ps.length + 1)) p (.builtin .pcall)
        (nestedCall callee args (p :: ps)).2 wanted site m :=
    callValue_native _ hp (hr.frameCount ht ▸ hl)
  constructor
  case running => exact hm.running
  case ready => exact hlen.symm ▸ hm.ready
  case intact => exact (hr.exposed.enterFrame P).intact.trans (hm.intact.mono (Nat.le_succ n))
  case guards =>
    obtain ⟨g, hg, hk⟩ := hm.intact.frames n (Nat.lt_succ_self n) P (getElem?_enterFrame hr P)
    exact ⟨⟨g, hg, hk.1.trans hP⟩, hm.guards⟩
  case returns =>
    intro vs m' hc hx
    rw [hw, hs] at hc
    rw [hw, hlen] at hx
    obtain ⟨m₁, hc₁, ht₁, hx₁⟩ := hm.returns hc hx
    rw [hcall]
    exact callNative_completes host hr ht hP hi hc₁ hx₁ ht₁
  case leaves =>
    intro m' hc
    rw [hw, hs] at hc
    rw [hcall]
    exact (callNative_left host hr ht hP hi (hm.leaves hc)).1
  case yields =>
    intro m' hc
    rw [hw, hs] at hc
    rw [hcall]
    obtain ⟨m₁, hc₁, hm₁⟩ := hm.yields hc
    obtain ⟨us', hu', he⟩ := callNative_yields host hr ht hP hi hc₁
    refine ⟨_, he, .inr ⟨us', ?_, ?_⟩⟩
    · obtain ⟨-, rfl⟩ | ⟨us, hu, rfl⟩ := hm₁
      · exact hu'
      · exact hu.trans hu'
    · obtain ⟨-, rfl⟩ | ⟨us, -, rfl⟩ := hm₁
      · rfl
      · exact cut_cut _ _ _ _ (Nat.le_succ _)
  case fails =>
    intro e m' he hc
    rw [hw, hs] at hc
    rw [hcall]
    refine .inr ?_
    rcases hm.fails he hc with ⟨rfl, hc₁⟩ | ⟨k, m₁, hk, hc₁, ht₁, hx₁⟩
    · obtain ⟨m₂, hc₂, ht₂, hx₂⟩ := (callNative_fails host hr ht hP hi he hc₁).unhandled
      exact ⟨0, m₂, rfl, hc₂, ht₂, hx₂⟩
    · obtain ⟨m₂, hc₂, ht₂, hx₂⟩ := callNative_completes host hr ht hP hi hc₁ hx₁ ht₁
      exact ⟨k + 1, m₂, congrArg (· + 1) hk, hc₂, ht₂, hx₂⟩

theorem nests (host : Host) (fuel : Nat) (callee : Value) (args : List Value)
    {ps : List FunctionId} (hr : (m.threadAt t).Ready host.Honest n h False) (ht : m.running = t)
    (hp : ∀ p ∈ ps, (m.functionAt p).body = .native (.builtin .pcall))
    (hl : n + ps.length ≤ m.limits.callDepth + 1) :
    ∃ m₀, Nests host fuel callee args ps wanted site t n h m m₀ := by
  -- the frames come up from the outermost one, and what they answer is put together from the innermost
  induction ps generalizing m n wanted site with
  | nil =>
    refine ⟨m, ht, hr, .refl t n m, trivial, fun {vs m'} hc hx => ⟨m', hc, ?_, hx⟩, id,
      fun hc => ⟨_, hc, .inl ⟨rfl, rfl⟩⟩, fun _ hc => .inl ⟨rfl, hc⟩⟩
    have hst := started_callValue (host.shelters id t fuel) callee args wanted site hr ht
    rw [show callValue (host.reentry fuel) callee args wanted site m = _ from hc] at hst
    exact hst.1
  | cons p ps ih =>
    subst ht
    have hp₀ := hp p List.mem_cons_self
    rw [List.length_cons] at hl
    have hq : Builtin.pcall.protection? (nestedCall callee args (p :: ps)).2 = some
        { callee := (nestedCall callee args ps).1, args := (nestedCall callee args ps).2,
          handler := none } := rfl
    obtain ⟨P, hP, hi⟩ := native_protecting (host.reentry (fuel + ps.length)) host wanted site
      hr.one_lt_size hp₀ hq
    rw [show m.frameCount = n from hr.size] at hi
    obtain ⟨m₀, hm⟩ : ∃ m₀, Nests host fuel callee args ps (-1) .guarded m.running (n + 1) h
        (m.enterFrame m.running P) m₀ :=
      ih (ready_enterFrame hr P) rfl (fun q hq => hp q (List.mem_cons_of_mem p hq))
        (by change _ ≤ m.limits.callDepth + 1; omega)
    exact ⟨m₀, hm.guard hr rfl hP hp₀ (by omega) hi⟩

theorem Machine.Guards.caught {ps : List FunctionId} (hre : re.Shelters honest t) (hn : 1 < n)
    (hs : stop ≤ n) (hg : m₀.Guards t n wanted site ps)
    (hp : (Point.failing e m).Above honest t (n + ps.length) h o m₀) (hsite : o.site = innerSite site ps)
    (hw : o.wanted = innerWanted wanted ps) (he : e ≠ .yield)
    (hl : m.guardedLevel? stop = some (n + ps.length))
    (hgd : ((m.threadAt t).frames[n + ps.length]?).bind Frame.guard = some { handler := none }) :
    ∃ m', ReflTransGen (Point.Moves re stop) (.failing e m) (.delivering site m') ∧
      m'.running = t ∧ Returned honest t n h
        (List.replicate ps.length (.bool true) ++ [.bool false, e.toValue]) wanted m₀ m' := by
  have hx := recover_fails (e := e) hre (by omega) hp.1 (Error.isYield_of_ne he ▸ hp.2) hgd (.inl rfl)
  obtain ⟨m₁, hr, ht₁, hm₁⟩ := hx.unhandled
  rw [hw] at hm₁
  obtain ⟨m₂, hw₂, ht₂, hm₂⟩ := hg.completed re hn hs ht₁ hm₁
  refine ⟨m₂, .head ?_ hw₂, ht₂, hm₂⟩
  rw [Point.Moves, Point.next?, if_neg he, hl, Option.bind_some, ← bind_pure_comp, run_bind, hr, hsite]
  rfl

/-- A call that a yield has left open in a guarded frame: only that frame puts true in front of the
values of the resume. -/
theorem resumed_guarded (re : Reentry) {k : Nat} {rest args : List Value}
    (hp : m.thread.pending = some { site := .guarded, wanted := -1, base := 0 })
    (hm : m.Holds k (rest ++ args)) : ∃ m₁ us, continueCall re args.length m = re.dispatch 1
        (some .guarded) m₁ ∧ m.callClosed.Restacked m₁ ∧ Upvalue.Closes m.upvalues us ∧
      completeGuarded m₁ = .done m.frame.site ((m₁.cut m.running (m.frameCount - 1) us).modifyTop
        m.running (·.pushAll (adjust (.bool true :: args) m.frame.wanted))) := by
  have hm : m.Holds k ([] ++ rest ++ args) := hm
  obtain ⟨m₁, he, hr, hm₁⟩ := continueCall_holds re hp rfl hm
  rw [adjust_all args (-1) (by decide), List.nil_append] at hm₁
  obtain ⟨us, hu, hc⟩ := run_completeGuarded m₁ hm₁.inner
  have hone : 1 < m.callClosed.frameCount := (frameCount_callClosed hm.inner).symm ▸ hm.inner
  have hk := hr.control hone
  rw [frame_callClosed hm.inner] at hk
  have hf : m₁.frameCount = m.frameCount := hr.frameCount.trans (frameCount_callClosed hm.inner)
  have hsite : m₁.frame.site = m.frame.site :=
    (congrArg Frame.site hk : m₁.frame.control.site = _)
  have hwanted : m₁.frame.wanted = m.frame.wanted :=
    (congrArg Frame.wanted hk : m₁.frame.control.wanted = _)
  have ht : m₁.running = m.running := hr.running
  rw [hm₁.values, hsite, hwanted, hf, ht] at hc
  have hus : m₁.upvalues = m.upvalues := by
    obtain ⟨g, -, rfl⟩ := hr
    rfl
  exact ⟨m₁, us, he, hr, hus ▸ hu, hc⟩

structure Host.NestsProtectedCalls (host : Host) : Prop where
  started : ∀ {fuel h : Nat} {m : Machine} {callee : Value} {args : List Value}
      {ps : List FunctionId} (wanted : Int) (site : CallSite),
    (m.threadAt m.running).Ready host.Honest m.frameCount h False →
    (∀ p ∈ ps, (m.functionAt p).body = .native (.builtin .pcall)) →
    m.frameCount + ps.length ≤ m.limits.callDepth + 1 →
    ∃ m₀, Nests host fuel callee args ps wanted site m.running m.frameCount h m m₀
  completed : ∀ {fuel stop n h : Nat} {t : ThreadId} {m₀ m : Machine} {ps : List FunctionId}
      {wanted : Int} {site : CallSite} {vs : List Value},
    1 < n → stop ≤ n → m₀.Guards t n wanted site ps → m.running = t →
    Returned host.Honest t (n + ps.length) h vs (innerWanted wanted ps) m₀ m →
    ∃ m', ReflTransGen (Point.Moves (host.reentry fuel) stop) (.delivering (innerSite site ps) m)
        (.delivering site m') ∧ m'.running = t ∧
      Returned host.Honest t n h (List.replicate ps.length (.bool true) ++ vs) wanted m₀ m'
  caught : ∀ {fuel stop n h : Nat} {t : ThreadId} {o : Origin} {m₀ m : Machine}
      {ps : List FunctionId} {wanted : Int} {site : CallSite} {e : Error},
    1 < n → stop ≤ n → m₀.Guards t n wanted site ps →
    (Point.failing e m).Above host.Honest t (n + ps.length) h o m₀ → o.site = innerSite site ps →
    o.wanted = innerWanted wanted ps → e ≠ .yield →
    m.guardedLevel? stop = some (n + ps.length) →
    ((m.threadAt t).frames[n + ps.length]?).bind Frame.guard = some { handler := none } →
    ∃ m', ReflTransGen (Point.Moves (host.reentry fuel) stop) (.failing e m) (.delivering site m') ∧
      m'.running = t ∧ Returned host.Honest t n h
        (List.replicate ps.length (.bool true) ++ [.bool false, e.toValue]) wanted m₀ m'
  /-- After the yield of a native function there is only one guarded frame, and one true. -/
  resumed : ∀ {fuel k : Nat} {m : Machine} {rest args : List Value},
    m.thread.pending = some { site := .guarded, wanted := -1, base := 0 } →
    m.Holds k (rest ++ args) →
    ∃ m₁ us, continueCall (host.reentry fuel) args.length m =
        (host.reentry fuel).dispatch 1 (some .guarded) m₁ ∧ m.callClosed.Restacked m₁ ∧
      Upvalue.Closes m.upvalues us ∧
      completeGuarded m₁ = .done m.frame.site ((m₁.cut m.running (m.frameCount - 1) us).modifyTop
        m.running (·.pushAll (adjust (.bool true :: args) m.frame.wanted)))

theorem Host.nestsProtectedCalls (host : Host) : host.NestsProtectedCalls where
  started _ _ hr hp hl := nests host _ _ _ hr rfl hp hl
  completed hn hs hg ht hm := hg.completed _ hn hs ht hm
  caught {fuel _ _ _ t} _ _ _ _ _ _ _ hn hs hg hp hsite hw he hl hgd :=
    hg.caught (host.shelters id t fuel) hn hs hp hsite hw he hl hgd
  resumed hp hm := resumed_guarded _ hp hm

/-- Two protected calls, one in the other, above the function that has made the outer one. -/
def Machine.layered : Machine :=
  { Machine.new {} with
    functions := #[{ body := .bytecode { registers := 1 } }, { body := .native (.builtin .pcall) }]
    threads := #[{ isMain := true, parked := false, phase := .running, frames := #[{},
      { window := #[.nil], top := 1, function := some ⟨0⟩, pc := 4 },
      { function := some ⟨1⟩, site := .call 0 0, wanted := -1, guard := some { handler := none } },
      { function := some ⟨1⟩, site := .guarded, wanted := -1,
        guard := some { handler := none } }] }] }

/-- The inner one has been given 7, and the function gets true twice in front of it. -/
theorem Host.nestsProtectedCalls_layered : ∃ m',
    ReflTransGen (Point.Moves (({} : Host).reentry 1) 1)
      (.delivering .guarded (Machine.layered.modifyTop mainThread (·.pushAll [.int 7])))
      (.delivering (.call 0 0) m') ∧ m'.running = mainThread ∧
    Returned ({} : Host).Honest mainThread 2 0 [.bool true, .bool true, .int 7] (-1)
      Machine.layered m' := by
  have hready : (Machine.layered.threadAt mainThread).Ready ({} : Host).Honest 4 0 False :=
    ⟨rfl, by decide, rfl, by decide, fun _ => ⟨rfl, False.elim, .inl rfl⟩⟩
  have hguards : Machine.layered.Guards mainThread 2 (-1) (.call 0 0) [⟨1⟩, ⟨1⟩] :=
    ⟨⟨_, rfl, rfl⟩, ⟨_, rfl, rfl⟩, trivial⟩
  have hresults : Returned ({} : Host).Honest mainThread 4 0 [.int 7] (-1) Machine.layered
      (Machine.layered.modifyTop mainThread (·.pushAll [.int 7])) := ⟨_, rfl, hready.exposed⟩
  exact ({} : Host).nestsProtectedCalls.completed (by decide) (by decide) hguards rfl hresults

/-- A coroutine whose body calls its first argument with the other two: a protected call of a
protected call of a yield. -/
def Machine.doubled : Machine :=
  { Machine.new {} with
    functions := #[
      { body := .bytecode { parameters := 3, registers := 3,
                            code := #[.ofABC .call 0 3 0, .ofABC .return 0 0 0] } },
      { body := .native (.builtin .pcall) },
      { body := .native (.builtin .yield) }]
    threads := #[{ isMain := true, phase := .normal }, {
      parked := false, frames := #[{
        window := #[.function ⟨0⟩, .function ⟨1⟩, .function ⟨1⟩, .function ⟨2⟩], top := 4 }] }]
    running := ⟨1⟩ }

def Exec.resumedWith (re : Reentry) (nargs : Nat) (vs : List Value) : Exec Unit := do
  discard (resume re (some mainThread) nargs)
  pushAll vs
  discard (resume re (some mainThread) vs.length)

/-- There are two protected calls, but one true. -/
theorem Machine.doubled_resumed :
    (resumedWith (({} : Host).reentry 9) 3 [.int 7, .int 8] Machine.doubled).stack? =
      some [.bool true, .int 7, .int 8] := by
  decide +kernel

end LuaMachine
