import LuaMachine.Proofs.Chain.Call
import LuaMachine.Proofs.Suspension.Survival

namespace LuaMachine

open Machine Exec Relation

namespace Thread

/-- The results of the body go to the host, all of them, and those of no frame above it. -/
structure Embodied (th : Thread) : Prop where
  wanted : (th.frames[1]?).map Frame.wanted = some (-1)
  sites : ∀ i > 1, ∀ f, th.frames[i]? = some f → f.site ≠ .host

/-- The body of a thread can be gone on with by `nargs` values on top, and these values are beneath it. -/
inductive Bears (th : Thread) (nargs : Nat) (beneath : List Value) : Prop
  | fresh {f : Frame} : th.status ≠ .yield → th.pending = none → th.frames = #[f] →
      nargs + 1 ≤ f.top → f.values.take (f.top - (nargs + 1)) = beneath → Bears th nargs beneath
  /-- It is a native function, and it has yielded. -/
  | native {f : Frame} {call : PendingCall} : th.status = .yield → th.frames = #[f] →
      th.pending = some call → call.wanted = -1 → call.base + nargs ≤ f.top →
      f.values.take call.base = beneath → Bears th nargs beneath
  /-- A function has yielded that the body has called, or that is itself in a protected call. -/
  | active {f : Frame} : th.status = .yield → 1 < th.frames.size → th.frames[0]? = some f →
      th.Waits → th.Embodied → f.values = beneath → Bears th nargs beneath

variable {th th' : Thread} {n n' : Nat} {beneath : List Value}

theorem Embodied.modifyFrames (h : th.Embodied) (level : Nat) (g : Frame → Frame)
    [hg : Frame.Benign g] : Embodied { th with frames := modifyFrames level g th.frames } where
  wanted := by
    change ((th.frames.modify level g)[1]?).map Frame.wanted = some (-1)
    rw [Array.getElem?_modify]
    split
    · rw [Option.map_map, ← h.wanted]
      exact congrArg (Option.map · _) (funext fun f => congrArg Origin.wanted (hg.origin f))
    · exact h.wanted
  sites := Shelter.sites_modify h.sites level g

theorem Bears.congr (h : th.Bears n beneath) (hs : th'.status = th.status)
    (hp : th'.pending = th.pending) (hf : th'.frames = th.frames) : th'.Bears n beneath := by
  cases h with
  | fresh h₁ h₂ h₃ h₄ h₅ => exact .fresh (hs ▸ h₁) (hp.trans h₂) (hf.trans h₃) h₄ h₅
  | native h₁ h₂ h₃ h₄ h₅ h₆ => exact .native (hs.trans h₁) (hf.trans h₂) (hp.trans h₃) h₄ h₅ h₆
  | active h₁ h₂ h₃ h₄ h₅ h₆ =>
    refine .active (hs.trans h₁) (hf ▸ h₂) (hf ▸ h₃) ?_ ⟨hf ▸ h₅.1, hf ▸ h₅.2⟩ h₆
    rwa [Waits, hp]

theorem Bears.size_pos (h : th.Bears n beneath) : 0 < th.frames.size := by
  cases h with
  | fresh _ _ hf | native _ hf => exact hf ▸ Nat.one_pos
  | active _ hn => exact Nat.zero_lt_of_lt hn

theorem Bears.restack {g : Frame → Frame} [Frame.Benign g] (h : th.Bears n beneath)
    (hs : th.status = .yield) (hg : ∀ f : Frame, ∀ b, b + n ≤ f.top →
      b + n' ≤ (g f).top ∧ (g f).values.take b = f.values.take b) :
    Bears { th with frames := modifyFrames (th.frames.size - 1) g th.frames } n' beneath := by
  cases h with
  | fresh h₁ => exact absurd hs h₁
  | @native f call _ hf hp hw ht hv =>
    obtain ⟨ht', hv'⟩ := hg f call.base ht
    refine .native (f := g f) hs ?_ hp hw ht' (hv'.trans hv)
    rw [hf]
    rfl
  | @active f _ hn hf hp hb hv =>
    refine .active (f := f) hs ?_ ?_ hp (hb.modifyFrames _ g) hv
    · exact Nat.lt_of_lt_of_eq hn (size_modifyFrames ..).symm
    · change (th.frames.modify _ g)[0]? = _
      rw [Array.getElem?_modify, if_neg (by omega), hf]

end Thread

structure Machine.Grounds (m : Machine) (t : ThreadId) (vs : List Value) : Prop where
  free : ∀ s, ¬m.Aliased t 0 s
  values : ∃ f, (m.threadAt t).frames[0]? = some f ∧ f.values = vs

structure Machine.Carries (m : Machine) (nargs : Nat) (beneath : List Value) : Prop where
  there : m.running.index < m.threads.size
  parked : m.thread.parked = false
  free : ∀ s, ¬m.Aliased m.running 0 s
  body : m.thread.Bears nargs beneath

def Exec.proceed (re : Reentry) (nargs : Nat) (resuming : Bool) : Exec Unit :=
  if resuming then continueCall re nargs else startBody re nargs

/-- The host has taken values off the stack of a coroutine that has yielded, of the `n` that are on top of
it, and has left others there. Of these, `n'` are for the body. Other threads may have been running. -/
structure Machine.Tended (m : Machine) (n : Nat) (m' : Machine) (n' : Nat) : Prop where
  running : m'.running = m.running
  there : m'.running.index < m'.threads.size
  parked : m'.thread.parked = false
  status : m.thread.status = .yield ∧ m'.thread.status = .yield
  pending : m'.thread.pending = m.thread.pending
  aliases : ∀ s, m'.Aliased m.running 0 s → m.Aliased m.running 0 s
  frames : ∃ k vs, k ≤ n ∧ n' ≤ n - k + vs.length ∧ m'.thread.frames =
    modifyFrames (m.frameCount - 1) (fun f => (f.drop k).pushAll vs) m.thread.frames

inductive Host.Proceeds (host : Host) (m₀ : Machine) (n₀ : Nat) : Machine → Nat → Prop
  | start : host.Proceeds m₀ n₀ m₀ n₀
  | yielded {fuel n n' : Nat} {source : Option ThreadId} {m m' : Machine} :
      host.Proceeds m₀ n₀ m n → m.Resumable source n →
      resume (host.reentry fuel) source n m = .done (.yield, n') m' → host.Proceeds m₀ n₀ m' n'
  | tended {n n' : Nat} {m m' : Machine} :
      host.Proceeds m₀ n₀ m n → m.Tended n m' n' → host.Proceeds m₀ n₀ m' n'

structure Host.HandsOver (host : Host) : Prop where
  started : ∀ {nargs : Nat} {source : Option ThreadId} {m : Machine} {f : Frame},
    m.running.index < m.threads.size → m.thread.parked = false → m.thread.pending = none →
    m.thread.status ≠ .yield → m.thread.frames = #[f] → ¬m.RunsBytecode f → m.Captures →
    m.BytecodeCaptures → m.Resumable source nargs →
    m.Carries nargs (f.values.take (f.top - (nargs + 1)))
  offered : ∀ {k : Nat} {m y : Machine}, m.running.index < m.threads.size →
    yielding k m = .raised .yield y → y.running = m.running ∧
      y.thread.transfer = m.frame.topValues k
  passed : ∀ {fuel nargs : Nat} {wanted : Int} {site : CallSite} {m y : Machine},
    m.running.index < m.threads.size →
    enter (host.reentry fuel) nargs wanted site m = .raised .yield y → ∃ f body args y₀,
      ((m.taken nargs).functionAt f).body = .native body ∧
      (host.reentry fuel).invoke body ((m.taken nargs).enterFrame m.running
        (nativeFrame f args wanted site)) = .raised .yield y₀ ∧
      y.running = y₀.running ∧ y.thread.transfer = y₀.thread.transfer
  /-- Every loop lets the yield through, and so does the instruction that has called a metamethod. -/
  surfaced : ∀ {fuel inner stop : Nat} {site : Option CallSite} {m₀ y : Machine}, 0 < stop →
    host.Comes inner (.failing .yield y) fuel stop (.start m₀ site) →
    Exec.dispatch (host.reentry fuel) fuel stop site m₀ ≠ .exhausted →
    ∃ y', Exec.dispatch (host.reentry fuel) fuel stop site m₀ = .raised .yield y' ∧
      y'.running = y.running ∧ y'.thread.transfer = y.thread.transfer ∧
      y'.thread.frames = y.thread.frames
  /-- The resumer finds them on top, in order, and they are counted. The values beneath the body stay
  there. -/
  yielded : host.Honest → ∀ {fuel nargs n : Nat} {source : Option ThreadId} {m m' : Machine}
      {beneath : List Value},
    m.Carries nargs beneath → m.Resumable source nargs →
    resume (host.reentry fuel) source nargs m = .done (.yield, n) m' →
    ∃ y, proceed (host.reentry fuel) nargs (m.thread.status == .yield) (m.resumed source) =
        .raised .yield y ∧
      n = y.thread.transfer.length ∧ m'.running = m.running ∧ m'.thread.status = .yield ∧
      m'.frame.values = y.frame.values ++ y.thread.transfer ∧ m'.Carries n beneath
  /-- So it is with the results of the body, but what is beneath them is counted too. -/
  returned : host.Honest → ∀ {fuel nargs n : Nat} {source : Option ThreadId} {m m' : Machine}
      {beneath : List Value},
    m.Carries nargs beneath → m.Resumable source nargs →
    resume (host.reentry fuel) source nargs m = .done (.ok, n) m' →
    ∃ y vs, proceed (host.reentry fuel) nargs (m.thread.status == .yield) (m.resumed source) =
        .done () y ∧
      (y.Answered m.running 1 vs ∨
        m.thread.status = .yield ∧ m.frameCount = 1 ∧ vs = m.frame.topValues nargs) ∧
      m'.running = m.running ∧ m'.frameCount = 1 ∧ m'.frame.values = beneath ++ vs ∧
      n = beneath.length + vs.length
  throughout : host.Honest → ∀ {n₀ n : Nat} {m₀ m : Machine} {beneath : List Value},
    m₀.Carries n₀ beneath → host.Proceeds m₀ n₀ m n → m.Carries n beneath

namespace Machine

variable {m m' y : Machine} {t : ThreadId} {n nargs : Nat} {f : Frame} {beneath : List Value}

theorem frame_of_single (h : m.thread.frames = #[f]) : m.frame = f := by
  change (m.thread.frames.back?).getD default = f
  rw [h]
  rfl

theorem frame_of_frames (h : m.thread.frames = m'.thread.frames) : m.frame = m'.frame :=
  congrArg (fun fs : Array Frame => fs.back?.getD default) h

theorem frames_single {fs : Array Frame} (hs : fs.size = 1) (hf : fs[0]? = some f) : fs = #[f] := by
  obtain ⟨g, rfl⟩ := Array.size_eq_one_iff.mp hs
  obtain rfl : g = f := Option.some.inj hf
  rfl

theorem Intact.grounds (h : Intact t n m m') (hn : 0 < n) (hg : m.Grounds t beneath) :
    m'.Grounds t beneath := by
  obtain ⟨f, hf, rfl⟩ := hg.values
  obtain ⟨g, hg', hk⟩ := h.frames 0 hn f hf
  exact ⟨fun s hs => hg.free s (h.aliases 0 hn s hs), g, hg', (hk.alike hg.free).2⟩

end Machine

section Body

variable {m m₀ m₁ y : Machine} {t : ThreadId} {c : Counts} {site : CallSite} {vs beneath : List Value}
  {yielding : Prop}

theorem Landed.grounded (hl : Landed True m.running 1 c m₀ yielding m)
    (hg : m₀.Grounds m.running beneath) :
    (∀ s, ¬m.Aliased m.running 0 s) ∧ m.thread.frames = #[m.frame] ∧ m.frame.values = beneath := by
  obtain ⟨hfree, g, hg, hv⟩ := hl.intact.grounds Nat.one_pos hg
  have hs : m.thread.frames = #[g] := frames_single hl.size hg
  rw [frame_of_single hs]
  exact ⟨hfree, hs, hv⟩

theorem Finished.over (hx : Finished True t 1 c vs (-1) m₀ m) (ht : m.running = t)
    (hg : m₀.Grounds t beneath) : m.frameCount = 1 ∧ m.frame.values = beneath ++ vs := by
  obtain ⟨⟨m', rfl, hl⟩, -⟩ := hx
  change m'.running = t at ht
  subst ht
  obtain ⟨-, -, hv⟩ := hl.grounded hg
  have hf : (m'.modifyTop m'.running (·.pushAll (adjust vs (-1)))).frame = _ := hl.frame_modifyTop _
  refine ⟨(size_modifyTop ..).trans hl.size, ?_⟩
  change (m'.modifyTop m'.running (·.pushAll (adjust vs (-1)))).frame.values = _
  rw [hf, Frame.values_pushAll, hv, adjust_all _ _ (by decide)]

theorem Outcome.Called.suspended (hx : (Outcome.raised .yield y).Called True y.running 1 c site (-1) m₀)
    (hg : m₀.Grounds y.running beneath) :
    y.running.index < y.threads.size ∧ y.thread.parked = false ∧ (∀ s, ¬y.Aliased y.running 0 s) ∧
      Thread.Bears { y.thread with status := .yield } 0 beneath := by
  obtain ⟨-, hx | ⟨o, rfl, hw, hx⟩⟩ := hx
  · -- the body itself is native and has yielded
    obtain ⟨hfree, hs, hv⟩ := hx.landed.grounded hg
    refine ⟨hx.landed.there, hx.landed.parked, hfree, ?_⟩
    refine .native rfl hs (hx.pending trivial rfl) rfl (Nat.le_refl _) ?_
    change y.frame.values.take y.frame.top = beneath
    rw [← y.frame.length_values, List.take_length, hv]
  · -- frames of the body are above that of the host, the first of them with all results for it
    have hk := hx.kept.kept
    obtain ⟨hfree, f, hf, hv⟩ := hk.intact.grounds Nat.one_pos hg
    refine ⟨hk.index_lt, hk.parked, hfree, ?_⟩
    refine .active rfl hk.one_lt_size hf (hx.mark trivial ⟨rfl, rfl⟩) ⟨?_, hk.sites⟩ hv
    have ho := hk.origin
    change ((y.threadAt y.running).frames[1]?).map Frame.wanted = _
    rw [← hw]
    cases hf₁ : (y.threadAt y.running).frames[1]? with
    | none =>
      rw [hf₁] at ho
      cases ho
    | some f₁ =>
      rw [hf₁] at ho
      exact congrArg (Option.map Origin.wanted) ho

end Body

section Resume

variable {host : Host} {m y : Machine} {nargs : Nat} {source : Option ThreadId} {beneath : List Value}

theorem called_startBody {c : Counts} (hh : host.Honest) (hl : Landed True m.running 1 c m False m)
    (fuel nargs : Nat) : (startBody (host.reentry fuel) nargs m).Called True m.running 1 c .host (-1)
      (m.taken nargs) := by
  have he : startBody (host.reentry fuel) nargs m =
      enterAndRun (host.reentry fuel) nargs (-1) .host m := by
    rw [enterAndRun, run_bind, run_frameCount, Outcome.andThen_done, hl.frameCount rfl]
    rfl
  rw [he]
  exact called_enterAndRun (host.shelters (fun _ => hh) _ fuel) nargs (-1) .host hl rfl

theorem Landed.grounds_taken {c : Counts} (hl : Landed True m.running 1 c m False m) (nargs : Nat)
    (hfree : ∀ s, ¬m.Aliased m.running 0 s) :
    (m.taken nargs).Grounds m.running (m.frame.values.take (m.frame.top - (nargs + 1))) := by
  refine ⟨hfree, (m.taken nargs).frame, getElem?_top (hl.taken rfl nargs).size, ?_⟩
  have ht : (m.frame.drop nargs).top = m.frame.top - nargs := rfl
  rw [hl.frame_taken, Frame.values_drop, Frame.values_drop, List.take_take, ht]
  exact congrArg (List.take · m.frame.values) (by omega)

theorem Machine.threadAt_continued (hth : m.running.index < m.threads.size)
    (source : Option ThreadId) (nargs : Nat) (call : PendingCall) :
    (m.continued source nargs call).threadAt m.running = { (m.resumed source).thread with
      pending := none
      frames := modifyFrames (m.frameCount - 1) (·.continued nargs call) m.thread.frames } := by
  obtain ⟨hr, hf, -⟩ := m.thread_resumed source
  have hth' := (there_resumed hth source).1
  have ht : (m.resumed source).callClosed.threadAt (m.resumed source).running = _ :=
    (m.resumed source).threadAt_modify_there hth' fun th => { th with pending := none }
  have hc : (m.resumed source).running.index < (m.resumed source).callClosed.threads.size :=
    Nat.lt_of_lt_of_eq hth' (Array.size_modify ..).symm
  rw [continued, ← hr, modifyTop, threadAt_modify_there _ hc, ht, frameCount, ← hf]
  rfl

theorem Machine.Aliased.congr {m' : Machine} {t : ThreadId} {level s : Nat} (ha : m'.Aliased t level s)
    (h : m'.upvalues = m.upvalues) : m.Aliased t level s := by
  obtain ⟨u, hu⟩ := ha
  exact ⟨u, h ▸ hu⟩

theorem Machine.not_aliased_of_none (h : m.upvalues = #[]) {t : ThreadId} {level : Nat} (s : Nat) :
    ¬m.Aliased t level s := fun ⟨u, hu⟩ => by
  rw [h] at hu
  cases hu

theorem Machine.Carries.aloft (hc : m.Carries nargs beneath) (hw : m.thread.Embodied)
    (source : Option ThreadId) (call : PendingCall) :
    ∃ o c, o.wanted = -1 ∧ Aloft True m.running 1 c o (m.continued source nargs call) m.running false
      (m.continued source nargs call) := by
  obtain ⟨-, -, hp, -⟩ := m.thread_resumed source
  obtain ⟨-, hs, -⟩ := there_resumed hc.there source
  have ht := threadAt_continued hc.there source nargs call
  have : Frame.Benign (Frame.continued nargs call) := ⟨fun _ => rfl⟩
  have hw := hw.modifyFrames (m.frameCount - 1) (Frame.continued nargs call)
  generalize m.continued source nargs call = m₁ at ht ⊢
  have hf : (m₁.threadAt m.running).frames =
    modifyFrames (m.frameCount - 1) (Frame.continued nargs call) m.thread.frames := by rw [ht]
  obtain ⟨f, hf₁, hwanted⟩ := Option.map_eq_some_iff.mp hw.wanted
  refine ⟨f.origin, (m₁.threadAt m.running).counts, hwanted, ?_, rfl⟩
  refine ⟨.refl .., ?_, Nat.one_pos, ?_, ?_, ?_, fun _ => ?_⟩
  · rw [hf]
    exact congrArg (Option.map Frame.origin) hf₁
  · rw [hf]
    exact hw.sites
  · rw [ht]
    exact hp.trans hc.parked
  · rw [ht]
    exact fun h => nomatch hs.symm.trans h
  · rw [ht]
    exact ⟨rfl, fun h => absurd h.1 Bool.false_ne_true, .inl rfl⟩

theorem Machine.Carries.called (hh : host.Honest) (hc : m.Carries nargs beneath)
    (hn : m.thread.status = .yield → 1 < m.frameCount) (fuel : Nat) (source : Option ThreadId) :
    ∃ c site m₀, m₀.Grounds m.running beneath ∧
      (proceed (host.reentry fuel) nargs (m.thread.status == .yield) (m.resumed source)).Called
        True m.running 1 c site (-1) m₀ := by
  obtain ⟨hr, hf, hp, hpe⟩ := m.thread_resumed source
  obtain ⟨hth, hs, -⟩ := there_resumed hc.there source
  have hus := (m.besides_resumed source).2
  cases hc.body with
  | @fresh f hy ho hfs ht hv =>
    have hone : (m.resumed source).frameCount = 1 := by
      rw [m.frameCount_resumed, Machine.frameCount, hfs]
      rfl
    have hframe := (m.frame_resumed source).trans (frame_of_single hfs)
    rw [proceed, if_neg fun h => hy (beq_iff_eq.mp h)]
    generalize m.resumed source = m₁ at hr hp hpe hth hs hus hone hframe ⊢
    have hl : Landed True m₁.running 1 m₁.thread.counts m₁ False m₁ :=
      ⟨.refl .., hth, Nat.one_pos, hone, hp.trans hc.parked, by rw [← thread, hs]; decide, rfl,
        fun _ => ⟨rfl, False.elim, .inl (hpe.trans ho)⟩⟩
    have hg := hl.grounds_taken nargs fun s ha => hc.free s (hr ▸ ha.congr hus)
    have hx := called_startBody hh hl fuel nargs
    rw [hframe, hv] at hg
    rw [hr] at hg hx
    exact ⟨_, .host, _, hg, hx⟩
  | @native f call hy hfs =>
    have hn := hn hy
    rw [Machine.frameCount, hfs] at hn
    exact absurd hn (Nat.lt_irrefl 1)
  | @active f hy hn hf₀ hw hb hv =>
    obtain ⟨call, hcall, hsite⟩ := hw
    obtain ⟨o, c, ho, ha⟩ := hc.aloft hb source call
    have hg : (m.continued source nargs call).Grounds m.running beneath := by
      refine ⟨fun s ha => hc.free s (ha.congr hus), f, ?_, hv⟩
      have hne : m.frameCount - 1 ≠ 0 := Nat.sub_ne_zero_of_lt hn
      rw [threadAt_continued hc.there, modifyFrames, Array.getElem?_modify, if_neg hne, hf₀]
    refine ⟨c, o.site, _, hg, ?_⟩
    have hr₁ : (m.continued source nargs call).running = m.running := hr
    rw [proceed, restarts _ source nargs hy hcall]
    generalize m.continued source nargs call = m₁ at ha hr₁ ⊢
    cases fuel with
    | zero => trivial
    | succ fuel =>
      have hp : (Point.start m₁ (some call.site)).Atop True m.running 1 c o m₁ :=
        ⟨hr₁, .inl ⟨hsite, ha⟩⟩
      have hx := Aloft.called_loop (host.shelters (fun _ => hh) _ fuel) fuel Nat.one_pos hp
      rw [ho] at hx
      exact hx

theorem Host.dispatch_idle {m : Machine} {stop : Nat} (host : Host) (fuel : Nat) (site : CallSite)
    (h : m.frameCount ≤ stop) : host.dispatch (fuel + 1) stop (some site) m = .done () m := by
  have hd : deliver (host.reentry fuel) stop site m = .done true m := by
    rw [deliver, run_bind, run_frameCount, Outcome.andThen_done, deliverAt_succ, if_pos (.inl h)]
  change settle (host.reentry fuel) stop fuel (deliver (host.reentry fuel) stop site m) = _
  rw [hd]
  cases fuel <;> rfl

theorem Machine.proceed_native {f : Frame} {call : PendingCall} (host : Host) (fuel : Nat)
    (source : Option ThreadId) (hth : m.running.index < m.threads.size)
    (hs : m.thread.status = .yield) (hf : m.thread.frames = #[f])
    (hp : m.thread.pending = some call) (hw : call.wanted = -1) (hb : call.base + nargs ≤ f.top) :
    ∃ y, proceed (host.reentry (fuel + 1)) nargs (m.thread.status == .yield) (m.resumed source) =
        .done () y ∧ y.running = m.running ∧ y.frameCount = 1 ∧
      y.frame.values = f.values.take call.base ++ f.topValues nargs := by
  have hr : (m.continued source nargs call).running = m.running := (m.thread_resumed source).1
  have ht := threadAt_continued hth source nargs call
  have hx : proceed (host.reentry (fuel + 1)) nargs (m.thread.status == .yield) (m.resumed source) =
      _ := restarts (host.reentry (fuel + 1)) source nargs hs hp
  rw [hx]
  generalize m.continued source nargs call = m₁ at hr ht ⊢
  rw [← hr] at ht
  have hf₁ : m₁.thread.frames = #[f.continued nargs call] := by
    rw [Machine.thread, ht, Machine.frameCount, hf]
    rfl
  have hone : m₁.frameCount = 1 := congrArg Array.size hf₁
  refine ⟨m₁, host.dispatch_idle fuel call.site (Nat.le_of_eq hone), hr, hone, ?_⟩
  have hd : (f.drop nargs).top = f.top - nargs := rfl
  rw [frame_of_single hf₁, Frame.continued, hw, Frame.values_pushAll, adjust_all _ _ (by decide),
    Frame.values_setTop _ _ (by omega), Frame.values_drop, List.take_take, Nat.min_eq_left (by omega)]

theorem Machine.run_surrender {result : Except Error Unit} {status : Status} {n : Nat} {phase : Phase}
    {y₁ : Machine} (m : Machine) (source : Option ThreadId)
    (hs : settleResume result { y with held := (m.below source).held } = .done (status, n, phase) y₁) :
    ∃ r, m.surrender source result y = .done (status, n) r ∧ r.running = y₁.running ∧
      r.upvalues = y₁.upvalues ∧ r.threads.size = y₁.threads.size ∧
      r.thread.frames = y₁.thread.frames ∧ r.thread.status = y₁.thread.status ∧
      r.thread.pending = y₁.thread.pending ∧ r.thread.parked = y₁.thread.parked := by
  have hfields := y₁.fields_released (fun th => (th.frames, th.status, th.pending, th.parked))
    (source.filter (m.below source).isNamed) m.running (m.isNamed m.running) phase y₁.running
    fun _ _ => rfl
  have hr := y₁.running_released (source.filter (m.below source).isNamed) m.running
    (m.isNamed m.running) phase
  have hus := (y₁.besides_released (source.filter (m.below source).isNamed) m.running
    (m.isNamed m.running) phase).2
  simp only [Prod.mk.injEq] at hfields
  refine ⟨_, run_endResume hs, hr, hus, ?_, ?_⟩
  · unfold released
    cases source.filter (m.below source).isNamed <;> cases m.isNamed m.running <;>
      simp [withPhase]
  · rw [thread, hr]
    exact hfields

theorem Machine.surrender_yielded (m : Machine) (source : Option ThreadId)
    (hth : y.running.index < y.threads.size) : ∃ r, m.surrender source (.error .yield) y =
        .done (.yield, y.thread.transfer.length) r ∧
      r.running = y.running ∧ r.upvalues = y.upvalues ∧ r.threads.size = y.threads.size ∧
      r.thread.frames =
        modifyFrames (y.frameCount - 1) (·.pushAll y.thread.transfer) y.thread.frames ∧
      r.thread.status = .yield ∧ r.thread.pending = y.thread.pending ∧
      r.thread.parked = y.thread.parked := by
  obtain ⟨r, hs, hr, hus, hsize, hf, hst, hpe, hpa⟩ :=
    run_surrender m source (settleResume_yielded { y with held := (m.below source).held })
  have ht : Machine.thread (Machine.yielded { y with held := (m.below source).held }) = _ :=
    thread_ending hth y.upvalues _
  rw [ht] at hf hst hpe hpa
  exact ⟨r, hs, hr, hus, hsize.trans (Array.size_modify ..), hf, hst, hpe, hpa⟩

end Resume

section Yield

variable {m m' y : Machine} {re : Reentry} {nargs level : Nat} {wanted : Int} {site : CallSite}

theorem transfer_cut (m : Machine) (n : Nat) (us : Array Upvalue) :
    (m.cut m.running n us).thread.transfer = m.thread.transfer :=
  fields_modify Thread.transfer ({ m with upvalues := us } : Machine) m.running m.running fun _ => rfl

theorem failNative_yields {guarded : Bool} {e : Error}
    (h : (failNative level wanted site guarded e : Exec Bool) m = .raised .yield y) :
    e = .yield ∧ y.running = m.running ∧ y.thread.transfer = m.thread.transfer := by
  by_cases he : e = .yield
  · subst he
    cases guarded with
    | true =>
      obtain ⟨us, -, hc⟩ := run_truncateFrames (level + 1) m
      simp only [failNative, run_bind, if_pos, hc, Outcome.andThen_done, run_raise] at h
      cases h
      exact ⟨rfl, rfl, transfer_cut ..⟩
    | false =>
      obtain ⟨us, -, hc⟩ := run_truncateFrames level m
      simp only [failNative, run_bind, Bool.false_eq_true, if_false, hc, Outcome.andThen_done,
        run_raise, run_suspendCall] at h
      cases h
      have ht := fields_modify Thread.transfer (m.cut m.running level us) m.running m.running
        (g := fun th => { th with
          pending := th.pending <|> some { site, wanted, base := (m.cut m.running level us).frame.top } })
        fun _ => rfl
      exact ⟨rfl, rfl, ht.trans (transfer_cut ..)⟩
  · obtain ⟨us, -, hc⟩ := run_truncateFrames level m
    have hr : (failNative level wanted site guarded e : Exec Bool) =
        (do truncateFrames level; raise e) := by
      cases e with
      | yield => exact absurd rfl he
      | _ => rfl
    rw [hr, run_bind, hc] at h
    cases h
    exact absurd rfl he

theorem endNative_done (depth results : Nat) (wanted : Int) (m : Machine) :
    ∃ m', endNative depth results wanted m = .done false m' := by
  obtain ⟨us, -, hc⟩ := run_truncateFrames (depth + 1) m
  rw [endNative, run_bind, hc, Outcome.andThen_done, run_bind, endFrame_eq]
  exact ⟨_, rfl⟩

theorem Exec.enter_yields (hth : m.running.index < m.threads.size)
    (h : enter re nargs wanted site m = .raised .yield y) : ∃ f body args y₀,
      ((m.taken nargs).functionAt f).body = .native body ∧
      re.invoke body ((m.taken nargs).enterFrame m.running (nativeFrame f args wanted site)) =
        .raised .yield y₀ ∧
      y.running = y₀.running ∧ y.thread.transfer = y₀.thread.transfer := by
  have hs : (m.taken nargs).threads.size = m.threads.size :=
    (Array.size_modify ..).trans (Array.size_modify ..)
  have hth' : (m.taken nargs).running.index < (m.taken nargs).threads.size := hs ▸ hth
  have hr : (m.taken nargs).running = m.running := rfl
  rw [run_enter, callValue, run_bind] at h
  generalize m.taken nargs = m₁ at hth' hr h ⊢
  obtain ⟨p, hp⟩ | ⟨e, he, hp⟩ := callTarget_cases chainLimit
    (m.modifyTop m.running (·.drop nargs)).frame.peek (m.frame.topValues nargs) m₁
  · rw [hp, Outcome.andThen_done, launch_eq] at h
    split at h
    · cases h
    · split at h
      · split at h <;> cases h
      · next body hbody =>
        rw [callNative_eq _ _ _ _ _ _ _ hth'] at h
        refine ⟨p.1, body, p.2, ?_⟩
        rw [← hr]
        cases hi : re.invoke body (m₁.enterFrame m₁.running (nativeFrame p.1 p.2 wanted site)) with
        | done n m' =>
          rw [hi] at h
          dsimp only at h
          split at h
          · cases h
          · obtain ⟨m₂, hc⟩ := endNative_done m₁.frameCount n wanted m'
            rw [hc] at h
            cases h
        | raised e y₀ =>
          rw [hi] at h
          obtain ⟨rfl, hr', ht⟩ := failNative_yields h
          exact ⟨y₀, hbody, rfl, hr', ht⟩
        | exhausted =>
          rw [hi] at h
          cases h
  · rw [hp] at h
    cases h
    cases he

theorem transfer_yielding {k : Nat} (hth : m.running.index < m.threads.size)
    (h : yielding k m = .raised .yield y) : y.running = m.running ∧
      y.thread.transfer = m.frame.topValues k := by
  obtain rfl := yielding_yields h
  have hth' : m.running.index < (m.modifyTop m.running (·.drop k)).threads.size :=
    Nat.lt_of_lt_of_eq hth (Array.size_modify ..).symm
  exact ⟨rfl, congrArg Thread.transfer (threadAt_modify_there _ hth' _)⟩

end Yield

section Handover

variable {host : Host} {fuel nargs n : Nat} {source : Option ThreadId} {m m' : Machine}
  {beneath : List Value}

theorem Machine.Resumable.outcome {status : Status} (h : m.Resumable source nargs)
    (he : resume (host.reentry fuel) source nargs m = .done (status, n) m') : ∃ result y,
      attempt (proceed (host.reentry fuel) nargs (m.thread.status == .yield)) (m.resumed source) =
        .done result y ∧ status = settledStatus result ∧
      m.surrender source result y = .done (status, n) m' := by
  rw [h.resume_eq] at he
  obtain ⟨result, y, hx, hs⟩ := Outcome.andThen_eq_done he
  obtain ⟨k, us, g, hr, -⟩ := run_settleResume result { y with held := (m.below source).held }
  obtain ⟨r, hs', -⟩ := run_surrender m source hr
  exact ⟨result, y, hx, congrArg Prod.fst (Outcome.done.inj (hs.symm.trans hs')).1, hs⟩

theorem Machine.tended_modifyTop {k : Nat} (hth : m.running.index < m.threads.size)
    (hp : m.thread.parked = false) (hs : m.thread.status = .yield) (hk : k ≤ n) (vs : List Value) :
    m.Tended n (m.modifyTop m.running fun f => (f.drop k).pushAll vs) (n - k + vs.length) := by
  have ht : (m.modifyTop m.running fun f => (f.drop k).pushAll vs).thread = _ :=
    m.threadAt_modify_there hth _
  refine ⟨rfl, Nat.lt_of_lt_of_eq hth (Array.size_modify ..).symm, ?_, ⟨hs, ?_⟩, ?_, fun _ ha => ha,
    k, vs, hk, Nat.le_refl _, ?_⟩ <;> rw [ht]
  · exact hp
  · exact hs
  · rfl
  · rfl

theorem Machine.Tended.carries (h : m.Tended nargs m' n) (hc : m.Carries nargs beneath) :
    m'.Carries n beneath := by
  obtain ⟨k, vs, hk, hn, hf⟩ := h.frames
  refine ⟨h.there, h.parked, fun s hs => hc.free s (h.aliases s (h.running ▸ hs)), ?_⟩
  have : Frame.Benign (fun f : Frame => (f.drop k).pushAll vs) := ⟨fun _ => rfl⟩
  have hb : Thread.Bears _ n beneath := hc.body.restack (g := fun f => (f.drop k).pushAll vs) h.status.1
    fun f b hb => by
      have ht : (f.drop k).top = f.top - k := rfl
      have hp : ((f.drop k).pushAll vs).top = (f.drop k).top + vs.length := rfl
      refine ⟨by omega, ?_⟩
      rw [Frame.values_pushAll, Frame.values_drop, List.take_append_of_le_length, List.take_take,
        Nat.min_eq_left (by omega)]
      rw [List.length_take, f.length_values]
      omega
  exact hb.congr (h.status.2.trans h.status.1.symm) h.pending hf

theorem attempt_failed {α : Type} {x : Exec α} {e : Error} {y : Machine}
    (h : attempt x m = .done (.error e) y) : x m = .raised e y := by
  cases hx : x m with
  | done a m' =>
    cases (run_attempt_done hx).symm.trans h
  | raised e m' =>
    cases (run_attempt_raised hx).symm.trans h
    rfl
  | exhausted => cases (run_attempt_exhausted hx).symm.trans h

theorem attempt_ended {α : Type} {x : Exec α} {a : α} {y : Machine}
    (h : attempt x m = .done (.ok a) y) : x m = .done a y := by
  cases hx : x m with
  | done a m' =>
    cases (run_attempt_done hx).symm.trans h
    rfl
  | raised e m' => cases (run_attempt_raised hx).symm.trans h
  | exhausted => cases (run_attempt_exhausted hx).symm.trans h

/-- A native function that is the body and has yielded is not run again. -/
theorem Machine.Carries.proceed (hh : host.Honest) (hc : m.Carries nargs beneath) (fuel : Nat)
    (source : Option ThreadId) :
    match proceed (host.reentry fuel) nargs (m.thread.status == .yield) (m.resumed source) with
    | .done _ y => y.running = m.running ∧ ∃ vs, (y.Answered m.running 1 vs ∨
        m.thread.status = .yield ∧ m.frameCount = 1 ∧ vs = m.frame.topValues nargs) ∧
        y.frameCount = 1 ∧ y.frame.values = beneath ++ vs
    | .raised e y => e = .yield → y.running = m.running ∧ y.running.index < y.threads.size ∧
        y.thread.parked = false ∧ (∀ s, ¬y.Aliased y.running 0 s) ∧
        Thread.Bears { y.thread with status := .yield } 0 beneath
    | .exhausted => True := by
  by_cases hn : m.thread.status = .yield → 1 < m.frameCount
  · obtain ⟨c, site, m₀, hg, hx⟩ := hc.called hh hn fuel source
    cases hp : Exec.proceed (host.reentry fuel) nargs (m.thread.status == .yield) (m.resumed source) with
    | done a y =>
      rw [hp] at hx
      obtain ⟨hr, vs, hf⟩ := hx
      exact ⟨hr, vs, .inl hf.answered, hf.over hr hg⟩
    | raised e y =>
      rintro rfl
      rw [hp] at hx
      have hr := hx.1
      rw [← hr] at hx hg ⊢
      exact ⟨rfl, hx.suspended hg⟩
    | exhausted => trivial
  · -- the native function that is the body has left its frame when it yielded: nothing is called
    obtain ⟨hy, hn⟩ := Classical.not_imp.mp hn
    cases hc.body with
    | fresh h => exact absurd hy h
    | active _ h => exact absurd h hn
    | @native f call _ hf hp hw hb hv =>
      cases fuel with
      | zero =>
        have hx : Exec.proceed (host.reentry 0) nargs (m.thread.status == .yield) (m.resumed source) =
          .exhausted := restarts (host.reentry 0) source nargs hy hp
        rw [hx]
        trivial
      | succ fuel =>
        obtain ⟨y, hx, hr, hone, hvs⟩ :=
          proceed_native host fuel source hc.there hy hf hp hw hb
        rw [hx]
        refine ⟨hr, _, .inr ⟨hy, congrArg Array.size hf, rfl⟩, hone, ?_⟩
        rw [hvs, hv, frame_of_single hf]

theorem Machine.Carries.yielded (hh : host.Honest) (hc : m.Carries nargs beneath)
    (hres : m.Resumable source nargs)
    (he : resume (host.reentry fuel) source nargs m = .done (.yield, n) m') :
    ∃ y, Exec.proceed (host.reentry fuel) nargs (m.thread.status == .yield) (m.resumed source) =
        .raised .yield y ∧
      n = y.thread.transfer.length ∧ m'.running = m.running ∧ m'.thread.status = .yield ∧
      m'.frame.values = y.frame.values ++ y.thread.transfer ∧ m'.Carries n beneath := by
  obtain ⟨result, y, hx, hst, hs⟩ := hres.outcome he
  obtain rfl : result = .error .yield := by
    cases result with
    | ok a => cases hst
    | error e => rw [Error.status_eq_yield hst.symm]
  have hp := attempt_failed hx
  have hbody := hc.proceed hh fuel source
  rw [hp] at hbody
  obtain ⟨hr, hth, hpa, hfree, hb⟩ := hbody rfl
  obtain ⟨r, hs', hr', hus, hsize, hf, hstatus, hpend, hparked⟩ := surrender_yielded m source hth
  have hd := Outcome.done.inj (hs.symm.trans hs')
  obtain rfl := hd.2
  have hn : n = y.thread.transfer.length := congrArg Prod.snd hd.1
  have hframe : m'.frame = y.frame.pushAll y.thread.transfer := by
    have ht : (y.modifyTop y.running (·.pushAll y.thread.transfer)).thread = _ :=
      y.threadAt_modify_there hth _
    have hx : m'.frame = (y.modifyTop y.running (·.pushAll y.thread.transfer)).frame :=
      frame_of_frames (hf.trans (congrArg Thread.frames ht).symm)
    exact hx.trans (frameAt_modifyTop_there hth hb.size_pos _)
  refine ⟨y, hp, hn, hr'.trans hr, hstatus, ?_, ?_, hparked.trans hpa, fun s ha => ?_, ?_⟩
  · rw [hframe, Frame.values_pushAll]
  · rw [hr', hsize]
    exact hth
  · exact hfree s (hr' ▸ ha.congr hus)
  · rw [hn]
    have hx : Thread.Bears _ y.thread.transfer.length beneath :=
      hb.restack (g := (·.pushAll y.thread.transfer)) rfl fun f b hb => ⟨Nat.add_le_add_right hb _, by
        rw [Frame.values_pushAll, List.take_append_of_le_length (f.length_values ▸ hb)]⟩
    exact hx.congr hstatus hpend hf

theorem Machine.Carries.returned (hh : host.Honest) (hc : m.Carries nargs beneath)
    (hres : m.Resumable source nargs)
    (he : resume (host.reentry fuel) source nargs m = .done (.ok, n) m') :
    ∃ y vs, Exec.proceed (host.reentry fuel) nargs (m.thread.status == .yield) (m.resumed source) =
        .done () y ∧
      (y.Answered m.running 1 vs ∨
        m.thread.status = .yield ∧ m.frameCount = 1 ∧ vs = m.frame.topValues nargs) ∧
      m'.running = m.running ∧ m'.frameCount = 1 ∧ m'.frame.values = beneath ++ vs ∧
      n = beneath.length + vs.length := by
  obtain ⟨result, y, hx, hst, hs⟩ := hres.outcome he
  obtain rfl : result = .ok () := by
    cases result with
    | ok a => rfl
    | error e => cases e <;> cases hst
  have hp := attempt_ended hx
  have hbody := hc.proceed hh fuel source
  rw [hp] at hbody
  obtain ⟨hr, vs, ha, hone, hv⟩ := hbody
  let y₁ : Machine := { y with held := (m.below source).held }
  have hok : settleResume (.ok ()) y₁ = .done (.ok, y₁.frame.top, .dead) y₁ := rfl
  obtain ⟨r, hs', hr', hus, hsize, hf, -⟩ := run_surrender m source hok
  have hd := Outcome.done.inj (hs.symm.trans hs')
  obtain rfl := hd.2
  have hv' : m'.frame.values = beneath ++ vs := by
    rw [← hv]
    exact congrArg Frame.values (frame_of_frames hf)
  refine ⟨y, vs, hp, ha, hr'.trans hr, (congrArg Array.size hf).trans hone, hv', ?_⟩
  rw [← List.length_append, ← hv, Frame.length_values]
  exact congrArg Prod.snd hd.1

end Handover

/-- A resume counts what its body has yielded, and what its body has returned on top of the values beneath
it, these included. -/
theorem Host.handsOver (host : Host) : host.HandsOver := by
  constructor
  case started =>
    intro nargs source m f hth hp ho hs hf hn hc hb hres
    have hf₀ : m.thread.frames[0]? = some f := by rw [hf]; rfl
    have ht := (hres.ready.resolve_left hs).2
    rw [frame_of_single hf] at ht
    exact ⟨hth, hp, fun s => not_aliased hc hb hf₀ hn, .fresh hs ho hf ht rfl⟩
  case offered => exact fun hth h => transfer_yielding hth h
  case passed => exact fun hth h => enter_yields hth h
  case surfaced =>
    intro fuel inner stop site m₀ y hs hc hx
    obtain ⟨y', he, hu⟩ := hc.yields hs rfl hx
    have hf := hu.fields (fun th => (th.transfer, th.frames)) (fun _ _ _ => rfl) y.running
    simp only [Prod.mk.injEq] at hf
    refine ⟨y', he, hu.running, ?_⟩
    rw [Machine.thread, hu.running]
    exact hf
  case yielded => exact fun hh _ _ _ _ _ _ _ hc hres he => hc.yielded hh hres he
  case returned => exact fun hh _ _ _ _ _ _ _ hc hres he => hc.returned hh hres he
  case throughout =>
    intro hh n₀ n m₀ m beneath hc hp
    -- a resume that yields leaves the same values beneath, and the host takes off what is above them
    induction hp with
    | start => exact hc
    | yielded _ hres he ih =>
      obtain ⟨-, -, -, -, -, -, hc⟩ := ih.yielded hh hres he
      exact hc
    | tended _ ht ih => exact ht.carries ih

/-- The host has left 5 in a coroutine, beneath a function that is to be started. -/
def Machine.burdened : Machine :=
  { Machine.new {} with
    functions := #[{ body := .native (.builtin .isyieldable) }]
    threads := #[{ isMain := true, parked := false, phase := .normal },
      { parked := false, frames := #[{ window := #[.int 5, .function ⟨0⟩], top := 2 }] }]
    running := ⟨1⟩ }

/-- The function has one result, and the resume counts two. -/
theorem Machine.burdened_counted : ∃ y m : Machine,
    Exec.proceed (({} : Host).reentry 2) 0 false (burdened.resumed none) = .done () y ∧
      y.Answered burdened.running 1 [.bool true] ∧
      resume (({} : Host).reentry 2) none 0 burdened = .done (.ok, 2) m := by
  have hc : burdened.Carries 0 [.int 5] := ⟨by decide, rfl, not_aliased_of_none rfl,
    .fresh (by decide) rfl rfl (by decide) rfl⟩
  obtain ⟨m, he, hm⟩ : ∃ m, resume (({} : Host).reentry 2) none 0 burdened = .done (.ok, 2) m ∧
      m.frame.values = [.int 5, .bool true] := ⟨_, rfl, rfl⟩
  have hh : ({} : Host).Honest := nofun
  obtain ⟨y, vs, hp, ha, -, -, hv, -⟩ :=
    hc.returned hh ⟨nofun, .inr ⟨by decide, by decide⟩, by decide⟩ he
  obtain rfl : vs = [.bool true] := List.append_cancel_left (hv.symm.trans hm)
  exact ⟨y, m, hp, ha.resolve_right (fun h => nomatch h.1), he⟩

/-- The host has left 5 in a coroutine. Its body calls the function that yields with 7 and returns what
that returns. -/
def Machine.laden : Machine :=
  { burdened with
    functions := #[
      { body := .native (.builtin .yield) },
      { body := .bytecode { registers := 2, parameters := 2,
                            code := #[.ofABC .call 0 2 2, .ofABC .return 0 2 0] } }]
    threads := #[{ isMain := true, parked := false, phase := .normal },
      { parked := false, frames := #[
        { window := #[.int 5, .function ⟨1⟩, .function ⟨0⟩, .int 7], top := 4 }] }] }

namespace Machine

def ladenPaused : Machine := (resume (({} : Host).reentry 3) none 2 laden).machine

def ladenAgain : Machine :=
  ladenPaused.modifyTop ladenPaused.running fun f => (f.drop 1).pushAll [.int 9]

def ladenEnded : Machine := (resume (({} : Host).reentry 3) none 1 ladenAgain).machine

end Machine

/-- The 5 stays where it is. It is not counted when the coroutine yields, and it is when the coroutine has
come to its end. -/
theorem Host.handsOver_laden : ∃ vs,
    resume (({} : Host).reentry 3) none 2 Machine.laden = .done (.yield, 1) Machine.ladenPaused ∧
    Machine.ladenPaused.frame.values = [.function ⟨0⟩, .int 7, .int 7] ∧
    resume (({} : Host).reentry 3) none 1 Machine.ladenAgain = .done (.ok, 2) Machine.ladenEnded ∧
    Machine.ladenEnded.frame.values = [.int 5] ++ vs ∧ vs = [.int 9] := by
  have hu := ({} : Host).handsOver
  have hh : ({} : Host).Honest := nofun
  have hc : Machine.laden.Carries 2 [.int 5] := ⟨by decide, rfl, not_aliased_of_none rfl,
    .fresh (by decide) rfl rfl (by decide) rfl⟩
  have hres : Machine.laden.Resumable none 2 := ⟨nofun, .inr ⟨by decide, by decide⟩, by decide⟩
  have he : resume (({} : Host).reentry 3) none 2 Machine.laden =
      .done (.yield, 1) Machine.ladenPaused := Outcome.eq_done (by decide +kernel)
  have ht : Machine.ladenPaused.Tended 1 Machine.ladenAgain 1 :=
    tended_modifyTop (by decide +kernel) (by decide +kernel) (by decide +kernel) (Nat.le_refl 1) [.int 9]
  have hc₁ : Machine.ladenAgain.Carries 1 [.int 5] :=
    hu.throughout hh hc (.tended (.yielded .start hres he) ht)
  have hres₁ : Machine.ladenAgain.Resumable none 1 :=
    ⟨by decide +kernel, .inl (by decide +kernel), by decide +kernel⟩
  have he₁ : resume (({} : Host).reentry 3) none 1 Machine.ladenAgain =
      .done (.ok, 2) Machine.ladenEnded := Outcome.eq_done (by decide +kernel)
  obtain ⟨y, vs, -, -, -, -, hv, -⟩ := hu.returned hh hc₁ hres₁ he₁
  have hvs : Machine.ladenEnded.frame.values = [.int 5] ++ [.int 9] := by decide +kernel
  exact ⟨vs, he, by decide +kernel, he₁, hv, List.append_cancel_left (hv.symm.trans hvs)⟩

end LuaMachine
