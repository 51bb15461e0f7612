import LuaMachine.Proofs.Suspension.Return

namespace LuaMachine

open Machine Exec Relation

namespace Machine

/-- A yield has got to the resumer, who goes on with the second machine. -/
def Surfaces (y r : Machine) : Prop :=
  ∃ (m₀ : Machine) (source : Option ThreadId) (y' : Machine) (k : Nat), y.Unwound y' ∧
    y'.running = m₀.running ∧ m₀.surrender source (.error .yield) y' = .done (.yield, k) r

/-- A thread rests that has left a call open. Nothing changes in it but what is above that call, and
registers that are captured. -/
structure LeftAlone (t : ThreadId) (m m' : Machine) : Prop where
  size : (m'.threadAt t).frames.size = (m.threadAt t).frames.size
  pending : (m'.threadAt t).pending = (m.threadAt t).pending
  intact : ∀ call, (m.threadAt t).pending = some call → Intact t (m.threadAt t).frames.size
    (m.modifyTop t (·.setTop call.base)) (m'.modifyTop t (·.setTop call.base))

def cleared (m : Machine) (source : Option ThreadId) (nargs : Nat) (call : PendingCall) : Machine :=
  (m.resumed source).callClosed.modifyTop m.running fun f => (f.drop nargs).setTop call.base

def continued (m : Machine) (source : Option ThreadId) (nargs : Nat) (call : PendingCall) : Machine :=
  (m.resumed source).callClosed.modifyTop m.running (·.continued nargs call)

def Continues (r : Machine) (site : CallSite) (s : Machine) : Prop :=
  ∃ (r' : Machine) (source : Option ThreadId) (nargs : Nat) (call : PendingCall),
    LeftAlone r.running r r' ∧ r'.running = r.running ∧ r'.thread.parked = false ∧
    r'.Resumable source nargs ∧ r'.thread.status = .yield ∧ r'.thread.pending = some call ∧
    call.base + nargs ≤ r'.frame.top ∧ call.site = site ∧ r'.continued source nargs call = s

variable {m m' y y' r s : Machine} {t : ThreadId} {n : Nat} {source : Option ThreadId} {nargs : Nat}
  {call : PendingCall} {site : CallSite}

theorem intact_modifyTop_kept {g g' : Frame → Frame} (hone : 1 < (m.threadAt t).frames.size)
    (hs : (m.threadAt t).frames.size = n + 1)
    (hg : (g (m.frameAt t)).Kept (m.Aliased t n) (g' (m.frameAt t))) :
    Intact t (n + 1) (m.modifyTop t g) (m.modifyTop t g') where
  functions := List.prefix_rfl
  aliases _ _ _ ha := ha
  frames i hi f hf := by
    have top (g : Frame → Frame) :
        ((m.modifyTop t g).threadAt t).frames[n]? = some (g (m.frameAt t)) := by
      rw [getElem?_top ((m.size_modifyTop ..).trans hs), frameAt_modifyTop_self hone]
    have below (g : Frame → Frame) (hn : i ≠ n) :
        ((m.modifyTop t g).threadAt t).frames[i]? = (m.threadAt t).frames[i]? := by
      rw [m.threadAt_modifyTop hone, modifyFrames, Array.getElem?_modify, if_neg (by omega)]
    by_cases hn : i = n
    · subst hn
      obtain rfl : g (m.frameAt t) = f := Option.some.inj ((top g).symm.trans hf)
      exact ⟨_, top g', hg⟩
    · exact ⟨f, by rw [below g' hn, ← below g hn, hf], .refl⟩

theorem leftAlone_pushed (hone : 1 < (m.threadAt t).frames.size)
    (hb : ∀ call, (m.threadAt t).pending = some call → call.base ≤ (m.frameAt t).top)
    (vs : List Value) : LeftAlone t m (m.modifyTop t (·.pushAll vs)) where
  size := m.size_modifyTop ..
  pending := (congrArg Thread.pending (m.threadAt_modifyTop hone _)).trans rfl
  intact call hc := by
    obtain ⟨k, hk⟩ : ∃ k, (m.threadAt t).frames.size = k + 1 :=
      ⟨(m.threadAt t).frames.size - 1, by omega⟩
    have hkept : ((m.frameAt t).setTop call.base).Kept (m.Aliased t k)
        (((m.frameAt t).pushAll vs).setTop call.base) := by
      refine ⟨rfl, fun s hs _ => ?_⟩
      have hs : s < call.base := hs
      rw [Frame.slot_setTop _ hs, Frame.slot_setTop _ hs,
        Frame.slot_pushAll _ _ (Nat.lt_of_lt_of_le hs (hb call hc))]
    rw [hk, modifyTop_modifyTop]
    exact intact_modifyTop_kept hone hk hkept

/-- A thread that has yielded rests, and it can be resumed from outside. -/
structure Dormant (r : Machine) (call : PendingCall) : Prop where
  inner : 1 < r.frameCount
  pending : r.thread.pending = some call
  base : call.base ≤ r.frame.top
  status : r.thread.status = .yield
  parked : r.thread.parked = false
  alive : r.thread.phase ≠ .dead
  limit : 1 < r.limits.nesting

theorem Dormant.resumable {call : PendingCall} (h : r.Dormant call) (vs : List Value) :
    (r.modifyTop r.running (·.pushAll vs)).Resumable none vs.length ∧
      (r.modifyTop r.running (·.pushAll vs)).thread.status = .yield ∧
      (r.modifyTop r.running (·.pushAll vs)).thread.pending = some call ∧
      r.Continues call.site
        ((r.modifyTop r.running (·.pushAll vs)).continued none vs.length call) := by
  have ht : (r.modifyTop r.running (·.pushAll vs)).thread = _ := r.threadAt_modifyTop h.inner _
  have hf : (r.modifyTop r.running (·.pushAll vs)).frame = r.frame.pushAll vs :=
    frameAt_modifyTop_self h.inner _
  have hs : (r.modifyTop r.running (·.pushAll vs)).thread.status = .yield := by
    rw [ht]
    exact h.status
  have hp : (r.modifyTop r.running (·.pushAll vs)).thread.pending = some call := by
    rw [ht]
    exact h.pending
  have hr : (r.modifyTop r.running (·.pushAll vs)).Resumable none vs.length := by
    refine ⟨fun hd => h.alive ?_, .inl hs, h.limit⟩
    rw [← hd.2, ht]
    rfl
  refine ⟨hr, hs, hp, _, none, _, call, leftAlone_pushed h.inner (fun c hc => ?_) vs, rfl, ?_, hr, hs,
    hp, ?_, rfl, rfl⟩
  · obtain rfl := Option.some.inj (hc.symm.trans h.pending)
    exact h.base
  · rw [ht]
    exact h.parked
  · rw [hf]
    exact Nat.add_le_add_right h.base _

theorem Unwound.fields {α : Type} (h : y.Unwound y') (p : Thread → α)
    (hp : ∀ th nesting hostCalls, p { th with nesting, hostCalls } = p th) (t : ThreadId) :
    p (y'.threadAt t) = p (y.threadAt t) := by
  induction h with
  | refl => rfl
  | @call m' held _ ih => exact (fields_modify p m' _ t fun th => hp th _ _).trans ih

theorem Unwound.besides (h : y.Unwound y') : y'.functions = y.functions ∧
    y'.upvalues = y.upvalues ∧ y'.threads.size = y.threads.size := by
  induction h with
  | refl => exact ⟨rfl, rfl, rfl⟩
  | call held _ ih => exact ⟨ih.1, ih.2.1, (Array.size_modify ..).trans ih.2.2⟩

def yielded (m : Machine) : Machine :=
  m.ending m.upvalues fun th => { th with
    status := .yield
    transfer := []
    frames := modifyFrames (th.frames.size - 1) (·.pushAll m.thread.transfer) th.frames }

theorem settleResume_yielded (m : Machine) : settleResume (.error .yield) m =
    .done (.yield, m.thread.transfer.length, .suspended) m.yielded := by
  change Outcome.done _ (modifyTop _ _ _) = _
  simp only [modifyTop, modify_modify]
  rfl

theorem besides_released (m : Machine) (source : Option ThreadId) (self : ThreadId) (named : Bool)
    (phase : Phase) : (m.released source self named phase).functions = m.functions ∧
      (m.released source self named phase).upvalues = m.upvalues := by
  cases source <;> cases named <;> exact ⟨rfl, rfl⟩

theorem Surfaces.found (h : y.Surfaces r) (hth : y.running.index < y.threads.size) :
    r.running = y.running ∧ r.functions = y.functions ∧ r.upvalues = y.upvalues ∧
      (r.threadAt y.running).status = .yield ∧
      (r.threadAt y.running).pending = (y.threadAt y.running).pending ∧
      ∃ vs, (r.threadAt y.running).frames =
        ((y.modifyTop y.running (·.pushAll vs)).threadAt y.running).frames := by
  obtain ⟨m₀, source, y', k, hu, hr, hx⟩ := h
  obtain ⟨hf, hv, hs⟩ := hu.besides
  have hr' := hu.running
  let y₁ : Machine := { y' with held := (m₀.below source).held }
  have he : m₀.surrender source (.error .yield) y' = _ := run_endResume (settleResume_yielded y₁)
  obtain rfl := (Outcome.done.inj (he.symm.trans hx)).2
  obtain ⟨hrf, hru⟩ := y₁.yielded.besides_released (source.filter (m₀.below source).isNamed)
    m₀.running (m₀.isNamed m₀.running) .suspended
  have hrel := y₁.yielded.fields_released (fun th => (th.status, th.pending, th.frames))
    (source.filter (m₀.below source).isNamed) m₀.running (m₀.isNamed m₀.running) .suspended
    y₁.running fun _ _ => rfl
  have hth₁ : y₁.yielded.threadAt y₁.running = _ :=
    thread_ending (m := y₁) (by rw [hr', hs]; exact hth) _ _
  have hp := hu.fields (fun th => (th.pending, th.frames)) (fun _ _ _ => rfl) y.running
  rw [hth₁, show y₁.running = y.running from hr'] at hrel
  simp only [Prod.mk.injEq] at hrel hp
  refine ⟨(running_released ..).trans hr', hrf.trans hf, hru.trans hv, hrel.1, ?_,
    y₁.thread.transfer, ?_⟩
  · rw [hrel.2.1, Machine.thread, show y₁.running = y.running from hr']
    exact hp.1
  · rw [hrel.2.2, y.modifyTop_eq, modifyLevel, y.threadAt_modify_there hth, Machine.thread,
      show y₁.running = y.running from hr']
    change modifyFrames ((y'.threadAt y.running).frames.size - 1) _ (y'.threadAt y.running).frames = _
    rw [hp.2]

theorem frames_modifyTop_congr (h : 1 < (m.threadAt t).frames.size)
    (hf : (m'.threadAt t).frames = (m.threadAt t).frames) (g : Frame → Frame) :
    ((m'.modifyTop t g).threadAt t).frames = ((m.modifyTop t g).threadAt t).frames := by
  rw [m.threadAt_modifyTop h, m'.threadAt_modifyTop (hf ▸ h), hf]

namespace Surfaces

variable (h : y.Surfaces r) (hone : 1 < y.frameCount)
include h hone

theorem intact : (r.threadAt y.running).frames.size = y.frameCount ∧
    ∃ vs, ∀ n (g : Frame → Frame), Intact y.running n
      (y.modifyTop y.running (g ∘ (·.pushAll vs))) (r.modifyTop y.running g) := by
  obtain ⟨-, hfs, hus, -, -, vs, hf⟩ := h.found (y.index_lt hone)
  refine ⟨?_, vs, fun n g => ?_⟩
  · rw [hf]
    exact y.size_modifyTop ..
  · rw [← modifyTop_modifyTop]
    exact intact_of_frames (frames_modifyTop_congr ((y.size_modifyTop ..).symm ▸ hone) hf g) hus hfs

theorem intact_top : Intact y.running y.frameCount y
    (r.modifyTop y.running (·.setTop y.frame.top)) := by
  obtain ⟨-, vs, hi⟩ := h.intact hone
  obtain ⟨k, hk⟩ : ∃ k, y.frameCount = k + 1 := ⟨y.frameCount - 1, by omega⟩
  have hkept : y.frame.Kept (y.Aliased y.running k)
      ((y.frame.pushAll vs).setTop y.frame.top) := by
    refine ⟨rfl, fun s hs _ => ?_⟩
    rw [Frame.slot_setTop _ hs, Frame.slot_pushAll _ _ hs]
  have hx : Intact y.running (k + 1) (y.modifyTop y.running id) (y.modifyTop y.running
      ((·.setTop y.frame.top) ∘ (·.pushAll vs))) := intact_modifyTop_kept hone hk hkept
  rw [modifyTop_id, ← hk] at hx
  exact hx.trans (hi _ _)

end Surfaces

theorem continued_eq (m : Machine) (source : Option ThreadId) (nargs : Nat) (call : PendingCall)
    (h : 1 < m.frameCount) : m.continued source nargs call =
      (m.cleared source nargs call).modifyTop m.running
        (·.pushAll (adjust (m.frame.topValues nargs) call.wanted)) := by
  have hr : (m.resumed source).running = m.running := (m.thread_resumed source).1
  have hone : 1 < (m.resumed source).frameCount := (m.frameCount_resumed source).symm ▸ h
  have hf : (m.resumed source).callClosed.frameAt m.running = m.frame := by
    have hf := (frame_callClosed hone).trans (m.frame_resumed source)
    rw [← hf]
    exact congrArg _ hr.symm
  rw [cleared, continued, modifyTop_modifyTop]
  refine modifyTop_congr ?_
  rw [hf]
  rfl

theorem besides_resumed (m : Machine) (source : Option ThreadId) :
    (m.resumed source).functions = m.functions ∧ (m.resumed source).upvalues = m.upvalues := by
  unfold resumed takenUp
  generalize source.filter (m.below source).isNamed = s
  cases s <;> cases m.isNamed m.running <;> exact ⟨rfl, rfl⟩

theorem landed_cleared (source : Option ThreadId) (hth : m.running.index < m.threads.size)
    (h : 1 < m.frameCount)
    (hp : m.thread.parked = false) (hb : call.base + nargs ≤ m.frame.top) :
    Landed True m.running m.frameCount ⟨0, innerNesting m source⟩
      (m.modifyTop m.running (·.setTop call.base)) False (m.cleared source nargs call) := by
  obtain ⟨hr, hf, hpa, -⟩ := m.thread_resumed source
  obtain ⟨hth', hs, hc⟩ := there_resumed hth source
  obtain ⟨hfs, hus⟩ := m.besides_resumed source
  have ht : (m.resumed source).callClosed.threadAt (m.resumed source).running = _ :=
    (m.resumed source).threadAt_modify_there hth' fun th => { th with pending := none }
  rw [hr] at ht
  rw [Machine.thread, hr] at hf hpa hs hc
  have hl : Landed True m.running m.frameCount ⟨0, innerNesting m source⟩
      (m.resumed source).callClosed False (m.resumed source).callClosed := by
    refine ⟨.refl .., ?_, Nat.zero_lt_of_lt h, ?_, ?_, ?_, ?_, fun _ => ?_⟩
    · rw [← hr]
      exact Nat.lt_of_lt_of_eq hth' (Array.size_modify ..).symm
    · rw [ht]
      exact congrArg Array.size hf
    · rw [ht]
      exact hpa.trans hp
    · rw [ht]
      exact fun h => nomatch hs.symm.trans h
    · rw [ht]
      exact hc
    · rw [ht]
      exact ⟨congrArg Counts.hostCalls hc, False.elim, .inl rfl⟩
  have hfr : ((m.resumed source).callClosed.threadAt m.running).frames = m.thread.frames := by
    rw [ht]
    exact hf
  obtain ⟨k, hk⟩ : ∃ k, m.frameCount = k + 1 := ⟨m.frameCount - 1, by omega⟩
  have hkept : (m.frame.setTop call.base).Kept (m.Aliased m.running k)
      ((m.frame.drop nargs).setTop call.base) := by
    refine ⟨rfl, fun s hs _ => ?_⟩
    have hs : s < call.base := hs
    rw [Frame.slot_setTop _ hs, Frame.slot_setTop _ hs, Frame.drop, Frame.slot_setTop _ (by omega)]
  have hi : Intact m.running (k + 1) (m.modifyTop m.running (·.setTop call.base))
      (m.modifyTop m.running fun f => (f.drop nargs).setTop call.base) :=
    intact_modifyTop_kept h hk hkept
  rw [← hk] at hi
  exact { hl.top _ with
    intact := hi.trans (intact_of_frames (frames_modifyTop_congr h hfr _) hus hfs) }

theorem Continues.handed (h : r.Continues site s) (hone : 1 < r.frameCount) :
    s.running = r.running ∧ ∃ call c vs, r.thread.pending = some call ∧ call.site = site ∧
      c.hostCalls = 0 ∧ Handed True r.running r.frameCount c vs call.wanted
        (r.modifyTop r.running (·.setTop call.base)) s := by
  obtain ⟨r', source, nargs, call, ha, hr, hp, -, -, hc, hb, rfl, rfl⟩ := h
  obtain ⟨hsize, hpend, hi⟩ := ha
  have hn : r'.frameCount = r.frameCount := by
    change (r'.threadAt r'.running).frames.size = _
    rw [hr, hsize]
    rfl
  have hcall : r'.thread.pending = r.thread.pending := by
    rw [Machine.thread, hr, hpend]
    rfl
  rw [hcall] at hc
  have hone' : 1 < r'.frameCount := hn ▸ hone
  have hl := landed_cleared source (r'.index_lt hone') hone' hp hb
  rw [hr, hn] at hl
  rw [continued_eq _ _ _ _ hone', hr]
  exact ⟨(r'.thread_resumed source).1.trans hr, call, _, _, hc, rfl, rfl, _, rfl,
    hl.trans (hi _ hc)⟩

end Machine

section Descent

variable {t : ThreadId} {n h : Nat} {o : Origin} {m₀ m y r s : Machine} {site : CallSite} {wanted : Int}

theorem Abandoned.resumed (hy : Abandoned True t n h site wanted m₀ .yield y) (ht : y.running = t)
    (hs : y.Surfaces r) {site' : CallSite} (hc : r.Continues site' s) :
    s.running = t ∧ site' = site ∧ ∃ vs, Returned True t n h vs wanted m₀ s := by
  subst ht
  obtain rfl : y.frameCount = n := hy.exposed.frameCount rfl
  have hone := hy.exposed.ready.many
  obtain ⟨hr, -, -, -, hp, -⟩ := hs.found (y.index_lt hone)
  have hsize : r.frameCount = y.frameCount := by
    rw [Machine.frameCount, Machine.thread, hr]
    exact (hs.intact hone).1
  have hpend : r.thread.pending = some { site, wanted, base := y.frame.top } := by
    rw [Machine.thread, hr, hp]
    exact hy.pending trivial rfl
  obtain ⟨hrs, call, c, vs, hcall, rfl, hc0, hx⟩ := hc.handed (by omega)
  obtain rfl := Option.some.inj (hpend.symm.trans hcall)
  have h0 : h = 0 := (hy.exposed.ready.calm trivial).2 rfl
  rw [hr, hsize] at hx
  obtain ⟨s₀, rfl, hl⟩ := hx.returned hone fun _ => hc0.trans h0.symm
  refine ⟨hrs.trans hr, rfl, vs, s₀, rfl, ?_⟩
  exact (hl.trans (hs.intact_top hone)).trans hy.exposed.intact

theorem Shelter.resumed (hy : Shelter True t n h o m₀ t true y) (ht : y.running = t)
    (hs : y.Surfaces r) (hc : r.Continues site s) :
    s.running = t ∧ Shelter True t n h o m₀ t false s := by
  subst ht
  have hone : 1 < y.frameCount := hy.one_lt_size
  obtain ⟨hr, -⟩ := hs.found (y.index_lt hone)
  obtain ⟨hrn, vs, hi⟩ := hs.intact hone
  have hsize : r.frameCount = y.frameCount := by
    rw [Machine.frameCount, Machine.thread, hr]
    exact hrn
  obtain ⟨hrs, call, c, ws, -, -, hc0, hx⟩ := hc.handed (by omega)
  have h0 : h = 0 := (hy.calm trivial).2 ⟨rfl, rfl⟩
  rw [hr, hsize] at hx
  obtain ⟨s₀, rfl, hl⟩ := hx.returned hone fun _ => hc0.trans h0.symm
  have : Frame.Benign ((·.setTop call.base) ∘ (·.pushAll vs)) := ⟨fun _ => rfl⟩
  have hy₁ := hy.onTop y.running ((·.setTop call.base) ∘ (·.pushAll vs))
  have hs₀ : Shelter True y.running n h o m₀ y.running false s₀ :=
    hy₁.ofExposed hy.size_lt (Nat.le_of_eq (y.size_modifyTop ..).symm)
      ((hl.trans (hi _ _)).congr (by simp))
  exact ⟨hrs.trans hr, hs₀.onTop y.running (·.pushAll (adjust ws call.wanted))⟩

/-- The loop is above the lowest `n` frames or has come down to them, or a yield has. -/
def Point.Pends (t : ThreadId) (n h : Nat) (o : Origin) (m₀ : Machine) (p : Point) : Prop :=
  p.Above True t n h o m₀ ∨
    ∃ y, p = .failing .yield y ∧ y.running = t ∧ Abandoned True t n h o.site o.wanted m₀ .yield y

/-- The loop comes down to `n` frames with results for a call site. On the way the thread may yield,
any number of times; after each resume it is in another loop. -/
inductive Host.Descends (host : Host) (n : Nat) (site : CallSite) (m : Machine) :
    (fuel stop : Nat) → Point → (fuel' stop' : Nat) → Prop
  | here {fuel stop : Nat} {p : Point} :
      ReflTransGen (Point.Climbs (host.reentry fuel) n stop) p (.delivering site m) →
      m.frameCount = n → host.Descends n site m fuel stop p fuel stop
  | later {fuel stop inner fuel' stop' : Nat} {p : Point} {y r s : Machine} {site' : CallSite} :
      ReflTransGen (Point.Climbs (host.reentry fuel) n stop) p (.failing .yield y) →
      y.Surfaces r → r.Continues site' s →
      host.Descends n site m inner 1 (.delivering site' s) fuel' stop' →
      host.Descends n site m fuel stop p fuel' stop'

theorem Host.Descends.ofYield {host : Host} {n fuel stop inner : Nat} {y r s : Machine}
    {site : CallSite} (hs : y.Surfaces r) (hc : r.Continues site s) (hn : s.frameCount = n) :
    host.Descends n site s fuel stop (.failing .yield y) inner 1 :=
  .later .refl hs hc (.here .refl hn)

theorem Point.Climbs.eq_of_result {re : Reentry} {stop : Nat} {p q : Point} {x : Outcome Unit}
    (hw : ReflTransGen (Point.Climbs re n stop) p q) (hp : p.result? stop = some x) : q = p := by
  rcases ReflTransGen.cases_head hw with he | ⟨p', ⟨-, hm⟩, -⟩
  · exact he.symm
  · cases (Point.next?_of_result? hp).symm.trans hm

/-- Whether the thread has yielded on the way or not, the frames below are the same, with results for
the call site of the frame that was above them. -/
theorem Host.Descends.returned {host : Host} (hh : host.Honest) (hn : 1 < n)
    {fuel stop fuel' stop' : Nat} {p : Point} (hd : host.Descends n site m fuel stop p fuel' stop')
    (hp : p.Pends t n h o m₀) :
    site = o.site ∧ m.running = t ∧ ∃ vs, Returned True t n h vs o.wanted m₀ m := by
  -- each loop on the way starts with what `Pends` says of the one before
  induction hd with
  | @here fuel stop p hw hs =>
    obtain ha | ⟨y, rfl, -⟩ := hp
    · exact ha.returned (host.shelters (fun _ => hh) _ fuel) hn hw hs
    · cases Point.Climbs.eq_of_result hw rfl
  | @later fuel stop inner fuel' stop' p y r s site' hw hs hc hd ih =>
    obtain ha | ⟨y', rfl, ht, hy⟩ := hp
    · obtain ⟨ht, hy⟩ := ha.climbs (host.shelters (fun _ => hh) _ fuel) hn hw
      obtain ⟨hts, hx⟩ := hy.resumed ht hs hc
      by_cases hsite : site' = .host
      · -- such a loop ends at once
        subst hsite
        have hend : (Point.delivering .host s).result? 1 = some (.done () s) := if_pos (.inr rfl)
        cases hd with
        | here hw hn =>
          cases Point.Climbs.eq_of_result hw hend
          exact absurd (hx.lt_frameCount hts) (Nat.not_lt.mpr (Nat.le_of_eq hn))
        | later hw => cases Point.Climbs.eq_of_result hw hend
      · exact ih (.inl ⟨hts, .inl ⟨hsite, hx⟩⟩)
    · cases Point.Climbs.eq_of_result hw rfl
      obtain ⟨hts, rfl, hx⟩ := hy.resumed ht hs hc
      exact ih (.inl ⟨hts, .inr ⟨rfl, hx⟩⟩)

end Descent

end LuaMachine
