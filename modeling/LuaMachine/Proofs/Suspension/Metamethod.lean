import LuaMachine.Proofs.Suspension.Agreement
import LuaMachine.Proofs.Suspension.Interruption

namespace LuaMachine

open Machine Exec Relation

theorem Exec.runsBytecode_of_current {i : Instruction} {m : Machine}
    (hi : currentInstruction? m = some i) : m.RunsBytecode m.frame := by
  unfold currentInstruction? at hi
  split at hi
  · cases hi
  · obtain ⟨p, hp, -⟩ := Option.bind_eq_some_iff.mp hi
    exact runsBytecode_of_prototype hp

/-- A function is running on top of a thread's `n` frames, and these registers of it are captured. -/
structure Machine.Attends (captured : Nat → Prop) (t : ThreadId) (n : Nat) (m : Machine) : Prop where
  runs : m.Runs
  running : m.running = t
  frameCount : m.frameCount = n
  aliased : ∀ s, m.Aliased t (n - 1) s → captured s

variable {captured : Nat → Prop} {t : ThreadId} {n h k : Nat} {m m' m₀ : Machine} {vs : List Value}
  {wanted : Int}
  {q : Question} {i : Instruction} {e : Extension}

theorem Machine.frame_taken (hone : 1 < m.frameCount) :
    (m.taken q.nargs).frame = q.base m.frame := by
  have hf : (m.modifyTop m.running (·.drop q.nargs)).frameAt m.running = m.frame.drop q.nargs :=
    frameAt_modifyTop_self hone _
  have hx : (m.taken q.nargs).frameAt m.running = _ := frameAt_modifyTop_self (inner_modifyTop hone) _
  exact hx.trans (congrArg (·.drop 1) hf)

namespace Returned

theorem runs (hx : Returned True t n h vs wanted m₀ m) (ht : m.running = t) (hn : 1 < n) :
    m.Runs := by
  obtain ⟨m₁, rfl, hx⟩ := hx
  exact .ofLanded (hx.landed.top _) trivial ht hn

theorem frame (hx : Returned True t (k + 1) h vs wanted m₀ m) (ht : m.running = t)
    (hs : (m₀.threadAt t).frames.size = k + 1) :
    ∃ g, (m₀.frameAt t).Kept (m₀.Aliased t k) g ∧ m.frame = g.pushAll (adjust vs wanted) := by
  obtain ⟨m₁, rfl, hx⟩ := hx
  obtain ⟨g, hg, hkept⟩ := hx.intact.frames k (Nat.lt_succ_self k) _ (getElem?_top hs)
  have hg : m₁.frameAt t = g :=
    Option.some.inj ((getElem?_top hx.ready.size).symm.trans hg)
  refine ⟨g, hkept, ?_⟩
  have hf : (m₁.modifyTop t (·.pushAll (adjust vs wanted))).frameAt t = _ :=
    frameAt_modifyTop_self hx.ready.one_lt_size _
  rw [Machine.frame, ht, hf, hg]

end Returned

namespace Machine.Attends

theorem touches (hm : m.Attends captured t n) (h : m.Touches m') : m'.Attends captured t n := by
  refine ⟨hm.runs.touches h, h.running.trans hm.running, h.frameCount.trans hm.frameCount, ?_⟩
  obtain ⟨g, held, rfl⟩ := h
  exact hm.aliased

theorem answered (hm : m.Attends captured t n) (hi : currentInstruction? m = some i)
    (ht : m'.running = t) (hx : Returned True t n h vs q.wanted (m.taken q.nargs) m') :
    q.Answered captured m m' ∧ m'.Attends captured t n := by
  obtain ⟨hruns, rfl, rfl, ha⟩ := hm
  obtain ⟨j, hj⟩ : ∃ j, m.frameCount = j + 1 := ⟨m.frameCount - 1, by have := hruns.inner; omega⟩
  have hcount := hx.frameCount ht
  have hruns' := hx.runs ht hruns.inner
  rw [hj, Nat.add_sub_cancel] at ha
  rw [hj] at hx
  have hsize : (m.taken q.nargs).frameCount = j + 1 :=
    (size_modifyTop ..).trans ((size_modifyTop ..).trans hj)
  obtain ⟨g, hkept, hframe⟩ := hx.frame ht hsize
  rw [show (m.taken q.nargs).frameAt m.running = q.base m.frame from frame_taken hruns.inner] at hkept
  have hk : (q.base m.frame).Kept captured g :=
    ⟨hkept.1, fun s hs hc => hkept.2 s hs fun hs => hc (ha s hs)⟩
  obtain ⟨m₁, rfl, hx⟩ := hx
  have hproto : (m₁.modifyTop m.running (·.pushAll (adjust vs q.wanted))).prototype = m.prototype := by
    obtain ⟨id, p, us, hid, hp⟩ := runsBytecode_of_current hi
    have hfun : g.function = some id := by
      have hc := congrArg Frame.function hk.1
      exact hc.trans hid
    rw [Machine.prototype, hframe, Machine.prototype]
    unfold prototypeOf functionOf
    rw [hid, show (g.pushAll (adjust vs q.wanted)).function = some id from hfun, Option.map_some,
      Option.map_some]
    have hfn := hx.intact.functionAt (f := id) (Array.getElem?_eq_some_iff.mp hp).1
    rw [show (m₁.modifyTop m.running (·.pushAll (adjust vs q.wanted))).functionAt id =
      m.functionAt id from hfn.2]
  refine ⟨⟨ht, hcount, hproto, g, vs, hk, hframe⟩, hruns', ht, hcount, fun s hs => ?_⟩
  rw [hj, Nat.add_sub_cancel] at hs
  exact ha s (hx.intact.aliases j (by omega) s hs)

section Call

variable {host : Host} (hh : host.Honest) (hm : m.Attends captured t n) {fuel : Nat} {wanted : Int}
  {nargs : Nat}
include hh hm

theorem called {o : Outcome Unit} (hc : callYieldable (host.reentry fuel) nargs wanted m = o)
    (hl : ∀ e m', o = .raised e m' → e = .yield) :
    o.Called True t n m.thread.counts .metamethod wanted (m.taken nargs) := by
  obtain ⟨hruns, rfl, rfl, -⟩ := hm
  by_cases hn : m.thread.nesting < m.limits.nesting
  · rw [← hc]
    exact called_nested (host.shelters (fun _ => hh) _ fuel) false nargs wanted .metamethod
      hruns.landed rfl hn
  · rw [callYieldable, nested_eq, if_pos (Nat.not_lt.mp hn)] at hc
    cases hl _ _ hc.symm

theorem finishes (hi : currentInstruction? m = some i)
    (hc : callYieldable (host.reentry fuel) q.nargs q.wanted m = .done () m') :
    q.Answered captured m m' ∧ m'.Attends captured t n := by
  obtain ⟨ht, vs, hx⟩ := hm.called hh hc nofun
  exact hm.answered hi ht (hx.handed.returned (hm.frameCount ▸ hm.runs.inner) fun _ => rfl)

theorem pends (hc : callYieldable (host.reentry fuel) nargs wanted m = .raised .yield m')
    (held : List Value) : ∃ h o, o.site = .metamethod ∧ o.wanted = wanted ∧
      (Point.failing .yield { m' with held }).Pends t n h o (m.taken nargs) := by
  have hn : 1 < n := hm.frameCount ▸ hm.runs.inner
  obtain ⟨ht, hx | ⟨o, hs, hw, hx⟩⟩ := hm.called hh hc fun _ _ he => (Outcome.raised.inj he).1.symm
  · obtain ⟨⟨hi, hr⟩, hp⟩ := hx.abandoned hn fun _ => rfl
    exact ⟨_, ⟨none, [], .metamethod, wanted⟩, rfl, rfl, .inr ⟨_, rfl, ht,
      ⟨⟨hi.functions, hi.aliases, hi.frames⟩, hr⟩, hp⟩⟩
  · have ha : Aloft True t n m.thread.counts o (m.taken nargs) t true { m' with held } :=
      Condition.Neat.heap m' _ rfl rfl List.prefix_rfl rfl hx.kept
    exact ⟨_, o, hs, hw, .inl ⟨ht, ha.shelter fun _ => rfl⟩⟩

end Call

end Machine.Attends

theorem Host.replies {host : Host} (hh : host.Honest) (fuel : Nat) :
    (host.reentry fuel).Replies captured (Machine.Attends captured t n) where
  touches hm h := hm.touches h
  answers hm _ hi hc := hm.finishes hh hi hc

/-- The metamethod of a question comes to its end, be it at once or after yields. -/
inductive Host.Answers (host : Host) (q : Question) (m : Machine) : Machine → Prop
  | direct {fuel : Nat} {m' : Machine} :
      callYieldable (host.reentry fuel) q.nargs q.wanted m = .done () m' →
      host.Answers q m { m' with held := q.held }
  | later {fuel stop fuel' stop' : Nat} {y m' : Machine} :
      callYieldable (host.reentry fuel) q.nargs q.wanted m = .raised .yield y →
      host.Descends m.frameCount .metamethod m' fuel stop (.failing .yield { y with held := q.held })
        fuel' stop' →
      host.Answers q m m'

theorem Host.Answers.ofDescends {host : Host} {fuel stop fuel' stop' : Nat} {y : Machine}
    (hc : callYieldable (host.reentry fuel) q.nargs q.wanted m = .raised .yield y)
    (hn : m.frameCount = n)
    (hd : host.Descends n .metamethod m' fuel stop (.failing .yield { y with held := q.held })
      fuel' stop') : host.Answers q m m' := by
  subst hn
  exact .later hc hd

theorem Machine.Attends.replied {host : Host} (hh : host.Honest) (hm : m.Attends captured t n)
    (hi : currentInstruction? m = some i) (ha : host.Answers q m m') :
    q.Answered captured m m' ∧ m'.Attends captured t n := by
  cases ha with
  | @direct fuel m' hc =>
    obtain ⟨ha, hm'⟩ := hm.finishes hh hi hc
    exact ⟨⟨ha.1, ha.2, ha.3, ha.4⟩, hm'.touches ⟨id, q.held, by rw [modifyTop_id]⟩⟩
  | later hc hd =>
    obtain ⟨h, o, -, hw, hp⟩ := hm.pends hh hc q.held
    rw [hm.frameCount] at hd
    obtain ⟨-, hr, vs, hx⟩ := hd.returned hh (hm.frameCount ▸ hm.runs.inner) hp
    exact hm.answered hi hr (hw ▸ hx)

theorem Dialogue.answered {host : Host} (hh : host.Honest) {x y : Outcome (Option Question)}
    {answers : List Machine} (hd : Dialogue host.Answers x answers y) (hm : m₀.Attends captured t n)
    (hx : x.Inquires i e k h m₀) (he : i.extension? = some e) :
    Dialogue (·.Answered captured) x answers y := by
  induction hd generalizing k h m₀ with
  | refl x => exact .refl x
  | step hq _ ih =>
    obtain ⟨ha, hm'⟩ := (hm.touches hx.touches).replied hh hx.current hq
    exact .step ha (ih hm' (ha.inquires hx he))

def Point.Waits (n : Nat) : Point → Prop
  | .running m => n < m.frameCount
  | .delivering _ _ => False
  | .failing e _ => e = .yield

/-- From a point that an instruction of the frame on top of `n` has come to, the loop gets to where
the instruction is done. As often as it has to wait, the results of what it has called are handed over
to it. -/
inductive Host.Completes (host : Host) (n : Nat) (m : Machine) : (fuel stop : Nat) → Point → Prop
  | done {fuel stop : Nat} : m.frameCount = n → host.Completes n m fuel stop (.running m)
  | waited {fuel stop fuel' stop' : Nat} {p q : Point} {site : CallSite} {m' : Machine} :
      p.Waits n → host.Descends n site m' fuel stop p fuel' stop' →
      Point.Moves (host.reentry fuel') stop' (.delivering site m') q →
      host.Completes n m fuel' stop' q → host.Completes n m fuel stop p

theorem Dialogue.mono {R R' : Question → Machine → Machine → Prop}
    {x y : Outcome (Option Question)} {answers : List Machine}
    (hR : ∀ q m m', R q m m' → R' q m m') (hd : Dialogue R x answers y) :
    Dialogue R' x answers y := by
  induction hd with
  | refl x => exact .refl x
  | step h _ ih => exact .step (hR _ _ _ h) ih

theorem Dialogue.trans {R : Question → Machine → Machine → Prop}
    {x y z : Outcome (Option Question)} {answers answers' : List Machine}
    (hd : Dialogue R x answers y) (hd' : Dialogue R y answers' z) :
    Dialogue R x (answers ++ answers') z := by
  induction hd with
  | refl x => exact hd'
  | step h _ ih => exact .step h (ih hd')

structure Machine.Between (t : ThreadId) (n : Nat) (m : Machine) : Prop where
  runs : m.Runs
  running : m.running = t
  frameCount : m.frameCount = n
  negated : m.frame.negated = false

theorem Machine.Concluded.between (h : m₀.Concluded m) (hm : m₀.Attends captured t n) :
    m.Between t n := by
  obtain ⟨hr, ⟨g, ht⟩, hn⟩ := h
  have hx := hm.touches (.modifyTop m₀ g)
  have hth : m.thread = (m₀.modifyTop m₀.running g).thread := by
    unfold Machine.thread threadAt
    rw [hr, ht]
    rfl
  refine ⟨⟨?_, ?_, ?_, ?_, ?_⟩, hr.trans hm.running, ?_, hn⟩
  · rw [hr, ht]
    exact hx.runs.there
  · rw [hth]
    exact hx.runs.parked
  · rw [hth]
    exact hx.runs.status
  · rw [hth]
    exact hx.runs.pending
  · rw [Machine.frameCount, hth]
    exact hx.runs.inner
  · rw [Machine.frameCount, hth]
    exact hx.frameCount

theorem Reentry.Answers.host {host : Host} {fuel : Nat}
    (ha : (host.reentry fuel).Answers captured q m m') : host.Answers q m m' := by
  obtain ⟨m'', hc, rfl, -⟩ := ha
  exact .direct hc

/-- The instruction is done after a dialogue. In part its answers come at once, and in part after
yields. -/
theorem Host.Completes.dialogue {host : Host} (hh : host.Honest) (hn : 1 < n) {fuel stop : Nat}
    {p : Point} (hc : host.Completes n m fuel stop p) {x : Outcome (Option Question)}
    {o : Outcome (Option CallSite)} (hf : (host.reentry fuel).Follows x o) (hp : o.point? = some p)
    (hm : m₀.Attends captured t n) (hx : x.Inquires i e k h m₀) (he : i.extension? = some e) :
    ∃ answers, Dialogue host.Answers x answers (.done none m) ∧ m.Between t n := by
  -- on how often the thread has to wait; between two waits the answers come at once
  induction hc generalizing x o k h m₀ with
  | @done fuel stop hs =>
    obtain ⟨answers, y, k', h', m₁, hd, hst, hm₁, hy⟩ := hf.dialogue (Host.replies hh fuel) he hm hx
    cases hst with
    | done m' =>
      cases hp
      exact ⟨answers, hd.mono fun _ _ _ ha => ha.host, hy.between hm₁⟩
    | yields | fails | exhausted => cases hp
  | @waited fuel stop fuel' stop' p q site m' hw hd hq _ ih =>
    obtain ⟨answers, y, k', h', m₁, hdia, hst, hm₁, hy⟩ := hf.dialogue (Host.replies hh fuel) he hm hx
    cases hst with
    | done m' =>
      cases hp
      exact absurd hw (Nat.not_lt.mpr (Nat.le_of_eq (hy.between hm₁).frameCount))
    | fails hne =>
      cases hp
      exact absurd hw hne
    | exhausted => cases hp
    | @yields q' m₂ m₃ hcall =>
      cases hp
      have hm₂ := hm₁.touches hy.touches
      obtain ⟨_, o', hs, -, hpends⟩ := hm₂.pends hh hcall q'.held
      obtain ⟨hsite, -⟩ := hd.returned hh hn hpends
      obtain rfl : site = .metamethod := hsite.trans hs
      have hreply : host.Answers q' m₂ m' := .ofDescends hcall hm₂.frameCount hd
      obtain ⟨ha, hm'⟩ := hm₂.replied hh hy.current hreply
      have hi := ha.regained.current.trans hy.current
      have hq : (accept (host.reentry fuel') .metamethod m').point? = some q := by
        change (if _ then none else _) = _ at hq
        split at hq
        · cases hq
        · exact hq
      obtain ⟨answers', hd', hm⟩ := ih (follows_accept _ hm'.runs.inner hi he) hq hm' (ha.inquires hy he)
      exact ⟨_, (hdia.mono fun _ _ _ ha => ha.host).trans (.step hreply hd'), hm⟩

end LuaMachine
