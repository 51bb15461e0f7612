import LuaMachine.Proofs.OpenList.Instruction
import LuaMachine.Proofs.Resume
import LuaMachine.Proofs.Shelter.Loop

namespace LuaMachine

open Machine Exec Relation

namespace Machine

/-- Registers of the running frame that no open upvalue aliases hold what they held before. -/
structure Preserves (m : Machine) (regs regs' : List Value) : Prop where
  length : regs'.length = regs.length
  registers : ∀ s, ¬m.Aliased m.running (m.frameCount - 1) s → regs'[s]? = regs[s]?

def Arrived (m₀ : Machine) (regs vs : List Value) (m : Machine) : Prop :=
  m.running = m₀.running ∧ m.frameCount = m₀.frameCount ∧
    ∃ regs', m₀.Preserves regs regs' ∧ m.Holds regs.length (regs' ++ vs)

end Machine

variable {honest : Prop} {t : ThreadId} {n h : Nat} {o : Origin} {m₀ m : Machine} {re : Reentry}
  {regs vs : List Value} {wanted : Int}

theorem Exposed.holds {y : Prop} (hm : Exposed honest t n h m₀ y m) (h₀ : m₀.Holds regs.length regs)
    (ht₀ : m₀.running = t) (hn : m₀.frameCount = n) (ht : m.running = t) :
    ∃ regs', m₀.Preserves regs regs' ∧ m.Holds regs.length regs' := by
  have hmany := hm.ready.many
  obtain ⟨k, hk⟩ : ∃ k, n = k + 1 := ⟨n - 1, by omega⟩
  have hf₀ : (m₀.threadAt t).frames[k]? = some m₀.frame := by
    subst ht₀
    exact getElem?_top (hn.trans hk)
  obtain ⟨g, hg, hkept⟩ := hm.intact.frames k (by omega) m₀.frame hf₀
  have hgm : m.frame = g := by
    have hs := getElem?_top (t := t) (hm.ready.size.trans hk)
    rw [hg] at hs
    subst ht
    exact (Option.some.inj hs).symm
  have hfun : g.function = m₀.frame.function :=
    (congrArg Frame.function hkept.1 : g.control.function = m₀.frame.control.function)
  have hproto : m.prototypeOf g = m₀.prototypeOf m₀.frame := by
    unfold prototypeOf functionOf
    rw [hfun]
    cases hf : m₀.frame.function with
    | none => rfl
    | some f => rw [Option.map_some, Option.map_some, (hm.intact.functionAt (h₀.known f hf)).2]
  refine ⟨g.values, ⟨?_, fun s hs => ?_⟩, ?_, fun f hf => ?_, ?_, by rw [hgm]⟩
  · rw [Frame.length_values, hkept.top_eq, h₀.top]
  · rw [ht₀, hn, hk, Nat.add_sub_cancel] at hs
    rw [← h₀.values, hkept.getElem?_values hs]
  · rw [hm.frameCount ht]
    exact hmany
  · rw [hgm, hfun] at hf
    exact (hm.intact.functionAt (h₀.known f hf)).1
  · rw [registerCount, Machine.prototype, hgm, hproto]
    exact h₀.registers

theorem Returned.arrived (hm : Returned honest t n h vs wanted m₀ m)
    (h₀ : m₀.Holds regs.length regs) (ht₀ : m₀.running = t) (hn : m₀.frameCount = n)
    (ht : m.running = t) : m₀.Arrived regs (adjust vs wanted) m := by
  have hc := hm.frameCount ht
  obtain ⟨m', rfl, hx⟩ := hm
  obtain ⟨regs', hp, hr⟩ := hx.holds h₀ ht₀ hn ht
  change m'.running = t at ht
  subst ht
  exact ⟨ht₀.symm, hc.trans hn.symm, regs', hp, hr.modifyTop rfl (by
    rw [Frame.values_pushAll, hr.values])⟩

theorem Shelter.origin_top (hm : Shelter honest t n h o m₀ t false m) (ht : m.running = t)
    (hs : m.frameCount = n + 1) : m.frame.origin = o := by
  have ho := hm.origin
  subst ht
  rw [getElem?_top hs] at ho
  exact Option.some.inj ho

theorem Aloft.handed_left {c : Counts} (hm : Aloft honest t n c o m₀ t false m)
    (ht : m.running = t) (hs : m.frameCount = n + 1) {us : Array Upvalue}
    (hu : Upvalue.Closes m.upvalues us) : Handed honest t n c vs o.wanted m₀ (m.left us vs) := by
  have hw : m.frame.wanted = o.wanted := congrArg Origin.wanted (hm.kept.origin_top ht hs)
  refine ⟨m.cut t n us, ?_, (hm.landed hu).congr (by simp)⟩
  rw [left, hw, ht, hs, Nat.add_sub_cancel]

theorem Shelter.returned_left (hm : Shelter honest t n h o m₀ t false m) (hn : 1 < n)
    (ht : m.running = t) (hs : m.frameCount = n + 1) {us : Array Upvalue}
    (hu : Upvalue.Closes m.upvalues us) : Returned honest t n h vs o.wanted m₀ (m.left us vs) :=
  (hm.aloft.handed_left ht hs hu).returned hn fun hh => (hm.calm hh).1

def Point.Climbs (re : Reentry) (n stop : Nat) (p q : Point) : Prop :=
  p.Higher n stop ∧ Point.Moves re stop p q

theorem Point.Above.climbs {stop : Nat} {p q : Point} (hp : p.Above honest t n h o m₀)
    (hre : re.Shelters honest t) (hn : 1 < n)
    (hw : ReflTransGen (Point.Climbs re n stop) p q) : q.Above honest t n h o m₀ := by
  induction hw with
  | refl => exact hp
  | tail _ hq ih => exact Shelter.move_above hre hn ih hq.1 hq.2

theorem Point.Above.returned {stop : Nat} {p : Point} {site : CallSite}
    (hp : p.Above honest t n h o m₀) (hre : re.Shelters honest t) (hn : 1 < n)
    (hw : ReflTransGen (Point.Climbs re n stop) p (.delivering site m)) (hs : m.frameCount = n) :
    site = o.site ∧ m.running = t ∧ ∃ vs, Returned honest t n h vs o.wanted m₀ m := by
  have ha := hp.climbs hre hn hw
  obtain ⟨-, hm⟩ | ⟨hsite, hr⟩ := ha.2
  · exact absurd (hm.lt_frameCount ha.1) (by omega)
  · exact ⟨hsite, ha.1, hr⟩

def Machine.callClosed (m : Machine) : Machine :=
  { m with threads := m.threads.modify m.running.index fun th => { th with pending := none } }

theorem Machine.frame_callClosed {m : Machine} (h : 1 < m.frameCount) : m.callClosed.frame = m.frame := by
  change (Array.back? (m.callClosed.threadAt m.running).frames).getD default = m.frameAt m.running
  rw [callClosed, m.threadAt_modify_self h]
  rfl

theorem Machine.frameCount_callClosed {m : Machine} (h : 1 < m.frameCount) :
    m.callClosed.frameCount = m.frameCount := by
  change (m.callClosed.threadAt m.running).frames.size = _
  rw [callClosed, m.threadAt_modify_self h]
  rfl

/-- The values of a resume are the results of the call that a yield has left open; what else is
above the registers goes away. -/
theorem continueCall_holds (re : Reentry) {p : PendingCall} {rest args : List Value}
    (hp : m.thread.pending = some p) (hb : p.base = regs.length)
    (hm : m.Holds n (regs ++ rest ++ args)) :
    ∃ m', continueCall re args.length m = re.dispatch 1 (some p.site) m' ∧
      m.callClosed.Restacked m' ∧ m'.Holds n (regs ++ adjust args p.wanted) := by
  have hm₁ := hm.modifyThread (g := fun th => { th with pending := none }) fun _ => rfl
  obtain ⟨m₂, h₂, hr₂, hm₂⟩ := Rearranges.popMany args _ hm₁
  obtain ⟨m₃, h₃, hr₃, hm₃⟩ := Rearranges.setTop rest m₂ hm₂
  obtain ⟨m₄, h₄, hr₄, hm₄⟩ := Rearranges.pushAll (adjust args p.wanted) m₃ hm₃
  refine ⟨m₄, ?_, hr₂.trans (hr₃.trans hr₄), hm₄⟩
  rw [continueCall, run_bind, run_readThread, Outcome.andThen_done, hp]
  dsimp only
  rw [run_bind, run_modifyThread, Outcome.andThen_done, run_bind, h₂, Outcome.andThen_done, run_bind,
    hb, h₃, Outcome.andThen_done, run_bind]
  change (pushAll (adjust args p.wanted) m₃).andThen _ = _
  rw [h₄]
  rfl

end LuaMachine
