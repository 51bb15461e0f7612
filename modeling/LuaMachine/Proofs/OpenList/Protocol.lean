import LuaMachine.Proofs.OpenList.Forward
import LuaMachine.Proofs.Unwinding.Boundary

namespace LuaMachine

open Machine Exec Relation

structure Frame.Begins (f : Frame) (p : Prototype) (args : List Value) (wanted : Int)
    (site : CallSite) : Prop where
  top : f.top = p.registers
  pc : f.pc = 0
  parameters : ∀ j < p.parameters, f.slot j = args[j]?.getD .nil
  registers : ∀ j, p.parameters ≤ j → f.slot j = .nil
  varargs : f.varargs = if p.variadic then args.drop p.parameters else []
  wanted : f.wanted = wanted
  site : f.site = site

/-- A call instruction finds its function and the arguments in registers, or an open list has the last
arguments. -/
inductive Machine.Calls (m : Machine) (i : Instruction) (regs : List Value) (callee : Value)
    (args : List Value) : Prop where
  | fixed (holds : m.Holds regs.length regs) (count : i.b = args.length + 1)
      (inside : i.a + args.length < regs.length)
      (found : registersBetween regs i.a (i.a + args.length + 1) = callee :: args)
  | listed {p : Instruction} {vs : List Value} (offers : m.Offers p.a regs vs) (count : i.b = 0)
      (before : i.a < p.a) (inside : p.a ≤ regs.length)
      (found : registersBetween regs i.a p.a ++ vs = callee :: args)

structure Machine.Affords (m : Machine) (f : FunctionId) (p : Prototype) : Prop where
  body : (m.functionAt f).body = .bytecode p
  parameters : p.parameters ≤ p.registers
  depth : m.frameCount ≤ m.limits.callDepth
  stack : p.registers + spareSlots ≤ m.limits.stackSize

structure Instruction.Returns (i : Instruction) (k : Nat) : Prop where
  opcode : i.opcode? = some .return
  count : i.b = k + 1

namespace Frame

variable {p : Prototype} {args : List Value}

theorem getD_adjust (vs : List Value) (n j : Nat) :
    ((adjust vs (n : Int))[j]?).getD .nil = if j < n then vs[j]?.getD .nil else .nil := by
  rw [adjust, if_neg (by omega), Int.toNat_natCast, List.getElem?_append, List.length_take,
    List.getElem?_take]
  by_cases hj : j < n
  · by_cases hv : j < vs.length
    · rw [if_pos (by omega), if_pos hj, if_pos hj]
    · rw [if_neg (by omega), if_pos hj, List.getElem?_eq_none (Nat.le_of_not_lt hv),
        List.getElem?_replicate]
      split <;> rfl
  · have hm : ¬j < min n vs.length := by omega
    rw [if_neg hm, if_neg hj, List.getElem?_eq_none (by rw [List.length_replicate]; omega)]
    rfl

theorem begins_bytecodeFrame (h : p.parameters ≤ p.registers) (f : FunctionId) (args : List Value)
    (wanted : Int) (site : CallSite) :
    (bytecodeFrame f p args wanted site).Begins p args wanted site := by
  have hs (j : Nat) : (bytecodeFrame f p args wanted site).slot j =
      if j < p.parameters then args[j]?.getD .nil else .nil := by
    change Array.getD _ j Value.nil = _
    rw [Array.getD_eq_getD_getElem?, ← Array.getElem?_toList, bytecodeFrame, getD_adjust,
      getD_adjust]
    by_cases hj : j < p.parameters
    · rw [if_pos hj, if_pos (by omega)]
    · rw [if_neg hj, ite_self]
  exact ⟨rfl, rfl, fun j hj => by rw [hs, if_pos hj], fun j hj => by rw [hs, if_neg (by omega)],
    rfl, rfl, rfl⟩

end Frame

namespace Machine

variable {m m₁ : Machine} {i : Instruction} {regs args : List Value} {f : FunctionId}
  {p : Prototype} {stop : Nat}

theorem Enters.inner (h : m.Enters stop none) : 1 < m.frameCount :=
  Nat.lt_of_le_of_lt h.positive h.above

theorem holds_of_fetch (hf : fetch m = .done i m₁) (hi : 1 < m.frameCount) :
    m.Holds (registerCount m) m.frame.values := by
  refine ⟨hi, fun f hfun => Nat.not_le.mp fun hn => ?_, rfl, rfl⟩
  have hp : m.prototype = none := by
    unfold prototype prototypeOf functionOf
    rw [hfun, Option.map_some, functionAt_of_le hn]
    rfl
  rw [fetch_eq, hp] at hf
  cases hf

theorem frame_left {g : Frame} {k : Nat} (hs : m.frameCount = k + 2) (hk : 0 < k)
    (hg : m.thread.frames[k]? = some g) (us : Array Upvalue) (vs : List Value) :
    (m.left us vs).frame = g.pushAll (adjust vs m.frame.wanted) ∧
      (m.left us vs).frameCount = k + 1 := by
  have hone : 1 < (m.threadAt m.running).frames.size := by
    change 1 < m.frameCount
    omega
  have hc : ((m.cut m.running (k + 1) us).threadAt m.running).frames.size = k + 1 := by
    rw [threadAt_cut hone, size_take]
    change min (k + 1) m.frameCount = k + 1
    omega
  have hl : m.left us vs = (m.cut m.running (k + 1) us).modifyTop m.running
      (·.pushAll (adjust vs m.frame.wanted)) := by
    rw [left, hs]
    rfl
  have hf : (m.cut m.running (k + 1) us).frameAt m.running = g := by
    rw [frameAt_cut hone (by change k < m.frameCount; omega)]
    change (m.thread.frames[k]?).getD default = g
    rw [hg]
    rfl
  rw [hl]
  refine ⟨?_, (size_modifyTop ..).trans hc⟩
  have ht := frameAt_modifyTop_self (m := m.cut m.running (k + 1) us) (t := m.running)
    (by rw [hc]; omega) (·.pushAll (adjust vs m.frame.wanted))
  rw [hf] at ht
  exact ht

end Machine

namespace Exec

theorem fetch_done {m m₁ : Machine} {i : Instruction} (hf : fetch m = .done i m₁) :
    m₁ = m.modifyTop m.running fun f => { f with pc := m.frame.pc + 1 } := by
  rw [fetch_eq] at hf
  split at hf
  · exact (Outcome.done.inj hf).2.symm
  · cases hf

variable {re : Reentry} {m m₁ : Machine} {i j : Instruction} {regs args : List Value}
  {f : FunctionId} {p : Prototype} {stop a c k : Nat} {g : Frame}

theorem frame_left_fetched (hs : m.frameCount = k + 2) (hk : 0 < k)
    (hg : m.thread.frames[k]? = some g) (hf : fetch m = .done i m₁) (us : Array Upvalue)
    (vs : List Value) : (m₁.left us vs).frame = g.pushAll (adjust vs m.frame.wanted) ∧
      (m₁.left us vs).frameCount = k + 1 := by
  have hone : 1 < (m.threadAt m.running).frames.size := by
    change 1 < m.frameCount
    omega
  obtain rfl := fetch_done hf
  have hframe := frameAt_modifyTop_self hone fun f => { f with pc := m.frame.pc + 1 }
  have hbelow : (m.modifyTop m.running fun f => { f with pc := m.frame.pc + 1 }).thread.frames[k]? =
      some g := by
    have hth : (m.modifyTop m.running fun f => { f with pc := m.frame.pc + 1 }).thread = _ :=
      m.threadAt_modifyTop hone _
    have hsize : (m.threadAt m.running).frames.size = k + 2 := hs
    rw [hth]
    change (modifyFrames ((m.threadAt m.running).frames.size - 1) _ _)[k]? = _
    rw [hsize, modifyFrames, Array.getElem?_modify, if_neg (by omega)]
    exact hg
  obtain ⟨hfl, hcl⟩ := frame_left ((size_modifyTop ..).trans hs) hk hbelow us vs
  have hwanted : (m.modifyTop m.running fun f => { f with pc := m.frame.pc + 1 }).frame.wanted =
      _ := congrArg Frame.wanted hframe
  rw [hwanted] at hfl
  exact ⟨hfl, hcl⟩

theorem callValue_function (re : Reentry) (h : m.Affords f p) (args : List Value) (wanted : Int)
    (site : CallSite) : callValue re (.function f) args wanted site m =
      .done true (m.enterFrame m.running (bytecodeFrame f p args wanted site)) := by
  have hc : callTarget chainLimit (.function f) args = pure (f, args) := rfl
  rw [callValue, hc, pure_bind, launch_eq, if_neg (Nat.not_lt.mpr h.depth), h.body]
  dsimp only
  rw [if_neg (Nat.not_lt.mpr h.stack)]
  rfl

theorem execute_calls (re : Reentry) (h : m.Calls i regs (.function f) args)
    (hf : fetch m = .done i m₁) (ho : i.opcode? = some .call) (ha : m.Affords f p) :
    ∃ m₀ : Machine, m₁.Restacked m₀ ∧ m₀.Holds regs.length regs ∧
      execute re m = .done none
        (m₀.enterFrame m₀.running (bytecodeFrame f p args (i.c - 1) (.call i.a i.c))) := by
  have hc : i.resultCount? = some i.c := by rw [Instruction.resultCount?, ho]
  obtain ⟨m₀, he, hr, hm₀⟩ : ∃ m₀, execute re m = (do
      makeCall re i.a i.c (.function f) args
      return none : Exec _) m₀ ∧ m₁.Restacked m₀ ∧ m₀.Holds regs.length regs := by
    cases h with
    | fixed hm hb hi hv => exact execute_fixedCall hm hf hc hb hi hv
    | @listed q vs hm hb hab hi hv => exact execute_openCall hm hf hc hb hab hi q.a_lt hv
  obtain rfl := fetch_done hf
  have ha₀ : m₀.Affords f p := by
    have hn := hr.frameCount
    rw [show (m.modifyTop m.running _).frameCount = m.frameCount from size_modifyTop ..] at hn
    obtain ⟨q, -, rfl⟩ := hr
    exact ⟨ha.body, ha.parameters, hn ▸ ha.depth, ha.stack⟩
  refine ⟨m₀, hr, hm₀, ?_⟩
  rw [he, run_bind, makeCall, run_bind, callValue_function re ha₀]
  rfl

end Exec

/-- How bytecode functions call each other, in a loop above `stop` frames. -/
structure Host.PassesValues (host : Host) : Prop where
  /-- Wherever a loop comes to an instruction, it could have begun there. -/
  reached : ∀ {fuel stop : Nat} {site : Option CallSite} {m₀ m : Machine}, m₀.Enters stop site →
    ReflTransGen (Point.Moves (host.reentry fuel) stop) (.start m₀ site) (.running m) →
    m.running = m₀.running ∧ m.Enters stop none
  begins : ∀ {fuel : Nat} {m : Machine} {f : FunctionId} {p : Prototype} (args : List Value)
      (wanted : Int) (site : CallSite), m.Affords f p →
    ∃ g : Frame, g.Begins p args wanted site ∧
      callValue (host.reentry fuel) (.function f) args wanted site m =
        .done true (m.enterFrame m.running g)
  called : ∀ {fuel stop : Nat} {m m₁ : Machine} {i : Instruction} {regs args : List Value}
      {f : FunctionId} {p : Prototype}, m.Enters stop none → m.Calls i regs (.function f) args →
    fetch m = .done i m₁ → i.opcode? = some .call → m.Affords f p →
    ∃ m₀ : Machine, m₁.Restacked m₀ ∧ m₀.Holds regs.length regs ∧
      ∃ g : Frame, g.Begins p args (i.c - 1) (.call i.a i.c) ∧
        Point.Moves (host.reentry fuel) stop (.running m) (.running (m₀.enterFrame m₀.running g))
  kept : ∀ {fuel stop n : Nat} {site : Option CallSite} {m₀ : Machine} {p q : Point},
    m₀.Enters stop site →
    ReflTransGen (Point.Moves (host.reentry fuel) stop) (.start m₀ site) p →
    ReflTransGen (Point.Climbs (host.reentry fuel) n stop) p q → q.Higher n stop →
    Intact m₀.running n p.machine q.machine
  /-- A return ends the frame on top. The one below it is what it has been, except for the registers
  that take the results. -/
  returned : ∀ {fuel stop a c k : Nat} {m m₁ : Machine} {j : Instruction} {g : Frame},
    m.Enters stop none → stop + 1 < m.frameCount → m.thread.frames[m.frameCount - 2]? = some g →
    (∀ f, g.function = some f → f.index < m.functions.size) → fetch m = .done j m₁ → j.Returns k →
    j.a + k ≤ m.frame.top → m.frame.site = .call a (c + 1) → m.frame.wanted = c → a + c ≤ g.top →
    ∃ m', ReflTransGen (Point.Moves (host.reentry fuel) stop) (.running m) (.running m') ∧
      m'.running = m.running ∧ m'.frameCount + 1 = m.frameCount ∧ m'.frame.control = g.control ∧
      m'.frame.values =
        overwrite g.values a (adjust (registersBetween m.frame.values j.a (j.a + k)) c)
  /-- From a call to the return that ends it: registers that have not been captured are unchanged,
  except for those that take the results. -/
  completed : ∀ {fuel stop c k : Nat} {m m₁ : Machine} {i : Instruction} {regs args : List Value}
      {f : FunctionId} {p : Prototype}, m.Enters stop none → m.Calls i regs (.function f) args →
    fetch m = .done i m₁ → i.opcode? = some .call → i.c = c + 1 → i.a + c ≤ regs.length →
    m.Affords f p →
    ∃ m₂, Point.Moves (host.reentry fuel) stop (.running m) (.running m₂) ∧
      m₂.running = m.running ∧ m₂.frameCount = m.frameCount + 1 ∧
      m₂.frame.Begins p args c (.call i.a i.c) ∧
      ∀ {m₃ m₄ : Machine} {j : Instruction},
        ReflTransGen (Point.Climbs (host.reentry fuel) m.frameCount stop) (.running m₂)
          (.running m₃) →
        m₃.frameCount = m.frameCount + 1 → fetch m₃ = .done j m₄ → j.Returns k →
        j.a + k ≤ m₃.frame.top →
        ∃ m' regs',
          ReflTransGen (Point.Moves (host.reentry fuel) stop) (.running m₃) (.running m') ∧
          m'.running = m.running ∧ m'.frameCount = m.frameCount ∧
          m'.frame.control = { m.frame.control with pc := m.frame.pc + 1, top := regs.length } ∧
          m.Preserves regs regs' ∧
          m'.frame.values = overwrite regs' i.a
            (adjust (registersBetween m₃.frame.values j.a (j.a + k)) c)

namespace Host

variable {host : Host} {fuel stop a c k : Nat} {m m₁ : Machine} {j : Instruction} {g : Frame}

theorem moves_return (hm : m.Enters stop none) (hs : stop + 1 < m.frameCount)
    (hg : m.thread.frames[m.frameCount - 2]? = some g)
    (hk : ∀ f, g.function = some f → f.index < m.functions.size) (hf : fetch m = .done j m₁)
    (hj : j.Returns k) (ht : j.a + k ≤ m.frame.top) (hsite : m.frame.site = .call a (c + 1))
    (hw : m.frame.wanted = c) (hc : a + c ≤ g.top) :
    ∃ m', ReflTransGen (Point.Moves (host.reentry fuel) stop) (.running m) (.running m') ∧
      m'.running = m.running ∧ m'.frameCount + 1 = m.frameCount ∧ m'.frame.control = g.control ∧
      m'.frame.values =
        overwrite g.values a (adjust (registersBetween m.frame.values j.a (j.a + k)) c) := by
  have hp := hm.positive
  obtain ⟨n, hn⟩ : ∃ n, m.frameCount = n + 2 := ⟨m.frameCount - 2, by omega⟩
  rw [hn, Nat.add_sub_cancel] at hg
  have hone := hm.inner
  obtain ⟨us, -, he⟩ : ∃ us, Upvalue.Closes m₁.upvalues us ∧ execute (host.reentry fuel) m =
      .done (some m.frame.site) (m₁.left us (registersBetween m.frame.values j.a (j.a + k))) :=
    execute_fixedReturn (holds_of_fetch hf hone) hf hj.opcode hj.count (by rwa [Frame.length_values])
  generalize registersBetween m.frame.values j.a (j.a + k) = vs at he ⊢
  obtain ⟨hfl, hcl⟩ := frame_left_fetched hn (by omega) hg hf us vs
  rw [hw] at hfl
  obtain rfl := fetch_done hf
  generalize hl : (m.modifyTop m.running fun f => { f with pc := m.frame.pc + 1 }).left us vs = m₂
    at he hfl hcl
  have hrun : m₂.running = m.running := hl ▸ rfl
  have hfun : m₂.functions = m.functions := hl ▸ rfl
  have hlen := length_adjust vs c
  have hm₂ : m₂.Holds (registerCount m₂) (g.values ++ adjust vs c) :=
    ⟨by omega, fun f hf => by rw [hfun]; exact hk f (by rwa [hfl] at hf), rfl,
      by rw [hfl, Frame.values_pushAll]⟩
  obtain ⟨m', ha, hr, hm'⟩ := accept_fixed (host.reentry fuel) (a := a) hm₂
    (by rw [hlen, Frame.length_values]; exact hc)
  have hx : Point.Moves (host.reentry fuel) stop (.running m) (.delivering (.call a (c + 1)) m₂) := by
    change (execute (host.reentry fuel) m).point? = _
    rw [he, hsite]
    rfl
  have hy : Point.Moves (host.reentry fuel) stop (.delivering (.call a (c + 1)) m₂)
      (.running m') := by
    change (if m₂.frameCount ≤ stop ∨ CallSite.call a (c + 1) = .host then none
      else (accept (host.reentry fuel) (.call a (c + 1)) m₂).point?) = _
    rw [hlen] at ha
    rw [if_neg (by simp; omega), ha]
    rfl
  refine ⟨m', .tail (.single hx) hy, hr.running.trans hrun, ?_, ?_, hm'.values⟩
  · rw [hr.frameCount, hcl, hn]
  · rw [hr.control (by omega), hfl, hm'.top, length_overwrite (by
      rw [hlen, Frame.length_values]; exact hc), Frame.length_values]
    rfl

end Host

theorem Point.Stays.enters {honest : Prop} {t : ThreadId} {stop : Nat} {c : Counts} {m : Machine}
    (hp : (Point.running m).Stays honest t stop c) (hs : 0 < stop) : m.Enters stop none := by
  obtain ⟨rfl, ha, hl⟩ := hp
  exact ⟨hs, hl.there, hl.parked, hl.status, ha⟩

section Completed

variable {host : Host} {fuel stop k : Nat} {m m₀ m₁ m₃ m₄ : Machine} {i j : Instruction}
  {regs args : List Value} {f : FunctionId} {p : Prototype} {g : Frame}

theorem Machine.Enters.shelter (hm : m.Enters stop none) (hf : fetch m = .done i m₁)
    (hr : m₁.Restacked m₀) (g : Frame) : Shelter False m.running m.frameCount
      m.thread.hostCalls g.origin m₀ m.running false (m₀.enterFrame m₀.running g) := by
  have hl : Landed False m.running m.frameCount m.thread.counts m False m :=
    (hm.stays False.elim).2.2
  obtain rfl := fetch_done hf
  obtain ⟨q, -, rfl⟩ := hr
  exact (((hl.top _).top q).enterFrame g).kept

theorem Shelter.caller {t : ThreadId} {n h : Nat} {o : Origin} (hn : 1 < n)
    (hx : Shelter False t n h o m₀ t false m₃) (hm₀ : m₀.Holds k regs) (ht : m₀.running = t)
    (hc : m₀.frameCount = n) : ∃ g, (m₃.threadAt t).frames[n - 1]? = some g ∧
      m₀.frame.Kept (m₀.Aliased t (n - 1)) g ∧
      ∀ f, g.function = some f → f.index < m₃.functions.size := by
  subst ht
  have hf₀ : (m₀.threadAt m₀.running).frames[n - 1]? = some m₀.frame :=
    getElem?_top (hc.trans (Nat.sub_add_cancel (Nat.le_of_lt hn)).symm)
  obtain ⟨g, hg, hk⟩ := hx.intact.frames (n - 1) (by omega) _ hf₀
  refine ⟨g, hg, hk, fun f hf => ?_⟩
  have hfun : g.function = m₀.frame.function :=
    (congrArg Frame.function hk.1 : g.control.function = m₀.frame.control.function)
  exact (hx.intact.functionAt (hm₀.known f (hfun ▸ hf))).1

theorem Shelter.enters {t : ThreadId} {n h : Nat} {o : Origin} {honest : Prop}
    (hx : Shelter honest t n h o m₀ t false m) (ht : m.running = t) (hs : 0 < stop)
    (ha : stop < m.frameCount) : m.Enters stop none := by
  subst ht
  exact ⟨hs, hx.index_lt, hx.parked, hx.status, ha⟩

theorem Host.completes_call {c : Nat} (hm : m.Enters stop none)
    (hc : m.Calls i regs (.function f) args) (hf : fetch m = .done i m₁)
    (ho : i.opcode? = some .call) (hic : i.c = c + 1) (ha : i.a + c ≤ regs.length)
    (haff : m.Affords f p) :
    ∃ m₂, Point.Moves (host.reentry fuel) stop (.running m) (.running m₂) ∧
      m₂.running = m.running ∧ m₂.frameCount = m.frameCount + 1 ∧
      m₂.frame.Begins p args c (.call i.a i.c) ∧
      ∀ {m₃ m₄ : Machine} {j : Instruction},
        ReflTransGen (Point.Climbs (host.reentry fuel) m.frameCount stop) (.running m₂)
          (.running m₃) →
        m₃.frameCount = m.frameCount + 1 → fetch m₃ = .done j m₄ → j.Returns k →
        j.a + k ≤ m₃.frame.top →
        ∃ m' regs',
          ReflTransGen (Point.Moves (host.reentry fuel) stop) (.running m₃) (.running m') ∧
          m'.running = m.running ∧ m'.frameCount = m.frameCount ∧
          m'.frame.control = { m.frame.control with pc := m.frame.pc + 1, top := regs.length } ∧
          m.Preserves regs regs' ∧
          m'.frame.values = overwrite regs' i.a
            (adjust (registersBetween m₃.frame.values j.a (j.a + k)) c) := by
  obtain ⟨m₀, hr, hm₀, he⟩ := execute_calls (host.reentry fuel) hc hf ho haff
  have hw : ((i.c : Int) - 1) = c := by omega
  rw [hw] at he
  have hg := Frame.begins_bytecodeFrame haff.parameters f args c (.call i.a i.c)
  generalize bytecodeFrame f p args c (.call i.a i.c) = g at he hg
  have hx := hm.shelter hf hr g
  have hn₁ : 1 < m₁.frameCount := by
    rw [fetch_done hf]
    exact Nat.lt_of_lt_of_eq hm.inner (size_modifyTop ..).symm
  have ht₀ : m₀.running = m.running := by
    rw [hr.running, fetch_done hf]
    rfl
  have hn₀ : m₀.frameCount = m.frameCount := by
    rw [hr.frameCount, fetch_done hf]
    exact size_modifyTop ..
  have hal : ∀ t l s, m₀.Aliased t l s → m.Aliased t l s := by
    obtain rfl := fetch_done hf
    obtain ⟨q, -, rfl⟩ := hr
    exact fun _ _ _ h => h
  have htop : (m₀.enterFrame m₀.running g).frame = g := frame_enterFrame hm₀.inner g
  refine ⟨m₀.enterFrame m₀.running g, ?_, ht₀, ?_, ?_, ?_⟩
  · change (execute (host.reentry fuel) m).point? = _
    rw [he]
    rfl
  · rw [frameCount_enterFrame hm₀.inner, hn₀]
  · rw [htop]
    exact hg
  intro m₃ m₄ j hwalk hcount hj hret hk
  have hp : (Point.running (m₀.enterFrame m₀.running g)).Above False m.running m.frameCount
      m.thread.hostCalls g.origin m₀ := ⟨ht₀, hx⟩
  obtain ⟨ht₃, hx₃⟩ := hp.climbs (host.shelters False.elim m.running fuel) hm.inner hwalk
  obtain ⟨g₁, hg₁, hkept, hknown⟩ := hx₃.caller hm.inner hm₀ ht₀ hn₀
  have horigin := hx₃.origin_top ht₃ hcount
  have habove : stop < m.frameCount := hm.above
  have hregs : g₁.top = regs.length := hkept.top_eq.trans hm₀.top
  have hbelow : m₃.thread.frames[m₃.frameCount - 2]? = some g₁ := by
    rw [hcount, Machine.thread, ht₃]
    exact hg₁
  have hsite : m₃.frame.site = .call i.a (c + 1) := by
    rw [← hic, ← hg.site]
    exact congrArg Origin.site horigin
  have hwanted : m₃.frame.wanted = c := by
    rw [← hg.wanted]
    exact congrArg Origin.wanted horigin
  obtain ⟨m', hmoves, hr', hn', hcontrol, hvalues⟩ := moves_return
    (hx₃.enters ht₃ hm.positive (by omega)) (by omega) hbelow hknown hj hret hk hsite hwanted
    (by omega)
  refine ⟨m', g₁.values, hmoves, hr'.trans ht₃, by omega, ?_, ⟨?_, fun s hs => ?_⟩, hvalues⟩
  · rw [hcontrol, hkept.1, hr.control hn₁, frame_fetched hf hm.inner, hm₀.top]
    rfl
  · rw [Frame.length_values, hregs]
  · rw [← hm₀.values]
    exact hkept.getElem?_values fun h => hs (hal _ _ _ h)

end Completed

/-- Whatever else happens in between, calls take arguments and give results. -/
theorem Host.passesValues (host : Host) : host.PassesValues := by
  have hre (t : ThreadId) (fuel : Nat) : (host.reentry fuel).Shelters False t :=
    host.shelters False.elim t fuel
  constructor
  case reached =>
    intro fuel stop site m₀ m hm hw
    have hp := (hm.stays False.elim).walk (hre m₀.running fuel) hm.positive hw
    exact ⟨hp.1, hp.enters hm.positive⟩
  case begins =>
    intro fuel m f p args wanted site ha
    exact ⟨_, Frame.begins_bytecodeFrame ha.parameters f args wanted site,
      callValue_function _ ha args wanted site⟩
  case called =>
    intro fuel stop m m₁ i regs args f p hm hc hf ho ha
    obtain ⟨m₀, hr, hm₀, he⟩ := execute_calls (host.reentry fuel) hc hf ho ha
    refine ⟨m₀, hr, hm₀, _, Frame.begins_bytecodeFrame ha.parameters f args _ _, ?_⟩
    change (execute (host.reentry fuel) m).point? = _
    rw [he]
    rfl
  case kept =>
    intro fuel stop n site m₀ p q hm hw hc hn
    have hp := (hm.stays False.elim).walk (hre m₀.running fuel) hm.positive hw
    exact hp.intact (hre m₀.running fuel) hm.positive hc hn
  case returned =>
    intro fuel stop a c k m m₁ j g hm hs hg hk hf hj ht hsite hw hc
    exact moves_return hm hs hg hk hf hj ht hsite hw hc
  case completed =>
    intro fuel stop c k m m₁ i regs args f p hm hc hf ho hic ha haff
    exact completes_call hm hc hf ho hic ha haff

/-- A function calls one with a parameter and extra arguments, and wants three results of two. -/
def Machine.spreading : Machine :=
  { Machine.new {} with
    functions := #[
      { body := .bytecode { registers := 4, code := #[.ofABC .call 0 3 4] } },
      { body := .bytecode { parameters := 1, variadic := true, registers := 3,
                            code := #[.ofABC .return 0 3 0] } }]
    threads := #[{ isMain := true, parked := false, phase := .running, frames := #[{}, {
      window := #[.function ⟨1⟩, .int 7, .int 8, .int 9], top := 4, function := some ⟨0⟩ }] }] }

theorem Host.passesValues_spreading : ∃ m₂ m' : Machine,
    ReflTransGen (Point.Moves (({} : Host).reentry 1) 1) (.running Machine.spreading) (.running m₂) ∧
      m₂.frame.values = [.int 7, .nil, .nil] ∧ m₂.frame.varargs = [.int 8] ∧
      ReflTransGen (Point.Moves (({} : Host).reentry 1) 1) (.running m₂) (.running m') ∧
      m'.frame.values = [.int 7, .nil, .nil, .int 9] ∧ m'.frame.top = 4 ∧ m'.frame.pc = 1 := by
  have hp := ({} : Host).passesValues
  have hm : Machine.spreading.Enters 1 none := ⟨by decide, by decide, rfl, by decide, by decide⟩
  have hh : Machine.spreading.Holds [Value.function ⟨1⟩, .int 7, .int 8, .int 9].length
    [.function ⟨1⟩, .int 7, .int 8, .int 9] := ⟨by decide, by decide, rfl, rfl⟩
  have hc : Machine.spreading.Calls (.ofABC .call 0 3 4) [.function ⟨1⟩, .int 7, .int 8, .int 9]
      (.function ⟨1⟩) [.int 7, .int 8] := .fixed hh rfl (by decide) rfl
  have ha : Machine.spreading.Affords ⟨1⟩ _ := ⟨rfl, by decide, by decide, by decide⟩
  obtain ⟨m₂, h₂, hr₂, hn₂, hb, hk⟩ :=
    @hp.completed 1 1 3 2 _ _ _ _ _ _ _ hm hc rfl rfl rfl (by decide) ha
  obtain ⟨m, h, hv, m₄, hf⟩ : ∃ m, Point.Moves (({} : Host).reentry 1) 1 (.running Machine.spreading)
      (.running m) ∧ m.frame.values = [.int 7, .nil, .nil] ∧
      ∃ m₄, fetch m = .done (.ofABC .return 0 3 0) m₄ := ⟨_, rfl, rfl, _, rfl⟩
  obtain rfl : m = m₂ := Point.running.inj (Option.some.inj (h.symm.trans h₂))
  obtain ⟨m', regs', hw, -, -, hcontrol, hkept, hv'⟩ := hk .refl hn₂ hf ⟨rfl, rfl⟩ (by
    rw [hb.top]
    decide)
  refine ⟨m, m', .single h, hv, hb.varargs, hw, ?_, ?_, ?_⟩
  · have hd : regs'[3]? = some (.int 9) := hkept.registers 3 (by
      rintro ⟨u, hu⟩
      cases hu)
    have hl := hkept.length
    rw [hv', hv]
    match regs', hl, hd with
    | [_, _, _, _], _, hd =>
      cases hd
      rfl
  · exact (congrArg Frame.top hcontrol : m'.frame.control.top = _)
  · exact (congrArg Frame.pc hcontrol : m'.frame.control.pc = _)

end LuaMachine
