import LuaMachine.Proofs.Upvalue.Bytecode

namespace LuaMachine

open Machine

def Thread.Clears (bytecode : Frame → Prop) (th th' : Thread) : Prop :=
  ∀ (i : Nat) (f' : Frame), th'.frames[i]? = some f' → f'.Clear ∨
    ∃ (j : Nat) (f : Frame), th.frames[j]? = some f ∧ f'.function = f.function ∧
      (bytecode f ∨ (f.Clear → f'.Clear))

namespace Thread.Clears

variable {bytecode : Frame → Prop} {th th' : Thread}

theorem ofFrames (h : th'.frames = th.frames) : th.Clears bytecode th' :=
  fun i f' hf' => .inr ⟨i, f', h ▸ hf', rfl, .inr id⟩

theorem modifyFrames (th : Thread) (level : Nat) {g : Frame → Frame}
    (hg : ∀ f, (g f).function = f.function)
    (hc : ∀ f, th.frames[level]? = some f → bytecode f ∨ (f.Clear → (g f).Clear)) :
    th.Clears bytecode { th with frames := LuaMachine.modifyFrames level g th.frames } := by
  intro i f' hf'
  simp only [LuaMachine.modifyFrames, Array.getElem?_modify] at hf'
  split at hf'
  · next hi =>
    obtain ⟨f, hf, rfl⟩ := Option.map_eq_some_iff.mp hf'
    exact .inr ⟨i, f, hf, hg f, hc f (hi ▸ hf)⟩
  · exact .inr ⟨i, f', hf', rfl, .inr id⟩

theorem push (th : Thread) {f : Frame} (hf : f.Clear) :
    th.Clears bytecode { th with frames := th.frames.push f } := by
  intro i f' hf'
  simp only [Array.getElem?_push] at hf'
  split at hf'
  · cases hf'
    exact .inl hf
  · exact .inr ⟨i, f', hf', rfl, .inr id⟩

theorem pop (th : Thread) : th.Clears bytecode { th with frames := th.frames.pop } := by
  intro i f' hf'
  simp only [Array.getElem?_pop] at hf'
  split at hf'
  · exact .inr ⟨i, f', hf', rfl, .inr id⟩
  · cases hf'

end Thread.Clears

namespace Machine

/-- Frames that do not run bytecode have nothing above their tops, and nobody takes up certain threads,
which are in use. -/
structure ClearAbove (up : ThreadId → Prop) (m : Machine) : Prop where
  captures : m.Captures
  lexical : m.BytecodeCaptures
  frames : ∀ (t : ThreadId) (i : Nat) (f : Frame), (m.threadAt t).frames[i]? = some f →
    m.RunsBytecode f ∨ f.Clear
  inUse : ∀ t, up t → (m.threadAt t).parked = false

namespace ClearAbove

variable {up up' : ThreadId → Prop} {m m' : Machine} {es : Assignments} {t : ThreadId}

theorem mono (h : m.ClearAbove up) (hu : ∀ t, up' t → up t) : m.ClearAbove up' :=
  { h with inUse := fun t ht => h.inUse t (hu t ht) }

theorem ofThreads (h : m.ClearAbove up) (hc : m'.Captures) (hl : m'.BytecodeCaptures)
    (hf : m.functions.toList <+: m'.functions.toList)
    (ht : ∀ t, (m.threadAt t).Clears m.RunsBytecode (m'.threadAt t))
    (hu : ∀ t, up' t → (m'.threadAt t).parked = false) : m'.ClearAbove up' := by
  refine ⟨hc, hl, fun t i f' hf' => ?_, hu⟩
  obtain hf' | ⟨j, f, hj, he, hk⟩ := ht t i f' hf'
  · exact .inr hf'
  · rcases h.frames t j f hj with hb | hb
    · exact .inl (hb.mono hf he)
    · exact hk.imp (fun hb => hb.mono hf he) fun hk => hk hb

theorem ofFrames (h : m.ClearAbove up) (ht : ∀ t, (m'.threadAt t).frames = (m.threadAt t).frames)
    (hv : m'.upvalues = m.upvalues) (hf : m'.functions = m.functions)
    (hu : ∀ t, up' t → (m'.threadAt t).parked = false) : m'.ClearAbove up' := by
  refine h.ofThreads (h.captures.congr (fun t level => ?_) fun i p => by rw [hv])
    (h.lexical.ofThreads (hf ▸ List.prefix_rfl) fun t => .ofFrames (ht t)) (hf ▸ List.prefix_rfl)
    (fun t => .ofFrames (ht t)) hu
  rw [Thread.capturedAt, ht, Thread.capturedAt]

theorem aside (h : m.ClearAbove up) (ht : m'.threads = m.threads) (hv : m'.upvalues = m.upvalues)
    (hf : m.functions.toList <+: m'.functions.toList) : m'.ClearAbove up := by
  have he (t : ThreadId) : m'.threadAt t = m.threadAt t := by rw [threadAt, ht, threadAt]
  exact h.ofThreads ((Change.aside ht hv hf).captures h.captures) (h.lexical.aside ht hf) hf
    (fun t => .ofFrames (congrArg Thread.frames (he t))) fun t hu => he t ▸ h.inUse t hu

theorem ofModify (h : m.ClearAbove up) (g : Thread → Thread) (hm : m'.threads = m.threads.modify t.index g)
    (hf : m'.functions = m.functions) (hc : m'.Captures) (hl : m'.BytecodeCaptures)
    (hg : (m.threadAt t).Clears m.RunsBytecode (g (m.threadAt t)))
    (hu : ∀ th, (g th).parked = th.parked) : m'.ClearAbove up := by
  have he (t' : ThreadId) : m'.threadAt t' =
      ({ m with threads := m.threads.modify t.index g } : Machine).threadAt t' := by
    rw [threadAt, hm, threadAt]
  simp only [threadAt_modify] at he
  refine h.ofThreads hc hl (hf ▸ List.prefix_rfl) (fun t' => ?_) fun t' ht' => ?_
  · rw [he]
    split
    · next ht =>
      obtain ⟨rfl, -⟩ := ht
      exact hg
    · exact .ofFrames rfl
  · have hi := h.inUse t' ht'
    rw [he]
    split
    · exact (hu _).trans hi
    · exact hi

theorem fields (h : m.ClearAbove up) (t : ThreadId) (g : Thread → Thread) [hg : Thread.Plain g]
    (hp : ∀ th, (g th).parked = th.parked) :
    ClearAbove up { m with threads := m.threads.modify t.index g } :=
  h.ofModify g rfl rfl ((Change.fields t g).captures h.captures)
    (h.lexical.modify t fun th => .ofFrames (hg.frames th)) (.ofFrames (hg.frames _)) hp

theorem modifyLevel (h : m.ClearAbove up) (t : ThreadId) (level : Nat) {g : Frame → Frame}
    (hf : ∀ f, (g f).function = f.function) (hv : ∀ f, (g f).captured = f.captured)
    (hc : ∀ f, (m.threadAt t).frames[level]? = some f → m.RunsBytecode f ∨ (f.Clear → (g f).Clear)) :
    (m.modifyLevel t level g).ClearAbove up := by
  let g' (th : Thread) : Thread := { th with frames := modifyFrames level g th.frames }
  exact h.ofModify g' rfl rfl (h.captures.congr (capturedAt_modifyLevel m t level hv) fun _ _ => .rfl)
    (h.lexical.modifyLevel t level hf fun f hn => hv f ▸ hn) (.modifyFrames _ level hf hc)
    fun _ => rfl

theorem modifyTop (h : m.ClearAbove up) (t : ThreadId) {g : Frame → Frame}
    (hf : ∀ f, (g f).function = f.function) (hv : ∀ f, (g f).captured = f.captured)
    (hc : m.RunsBytecode (m.frameAt t) ∨ ((m.frameAt t).Clear → (g (m.frameAt t)).Clear)) :
    (m.modifyTop t g).ClearAbove up := by
  rw [modifyTop_eq]
  refine h.modifyLevel t _ hf hv fun f hf => ?_
  have he : m.frameAt t = f := by rw [frameAt, Array.back?, hf]; rfl
  exact he ▸ hc

theorem ofTop (h : m.ClearAbove up) {g : Frame → Frame} (hm : m'.threads = (m.modifyTop t g).threads)
    (hf : m'.functions = m.functions) (hc : m'.Captures) (hl : m'.BytecodeCaptures)
    (hg : ∀ f, (g f).function = f.function) (hw : ∀ f, f.Clear → (g f).Clear) : m'.ClearAbove up := by
  let g' (th : Thread) : Thread :=
    { th with frames := modifyFrames (th.frames.size - 1) g th.frames }
  exact h.ofModify g' hm hf hc hl (.modifyFrames _ _ hg fun f _ => .inr (hw f)) fun _ => rfl

theorem neat (h : m.ClearAbove up) (t : ThreadId) (level : Nat) (g : Frame → Frame) [hp : Frame.Plain g]
    [hg : Frame.Neat g] : (m.modifyLevel t level g).ClearAbove up :=
  h.modifyLevel t level (fun f => congrArg Origin.function (hp.origin f)) hp.captured fun _ _ =>
    .inr hg.clear

theorem top (h : m.ClearAbove up) (t : ThreadId) (g : Frame → Frame) [Frame.Plain g]
    [Frame.Neat g] : (m.modifyTop t g).ClearAbove up := by
  rw [modifyTop_eq]
  exact h.neat t _ g

theorem closedFrom (h : m.ClearAbove up) (t : ThreadId) (start : Nat) :
    (m.closedFrom t start).ClearAbove up := by
  have hl : (m.closedFrom t start).BytecodeCaptures :=
    BytecodeCaptures.modifyTop (h.lexical.aside rfl List.prefix_rfl : (m.closeAll _).BytecodeCaptures) t
      (fun _ => rfl) fun f hn hc => hn (by rw [hc]; rfl)
  exact h.ofTop rfl rfl ((Change.close t start).captures h.captures) hl (fun _ => rfl) fun _ => id

theorem capturing (h : m.ClearAbove up) (slot : Nat) (hb : m.RunsBytecode (m.frameAt t))
    (hs : ∀ p ∈ (m.frameAt t).captured, p.1 ≠ slot) : (m.capturing t slot).ClearAbove up :=
  h.ofTop rfl rfl (h.captures.capturing slot hb.function_ne_none hs) (h.lexical.capturing slot hb)
    (fun _ => rfl) fun _ => id

theorem register (h : m.ClearAbove up) {u : UpvalueId} {p : Register}
    (hu : m.upvalues[u.index]? = some (.opened p)) (v : Value) :
    (m.modifyLevel p.thread p.level (·.setSlot p.slot v)).ClearAbove up := by
  refine h.modifyLevel p.thread p.level (fun _ => rfl) (fun _ => rfl) fun f hf =>
    .inl (h.lexical p.thread p.level f hf ?_)
  have hr := (h.captures.opened u p).mpr hu
  rw [Registered, Thread.capturedAt, hf] at hr
  exact List.ne_nil_of_mem hr

theorem newThread (h : m.ClearAbove up) : ClearAbove up { m with threads := m.threads.push {} } := by
  have he (t : ThreadId) :
      ({ m with threads := m.threads.push {} } : Machine).threadAt t = m.threadAt t := by
    unfold threadAt
    simp only [Array.getD_eq_getD_getElem?, Array.getElem?_push]
    split
    · next ht =>
      rw [ht, Array.getElem?_eq_none (Nat.le_refl _)]
      rfl
    · rfl
  exact h.ofThreads (Change.newThread.captures h.captures) h.lexical.newThread List.prefix_rfl
    (fun t => .ofFrames (congrArg Thread.frames (he t))) fun t hu => he t ▸ h.inUse t hu

theorem enterFrame (h : m.ClearAbove up) (t : ThreadId) {f : Frame} (hc : f.captured = [])
    (hf : f.Clear) : (m.enterFrame t f).ClearAbove up := by
  let g (th : Thread) : Thread := { th with frames := th.frames.push f }
  exact h.ofModify g rfl rfl ((Change.enter t f hc).captures h.captures)
    (h.lexical.modify t fun th => .push th hc) (.push _ hf) fun _ => rfl

theorem leaveFrame (h : m.ClearAbove up) (t : ThreadId) : (m.leaveFrame t).ClearAbove up := by
  let g (th : Thread) : Thread := { th with frames := th.frames.pop }
  exact h.ofModify g rfl rfl ((Change.leave t).captures h.captures)
    ((h.lexical.modify t fun th => .pop th).aside rfl List.prefix_rfl) (.pop _) fun _ => rfl

theorem new (limits : Limits) : (Machine.new limits).ClearAbove (· = mainThread) := by
  refine ⟨.new limits, .new limits, fun t i f hf => ?_, fun t ht => ?_⟩
  · have hc : Frame.Clear {} := Frame.clear_of_window (Nat.le_refl _)
    match t, i with
    | ⟨0⟩, 0 | ⟨_ + 1⟩, 0 =>
      cases hf
      exact .inr hc
    | ⟨0⟩, _ + 1 | ⟨_ + 1⟩, _ + 1 => cases hf
  · subst ht
    rfl

end ClearAbove
end Machine

def Condition.ClearAbove (up running : ThreadId → Prop) : Condition :=
  fun r _ m => m.ClearAbove up ∧ running r

namespace Condition.ClearAbove

variable {up running : ThreadId → Prop}

instance deaf : (Condition.ClearAbove up running).Deaf := ⟨fun _ => .rfl⟩

instance tidy : (Condition.ClearAbove up running).Tidy where
  heap _ _ ht hu hf _ h := ⟨h.1.aside ht hu hf, h.2⟩
  closed v h := ⟨h.1.ofThreads ((Change.newVariable v).captures h.1.captures)
    (h.1.lexical.aside rfl List.prefix_rfl) List.prefix_rfl (fun _ => .ofFrames rfl) h.1.inUse, h.2⟩
  assigned u v w hu h := ⟨h.1.ofThreads ((Change.assignVariable u v w hu).captures h.1.captures)
    (h.1.lexical.aside rfl List.prefix_rfl) List.prefix_rfl (fun _ => .ofFrames rfl) h.1.inUse, h.2⟩
  closing start h := ⟨h.1.closedFrom _ start, h.2⟩
  capturing slot hb hs h := ⟨h.1.capturing slot hb hs, h.2⟩
  register _ _ v hu h := ⟨h.1.register hu v, h.2⟩
  top t g _ _ h := ⟨h.1.top t g, h.2⟩
  frame _ _ g _ _ h h' := ⟨h'.1.neat _ _ g, h.2⟩
  thread h := ⟨h.1.newThread, h.2⟩
  transfer vs h := ⟨h.1.fields _ (fun th => { th with transfer := vs }) fun _ => rfl, h.2⟩

instance roomy : (Condition.ClearAbove up running).Roomy where
  thread g hg h := ⟨h.1.fields _ g hg.parked, h.2⟩
  guard _ h := ⟨h.1.modifyTop _ (fun _ => rfl) (fun _ => rfl) (.inr id), h.2⟩
  enter _ hc hf _ h := ⟨h.1.enterFrame _ hc hf, h.2⟩
  leave h := ⟨h.1.leaveFrame _, h.2⟩

instance phaseless : (Condition.ClearAbove up running).Phaseless where
  phase t phase h := ⟨h.1.fields t (fun th => { th with phase }) fun _ => rfl, h.2⟩

end Condition.ClearAbove
end LuaMachine
