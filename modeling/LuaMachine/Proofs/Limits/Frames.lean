import LuaMachine.Proofs.Unwinding.Walk

namespace LuaMachine

open Machine

/-- The functions with frames are among those that have had one before, and there are no more frames. -/
structure Thread.Within (th th' : Thread) : Prop where
  size : th'.frames.size ≤ th.frames.size
  function : ∀ f' ∈ th'.frames, ∃ f ∈ th.frames, f'.function = f.function

namespace Thread.Within

theorem ofFrames {th th' : Thread} (h : th'.frames = th.frames) : th.Within th' :=
  ⟨Nat.le_of_eq (by rw [h]), fun f hf => ⟨f, h ▸ hf, rfl⟩⟩

theorem modifyFrames (th : Thread) (level : Nat) {g : Frame → Frame}
    (hg : ∀ f, (g f).function = f.function) :
    th.Within { th with frames := LuaMachine.modifyFrames level g th.frames } where
  size := Nat.le_of_eq (size_modifyFrames ..)
  function f' hf' := by
    obtain ⟨i, hi⟩ := Array.mem_iff_getElem?.mp hf'
    simp only [LuaMachine.modifyFrames, Array.getElem?_modify] at hi
    split at hi
    · obtain ⟨f, hf, rfl⟩ := Option.map_eq_some_iff.mp hi
      exact ⟨f, Array.mem_of_getElem? hf, hg f⟩
    · exact ⟨f', Array.mem_of_getElem? hi, rfl⟩

theorem pop (th : Thread) : th.Within { th with frames := th.frames.pop } where
  size := Nat.le_trans (Nat.le_of_eq Array.size_pop) (Nat.sub_le ..)
  function f hf := by
    obtain ⟨i, hi⟩ := Array.mem_iff_getElem?.mp hf
    rw [Array.getElem?_pop] at hi
    split at hi
    · exact ⟨f, Array.mem_of_getElem? hi, rfl⟩
    · cases hi

end Thread.Within

namespace Machine

/-- A property of machines that lasts while frames go and change and functions come into being, and that
no frame harms which the limits admit. -/
class Framewise (P : Machine → Prop) : Prop where
  of : ∀ {m m' : Machine}, P m → m.functions.toList <+: m'.functions.toList → m'.limits = m.limits →
    (∀ t, (m.threadAt t).Within (m'.threadAt t)) → P m'
  enter : ∀ {m : Machine} {t : ThreadId} {f : Frame}, P m → m.Admits t f → P (m.enterFrame t f)

namespace Framewise

variable {P : Machine → Prop} [hP : Framewise P] {m m' : Machine}

theorem aside (h : P m) (ht : m'.threads = m.threads)
    (hf : m.functions.toList <+: m'.functions.toList) (hl : m'.limits = m.limits) : P m' :=
  hP.of h hf hl fun t => .ofFrames (by rw [threadAt, ht, threadAt])

theorem modify (h : P m) (t : ThreadId) {g : Thread → Thread} (hg : ∀ th : Thread, th.Within (g th)) :
    P { m with threads := m.threads.modify t.index g } := by
  refine hP.of h List.prefix_rfl rfl fun t' => ?_
  rw [threadAt_modify]
  split
  · exact hg _
  · exact .ofFrames rfl

theorem modifyTop (h : P m) (t : ThreadId) {g : Frame → Frame} (hg : ∀ f, (g f).function = f.function) :
    P (m.modifyTop t g) :=
  modify h t fun th => .modifyFrames th _ hg

theorem newThread (h : P m) : P { m with threads := m.threads.push {} } := by
  refine hP.of h List.prefix_rfl rfl fun t => ?_
  simp only [threadAt, Array.getD_eq_getD_getElem?, Array.getElem?_push]
  split
  · next ht =>
    rw [ht, Array.getElem?_eq_none (Nat.le_refl _)]
    exact .ofFrames rfl
  · exact .ofFrames rfl

end Framewise

/-- The limits are these, no thread has more frames than they allow, and of the lowest `n` functions
only those have one for the registers of which there is room. -/
structure Limited (limits : Limits) (n : Nat) (m : Machine) : Prop where
  settings : m.limits = limits
  depth : ∀ t, (m.threadAt t).frames.size ≤ limits.callDepth + 1
  known : n ≤ m.functions.size
  window : ∀ t, ∀ f ∈ (m.threadAt t).frames, ∀ id, f.function = some id → id.index < n → m.Fits id

instance Limited.framewise (limits : Limits) (n : Nat) : Framewise (Limited limits n) where
  of {m m'} h hf hl ht :=
    { settings := hl.trans h.settings
      depth := fun t => Nat.le_trans (ht t).size (h.depth t)
      known := Nat.le_trans h.known hf.length_le
      window := fun t f' hf' id hid hn p us hp => by
        obtain ⟨f, hfm, he⟩ := (ht t).function f' hf'
        rw [hl]
        refine h.window t f hfm id (he ▸ hid) hn p us ?_
        obtain ⟨rest, hr⟩ := hf
        have hlt : id.index < m.functions.toList.length := Nat.lt_of_lt_of_le hn h.known
        rw [← Array.getElem?_toList] at hp ⊢
        rwa [← hr, List.getElem?_append_left hlt] at hp }
  enter {m t f} h ha :=
    { settings := h.settings
      depth := fun t' => by
        rw [enterFrame, threadAt_modify]
        split
        · next ht =>
          rw [ht.1]
          exact Nat.le_trans (Nat.le_of_eq (Array.size_push ..))
            (Nat.succ_le_succ (h.settings ▸ ha.depth))
        · exact h.depth t'
      known := h.known
      window := fun t' g hg id hid hn => by
        rw [enterFrame, threadAt_modify] at hg
        split at hg
        · rcases Array.mem_push.mp hg with hg | rfl
          · exact h.window t' g hg id hid hn
          · exact ha.window id hid
        · exact h.window t' g hg id hid hn }

/-- Frames belong to functions that exist, each of which has room for its registers. -/
structure Housed (limits : Limits) (m : Machine) : Prop where
  limited : m.Limited limits m.functions.size
  known : ∀ t, ∀ f ∈ (m.threadAt t).frames, ∀ id, f.function = some id →
    id.index < m.functions.size

theorem Limited.widen {limits : Limits} {n k : Nat} {m : Machine} (h : m.Limited limits n)
    (hf : ∀ t, ∀ f ∈ (m.threadAt t).frames, ∀ id, f.function = some id → id.index < n)
    (hk : k ≤ m.functions.size) : m.Limited limits k :=
  ⟨h.settings, h.depth, hk, fun t f hm id hid _ => h.window t f hm id hid (hf t f hm id hid)⟩

instance Housed.framewise (limits : Limits) : Framewise (Housed limits) where
  of {m m'} h hf hl ht := by
    have hk : ∀ t, ∀ f ∈ (m'.threadAt t).frames, ∀ id, f.function = some id →
        id.index < m.functions.size := fun t f' hf' id hid => by
      obtain ⟨f, hfm, he⟩ := (ht t).function f' hf'
      exact h.known t f hfm id (he ▸ hid)
    have hl := (Limited.framewise limits _).of h.limited hf hl ht
    exact ⟨hl.widen hk (Nat.le_refl _),
      fun t f hm id hid => Nat.lt_of_lt_of_le (hk t f hm id hid) hf.length_le⟩
  enter {m t f} h ha := by
    refine ⟨(Limited.framewise limits _).enter h.limited ha, fun t' g hg id hid => ?_⟩
    rw [enterFrame, threadAt_modify] at hg
    split at hg
    · rcases Array.mem_push.mp hg with hg | rfl
      · exact h.known t' g hg id hid
      · exact ha.known id hid
    · exact h.known t' g hg id hid

theorem Housed.new (limits : Limits) : (Machine.new limits).Housed limits := by
  have hf : ∀ t, ∀ f ∈ ((Machine.new limits).threadAt t).frames, f.function = none := by
    intro t f hf
    match t with
    | ⟨0⟩ | ⟨_ + 1⟩ =>
      cases Array.mem_singleton.mp hf
      rfl
  have hn : ∀ t, ∀ f ∈ ((Machine.new limits).threadAt t).frames, ∀ id, f.function = some id →
      id.index < 0 := fun t f hm id hid => by cases (hf t f hm).symm.trans hid
  refine ⟨⟨rfl, fun t => ?_, Nat.zero_le _, fun t f hm id hid hlt => absurd hlt (Nat.not_lt_zero _)⟩, hn⟩
  match t with
  | ⟨0⟩ | ⟨_ + 1⟩ => exact Nat.le_add_left ..

end Machine

def Condition.always (P : Machine → Prop) : Condition := fun _ _ => P

abbrev Condition.Limited (limits : Limits) (n : Nat) : Condition :=
  .always (Machine.Limited limits n)

namespace Condition.always

variable {P : Machine → Prop}

instance deaf : (always P).Deaf := ⟨fun _ => .rfl⟩

variable [hP : Framewise P]

instance stable : (always P).Stable where
  heap _ _ ht _ hf hl h := Framewise.aside (P := P) h ht hf hl
  closed _ h := Framewise.aside (P := P) h rfl List.prefix_rfl rfl
  assigned _ _ _ _ h := Framewise.aside (P := P) h rfl List.prefix_rfl rfl
  closing {r _ m} start h := Framewise.modifyTop (P := P)
    (Framewise.aside (P := P) h rfl List.prefix_rfl rfl : P (m.closeAll _)) r fun _ => rfl
  capturing {r _ m} slot _ _ h := Framewise.modifyTop (P := P)
    (Framewise.aside (P := P) h rfl List.prefix_rfl rfl :
      P { m with upvalues := m.upvalues.push _ }) r fun _ => rfl
  top t g hg h := Framewise.modifyTop (P := P) h t fun f => congrArg Origin.function (hg.origin f)
  frame _ _ g hg _ h := Framewise.modify (P := P) h _ fun th =>
    .modifyFrames th _ fun f => congrArg Origin.function (hg.origin f)
  register _ _ v _ h := Framewise.modify (P := P) h _ fun th => .modifyFrames th _ fun _ => rfl
  thread h := Framewise.newThread (P := P) h
  transfer _ h := Framewise.modify (P := P) h _ fun _ => .ofFrames rfl
  inThread t x hx := ⟨fun m h => by
    have hp : ∀ {m : Machine} (parked : Bool), P m → P { m with
        threads := m.threads.modify t.index fun th => { th with parked } } :=
      fun parked h => Framewise.modify (P := P) h t fun _ => .ofFrames rfl
    have ht : P (m.taking t) := Framewise.aside (P := P) (hp false h.2) rfl List.prefix_rfl rfl
    refine Exec.ends_inThread h (fun _ => hx.ends _ ⟨⟨rfl, ht⟩, fun _ h => h⟩)
      fun y m' _ hm' => ⟨hm'.1.1, ?_⟩
    exact Framewise.aside (P := P) (hp true hm'.1.2) rfl List.prefix_rfl rfl⟩

instance foreign : (always P).Foreign where
  thread _ hg h := Framewise.modify (P := P) h _ fun th => .ofFrames (hg.frames th)
  guard _ h := Framewise.modifyTop (P := P) h _ fun _ => rfl
  enter _ _ ha h := hP.enter h ha
  leave h := Framewise.aside (P := P) (Framewise.modify (P := P) h _ fun th => .pop th) rfl
    List.prefix_rfl rfl
  phase t _ h := Framewise.modify (P := P) h t fun _ => .ofFrames rfl

end Condition.always

/-- Whatever a host does keeps a property, and it holds wherever a loop comes to. -/
structure Host.Maintains (host : Host) (P : Machine → Prop) : Prop where
  session : ∀ fuel limits library operations, P (Machine.new limits) →
    (host.run fuel limits library operations).Ends (.always P) mainThread
  operation : ∀ fuel outer op m, P m →
    (Exec.perform (host.reentry fuel) outer op m).Ends (.always P) m.running
  native : ∀ fuel f m, P m → (host.invoke fuel f m).Ends (.always P) m.running
  loop : ∀ fuel stop site m, P m → (host.dispatch fuel stop site m).Ends (.always P) m.running
  walk : ∀ {fuel stop : Nat} {p q : Point},
    Relation.ReflTransGen (Point.Moves (host.reentry fuel) stop) p q → P p.machine → P q.machine

theorem Host.maintains (host : Host) (P : Machine → Prop) [Framewise P] : host.Maintains P where
  session fuel limits library operations h := host.ends_run fuel limits library operations h
  operation fuel outer op m h := by
    obtain ⟨hi, hd⟩ := host.keeps_foreign (K := .always P) fuel
    have := Reentry.safe_framed (host.reentry fuel) hi hd
    have := Reentry.starts_framed (host.reentry fuel) hi hd
    exact (Exec.keeps_perform (host.reentry fuel) outer op fun e _ => Exec.lax_deaf e).ends m h
  native fuel f m h := ((host.keeps_foreign fuel).1 f).ends m h
  loop fuel stop site m h := ((host.keeps_foreign fuel).2 stop site).ends m h
  walk hw h := Point.walk_keeps (K := .always P) host hw h

end LuaMachine
