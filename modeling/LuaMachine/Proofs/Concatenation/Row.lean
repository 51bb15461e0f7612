import LuaMachine.Proofs.Chain.Call
import LuaMachine.Proofs.Concatenation.Placement
import LuaMachine.Proofs.Suspension.Discipline
import LuaMachine.Proofs.Suspension.Survival

namespace LuaMachine

open Machine Exec

namespace Frame

variable {f : Frame} {n k s : Nat}

theorem peek_of_top (h : f.top = n + 1) : f.peek = f.slot n := by
  rw [peek, if_neg (h ▸ Nat.succ_ne_zero n), h]
  rfl

theorem slot_drop (h : s < f.top - k) : (f.drop k).slot s = f.slot s := slot_setTop f h

theorem slot_push_top (f : Frame) (v : Value) : (f.push v).slot f.top = v := by
  rw [push, slot, Window.read_write, if_pos rfl]

end Frame

namespace Landed

variable {manners : Manners} {yielding : Prop} {t : ThreadId} {n : Nat} {c : Counts} {m₀ m m' : Machine}

theorem alike (hm : Landed manners t n c m₀ yielding m) {g : Frame → Frame}
    (hg : (m.frameAt t).Alike (g (m.frameAt t))) :
    Landed manners t n c m₀ yielding (m.modifyTop t g) := by
  have hn : (m.threadAt t).frames.size = n - 1 + 1 := by
    have hs := hm.size
    have hp := hm.positive
    omega
  have hi : Intact t n m (m.modifyTop t g) := by
    refine ⟨List.prefix_rfl, fun _ _ _ ha => ha, fun i hi f hf => ?_⟩
    have hth : (m.modifyTop t g).threadAt t = _ := m.threadAt_modify_there hm.there _
    rw [hth]
    simp only [modifyFrames, Array.getElem?_modify, hf, Option.map_some, hn, Nat.add_sub_cancel]
    split
    · next he =>
      subst he
      obtain rfl : m.frameAt t = f := Option.some.inj ((getElem?_top hn).symm.trans hf)
      exact ⟨_, rfl, hg.kept⟩
    · exact ⟨f, rfl, .refl⟩
  exact ((hm.top g).trans hi).trans hm.intact

theorem withHeld (hm : Landed manners t n c m₀ yielding m) (held : List Value) :
    Landed manners t n c m₀ yielding { m with held } := by
  have hx : Landed manners t n c m yielding { m with held } :=
    { hm with intact := intact_of_frames rfl rfl rfl }
  exact hx.trans hm.intact

theorem taken_posed (hm : Landed manners m.running n c m False m) (h : Value) (args : List Value) :
    Landed manners m.running n c m False ((m.posed h args []).taken args.length) := by
  have hx := hm.alike (g := fun f => (((f.push h).pushAll args).drop args.length).drop 1)
    (Question.base_alike m.frame h args 1 m.held)
  have he : (m.posed h args []).taken args.length = { m.modifyTop m.running
      (fun f => (((f.push h).pushAll args).drop args.length).drop 1) with held := args ++ m.held } := by
    have h₄ : m.modifyTop m.running (fun f => (((f.push h).pushAll args).drop args.length).drop 1) =
        (((m.modifyTop m.running (·.push h)).modifyTop m.running (·.pushAll args)).modifyTop m.running
          (·.drop args.length)).modifyTop m.running (·.drop 1) := by
      rw [modifyTop_modifyTop, modifyTop_modifyTop, modifyTop_modifyTop]
      rfl
    rw [h₄]
    rfl
  rw [he]
  exact hx.withHeld _

theorem kept_top (hm : Landed manners t (n + 1) c m yielding m') (hn : (m.threadAt t).frames.size = n + 1) :
    (m.frameAt t).Kept (m.Aliased t n) (m'.frameAt t) := by
  obtain ⟨g, hg, hk⟩ := hm.intact.frames n (Nat.lt_succ_self n) (m.frameAt t) (getElem?_top hn)
  obtain rfl : m'.frameAt t = g := Option.some.inj ((getElem?_top hm.size).symm.trans hg)
  exact hk

end Landed

section Handler

variable {re : Reentry} {m m' : Machine} {a b h v : Value} {args : List Value}

theorem Exec.callHandler_done {manners : Manners} (hre : re.Shelters manners m.running)
    (hm : Landed manners m.running m.frameCount m.thread.counts m False m)
    (hx : callHandler re h args true m = .done v m') :
    m'.running = m.running ∧ Landed manners m.running m.frameCount m.thread.counts m False m' := by
  have hp := hm.posed h args []
  have hc := callTop_cases re args.length 1 (m.posed h args [])
  rw [callHandler_eq] at hx
  cases hn : nested (!(m.posed h args []).prototype.isSome)
      (enterAndRun re args.length 1 (m.posed h args []).answerSite) (m.posed h args []) with
  | raised e m₁ =>
    rw [hn] at hc
    obtain ⟨m₂, he, -⟩ := hc
    rw [if_pos rfl, he] at hx
    cases hx
  | exhausted =>
    rw [hn] at hc
    rw [if_pos rfl, hc] at hx
    cases hx
  | done u m₁ =>
    rw [hn] at hc
    rw [if_pos rfl, hc] at hx
    have hl : (m.posed h args []).thread.nesting < (m.posed h args []).limits.nesting :=
      Nat.not_le.mp fun hl => by
        rw [nested_eq, if_pos hl] at hn
        cases hn
    have hcalled := called_nested hre (!(m.posed h args []).prototype.isSome) args.length 1
      (m.posed h args []).answerSite hp rfl hl
    rw [hn] at hcalled
    obtain ⟨hr, vs, ⟨m₂, rfl, hland⟩, -⟩ := hcalled
    cases hx
    have hr : m₂.running = m.running := hr
    refine ⟨hr, ?_⟩
    have hg : (m₂.frameAt m.running).Alike (((m₂.frameAt m.running).pushAll (adjust vs 1)).drop 1) := by
      rw [adjust_one]
      exact Frame.alike_drop_pushAll _ [vs.headD .nil]
    have hx := (hland.alike (g := fun f => (f.pushAll (adjust vs 1)).drop 1) hg).trans
      (hm.taken_posed h args).intact
    change Landed manners m.running m.frameCount _ m False { (m₂.modifyTop m.running
      (·.pushAll (adjust vs 1))).modifyTop m₂.running (·.drop 1) with held := m.held }
    rw [hr, modifyTop_modifyTop]
    exact hx.withHeld m.held

theorem Exec.concatPair_done (hre : re.Shelters False m.running) (hm : m.Active)
    (hx : concatPair re a b m = .done v m') :
    m'.running = m.running ∧ Landed False m.running m.frameCount m.thread.counts m False m' := by
  rw [concatPair_eq] at hx
  split at hx
  · cases hx
    exact ⟨rfl, hm.landed⟩
  · cases hx
  · exact callHandler_done hre hm.landed hx

end Handler

namespace Machine

structure Recovers (m m' : Machine) : Prop where
  active : m'.Active
  kept : m.frame.Kept m.Captured m'.frame
  captured : ∀ s, m'.Captured s → m.Captured s

/-- Values in slots of the running frame from `base` up, the last one first. Nobody has captured these
slots. -/
structure Lines (base : Nat) (vs : List Value) (m : Machine) : Prop where
  active : m.Active
  values : ∀ k v, vs.reverse[k]? = some v → m.frame.slot (base + k) = v
  within : base + vs.length ≤ m.frame.top
  free : ∀ s, base ≤ s → s < base + vs.length → ¬m.Captured s

structure Row (base : Nat) (lefts : List Value) (right : Value) (m : Machine) : Prop extends
    m.Lines base lefts where
  right : m.frame.slot (base + lefts.length) = right

variable {m m' : Machine} {base : Nat} {lefts : List Value} {a right v : Value} {g : Frame → Frame}

theorem Active.modifyTop (hm : m.Active) (g : Frame → Frame) : (m.modifyTop m.running g).Active := by
  have hx := hm.landed.top g
  exact ⟨hx.there, Nat.lt_of_lt_of_eq hm.positive hx.size.symm, hx.parked, hx.status⟩

theorem Active.frame_modifyTop (hm : m.Active) (g : Frame → Frame) :
    (m.modifyTop m.running g).frame = g m.frame := hm.landed.frame_modifyTop g

theorem captured_modifyTop (m : Machine) (g : Frame → Frame) :
    (m.modifyTop m.running g).Captured = m.Captured := by
  unfold Captured
  have hn : (m.modifyTop m.running g).frameCount = m.frameCount := m.size_modifyTop ..
  rw [hn]
  rfl

theorem Active.recovers (hm : m.Active) (hr : m'.running = m.running)
    (hx : Landed False m.running m.frameCount m.thread.counts m False m') : m.Recovers m' := by
  have hp := hm.positive
  obtain ⟨n, hn⟩ : ∃ n, m.frameCount = n + 1 := ⟨m.frameCount - 1, by omega⟩
  have hn' : m'.frameCount = n + 1 := (hx.frameCount hr).trans hn
  have hactive : m'.Active := by
    refine ⟨hr ▸ hx.there, hn' ▸ Nat.succ_pos n, ?_, ?_⟩
    · rw [thread, hr]
      exact hx.parked
    · rw [thread, hr]
      exact hx.status
  refine ⟨hactive, ?_, fun s hs => ?_⟩
  · have hf : m'.frame = m'.frameAt m.running := congrArg m'.frameAt hr
    unfold Captured
    rw [hf, hn]
    exact (hn ▸ hx).kept_top hn
  · unfold Captured at hs ⊢
    rw [hr, hn', Nat.add_sub_cancel] at hs
    rw [hn, Nat.add_sub_cancel]
    exact hx.intact.aliases n (hn ▸ Nat.lt_succ_self n) s hs

namespace Lines

theorem of_slots (hm : m.Lines base lefts) (ha : m'.Active) (ht : base + lefts.length ≤ m'.frame.top)
    (hs : ∀ s, base ≤ s → s < base + lefts.length →
      m'.frame.slot s = m.frame.slot s ∧ ¬m'.Captured s) : m'.Lines base lefts where
  active := ha
  values k v hk := by
    have hlt : k < lefts.length := by
      have hl := (List.getElem?_eq_some_iff.mp hk).1
      rwa [List.length_reverse] at hl
    rw [(hs (base + k) (by omega) (by omega)).1, hm.values k v hk]
  within := ht
  free s hb hl := (hs s hb hl).2

theorem retained (hm : m.Lines base lefts) (h : m.Recovers m') : m'.Lines base lefts := by
  have hw := hm.within
  refine hm.of_slots h.active (h.kept.top_eq ▸ hw) fun s hb hl => ?_
  exact ⟨h.kept.2 s (by omega) (hm.free s hb hl), fun hc => hm.free s hb hl (h.captured s hc)⟩

theorem modifyTop (hm : m.Lines base lefts)
    (hs : ∀ s < base + lefts.length, (g m.frame).slot s = m.frame.slot s)
    (ht : base + lefts.length ≤ (g m.frame).top) : (m.modifyTop m.running g).Lines base lefts := by
  refine hm.of_slots (hm.active.modifyTop g) ?_ fun s hb hl => ?_
  · rwa [hm.active.frame_modifyTop]
  · rw [hm.active.frame_modifyTop, captured_modifyTop]
    exact ⟨hs s hl, hm.free s hb hl⟩

theorem tail (hm : m.Lines base (a :: lefts)) : m.Lines base lefts where
  active := hm.active
  values k v hk := hm.values k v (by
    have hlt := (List.getElem?_eq_some_iff.mp hk).1
    rw [List.reverse_cons, List.getElem?_append_left hlt, hk])
  within := Nat.le_of_succ_le hm.within
  free s hb hs := hm.free s hb (Nat.lt_succ_of_lt hs)

theorem head (hm : m.Lines base (a :: lefts)) : m.frame.slot (base + lefts.length) = a :=
  hm.values lefts.length a (by rw [List.reverse_cons, ← List.length_reverse, List.getElem?_concat_length])

end Lines

theorem Row.modifyTop (hm : m.Row base lefts right) (hs : ∀ s, (g m.frame).slot s = m.frame.slot s)
    (ht : (g m.frame).top = m.frame.top) : (m.modifyTop m.running g).Row base lefts right where
  toLines := hm.toLines.modifyTop (fun s _ => hs s) (ht ▸ hm.within)
  right := by rw [hm.active.frame_modifyTop, hs, hm.right]

theorem Lines.settled (hm : m.Lines base lefts) (v : Value) :
    (m.modifyTop m.running (·.setSlot (base + lefts.length) v)).Row base lefts v where
  toLines := hm.modifyTop (fun s hs => by rw [Frame.slot_setSlot, if_neg (Nat.ne_of_gt hs)]) hm.within
  right := by rw [hm.active.frame_modifyTop, Frame.slot_setSlot, if_pos rfl]

theorem Active.joined {re : Reentry} (hre : re.Shelters False m.running) (hm : m.Active)
    (hx : concatPair re a right m = .done v m') : m.Recovers m' := by
  obtain ⟨hr, hl⟩ := concatPair_done hre hm hx
  exact hm.recovers hr hl

end Machine

namespace Placement

variable {re : Reentry} (hre : ∀ t, re.Shelters False t) (base : Nat)
include hre

theorem invariant_registers :
    (registers base).Invariant re fun lefts right m => m.Row base lefts right where
  left {a b vs m} hm := by
    rw [left_registers, Machine.atPair, hm.active.frame_modifyTop]
    exact hm.head
  right {a b vs m} hm := by
    rw [right_registers, Machine.atPair, hm.active.frame_modifyTop]
    exact hm.right
  put {a b v vs m m'} hm hx := by
    have h₁ : (m.atPair (base + vs.length)).Row base (a :: vs) b :=
      hm.modifyTop (fun _ => rfl) rfl
    rw [put_registers]
    exact (h₁.tail.retained (h₁.active.joined (hre _) hx)).settled v

theorem invariant_stack : stack.Invariant re fun lefts right m =>
    m.Row base lefts right ∧ m.frame.top = base + lefts.length + 1 where
  left {a b vs m} := by
    rintro ⟨hm, ht⟩
    rw [List.length_cons] at ht
    have hd : (m.frame.drop 1).top = base + vs.length + 1 := congrArg (· - 1) ht
    rw [left_stack, hm.active.frame_modifyTop, Frame.peek_of_top hd, Frame.slot_drop (by omega)]
    exact hm.head
  right {a b vs m} := by
    rintro ⟨hm, ht⟩
    rw [right_stack, Frame.peek_of_top ht, hm.right]
  put {a b v vs m m'} := by
    rintro ⟨hm, ht⟩ hx
    rw [List.length_cons] at ht
    rw [taken_stack] at hx
    have hd : (m.frame.drop 1).top = base + vs.length + 1 := congrArg (· - 1) ht
    have hd' : ((m.frame.drop 1).drop 1).top = base + vs.length := congrArg (· - 1) hd
    have h₁ : (m.modifyTop m.running ((·.drop 1) ∘ (·.drop 1))).Lines base vs :=
      hm.tail.modifyTop (fun s hs => by
        rw [Function.comp_apply, Frame.slot_drop (by omega), Frame.slot_drop (by omega)])
        (Nat.le_of_eq hd'.symm)
    rw [modifyTop_modifyTop] at hx
    have hr := h₁.active.joined (hre _) hx
    have h₂ := h₁.retained hr
    have ht₂ : m'.frame.top = base + vs.length := by
      rw [hr.kept.top_eq, hm.active.frame_modifyTop]
      exact hd'
    refine ⟨⟨h₂.modifyTop (fun s hs => ?_) (Nat.le_succ_of_le h₂.within), ?_⟩, ?_⟩
    · exact Frame.slot_pushAll m'.frame [v] (by omega)
    · rw [put_stack, h₂.active.frame_modifyTop, ← ht₂, Frame.slot_push_top]
    · rw [put_stack, h₂.active.frame_modifyTop]
      exact congrArg (· + 1) ht₂

end Placement
end LuaMachine
