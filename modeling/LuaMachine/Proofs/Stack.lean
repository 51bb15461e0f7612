import LuaMachine.Bytecode.OpenList
import LuaMachine.Proofs.Frame.Rotation

namespace LuaMachine

open Machine

/-- A change of a frame that concerns nothing but its stack. -/
class Frame.Restacks (g : Frame → Frame) : Prop where
  control : ∀ f, (g f).control = { f.control with top := (g f).top }

namespace Frame.Restacks

instance : Restacks id := ⟨fun _ => rfl⟩
instance (v : Value) : Restacks (·.push v) := ⟨fun _ => rfl⟩
instance (vs : List Value) : Restacks (·.pushAll vs) := ⟨fun _ => rfl⟩
instance (n : Nat) : Restacks (·.drop n) := ⟨fun _ => rfl⟩
instance (n : Nat) : Restacks (·.setTop n) := ⟨fun _ => rfl⟩
instance (i : Nat) (v : Value) : Restacks (·.setSlot i v) := ⟨fun _ => rfl⟩

instance (start : Nat) (n : Int) : Restacks (·.rotate start n) where
  control f := by
    obtain ⟨w, h⟩ := f.exists_rotate_eq start n
    rw [h]
    rfl

instance (g g' : Frame → Frame) [h : Restacks g] [h' : Restacks g'] : Restacks (g' ∘ g) where
  control f := by rw [Function.comp_apply, h'.control, h.control]

end Frame.Restacks

namespace Machine

/-- The running frame, which is not that of the host, has `n` registers, and its values are `vs`. -/
structure Holds (m : Machine) (n : Nat) (vs : List Value) : Prop where
  inner : 1 < m.frameCount
  known : ∀ f, m.frame.function = some f → f.index < m.functions.size
  registers : Exec.registerCount m = n
  values : m.frame.values = vs

def Restacked (m m' : Machine) : Prop :=
  ∃ g : Frame → Frame, Frame.Restacks g ∧ m' = m.modifyTop m.running g

variable {m m' m'' : Machine} {n : Nat} {vs vs' : List Value}

theorem Restacked.modifyTop (m : Machine) (g : Frame → Frame) [h : Frame.Restacks g] :
    m.Restacked (m.modifyTop m.running g) := ⟨g, h, rfl⟩

theorem modifyTop_id (m : Machine) (t : ThreadId) : m.modifyTop t id = m := by
  have hf : modifyFrames ((m.threadAt t).frames.size - 1) id (m.threadAt t).frames =
      (m.threadAt t).frames := by
    apply Array.ext_getElem?
    intro i
    rw [modifyFrames, Array.getElem?_modify, Option.map_id]
    exact ite_self _
  rw [Machine.modifyTop, m.modify_same t (by rw [hf])]

theorem Restacked.refl (m : Machine) : m.Restacked m :=
  ⟨id, inferInstance, (m.modifyTop_id m.running).symm⟩

theorem Restacked.trans (h : m.Restacked m') (h' : m'.Restacked m'') : m.Restacked m'' := by
  obtain ⟨g, hg, rfl⟩ := h
  obtain ⟨g', hg', rfl⟩ := h'
  exact ⟨g' ∘ g, inferInstance, m.modifyTop_modifyTop m.running g g'⟩

theorem Restacked.running (h : m.Restacked m') : m'.running = m.running := by
  obtain ⟨g, -, rfl⟩ := h
  rfl

theorem Restacked.frameCount (h : m.Restacked m') : m'.frameCount = m.frameCount := by
  obtain ⟨g, -, rfl⟩ := h
  exact m.size_modifyTop m.running m.running g

theorem Restacked.control (h : m.Restacked m') (hi : 1 < m.frameCount) :
    m'.frame.control = { m.frame.control with top := m'.frame.top } := by
  obtain ⟨g, hg, rfl⟩ := h
  have hf : (m.modifyTop m.running g).frame = g m.frame := frameAt_modifyTop_self hi g
  rw [hf]
  exact hg.control m.frame

theorem prototype_modifyTop {g : Frame → Frame} (hi : 1 < m.frameCount)
    (hg : (g m.frame).function = m.frame.function) :
    (m.modifyTop m.running g).prototype = m.prototype := by
  have hf : (m.modifyTop m.running g).frame = g m.frame := frameAt_modifyTop_self hi g
  unfold Machine.prototype prototypeOf functionOf
  rw [hf, hg]
  rfl

theorem Restacked.prototype (h : m.Restacked m') (hi : 1 < m.frameCount) :
    m'.prototype = m.prototype := by
  obtain ⟨g, hg, rfl⟩ := h
  exact prototype_modifyTop hi
    (congrArg Frame.function (hg.control m.frame) : (g m.frame).control.function = _)

theorem Holds.modifyTop (h : m.Holds n vs) {g : Frame → Frame}
    (hg : (g m.frame).function = m.frame.function) (hv : (g m.frame).values = vs') :
    (m.modifyTop m.running g).Holds n vs' := by
  have hf : (m.modifyTop m.running g).frame = g m.frame := frameAt_modifyTop_self h.inner g
  refine ⟨?_, fun f hf' => h.known f ?_, ?_, by rw [hf, hv]⟩
  · have hs : (m.modifyTop m.running g).frameCount = m.frameCount := m.size_modifyTop ..
    exact hs ▸ h.inner
  · rwa [hf, hg] at hf'
  · rw [Exec.registerCount, prototype_modifyTop h.inner hg]
    exact h.registers

theorem Holds.congr (h : m.Holds n vs) (hf : m'.frame = m.frame)
    (hc : m'.frameCount = m.frameCount) (hg : m'.functions = m.functions) : m'.Holds n vs where
  inner := hc ▸ h.inner
  known f hf' := by
    rw [hg]
    exact h.known f (by rwa [hf] at hf')
  registers := by
    rw [← h.registers]
    unfold Exec.registerCount Machine.prototype prototypeOf functionOf functionAt
    rw [hf, hg]
  values := by rw [hf, h.values]

theorem Holds.modifyThread (h : m.Holds n vs) {g : Thread → Thread}
    (hg : ∀ th, (g th).frames = th.frames) :
    ({ m with threads := m.threads.modify m.running.index g } : Machine).Holds n vs := by
  have ht : (({ m with threads := m.threads.modify m.running.index g } : Machine).threadAt
      m.running).frames = (m.threadAt m.running).frames := by
    rw [m.threadAt_modify_self h.inner, hg]
  refine h.congr ?_ (congrArg Array.size ht) rfl
  change (Array.back? (Machine.threadAt _ m.running).frames).getD default = m.frameAt m.running
  rw [ht, frameAt]

theorem Holds.restacked (h : m.Holds n vs) (hm : m.Restacked m') (hv : m'.frame.values = vs') :
    m'.Holds n vs' := by
  obtain ⟨g, hg, rfl⟩ := hm
  have hf : (m.modifyTop m.running g).frame = g m.frame := frameAt_modifyTop_self h.inner g
  rw [hf] at hv
  refine h.modifyTop ?_ hv
  exact (congrArg Frame.function (hg.control m.frame) : (g m.frame).control.function = _)

theorem Holds.top (h : m.Holds n vs) : m.frame.top = vs.length := by
  rw [← h.values, Frame.length_values]

end Machine

namespace Exec

variable {α β : Type} {n : Nat} {a : α} {b : β} {vs vs' vs'' : List Value}

/-- In a frame with `n` registers and the values `vs` the computation answers with `a` and leaves
the values `vs'`; nothing else changes. -/
def Rearranges (n : Nat) (x : Exec α) (a : α) (vs vs' : List Value) : Prop :=
  ∀ m : Machine, m.Holds n vs → ∃ m', x m = .done a m' ∧ m.Restacked m' ∧ m'.Holds n vs'

namespace Rearranges

theorem pure (a : α) : Rearranges n (Pure.pure a) a vs vs :=
  fun m hm => ⟨m, rfl, .refl m, hm⟩

theorem bind {x : Exec α} {f : α → Exec β} (hx : Rearranges n x a vs vs')
    (hf : Rearranges n (f a) b vs' vs'') : Rearranges n (x >>= f) b vs vs'' := by
  intro m hm
  obtain ⟨m₁, he, hr, hm₁⟩ := hx m hm
  obtain ⟨m₂, he', hr', hm₂⟩ := hf m₁ hm₁
  exact ⟨m₂, by rw [run_bind, he, Outcome.andThen_done, he'], hr.trans hr', hm₂⟩

theorem modifyFrame {g : Frame → Frame} [Frame.Restacks g]
    (hg : ∀ f : Frame, f.values = vs → (g f).values = vs') :
    Rearranges n (Exec.modifyFrame g) () vs vs' := by
  intro m hm
  have hr := Restacked.modifyTop m g
  have hf : (m.modifyTop m.running g).frame = g m.frame := frameAt_modifyTop_self hm.inner g
  exact ⟨m.modifyTop m.running g, rfl, hr, hm.restacked hr (by rw [hf, hg _ hm.values])⟩

theorem readFrame {f : Frame → α} (hf : ∀ fr : Frame, fr.values = vs → f fr = a) :
    Rearranges n (Exec.readFrame f) a vs vs :=
  fun m hm => ⟨m, by rw [run_readFrame, hf _ hm.values], .refl m, hm⟩

theorem registerCount : Rearranges n (Exec.read Exec.registerCount) n vs vs :=
  fun m hm => ⟨m, by rw [run_read, hm.registers], .refl m, hm⟩

theorem top : Rearranges n Exec.top vs.length vs vs :=
  readFrame fun f hf => by rw [← hf, Frame.length_values]

theorem push (v : Value) : Rearranges n (Exec.push v) () vs (vs ++ [v]) :=
  modifyFrame fun f hf => by rw [Frame.values_push, hf]

theorem pushAll (ws : List Value) : Rearranges n (Exec.pushAll ws) () vs (vs ++ ws) :=
  modifyFrame fun f hf => by rw [Frame.values_pushAll, hf]

theorem drop (ws : List Value) : Rearranges n (Exec.drop ws.length) () (vs ++ ws) vs :=
  modifyFrame fun f hf => by
    have hl : f.top - ws.length = vs.length := by
      rw [← f.length_values, hf, List.length_append, Nat.add_sub_cancel]
    rw [Frame.values_drop, hf, hl, List.take_left]

theorem setTop (ws : List Value) :
    Rearranges n (Exec.modifyFrame (·.setTop vs.length)) () (vs ++ ws) vs :=
  modifyFrame fun f hf => by
    have hl : vs.length ≤ f.top := by
      rw [← f.length_values, hf, List.length_append]
      exact Nat.le_add_right ..
    rw [Frame.values_setTop f _ hl, hf, List.take_left]

theorem popMany (ws : List Value) : Rearranges n (Exec.popMany ws.length) ws (vs ++ ws) vs := by
  refine bind (readFrame fun f hf => ?_) (bind (drop ws) (pure ws))
  have hl : f.top - ws.length = vs.length := by
    rw [← f.length_values, hf, List.length_append, Nat.add_sub_cancel]
  rw [Frame.topValues_eq, hf, hl, List.drop_left]

theorem pop (v : Value) : Rearranges n Exec.pop v (vs ++ [v]) vs := by
  refine bind (readFrame fun f hf => ?_) (bind (drop [v]) (pure v))
  rw [Frame.peek_eq, hf, List.getLast?_concat]
  rfl

theorem place_slot {f : Frame} {i : Nat} (h : i < f.top) : f.place (i + 1 : Nat) = .slot i := by
  have hr : ¬((i + 1 : Nat) : Int) < registryIndex ∧ ¬((i + 1 : Nat) : Int) = registryIndex := by
    unfold registryIndex
    omega
  have ha : f.absolute (i + 1 : Nat) = (i + 1 : Nat) := if_pos (.inl (Int.natCast_nonneg _))
  rw [Frame.place, if_neg hr.1, if_neg hr.2]
  dsimp only
  rw [ha, if_pos (by omega)]
  congr 1

theorem place_above {f : Frame} {i : Nat} (h : f.top ≤ i) : f.place (i + 1 : Nat) = .nowhere := by
  have hr : ¬((i + 1 : Nat) : Int) < registryIndex ∧ ¬((i + 1 : Nat) : Int) = registryIndex := by
    unfold registryIndex
    omega
  have ha : f.absolute (i + 1 : Nat) = (i + 1 : Nat) := if_pos (.inl (Int.natCast_nonneg _))
  rw [Frame.place, if_neg hr.1, if_neg hr.2]
  dsimp only
  rw [ha, if_neg (by omega)]

theorem place_last {f : Frame} (h : 0 < f.top) : f.place (-1) = .slot (f.top - 1) := by
  have ha : f.absolute (-1) = f.top := by
    rw [Frame.absolute, if_neg (by unfold registryIndex; omega)]
    omega
  rw [Frame.place, if_neg (by decide), if_neg (by decide)]
  dsimp only
  rw [ha, if_pos (by omega), Int.toNat_natCast]

theorem valueAt {i : Nat} {v : Value} (h : vs[i]? = some v) :
    Rearranges n (Exec.valueAt (i + 1 : Nat)) v vs vs := by
  have hi : i < vs.length := (List.getElem?_eq_some_iff.mp h).1
  refine bind (a := .slot i) (readFrame fun f hf => place_slot ?_) (readFrame fun f hf => ?_)
  · rw [← f.length_values, hf]
    exact hi
  · rw [Frame.slot_eq f (by rw [← f.length_values, hf]; exact hi), hf, h]
    rfl

theorem valueAt_last (v : Value) :
    Rearranges n (Exec.valueAt (-1)) v (vs ++ [v]) (vs ++ [v]) := by
  have ht : ∀ f : Frame, f.values = vs ++ [v] → f.top = vs.length + 1 := fun f hf => by
    rw [← f.length_values, hf, List.length_append]
    rfl
  refine bind (a := .slot vs.length) (readFrame fun f hf => ?_) (readFrame fun f hf => ?_)
  · rw [place_last (by rw [ht f hf]; exact Nat.succ_pos _), ht f hf]
    rfl
  · rw [Frame.slot_eq f (by rw [ht f hf]; exact Nat.lt_succ_self _), hf, List.getElem?_concat_length]
    rfl

theorem pushValue {i : Nat} {v : Value} (h : vs[i]? = some v) :
    Rearranges n (Exec.pushValue (i + 1 : Nat)) () vs (vs ++ [v]) :=
  bind (valueAt h) (push v)

theorem pushValues {i k : Nat} (h : i + k ≤ vs.length) :
    Rearranges n ((List.range' (i + 1) k).forM fun i => Exec.pushValue i) ()
      vs (vs ++ (vs.drop i).take k) := by
  induction k generalizing i vs with
  | zero => simpa using pure ()
  | succ k ih =>
    have hv : vs[i]? = some vs[i] := List.getElem?_eq_getElem (by omega)
    have hs := @ih (vs ++ [vs[i]]) (i + 1) (by rw [List.length_append]; simp; omega)
    have he : vs ++ [vs[i]] ++ ((vs ++ [vs[i]]).drop (i + 1)).take k =
        vs ++ (vs.drop i).take (k + 1) := by
      rw [List.drop_append_of_le_length (by omega), List.take_append_of_le_length (by simp; omega),
        List.drop_eq_getElem_cons (by omega : i < vs.length), List.take_succ_cons,
        List.append_assoc]
      rfl
    rw [he] at hs
    rw [List.range'_succ]
    exact bind (pushValue hv) hs

theorem rotate {zs xs ys : List Value} :
    Rearranges n (Exec.rotate (zs.length + 1 : Nat) ys.length) () (zs ++ xs ++ ys)
      (zs ++ ys ++ xs) := by
  refine bind (a := ((zs.length + 1 : Nat) : Int)) (readFrame fun f _ => ?_) ?_
  · exact if_pos (.inl (Int.natCast_nonneg _))
  · have h : (1 : Int) ≤ (zs.length + 1 : Nat) := by omega
    rw [if_pos h, Int.toNat_natCast, Nat.add_sub_cancel]
    exact modifyFrame fun f hf => Frame.values_rotate f hf

theorem storeAt (i : Nat) (v : Value) :
    Rearranges n (Exec.storeAt (i + 1 : Nat) v) () vs (vs.set i v) := by
  by_cases hi : i < vs.length
  · refine bind (a := .slot i) (readFrame fun f hf => place_slot ?_) (modifyFrame fun f hf => ?_)
    · rw [← f.length_values, hf]
      exact hi
    · rw [Frame.values_setSlot, hf]
  · rw [List.set_eq_of_length_le (Nat.le_of_not_lt hi)]
    refine bind (a := .nowhere) (readFrame fun f hf => place_above ?_) (pure ())
    rw [← f.length_values, hf]
    exact Nat.le_of_not_lt hi

theorem replace (i : Nat) (v : Value) :
    Rearranges n (Exec.replace (i + 1 : Nat)) () (vs ++ [v]) (vs.set i v) := by
  refine bind (a := ((i + 1 : Nat) : Int)) (readFrame fun f _ => ?_) (bind (pop v) (storeAt i v))
  exact if_pos (.inl (Int.natCast_nonneg _))

theorem replaceValues {i k : Nat} {ws : List Value} (hk : ws.length = k) (h : i + k ≤ vs.length) :
    Rearranges n ((List.range' (i + 1) k).reverse.forM fun i => Exec.replace i) ()
      (vs ++ ws) (vs.take i ++ ws ++ vs.drop (i + k)) := by
  induction k generalizing vs ws with
  | zero =>
    obtain rfl := List.eq_nil_of_length_eq_zero hk
    have he : vs.take i ++ [] ++ vs.drop (i + 0) = vs := by
      rw [List.append_nil, Nat.add_zero, List.take_append_drop]
    rw [he, List.append_nil]
    exact pure ()
  | succ k ih =>
    obtain ⟨us, w, rfl⟩ : ∃ us w, ws = us ++ [w] :=
      ⟨ws.dropLast, ws.getLast (by rintro rfl; cases hk), (List.dropLast_concat_getLast _).symm⟩
    rw [List.length_append, List.length_singleton] at hk
    have hl : i + k < vs.length := by omega
    have hf : Rearranges n (Exec.replace (i + k + 1 : Nat)) () (vs ++ us ++ [w])
        ((vs ++ us).set (i + k) w) := replace (i + k) w
    rw [List.set_append_left _ _ hl] at hf
    have hs := @ih (vs.set (i + k) w) us (by omega) (by rw [List.length_set]; omega)
    have he : (vs.set (i + k) w).take i ++ us ++ (vs.set (i + k) w).drop (i + k) =
        vs.take i ++ (us ++ [w]) ++ vs.drop (i + (k + 1)) := by
      rw [List.take_set_of_le (Nat.le_add_right ..), List.drop_set, if_neg (Nat.lt_irrefl _),
        Nat.sub_self, List.drop_eq_getElem_cons hl, List.set_cons_zero]
      simp [Nat.add_assoc]
    rw [he] at hs
    rw [List.range'_concat, List.reverse_append, ← List.append_assoc, Nat.one_mul,
      show i + 1 + k = i + k + 1 by omega]
    exact bind hf hs

end Rearranges
end Exec
end LuaMachine
