import LuaMachine.Host
import LuaMachine.Proofs.Protected
import LuaMachine.Proofs.Shelter.Calls
import LuaMachine.Proofs.Stack

namespace LuaMachine

open Machine

structure Protection where
  callee : Value
  args : List Value
  handler : Option Value

def Builtin.protection? : Builtin → List Value → Option Protection
  | .pcall, callee :: args => some { callee, args, handler := none }
  | .xpcall, callee :: .function f :: args => some { callee, args, handler := some (.function f) }
  | _, _ => none

namespace Frame

def guarding (p : FunctionId) (handler : Option Value) (wanted : Int) (site : CallSite) : Frame :=
  { function := some p, site, wanted, guard := some { handler } }

def calling (f : Frame) (handler : Option Value) (n : Nat) : Frame :=
  (({ f with guard := some { handler } } : Frame).drop n).drop 1

theorem control_calling {f : Frame} {p : FunctionId} {wanted : Int} {site : CallSite} {n : Nat}
    (handler : Option Value)
    (hf : f.control = { guarding p none wanted site with guard := none, top := n + 1 }) :
    (f.calling handler n).control = guarding p handler wanted site := by
  have ht : f.top = n + 1 := (congrArg Frame.top hf : f.control.top = _)
  have hc : (f.calling handler n).control = { f.control with
      top := f.top - n - 1, guard := some { handler } } := rfl
  rw [hc, hf, ht, show n + 1 - n - 1 = 0 by omega]
  rfl

end Frame

theorem Machine.frame_enterFrame {m : Machine} (h : 1 < m.frameCount) (f : Frame) :
    (m.enterFrame m.running f).frame = f := by
  change ((m.enterFrame m.running f).threadAt m.running).frames.back?.getD default = f
  rw [m.threadAt_enterFrame h, Array.back?_push, Option.getD_some]

theorem Machine.frameCount_enterFrame {m : Machine} (h : 1 < m.frameCount) (f : Frame) :
    (m.enterFrame m.running f).frameCount = m.frameCount + 1 := by
  change ((m.enterFrame m.running f).threadAt m.running).frames.size = _
  rw [m.threadAt_enterFrame h, Array.size_push]
  rfl

namespace Exec

namespace Rearranges

variable {n : Nat} {vs : List Value}

theorem kindAt {i : Nat} {v : Value} (h : vs[i]? = some v) :
    Rearranges n (Exec.kindAt (i + 1 : Nat)) v.kind vs vs := by
  have hi : i < vs.length := (List.getElem?_eq_some_iff.mp h).1
  have hv : Rearranges n (Exec.isValid (i + 1 : Nat)) true vs vs := fun m hm => by
    refine ⟨m, congrArg (Outcome.done · m) ?_, .refl m, hm⟩
    change m.isValid _ = true
    rw [Machine.isValid, place_slot (by rwa [hm.top])]
  exact bind hv (bind (valueAt h) (pure v.kind))

theorem checkAny {i : Nat} {v : Value} (h : vs[i]? = some v) :
    Rearranges n (Exec.checkAny (i + 1 : Nat)) () vs vs := by
  refine bind (kindAt h) ?_
  have hk : (v.kind != .none) = true := by cases v <;> rfl
  rw [checkThat, hk]
  exact pure ()

theorem checkKind {i : Nat} {v : Value} (h : vs[i]? = some v) :
    Rearranges n (Exec.checkKind (i + 1 : Nat) v.kind) () vs vs := by
  refine bind (kindAt h) ?_
  rw [bne_self_eq_false]
  exact pure ()

theorem removeSecond (v w : Value) :
    Rearranges n (Exec.remove 2) () (v :: w :: vs) (v :: vs) := by
  have hs : Rearranges n (Exec.rotate 2 (-1)) () (v :: w :: vs) (v :: vs ++ [w]) := by
    refine bind (a := (2 : Int)) (readFrame fun f _ => rfl) ?_
    rw [if_pos (by decide)]
    refine modifyFrame fun f hf => ?_
    have hf : f.values = [v] ++ [w] ++ vs := hf
    exact f.values_rotate_neg hf
  exact bind hs (drop [w])

end Rearranges

variable {p : FunctionId} {b : Builtin} {xs : List Value} {q : Protection} {wanted : Int}
  {site : CallSite} {m : Machine} (re : Reentry)

theorem values_nativeFrame (p : FunctionId) (xs : List Value) (wanted : Int) (site : CallSite) :
    (nativeFrame p xs wanted site).values = xs := by
  apply List.ext_getElem?
  intro i
  rw [Frame.getElem?_values]
  by_cases hi : i < xs.length
  · simp [nativeFrame, Frame.slot, Window.read, hi]
  · simp [nativeFrame, hi]

theorem holds_nativeFrame (h : 1 < m.frameCount) {f : Native}
    (hp : (m.functionAt p).body = .native f) (hb : f ≠ .builtin .isyieldable) :
    (m.enterFrame m.running (nativeFrame p xs wanted site)).Holds 0 xs := by
  have hf := frame_enterFrame h (nativeFrame p xs wanted site)
  have hn : (nativeFrame p xs wanted site).function = some p := rfl
  have hfun : (m.enterFrame m.running (nativeFrame p xs wanted site)).functionAt p =
    m.functionAt p := rfl
  refine ⟨?_, fun f' hf' => ?_, ?_, by rw [hf, values_nativeFrame]⟩
  · rw [frameCount_enterFrame h]
    exact Nat.lt_succ_of_lt h
  · rw [hf] at hf'
    exact Option.some.inj hf' ▸ m.index_lt_of_native hp hb
  · rw [registerCount, Machine.prototype, prototypeOf, functionOf, hf, hn, Option.map_some, hfun]
    cases hg : m.functionAt p with
    | mk body upvalues =>
      rw [hg] at hp
      cases hp
      rfl

theorem run_protecting (host : Host) (hq : b.protection? xs = some q)
    (hm : m.Holds 0 xs) : ∃ m', m.Restacked m' ∧ m'.Holds 0 (q.callee :: q.args) ∧
      host.native re (.builtin b) m = guardedCall re q.handler m' := by
  unfold Builtin.protection? at hq
  split at hq
  · next callee args =>
    cases hq
    obtain ⟨m₁, h₁, hr₁, hm₁⟩ := Rearranges.checkAny (i := 0) rfl m hm
    refine ⟨m₁, hr₁, hm₁, ?_⟩
    change (checkAny (0 + 1 : Nat) >>= fun _ => guardedCall re none) m = _
    rw [run_bind, h₁, Outcome.andThen_done]
  · next callee f args =>
    cases hq
    obtain ⟨m₁, h₁, hr₁, hm₁⟩ := Rearranges.checkKind (i := 1) rfl m hm
    obtain ⟨m₂, h₂, hr₂, hm₂⟩ := Rearranges.valueAt (i := 1) rfl m₁ hm₁
    obtain ⟨m₃, h₃, hr₃, hm₃⟩ := Rearranges.removeSecond callee (.function f) m₂ hm₂
    refine ⟨m₃, hr₁.trans (hr₂.trans hr₃), hm₃, ?_⟩
    change (checkKind (1 + 1 : Nat) (Value.function f).kind >>= fun _ => valueAt (1 + 1 : Nat) >>=
      fun handler => remove 2 >>= fun _ => guardedCall re (some handler)) m = _
    rw [run_bind, h₁, Outcome.andThen_done, run_bind, h₂, Outcome.andThen_done, run_bind, h₃,
      Outcome.andThen_done]
  · cases hq

theorem enter_enterFrame (h : 1 < m.frameCount) {f : Frame} {callee : Value} {args : List Value}
    (hv : f.values = callee :: args) : enter re args.length wanted site (m.enterFrame m.running f) =
      callValue re callee args wanted site
        (m.enterFrame m.running ((f.drop args.length).drop 1)) := by
  have hd (g : Frame → Frame) (f : Frame) : (m.enterFrame m.running f).modifyTop
      (m.enterFrame m.running f).running g = m.enterFrame m.running (g f) :=
    modifyTop_enterFrame ..
  have ht : f.top = args.length + 1 := by rw [← f.length_values, hv, List.length_cons]
  have hpeek : (f.drop args.length).peek = callee := by
    rw [Frame.peek_eq, Frame.values_drop, hv, ht, Nat.add_sub_cancel_left]
    rfl
  have hargs : f.topValues args.length = args := by
    rw [Frame.topValues_eq, hv, ht, Nat.add_sub_cancel_left]
    rfl
  rw [run_enter, Machine.taken, hd, frame_enterFrame h, frame_enterFrame h, hpeek, hargs]
  exact congrArg _ (hd ..)

theorem native_protecting (host : Host) (wanted : Int) (site : CallSite) (h : 1 < m.frameCount)
    (hp : (m.functionAt p).body = .native (.builtin b)) (hq : b.protection? xs = some q) :
    ∃ P : Frame, P.control = Frame.guarding p q.handler wanted site ∧
      host.native re (.builtin b) (m.enterFrame m.running (nativeFrame p xs wanted site)) =
        afterStart re (m.frameCount + 1)
          (callValue re q.callee q.args (-1) .guarded (m.enterFrame m.running P)) := by
  have hb : Native.builtin b ≠ .builtin .isyieldable := by
    rintro ⟨⟩
    cases hq
  obtain ⟨m', ⟨g, hg, rfl⟩, hm', he⟩ := run_protecting re host hq (holds_nativeFrame h hp hb)
  have hg' : (m.enterFrame m.running (nativeFrame p xs wanted site)).modifyTop
      (m.enterFrame m.running (nativeFrame p xs wanted site)).running g =
        m.enterFrame m.running (g (nativeFrame p xs wanted site)) := modifyTop_enterFrame ..
  rw [hg'] at hm' he
  have hf := frame_enterFrame h (g (nativeFrame p xs wanted site))
  have hv := hm'.values
  have ht := hm'.top
  rw [hf] at hv ht
  refine ⟨(g (nativeFrame p xs wanted site)).calling q.handler q.args.length, ?_, ?_⟩
  · refine Frame.control_calling q.handler ?_
    rw [hg.control, ht]
    rfl
  · have hd : (m.enterFrame m.running (g (nativeFrame p xs wanted site))).modifyTop
        (m.enterFrame m.running (g (nativeFrame p xs wanted site))).running
        (fun f => { f with guard := some { handler := q.handler } }) = m.enterFrame m.running
          { g (nativeFrame p xs wanted site) with guard := some { handler := q.handler } } :=
      modifyTop_enterFrame ..
    rw [he, guardedCall_eq, hf, ht, List.length_cons, Nat.add_sub_cancel, hd,
      frameCount_enterFrame h, enter_enterFrame re h (by exact hv)]
    rfl

end Exec
end LuaMachine
