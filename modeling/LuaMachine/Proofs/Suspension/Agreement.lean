import LuaMachine.Proofs.Suspension.Dialogue
import Mathlib.Data.List.Forall2

namespace LuaMachine

open Machine Exec

namespace Frame

variable {f g : Frame}

theorem Alike.of_values (hv : g.values = f.values)
    (hc : g.control = { f.control with top := g.top }) : f.Alike g := by
  have ht : g.top = f.top := by rw [← g.length_values, hv, f.length_values]
  exact ⟨by rw [hc, ht]; rfl, hv⟩

theorem Alike.slot (h : f.Alike g) {s : Nat} (hs : s < f.top) : g.slot s = f.slot s := by
  have hv : g.values[s]? = f.values[s]? := by rw [h.2]
  rw [getElem?_values, getElem?_values, h.top, if_pos hs, if_pos hs] at hv
  exact Option.some.inj hv

theorem Alike.answered (h : f.Alike g) (i : Instruction) (e : Extension) :
    (i.answered e f).Alike (i.answered e g) := by
  have hs (r : Nat) : ((f.drop 1).setSlot r f.peek).Alike ((g.drop 1).setSlot r g.peek) :=
    h.peek ▸ (h.drop 1).setSlot r f.peek
  have hat : g.concatAt = f.concatAt := by
    have hc := congrArg Frame.concatAt h.1
    exact hc
  cases e with
  | assign u => exact h
  | concat =>
    change ((f.drop 1).setSlot f.concatAt f.peek).Alike ((g.drop 1).setSlot g.concatAt g.peek)
    rw [hat]
    exact hs _
  | compare c =>
    have hn : g.negated = f.negated := by
      have hc := congrArg Frame.negated h.1
      exact hc
    have hp : g.pc = f.pc := by
      have hc := congrArg Frame.pc h.1
      exact hc
    have hx (k : Frame) : (i.answered (.compare c) k).control = { (k.drop 1).control with
        negated := false
        pc := if (k.peek.truthy != k.negated) != (i.a != 0) then k.pc + 1 else k.pc } := rfl
    exact ⟨by rw [hx, hx, (h.drop 1).1, h.peek, hn, hp], (h.drop 1).2⟩
  | index u | method | binary op | unary op | length => exact hs i.a

end Frame

theorem Question.base_alike (f : Frame) (v : Value) (args : List Value) (wanted : Int)
    (held : List Value) :
    f.Alike (Question.base ⟨args.length, wanted, held⟩ ((f.push v).pushAll args)) := by
  have hd : ((f.push v).pushAll args).top - args.length = (f.push v).values.length := by
    rw [Frame.length_values]
    exact Nat.add_sub_cancel ..
  have ht : (((f.push v).pushAll args).drop args.length).top - 1 = f.values.length := by
    change ((f.push v).pushAll args).top - args.length - 1 = _
    rw [hd, Frame.length_values, Frame.length_values]
    rfl
  refine Frame.Alike.of_values ?_ ?_
  · rw [base, Frame.values_drop, ht, Frame.values_drop, hd, Frame.values_pushAll, List.take_left,
      Frame.values_push, List.take_left]
  · rfl

/-- Two inquiries come to frames that are alike, be it at the end or below a question. -/
structure Outcome.Matches (x x' : Outcome (Option Question)) : Prop where
  ends : ∀ {m m'}, x = .done none m → x' = .done none m' → m.frame.Alike m'.frame
  asks : ∀ {q q' m m'}, x = .done (some q) m → x' = .done (some q') m' →
    q'.wanted = q.wanted ∧ (q.base m.frame).Alike (q'.base m'.frame)

theorem Outcome.Matches.refl (x : Outcome (Option Question)) : x.Matches x := by
  refine ⟨fun hx hx' => ?_, fun hx hx' => ?_⟩
  · cases hx
    cases hx'
    exact .refl _
  · cases hx
    cases hx'
    exact ⟨rfl, .refl _⟩

variable {i : Instruction} {e : Extension} {m m' : Machine}

theorem Outcome.Matches.ofEnds (h : m.frame.Alike m'.frame) :
    Outcome.Matches (.done none m) (.done none m') := by
  refine ⟨fun hx hx' => ?_, nofun⟩
  cases hx
  cases hx'
  exact h

theorem Outcome.Matches.ofPosed (hone : 1 < m.frameCount) (hone' : 1 < m'.frameCount)
    (h : m.frame.Alike m'.frame) (v v' : Value) (args : List Value) (wanted : Int) :
    Outcome.Matches (.done (some ⟨args.length, wanted, m.held⟩) (m.posed v args []))
      (.done (some ⟨args.length, wanted, m'.held⟩) (m'.posed v' args [])) := by
  refine ⟨nofun, fun hx hx' => ?_⟩
  cases hx
  cases hx'
  rw [frame_posed hone, frame_posed hone']
  exact ⟨rfl, (Question.base_alike ..).symm.trans (h.trans (Question.base_alike ..))⟩

theorem Outcome.Matches.ofBinary (hone : 1 < m.frameCount) (hone' : 1 < m'.frameCount)
    (h : m.frame.Alike m'.frame) (a b : Value) (event : Event) (cause cause' : Fault)
    (next next' : Value → Exec (Option Question)) :
    Outcome.Matches (pursue [] 1 next (m.binaryFinding a b event (.fault cause)) m)
      (pursue [] 1 next' (m'.binaryFinding a b event (.fault cause')) m') := by
  unfold binaryFinding
  split
  · exact ⟨nofun, nofun⟩
  · split
    · exact ⟨nofun, nofun⟩
    · exact .ofPosed hone hone' h _ _ [a, b] 1

theorem Exec.matches_inquireConcat (a b n : Nat) (hone : 1 < m.frameCount)
    (hone' : 1 < m'.frameCount) (h : m.frame.Alike m'.frame) (hn : b + n < m.frame.top) :
    (inquireConcat a b n m).Matches (inquireConcat a b n m') := by
  have hf {m : Machine} (hone : 1 < m.frameCount) (g : Frame → Frame) :
      (m.modifyTop m.running g).frame = g m.frame := frameAt_modifyTop_self hone g
  induction n generalizing m m' with
  | zero =>
    refine .ofEnds ?_
    have hs : m'.frame.slot b = m.frame.slot b := h.slot hn
    change (m.modifyTop m.running (·.setSlot a (m.frame.slot b))).frame.Alike
      (m'.modifyTop m'.running (·.setSlot a (m'.frame.slot b))).frame
    rw [hf hone, hf hone', hs]
    exact h.setSlot a _
  | succ n ih =>
    rw [inquireConcat_succ, inquireConcat_succ]
    have h₁ : (m.atPair (b + n)).frame.Alike (m'.atPair (b + n)).frame := by
      rw [atPair, atPair, hf hone, hf hone']
      exact ⟨congrArg (fun f : Frame => { f with concatAt := b + n }) h.1, h.2⟩
    have ht : b + n + 1 < (m.atPair (b + n)).frame.top := by
      rw [atPair, hf hone]
      exact hn
    have hone₁ : 1 < (m.atPair (b + n)).frameCount := inner_modifyTop hone
    have hone₁' : 1 < (m'.atPair (b + n)).frameCount := inner_modifyTop hone'
    generalize m.atPair (b + n) = m₁ at h₁ ht hone₁ ⊢
    generalize m'.atPair (b + n) = m₁' at h₁ hone₁' ⊢
    rw [h₁.slot (show b + n < m₁.frame.top by omega), h₁.slot ht]
    unfold concatFinding
    cases hs : (m₁.frame.slot (b + n)).toBytes? with
    | none => exact .ofBinary hone₁ hone₁' h₁ ..
    | some s =>
      cases hs' : (m₁.frame.slot (b + n + 1)).toBytes? with
      | none => exact .ofBinary hone₁ hone₁' h₁ ..
      | some s' =>
        refine @ih (m₁.modifyTop m₁.running (·.setSlot (b + n) (.string (s ++ s'))))
          (m₁'.modifyTop m₁'.running (·.setSlot (b + n) (.string (s ++ s'))))
          (inner_modifyTop hone₁) (inner_modifyTop hone₁') ?_ ?_
        · rw [hf hone₁, hf hone₁']
          exact h₁.setSlot ..
        · rw [hf hone₁]
          exact Nat.lt_of_succ_lt ht

theorem Exec.matches_conclude (hone : 1 < m.frameCount) (hone' : 1 < m'.frameCount)
    (hi : currentInstruction? m = some i) (hi' : currentInstruction? m' = some i)
    (he : i.extension? = some e) (h : m.frame.Alike m'.frame)
    (hc : e = .concat → i.b ≤ m.frame.concatAt ∧ m.frame.concatAt < m.frame.top - 1) :
    (conclude m).Matches (conclude m') := by
  have hf {m : Machine} (hone : 1 < m.frameCount) :
      (m.modifyTop m.running (i.answered e)).frame = i.answered e m.frame :=
    frameAt_modifyTop_self hone _
  have ha : (m.modifyTop m.running (i.answered e)).frame.Alike
      (m'.modifyTop m'.running (i.answered e)).frame := by
    rw [hf hone, hf hone']
    exact h.answered i e
  rw [conclude_eq hi he, conclude_eq hi' he]
  cases e with
  | concat =>
    obtain ⟨hle, hlt⟩ := hc rfl
    have hat : ((m'.modifyTop m'.running (i.answered .concat)).frame.concatAt) =
        (m.modifyTop m.running (i.answered .concat)).frame.concatAt := by
      have hc := congrArg Frame.concatAt ha.1
      exact hc
    have hx : (m.modifyTop m.running (i.answered .concat)).frame.concatAt = m.frame.concatAt :=
      (congrArg Frame.concatAt (hf hone)).trans rfl
    have ht : (m.modifyTop m.running (i.answered .concat)).frame.top = m.frame.top - 1 :=
      (congrArg Frame.top (hf hone)).trans rfl
    change (inquireConcat i.a i.b ((m.modifyTop m.running (i.answered .concat)).frame.concatAt - i.b)
        (m.modifyTop m.running (i.answered .concat))).Matches
      (inquireConcat i.a i.b ((m'.modifyTop m'.running (i.answered .concat)).frame.concatAt - i.b)
        (m'.modifyTop m'.running (i.answered .concat)))
    rw [hat]
    refine matches_inquireConcat i.a i.b _ (inner_modifyTop hone) (inner_modifyTop hone') ha ?_
    rw [hx, ht]
    omega
  | _ => exact .ofEnds ha

def Machine.SameAnswer (captured : Nat → Prop) (m m' : Machine) : Prop :=
  m'.frame.peek = m.frame.peek ∧ ∀ s, captured s → m'.frame.slot s = m.frame.slot s

variable {q q' : Question} {captured : Nat → Prop} {m₁ m₁' : Machine}

theorem Question.Answered.alike (hm : q.Answered captured m m₁) (hm' : q'.Answered captured m' m₁')
    (hw : q.wanted = 0 ∨ q.wanted = 1) (hq : q'.wanted = q.wanted)
    (h : (q.base m.frame).Alike (q'.base m'.frame)) (hs : m₁.SameAnswer captured m₁') :
    m₁.frame.Alike m₁'.frame := by
  obtain ⟨f, vs, hk, hf⟩ := hm.frame
  obtain ⟨f', vs', hk', hf'⟩ := hm'.frame
  have ht : f'.top = f.top := by rw [hk'.top_eq, h.top, hk.top_eq]
  have hbase : f.Alike f' := by
    refine ⟨by rw [hk'.1, h.1, hk.1], List.ext_getElem? fun s => ?_⟩
    rw [Frame.getElem?_values, Frame.getElem?_values, ht]
    split
    · next hl =>
      by_cases hc : captured s
      · have hv := hs.2 s hc
        rw [hf, hf', Frame.slot_pushAll f _ hl, Frame.slot_pushAll f' _ (ht ▸ hl)] at hv
        rw [hv]
      · have hl₁ : s < (q.base m.frame).top := hk.top_eq ▸ hl
        rw [hk.2 s hl₁ hc, hk'.2 s (h.top.symm ▸ hl₁) hc, h.slot hl₁]
    · rfl
  have hone (ws : List Value) : ∃ v, adjust ws 1 = [v] := by
    have hl := length_adjust ws 1
    exact List.length_eq_one_iff.mp hl
  rw [hf, hf', hq]
  obtain hw | hw := hw
  · have hnil (ws : List Value) : adjust ws 0 = [] := List.eq_nil_of_length_eq_zero (length_adjust ws 0)
    rw [hw, hnil, hnil]
    exact hbase.pushAll []
  · obtain ⟨v, hv⟩ := hone vs
    obtain ⟨v', hv'⟩ := hone vs'
    have hp := hs.1
    rw [hf, hf', hq, hw, hv, hv', Frame.peek_pushAll, Frame.peek_pushAll] at hp
    rw [hw, hv, hv', hp]
    exact hbase.pushAll [v]

/-- The answers determine the frame in which the instruction ends. -/
theorem Dialogue.determined {R R' : Question → Machine → Machine → Prop} {n n' h h' : Nat}
    {m₀ m₀' : Machine} {x x' : Outcome (Option Question)} {answers answers' : List Machine}
    (hR : ∀ q m m', R q m m' → q.Answered captured m m')
    (hR' : ∀ q m m', R' q m m' → q.Answered captured m m') (he : i.extension? = some e)
    (hd : Dialogue R x answers (.done none m)) (hd' : Dialogue R' x' answers' (.done none m'))
    (hs : List.Forall₂ (SameAnswer captured) answers answers') (hm : x.Matches x')
    (hx : x.Inquires i e n h m₀) (hx' : x'.Inquires i e n' h' m₀')
    (hc : e = .concat → i.b + n ≤ h) : m.frame.Alike m'.frame := by
  generalize hy : Outcome.done none m = y at hd
  -- after each answer the frames are alike again, and a concatenation is at a pair below the answer
  induction hd generalizing x' answers' n n' h h' m₀ m₀' with
  | refl x =>
    subst hy
    cases hs
    cases hd'
    exact hm.ends rfl rfl
  | @step q m₁ m₂ answers y hq hd ih =>
    cases hd' with
    | refl => cases hs
    | @step q' m₁' m₂' answers' _ hq' hd' =>
      obtain ⟨hs, hss⟩ := List.forall₂_cons.mp hs
      obtain ⟨hw, hb⟩ := hm.asks rfl rfl
      have ha := hR _ _ _ hq
      have ha' := hR' _ _ _ hq'
      have halike := ha.alike ha' hx.wanted hw hb hs
      have hr := ha.regained
      have hr' := ha'.regained
      have hi := hr.current.trans hx.current
      have hi' := hr'.current.trans hx'.current
      have hat : e = .concat → i.b ≤ m₂.frame.concatAt ∧ m₂.frame.concatAt < m₂.frame.top - 1 :=
        fun he => by
          obtain ⟨hw, hle, hlt⟩ := hx.pair he
          obtain ⟨f, vs, hk, hf⟩ := ha.frame
          have ht : m₂.frame.top = h + 1 := by
            rw [hf, hw, ← hx.height, ← hk.top_eq]
            exact congrArg (f.top + ·) (length_adjust vs 1)
          have hp : m₂.frame.concatAt = m₁.frame.concatAt := by
            have hc := congrArg Frame.concatAt hr.control
            exact hc
          have hh := hc he
          omega
      refine ih hd' hss (matches_conclude (hr.inner hx.inner) (hr'.inner hx'.inner) hi hi' he halike hat)
        (ha.inquires hx he) (ha'.inquires hx' he) (fun he => ?_) hy
      have hat := hat he
      omega

end LuaMachine
