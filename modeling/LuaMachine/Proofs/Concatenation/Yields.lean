import LuaMachine.Proofs.Concatenation.Row

namespace LuaMachine

open Machine Exec Relation

def Machine.jointAt (m : Machine) (r : Nat) (answer : Option (Except Error Value)) : Joint :=
  ⟨(m.atPair r).frame.slot r, (m.atPair r).frame.slot (r + 1), m.atPair r, answer⟩

def Machine.takenOver (m : Machine) (r : Nat) : Machine :=
  (m.modifyTop m.running (·.drop 1)).modifyTop m.running (·.setSlot r m.frame.peek)

/-- A concatenation of `n` registers from `b` up with the one after them goes on as long as its handlers
answer, each in a machine of its own. -/
inductive Weaves (R : Question → Machine → Machine → Prop) (b : Nat) :
    (n : Nat) → Machine → List Joint → Machine → Prop
  | done (m : Machine) : Weaves R b 0 m [] m
  | found {n : Nat} {m m' : Machine} {v : Value} {js : List Joint} :
      (m.jointAt (b + n) none).finding = .value v →
      Weaves R b n ((m.atPair (b + n)).modifyTop m.running (·.setSlot (b + n) v)) js m' →
      Weaves R b (n + 1) m (m.jointAt (b + n) none :: js) m'
  | asked {n : Nat} {m m₁ m' : Machine} {h : Value} {args : List Value} {js : List Joint} :
      (m.jointAt (b + n) none).finding = .handler h args →
      R ⟨args.length, 1, m.held⟩ ((m.atPair (b + n)).posed h args []) m₁ →
      Weaves R b n (m₁.takenOver (b + n)) js m' →
      Weaves R b (n + 1) m (m.jointAt (b + n) (some (.ok m₁.frame.peek)) :: js) m'

section Yields

variable {i : Instruction} {captured : Nat → Prop} {t : ThreadId} {k n base : Nat} {m m' m₁ : Machine}
  {a h right : Value} {args lefts : List Value}

theorem Machine.Attends.active (hm : m.Attends captured t k) : m.Active :=
  ⟨hm.runs.there, Nat.zero_lt_of_lt hm.runs.inner, hm.runs.parked, hm.runs.status⟩

theorem Machine.Attends.of_captured (hm : m.Attends captured t k) {s : Nat} (hs : m.Captured s) :
    captured s := by
  obtain ⟨-, rfl, rfl, ha⟩ := hm
  exact ha s hs

theorem Machine.current_setSlot (hone : 1 < m.frameCount) (r : Nat) (v : Value) :
    currentInstruction? (m.modifyTop m.running (·.setSlot r v)) = currentInstruction? m := by
  have hf (f : Frame) : (f.setSlot r v).function = f.function := rfl
  have hp (f : Frame) : (f.setSlot r v).pc = f.pc := rfl
  exact current_modifyTop hone (hf _) (hp _)

theorem Machine.Attends.posed (hm : m.Attends captured t k) (h : Value) (args kept : List Value) :
    (m.posed h args kept).Attends captured t k :=
  hm.touches ⟨(·.pushAll args) ∘ (·.push h), args ++ (kept ++ m.held), by
    rw [← modifyTop_modifyTop]
    rfl⟩

theorem Exec.inquireConcat_jointAt (a b n : Nat) (m : Machine) : inquireConcat a b (n + 1) m =
    match (m.jointAt (b + n) none).finding with
    | .value v => inquireConcat a b n ((m.atPair (b + n)).modifyTop m.running (·.setSlot (b + n) v))
    | .fault cause => fault cause (m.atPair (b + n))
    | .handler h args =>
      .done (some ⟨args.length, 1, m.held⟩) ((m.atPair (b + n)).posed h args []) := by
  rw [inquireConcat_succ, Joint.finding, jointAt]
  dsimp only
  cases (m.atPair (b + n)).concatFinding ((m.atPair (b + n)).frame.slot (b + n))
    ((m.atPair (b + n)).frame.slot (b + n + 1)) <;> rfl

theorem Exec.conclude_concat (hone : 1 < m.frameCount) (hi : currentInstruction? m = some i)
    (he : i.extension? = some .concat) (hat : m.frame.concatAt = i.b + n) :
    conclude m = inquireConcat i.a i.b n (m.takenOver (i.b + n)) := by
  have hs : m.modifyTop m.running (i.answered .concat) = m.takenOver (i.b + n) := by
    rw [takenOver, modifyTop_modifyTop]
    exact modifyTop_congr (by rw [← hat]; rfl)
  have hf : (m.modifyTop m.running (i.answered .concat)).frame.concatAt = m.frame.concatAt :=
    (congrArg Frame.concatAt (frameAt_modifyTop_self hone _)).trans rfl
  rw [conclude_eq hi he]
  change inquireConcat i.a i.b ((m.modifyTop m.running (i.answered .concat)).frame.concatAt - i.b)
    (m.modifyTop m.running (i.answered .concat)) = _
  rw [hf, hs, hat, Nat.add_sub_cancel_left]

theorem Machine.Row.atPair (hm : m.Row base lefts right) (r : Nat) :
    (m.atPair r).Row base lefts right := hm.modifyTop (fun _ => rfl) rfl

theorem Machine.Row.jointAt (hm : m.Row base (a :: lefts) right)
    (answer : Option (Except Error Value)) : m.jointAt (base + lefts.length) answer =
      ⟨a, right, m.atPair (base + lefts.length), answer⟩ := by
  have hr := hm.atPair (base + lefts.length)
  have hright : (m.atPair (base + lefts.length)).frame.slot (base + lefts.length + 1) = right := hr.right
  rw [Machine.jointAt, hr.head, hright]

theorem Machine.Row.answered {held : List Value} (hm : m.Row base (a :: lefts) right)
    (hone : 1 < m.frameCount) (ha : m₁.Attends captured t k)
    (hq : Question.Answered ⟨args.length, 1, held⟩ captured (m.posed h args []) m₁)
    (hfree : ∀ s, base ≤ s → s < base + lefts.length → ¬captured s) :
    (m₁.takenOver (base + lefts.length)).Row base lefts m₁.frame.peek := by
  obtain ⟨g, vs, hk, hf⟩ := hq.frame
  rw [frame_posed hone] at hk
  have hbase := Question.base_alike m.frame h args 1 held
  have hw := hm.tail.within
  have hg : g.top = m.frame.top := hk.top_eq.trans hbase.top
  have ht : m₁.frame.top = m.frame.top + 1 := by
    rw [hf, adjust_one, ← hg]
    rfl
  have hl : m₁.Lines base lefts := by
    refine hm.tail.of_slots ha.active (by omega) fun s hb hs => ?_
    have hlt : s < m.frame.top := by omega
    refine ⟨?_, fun hc => hfree s hb hs (ha.of_captured hc)⟩
    rw [hf, Frame.slot_pushAll _ _ (hg ▸ hlt), hk.2 s (hbase.top.symm ▸ hlt) (hfree s hb hs),
      hbase.slot hlt]
  have hd : (m₁.modifyTop m₁.running (·.drop 1)).Lines base lefts := by
    refine hl.modifyTop (fun s hs => Frame.slot_drop (by omega)) ?_
    change base + lefts.length ≤ m₁.frame.top - 1
    omega
  exact hd.settled m₁.frame.peek

/-- A concatenation in registers that is completed, whenever its handlers have answered, has joined the
pairs of the values with what they have answered. -/
theorem Dialogue.weaves {host : Host} (hh : host.Honest) (he : i.extension? = some .concat)
    (hm : m.Attends captured t k) (hi : currentInstruction? m = some i) (hr : m.Row i.b lefts right)
    (hfree : ∀ s, i.b ≤ s → s < i.b + lefts.length → ¬captured s) {answers : List Machine}
    (hd : Dialogue host.Answers (inquireConcat i.a i.b lefts.length m) answers (.done none m')) :
    ∃ js m₁ v, Weaves host.Answers i.b lefts.length m js m₁ ∧ Joins lefts right js (some (.ok v)) ∧
      m₁.Row i.b [] v ∧ m' = m₁.modifyTop m₁.running (·.setSlot i.a (m₁.frame.slot i.b)) := by
  -- from any machine that an answer leaves behind, for its instruction and row are the same again
  induction lefts generalizing m right answers with
  | nil =>
    have hx : inquireConcat i.a i.b 0 m =
      .done none (m.modifyTop m.running (·.setSlot i.a (m.frame.slot i.b))) := rfl
    rw [List.length_nil, hx] at hd
    cases hd
    exact ⟨[], m, right, .done m, .alone right, hr, rfl⟩
  | cons a lefts ih =>
    have hr₁ := hr.atPair (i.b + lefts.length)
    have hm₁ : (m.atPair (i.b + lefts.length)).Attends captured t k := hm.touches (.modifyTop m _)
    have hi₁ : currentInstruction? (m.atPair (i.b + lefts.length)) = some i :=
      (current_modifyTop hm.runs.inner rfl rfl).trans hi
    have hfree' (s : Nat) (hb : i.b ≤ s) (hs : s < i.b + lefts.length) : ¬captured s :=
      hfree s hb (Nat.lt_succ_of_lt hs)
    rw [List.length_cons, inquireConcat_jointAt] at hd
    cases hF : (m.jointAt (i.b + lefts.length) none).finding with
    | fault cause =>
      rw [hF] at hd
      cases hd
    | value v =>
      rw [hF] at hd
      have hm₂ : ((m.atPair (i.b + lefts.length)).modifyTop m.running
          (·.setSlot (i.b + lefts.length) v)).Attends captured t k := hm₁.touches (.modifyTop _ _)
      have hi₂ : currentInstruction? ((m.atPair (i.b + lefts.length)).modifyTop m.running
          (·.setSlot (i.b + lefts.length) v)) = some i :=
        (current_setSlot hm₁.runs.inner _ v).trans hi₁
      obtain ⟨js, m₁, w, hw, hjoins, hrow, he'⟩ := ih hm₂ hi₂ (hr₁.tail.settled v) hfree' hd
      refine ⟨_, m₁, w, .found hF hw, ?_, hrow, he'⟩
      rw [hr.jointAt] at hF ⊢
      exact .joined (Joint.result?_of_value hF) hjoins
    | handler h args =>
      rw [hF] at hd
      obtain ⟨m₂, rest, -, hR, hd⟩ := hd.asked rfl
      have hposed := regained_posed hm₁.runs.inner h args []
      obtain ⟨hq, hm₂⟩ := (hm₁.posed h args []).replied hh (hposed.current.trans hi₁) hR
      have hreg := hposed.trans hq.regained
      have hi₂ := hreg.current.trans hi₁
      have hat : m₂.frame.concatAt = i.b + lefts.length :=
        (congrArg Frame.concatAt hreg.control).trans
          (congrArg Frame.concatAt (frameAt_modifyTop_self hm.runs.inner _))
      rw [conclude_concat hm₂.runs.inner hi₂ he hat] at hd
      have hi₃ : currentInstruction? (m₂.takenOver (i.b + lefts.length)) = some i := by
        rw [takenOver, modifyTop_modifyTop]
        exact (current_modifyTop hm₂.runs.inner rfl rfl).trans hi₂
      have hm₃ : (m₂.takenOver (i.b + lefts.length)).Attends captured t k :=
        (hm₂.touches (.modifyTop _ _)).touches (.modifyTop _ _)
      obtain ⟨js, m₁, w, hw, hjoins, hrow, he'⟩ :=
        ih hm₃ hi₃ (hr₁.answered hm₁.runs.inner hm₂ hq hfree') hfree' hd
      refine ⟨_, m₁, w, .asked hF hR hw, ?_, hrow, he'⟩
      rw [hr.jointAt] at hF ⊢
      have hF' : Joint.finding ⟨a, right, m.atPair (i.b + lefts.length), some (.ok m₂.frame.peek)⟩ =
        .handler h args := hF
      exact .joined (Joint.result?_of_handler hF') hjoins

end Yields
end LuaMachine
