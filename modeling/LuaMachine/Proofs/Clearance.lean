import LuaMachine.Proofs.Clearance.Operations
import LuaMachine.Proofs.Places

namespace LuaMachine

open Machine Exec Relation

def Outcome.left? {α : Type} : Outcome α → Option Machine
  | .done _ m | .raised _ m => some m
  | .exhausted => none

theorem Outcome.Ends.left {α : Type} {K : Condition} {r : ThreadId} {o : Outcome α} {m : Machine}
    (h : o.Ends K r) (hm : o.left? = some m) : m.running = r ∧ ∃ y, K r y m := by
  cases o with
  | done a m' =>
    cases hm
    exact ⟨h.1, _, h.2⟩
  | raised e m' =>
    cases hm
    exact ⟨h.1, _, h.2⟩
  | exhausted => cases hm

/-- The machines that a host comes to which does one thing after another, and the threads in which it may
do so: the main one, and those that it has taken up. -/
inductive Host.Reaches (host : Host) : List ThreadId → Machine → Prop
  | new (limits : Limits) : host.Reaches [mainThread] (Machine.new limits)
  | performs {used : List ThreadId} {m m' : Machine} (fuel : Nat) (outer : Option ThreadId)
      (op : Operation) : host.Reaches used m → m.running ∈ used →
      (perform (host.reentry fuel) outer op m).left? = some m' → host.Reaches used m'
  | takes {used : List ThreadId} {m : Machine} {t : ThreadId} : host.Reaches used m → m.AtRest t →
      host.Reaches (t :: used) (m.taking t)
  | rests {used : List ThreadId} {m : Machine} (t previous : ThreadId) : host.Reaches used m →
      host.Reaches (used.filter (· ≠ t)) (m.resting t previous)

theorem Host.Reaches.clearAbove {host : Host} (hh : host.Tactful) {used : List ThreadId} {m : Machine}
    (h : host.Reaches used m) : m.ClearAbove (· ∈ used) := by
  induction h with
  | new limits => exact (ClearAbove.new limits).mono fun _ => List.mem_singleton.mp
  | performs fuel outer op _ hu hm ih =>
    have := Host.clears_reentry hh fuel
    have he := (keeps_performClear (host.reentry fuel) _ outer op).ends _ ⟨ih, hu⟩
    obtain ⟨-, -, hk, -⟩ := he.left hm
    exact hk
  | takes _ ht ih => exact (ih.taking ht).mono fun _ => List.mem_cons.mp
  | rests t previous _ ih =>
    refine (ih.mono fun _ hx => (List.mem_filter.mp hx).1).resting (fun ht => ?_) previous
    exact absurd (List.mem_filter.mp ht).2 (by simp)

/-- No frame but those of bytecode has got anything above its top. -/
structure Host.ClearsStacks (host : Host) : Prop where
  reached : ∀ {used : List ThreadId} {m : Machine} {t : ThreadId} {i : Nat} {f : Frame},
    host.Reaches used m → (m.threadAt t).frames[i]? = some f → ¬m.RunsBytecode f →
    ∀ s ≥ f.top, f.slot s = .nil
  session : ∀ {fuel : Nat} {limits : Limits} {library : Option Library} {operations : List Operation}
    {m : Machine}, (host.run fuel limits library operations).left? = some m →
    m.running = mainThread ∧ m.ClearAbove (· = mainThread)
  native : ∀ {up : ThreadId → Prop} {m : Machine} (fuel : Nat) (f : Native), m.ClearAbove up →
    up m.running → (host.invoke fuel f m).Ends (Condition.ClearAbove up up) m.running
  operation : ∀ {up : ThreadId → Prop} {m : Machine} (fuel : Nat) (outer : Option ThreadId)
    (op : Operation), m.ClearAbove up → up m.running →
    (perform (host.reentry fuel) outer op m).Ends (Condition.ClearAbove up up) m.running
  loop : ∀ {up : ThreadId → Prop} {m : Machine} {fuel stop : Nat} {site : Option CallSite} {p : Point},
    m.ClearAbove up → up m.running →
    ReflTransGen (Point.Moves (host.reentry fuel) stop) (.start m site) p →
    p.machine.running = m.running ∧ p.machine.ClearAbove up
  /-- The top goes up, and what it uncovers is nil. -/
  grown : ∀ {up : ThreadId → Prop} {m : Machine} {n : Nat}, m.ClearAbove up → m.HasFrame →
    ¬m.RunsBytecode m.frame → m.frame.top ≤ n → ∃ m', setTop n m = .done () m' ∧
      m'.frame.values = m.frame.values ++ List.replicate (n - m.frame.top) .nil
  filled : ∀ {m : Machine} (vs : List Value) (n : Nat), m.HasFrame → vs.length ≤ n →
    ∃ m', pushAdjusted vs n m = .done () m' ∧
      m'.frame.values = m.frame.values ++ vs ++ List.replicate (n - vs.length) .nil
  checked : ∀ n m, ∃ fits, checkStack n m = .done fits m

theorem Host.clearsStacks {host : Host} (hh : host.Tactful) : host.ClearsStacks where
  reached hr hf hb := (((hr.clearAbove hh).frames _ _ _ hf).resolve_left hb)
  session {fuel limits library operations _} hm := by
    have := Host.clears_reentry hh fuel
    let K := Condition.ClearAbove (· = mainThread) (· = mainThread)
    have he : (host.run fuel limits library operations).Ends K mainThread :=
      host.ends_session fuel limits library ⟨.new limits, rfl⟩ fun op _ =>
        keeps_performClear (host.reentry fuel) _ none op
    obtain ⟨hr, -, hk, -⟩ := he.left hm
    exact ⟨hr, hk⟩
  native {up _} fuel f hm hu := ((Host.clears_reentry hh fuel).invoke up f).ends _ ⟨hm, hu⟩
  operation {up _} fuel outer op hm hu :=
    have := Host.clears_reentry hh fuel
    (keeps_performClear (host.reentry fuel) up outer op).ends _ ⟨hm, hu⟩
  loop {up m fuel stop site p} hm hu hw := by
    have := Host.clears_reentry hh fuel
    have hi := this.invoke up
    have hd := this.dispatch up
    have hs : (Point.start m site).machine = m := Point.machine_start ..
    have hk := Point.walk_keepsIn (K := Condition.ClearAbove up up) hw (by rw [hs]; exact ⟨hm, hu⟩)
    rw [hs] at hk
    exact ⟨hk.1, hk.2.1⟩
  grown {up m n} hm hframe hb hn := by
    have hx := hframe.frame_modifyTop fun f =>
      f.setTop (if 0 ≤ (n : Int) then (n : Int) else f.top + n + 1).toNat
    rw [if_pos (Int.natCast_nonneg n), Int.toNat_natCast] at hx
    obtain ⟨k, hk⟩ : ∃ k, m.frameCount = k + 1 :=
      ⟨_, (Nat.sub_add_cancel (Nat.zero_lt_of_lt hframe.framed)).symm⟩
    have hf : m.frame.Clear := (hm.frames m.running k _ (getElem?_top hk)).resolve_left hb
    exact ⟨_, rfl, (congrArg Frame.values hx).trans (hf.values_setTop hn)⟩
  filled {m} vs n hframe hn := by
    have hx := hframe.frame_modifyTop (·.pushAll (adjust vs n))
    have ha : adjust vs n = vs ++ List.replicate (n - vs.length) .nil := by
      rw [adjust, if_neg (by omega), Int.toNat_natCast]
      dsimp only
      rw [List.take_of_length_le hn]
    refine ⟨_, rfl, (congrArg Frame.values hx).trans ?_⟩
    rw [Frame.values_pushAll, ha, List.append_assoc]
  checked n m := ⟨_, rfl⟩

/-- Arranges the stack of a coroutine, resumes it, and calls another function there once it has yielded. -/
def Host.arranging : Host :=
  { scripts := #[[.perform (.call .newThread), .perform (.stack (.pushScript 1)),
      .perform (.call (.moveTo 1 1)), .perform (.within 1 [.stack (.push (.int 7)), .stack (.setTop 1)]),
      .perform (.call (.resume 1 0 true)),
      .perform (.within 1 [.stack (.pushScript 2), .call (.call 0 1), .stack (.setTop 3)]), .retAll],
      [.perform (.call (.yield 0))], [.perform (.stack (.push (.int 5))), .ret 1]] }

def Host.arrangement : List Operation := [.stack (.pushScript 0), .call (.call 0 2)]

theorem Host.clearsStacks_arranging : arranging.Tactful ∧ ∃ m,
    (arranging.run 4 {} none arrangement).left? = some m ∧ m.ClearAbove (· = mainThread) := by
  have hh : arranging.Tactful := by decide
  have hl : (arranging.run 4 {} none arrangement).left?.isSome = true := by decide +kernel
  obtain ⟨m, hm⟩ := Option.isSome_iff_exists.mp hl
  exact ⟨hh, m, hm, ((clearsStacks hh).session hm).2⟩

def Prototype.negator : Prototype :=
  { registers := 3, code := #[.ofABC .unm 2 0 0, .ofABC .return 0 1 0] }

/-- A coroutine has yielded from a protected call, and it has been taken up again. The host is about to call
a function there that negates nil, which has a metamethod for that. -/
def Machine.drowsy : Machine :=
  { Machine.new {} with
    tables := #[{}, {}, { entries := [(.string Event.unm.key, .function ⟨1⟩)] }]
    metatables := [(.nil, ⟨2⟩)]
    functions := #[{ body := .bytecode .negator }, { body := .native (.script 0) },
      { body := .native (.builtin .pcall) }]
    threads := #[{ isMain := true, parked := false, phase := .running },
      { parked := false, status := .yield,
        pending := some { site := .guarded, wanted := -1, base := 0 },
        frames := #[{}, { window := #[.function ⟨0⟩], top := 1, function := some ⟨2⟩, wanted := -1,
                          guard := some { handler := none } }] }]
    running := ⟨1⟩ }

/-- The metamethod resumes the coroutine that it runs in, and returns 7. -/
def Host.meddling : Host :=
  { scripts := #[[.perform (.call (.resumeRunning 0)), .perform (.stack (.push (.int 7))), .ret 1]] }

theorem Machine.clearAbove_drowsy : drowsy.ClearAbove (· = mainThread) where
  captures := .of_empty rfl fun t => by
    match t with
    | ⟨0⟩ | ⟨1⟩ | ⟨_ + 2⟩ => rfl
  lexical t i f hf hc := by
    match t, i with
    | ⟨0⟩, 0 | ⟨1⟩, 0 | ⟨1⟩, 1 | ⟨_ + 2⟩, 0 =>
      cases hf
      exact absurd rfl hc
    | ⟨0⟩, _ + 1 | ⟨1⟩, _ + 2 | ⟨_ + 2⟩, _ + 1 => cases hf
  frames t i f hf := by
    match t, i with
    | ⟨0⟩, 0 | ⟨1⟩, 0 | ⟨1⟩, 1 | ⟨_ + 2⟩, 0 =>
      cases hf
      exact .inr (Frame.clear_of_window (Nat.le_refl _))
    | ⟨0⟩, _ + 1 | ⟨1⟩, _ + 2 | ⟨_ + 2⟩, _ + 1 => cases hf
  inUse t ht := by
    subst ht
    rfl

/-- The resume has not noticed that the coroutine is in use, and has run the rest of it. What the
metamethod returns gets into a frame that has no register for it, and shows when the top goes up. -/
theorem Machine.drowsy_exposed : drowsy.ClearAbove (· = mainThread) ∧
    let failed := call (Host.meddling.reentry 4) 0 0 drowsy
    failed.result? = some (.error outOfRange) ∧
    failed.machine.frameCount = 1 ∧ failed.machine.frame.function = none ∧
    failed.machine.frame.values = [] ∧ failed.machine.frame.slot 2 = .int 7 ∧
    (setTop 3 failed.machine).machine.frame.values = [.nil, .nil, .int 7] :=
  ⟨clearAbove_drowsy, by decide +kernel, by decide +kernel, by decide +kernel, by decide +kernel,
    by decide +kernel, by decide +kernel⟩

end LuaMachine
