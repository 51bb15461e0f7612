import LuaMachine.Proofs.Limits.Depth

namespace LuaMachine

open Machine Exec

structure Role where
  isMain : Bool
  parked : Bool
  phase : Phase

def Thread.role (th : Thread) : Role := ⟨th.isMain, th.parked, th.phase⟩

abbrev Roles := ThreadId → Role

def Machine.roles (m : Machine) : Roles := fun t => (m.threadAt t).role

namespace Roles

variable {roles roles' : Roles} {named named' : Bool} {chain : List ThreadId} {s t : ThreadId}

/-- The first thread of the chain is running, and each of the others has resumed the one before it.
The phase of a thread that has no name is left alone, which only the main thread can lack. -/
structure Ordered (roles : Roles) (named : Bool) (chain : List ThreadId) : Prop where
  distinct : chain.Nodup
  root : chain.getLast? = some mainThread
  main : ∀ t, (roles t).isMain = true ↔ t = mainThread
  parked : ∀ t, (roles t).parked = true ↔ t ∉ chain
  resting : ∀ t ∉ chain, (roles t).phase = .suspended ∨ (roles t).phase = .dead
  running : ∀ t ∈ chain.head?, (roles t).phase = .running
  waiting : ∀ t ∈ chain.tail,
    (roles t).phase = if t = mainThread ∧ named = false then .running else .normal

theorem Ordered.phases {r : ThreadId} (h : roles.Ordered named (r :: chain))
    (hn : named = true ∨ chain = []) (t : ThreadId) :
    ((roles t).phase = .running ↔ t = r) ∧ ((roles t).phase = .normal ↔ t ∈ chain) ∧
      ((roles t).parked = true ↔ (roles t).phase = .suspended ∨ (roles t).phase = .dead) := by
  by_cases hr : t = r
  · subst hr
    have hp := h.running t rfl
    have hk : (roles t).parked = false :=
      Bool.eq_false_iff.mpr fun hk => (h.parked t).mp hk List.mem_cons_self
    have hc := (List.nodup_cons.mp h.distinct).1
    simp [hp, hk, hc]
  by_cases hc : t ∈ chain
  · have hp : (roles t).phase = .normal := by
      rw [h.waiting t hc, if_neg]
      rintro ⟨-, hf⟩
      rcases hn with hn | hn
      · rw [hn] at hf
        cases hf
      · rw [hn] at hc
        cases hc
    have hk : (roles t).parked = false :=
      Bool.eq_false_iff.mpr fun hk => (h.parked t).mp hk (List.mem_cons_of_mem _ hc)
    simp [hp, hk, hr, hc]
  · have ht : t ∉ r :: chain := fun hm => (List.mem_cons.mp hm).elim hr hc
    have hk := (h.parked t).mpr ht
    rcases h.resting t ht with hp | hp <;> simp [hp, hk, hr, hc]

theorem Ordered.resumes (h : roles.Ordered named (s :: chain)) (ht : t ∉ s :: chain)
    (hn : chain ≠ [] → named' = named) (hmain : ∀ x, (roles' x).isMain = (roles x).isMain)
    (hparked : ∀ x ≠ t, (roles' x).parked = (roles x).parked) (hself : (roles' t).parked = false)
    (hphase : ∀ x ≠ t, x ≠ s → (roles' x).phase = (roles x).phase)
    (hrun : (roles' t).phase = .running)
    (hwait : (roles' s).phase = if s = mainThread ∧ named' = false then .running else .normal) :
    roles'.Ordered named' (t :: s :: chain) where
  distinct := List.nodup_cons.mpr ⟨ht, h.distinct⟩
  root := by rw [List.getLast?_cons_cons, h.root]
  main x := by rw [hmain, h.main]
  parked x := by
    by_cases hx : x = t
    · subst hx
      simp [hself]
    · rw [hparked x hx, h.parked, List.mem_cons (a := x) (b := t)]
      simp [hx]
  resting x hx := by
    have hxt : x ≠ t := fun he => hx (he ▸ List.mem_cons_self)
    have hxs : x ∉ s :: chain := fun hm => hx (List.mem_cons_of_mem _ hm)
    rw [hphase x hxt fun he => hxs (he ▸ List.mem_cons_self)]
    exact h.resting x hxs
  running x hx := by
    cases hx
    exact hrun
  waiting x hx := by
    rcases List.mem_cons.mp hx with rfl | hc
    · exact hwait
    · have hxs : x ≠ s := fun he => (List.nodup_cons.mp h.distinct).1 (he ▸ hc)
      rw [hphase x (fun he => ht (he ▸ hx)) hxs, h.waiting x hc,
        hn fun he => by rw [he] at hc; cases hc]

theorem Ordered.returns (h : roles.Ordered named' (t :: s :: chain))
    (hn : chain ≠ [] → named' = named) (hmain : ∀ x, (roles' x).isMain = (roles x).isMain)
    (hparked : ∀ x ≠ t, (roles' x).parked = (roles x).parked) (hself : (roles' t).parked = true)
    (hphase : ∀ x ≠ t, x ≠ s → (roles' x).phase = (roles x).phase)
    (hrest : (roles' t).phase = .suspended ∨ (roles' t).phase = .dead)
    (hrun : (roles' s).phase = .running) : roles'.Ordered named (s :: chain) where
  distinct := (List.nodup_cons.mp h.distinct).2
  root := by rw [← h.root, List.getLast?_cons_cons]
  main x := by rw [hmain, h.main]
  parked x := by
    by_cases hx : x = t
    · subst hx
      simpa [hself] using (List.nodup_cons.mp h.distinct).1
    · rw [hparked x hx, h.parked, List.mem_cons (a := x) (b := t)]
      simp [hx]
  resting x hx := by
    by_cases hxt : x = t
    · exact hxt ▸ hrest
    · rw [hphase x hxt fun he => hx (he ▸ List.mem_cons_self)]
      exact h.resting x fun hm => (List.mem_cons.mp hm).elim hxt hx
  running x hx := by
    cases hx
    exact hrun
  waiting x hx := by
    have hns := List.nodup_cons.mp h.distinct
    have hm : x ∈ s :: chain := List.mem_cons_of_mem _ hx
    rw [hphase x (fun he => hns.1 (he ▸ hm)) fun he => (List.nodup_cons.mp hns.2).1 (he ▸ hx),
      h.waiting x hm, hn fun he => by rw [he] at hx; cases hx]

/-- The main thread, and no other, resumes without having been resumed. -/
theorem Ordered.source (h : roles.Ordered named (s :: chain)) : s = mainThread ↔ chain = [] := by
  constructor
  · rintro rfl
    cases chain with
    | nil => rfl
    | cons x chain =>
      have hl : (x :: chain).getLast? = some mainThread := by rw [← h.root, List.getLast?_cons_cons]
      exact absurd (List.mem_of_getLast? hl) (List.nodup_cons.mp h.distinct).1
  · rintro rfl
    exact Option.some.inj h.root

theorem Ordered.not_mem (h : roles.Ordered named chain) (ht : (roles t).phase = .dead) :
    t ∉ chain := by
  intro hm
  cases chain with
  | nil => cases hm
  | cons r chain =>
    rcases List.mem_cons.mp hm with rfl | hc
    · cases ht.symm.trans (h.running t rfl)
    · have hw := ht.symm.trans (h.waiting t hc)
      split at hw <;> cases hw

theorem Ordered.mem_main (h : roles.Ordered named chain) : mainThread ∈ chain :=
  List.mem_of_getLast? h.root

end Roles

class Condition.OnRoles (K : Condition) : Prop where
  congr : ∀ {r y y' m m'}, K r y m → m'.roles = m.roles → K r y' m'

namespace Machine

variable {m m' : Machine} {t : ThreadId}

theorem roles_congr (h : m'.threads = m.threads) : m'.roles = m.roles := by
  unfold roles threadAt
  rw [h]

theorem roles_modify (m : Machine) (t : ThreadId) {g : Thread → Thread}
    (hg : ∀ th, (g th).role = th.role) :
    ({ m with threads := m.threads.modify t.index g } : Machine).roles = m.roles :=
  funext fun t' => fields_modify Thread.role m t t' hg

theorem roles_modifyTop (m : Machine) (t : ThreadId) (g : Frame → Frame) :
    (m.modifyTop t g).roles = m.roles := roles_modify m t fun _ => rfl

theorem threadAt_newThread (m : Machine) (t : ThreadId) :
    ({ m with threads := m.threads.push {} } : Machine).threadAt t = m.threadAt t := by
  simp only [threadAt, Array.getD_eq_getD_getElem?, Array.getElem?_push]
  split
  · next h =>
    rw [h, Array.getElem?_eq_none (Nat.le_refl _)]
    rfl
  · rfl

end Machine

theorem Roles.Ordered.new (limits : Limits) (named : Bool) :
    (Machine.new limits).roles.Ordered named [mainThread] := by
  have hother : ∀ t, t ≠ mainThread → (Machine.new limits).roles t = ⟨false, true, .suspended⟩ := by
    rintro ⟨_ | i⟩ ht
    · exact absurd rfl ht
    · rfl
  refine ⟨by simp, rfl, fun t => ?_, fun t => ?_, fun t ht => ?_, fun t ht => ?_, nofun⟩
  · by_cases ht : t = mainThread
    · subst ht
      exact ⟨fun _ => rfl, fun _ => rfl⟩
    · rw [hother t ht]
      exact ⟨nofun, fun h => absurd h ht⟩
  · by_cases ht : t = mainThread
    · subst ht
      exact ⟨nofun, fun h => absurd List.mem_cons_self h⟩
    · rw [hother t ht]
      exact ⟨fun _ h => ht (List.mem_singleton.mp h), fun _ => rfl⟩
  · rw [hother t fun he => ht (List.mem_singleton.mpr he)]
    exact .inl rfl
  · cases ht
    rfl

namespace Condition.OnRoles

variable {K : Condition} [hK : K.OnRoles]

instance steady : K.Steady where
  heap _ _ ht _ _ _ h := hK.congr h (roles_congr ht)
  closed _ h := hK.congr h rfl
  assigned _ _ _ _ h := hK.congr h rfl
  closing {r _ m} _ h := hK.congr h ((roles_modifyTop (m.closeAll _) r _).trans rfl)
  capturing {r _ m} _ _ _ h := hK.congr h
    ((roles_modifyTop { m with upvalues := m.upvalues.push _ } r _).trans rfl)
  top _ _ _ h := hK.congr h (roles_modifyTop ..)
  frame _ _ _ _ _ h := hK.congr h (roles_modify _ _ fun _ => rfl)
  register _ _ _ _ h := hK.congr h (roles_modify _ _ fun _ => rfl)
  thread h := hK.congr h (funext fun t => congrArg Thread.role (threadAt_newThread _ t))
  transfer _ h := hK.congr h (roles_modify _ _ fun _ => rfl)

instance framed : K.Framed where
  thread g hg h := hK.congr h (roles_modify _ _ fun th => by
    rw [Thread.role, hg.isMain, hg.parked, hg.phase, Thread.role])
  guard _ h := hK.congr h (roles_modifyTop ..)
  enter _ _ _ h := hK.congr h (roles_modify _ _ fun _ => rfl)
  leave h := hK.congr h (roles_modify _ _ fun _ => rfl)

instance deaf : K.Deaf := ⟨fun _ => ⟨fun h => hK.congr h rfl, fun h => hK.congr h rfl⟩⟩

end Condition.OnRoles
end LuaMachine
